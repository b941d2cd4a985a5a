import OrbiterSdk.Core.Schedule
import OrbiterSdk.Core.Verdict

namespace OrbiterSdk

/-!
# The mempool after a block

`refreshMempool` empties the mempool and files the old transactions again, as far as they pass
`validateTransactionInternal`.  That function lets everything pass whose hash is in the
mempool, which is the map that is being rebuilt.

* `Filed` — every transaction is in the mempool under its own hash, so while the map is rebuilt
  no other transaction can be there under the hash that is looked for;
* `revalidate_lookup_iff` — what the loop files, for the entries in any order;
* `mempool_of_block` — the mempool after an accepted block, at the end of any run.
-/

namespace State

open Accounts

variable {C : Crypto} {depth : Nat}

/-! ### Transactions are filed under their hashes -/

/-- The keys of the mempool are the hashes of its transactions. -/
def Filed (C : Crypto) (s : State) : Prop :=
  ∀ hash tx, s.mempool.lookup hash = some tx → hash = tx.hash C true

/-- What a block leaves in the mempool was there before, however the block ends. -/
theorem processNextBlock_lookup {s : State} {block : Block} {p : Except Exn Unit × State}
    (hp : s.processNextBlock C depth block = some p) {hash : Hash} {tx : TxBlock}
    (h : p.2.mempool.lookup hash = some tx) : s.mempool.lookup hash = some tx := by
  have hrefresh : ∀ {s₁ s₂ : State} {rdpos : RdPoS} {r : Except Exn Unit},
      processTransactions C depth block.txs s = some (.ok (), s₁) →
      ({ s₁ with rdpos } : State).refreshMempool C block = (r, s₂) →
      s₂.mempool.lookup hash = some tx → s.mempool.lookup hash = some tx := by
    intro s₁ s₂ rdpos r hs₁ hm hl
    rw [← (processTransactions_frame hs₁).1]
    refine refreshMempool_lookup (s := { s₁ with rdpos }) (C := C) block ?_
    rw [hm]
    exact hl
  cases processNextBlock_run hp with
  | refused e => exact h
  | stopped e s₁ _ hs₁ => rwa [← (processTransactions_frame hs₁).1]
  | unfinalized e s₁ _ hs₁ => rwa [← (processTransactions_frame hs₁).1]
  | unpushed e s₁ rdpos r mempool _ hs₁ _ hm => exact hrefresh hs₁ hm h
  | accepted s₁ rdpos mempool storage _ hs₁ _ hm => exact hrefresh hs₁ hm h

theorem Filed.step {s s' : State} {op : Op} (h : Filed C s) (hs : op.apply C depth s = some s') :
    Filed C s' := by
  cases apply_run hs with
  | refused tx => exact h
  | filed tx hv =>
    intro hash t hl
    change (s.mempool.emplace (tx.hash C true) tx).lookup hash = some t at hl
    by_cases hh : hash = tx.hash C true
    · by_cases hmem : tx.hash C true ∈ s.mempool
      · rw [AssocMap.lookup_emplace_of_mem _ hmem] at hl
        exact h hash t hl
      · rw [hh, AssocMap.lookup_emplace_self_of_notMem _ hmem] at hl
        cases hl
        exact hh
    · rw [AssocMap.lookup_emplace_ne _ hh] at hl
      exact h hash t hl
  | delivered tx pool => exact h
  | filled a x => exact h
  | processed block p hp =>
    intro hash tx hl
    exact h hash tx (processNextBlock_lookup hp hl)
  | viewed info manager => exact h
  | simulated info manager => exact h

theorem filed_of_run {s₀ s : State} {ops : List Op} (hempty : s₀.mempool = ∅)
    (hrun : Machine.run (Op.apply C depth) ops s₀ = some s) : Filed C s := by
  refine Machine.run_invariant (fun _ _ _ h _ hs => Filed.step h hs) ?_
    (Machine.along_of_forall (P := fun _ _ => True) (fun _ _ => trivial) ops s₀) hrun
  intro hash tx hl
  rw [hempty] at hl
  cases hl

/-! ### The refresh -/

theorem validAt_congr {s t : State} (h : s.accounts = t.accounts) (tx : TxBlock) :
    s.ValidAt tx ↔ t.ValidAt tx := by
  constructor
  · rintro ⟨hmem, hnonce, hcovered⟩
    rw [h] at hmem hnonce hcovered
    exact ⟨hmem, hnonce, hcovered⟩
  · rintro ⟨hmem, hnonce, hcovered⟩
    rw [← h] at hmem hnonce hcovered
    exact ⟨hmem, hnonce, hcovered⟩

/-- A transaction whose hash is not in the mempool passes exactly when it could be executed. -/
theorem validateTransactionInternal_iff {s : State} {tx : TxBlock}
    (hmem : tx.hash C true ∉ s.mempool) :
    s.validateTransactionInternal C tx = .ok .NotInvalid ↔ s.ValidAt tx := by
  constructor
  · intro h
    exact (validateTransactionInternal_ok h).resolve_left hmem
  · intro h
    rw [validateTransactionInternal_eq, if_neg hmem]
    exact h.check

/-- What the erasures leave: everything that is not in the block. -/
theorem lookup_erased {txs : List TxBlock} {m : AssocMap Hash TxBlock} {k : Hash} {t : TxBlock} :
    (txs.foldl (fun m tx => m.erase (tx.hash C true)) m).lookup k = some t ↔
      m.lookup k = some t ∧ k ∉ txs.map fun tx => tx.hash C true := by
  induction txs generalizing m with
  | nil => simp
  | cons tx txs ih =>
    rw [List.foldl_cons, ih, List.map_cons, List.mem_cons, not_or]
    by_cases hk : k = tx.hash C true
    · rw [hk, AList.lookup_erase]
      simp
    · rw [AList.lookup_erase_ne hk]
      simp [hk]

/-- **The loop of the refresh.**  The old entries, in any order, are filed again exactly if they
    could be executed.  As their keys differ and none of them is in the map yet, the mempool
    that is being rebuilt never vouches for a transaction. -/
theorem revalidate_lookup_iff {s : State} {es : List (Sigma fun _ : Hash => TxBlock)}
    (hkeys : (es.map Sigma.fst).Nodup) (hfiled : ∀ e ∈ es, e.1 = e.2.hash C true)
    (hpriced : ∀ e ∈ es, ∃ x, e.2.valueWithFees = .ok x) (hfresh : ∀ e ∈ es, e.1 ∉ s.mempool)
    {k : Hash} {t : TxBlock} :
    (revalidate C s es).2.mempool.lookup k = some t ↔
      s.mempool.lookup k = some t ∨ ⟨k, t⟩ ∈ es ∧ s.ValidAt t := by
  induction es generalizing s with
  | nil => simp [revalidate]
  | cons e es ih =>
    obtain ⟨hash, tx⟩ := e
    obtain ⟨hnotMem, hkeys⟩ := List.nodup_cons.mp hkeys
    have hhash : hash = tx.hash C true := hfiled ⟨hash, tx⟩ (by simp)
    have hnew : hash ∉ s.mempool := hfresh ⟨hash, tx⟩ (by simp)
    have hfiled' : ∀ e ∈ es, e.1 = e.2.hash C true := fun e he => hfiled e (by simp [he])
    have hpriced' : ∀ e ∈ es, ∃ x, e.2.valueWithFees = .ok x := fun e he => hpriced e (by simp [he])
    have hfresh' : ∀ e ∈ es, e.1 ∉ s.mempool := fun e he => hfresh e (by simp [he])
    have hvalid := validateTransactionInternal_iff (s := s) (hhash ▸ hnew : tx.hash C true ∉ _)
    unfold revalidate
    split
    · -- The amount fits, so the check does not throw.
      rename_i he
      obtain ⟨x, hx⟩ := hpriced ⟨hash, tx⟩ (by simp)
      exact absurd hx (validateTransactionInternal_error he x)
    · rename_i hv
      have hfresh'' : ∀ e ∈ es, e.1 ∉ s.mempool.emplace hash tx := by
        intro e he hmem
        rcases AssocMap.mem_emplace.mp hmem with heq | hmem
        · exact hnotMem (List.mem_map.mpr ⟨e, he, heq⟩)
        · exact hfresh' e he hmem
      have hsame : State.ValidAt { s with mempool := s.mempool.emplace hash tx } t ↔ s.ValidAt t :=
        validAt_congr (by rfl) t
      rw [ih hkeys hfiled' hpriced' hfresh'', hsame]
      show (s.mempool.emplace hash tx).lookup k = some t ∨ _ ↔ _
      by_cases hk : k = hash
      · subst hk
        have hnone : s.mempool.lookup k = none := AList.lookup_eq_none.mpr hnew
        have hes : ⟨k, t⟩ ∉ es := fun he => hnotMem (List.mem_map.mpr ⟨_, he, rfl⟩)
        rw [AssocMap.lookup_emplace_self_of_notMem _ hnew, hnone]
        constructor
        · rintro (heq | ⟨he, -⟩)
          · cases heq
            exact Or.inr ⟨by simp, hvalid.mp hv⟩
          · exact absurd he hes
        · rintro (heq | ⟨he, -⟩)
          · cases heq
          · rcases List.mem_cons.mp he with heq | he
            · cases heq
              exact Or.inl rfl
            · exact absurd he hes
      · rw [AssocMap.lookup_emplace_ne _ hk]
        simp [hk]
    · rename_i r hne hv
      have hno : ¬ s.ValidAt tx := by
        intro hv'
        rw [hvalid.mpr hv', Except.ok.injEq] at hv
        exact hne hv.symm
      rw [ih hkeys hfiled' hpriced' hfresh']
      constructor
      · rintro (hl | ⟨he, ht⟩)
        · exact Or.inl hl
        · exact Or.inr ⟨List.mem_cons_of_mem _ he, ht⟩
      · rintro (hl | ⟨he, ht⟩)
        · exact Or.inl hl
        · rcases List.mem_cons.mp he with heq | he
          · cases heq
            exact absurd ht hno
          · exact Or.inr ⟨he, ht⟩

/-- The entries a refresh copies before it clears the mempool. -/
def mempoolCopy (C : Crypto) (s : State) (block : Block) : AssocMap Hash TxBlock :=
  block.txs.foldl (fun m tx => m.erase (tx.hash C true)) s.mempool

/-- What the loop files out of the copy, whatever order the copy is iterated in. -/
theorem revalidate_mempoolCopy {s : State} (hfiled : Filed C s) (hpriced : s.Priced)
    {block : Block} {es : List (Sigma fun _ : Hash => TxBlock)}
    (hes : es.Perm (s.mempoolCopy C block).entries) {t : State} (hempty : t.mempool = ∅)
    (hash : Hash) (tx : TxBlock) :
    (revalidate C t es).2.mempool.lookup hash = some tx ↔
      s.mempool.lookup hash = some tx ∧ hash ∉ (block.txs.map fun tx => tx.hash C true) ∧
        t.ValidAt tx := by
  have hold : ∀ e ∈ es, s.mempool.lookup e.1 = some e.2 := by
    intro e he
    exact (lookup_erased.mp (AList.mem_lookup_iff.mpr (hes.mem_iff.mp he))).1
  have hkeys : (es.map Sigma.fst).Nodup :=
    (hes.map Sigma.fst).nodup_iff.mpr (s.mempoolCopy C block).keys_nodup
  rw [revalidate_lookup_iff hkeys (fun e he => hfiled _ _ (hold e he))
    (fun e he => hpriced _ _ (hold e he)) (fun e _ => by rw [hempty]; exact AList.notMem_empty _),
    hempty, hes.mem_iff, ← AList.mem_lookup_iff]
  show _ ∨ (s.mempoolCopy C block).lookup hash = some tx ∧ _ ↔ _
  rw [mempoolCopy, lookup_erased, and_assoc]
  simp

/-- **The mempool after a block.**  After any run and an accepted block the mempool holds
    exactly the transactions that were there before, are not in the block and could be executed
    on the accounts the block left.  Any other order of the copy gives the same map. -/
theorem mempool_of_block {s₀ s s' : State} {ops : List Op} {block : Block} (h₀ : s₀.Initial)
    (hrun : Machine.run (Op.apply C depth) ops s₀ = some s)
    (hp : s.processNextBlock C depth block = some (.ok (), s')) :
    (∀ hash tx, s'.mempool.lookup hash = some tx ↔
        s.mempool.lookup hash = some tx ∧ hash ∉ (block.txs.map fun tx => tx.hash C true) ∧
          s'.ValidAt tx) ∧
      ∀ order, order.Perm (s.mempoolCopy C block).entries → ∀ hash,
        (revalidate C { s' with mempool := ∅ } order).2.mempool.lookup hash =
          s'.mempool.lookup hash := by
  have hfiled : Filed C s := filed_of_run h₀.mempool hrun
  have hpriced : s.Priced := priced_of_run h₀.mempool hrun
  have hblock : ∀ hash tx, s'.mempool.lookup hash = some tx ↔
      s.mempool.lookup hash = some tx ∧ hash ∉ (block.txs.map fun tx => tx.hash C true) ∧
        s'.ValidAt tx := by
    intro hash tx
    cases processNextBlock_run hp with
    | accepted s₁ rdpos mempool storage _ hs₁ _ hm _ =>
      have hcopy : s₁.mempoolCopy C block = s.mempoolCopy C block := by
        rw [mempoolCopy, mempoolCopy, (processTransactions_frame hs₁).1]
      have hlook := revalidate_mempoolCopy (t := { s₁ with rdpos, mempool := ∅ }) hfiled hpriced
        (List.Perm.refl (s.mempoolCopy C block).entries) rfl hash tx
      rw [← hcopy] at hlook
      have hpool : (revalidate C { s₁ with rdpos, mempool := ∅ }
          (s₁.mempoolCopy C block).entries).2.mempool = mempool :=
        congrArg (fun r => r.2.mempool) hm
      rw [hpool] at hlook
      -- The refresh and the rest of the block see the same accounts.
      exact hlook.trans (and_congr_right fun _ => and_congr_right fun _ => validAt_congr (by rfl) tx)
  refine ⟨hblock, fun order horder hash => Option.ext fun tx => ?_⟩
  have hlook := revalidate_mempoolCopy (t := { s' with mempool := ∅ }) hfiled hpriced horder rfl
    hash tx
  have hsame : State.ValidAt { s' with mempool := ∅ } tx ↔ s'.ValidAt tx :=
    validAt_congr (by rfl) tx
  rw [hsame] at hlook
  exact hlook.trans (hblock hash tx).symm

/-- A node has two transactions of the genesis account with the same nonce.  A block without
    transactions leaves both of them; a block with the first one makes the second one void. -/
theorem mempool_of_block_transfer :
    ∃ s₀ s t u, genesis Recorded.crypto = .ok s₀ ∧
      Machine.run (Op.apply Recorded.crypto 1)
        [.addTx Recorded.transfer, .addTx Recorded.rdPoSCall] s₀ = some s ∧
      s.processNextBlock Recorded.crypto 1 (Recorded.block []) = some (.ok (), t) ∧
      s.processNextBlock Recorded.crypto 1 (Recorded.block [Recorded.transfer]) =
        some (.ok (), u) ∧
      t.ValidAt Recorded.rdPoSCall ∧ ¬ u.ValidAt Recorded.rdPoSCall := by
  have hlook : Recorded.start (fun s₀ =>
      let s := ((s₀.addTx Recorded.crypto Recorded.transfer).2.addTx Recorded.crypto
        Recorded.rdPoSCall).2
      let hash := Recorded.rdPoSCall.hash Recorded.crypto true
      Recorded.settled (s.processNextBlock Recorded.crypto 1 (Recorded.block [])) fun t =>
      Recorded.settled (s.processNextBlock Recorded.crypto 1
        (Recorded.block [Recorded.transfer])) fun u =>
        some (decide (s.mempool.lookup hash = some Recorded.rdPoSCall ∧
          t.mempool.lookup hash = some Recorded.rdPoSCall ∧ u.mempool.lookup hash = none))) =
      some true := by
    decide +kernel
  obtain ⟨s₀, hs₀, hlook⟩ := Recorded.start_eq_some hlook
  obtain ⟨t, ht, hlook⟩ := Recorded.settled_eq_some hlook
  obtain ⟨u, hu, hlook⟩ := Recorded.settled_eq_some hlook
  obtain ⟨hold, hkept, hgone⟩ := of_decide_eq_true (Option.some.inj hlook)
  have hrun : Machine.run (Op.apply Recorded.crypto 1)
      [.addTx Recorded.transfer, .addTx Recorded.rdPoSCall] s₀ =
        some ((s₀.addTx Recorded.crypto Recorded.transfer).2.addTx Recorded.crypto
          Recorded.rdPoSCall).2 := rfl
  have hinit := genesis_initial hs₀
  refine ⟨s₀, _, t, u, hs₀, hrun, ht, hu, ?_, fun hvalid => ?_⟩
  · exact (((mempool_of_block hinit hrun ht).1 _ _).mp hkept).2.2
  · have hlater := ((mempool_of_block hinit hrun hu).1 _ _).mpr ⟨hold, by decide +kernel, hvalid⟩
    rw [hgone] at hlater
    cases hlater

end State

end OrbiterSdk
