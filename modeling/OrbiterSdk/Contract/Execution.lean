import OrbiterSdk.Contract.Dynamic

namespace OrbiterSdk

/-!
# What a call does

The specification of `ethCall`, by one induction on the contract code inside one on the
depth.  `Steps accounts me m m' t` collects everything a frame of `me` does between two
points of its execution:

* to the variables: the frame runs the abstract `CallTree` of its trace over `cells`
  (`Steps.cells`);
* to the native tokens: the balances seen by contracts are those of the abstract ledger
  (`Steps.view`, `Steps.legal`);
* to the rest of the manager: nothing (`Steps.shape`).

`Steps` composes (`Steps.trans`); there is one lemma per constructor of `Prog` that adds a
step.  `ethCall_sound` is the result, everything about transactions starts from it.
-/

namespace ContractManager

/-! ### Views of the manager -/

/-- The variables of every contract with its commit flag, as abstract cells. -/
def cells (m : ContractManager) : Cells Address Loc (Option Val) where
  com a l := (m.contracts.lookup a).bind fun c => c.store.com l
  cur a l := (m.contracts.lookup a).bind fun c => c.store.cur l
  flag a := ((m.contracts.lookup a).map fun c => c.locals.commit).getD false

/-- What running contract code leaves alone: the deployed contracts and their code, and the
    locals of the manager and of rdPoS. -/
def shape (m : ContractManager) :
    List Address × (Address → Option (String × Code)) × ContractLocals × ContractLocals :=
  (m.contracts.keys, fun a => (m.contracts.lookup a).map fun c => (c.contractName, c.code),
    m.locals, m.rdposLocals)

/-- The deployed contracts, in order, with their names and code. -/
def deployed (m : ContractManager) : List Address × (Address → Option (String × Code)) :=
  (m.contracts.keys, fun a => (m.contracts.lookup a).map fun c => (c.contractName, c.code))

/-- Every contract's variables are well formed. -/
def Good (m : ContractManager) : Prop := ∀ a c, m.contracts.lookup a = some c → c.store.WF

/-- The balances contract code sees: the temporary ones over those of `State`. -/
def view (accounts : Accounts) (m : ContractManager) (a : Address) : Nat :=
  ((m.balances.lookup a).getD (Interface.stateBalance accounts a)).val

theorem shape_modifyContract (m : ContractManager) (a : Address)
    {f : DynamicContract → DynamicContract}
    (hf : ∀ c, (f c).contractName = c.contractName ∧ (f c).code = c.code) :
    (m.modifyContract a f).shape = m.shape := by
  simp only [shape, modifyContract, AssocMap.keys_modify, AssocMap.lookup_modify]
  congr 2
  funext b
  split
  · cases m.contracts.lookup b with
    | none => rfl
    | some c => simp [hf c]
  · rfl

theorem shape_modifyStore (m : ContractManager) (a : Address) (f : Store → Store) :
    (m.modifyStore a f).shape = m.shape := shape_modifyContract _ _ fun _ => ⟨rfl, rfl⟩

theorem shape_modifyLocals (m : ContractManager) (a : Address)
    (f : ContractLocals → ContractLocals) : (m.modifyLocals a f).shape = m.shape :=
  shape_modifyContract _ _ fun _ => ⟨rfl, rfl⟩

theorem mem_of_shape {m m' : ContractManager} (h : m'.shape = m.shape) {a : Address} :
    a ∈ m'.contracts ↔ a ∈ m.contracts := by
  have hkeys : m'.contracts.keys = m.contracts.keys := congrArg Prod.fst h
  show a ∈ m'.contracts.keys ↔ a ∈ m.contracts.keys
  rw [hkeys]

theorem deployed_of_shape {m m' : ContractManager} (h : m'.shape = m.shape) :
    m'.deployed = m.deployed := congrArg (fun x => (x.1, x.2.1)) h

theorem lookup_of_shape {m m' : ContractManager} (h : m'.shape = m.shape) (a : Address) :
    (m'.contracts.lookup a).map (fun c => (c.contractName, c.code)) =
      (m.contracts.lookup a).map fun c => (c.contractName, c.code) :=
  congrFun (congrArg (fun x => x.2.1) h) a

theorem locals_of_shape {m m' : ContractManager} (h : m'.shape = m.shape) :
    m'.locals = m.locals := congrArg (fun x => x.2.2.1) h

theorem lookup_modifyContract (m : ContractManager) (a b : Address)
    (f : DynamicContract → DynamicContract) :
    (m.modifyContract a f).contracts.lookup b =
      if b = a then (m.contracts.lookup b).map f else m.contracts.lookup b :=
  AssocMap.lookup_modify _ _ _ _

theorem good_modifyContract {m : ContractManager} (h : m.Good) {a : Address}
    {f : DynamicContract → DynamicContract}
    (hf : ∀ c, m.contracts.lookup a = some c → (f c).store.WF) : (m.modifyContract a f).Good := by
  intro b c hc
  rw [lookup_modifyContract] at hc
  split at hc
  · rename_i hba
    subst hba
    obtain ⟨c', hc', rfl⟩ := Option.map_eq_some_iff.mp hc
    exact hf c' hc'
  · exact h b c hc

theorem good_modifyLocals {m : ContractManager} (h : m.Good) (a : Address)
    (f : ContractLocals → ContractLocals) : (m.modifyLocals a f).Good :=
  good_modifyContract h fun c hc => h a c hc

theorem cells_modifyContract {m : ContractManager} {a : Address} {c : DynamicContract}
    (hc : m.contracts.lookup a = some c) (f : DynamicContract → DynamicContract) :
    (m.modifyContract a f).cells =
      { com := Function.update m.cells.com a fun l => (f c).store.com l
        cur := Function.update m.cells.cur a fun l => (f c).store.cur l
        flag := Function.update m.cells.flag a (f c).locals.commit } := by
  ext b
  all_goals
    simp only [cells, lookup_modifyContract]
    by_cases hb : b = a
    · subst hb; simp [hc]
    · simp [hb]

theorem cells_of_lookup {m : ContractManager} {a : Address} {c : DynamicContract}
    (hc : m.contracts.lookup a = some c) :
    m.cells.com a = c.store.com ∧ m.cells.cur a = c.store.cur ∧
      m.cells.flag a = c.locals.commit := by
  simp [cells, hc]

theorem cells_modifyStore {m : ContractManager} {a : Address} {c : DynamicContract}
    (hc : m.contracts.lookup a = some c) {f : Store → Store} {w : Option (Loc × Option Val)}
    (hf : Store.Effect c.store (f c.store) w) :
    (m.modifyStore a f).cells =
      match w with
      | none => m.cells
      | some (l, x) => m.cells.write a l x := by
  obtain ⟨hcom, hcur, hflag⟩ := cells_of_lookup hc
  have hsame : (m.modifyStore a f).cells =
      { m.cells with cur := Function.update m.cells.cur a (f c.store).cur } := by
    rw [modifyStore, cells_modifyContract hc]
    simp only [hf.com, ← hcom, ← hflag, Function.update_eq_self]
  rw [hsame, hf.cur, ← hcur]
  cases w with
  | none => simp only [Function.update_eq_self]
  | some w =>
    ext b l
    · rfl
    · by_cases hb : b = a
      · subst hb
        by_cases hl : l = w.1 <;> simp [hl, Cells.write, Cells.put]
      · simp [hb, Cells.write, Cells.put]
    · rfl

theorem cells_modifyLocals {m : ContractManager} {a : Address} (ha : a ∈ m.contracts) {b : Bool}
    {f : ContractLocals → ContractLocals} (hf : ∀ l, (f l).commit = b) :
    (m.modifyLocals a f).cells = m.cells.setFlag a b := by
  obtain ⟨c, hc⟩ := AssocMap.mem_iff_lookup.mp ha
  obtain ⟨hcom, hcur, _⟩ := cells_of_lookup hc
  rw [modifyLocals, cells_modifyContract hc]
  simp only [← hcom, ← hcur, hf, Function.update_eq_self]
  ext x
  · rfl
  · rfl
  · by_cases hx : x = a <;> simp [hx, Cells.setFlag]

theorem cells_updateState {m : ContractManager} {a : Address} {c : DynamicContract}
    (hc : m.contracts.lookup a = some c) (hwf : c.store.WF) (b : Bool) :
    (m.modifyContract a fun c => { c with store := c.store.updateState b }).cells =
      m.cells.update a b := by
  obtain ⟨hcom, hcur, hflag⟩ := cells_of_lookup hc
  obtain ⟨_, hcom', hcur'⟩ := Store.updateState_spec hwf b
  rw [cells_modifyContract hc]
  simp only [hcom', hcur', ← hflag, ← hcom, ← hcur, Function.update_eq_self]
  cases b with
  | true =>
    ext x
    · by_cases hx : x = a <;> simp [hx, Cells.update]
    · simp [Cells.update]
    · rfl
  | false =>
    ext x
    · simp [Cells.update]
    · by_cases hx : x = a <;> simp [hx, Cells.update]
    · rfl

end ContractManager

/-! ### The temporary balances as a ledger -/

namespace Interface

open ContractManager

theorem view_populateBalance (accounts : Accounts) (m : ContractManager) (a : Address) :
    view accounts (populateBalance accounts m a) = view accounts m := by
  funext b
  by_cases ha : a ∈ m.balances
  · simp only [populateBalance, view, AssocMap.lookup_emplace_of_mem _ ha]
  · by_cases hb : b = a
    · subst hb
      simp only [populateBalance, view, AssocMap.lookup_emplace_self_of_notMem _ ha,
        AList.lookup_eq_none.mpr ha, Option.getD_some, Option.getD_none]
    · simp only [populateBalance, view, AssocMap.lookup_emplace_ne _ hb]

theorem mem_populateBalance (accounts : Accounts) (m : ContractManager) (a b : Address) :
    b ∈ (populateBalance accounts m a).balances ↔ b = a ∨ b ∈ m.balances := by
  simp only [populateBalance, AssocMap.emplace]
  split
  · rename_i ha
    constructor
    · exact Or.inr
    · rintro (rfl | h)
      · exact ha
      · exact h
  · exact AList.mem_insert _

theorem balanceOf_eq_view (accounts : Accounts) {m : ContractManager} {a : Address}
    (h : a ∈ m.balances) : (balanceOf m a).val = view accounts m a := by
  obtain ⟨x, hx⟩ := AssocMap.mem_iff_lookup.mp h
  simp [balanceOf, view, hx]

theorem view_setBalance (accounts : Accounts) (m : ContractManager) (a : Address) (x : Uint256) :
    view accounts (setBalance m a x) = Function.update (view accounts m) a x.val := by
  funext b
  by_cases hb : b = a
  · subst hb; simp [view, setBalance]
  · simp [view, setBalance, hb, AList.lookup_insert_ne hb]

/-- **`sendTokens` is a legal ledger step**, whatever its outcome. -/
theorem sendTokens_view (accounts : Accounts) (m : ContractManager) (src dst : Address)
    (amount : Uint256) :
    view accounts (sendTokens accounts m src dst amount).2.1 =
        Ledger.step (view accounts m)
          (.send src dst amount.val (sendTokens accounts m src dst amount).2.2) ∧
      Ledger.LegalEvent (2 ^ 256) (view accounts m)
        (.send src dst amount.val (sendTokens accounts m src dst amount).2.2) := by
  set m₁ := populateBalance accounts (populateBalance accounts m src) dst with hm₁
  have hview : view accounts m₁ = view accounts m := by
    rw [hm₁, view_populateBalance, view_populateBalance]
  have hsrc : src ∈ m₁.balances := by
    rw [hm₁, mem_populateBalance, mem_populateBalance]; exact Or.inr (Or.inl rfl)
  have hdst : dst ∈ m₁.balances := by
    rw [hm₁, mem_populateBalance]; exact Or.inl rfl
  simp only [sendTokens, ← hm₁]
  split
  · exact ⟨hview, trivial⟩
  · cases hsub : usub (balanceOf m₁ src) amount with
    | error e => exact ⟨hview, trivial⟩
    | ok x =>
      have hx := usub_eq_ok.mp hsub
      rw [balanceOf_eq_view accounts hsrc, hview] at hx
      have hdebit : view accounts (setBalance m₁ src x) =
          Ledger.debit (view accounts m) src amount.val := by
        rw [view_setBalance, hview, Ledger.debit]
        congr 1
        omega
      have hdst' : dst ∈ (setBalance m₁ src x).balances := (AList.mem_insert _).mpr (Or.inr hdst)
      have hval := balanceOf_eq_view accounts hdst'
      rw [hdebit] at hval
      dsimp only
      cases hadd : uadd (balanceOf (setBalance m₁ src x) dst) amount with
      | error e =>
        have hover := (uadd_eq_error.mp hadd).2
        exact ⟨hdebit, by omega, by rw [← hval]; exact hover⟩
      | ok y =>
        have hy := uadd_eq_ok.mp hadd
        refine ⟨?_, by omega, by rw [← hval, ← hy]; exact y.isLt⟩
        show view accounts (setBalance (setBalance m₁ src x) dst y) = _
        rw [view_setBalance, hdebit, hy, hval]; rfl

/-- `sendTokens` changes only the temporary balances. -/
theorem sendTokens_manager (accounts : Accounts) (m : ContractManager) (src dst : Address)
    (amount : Uint256) :
    ∃ balances, (sendTokens accounts m src dst amount).2.1 = { m with balances } := by
  simp only [sendTokens]
  split
  · exact ⟨_, rfl⟩
  · split
    · exact ⟨_, rfl⟩
    · split <;> exact ⟨_, rfl⟩

end Interface

/-! ### Steps of a frame -/

open ContractManager in
/-- What a frame of `me` does between two managers, `t` being its activity in between. -/
structure Steps (accounts : Accounts) (me : Address) (m m' : ContractManager) (t : Trace) :
    Prop where
  /-- The deployed contracts and the manager's own data stay. -/
  shape : m'.shape = m.shape
  /-- Every store stays well formed. -/
  good : m'.Good
  /-- The variables follow the abstract machine. -/
  cells : m'.cells = t.apply m.locals.commit me m.cells
  /-- The balances follow the ledger. -/
  view : view accounts m' = Ledger.run (view accounts m) t.events
  /-- No transfer spends what is not there. -/
  legal : Ledger.Legal (2 ^ 256) (ContractManager.view accounts m) t.events
  /-- Only deployed contracts send. -/
  sources : ∀ src dst n o, Ledger.Event.send src dst n o ∈ t.events → src ∈ m.contracts
  /-- Without a use of the balances they are not even populated. -/
  idle : t.events = [] → m'.balances = m.balances

namespace Steps

open ContractManager

variable {accounts : Accounts} {me : Address} {m m' m'' : ContractManager} {t t' : Trace}

theorem refl (h : m.Good) : Steps accounts me m m .nil where
  shape := rfl
  good := h
  cells := rfl
  view := rfl
  legal := trivial
  sources := by simp [CallTree.events]
  idle _ := rfl

theorem mem (h : Steps accounts me m m' t) {a : Address} :
    a ∈ m'.contracts ↔ a ∈ m.contracts := mem_of_shape h.shape

/-- **Steps compose.** -/
theorem trans (h : Steps accounts me m m' t) (h' : Steps accounts me m' m'' t') :
    Steps accounts me m m'' (t.append t') where
  shape := h'.shape.trans h.shape
  good := h'.good
  cells := by
    rw [h'.cells, h.cells, locals_of_shape h.shape, CallTree.apply_append]
  view := by rw [h'.view, h.view, CallTree.events_append, Ledger.run_append]
  legal := by
    rw [CallTree.events_append, Ledger.legal_append, ← h.view]
    exact ⟨h.legal, h'.legal⟩
  sources src dst n o hm := by
    rw [CallTree.events_append, List.mem_append] at hm
    rcases hm with hm | hm
    · exact h.sources src dst n o hm
    · exact h.mem.mp (h'.sources src dst n o hm)
  idle he := by
    rw [CallTree.events_append, List.append_eq_nil_iff] at he
    rw [h'.idle he.2, h.idle he.1]

theorem ofCells (hshape : m'.shape = m.shape) (hgood : m'.Good)
    (hcells : m'.cells = t.apply m.locals.commit me m.cells)
    (hbal : m'.balances = m.balances) (hev : t.events = []) : Steps accounts me m m' t where
  shape := hshape
  good := hgood
  cells := hcells
  view := by
    rw [hev]
    funext a
    show _ = ContractManager.view accounts m a
    rw [ContractManager.view, ContractManager.view, hbal]
  legal := by rw [hev]; trivial
  sources := by simp [hev]
  idle _ := hbal

theorem store (h : m.Good) {f : Store → Store} {c : DynamicContract}
    (hc : m.contracts.lookup me = some c) (hf : Store.Effect c.store (f c.store) none) :
    Steps accounts me m (m.modifyStore me f) .nil := by
  refine ofCells (shape_modifyStore _ _ _) ?_ (cells_modifyStore hc hf) rfl rfl
  refine good_modifyContract h fun c' hc' => ?_
  cases hc.symm.trans hc'
  exact hf.wf

/-- An operation that writes one of the frame's own locations. -/
theorem storeWrite (h : m.Good) {f : Store → Store} {c : DynamicContract} {l : Loc}
    {x : Option Val} (hc : m.contracts.lookup me = some c)
    (hf : Store.Effect c.store (f c.store) (some (l, x))) :
    Steps accounts me m (m.modifyStore me f) (.write l x .nil) := by
  refine ofCells (shape_modifyStore _ _ _) ?_ (cells_modifyStore hc hf) rfl rfl
  refine good_modifyContract h fun c' hc' => ?_
  cases hc.symm.trans hc'
  exact hf.wf

theorem ofBalances (h : m.Good) {balances : AssocMap Address Uint256} {e : Ledger.Event Address}
    (hview : ContractManager.view accounts { m with balances } =
      Ledger.step (ContractManager.view accounts m) e)
    (hlegal : Ledger.LegalEvent (2 ^ 256) (ContractManager.view accounts m) e)
    (hsrc : ∀ src dst n o, e = .send src dst n o → src ∈ m.contracts) :
    Steps accounts me m { m with balances } (.event e .nil) where
  shape := rfl
  good := h
  cells := rfl
  view := hview
  legal := ⟨hlegal, trivial⟩
  sources src dst n o hm := by
    rw [CallTree.events, CallTree.events, List.mem_singleton] at hm
    exact hsrc src dst n o hm.symm
  idle he := by cases he

theorem query (h : m.Good) (a : Address) :
    Steps accounts me m (Interface.populateBalance accounts m a) (.event (.query a) .nil) :=
  ofBalances h (Interface.view_populateBalance accounts m a) trivial (by simp)

theorem send (h : m.Good) (hself : me ∈ m.contracts) (dst : Address) (amount : Uint256) :
    Steps accounts me m (Interface.sendTokens accounts m me dst amount).2.1
      (.event (.send me dst amount.val (Interface.sendTokens accounts m me dst amount).2.2)
        .nil) := by
  obtain ⟨hview, hlegal⟩ := Interface.sendTokens_view accounts m me dst amount
  obtain ⟨balances, hm⟩ := Interface.sendTokens_manager accounts m me dst amount
  rw [hm] at hview ⊢
  refine ofBalances h hview hlegal ?_
  intro src dst' n o he
  cases he
  exact hself

end Steps

/-! ### Frames -/

open ContractManager

/-- The frame returned normally. -/
def Outcome.returned (o : Outcome) : Bool :=
  match o.result with
  | .ok _ => true
  | .error _ => false

/-- A finished frame of `me`: some steps, then the end of `ethCall`. -/
def Called (accounts : Accounts) (me : Address) (m : ContractManager) (o : Outcome) : Prop :=
  ∃ o₁ : Outcome, Steps accounts me m o₁.manager o₁.trace ∧ o = finish me o₁

/-- How callees are known to behave. -/
def Callee.Sound (accounts : Accounts) (run : Callee) : Prop :=
  ∀ me info m o, m.Good → run me info m = some o → me ∈ m.contracts ∧ Called accounts me m o

@[simp] theorem finish_result (me : Address) (o : Outcome) : (finish me o).result = o.result := by
  unfold finish
  split <;> rfl

@[simp] theorem finish_trace (me : Address) (o : Outcome) : (finish me o).trace = o.trace := by
  unfold finish
  split <;> rfl

@[simp] theorem finish_balances (me : Address) (o : Outcome) :
    (finish me o).manager.balances = o.manager.balances := by
  unfold finish
  split <;> rfl

@[simp] theorem finish_shape (me : Address) (o : Outcome) :
    (finish me o).manager.shape = o.manager.shape := by
  unfold finish
  split <;> exact shape_modifyContract _ _ fun _ => ⟨rfl, rfl⟩

theorem finish_manager (me : Address) (o : Outcome) {c : DynamicContract}
    (hc : o.manager.contracts.lookup me = some c) :
    (finish me o).manager.contracts.lookup me =
      some { c with store := c.store.updateState (o.returned && c.locals.commit) } := by
  unfold finish Outcome.returned
  cases o.result with
  | ok _ => simp [lookup_modifyContract, hc]
  | error e => simp [modifyStore, lookup_modifyContract, hc]

theorem finish_lookup_ne (me : Address) (o : Outcome) {a : Address} (ha : a ≠ me) :
    (finish me o).manager.contracts.lookup a = o.manager.contracts.lookup a := by
  unfold finish
  split <;> simp [modifyStore, lookup_modifyContract, ha]

theorem finish_good {me : Address} {o : Outcome} (h : o.manager.Good) :
    (finish me o).manager.Good := by
  unfold finish
  split
  all_goals exact good_modifyContract h fun c hc => (Store.updateState_spec (h _ _ hc) _).1.1

theorem finish_cells {me : Address} {o : Outcome} (h : o.manager.Good)
    (hme : me ∈ o.manager.contracts) :
    (finish me o).manager.cells =
      o.manager.cells.update me (o.returned && o.manager.cells.flag me) := by
  obtain ⟨c, hc⟩ := AssocMap.mem_iff_lookup.mp hme
  rw [(cells_of_lookup hc).2.2]
  unfold finish Outcome.returned
  cases o.result with
  | error e => exact cells_updateState hc (h me c hc) false
  | ok _ =>
    rw [Bool.true_and, ← cells_updateState hc (h me c hc), cells_modifyContract hc,
      cells_modifyContract hc]

/-- The commit flag a called contract gets. -/
theorem enterCallee_cells {info : EthCallInfo} {m : ContractManager}
    (h : info.receiver ∈ m.contracts) :
    (Interface.enterCallee info m).cells = m.cells.setFlag info.receiver m.locals.commit :=
  cells_modifyLocals h fun _ => rfl

theorem steps_call {accounts : Accounts} {info : EthCallInfo} {m : ContractManager}
    (hcallee : info.receiver ∈ m.contracts) {o : Outcome}
    (ho : Called accounts info.receiver (Interface.enterCallee info m) o) :
    Steps accounts info.sender m
      (if o.returned then o.manager
        else o.manager.modifyLocals info.receiver fun l => { l with commit := false })
      (.call info.receiver o.trace o.returned .nil) := by
  set callee := info.receiver with hdef
  obtain ⟨o₁, hs, rfl⟩ := ho
  have hshape : (Interface.enterCallee info m).shape = m.shape := shape_modifyLocals _ _ _
  have hview : view accounts (Interface.enterCallee info m) = view accounts m := rfl
  have hmem : callee ∈ o₁.manager.contracts := by
    rwa [mem_of_shape hs.shape, mem_of_shape hshape]
  have hmem' : callee ∈ (finish callee o₁).manager.contracts := by
    rwa [mem_of_shape (finish_shape callee o₁)]
  have hret : (finish callee o₁).returned = o₁.returned := by simp [Outcome.returned]
  have hshape' : (finish callee o₁).manager.shape = m.shape :=
    (finish_shape callee o₁).trans (hs.shape.trans hshape)
  have hcells : (finish callee o₁).manager.cells =
      (o₁.trace.apply m.locals.commit callee (m.cells.setFlag callee m.locals.commit)).update callee
        (o₁.returned && (o₁.trace.apply m.locals.commit callee
          (m.cells.setFlag callee m.locals.commit)).flag callee) := by
    rw [finish_cells hs.good hmem, hs.cells, enterCallee_cells hcallee, ← hdef]
    rfl
  have hev : (CallTree.call callee o₁.trace o₁.returned .nil : Trace).events = o₁.trace.events :=
    List.append_nil _
  have hbal : ∀ b : Bool, (if b then (finish callee o₁).manager
      else (finish callee o₁).manager.modifyLocals callee fun l => { l with commit := false }).balances
        = o₁.manager.balances := by
    intro b
    cases b <;> exact finish_balances callee o₁
  have hviewEnd : ∀ m' : ContractManager, m'.balances = o₁.manager.balances →
      view accounts m' = Ledger.run (view accounts m) o₁.trace.events := by
    intro m' hm'
    rw [← hview, ← hs.view]
    funext a
    rw [view, view, hm']
  rw [hret, finish_trace]
  refine ⟨?_, ?_, ?_, ?_, ?_, ?_, ?_⟩
  · cases o₁.returned with
    | true => exact hshape'
    | false =>
      rw [if_neg Bool.false_ne_true]
      exact (shape_modifyLocals _ _ _).trans hshape'
  · cases o₁.returned with
    | true => exact finish_good hs.good
    | false =>
      rw [if_neg Bool.false_ne_true]
      exact good_modifyLocals (finish_good hs.good) _ _
  · cases hr : o₁.returned with
    | true =>
      rw [hr, Bool.true_and] at hcells
      exact hcells
    | false =>
      rw [hr, Bool.false_and] at hcells
      rw [if_neg Bool.false_ne_true, cells_modifyLocals hmem' (b := false) fun _ => rfl, hcells]
      rfl
  · rw [hev]; exact hviewEnd _ (hbal _)
  · rw [hev, ← hview]; exact hs.legal
  · intro src dst n e he
    rw [hev] at he
    exact (mem_of_shape hshape).mp (hs.sources src dst n e he)
  · intro he
    rw [hev] at he
    rw [hbal, hs.idle he]; rfl

theorem sendValue_steps {accounts : Accounts} {info : EthCallInfo} {m : ContractManager}
    (h : m.Good) (hme : info.sender ∈ m.contracts) :
    Steps accounts info.sender m (Interface.sendValue accounts info m).2.1
      (Interface.sendValue accounts info m).2.2 := by
  unfold Interface.sendValue
  split
  · exact Steps.send h hme info.receiver info.value
  · exact Steps.refl h

theorem runCallee_steps {accounts : Accounts} {run : Callee} (hrun : run.Sound accounts)
    {info : EthCallInfo} {m : ContractManager} {o : Outcome} (h : m.Good)
    (ho : Interface.runCallee run info m = some o) :
    Steps accounts info.sender m o.manager o.trace := by
  unfold Interface.runCallee at ho
  split at ho
  · cases ho; exact Steps.refl h
  · rename_i hmem
    split at ho
    · cases ho
    · rename_i hr
      cases ho
      exact steps_call (not_not.mp hmem)
        (hrun _ _ _ _ (good_modifyLocals h _ _) hr).2
    · rename_i hr
      cases ho
      exact steps_call (not_not.mp hmem)
        (hrun _ _ _ _ (good_modifyLocals h _ _) hr).2

theorem callContract_steps {accounts : Accounts} {run : Callee} (hrun : run.Sound accounts)
    {info : EthCallInfo} {m : ContractManager} {o : Outcome} (h : m.Good)
    (hme : info.sender ∈ m.contracts)
    (ho : Interface.callContract accounts run info m = some o) :
    Steps accounts info.sender m o.manager o.trace := by
  have hsend : Steps accounts info.sender m _ _ := sendValue_steps h hme
  unfold Interface.callContract at ho
  split at ho
  · rename_i heq
    cases ho
    rwa [heq] at hsend
  · rename_i heq
    obtain ⟨o', ho', rfl⟩ := Option.map_eq_some_iff.mp ho
    rw [heq] at hsend
    exact hsend.trans (runCallee_steps hrun hsend.good ho')

/-- A frame's body is a sequence of steps: induction on the code. -/
theorem runProg_steps {accounts : Accounts} {run : Callee} (hrun : run.Sound accounts)
    (me : Address) (p : Prog) {m : ContractManager} {o : Outcome} (h : m.Good)
    (hme : me ∈ m.contracts) (ho : runProg accounts run me p m = some o) :
    Steps accounts me m o.manager o.trace := by
  induction p generalizing m o with
  | done => cases ho; exact Steps.refl h
  | throw e => cases ho; exact Steps.refl h
  | getCaller k ih =>
    obtain ⟨c, -, ho⟩ := Option.bind_eq_some_iff.mp ho
    exact ih _ h hme ho
  | getValue k ih =>
    obtain ⟨c, -, ho⟩ := Option.bind_eq_some_iff.mp ho
    exact ih _ h hme ho
  | get x k ih =>
    obtain ⟨c, hc, ho⟩ := Option.bind_eq_some_iff.mp ho
    have hstep : Steps accounts me m (m.modifyStore me fun s => (s.get x).2) .nil :=
      Steps.store h hc (Store.get_spec (h me c hc) x).2
    exact hstep.trans (ih _ hstep.good (hstep.mem.mpr hme) ho)
  | set x v k ih =>
    obtain ⟨c, hc⟩ := AssocMap.mem_iff_lookup.mp hme
    obtain ⟨o', ho', rfl⟩ := Option.map_eq_some_iff.mp ho
    have hstep : Steps accounts me m (m.modifyStore me fun s => s.set x v) _ :=
      Steps.storeWrite h hc (Store.set_spec (h me c hc) x v)
    exact hstep.trans (ih hstep.good (hstep.mem.mpr hme) ho')
  | index mv a k ih =>
    obtain ⟨c, hc, ho⟩ := Option.bind_eq_some_iff.mp ho
    obtain ⟨o', ho', rfl⟩ := Option.map_eq_some_iff.mp ho
    have hstep : Steps accounts me m (m.modifyStore me fun s => (s.index mv a).2) _ :=
      Steps.storeWrite h hc (Store.index_spec (h me c hc) mv a).2
    exact hstep.trans (ih _ hstep.good (hstep.mem.mpr hme) ho')
  | assign mv a v k ih =>
    obtain ⟨c, hc⟩ := AssocMap.mem_iff_lookup.mp hme
    obtain ⟨o', ho', rfl⟩ := Option.map_eq_some_iff.mp ho
    have hstep : Steps accounts me m (m.modifyStore me fun s => s.assign mv a v) _ :=
      Steps.storeWrite h hc (Store.assign_spec (h me c hc) mv a v)
    exact hstep.trans (ih hstep.good (hstep.mem.mpr hme) ho')
  | find mv a k ih =>
    obtain ⟨c, hc, ho⟩ := Option.bind_eq_some_iff.mp ho
    have hstep : Steps accounts me m (m.modifyStore me fun s => (s.find mv a).2) .nil :=
      Steps.store h hc (Store.find_spec (h me c hc) mv a).2
    exact hstep.trans (ih _ hstep.good (hstep.mem.mpr hme) ho)
  | getBalance a k ih =>
    obtain ⟨o', ho', rfl⟩ := Option.map_eq_some_iff.mp ho
    have hstep : Steps accounts me m (Interface.populateBalance accounts m a) _ :=
      Steps.query h a
    exact hstep.trans (ih _ hstep.good hme ho')
  | sendTokens dst amount k ih =>
    obtain ⟨o', ho', rfl⟩ := Option.map_eq_some_iff.mp ho
    have hstep : Steps accounts me m (Interface.sendTokens accounts m me dst amount).2.1 _ :=
      Steps.send h hme dst amount
    exact hstep.trans (ih _ hstep.good (hstep.mem.mpr hme) ho')
  | callContract receiver value data k ih =>
    obtain ⟨o₁, ho₁, ho⟩ := Option.bind_eq_some_iff.mp ho
    obtain ⟨o', ho', rfl⟩ := Option.map_eq_some_iff.mp ho
    have hstep := callContract_steps hrun h hme ho₁
    exact hstep.trans (ih _ hstep.good (hstep.mem.mpr hme) ho')

/-- **Every call is sound**, at any depth. -/
theorem ethCall_sound (accounts : Accounts) (depth : Nat) :
    Callee.Sound accounts (ethCall accounts depth) := by
  induction depth with
  | zero => intro me info m o _ ho; cases ho
  | succ depth ih =>
    intro me info m o h ho
    obtain ⟨c, hc, ho⟩ := Option.bind_eq_some_iff.mp ho
    have hme : me ∈ m.contracts := AssocMap.mem_iff_lookup.mpr ⟨c, hc⟩
    refine ⟨hme, ?_⟩
    split at ho
    · cases ho
      exact ⟨_, Steps.refl h, rfl⟩
    · obtain ⟨o₁, ho₁, rfl⟩ := Option.map_eq_some_iff.mp ho
      exact ⟨o₁, runProg_steps ih me _ h hme ho₁, rfl⟩

end OrbiterSdk
