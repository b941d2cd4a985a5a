import OrbiterSdk.Contract.Contracts
import OrbiterSdk.Contract.Execution

namespace OrbiterSdk

/-!
# Frames that call nobody

Rules for contract code that works on its own variables and sends native tokens but makes no
call.  What such a frame does depends on its locals and on the variables it sees, so a
specification is about these alone:

* `Wrote` — a frame changed what its contract sees of its own variables, and nothing else;
* `Local` — the frame returns or throws, has only written, and satisfies the postcondition
  when it returned; one rule per constructor of `Prog`, then one per building block of the
  contracts;
* `Returns` — the frame returns, with the same rules; what it wrote `Local` says;
* `ethCall_local` — the whole call: committed, or as if it had not happened.
-/

/-- What code sees of the variables of a contract, or what is committed of them. -/
abbrev View := Loc → Option Val

namespace View

/-- Outside the variables `vs` the two views agree. -/
def Agree (vs : List Var) (f g : View) : Prop := ∀ l : Loc, l.var ∉ vs → g l = f l

theorem Agree.refl (vs : List Var) (f : View) : Agree vs f f := fun _ _ => rfl

theorem Agree.update {vs : List Var} {f g : View} (h : Agree vs f g) {l : Loc} (hl : l.var ∈ vs)
    (x : Option Val) : Agree vs f (Function.update g l x) := by
  intro l' hl'
  have hne : l' ≠ l := fun he => hl' (he ▸ hl)
  rw [Function.update_of_ne hne]
  exact h l' hl'

end View

/-! ### Writing -/

/-- Between `m` and `m'` only variables changed; the temporary balances may have been used. -/
structure Kept (m m' : ContractManager) : Prop where
  shape : m'.shape = m.shape
  good : m'.Good
  locals : ∀ a, (m'.contracts.lookup a).map DynamicContract.locals =
    (m.contracts.lookup a).map DynamicContract.locals

theorem Kept.lookup {m m' : ContractManager} (h : Kept m m') {a : Address} {c : DynamicContract}
    (hc : m.contracts.lookup a = some c) :
    ∃ c', m'.contracts.lookup a = some c' ∧ c'.locals = c.locals := by
  have hl := h.locals a
  rw [hc] at hl
  exact Option.map_eq_some_iff.mp hl

/-- Between `m` and `m'` only what `me` sees of its variables changed, to `g`. -/
structure Wrote (me : Address) (m m' : ContractManager) (g : View) : Prop extends Kept m m' where
  cells : m'.cells = m.cells.see me g

namespace Wrote

variable {me : Address} {m m' m'' : ContractManager} {g g' : View} {c : DynamicContract}

theorem refl (h : m.Good) (hc : m.contracts.lookup me = some c) : Wrote me m m c.store.cur where
  shape := rfl
  good := h
  cells := by rw [← (ContractManager.cells_of_lookup hc).2.1, Cells.see_cur]
  locals _ := rfl

theorem trans (h : Wrote me m m' g) (h' : Wrote me m' m'' g') : Wrote me m m'' g' where
  shape := h'.shape.trans h.shape
  good := h'.good
  cells := by rw [h'.cells, h.cells, Cells.see_see]
  locals a := (h'.locals a).trans (h.locals a)

theorem seen (h : Wrote me m m' g) (hc : m.contracts.lookup me = some c) :
    ∃ c', m'.contracts.lookup me = some c' ∧ c'.locals = c.locals ∧ c'.store.cur = g := by
  obtain ⟨c', hc', hl⟩ := h.lookup hc
  refine ⟨c', hc', hl, ?_⟩
  rw [← (ContractManager.cells_of_lookup hc').2.1, h.cells]
  exact Function.update_self _ _ _

theorem store (h : m.Good) (hc : m.contracts.lookup me = some c) {f : Store → Store}
    {w : Option (Loc × Option Val)} (hf : Store.Effect c.store (f c.store) w) :
    Wrote me m (m.modifyStore me f) (f c.store).cur where
  shape := ContractManager.shape_modifyStore _ _ _
  good := by
    refine ContractManager.good_modifyContract h fun c' hc' => ?_
    cases hc.symm.trans hc'
    exact hf.wf
  cells := by
    obtain ⟨hcom, -, hflag⟩ := ContractManager.cells_of_lookup hc
    rw [ContractManager.modifyStore, ContractManager.cells_modifyContract hc]
    simp only [hf.com, ← hcom, ← hflag, Function.update_eq_self, Cells.see]
  locals a := by
    rw [ContractManager.modifyStore, ContractManager.lookup_modifyContract]
    split
    · cases m.contracts.lookup a <;> rfl
    · rfl

theorem ofBalances (h : m.Good) (hc : m.contracts.lookup me = some c)
    (balances : AssocMap Address Uint256) : Wrote me m { m with balances } c.store.cur where
  shape := rfl
  good := h
  cells := (refl h hc).cells
  locals _ := rfl

end Wrote

/-! ### Single operations -/

section

variable {accounts : Accounts} {run : Callee} {me : Address} {m : ContractManager}
  {c : DynamicContract}

theorem runProg_getCaller (hc : m.contracts.lookup me = some c) (k : Address → Prog) :
    runProg accounts run me (.getCaller k) m = runProg accounts run me (k c.locals.caller) m := by
  show (m.contracts.lookup me).bind _ = _
  rw [hc, Option.bind_some]

theorem runProg_getValue (hc : m.contracts.lookup me = some c) (k : Uint256 → Prog) :
    runProg accounts run me (.getValue k) m = runProg accounts run me (k c.locals.value) m := by
  show (m.contracts.lookup me).bind _ = _
  rw [hc, Option.bind_some]

theorem runProg_index (hc : m.contracts.lookup me = some c) (mv : MapVar) (a : Address)
    (k : Val → Prog) :
    runProg accounts run me (.index mv a k) m =
      (runProg accounts run me (k (c.store.index mv a).1)
        (m.modifyStore me fun s => (s.index mv a).2)).map
          (.after (.write (.entry mv a) (some (c.store.index mv a).1) .nil)) := by
  show (m.contracts.lookup me).bind _ = _
  rw [hc, Option.bind_some]

theorem runProg_assign (mv : MapVar) (a : Address) (v : Val) (k : Prog) :
    runProg accounts run me (.assign mv a v k) m =
      (runProg accounts run me k (m.modifyStore me fun s => s.assign mv a v)).map
        (.after (.write (.entry mv a) (some v) .nil)) :=
  rfl

theorem runProg_find (h : m.Good) (hc : m.contracts.lookup me = some c) (mv : MapVar)
    (a : Address) (k : Option Val → Prog) :
    runProg accounts run me (.find mv a k) m =
      runProg accounts run me (k (c.store.cur (.entry mv a)))
        (m.modifyStore me fun s => (s.find mv a).2) := by
  show (m.contracts.lookup me).bind _ = _
  rw [hc, Option.bind_some, (Store.find_spec (h me c hc) mv a).1]

theorem runProg_sendTokens (dst : Address) (amount : Uint256) (k : Except Exn Unit → Prog) :
    runProg accounts run me (.sendTokens dst amount k) m =
      (runProg accounts run me (k (Interface.sendTokens accounts m me dst amount).1)
        (Interface.sendTokens accounts m me dst amount).2.1).map
          (.after (.event (.send me dst amount.val
            (Interface.sendTokens accounts m me dst amount).2.2) .nil)) :=
  rfl

theorem Wrote.find (h : m.Good) (hc : m.contracts.lookup me = some c) (mv : MapVar) (a : Address) :
    Wrote me m (m.modifyStore me fun s => (s.find mv a).2) c.store.cur := by
  have heff := (Store.find_spec (h me c hc) mv a).2
  have hcur : (c.store.find mv a).2.cur = c.store.cur := heff.cur
  rw [← hcur]
  exact Wrote.store h hc heff

theorem Wrote.assign (h : m.Good) (hc : m.contracts.lookup me = some c) (mv : MapVar)
    (a : Address) (v : Val) :
    Wrote me m (m.modifyStore me fun s => s.assign mv a v)
      (Function.update c.store.cur (.entry mv a) (some v)) := by
  have heff := Store.assign_spec (h me c hc) mv a v
  have hcur : (c.store.assign mv a v).cur = Function.update c.store.cur (.entry mv a) (some v) :=
    heff.cur
  rw [← hcur]
  exact Wrote.store h hc heff

end

/-! ### Specifications of local code -/

namespace Prog

theorem ofExcept_bind {α β : Type} (x : Except Exn α) (φ : α → Except Exn β) (k : β → Prog) :
    ofExcept (x >>= φ) k = ofExcept x fun a => ofExcept (φ a) k := by
  cases x <;> rfl

theorem ofExcept_pure {α : Type} (a : α) (k : α → Prog) : ofExcept (pure a) k = k a := rfl

end Prog

section

variable (accounts : Accounts) (run : Callee) (me : Address) (l : ContractLocals)

/-- **The code only writes.**  From any manager in which `me` has the locals `l` and sees
    `f`, the code comes to an end, only `me`'s own view has changed, and if it returned then
    the view and the native events satisfy `P`. -/
def Local (f : View) (p : Prog) (P : View → List (Ledger.Event Address) → Prop) : Prop :=
  ∀ (m : ContractManager) (c : DynamicContract), m.Good → m.contracts.lookup me = some c →
    c.locals = l → c.store.cur = f →
    ∃ (o : Outcome) (g : View), runProg accounts run me p m = some o ∧ Wrote me m o.manager g ∧
      (o.result = .ok () → P g o.trace.events)

end

namespace Local

variable {accounts : Accounts} {run : Callee} {me : Address} {l : ContractLocals} {f : View}
  {P : View → List (Ledger.Event Address) → Prop}

theorem mono {p : Prog} {Q : View → List (Ledger.Event Address) → Prop}
    (h : Local accounts run me l f p P) (hPQ : ∀ g es, P g es → Q g es) :
    Local accounts run me l f p Q := by
  intro m c hgood hc hl hf
  obtain ⟨o, g, ho, hg, hP⟩ := h m c hgood hc hl hf
  exact ⟨o, g, ho, hg, fun hok => hPQ _ _ (hP hok)⟩

theorem done (h : P f []) : Local accounts run me l f .done P := by
  intro m c hgood hc hl hf
  refine ⟨_, _, rfl, Wrote.refl hgood hc, fun _ => ?_⟩
  rw [hf]
  exact h

theorem throw (e : Exn) : Local accounts run me l f (.throw e) P := by
  intro m c hgood hc hl hf
  refine ⟨_, _, rfl, Wrote.refl hgood hc, ?_⟩
  intro hok
  cases hok

theorem getCaller {k : Address → Prog} (h : Local accounts run me l f (k l.caller) P) :
    Local accounts run me l f (.getCaller k) P := by
  intro m c hgood hc hl hf
  obtain ⟨o, g, ho, hg, hP⟩ := h m c hgood hc hl hf
  refine ⟨o, g, ?_, hg, hP⟩
  rw [runProg_getCaller hc, hl]
  exact ho

theorem getValue {k : Uint256 → Prog} (h : Local accounts run me l f (k l.value) P) :
    Local accounts run me l f (.getValue k) P := by
  intro m c hgood hc hl hf
  obtain ⟨o, g, ho, hg, hP⟩ := h m c hgood hc hl hf
  refine ⟨o, g, ?_, hg, hP⟩
  rw [runProg_getValue hc, hl]
  exact ho

theorem store {m : ContractManager} {c : DynamicContract} (hgood : m.Good)
    (hc : m.contracts.lookup me = some c) (hl : c.locals = l) (op : Store → Store)
    {w : Option (Loc × Option Val)} (heff : Store.Effect c.store (op c.store) w) {f' : View}
    (hf' : (op c.store).cur = f') {k : Prog} (h : Local accounts run me l f' k P) :
    ∃ (o : Outcome) (g : View), runProg accounts run me k (m.modifyStore me op) = some o ∧
      Wrote me m o.manager g ∧ (o.result = .ok () → P g o.trace.events) := by
  have hw := Wrote.store hgood hc heff
  obtain ⟨c', hc', hl', hcur⟩ := hw.seen hc
  obtain ⟨o, g, ho, hg, hP⟩ := h _ c' hw.good hc' (hl'.trans hl) (hcur.trans hf')
  exact ⟨o, g, ho, hw.trans hg, hP⟩

theorem index {mv : MapVar} {a : Address} {k : Val → Prog}
    (h : Local accounts run me l
      (Function.update f (.entry mv a) (some ((f (.entry mv a)).getD mv.dflt)))
      (k ((f (.entry mv a)).getD mv.dflt)) P) :
    Local accounts run me l f (.index mv a k) P := by
  intro m c hgood hc hl hf
  obtain ⟨hval, heff⟩ := Store.index_spec (hgood me c hc) mv a
  have hcur := heff.cur
  rw [hf] at hval
  rw [hval, hf] at hcur
  obtain ⟨o, g, ho, hg, hP⟩ := store hgood hc hl (fun s => (s.index mv a).2) heff hcur h
  refine ⟨o.after (.write (.entry mv a) (some (c.store.index mv a).1) .nil), g, ?_, hg, hP⟩
  rw [runProg_index hc, hval, ho]
  rfl

theorem assign {mv : MapVar} {a : Address} {v : Val} {k : Prog}
    (h : Local accounts run me l (Function.update f (.entry mv a) (some v)) k P) :
    Local accounts run me l f (.assign mv a v k) P := by
  intro m c hgood hc hl hf
  have heff := Store.assign_spec (hgood me c hc) mv a v
  have hcur := heff.cur
  rw [hf] at hcur
  obtain ⟨o, g, ho, hg, hP⟩ := store hgood hc hl (fun s => s.assign mv a v) heff hcur h
  refine ⟨o.after (.write (.entry mv a) (some v) .nil), g, ?_, hg, hP⟩
  rw [runProg_assign, ho]
  rfl

theorem sendTokens {dst : Address} {amount : Uint256} {k : Prog}
    (h : Local accounts run me l f k
      fun g es => P g (.send me dst amount.val .done :: es)) :
    Local accounts run me l f (.sendTokens dst amount (Prog.rethrow k)) P := by
  intro m c hgood hc hl hf
  obtain ⟨balances, hm⟩ := Interface.sendTokens_manager accounts m me dst amount
  have hw := Wrote.ofBalances hgood hc balances
  -- `sendTokens` returns exactly when the transfer is complete.
  have hdone : (Interface.sendTokens accounts m me dst amount).1 = .ok () →
      (Interface.sendTokens accounts m me dst amount).2.2 = .done := by
    simp only [Interface.sendTokens]
    split
    · intro hok; cases hok
    · split
      · intro hok; cases hok
      · split
        · intro hok; cases hok
        · intro _; rfl
  cases hr : (Interface.sendTokens accounts m me dst amount).1 with
  | error e =>
    refine ⟨⟨.error e, { m with balances }, .event (.send me dst amount.val
      (Interface.sendTokens accounts m me dst amount).2.2) .nil⟩, c.store.cur, ?_, hw, ?_⟩
    · rw [runProg_sendTokens, hm, hr]
      rfl
    · intro hok
      cases hok
  | ok u =>
    obtain ⟨o, g, ho, hg, hP⟩ := h { m with balances } c hgood hc hl hf
    refine ⟨o.after (.event (.send me dst amount.val .done) .nil), g, ?_, hw.trans hg, hP⟩
    rw [runProg_sendTokens, hm, hr, hdone hr]
    show Option.map _ (runProg accounts run me k { m with balances }) = _
    rw [ho]
    rfl

/-! ### Building blocks -/

theorem ofExcept {α : Type} {x : Except Exn α} {k : α → Prog}
    (h : ∀ a, x = .ok a → Local accounts run me l f (k a) P) :
    Local accounts run me l f (Prog.ofExcept x k) P := by
  cases x with
  | error e => exact throw e
  | ok a => exact h a rfl

theorem updateEntry {mv : MapVar} {a : Address} {φ : Uint256 → Except Exn Uint256} {k : Prog}
    (h : ∀ y, φ ((f (.entry mv a)).getD mv.dflt).toUint = .ok y →
      Local accounts run me l (Function.update f (.entry mv a) (some (.uint y))) k P) :
    Local accounts run me l f (Prog.updateEntry mv a φ k) P := by
  refine index (ofExcept fun y hy => assign ?_)
  rw [Function.update_idem]
  exact h y hy

/-- The entries of `map[a][b] op= ...`: the inner entry is created before it is assigned. -/
theorem updateNested {mv : MapVar} {a b : Address} {φ : Uint256 → Except Exn Uint256} {k : Prog}
    (h : ∀ y, φ ((((f (.entry mv a)).getD mv.dflt).toMap.lookup b).getD 0) = .ok y →
      Local accounts run me l (Function.update f (.entry mv a)
        (some (.addrMap ((((f (.entry mv a)).getD mv.dflt).toMap.emplace b 0).insert b y)))) k P) :
    Local accounts run me l f (Prog.updateNested mv a b φ k) P := by
  refine index (assign (ofExcept fun y hy => assign ?_))
  rw [Function.update_idem, Function.update_idem]
  refine h y ?_
  rwa [AssocMap.lookup_emplace_self] at hy

end Local

/-! ### Code that returns -/

section

variable (accounts : Accounts) (run : Callee) (me : Address) (l : ContractLocals)

/-- **The code returns.**  From any manager in which `me` has the locals `l` and sees `f`, the
    code comes to an end without an exception. -/
def Returns (f : View) (p : Prog) : Prop :=
  ∀ (m : ContractManager) (c : DynamicContract), m.Good → m.contracts.lookup me = some c →
    c.locals = l → c.store.cur = f →
    ∃ o : Outcome, runProg accounts run me p m = some o ∧ o.result = .ok ()

end

namespace Returns

variable {accounts : Accounts} {run : Callee} {me : Address} {l : ContractLocals} {f : View}

theorem done : Returns accounts run me l f .done := by
  intro m c hgood hc hl hf
  exact ⟨_, rfl, rfl⟩

theorem getCaller {k : Address → Prog} (h : Returns accounts run me l f (k l.caller)) :
    Returns accounts run me l f (.getCaller k) := by
  intro m c hgood hc hl hf
  rw [runProg_getCaller hc, hl]
  exact h m c hgood hc hl hf

theorem getValue {k : Uint256 → Prog} (h : Returns accounts run me l f (k l.value)) :
    Returns accounts run me l f (.getValue k) := by
  intro m c hgood hc hl hf
  rw [runProg_getValue hc, hl]
  exact h m c hgood hc hl hf

theorem store {m : ContractManager} {c : DynamicContract} (hgood : m.Good)
    (hc : m.contracts.lookup me = some c) (hl : c.locals = l) (op : Store → Store)
    {w : Option (Loc × Option Val)} (heff : Store.Effect c.store (op c.store) w) {f' : View}
    (hf' : (op c.store).cur = f') {k : Prog} (h : Returns accounts run me l f' k) :
    ∃ o : Outcome, runProg accounts run me k (m.modifyStore me op) = some o ∧
      o.result = .ok () := by
  have hw := Wrote.store hgood hc heff
  obtain ⟨c', hc', hl', hcur⟩ := hw.seen hc
  exact h _ c' hw.good hc' (hl'.trans hl) (hcur.trans hf')

theorem index {mv : MapVar} {a : Address} {k : Val → Prog}
    (h : Returns accounts run me l
      (Function.update f (.entry mv a) (some ((f (.entry mv a)).getD mv.dflt)))
      (k ((f (.entry mv a)).getD mv.dflt))) :
    Returns accounts run me l f (.index mv a k) := by
  intro m c hgood hc hl hf
  obtain ⟨hval, heff⟩ := Store.index_spec (hgood me c hc) mv a
  have hcur := heff.cur
  rw [hf] at hval
  rw [hval, hf] at hcur
  obtain ⟨o, ho, hok⟩ := store hgood hc hl (fun s => (s.index mv a).2) heff hcur h
  refine ⟨o.after (.write (.entry mv a) (some (c.store.index mv a).1) .nil), ?_, hok⟩
  rw [runProg_index hc, hval, ho]
  rfl

theorem assign {mv : MapVar} {a : Address} {v : Val} {k : Prog}
    (h : Returns accounts run me l (Function.update f (.entry mv a) (some v)) k) :
    Returns accounts run me l f (.assign mv a v k) := by
  intro m c hgood hc hl hf
  have heff := Store.assign_spec (hgood me c hc) mv a v
  have hcur := heff.cur
  rw [hf] at hcur
  obtain ⟨o, ho, hok⟩ := store hgood hc hl (fun s => s.assign mv a v) heff hcur h
  refine ⟨o.after (.write (.entry mv a) (some v) .nil), ?_, hok⟩
  rw [runProg_assign, ho]
  rfl

theorem ofExcept {α : Type} {x : Except Exn α} {a : α} {k : α → Prog} (hx : x = .ok a)
    (h : Returns accounts run me l f (k a)) : Returns accounts run me l f (Prog.ofExcept x k) := by
  rw [hx]
  exact h

theorem updateEntry {mv : MapVar} {a : Address} {φ : Uint256 → Except Exn Uint256} {y : Uint256}
    {k : Prog} (hy : φ ((f (.entry mv a)).getD mv.dflt).toUint = .ok y)
    (h : Returns accounts run me l (Function.update f (.entry mv a) (some (.uint y))) k) :
    Returns accounts run me l f (Prog.updateEntry mv a φ k) := by
  refine index (ofExcept hy (assign ?_))
  rw [Function.update_idem]
  exact h

end Returns

/-! ### Whole calls -/

theorem Wrote.finish {me : Address} {m : ContractManager} {c : DynamicContract} {o : Outcome}
    {g : View} (h : Wrote me m o.manager g) (hc : m.contracts.lookup me = some c) :
    Kept m (finish me o).manager ∧
      (finish me o).manager.cells =
        (m.cells.see me g).update me (o.returned && c.locals.commit) := by
  obtain ⟨c', hc', hl⟩ := h.lookup hc
  have hmem : me ∈ o.manager.contracts := AssocMap.mem_iff_lookup.mpr ⟨c', hc'⟩
  refine ⟨⟨(finish_shape me o).trans h.shape, finish_good h.good, fun a => ?_⟩, ?_⟩
  · rw [← h.locals a]
    by_cases ha : a = me
    · subst ha
      rw [finish_manager a o hc', hc']
      rfl
    · rw [finish_lookup_ne me o ha]
  · rw [finish_cells h.good hmem, (ContractManager.cells_of_lookup hc').2.2, hl, h.cells]

/-- How a local call on a contract at rest ends: nothing has happened, or what the code
    wrote is committed. -/
inductive LocalEnd (me : Address) (commit : Bool) (P : View → List (Ledger.Event Address) → Prop)
    (m : ContractManager) (o : Outcome) : Prop where
  | unchanged : o.manager.cells = m.cells → (o.result = .ok () → commit = false) →
      LocalEnd me commit P m o
  | committed (g : View) : o.result = .ok () → commit = true → P g o.trace.events →
      o.manager.cells = m.cells.hold me g → LocalEnd me commit P m o

/-- The code `ethCall` runs; without a function for the functor it throws. -/
def DynamicContract.body (c : DynamicContract) (info : EthCallInfo) : Prog :=
  match c.function info.functor with
  | none => .throw (.runtimeError "Functor not found")
  | some fn => fn info

/-- The code of a contract is local when the function that is asked for is. -/
theorem Local.body {accounts : Accounts} {run : Callee} {me : Address} {l : ContractLocals}
    {f : View} {P : View → List (Ledger.Event Address) → Prop} {c : DynamicContract}
    {info : EthCallInfo} (h : ∀ fn, c.function info.functor = some fn →
      Local accounts run me l f (fn info) P) : Local accounts run me l f (c.body info) P := by
  unfold DynamicContract.body
  cases hfn : c.function info.functor with
  | none => exact Local.throw _
  | some fn => exact h fn hfn

theorem ethCall_succ {accounts : Accounts} {depth : Nat} {me : Address} {info : EthCallInfo}
    {m : ContractManager} {c : DynamicContract} (hc : m.contracts.lookup me = some c) :
    ethCall accounts (depth + 1) me info m =
      (runProg accounts (ethCall accounts depth) me (c.body info) m).map (finish me) := by
  rw [ethCall, hc, Option.bind_some, DynamicContract.body]
  cases c.function info.functor <;> rfl

/-- **Local calls.**  A call of a contract at rest whose code is local comes to an end and
    either commits what the code wrote or leaves no trace. -/
theorem ethCall_local (accounts : Accounts) (depth : Nat) {me : Address} {info : EthCallInfo}
    {m : ContractManager} {c : DynamicContract} {P : View → List (Ledger.Event Address) → Prop}
    (hgood : m.Good) (hc : m.contracts.lookup me = some c)
    (hquiet : m.cells.cur me = m.cells.com me)
    (hlocal : Local accounts (ethCall accounts depth) me c.locals (m.cells.com me) (c.body info) P) :
    ∃ o, ethCall accounts (depth + 1) me info m = some o ∧ Kept m o.manager ∧
      LocalEnd me c.locals.commit P m o := by
  have hcur : c.store.cur = m.cells.com me := by
    rw [← hquiet, (ContractManager.cells_of_lookup hc).2.1]
  obtain ⟨o, g, ho, hw, hP⟩ := hlocal m c hgood hc rfl hcur
  obtain ⟨hkept, hcells⟩ := hw.finish hc
  refine ⟨finish me o, ?_, hkept, ?_⟩
  · rw [ethCall_succ hc, ho]
    rfl
  · -- Reverting goes back to what was committed, which is what was seen.
    have hrevert : (m.cells.see me g).update me false = m.cells := by
      rw [Cells.update_see_false, ← hquiet, Cells.see_cur]
    cases hr : o.result with
    | error e =>
      refine .unchanged ?_ ?_
      · rw [hcells, Outcome.returned, hr]
        exact hrevert
      · intro hok
        rw [finish_result, hr] at hok
        cases hok
    | ok u =>
      cases hcommit : c.locals.commit with
      | false =>
        refine .unchanged ?_ fun _ => rfl
        rw [hcells, hcommit, Bool.and_false]
        exact hrevert
      | true =>
        refine .committed g ((finish_result me o).trans hr) rfl ?_ ?_
        · rw [finish_trace]
          exact hP hr
        · rw [hcells, hcommit, Outcome.returned, hr]
          exact Cells.update_see_true _ _ _

end OrbiterSdk
