import OrbiterSdk.Contract.SafeVariables

namespace OrbiterSdk

/-!
# The variables of one contract

A `DynamicContract` owns Safe variables and remembers which of them were used since the last
`updateState`.  `Store` is that part of a contract:

* `get`, `set`, `index`, `assign`, `find` — what contract code does to its variables; each
  registers the variable it may change;
* `updateState` — commit or revert every used variable;
* `Store.com` / `Store.cur` — the committed and the seen value of every location;
* `Store.WF` — used variables are the registered ones, and the others show what is
  committed.  Under it `updateState` is a commit or a revert of *every* location.
-/

/-- A scalar member variable. -/
structure ScalarVar where
  id : Nat
deriving DecidableEq

/-- A map member variable, from addresses to numbers or (`nested`) to maps. -/
structure MapVar where
  id : Nat
  nested : Bool
deriving DecidableEq

/-- The values of variables. -/
inductive Val where
  | uint (x : Uint256)
  | str (s : Bytes)
  | addrMap (m : AssocMap Address Uint256)

/-- A member variable. -/
inductive Var where
  | scalar (x : ScalarVar)
  | map (m : MapVar)
deriving DecidableEq

/-- A place that holds one value: a scalar, or a key of a map. -/
inductive Loc where
  | scalar (x : ScalarVar)
  | entry (m : MapVar) (a : Address)
deriving DecidableEq

/-- The variable a location belongs to. -/
def Loc.var : Loc → Var
  | .scalar x => .scalar x
  | .entry m _ => .map m

/-- `T()` for the mapped type of `m`. -/
def MapVar.dflt (m : MapVar) : Val := if m.nested then .addrMap ∅ else .uint 0

/-- The variables of a contract and its `usedVariables`. -/
structure Store where
  scalars : ScalarVar → SafeScalar Val
  maps : MapVar → SafeUnorderedMap Address Val
  usedVariables : List Var

namespace Store

/-- Whether a variable is registered with its contract. -/
def registered (s : Store) : Var → Bool
  | .scalar x => (s.scalars x).registered
  | .map m => (s.maps m).registered

/-- Replace a scalar. -/
def setScalar (s : Store) (x : ScalarVar) (v : SafeScalar Val) : Store :=
  { s with scalars := Function.update s.scalars x v }

/-- Replace a map. -/
def setMap (s : Store) (m : MapVar) (v : SafeUnorderedMap Address Val) : Store :=
  { s with maps := Function.update s.maps m v }

/-- `markAsUsed`: register the variable once. -/
def markAsUsed (s : Store) (v : Var) : Store :=
  if s.registered v then s
  else match v with
    | .scalar x =>
      { s.setScalar x { s.scalars x with registered := true } with
        usedVariables := s.usedVariables ++ [v] }
    | .map m =>
      { s.setMap m { s.maps m with registered := true } with
        usedVariables := s.usedVariables ++ [v] }

/-! ### Operations of contract code -/

/-- Read a scalar. -/
def get (s : Store) (x : ScalarVar) : Val × Store :=
  ((s.scalars x).cur, s.setScalar x (s.scalars x).check)

/-- Assign a scalar. -/
def set (s : Store) (x : ScalarVar) (v : Val) : Store :=
  (s.setScalar x ((s.scalars x).set v)).markAsUsed (.scalar x)

/-- `map[a]`. -/
def index (s : Store) (m : MapVar) (a : Address) : Val × Store :=
  let r := (s.maps m).index m.dflt a
  (r.1, (s.setMap m r.2).markAsUsed (.map m))

/-- Assign through the reference `map[a]`. -/
def assign (s : Store) (m : MapVar) (a : Address) (v : Val) : Store :=
  (s.setMap m ((s.maps m).put a v)).markAsUsed (.map m)

/-- `map.find(a)`. -/
def find (s : Store) (m : MapVar) (a : Address) : Option Val × Store :=
  let r := (s.maps m).find a
  (r.1, (s.setMap m r.2).markAsUsed (.map m))

/-- `std::as_const(map).find(a)`: copies the entry but registers nothing. -/
def findConst (s : Store) (m : MapVar) (a : Address) : Option Val × Store :=
  let r := (s.maps m).find a
  (r.1, s.setMap m r.2)

/-- `commit()` or `revert()` of one variable. -/
def updateVar (commitToState : Bool) (s : Store) : Var → Store
  | .scalar x =>
    s.setScalar x (if commitToState then (s.scalars x).commit else (s.scalars x).revert)
  | .map m => s.setMap m (if commitToState then (s.maps m).commit else (s.maps m).revert)

/-- `DynamicContract::updateState`. -/
def updateState (s : Store) (commitToState : Bool) : Store :=
  { s.usedVariables.foldl (updateVar commitToState) s with usedVariables := [] }

/-! ### What is seen and what is committed -/

/-- The committed value of a location. -/
def com (s : Store) : Loc → Option Val
  | .scalar x => some (s.scalars x).value
  | .entry m a => (s.maps m).com a

/-- The value of a location that running code sees. -/
def cur (s : Store) : Loc → Option Val
  | .scalar x => some (s.scalars x).cur
  | .entry m a => (s.maps m).cur a

/-- The registered variables are the used ones, all others show what is committed, and no
    key is marked as erased (no contract of the repository erases). -/
structure WF (s : Store) : Prop where
  used : ∀ v, s.registered v = true ↔ v ∈ s.usedVariables
  quiet : ∀ l : Loc, s.registered l.var = false → s.cur l = s.com l
  erased : ∀ m, (s.maps m).erased = []

/-- A store that shows what is committed everywhere, with nothing in use. -/
def Quiet (s : Store) : Prop := s.WF ∧ s.usedVariables = []

@[simp] theorem setScalar_com (s : Store) (x : ScalarVar) (v : SafeScalar Val)
    (h : v.value = (s.scalars x).value) : (s.setScalar x v).com = s.com := by
  funext l
  cases l with
  | scalar y =>
    by_cases hy : y = x
    · subst hy; simp [com, setScalar, h]
    · simp [com, setScalar, hy]
  | entry m a => rfl

@[simp] theorem setMap_com (s : Store) (m : MapVar) (v : SafeUnorderedMap Address Val)
    (h : v.map = (s.maps m).map) : (s.setMap m v).com = s.com := by
  funext l
  cases l with
  | scalar y => rfl
  | entry m' a =>
    by_cases hm : m' = m
    · subst hm; simp [com, setMap, SafeUnorderedMap.com, h]
    · simp [com, setMap, hm]

theorem setScalar_cur (s : Store) (x : ScalarVar) (v : SafeScalar Val) :
    (s.setScalar x v).cur = Function.update s.cur (.scalar x) (some v.cur) := by
  funext l
  cases l with
  | scalar y =>
    by_cases hy : y = x
    · subst hy; simp [cur, setScalar]
    · simp [cur, setScalar, hy, Function.update_of_ne]
  | entry m a => simp [cur, setScalar, Function.update_of_ne]

/-- Replacing a map by one that differs in what it shows at a single key. -/
theorem setMap_cur (s : Store) (m : MapVar) (v : SafeUnorderedMap Address Val) (a : Address)
    (x : Option Val) (h : v.cur = Function.update (s.maps m).cur a x) :
    (s.setMap m v).cur = Function.update s.cur (.entry m a) x := by
  funext l
  cases l with
  | scalar y => simp [cur, setMap, Function.update_of_ne]
  | entry m' a' =>
    by_cases hm : m' = m
    · subst hm
      by_cases ha : a' = a
      · subst ha; simp [cur, setMap, h]
      · simp [cur, setMap, h, ha, Function.update_of_ne]
    · simp [cur, setMap, hm, Function.update_of_ne]

@[simp] theorem markAsUsed_com (s : Store) (v : Var) : (s.markAsUsed v).com = s.com := by
  unfold markAsUsed
  split
  · rfl
  · cases v with
    | scalar x => exact setScalar_com s x _ rfl
    | map m => exact setMap_com s m _ rfl

@[simp] theorem markAsUsed_cur (s : Store) (v : Var) : (s.markAsUsed v).cur = s.cur := by
  unfold markAsUsed
  split
  · rfl
  · cases v with
    | scalar x =>
      show (s.setScalar x _).cur = s.cur
      rw [setScalar_cur]
      exact Function.update_eq_self _ _
    | map m =>
      funext l
      cases l with
      | scalar y => rfl
      | entry m' a =>
        by_cases hm : m' = m
        · subst hm
          show (Function.update s.maps m' _ m').cur a = (s.maps m').cur a
          rw [Function.update_self]; rfl
        · simp [cur, setMap, hm]

theorem markAsUsed_registered (s : Store) (v w : Var) :
    (s.markAsUsed v).registered w = (decide (w = v) || s.registered w) := by
  unfold markAsUsed
  split
  · rename_i h
    by_cases hw : w = v <;> simp [hw, h]
  · cases v with
    | scalar x =>
      cases w with
      | scalar y => by_cases hy : y = x <;> simp [registered, setScalar, hy]
      | map m => simp [registered, setScalar]
    | map m =>
      cases w with
      | scalar y => simp [registered, setMap]
      | map m' => by_cases hm : m' = m <;> simp [registered, setMap, hm]

theorem markAsUsed_used (s : Store) (v w : Var) :
    w ∈ (s.markAsUsed v).usedVariables ↔
      w ∈ s.usedVariables ∨ (s.registered v = false ∧ w = v) := by
  unfold markAsUsed
  split
  · rename_i h; simp [h]
  · rename_i h
    cases v <;> simp [h]

theorem markAsUsed_erased (s : Store) (v : Var) (m : MapVar) :
    ((s.markAsUsed v).maps m).erased = (s.maps m).erased := by
  unfold markAsUsed
  split
  · rfl
  · cases v with
    | scalar x => rfl
    | map m' =>
      by_cases hm : m = m'
      · subst hm
        show (Function.update s.maps m _ m).erased = _
        rw [Function.update_self]; rfl
      · simp [setMap, hm]

/-- Registering a variable restores well-formedness after that variable was changed. -/
theorem wf_markAsUsed {s : Store} {v : Var}
    (hused : ∀ w, s.registered w = true ↔ w ∈ s.usedVariables)
    (hquiet : ∀ l : Loc, s.registered l.var = false → l.var ≠ v → s.cur l = s.com l)
    (herased : ∀ m, (s.maps m).erased = []) : (s.markAsUsed v).WF where
  used w := by
    rw [markAsUsed_registered, markAsUsed_used, ← hused]
    by_cases hw : w = v
    · subst hw
      cases s.registered w <;> simp
    · simp [hw]
  quiet l hl := by
    rw [markAsUsed_registered] at hl
    simp only [Bool.or_eq_false_iff, decide_eq_false_iff_not] at hl
    rw [markAsUsed_cur, markAsUsed_com]
    exact hquiet l hl.2 hl.1
  erased m := by rw [markAsUsed_erased]; exact herased m

/-- Replacing a map by a used version of itself and registering it. -/
theorem wf_setMap {s : Store} (h : s.WF) (m : MapVar) {v : SafeUnorderedMap Address Val}
    (hv : v.SameBase (s.maps m)) : ((s.setMap m v).markAsUsed (.map m)).WF := by
  refine wf_markAsUsed (fun w => ?_) (fun l hl hne => ?_) (fun m' => ?_)
  · rw [show (s.setMap m v).usedVariables = s.usedVariables from rfl, ← h.used w]
    cases w with
    | scalar x => rfl
    | map m' => by_cases hm : m' = m <;> simp [registered, setMap, hm, hv.2.1]
  · cases l with
    | scalar x => exact h.quiet (.scalar x) hl
    | entry m' a =>
      have hm : m' ≠ m := fun he => hne (by rw [he]; rfl)
      have hq := h.quiet (.entry m' a) (by simpa [registered, Loc.var, setMap, hm] using hl)
      simpa [cur, com, setMap, hm] using hq
  · by_cases hm : m' = m
    · subst hm; simp [setMap, hv.2.2, h.erased]
    · simp [setMap, hm, h.erased]

/-! ### One lemma per operation -/

/-- What an operation on a well-formed store may do: nothing to what is committed, and
    one write to what is seen (`none`: no write). -/
structure Effect (s s' : Store) (w : Option (Loc × Option Val)) : Prop where
  wf : s'.WF
  com : s'.com = s.com
  cur : s'.cur = match w with
    | none => s.cur
    | some (l, x) => Function.update s.cur l x

theorem get_spec {s : Store} (h : s.WF) (x : ScalarVar) :
    some (s.get x).1 = s.cur (.scalar x) ∧ Effect s (s.get x).2 none := by
  have hcur : (s.setScalar x (s.scalars x).check).cur = s.cur := by
    rw [setScalar_cur]; exact Function.update_eq_self _ _
  have hcom : (s.setScalar x (s.scalars x).check).com = s.com := setScalar_com s x _ rfl
  have hreg : ∀ v, (s.setScalar x (s.scalars x).check).registered v = s.registered v := by
    intro v
    cases v with
    | scalar y => by_cases hy : y = x <;> simp [registered, setScalar, hy, SafeScalar.check]
    | map m => rfl
  refine ⟨rfl, ⟨?_, ?_, h.erased⟩, hcom, hcur⟩
  · intro v
    show (s.setScalar x _).registered v = true ↔ v ∈ s.usedVariables
    rw [hreg, h.used]
  · intro l hl
    show (s.setScalar x _).cur l = (s.setScalar x _).com l
    rw [hcur, hcom]
    exact h.quiet l (by rw [← hreg]; exact hl)

theorem set_spec {s : Store} (h : s.WF) (x : ScalarVar) (v : Val) :
    Effect s (s.set x v) (some (.scalar x, some v)) := by
  refine ⟨?_, ?_, ?_⟩
  · refine wf_markAsUsed (fun w => ?_) (fun l hl hne => ?_) h.erased
    · rw [show (s.setScalar x _).usedVariables = s.usedVariables from rfl, ← h.used w]
      cases w with
      | scalar y => by_cases hy : y = x <;> simp [registered, setScalar, hy, SafeScalar.set]
      | map m => rfl
    · cases l with
      | scalar y =>
        have hy : y ≠ x := fun he => hne (by rw [he]; rfl)
        have hq := h.quiet (.scalar y) (by simpa [registered, Loc.var, setScalar, hy] using hl)
        simpa [cur, com, setScalar, hy] using hq
      | entry m a => exact h.quiet (.entry m a) hl
  · rw [set, markAsUsed_com]; exact setScalar_com s x _ rfl
  · rw [set, markAsUsed_cur, setScalar_cur]; rfl

theorem assign_spec {s : Store} (h : s.WF) (m : MapVar) (a : Address) (v : Val) :
    Effect s (s.assign m a v) (some (.entry m a, some v)) := by
  refine ⟨wf_setMap h m ⟨rfl, rfl, rfl⟩, ?_, ?_⟩
  · rw [assign, markAsUsed_com]; exact setMap_com s m _ rfl
  · rw [assign, markAsUsed_cur]
    exact setMap_cur s m _ a _ (SafeUnorderedMap.cur_put _ a v)

theorem index_spec {s : Store} (h : s.WF) (m : MapVar) (a : Address) :
    (s.index m a).1 = (s.cur (.entry m a)).getD m.dflt ∧
      Effect s (s.index m a).2 (some (.entry m a, some (s.index m a).1)) := by
  obtain ⟨hcur, hptr⟩ := SafeUnorderedMap.cur_checkKeyAndCreate m.dflt (s.maps m) a
  have hval : (s.index m a).1 = (s.cur (.entry m a)).getD m.dflt := by
    show (((s.maps m).checkKeyAndCreate m.dflt a).ptr.lookup a).getD m.dflt = _
    rw [hptr]; rfl
  have hbase := SafeUnorderedMap.sameBase_checkKeyAndCreate m.dflt (s.maps m) a
  refine ⟨hval, wf_setMap h m hbase, ?_, ?_⟩
  · exact (markAsUsed_com _ _).trans (setMap_com s m _ hbase.1)
  · rw [hval]
    exact (markAsUsed_cur _ _).trans (setMap_cur s m _ a _ hcur)

private theorem copy_cur (s : Store) (m : MapVar) (a : Address) :
    (s.setMap m ((s.maps m).checkKeyAndCopy a)).cur = s.cur := by
  rw [setMap_cur s m _ a ((s.maps m).cur a)
    (by rw [SafeUnorderedMap.cur_checkKeyAndCopy, Function.update_eq_self])]
  exact Function.update_eq_self _ _

theorem find_spec {s : Store} (h : s.WF) (m : MapVar) (a : Address) :
    (s.find m a).1 = s.cur (.entry m a) ∧ Effect s (s.find m a).2 none := by
  have hbase := SafeUnorderedMap.sameBase_checkKeyAndCopy (s.maps m) a
  refine ⟨SafeUnorderedMap.find_fst _ _, wf_setMap h m hbase, ?_, ?_⟩
  · exact (markAsUsed_com _ _).trans (setMap_com s m _ hbase.1)
  · exact (markAsUsed_cur _ _).trans (copy_cur s m a)

/-- The constant `find` copies without registering: still nothing can be seen of it. -/
theorem findConst_spec {s : Store} (h : s.WF) (m : MapVar) (a : Address) :
    (s.findConst m a).1 = s.cur (.entry m a) ∧ Effect s (s.findConst m a).2 none ∧
      (s.findConst m a).2.usedVariables = s.usedVariables := by
  have hbase := SafeUnorderedMap.sameBase_checkKeyAndCopy (s.maps m) a
  have hcom : (s.setMap m ((s.maps m).checkKeyAndCopy a)).com = s.com :=
    setMap_com s m _ hbase.1
  have hreg : ∀ v, (s.setMap m ((s.maps m).checkKeyAndCopy a)).registered v = s.registered v := by
    intro v
    cases v with
    | scalar y => rfl
    | map m' => by_cases hm : m' = m <;> simp [registered, setMap, hm, hbase.2.1]
  refine ⟨SafeUnorderedMap.find_fst _ _, ⟨⟨?_, ?_, ?_⟩, hcom, copy_cur s m a⟩, rfl⟩
  · intro v
    show (s.setMap m _).registered v = true ↔ v ∈ s.usedVariables
    rw [← h.used v, ← hreg v]; rfl
  · intro l hl
    have hcur := congrFun (copy_cur s m a) l
    exact hcur.trans ((h.quiet l (by rw [← hreg]; exact hl)).trans (congrFun hcom l).symm)
  · intro m'
    by_cases hm : m' = m
    · subst hm
      show (Function.update s.maps m' _ m').erased = []
      rw [Function.update_self]
      exact hbase.2.2.trans (h.erased m')
    · show (Function.update s.maps m _ m').erased = []
      rw [Function.update_of_ne hm]
      exact h.erased m'

/-! ### `updateState` -/

/-- One variable committed or reverted: its locations show `b ? cur : com`, the others
    are untouched. -/
private theorem updateVar_at (b : Bool) (s : Store) (herased : ∀ m, (s.maps m).erased = [])
    (v : Var) (l : Loc) :
    (updateVar b s v).com l = (if l.var = v ∧ b then s.cur l else s.com l) ∧
      (updateVar b s v).cur l = if l.var = v then (if b then s.cur l else s.com l) else s.cur l := by
  cases v with
  | scalar x =>
    cases l with
    | scalar y =>
      by_cases hy : y = x
      · subst hy
        cases b <;> simp [updateVar, com, cur, setScalar, Loc.var, SafeScalar.commit,
          SafeScalar.revert, SafeScalar.cur]
      · simp [updateVar, com, cur, setScalar, Loc.var, hy]
    | entry m a => simp [updateVar, com, cur, setScalar, Loc.var]
  | map m =>
    cases l with
    | scalar y => simp [updateVar, com, cur, setMap, Loc.var]
    | entry m' a =>
      by_cases hm : m' = m
      · subst hm
        cases b
        · simp [updateVar, com, cur, setMap, Loc.var]; rfl
        · simp [updateVar, com, cur, setMap, Loc.var, SafeUnorderedMap.com_commit (herased m'),
            SafeUnorderedMap.cur_commit (herased m')]
      · simp [updateVar, com, cur, setMap, Loc.var, hm]

private theorem updateVar_registered (b : Bool) (s : Store) (v w : Var) :
    (updateVar b s v).registered w = (!decide (w = v) && s.registered w) := by
  cases v with
  | scalar x =>
    cases w with
    | scalar y =>
      by_cases hy : y = x
      · cases b <;> simp [updateVar, registered, setScalar, hy, SafeScalar.commit,
          SafeScalar.revert]
      · simp [updateVar, registered, setScalar, hy]
    | map m => simp [updateVar, registered, setScalar]
  | map m =>
    cases w with
    | scalar y => simp [updateVar, registered, setMap]
    | map m' =>
      by_cases hm : m' = m
      · cases b <;> simp [updateVar, registered, setMap, hm, SafeUnorderedMap.commit,
          SafeUnorderedMap.revert]
      · simp [updateVar, registered, setMap, hm]

private theorem updateVar_erased (b : Bool) (s : Store) (herased : ∀ m, (s.maps m).erased = [])
    (v : Var) (m : MapVar) : ((updateVar b s v).maps m).erased = [] := by
  cases v with
  | scalar x => exact herased m
  | map m' =>
    by_cases hm : m = m'
    · subst hm
      cases b
      · simp [updateVar, setMap, SafeUnorderedMap.revert, SafeUnorderedMap.erased]
      · simpa [updateVar, setMap, SafeUnorderedMap.commit, SafeUnorderedMap.erased]
          using herased m
    · simpa [updateVar, setMap, hm] using herased m

private theorem foldl_updateVar (b : Bool) (vs : List Var) (s : Store)
    (herased : ∀ m, (s.maps m).erased = []) :
    (∀ l : Loc, (vs.foldl (updateVar b) s).com l =
        if l.var ∈ vs ∧ b then s.cur l else s.com l) ∧
      (∀ l : Loc, (vs.foldl (updateVar b) s).cur l =
        if l.var ∈ vs then (if b then s.cur l else s.com l) else s.cur l) ∧
      (∀ w, (vs.foldl (updateVar b) s).registered w = (!decide (w ∈ vs) && s.registered w)) ∧
      ∀ m, ((vs.foldl (updateVar b) s).maps m).erased = [] := by
  induction vs generalizing s with
  | nil => simp [herased]
  | cons v vs ih =>
    obtain ⟨hcom, hcur, hreg, her⟩ := ih (updateVar b s v) (updateVar_erased b s herased v)
    refine ⟨fun l => ?_, fun l => ?_, fun w => ?_, her⟩
    · rw [List.foldl_cons, hcom, (updateVar_at b s herased v l).1, (updateVar_at b s herased v l).2]
      by_cases h1 : l.var = v <;> by_cases h2 : l.var ∈ vs <;> cases b <;> simp [h1, h2]
    · rw [List.foldl_cons, hcur, (updateVar_at b s herased v l).1, (updateVar_at b s herased v l).2]
      by_cases h1 : l.var = v <;> by_cases h2 : l.var ∈ vs <;> cases b <;> simp [h1, h2]
    · rw [List.foldl_cons, hreg, updateVar_registered]
      by_cases h1 : w = v <;> by_cases h2 : w ∈ vs <;> simp [h1, h2]

/-- **`updateState` commits or reverts every location** of a well-formed store, used or
    not, and leaves nothing in use. -/
theorem updateState_spec {s : Store} (h : s.WF) (b : Bool) :
    (s.updateState b).Quiet ∧ (s.updateState b).com = (if b then s.cur else s.com) ∧
      (s.updateState b).cur = if b then s.cur else s.com := by
  obtain ⟨hcom, hcur, hreg, her⟩ := foldl_updateVar b s.usedVariables s h.erased
  -- A location of an unused variable already shows what is committed.
  have hunused : ∀ l : Loc, l.var ∉ s.usedVariables → s.cur l = s.com l := by
    intro l hl
    refine h.quiet l ?_
    rw [← Bool.not_eq_true, h.used]
    exact hl
  have hcom' : (s.updateState b).com = if b then s.cur else s.com := by
    funext l
    rw [show (s.updateState b).com l = _ from hcom l]
    by_cases hl : l.var ∈ s.usedVariables
    · cases b <;> simp [hl]
    · cases b <;> simp [hl, hunused l hl]
  have hcur' : (s.updateState b).cur = if b then s.cur else s.com := by
    funext l
    rw [show (s.updateState b).cur l = _ from hcur l]
    by_cases hl : l.var ∈ s.usedVariables
    · cases b <;> simp [hl]
    · cases b <;> simp [hl, hunused l hl]
  refine ⟨⟨⟨fun w => ?_, fun l _ => ?_, her⟩, rfl⟩, hcom', hcur'⟩
  · show (s.usedVariables.foldl (updateVar b) s).registered w = true ↔ w ∈ []
    have hw := h.used w
    rw [hreg]
    by_cases hm : w ∈ s.usedVariables
    · simp [hm]
    · have : s.registered w = false := by rw [← Bool.not_eq_true, hw]; exact hm
      simp [this]
  · rw [hcom', hcur']

end Store

end OrbiterSdk
