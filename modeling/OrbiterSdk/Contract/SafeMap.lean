import OrbiterSdk.Contract.SafeVariables
import OrbiterSdk.Lib.Observation

namespace OrbiterSdk

/-!
# `SafeUnorderedMap` as a transactional map

The content of a `SafeUnorderedMap` is spread over the committed map, the temporary map and
the erased keys.  Its calls are compared with those on a plain map that keeps the committed
content and the current one apart.

* `MapOp`, `MapAnswer` — the calls and what they return; `commit` and `revert` show the
  committed content;
* `SafeUnorderedMap.step` — the class; `PlainMap.step` — the plain map;
* `SafeUnorderedMap.Regular` — where the two agree: a key that is inserted or erased is in
  the temporary map or absent, and no erased key is present at a commit;
* `SafeUnorderedMap.transactional_iff` — a run answers like the plain map exactly along
  regular calls.
-/

/-- The calls of a transaction.  Where a call returns a reference, `write` is what is then
    assigned through it. -/
inductive MapOp (K V : Type) where
  | index (k : K) (write : Option V)
  | atKey (k : K) (write : Option V)
  | insert (k : K) (v : V)
  | insertOrAssign (k : K) (v : V)
  | emplace (k : K) (v : V)
  | erase (k : K)
  | find (k : K) (write : Option V)
  | count (k : K)
  | contains (k : K)
  | commit
  | revert

/-- What the calls return. -/
inductive MapAnswer (K V : Type) where
  /-- A reference to an element. -/
  | value (v : V)
  /-- An exception. -/
  | notFound
  /-- An iterator to an element, or `end()`. -/
  | position (v : Option V)
  /-- An iterator to an element, and whether it was inserted. -/
  | inserted (v : V) (isNew : Bool)
  | size (n : Nat)
  | truth (b : Bool)
  /-- The committed content after `commit` or `revert`. -/
  | content (c : K → Option V)

namespace SafeUnorderedMap

variable {K V : Type} [DecidableEq K]

/-! ### The remaining members -/

/-- The constructor with an owner. -/
def new (map : AssocMap K V) : SafeUnorderedMap K V :=
  { map, mapPtr := none, erasedKeys := none, registered := false }

/-- `checkKeyAndThrow`: copy the entry; `none` stands for the exception. -/
def checkKeyAndThrow (m : SafeUnorderedMap K V) (k : K) : Option (SafeUnorderedMap K V) :=
  match m.ptr.lookup k with
  | some _ => some m.check
  | none =>
    match m.map.lookup k with
    | none => none
    | some v => if k ∈ m.erased then none else some (m.put k v)

/-- Assign through a reference into the temporary map. -/
def assign (m : SafeUnorderedMap K V) (k : K) (write : Option V) : SafeUnorderedMap K V :=
  write.elim m (m.put k)

/-- `at`. -/
def atKey (m : SafeUnorderedMap K V) (k : K) : Option V × SafeUnorderedMap K V :=
  match m.checkKeyAndThrow k with
  | none => (none, m.check)
  | some m => (m.ptr.lookup k, m)

/-- `insert`: an element of the temporary map is kept. -/
def insert (m : SafeUnorderedMap K V) (k : K) (v : V) : (V × Bool) × SafeUnorderedMap K V :=
  match m.ptr.lookup k with
  | some w => ((w, false), m.check)
  | none => ((v, true), m.put k v)

/-- `emplace`. -/
def emplace (m : SafeUnorderedMap K V) (k : K) (v : V) : (V × Bool) × SafeUnorderedMap K V :=
  m.insert k v

/-- `insert_or_assign`. -/
def insertOrAssign (m : SafeUnorderedMap K V) (k : K) (v : V) :
    (V × Bool) × SafeUnorderedMap K V :=
  ((v, (m.ptr.lookup k).isNone), m.put k v)

/-- `erase(key)`: the key goes from the temporary map and is remembered as erased. -/
def erase (m : SafeUnorderedMap K V) (k : K) : Nat × SafeUnorderedMap K V :=
  (if (m.ptr.lookup k).isSome then 1 else 0,
    { m with mapPtr := some (m.ptr.erase k), erasedKeys := some (k :: m.erased) })

/-- `count`. -/
def count (m : SafeUnorderedMap K V) (k : K) : Nat × SafeUnorderedMap K V :=
  let m := m.checkKeyAndCopy k
  (if (m.ptr.lookup k).isSome then 1 else 0, m)

/-- `contains`. -/
def contains (m : SafeUnorderedMap K V) (k : K) : Bool × SafeUnorderedMap K V :=
  let m := m.checkKeyAndCopy k
  ((m.ptr.lookup k).isSome, m)

/-- One call. -/
def step (dflt : V) (op : MapOp K V) (m : SafeUnorderedMap K V) :
    MapAnswer K V × SafeUnorderedMap K V :=
  match op with
  | .index k write => (.value (m.index dflt k).1, (m.index dflt k).2.assign k write)
  | .atKey k write =>
    (m.atKey k).1.elim (.notFound, (m.atKey k).2) fun v => (.value v, (m.atKey k).2.assign k write)
  | .insert k v => (.inserted (m.insert k v).1.1 (m.insert k v).1.2, (m.insert k v).2)
  | .insertOrAssign k v =>
    (.inserted (m.insertOrAssign k v).1.1 (m.insertOrAssign k v).1.2, (m.insertOrAssign k v).2)
  | .emplace k v => (.inserted (m.emplace k v).1.1 (m.emplace k v).1.2, (m.emplace k v).2)
  | .erase k => (.size (m.erase k).1, (m.erase k).2)
  | .find k write =>
    (.position (m.find k).1, (m.find k).1.elim (m.find k).2 fun _ => (m.find k).2.assign k write)
  | .count k => (.size (m.count k).1, (m.count k).2)
  | .contains k => (.truth (m.contains k).1, (m.contains k).2)
  | .commit => (.content m.commit.com, m.commit)
  | .revert => (.content m.revert.com, m.revert)

end SafeUnorderedMap

/-! ### The plain map -/

/-- A plain map in a transaction: the content at its start and the current content. -/
structure PlainMap (K V : Type) where
  committed : K → Option V
  current : K → Option V

namespace PlainMap

variable {K V : Type} [DecidableEq K]

/-- A transaction on a plain map. -/
def new (content : K → Option V) : PlainMap K V := ⟨content, content⟩

/-- Bind a key. -/
def put (p : PlainMap K V) (k : K) (v : Option V) : PlainMap K V :=
  { p with current := Function.update p.current k v }

/-- Assign through a reference. -/
def assign (p : PlainMap K V) (k : K) (write : Option V) : PlainMap K V :=
  write.elim p fun v => p.put k (some v)

/-- `insert` and `emplace`: an element is kept. -/
def insert (p : PlainMap K V) (k : K) (v : V) : (V × Bool) × PlainMap K V :=
  match p.current k with
  | some w => ((w, false), p)
  | none => ((v, true), p.put k (some v))

/-- One call. -/
def step (dflt : V) (op : MapOp K V) (p : PlainMap K V) : MapAnswer K V × PlainMap K V :=
  match op with
  | .index k write =>
    let v := (p.current k).getD dflt
    (.value v, (p.put k (some v)).assign k write)
  | .atKey k write => (p.current k).elim (.notFound, p) fun v => (.value v, p.assign k write)
  | .insert k v => (.inserted (p.insert k v).1.1 (p.insert k v).1.2, (p.insert k v).2)
  | .insertOrAssign k v => (.inserted v (p.current k).isNone, p.put k (some v))
  | .emplace k v => (.inserted (p.insert k v).1.1 (p.insert k v).1.2, (p.insert k v).2)
  | .erase k => (.size (if (p.current k).isSome then 1 else 0), p.put k none)
  | .find k write =>
    (.position (p.current k), (p.current k).elim p fun _ => p.assign k write)
  | .count k => (.size (if (p.current k).isSome then 1 else 0), p)
  | .contains k => (.truth (p.current k).isSome, p)
  | .commit => (.content p.current, { p with committed := p.current })
  | .revert => (.content p.committed, { p with current := p.committed })

end PlainMap

/-! ### Each call on both maps -/

namespace SafeUnorderedMap

variable {K V : Type} [DecidableEq K] {m : SafeUnorderedMap K V} {p : PlainMap K V}

/-- The map shows the plain map's contents. -/
structure Shows (m : SafeUnorderedMap K V) (p : PlainMap K V) : Prop where
  com : m.com = p.committed
  cur : m.cur = p.current

/-- Where a call does what it does on a plain map: a key that is inserted or erased is in the
    temporary map, or absent; no erased key is present at a commit. -/
def Regular (m : SafeUnorderedMap K V) : MapOp K V → Prop
  | .insert k _ | .insertOrAssign k _ | .emplace k _ | .erase k => m.ptr.lookup k = m.cur k
  | .commit => ∀ k ∈ m.erased, m.ptr.lookup k = none
  | _ => True

/-- What is seen of a key: a temporary entry, else a committed one that is not erased. -/
theorem cur_eq (m : SafeUnorderedMap K V) (k : K) :
    m.cur k = (m.ptr.lookup k).or (if k ∈ m.erased then none else m.com k) := by
  unfold cur
  cases m.ptr.lookup k with
  | none => rfl
  | some v => rfl

theorem SameBase.com_eq {m' : SafeUnorderedMap K V} (h : m'.SameBase m) : m'.com = m.com := by
  funext k
  rw [com, com, h.1]

theorem cur_of_ptr {k : K} {v : V} (h : m.ptr.lookup k = some v) : m.cur k = some v := by
  rw [cur_eq, h, Option.some_or]

theorem shows_new (map : AssocMap K V) : (new map).Shows (PlainMap.new map.lookup) where
  com := rfl
  cur := by
    funext k
    show (if k ∈ ([] : List K) then none else map.lookup k) = map.lookup k
    rw [if_neg List.not_mem_nil]

theorem Shows.put (h : m.Shows p) (k : K) (v : V) : (m.put k v).Shows (p.put k (some v)) where
  com := h.com
  cur := by rw [cur_put, h.cur]; rfl

theorem Shows.assign (h : m.Shows p) (k : K) (write : Option V) :
    (m.assign k write).Shows (p.assign k write) := by
  cases write with
  | none => exact h
  | some v => exact h.put k v

theorem Shows.check (h : m.Shows p) : m.check.Shows p := ⟨h.com, h.cur⟩

theorem Shows.copy (h : m.Shows p) (k : K) : (m.checkKeyAndCopy k).Shows p where
  com := (sameBase_checkKeyAndCopy m k).com_eq.trans h.com
  cur := by rw [cur_checkKeyAndCopy, h.cur]

theorem lookup_checkKeyAndCopy (m : SafeUnorderedMap K V) (k : K) :
    (m.checkKeyAndCopy k).ptr.lookup k = m.cur k := find_fst m k

theorem Shows.create (h : m.Shows p) (dflt : V) (k : K) :
    (m.checkKeyAndCreate dflt k).Shows (p.put k (some ((p.current k).getD dflt))) where
  com := (sameBase_checkKeyAndCreate dflt m k).com_eq.trans h.com
  cur := by
    rw [(cur_checkKeyAndCreate dflt m k).1, h.cur]
    rfl

theorem index_fst (dflt : V) (m : SafeUnorderedMap K V) (k : K) :
    (m.index dflt k).1 = (m.cur k).getD dflt := by
  show ((m.checkKeyAndCreate dflt k).ptr.lookup k).getD dflt = _
  rw [(cur_checkKeyAndCreate dflt m k).2, Option.getD_some]

theorem atKey_spec (h : m.Shows p) (k : K) :
    (m.atKey k).1 = m.cur k ∧ (m.atKey k).2.Shows p := by
  unfold atKey checkKeyAndThrow
  cases hptr : m.ptr.lookup k with
  | some v => exact ⟨hptr.trans (cur_of_ptr hptr).symm, h.check⟩
  | none =>
    cases hmap : m.map.lookup k with
    | none =>
      refine ⟨?_, h.check⟩
      simp only [cur, hptr, com, hmap, ite_self]
    | some v =>
      by_cases hk : k ∈ m.erased
      · simp only [if_pos hk]
        refine ⟨?_, h.check⟩
        simp only [cur, hptr, if_pos hk]
      · simp only [if_neg hk]
        have hcur : m.cur k = some v := by simp only [cur, hptr, com, hmap, if_neg hk]
        refine ⟨(AList.lookup_insert _).trans hcur.symm, h.com, ?_⟩
        rw [cur_put, ← hcur, Function.update_eq_self, h.cur]

theorem cur_erase (m : SafeUnorderedMap K V) (k : K) :
    (m.erase k).2.cur = Function.update m.cur k none := by
  funext k'
  rw [cur_eq]
  show ((m.ptr.erase k).lookup k').or (if k' ∈ k :: m.erased then none else m.com k') = _
  by_cases hk : k' = k
  · subst hk
    rw [AList.lookup_erase, Function.update_self, if_pos List.mem_cons_self, Option.or_none]
  · rw [AList.lookup_erase_ne hk, Function.update_of_ne hk, cur_eq]
    simp only [List.mem_cons, hk, false_or]

/-- What a commit leaves: the temporary entries over the committed ones, without the erased
    keys. -/
theorem com_commit_eq (m : SafeUnorderedMap K V) (k : K) :
    m.commit.com k = if k ∈ m.erased then none else (m.ptr.lookup k).or (m.com k) := by
  have herase : ∀ (keys : List K) (map : AssocMap K V),
      (keys.foldl (fun acc k => acc.erase k) map).lookup k =
        if k ∈ keys then none else map.lookup k := by
    intro keys
    induction keys with
    | nil => exact fun map => (if_neg List.not_mem_nil).symm
    | cons k' keys ih =>
      intro map
      rw [List.foldl_cons, ih]
      by_cases hk : k = k'
      · subst hk
        rw [AList.lookup_erase, ite_self, if_pos List.mem_cons_self]
      · simp only [AList.lookup_erase_ne hk, List.mem_cons, hk, false_or]
  show (m.erased.foldl _ (m.map.overwrite (fun _ v => v) m.ptr.entries)).lookup k = _
  rw [herase]
  congr 1
  cases hptr : m.ptr.lookup k with
  | some v => exact AssocMap.lookup_overwrite_of_some _ _ _ m.ptr.nodupKeys hptr
  | none => exact AssocMap.lookup_overwrite_of_none _ _ _ hptr

theorem cur_commit_eq (m : SafeUnorderedMap K V) : m.commit.cur = m.commit.com := by
  funext k
  show (if k ∈ m.erased then none else m.commit.com k) = m.commit.com k
  rw [com_commit_eq]
  split
  · rfl
  · rfl

theorem com_commit_iff (m : SafeUnorderedMap K V) :
    m.commit.com = m.cur ↔ ∀ k ∈ m.erased, m.ptr.lookup k = none := by
  have hkey : ∀ k, m.commit.com k = m.cur k ↔ (k ∈ m.erased → m.ptr.lookup k = none) := by
    intro k
    rw [com_commit_eq, cur_eq]
    cases hptr : m.ptr.lookup k with
    | some v => by_cases hk : k ∈ m.erased <;> simp [hk]
    | none => simp
  exact ⟨fun h k => (hkey k).mp (congrFun h k), fun h => funext fun k => (hkey k).mpr (h k)⟩

/-- A key is loaded or absent exactly when the temporary map has it as often as it is seen. -/
theorem lookup_eq_cur {k : K} (h : (m.ptr.lookup k).isSome = (m.cur k).isSome) :
    m.ptr.lookup k = m.cur k := by
  cases hptr : m.ptr.lookup k with
  | some v => exact (cur_of_ptr hptr).symm
  | none =>
    rw [hptr, Option.isSome_none] at h
    exact (Option.isSome_eq_false_iff.mp h.symm |> Option.isNone_iff_eq_none.mp).symm

theorem Shows.insert (h : m.Shows p) {k : K} {v : V} (hk : m.ptr.lookup k = m.cur k) :
    MapAnswer.inserted (K := K) (m.insert k v).1.1 (m.insert k v).1.2 =
        .inserted (p.insert k v).1.1 (p.insert k v).1.2 ∧
      (m.insert k v).2.Shows (p.insert k v).2 := by
  rw [h.cur] at hk
  unfold SafeUnorderedMap.insert PlainMap.insert
  rw [← hk]
  cases m.ptr.lookup k with
  | none => exact ⟨rfl, h.put k v⟩
  | some w => exact ⟨rfl, h.check⟩

theorem Shows.regular_of_insert (h : m.Shows p) {k : K} {v : V}
    (heq : MapAnswer.inserted (K := K) (m.insert k v).1.1 (m.insert k v).1.2 =
      .inserted (p.insert k v).1.1 (p.insert k v).1.2) : m.ptr.lookup k = m.cur k := by
  have hflag := (MapAnswer.inserted.inj heq).2
  refine lookup_eq_cur ?_
  rw [h.cur]
  unfold SafeUnorderedMap.insert PlainMap.insert at hflag
  cases hptr : m.ptr.lookup k with
  | none =>
    cases hcur : p.current k with
    | none => rfl
    | some w =>
      rw [hptr, hcur] at hflag
      cases hflag
  | some v =>
    rw [← h.cur, cur_of_ptr hptr]

theorem step_of_regular {dflt : V} {op : MapOp K V} (h : m.Shows p) (hop : m.Regular op) :
    (step dflt op m).1 = (PlainMap.step dflt op p).1 ∧
      (step dflt op m).2.Shows (PlainMap.step dflt op p).2 := by
  cases op with
  | index k write =>
    refine ⟨?_, (h.create dflt k).assign k write⟩
    exact congrArg MapAnswer.value ((index_fst dflt m k).trans (by rw [h.cur]))
  | atKey k write =>
    obtain ⟨hat, hshows⟩ := atKey_spec h k
    rw [h.cur] at hat
    simp only [step, PlainMap.step, hat]
    cases p.current k with
    | none => exact ⟨rfl, hshows⟩
    | some v => exact ⟨rfl, hshows.assign k write⟩
  | insert k v => exact h.insert hop
  | insertOrAssign k v =>
    rw [Regular, h.cur] at hop
    refine ⟨?_, h.put k v⟩
    show MapAnswer.inserted v (m.ptr.lookup k).isNone = .inserted v (p.current k).isNone
    rw [hop]
  | emplace k v => exact h.insert hop
  | erase k =>
    rw [Regular, h.cur] at hop
    refine ⟨?_, h.com, ?_⟩
    · show MapAnswer.size (if (m.ptr.lookup k).isSome then 1 else 0) = _
      rw [hop]
      rfl
    · show (m.erase k).2.cur = Function.update p.current k none
      rw [cur_erase, h.cur]
  | find k write =>
    have hfind : (m.find k).1 = p.current k := by rw [find_fst, h.cur]
    have hshows : (m.find k).2.Shows p := h.copy k
    refine ⟨congrArg MapAnswer.position hfind, ?_⟩
    simp only [step, PlainMap.step, hfind]
    cases p.current k with
    | none => exact hshows
    | some v => exact hshows.assign k write
  | count k =>
    refine ⟨?_, h.copy k⟩
    show MapAnswer.size (if ((m.checkKeyAndCopy k).ptr.lookup k).isSome then 1 else 0) = _
    rw [lookup_checkKeyAndCopy, h.cur]
    rfl
  | contains k =>
    refine ⟨?_, h.copy k⟩
    show MapAnswer.truth ((m.checkKeyAndCopy k).ptr.lookup k).isSome = _
    rw [lookup_checkKeyAndCopy, h.cur]
    rfl
  | commit =>
    have hcom := ((com_commit_iff m).mpr hop).trans h.cur
    exact ⟨congrArg MapAnswer.content hcom, hcom, (cur_commit_eq m).trans hcom⟩
  | revert => exact ⟨congrArg MapAnswer.content h.com, h.com, (cur_revert m).trans h.com⟩

theorem regular_of_step {dflt : V} {op : MapOp K V} (h : m.Shows p)
    (heq : (step dflt op m).1 = (PlainMap.step dflt op p).1) : m.Regular op := by
  cases op with
  | insert k v => exact h.regular_of_insert heq
  | emplace k v => exact h.regular_of_insert heq
  | insertOrAssign k v =>
    have hnew : (m.ptr.lookup k).isNone = (p.current k).isNone := (MapAnswer.inserted.inj heq).2
    rw [← h.cur, ← Option.not_isSome, ← Option.not_isSome] at hnew
    exact lookup_eq_cur (Bool.not_inj hnew)
  | erase k =>
    have hsize : (if (m.ptr.lookup k).isSome then 1 else 0) =
        (if (p.current k).isSome then 1 else 0) := MapAnswer.size.inj heq
    rw [← h.cur] at hsize
    refine lookup_eq_cur ?_
    cases hptr : (m.ptr.lookup k).isSome with
    | false =>
      cases hcur : (m.cur k).isSome with
      | false => rfl
      | true =>
        rw [hptr, hcur] at hsize
        cases hsize
    | true =>
      obtain ⟨v, hv⟩ := Option.isSome_iff_exists.mp hptr
      rw [cur_of_ptr hv]
      rfl
  | commit => exact (com_commit_iff m).mp ((MapAnswer.content.inj heq).trans h.cur.symm)
  | index k write => trivial
  | atKey k write => trivial
  | find k write => trivial
  | count k => trivial
  | contains k => trivial
  | revert => trivial

/-- **`SafeUnorderedMap` is a transactional map exactly along regular calls.**  From every
    starting map and for every sequence of calls, each returns what it returns on a plain map,
    and every `commit` and `revert` leaves the content it should, if and only if all calls are
    regular where they are made. -/
theorem transactional_iff (dflt : V) (start : AssocMap K V) (ops : List (MapOp K V)) :
    Machine.answers (step dflt) ops (new start) =
        Machine.answers (PlainMap.step dflt) ops (PlainMap.new start.lookup) ↔
      Machine.Along (Machine.next (step dflt)) Regular ops (new start) := by
  refine Machine.answers_eq_iff (R := Shows) ?_ ?_ (shows_new start)
  · intro m p op h hop
    exact step_of_regular h hop
  · intro m p op h heq
    exact regular_of_step h heq

/-- A map with one balance. -/
def oneBalance : AssocMap Address Uint256 := AList.insert FixedStr.zero 1 ∅

/-- The balance is looked up, erased, inserted again and committed. -/
def eraseAndInsert : List (MapOp Address Uint256) :=
  [.contains FixedStr.zero, .erase FixedStr.zero, .insert FixedStr.zero 2, .commit]

/-- **An insertion after an erasure is lost.**  The commit erases the key again, while a plain
    map has the new balance. -/
theorem insert_after_erase_lost :
    ∃ shown expected,
      (Machine.answers (step 0) eraseAndInsert (new oneBalance)).getLast? =
        some (.content shown) ∧
      (Machine.answers (PlainMap.step 0) eraseAndInsert
        (PlainMap.new oneBalance.lookup)).getLast? = some (.content expected) ∧
      shown FixedStr.zero = none ∧ expected FixedStr.zero = some 2 :=
  ⟨_, _, rfl, rfl, rfl, rfl⟩

end SafeUnorderedMap

end OrbiterSdk
