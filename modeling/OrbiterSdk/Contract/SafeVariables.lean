import OrbiterSdk.Lib.AssocMap
import OrbiterSdk.Utils.Bytes

namespace OrbiterSdk

/-!
# Transactional contract variables

The Safe variables the repository's contracts are made of (`contract/variables/`):

* `SafeScalar` — `SafeString`, `SafeUint8_t` and `SafeUint256_t`: a committed value and a
  temporary one;
* `SafeUnorderedMap` — a committed map, a temporary map that keys are copied into when they
  are used, and a set of erased keys;
* `com` and `cur` — what is committed and what running code sees.  Every operation has one
  lemma saying what it does to the two.
-/

/-! ### Scalars -/

/-- A scalar Safe variable. -/
structure SafeScalar (V : Type) where
  value : V
  valuePtr : Option V
  registered : Bool

namespace SafeScalar

variable {V : Type}

/-- The value running code sees. -/
def cur (x : SafeScalar V) : V := x.valuePtr.getD x.value

/-- `check`: allocate the temporary value. -/
def check (x : SafeScalar V) : SafeScalar V := { x with valuePtr := some x.cur }

/-- `operator=`, without the registration. -/
def set (x : SafeScalar V) (v : V) : SafeScalar V := { x with valuePtr := some v }

/-- `commit` (`SafeString` keeps its pointer, which then shows the committed string). -/
def commit (x : SafeScalar V) : SafeScalar V :=
  { value := x.cur, valuePtr := none, registered := false }

/-- `revert`. -/
def revert (x : SafeScalar V) : SafeScalar V := { x with valuePtr := none, registered := false }

@[simp] theorem cur_check (x : SafeScalar V) : x.check.cur = x.cur := rfl

@[simp] theorem cur_set (x : SafeScalar V) (v : V) : (x.set v).cur = v := rfl

@[simp] theorem cur_commit (x : SafeScalar V) : x.commit.cur = x.cur := rfl

@[simp] theorem cur_revert (x : SafeScalar V) : x.revert.cur = x.value := rfl

end SafeScalar

/-! ### Maps -/

/-- `SafeUnorderedMap<Key, T>`. -/
structure SafeUnorderedMap (K V : Type) where
  map : AssocMap K V
  mapPtr : Option (AssocMap K V)
  erasedKeys : Option (List K)
  registered : Bool

namespace SafeUnorderedMap

variable {K V : Type} [DecidableEq K]

/-- The temporary map, empty while it is not allocated. -/
def ptr (m : SafeUnorderedMap K V) : AssocMap K V := m.mapPtr.getD ∅

/-- The erased keys, none while the set is not allocated. -/
def erased (m : SafeUnorderedMap K V) : List K := m.erasedKeys.getD []

/-- What is committed. -/
def com (m : SafeUnorderedMap K V) (k : K) : Option V := m.map.lookup k

/-- What running code sees: a temporary entry, else a committed one that is not erased. -/
def cur (m : SafeUnorderedMap K V) (k : K) : Option V :=
  match m.ptr.lookup k with
  | some v => some v
  | none => if k ∈ m.erased then none else m.com k

/-- `check`. -/
def check (m : SafeUnorderedMap K V) : SafeUnorderedMap K V :=
  { m with mapPtr := some m.ptr, erasedKeys := some m.erased }

/-- Put an entry into the temporary map. -/
def put (m : SafeUnorderedMap K V) (k : K) (v : V) : SafeUnorderedMap K V :=
  { m.check with mapPtr := some (m.ptr.insert k v) }

/-- `checkKeyAndCopy`: copy a committed entry that is not erased. -/
def checkKeyAndCopy (m : SafeUnorderedMap K V) (k : K) : SafeUnorderedMap K V :=
  match m.ptr.lookup k with
  | some _ => m.check
  | none =>
    match m.map.lookup k with
    | some v => if k ∈ m.erased then m.check else m.put k v
    | none => m.check

/-- `checkKeyAndCreate`: copy the entry, or create it with the default value `dflt`. -/
def checkKeyAndCreate (dflt : V) (m : SafeUnorderedMap K V) (k : K) : SafeUnorderedMap K V :=
  match m.ptr.lookup k with
  | some _ => m.check
  | none =>
    match m.map.lookup k with
    | none => m.put k dflt
    | some v => if k ∈ m.erased then m.put k dflt else m.put k v

/-- `operator[]`, without the registration: the value the reference shows. -/
def index (dflt : V) (m : SafeUnorderedMap K V) (k : K) : V × SafeUnorderedMap K V :=
  let m := m.checkKeyAndCreate dflt k
  ((m.ptr.lookup k).getD dflt, m)

/-- `find`, without the registration. -/
def find (m : SafeUnorderedMap K V) (k : K) : Option V × SafeUnorderedMap K V :=
  let m := m.checkKeyAndCopy k
  (m.ptr.lookup k, m)

/-- `commit`: `merge` moves the new keys, the loop overwrites the old ones, then the erased
    keys go.  The set of erased keys stays allocated. -/
def commit (m : SafeUnorderedMap K V) : SafeUnorderedMap K V :=
  { map := m.erased.foldl (fun acc k => acc.erase k)
      (m.map.overwrite (fun _ v => v) m.ptr.entries)
    mapPtr := none
    erasedKeys := some m.erased
    registered := false }

/-- `revert`. -/
def revert (m : SafeUnorderedMap K V) : SafeUnorderedMap K V :=
  { m with mapPtr := none, erasedKeys := none, registered := false }

@[simp] theorem cur_check (m : SafeUnorderedMap K V) : m.check.cur = m.cur := rfl

theorem cur_put (m : SafeUnorderedMap K V) (k : K) (v : V) :
    (m.put k v).cur = Function.update m.cur k (some v) := by
  funext k'
  show (match (m.ptr.insert k v).lookup k' with
    | some v => some v
    | none => if k' ∈ m.erased then none else m.com k') = _
  by_cases h : k' = k
  · subst h
    rw [AList.lookup_insert, Function.update_self]
  · rw [AList.lookup_insert_ne h, Function.update_of_ne h]
    rfl

/-- The parts of a map variable that using it leaves alone. -/
def SameBase (m' m : SafeUnorderedMap K V) : Prop :=
  m'.map = m.map ∧ m'.registered = m.registered ∧ m'.erased = m.erased

theorem sameBase_checkKeyAndCopy (m : SafeUnorderedMap K V) (k : K) :
    (m.checkKeyAndCopy k).SameBase m := by
  unfold checkKeyAndCopy
  split
  · exact ⟨rfl, rfl, rfl⟩
  · split
    · split <;> exact ⟨rfl, rfl, rfl⟩
    · exact ⟨rfl, rfl, rfl⟩

theorem sameBase_checkKeyAndCreate (dflt : V) (m : SafeUnorderedMap K V) (k : K) :
    (m.checkKeyAndCreate dflt k).SameBase m := by
  unfold checkKeyAndCreate
  split
  · exact ⟨rfl, rfl, rfl⟩
  · split
    · exact ⟨rfl, rfl, rfl⟩
    · split <;> exact ⟨rfl, rfl, rfl⟩

@[simp] theorem cur_checkKeyAndCopy (m : SafeUnorderedMap K V) (k : K) :
    (m.checkKeyAndCopy k).cur = m.cur := by
  unfold checkKeyAndCopy
  split
  · rfl
  · rename_i hptr
    split
    · rename_i v hmap
      split
      · rfl
      · rename_i hne
        have hcur : m.cur k = some v := by simp [cur, hptr, hne, com, hmap]
        rw [cur_put, ← hcur, Function.update_eq_self]
    · rfl

theorem find_fst (m : SafeUnorderedMap K V) (k : K) : (m.find k).1 = m.cur k := by
  show (m.checkKeyAndCopy k).ptr.lookup k = m.cur k
  unfold checkKeyAndCopy cur
  split
  · rename_i v hptr
    exact hptr
  · rename_i hptr
    split
    · rename_i v hmap
      split
      · exact hptr
      · show (m.ptr.insert k v).lookup k = m.com k
        rw [AList.lookup_insert]
        exact hmap.symm
    · rename_i hmap
      rw [com, hmap, ite_self]
      exact hptr

/-- After `operator[]` the key is bound, to what was seen or to the default. -/
theorem cur_checkKeyAndCreate (dflt : V) (m : SafeUnorderedMap K V) (k : K) :
    (m.checkKeyAndCreate dflt k).cur = Function.update m.cur k (some ((m.cur k).getD dflt)) ∧
      (m.checkKeyAndCreate dflt k).ptr.lookup k = some ((m.cur k).getD dflt) := by
  unfold checkKeyAndCreate
  split
  · rename_i v hptr
    have hcur : m.cur k = some v := by simp [cur, hptr]
    rw [hcur, Option.getD_some, ← hcur, cur_check, Function.update_eq_self]
    exact ⟨rfl, hcur ▸ hptr⟩
  · rename_i hptr
    split
    · rename_i hmap
      have hcur : m.cur k = none := by simp [cur, hptr, com, hmap]
      rw [hcur, Option.getD_none]
      exact ⟨cur_put m k dflt, AList.lookup_insert _⟩
    · rename_i v hmap
      split
      · rename_i he
        have hcur : m.cur k = none := by simp [cur, hptr, he]
        rw [hcur, Option.getD_none]
        exact ⟨cur_put m k dflt, AList.lookup_insert _⟩
      · rename_i hne
        have hcur : m.cur k = some v := by simp [cur, hptr, hne, com, hmap]
        rw [hcur, Option.getD_some]
        exact ⟨cur_put m k v, AList.lookup_insert _⟩

theorem com_commit {m : SafeUnorderedMap K V} (h : m.erased = []) : m.commit.com = m.cur := by
  funext k
  show (m.erased.foldl _ (m.map.overwrite (fun _ v => v) m.ptr.entries)).lookup k = _
  rw [h, List.foldl_nil]
  unfold cur
  split
  · rename_i v hv
    exact AssocMap.lookup_overwrite_of_some _ _ _ m.ptr.nodupKeys hv
  · rename_i hv
    rw [h, if_neg (by simp), AssocMap.lookup_overwrite_of_none _ _ _ hv]
    rfl

theorem cur_commit {m : SafeUnorderedMap K V} (h : m.erased = []) : m.commit.cur = m.cur := by
  rw [← com_commit h]
  funext k
  show (if k ∈ m.erased then none else m.commit.com k) = m.commit.com k
  rw [h, if_neg (by simp)]

@[simp] theorem cur_revert (m : SafeUnorderedMap K V) : m.revert.cur = m.com := by
  funext k
  show (if k ∈ ([] : List K) then none else m.com k) = m.com k
  rw [if_neg (by simp)]

end SafeUnorderedMap

end OrbiterSdk
