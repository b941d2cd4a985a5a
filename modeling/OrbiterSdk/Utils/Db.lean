import OrbiterSdk.Lib.MapGraph
import OrbiterSdk.Utils.Bytes

namespace OrbiterSdk

/-!
# The database

`utils/db.h` over RocksDB, a map from byte strings to byte strings that is iterated in the
order of the keys.  Every key begins with one of the prefixes of `DBPrefix`, all two bytes
long, so each prefix has a map of its own; those of the modelled code are here.  Contracts go
on with their address and a name, so their entries are the areas `DB.area` of one map.

RocksDB refuses a value of 2³² bytes or more and the callers look at no result, so such a
value is not stored; the structure carries the bound.
-/

/-- `namespace DBPrefix`. -/
inductive DBPrefix where
  | blocks
  | blockHeightMaps
  | nativeAccounts
  | txToBlocks
  | contracts
deriving DecidableEq

/-- `class DB`. -/
structure DB where
  entries : DBPrefix → AssocMap Bytes Bytes
  fits : ∀ pfx key value, (entries pfx).lookup key = some value → value.length < 2 ^ 32

namespace DB

/-- A database nothing was written to. -/
def empty : DB := ⟨fun _ => ∅, by simp⟩

/-- `DB::has`. -/
def has (db : DB) (key : Bytes) (pfx : DBPrefix) : Bool := decide (key ∈ db.entries pfx)

/-- `DB::get`: the empty string when there is no entry. -/
def get (db : DB) (key : Bytes) (pfx : DBPrefix) : Bytes := ((db.entries pfx).lookup key).getD []

/-- `DB::put`. -/
def put (db : DB) (key value : Bytes) (pfx : DBPrefix) : DB :=
  if h : value.length < 2 ^ 32 then
    { entries := Function.update db.entries pfx ((db.entries pfx).insert key value)
      fits := by
        intro p k v hv
        by_cases hp : p = pfx
        · subst hp
          rw [Function.update_self] at hv
          by_cases hk : k = key
          · subst hk
            rw [AList.lookup_insert] at hv
            cases hv
            exact h
          · rw [AList.lookup_insert_ne hk] at hv
            exact db.fits p k v hv
        · rw [Function.update_of_ne hp] at hv
          exact db.fits p k v hv }
  else db

/-- `DB::putBatch` for a batch without deletions. -/
def putBatch (db : DB) (puts : List (Bytes × Bytes)) (pfx : DBPrefix) : DB :=
  puts.foldl (fun db e => db.put e.1 e.2 pfx) db

/-- `DB::getBatch` without keys: all entries, in the order of the keys. -/
def getBatch (db : DB) (pfx : DBPrefix) : List (Bytes × Bytes) :=
  ((db.entries pfx).entries.map fun e => (e.1, e.2)).insertionSort fun a b => a.1 ≤ b.1

/-- `DB::getBatch` for a longer prefix, which goes on with `sub`. -/
def getBatchAt (db : DB) (pfx : DBPrefix) (sub : Bytes) : List (Bytes × Bytes) :=
  (db.getBatch pfx).filterMap fun e =>
    if sub <+: e.1 then some (e.1.drop sub.length, e.2) else none

/-- The puts of a batch under a longer prefix. -/
def under (sub : Bytes) (puts : List (Bytes × Bytes)) : List (Bytes × Bytes) :=
  puts.map fun e => (sub ++ e.1, e.2)

/-- What is stored under a longer prefix. -/
def area (db : DB) (pfx : DBPrefix) (sub key : Bytes) : Option Bytes :=
  (db.entries pfx).lookup (sub ++ key)

/-! ### What is read -/

variable {db : DB} {key value : Bytes} {pfx : DBPrefix}

theorem get_of_lookup (h : (db.entries pfx).lookup key = some value) : db.get key pfx = value := by
  rw [get, h, Option.getD_some]

theorem has_iff : db.has key pfx = true ↔ ∃ value, (db.entries pfx).lookup key = some value := by
  rw [has, decide_eq_true_eq, AssocMap.mem_iff_lookup]

theorem mem_getBatch : (key, value) ∈ db.getBatch pfx ↔
    (db.entries pfx).lookup key = some value := by
  rw [getBatch, List.mem_insertionSort, ← Option.mem_def, AList.mem_lookup_iff]
  constructor
  · intro h
    obtain ⟨e, he, heq⟩ := List.mem_map.mp h
    cases heq
    exact he
  · intro h
    exact List.mem_map.mpr ⟨⟨key, value⟩, h, rfl⟩

theorem mem_getBatchAt {sub : Bytes} :
    (key, value) ∈ db.getBatchAt pfx sub ↔ db.area pfx sub key = some value := by
  rw [getBatchAt, List.mem_filterMap]
  constructor
  · rintro ⟨⟨k, v⟩, he, heq⟩
    by_cases hsub : sub <+: k
    · rw [if_pos hsub] at heq
      cases heq
      obtain ⟨rest, rfl⟩ := hsub
      rw [List.drop_left]
      exact mem_getBatch.mp he
    · rw [if_neg hsub] at heq
      cases heq
  · intro h
    refine ⟨(sub ++ key, value), mem_getBatch.mpr h, ?_⟩
    rw [if_pos (List.prefix_append sub key), List.drop_left]

/-- Entries that were all written for some record are the entries of a list of records. -/
theorem exists_records {R : Type} {enc : R → Bytes × Bytes} (hinj : Function.Injective enc)
    (entries : List (Bytes × Bytes)) (h : ∀ e ∈ entries, e ∈ Set.range enc) :
    ∃ rs : List R, rs.map enc = entries ∧ ∀ r, r ∈ rs ↔ enc r ∈ entries := by
  have hrange : entries ∈ Set.range (List.map enc) := by
    rw [Set.range_list_map]
    exact h
  obtain ⟨rs, rfl⟩ := hrange
  exact ⟨rs, rfl, fun r => (List.mem_map_of_injective hinj).symm⟩

/-! ### What is written -/

theorem put_entries (h : value.length < 2 ^ 32) : (db.put key value pfx).entries =
    Function.update db.entries pfx ((db.entries pfx).insert key value) := by
  rw [put, dif_pos h]

theorem get_put_self (h : value.length < 2 ^ 32) : (db.put key value pfx).get key pfx = value := by
  rw [get, put_entries h, Function.update_self, AList.lookup_insert, Option.getD_some]

theorem get_put_ne {key' : Bytes} (hne : key' ≠ key) :
    (db.put key value pfx).get key' pfx = db.get key' pfx := by
  by_cases h : value.length < 2 ^ 32
  · rw [get, put_entries h, Function.update_self, AList.lookup_insert_ne hne, get]
  · rw [put, dif_neg h]

theorem putBatch_entries {puts : List (Bytes × Bytes)} (h : ∀ e ∈ puts, e.2.length < 2 ^ 32) :
    (db.putBatch puts pfx).entries =
      Function.update db.entries pfx ((db.entries pfx).insertAll Prod.fst Prod.snd puts) := by
  induction puts generalizing db with
  | nil => exact (Function.update_eq_self pfx db.entries).symm
  | cons e puts ih =>
    have hrest : ∀ e' ∈ puts, e'.2.length < 2 ^ 32 := fun e' he' => h e' (by simp [he'])
    show (putBatch (db.put e.1 e.2 pfx) puts pfx).entries = _
    rw [ih hrest, put_entries (h e (by simp)), Function.update_idem, Function.update_self]
    rfl

/-- A batch replaces the values of its keys, the last put of a key being the one that stays. -/
theorem area_putBatch {sub : Bytes} {puts : List (Bytes × Bytes)}
    (h : ∀ e ∈ puts, e.2.length < 2 ^ 32) :
    (db.putBatch (under sub puts) pfx).area pfx sub =
      Function.updateAll Prod.fst (fun e => some e.2) (db.area pfx sub) puts := by
  induction puts generalizing db with
  | nil => rfl
  | cons e puts ih =>
    have hrest : ∀ e' ∈ puts, e'.2.length < 2 ^ 32 := fun e' he' => h e' (by simp [he'])
    show ((db.put (sub ++ e.1) e.2 pfx).putBatch (under sub puts) pfx).area pfx sub = _
    rw [ih hrest, Function.updateAll_cons]
    congr 1
    funext key
    rw [area, put_entries (h e (by simp)), Function.update_self, Function.update_apply]
    split
    · rename_i he
      rw [he, AList.lookup_insert]
    · rename_i he
      rw [AList.lookup_insert_ne (fun hk => he (List.append_cancel_left hk)), area]

/-- What is stored elsewhere stays. -/
theorem area_putBatch_of_apart {sub sub' : Bytes} {puts : List (Bytes × Bytes)}
    (h : ∀ k k', sub' ++ k ≠ sub ++ k') :
    (db.putBatch (under sub puts) pfx).area pfx sub' = db.area pfx sub' := by
  induction puts generalizing db with
  | nil => rfl
  | cons e puts ih =>
    show ((db.put (sub ++ e.1) e.2 pfx).putBatch (under sub puts) pfx).area pfx sub' = _
    rw [ih]
    funext key
    by_cases hfits : e.2.length < 2 ^ 32
    · rw [area, put_entries hfits, Function.update_self, AList.lookup_insert_ne (h key e.1), area]
    · rw [area, put, dif_neg hfits, area]

end DB

end OrbiterSdk
