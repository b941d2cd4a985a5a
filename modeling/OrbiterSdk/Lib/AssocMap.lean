import Mathlib

/-!
# Finite maps as association lists

A finite map is Mathlib's `AList` at a constant value type.  The entries keep an order
(that in which the map is iterated), while every lemma here speaks about `lookup` and
about sums, which do not depend on it.

* `AssocMap.emplace` inserts only when the key is absent; `AssocMap.emplaceAll` inserts a
  list of entries that way;
* `AssocMap.weight` / `AssocMap.total` read a numeric measure of the value at a key and
  of the whole map; `total_insert`, `total_erase` and `total_eq_sum` relate the two;
* `AssocMap.lookup_overwrite_of_some` is the effect of writing every entry of one map into
  another, in any order.
-/

/-- A finite map from `K` to `V`, iterated in the order of its entries. -/
abbrev AssocMap (K V : Type) := AList (fun _ : K => V)

namespace AssocMap

variable {K V W : Type} [DecidableEq K]

/-! ### Insertion that keeps an existing entry -/

/-- Insert `(k, v)` unless `k` is already bound. -/
def emplace (m : AssocMap K V) (k : K) (v : V) : AssocMap K V :=
  if k ∈ m then m else m.insert k v

theorem lookup_emplace_of_mem {m : AssocMap K V} {k : K} (v : V) (h : k ∈ m) :
    m.emplace k v = m := if_pos h

theorem lookup_emplace_self_of_notMem {m : AssocMap K V} {k : K} (v : V) (h : k ∉ m) :
    (m.emplace k v).lookup k = some v := by
  rw [emplace, if_neg h, AList.lookup_insert]

theorem lookup_emplace_self (m : AssocMap K V) (k : K) (v : V) :
    ((m.emplace k v).lookup k).getD v = (m.lookup k).getD v := by
  by_cases h : k ∈ m
  · rw [lookup_emplace_of_mem v h]
  · rw [lookup_emplace_self_of_notMem v h, AList.lookup_eq_none.mpr h, Option.getD_some,
      Option.getD_none]

theorem lookup_emplace_ne {m : AssocMap K V} {k k' : K} (v : V) (h : k' ≠ k) :
    (m.emplace k v).lookup k' = m.lookup k' := by
  unfold emplace
  split
  · rfl
  · exact AList.lookup_insert_ne h

theorem mem_iff_lookup {m : AssocMap K V} {k : K} : k ∈ m ↔ ∃ v, m.lookup k = some v := by
  rw [← AList.lookup_isSome, Option.isSome_iff_exists]

/-! ### Inserting a list of entries -/

section

variable {β : Type} {f : β → K} {g : β → V}

/-- Insert an entry for every element of a list, in order. -/
def emplaceAll (f : β → K) (g : β → V) (m : AssocMap K V) (l : List β) : AssocMap K V :=
  l.foldl (fun m x => m.emplace (f x) (g x)) m

@[simp] theorem emplaceAll_nil (m : AssocMap K V) : m.emplaceAll f g [] = m := rfl

@[simp] theorem emplaceAll_cons (m : AssocMap K V) (x : β) (l : List β) :
    m.emplaceAll f g (x :: l) = (m.emplace (f x) (g x)).emplaceAll f g l := rfl

theorem mem_emplace {m : AssocMap K V} {k k' : K} {v : V} :
    k' ∈ m.emplace k v ↔ k' = k ∨ k' ∈ m := by
  unfold emplace
  split
  · rename_i hk
    exact ⟨Or.inr, fun h => h.elim (fun he => he ▸ hk) id⟩
  · exact AList.mem_insert m

theorem entries_emplace_of_notMem {m : AssocMap K V} {k : K} (v : V) (h : k ∉ m) :
    (m.emplace k v).entries = ⟨k, v⟩ :: m.entries := by
  rw [emplace, if_neg h, AList.entries_insert_of_notMem h]

/-- Entries with new, distinct keys are all inserted, the last one in front. -/
theorem entries_emplaceAll {m : AssocMap K V} {l : List β} (hnd : (l.map f).Nodup)
    (hnew : ∀ x ∈ l, f x ∉ m) :
    (m.emplaceAll f g l).entries = (l.map fun x => ⟨f x, g x⟩).reverse ++ m.entries := by
  induction l generalizing m with
  | nil => rfl
  | cons x l ih =>
    rw [List.map_cons, List.nodup_cons] at hnd
    have hx : f x ∉ m := hnew x (by simp)
    have hrest : ∀ y ∈ l, f y ∉ m.emplace (f x) (g x) := by
      intro y hy hmem
      rcases mem_emplace.mp hmem with he | hmem
      · exact hnd.1 (he ▸ List.mem_map_of_mem hy)
      · exact hnew y (by simp [hy]) hmem
    rw [emplaceAll_cons, ih hnd.2 hrest, entries_emplace_of_notMem _ hx]
    simp

/-- A map that grew by as many entries as were inserted had to insert them all. -/
theorem nodup_of_length_emplaceAll {m : AssocMap K V} {l : List β}
    (h : m.entries.length + l.length ≤ (m.emplaceAll f g l).entries.length) :
    (l.map f).Nodup ∧ ∀ x ∈ l, f x ∉ m := by
  have hle : ∀ (l : List β) (m : AssocMap K V),
      (m.emplaceAll f g l).entries.length ≤ m.entries.length + l.length := by
    intro l
    induction l with
    | nil => exact fun m => le_rfl
    | cons x l ih =>
      intro m
      have := ih (m.emplace (f x) (g x))
      rw [emplaceAll_cons, List.length_cons]
      by_cases hx : f x ∈ m
      · rw [lookup_emplace_of_mem _ hx] at this ⊢
        omega
      · rw [entries_emplace_of_notMem _ hx, List.length_cons] at this
        omega
  induction l generalizing m with
  | nil => simp
  | cons x l ih =>
    rw [emplaceAll_cons, List.length_cons] at h
    have hx : f x ∉ m := by
      intro hx
      rw [lookup_emplace_of_mem _ hx] at h
      have := hle l m
      omega
    have hlen : (m.emplace (f x) (g x)).entries.length = m.entries.length + 1 := by
      rw [entries_emplace_of_notMem _ hx, List.length_cons]
    obtain ⟨hnd, hnew⟩ := ih (m := m.emplace (f x) (g x)) (by omega)
    refine ⟨?_, fun y hy => ?_⟩
    · rw [List.map_cons, List.nodup_cons]
      refine ⟨fun hmem => ?_, hnd⟩
      obtain ⟨y, hy, he⟩ := List.mem_map.mp hmem
      exact hnew y hy (mem_emplace.mpr (Or.inl he))
    · rcases List.mem_cons.mp hy with rfl | hy
      · exact hx
      · exact fun hm => hnew y hy (mem_emplace.mpr (Or.inr hm))

end

/-! ### Changing a value in place -/

/-- Apply `f` to the value bound to `k`, if any; the keys and their order stay. -/
def modify (m : AssocMap K V) (k : K) (f : V → V) : AssocMap K V where
  entries := m.entries.map fun e => if e.1 = k then ⟨e.1, f e.2⟩ else e
  nodupKeys := by
    have hkeys : (m.entries.map fun e => if e.1 = k then (⟨e.1, f e.2⟩ : Sigma _) else e).keys =
        m.entries.keys := by
      rw [List.keys, List.map_map]
      refine List.map_congr_left (fun e _ => ?_)
      by_cases h : e.1 = k <;> simp [h]
    rw [List.NodupKeys, hkeys]
    exact m.nodupKeys

@[simp] theorem keys_modify (m : AssocMap K V) (k : K) (f : V → V) :
    (m.modify k f).keys = m.keys := by
  show List.map Sigma.fst (List.map _ _) = List.map Sigma.fst _
  rw [List.map_map]
  refine List.map_congr_left (fun e _ => ?_)
  by_cases h : e.1 = k <;> simp [h]

theorem mem_modify {m : AssocMap K V} {k k' : K} {f : V → V} : k' ∈ m.modify k f ↔ k' ∈ m := by
  show k' ∈ (m.modify k f).keys ↔ k' ∈ m.keys
  rw [keys_modify]

private theorem dlookup_modify (es : List (Sigma fun _ : K => V)) (k k' : K) (f : V → V) :
    (es.map fun e => if e.1 = k then (⟨e.1, f e.2⟩ : Sigma _) else e).dlookup k' =
      if k' = k then (es.dlookup k').map f else es.dlookup k' := by
  induction es with
  | nil => simp
  | cons e es ih =>
    obtain ⟨a, v⟩ := e
    rw [List.map_cons]
    by_cases hk : k' = a
    · subst hk
      by_cases h : k' = k
      · rw [if_pos h, if_pos h, List.dlookup_cons_eq, List.dlookup_cons_eq, Option.map_some]
      · rw [if_neg h, if_neg h, List.dlookup_cons_eq, List.dlookup_cons_eq]
    · have hhead : ∀ w : V, List.dlookup k' ((⟨a, w⟩ : Sigma fun _ : K => V) :: es) =
          es.dlookup k' := fun w => List.dlookup_cons_ne es ⟨a, w⟩ hk
      rw [hhead, ← ih]
      by_cases h : a = k
      · rw [if_pos h]; exact List.dlookup_cons_ne _ (⟨a, f v⟩ : Sigma fun _ : K => V) hk
      · rw [if_neg h]; exact List.dlookup_cons_ne _ (⟨a, v⟩ : Sigma fun _ : K => V) hk

theorem lookup_modify (m : AssocMap K V) (k k' : K) (f : V → V) :
    (m.modify k f).lookup k' = if k' = k then (m.lookup k').map f else m.lookup k' :=
  dlookup_modify m.entries k k' f

/-! ### A numeric measure of the values -/

/-- The measure of the value bound to `k` (`0` when unbound). -/
def weight (f : V → Nat) (m : AssocMap K V) (k : K) : Nat := ((m.lookup k).map f).getD 0

/-- The measure summed over every entry. -/
def total (f : V → Nat) (m : AssocMap K V) : Nat := (m.entries.map (fun e => f e.2)).sum

@[simp] theorem weight_empty (f : V → Nat) (k : K) : weight f (∅ : AssocMap K V) k = 0 := rfl

omit [DecidableEq K] in
@[simp] theorem total_empty (f : V → Nat) : total f (∅ : AssocMap K V) = 0 := rfl

theorem weight_of_lookup {f : V → Nat} {m : AssocMap K V} {k : K} {v : V}
    (h : m.lookup k = some v) : weight f m k = f v := by
  simp [weight, h]

theorem weight_of_notMem {f : V → Nat} {m : AssocMap K V} {k : K} (h : k ∉ m) :
    weight f m k = 0 := by
  simp [weight, AList.lookup_eq_none.mpr h]

@[simp] theorem weight_insert_self (f : V → Nat) (m : AssocMap K V) (k : K) (v : V) :
    weight f (m.insert k v) k = f v := by
  simp [weight]

theorem weight_insert_ne (f : V → Nat) (m : AssocMap K V) {k k' : K} (v : V) (h : k' ≠ k) :
    weight f (m.insert k v) k' = weight f m k' := by
  simp [weight, AList.lookup_insert_ne h]

/-- Removing a key from a duplicate-free entry list removes exactly its measure. -/
private theorem kerase_sum (f : V → Nat) (k : K) (es : List (Sigma fun _ : K => V))
    (hnd : es.NodupKeys) :
    ((es.kerase k).map (fun e => f e.2)).sum + ((es.dlookup k).map f).getD 0
      = (es.map (fun e => f e.2)).sum := by
  induction es with
  | nil => simp
  | cons e es ih =>
    obtain ⟨k', v⟩ := e
    rw [List.nodupKeys_cons] at hnd
    by_cases h : k = k'
    · subst h
      simp [List.kerase_cons_eq, Nat.add_comm]
    · rw [List.kerase_cons_ne h, List.dlookup_cons_ne _ _ h]
      have := ih hnd.2
      simp only [List.map_cons, List.sum_cons]
      omega

theorem total_insert (f : V → Nat) (m : AssocMap K V) (k : K) (v : V) :
    total f (m.insert k v) + weight f m k = total f m + f v := by
  have h := kerase_sum f k m.entries m.nodupKeys
  simp only [total, weight, AList.entries_insert, List.map_cons, List.sum_cons, AList.lookup]
  omega

theorem total_erase (f : V → Nat) (m : AssocMap K V) (k : K) :
    total f (m.erase k) + weight f m k = total f m :=
  kerase_sum f k m.entries m.nodupKeys

theorem total_insert_emplace (f : V → Nat) (m : AssocMap K V) (k : K) {v : V} (hv : f v = 0)
    (v' : V) : total f ((m.emplace k v).insert k v') + weight f m k = total f m + f v' := by
  by_cases h : k ∈ m
  · rw [lookup_emplace_of_mem v h]
    exact total_insert f m k v'
  · have hins := total_insert f (m.insert k v) k v'
    have hcreate := total_insert f m k v
    rw [weight_insert_self, hv] at hins
    rw [emplace, if_neg h]
    omega

/-- The total is the sum of the measures over any finite set that covers the keys. -/
theorem total_eq_sum (f : V → Nat) (m : AssocMap K V) (F : Finset K)
    (hF : ∀ k ∈ m, k ∈ F) : total f m = ∑ k ∈ F, weight f m k := by
  induction m using AList.insertRec with
  | H0 => simp
  | IH k v m hk ih =>
    have hkF : k ∈ F := hF k (by simp)
    have hsub : ∀ k' ∈ m, k' ∈ F := fun k' hk' => hF k' (by simp [hk'])
    have hins := total_insert f m k v
    rw [weight_of_notMem hk, Nat.add_zero] at hins
    rw [hins, ih hsub, ← Finset.sum_erase_add F _ hkF, ← Finset.sum_erase_add F _ hkF,
      weight_insert_self, weight_of_notMem hk, Nat.add_zero]
    congr 1
    refine Finset.sum_congr rfl (fun k' hk' => ?_)
    rw [weight_insert_ne f m v (Finset.ne_of_mem_erase hk')]

theorem weight_le_total (f : V → Nat) (m : AssocMap K V) (k : K) : weight f m k ≤ total f m := by
  have h := kerase_sum f k m.entries m.nodupKeys
  simp only [total, weight, AList.lookup]
  omega

/-! ### Writing one map into another -/

/-- Write every entry of `es` into `m`, `g` combining the value already there with the one
    written. -/
def overwrite (g : Option V → W → V) (m : AssocMap K V) (es : List (Sigma fun _ : K => W)) :
    AssocMap K V :=
  es.foldl (fun m e => m.insert e.1 (g (m.lookup e.1) e.2)) m

theorem lookup_overwrite_of_none (g : Option V → W → V) (m : AssocMap K V)
    (es : List (Sigma fun _ : K => W)) {k : K} (hk : es.dlookup k = none) :
    (m.overwrite g es).lookup k = m.lookup k := by
  induction es generalizing m with
  | nil => rfl
  | cons e es ih =>
    obtain ⟨k', w⟩ := e
    have hne : k ≠ k' := by
      rintro rfl
      simp at hk
    rw [List.dlookup_cons_ne _ _ hne] at hk
    show (overwrite g (m.insert k' _) es).lookup k = _
    rw [ih _ hk, AList.lookup_insert_ne hne]

theorem lookup_overwrite_of_some (g : Option V → W → V) (m : AssocMap K V)
    (es : List (Sigma fun _ : K => W)) (hnd : es.NodupKeys) {k : K} {w : W}
    (hk : es.dlookup k = some w) :
    (m.overwrite g es).lookup k = some (g (m.lookup k) w) := by
  induction es generalizing m with
  | nil => simp at hk
  | cons e es ih =>
    obtain ⟨k', w'⟩ := e
    rw [List.nodupKeys_cons] at hnd
    show (overwrite g (m.insert k' _) es).lookup k = _
    by_cases h : k = k'
    · subst h
      rw [List.dlookup_cons_eq, Option.some.injEq] at hk
      subst hk
      have hnone : es.dlookup k = none := List.dlookup_eq_none.mpr hnd.1
      rw [lookup_overwrite_of_none g _ es hnone, AList.lookup_insert]
    · rw [List.dlookup_cons_ne _ _ h] at hk
      rw [ih _ hnd.2 hk, AList.lookup_insert_ne h]

theorem mem_overwrite (g : Option V → W → V) (m : AssocMap K V)
    (es : List (Sigma fun _ : K => W)) {k : K} :
    k ∈ m.overwrite g es ↔ k ∈ m ∨ k ∈ es.keys := by
  induction es generalizing m with
  | nil => simp [overwrite]
  | cons e es ih =>
    show k ∈ overwrite g (m.insert e.1 _) es ↔ _
    rw [ih, AList.mem_insert, List.keys_cons, List.mem_cons]
    tauto

end AssocMap
