import OrbiterSdk.Lib.AssocMap

/-!
# Maps as graphs of relations

An index over a collection is a map whose bindings are exactly the pairs of a relation.
`AssocMap.Graph m R` says so; it is kept by

* `Graph.emplace` / `Graph.insert` — binding a key, as long as the relation has no other
  value for it;
* `Graph.emplaceAll` / `Graph.insertAll` — binding the keys of a list;
* `Graph.erase` / `Graph.eraseAll` — removing keys.

`Function.updateAll` is the same for total functions: the last element of a list that speaks
about an argument decides.
-/

namespace Function

variable {K V β : Type} [DecidableEq K]

/-- Update a function at every element of a list, in order. -/
def updateAll (key : β → K) (val : β → V) (f : K → V) (l : List β) : K → V :=
  l.foldl (fun f x => update f (key x) (val x)) f

variable {key : β → K} {val : β → V} {f : K → V} {l : List β}

theorem updateAll_cons {x : β} :
    updateAll key val f (x :: l) = updateAll key val (update f (key x) (val x)) l := rfl

theorem updateAll_apply (a : K) :
    updateAll key val f l a = ((l.filter fun x => key x = a).getLast?.map val).getD (f a) := by
  induction l generalizing f with
  | nil => rfl
  | cons x l ih =>
    rw [updateAll_cons, ih, update_apply]
    by_cases hx : key x = a
    · rw [List.filter_cons_of_pos (by simp [hx]), List.getLast?_cons, if_pos hx.symm]
      cases (l.filter fun x => key x = a).getLast? <;> rfl
    · rw [List.filter_cons_of_neg (by simp [hx]), if_neg (fun h => hx h.symm)]

theorem updateAll_of_notMem {a : K} (h : ∀ x ∈ l, key x ≠ a) : updateAll key val f l a = f a := by
  have hnil : (l.filter fun x => key x = a) = [] := by
    rw [List.filter_eq_nil_iff]
    intro x hx
    simp [h x hx]
  rw [updateAll_apply, hnil]
  rfl

/-- Where the list says one thing only, that is the value. -/
theorem updateAll_of_mem {a : K} {x : β} (hx : x ∈ l) (hkey : key x = a)
    (h : ∀ y ∈ l, key y = a → val y = val x) : updateAll key val f l a = val x := by
  have hmem : x ∈ l.filter fun x => key x = a := List.mem_filter.mpr ⟨hx, decide_eq_true hkey⟩
  obtain ⟨y, hy⟩ := List.getLast?_isSome.mpr (List.ne_nil_of_mem hmem) |> Option.isSome_iff_exists.mp
  have hyl := List.mem_filter.mp (List.mem_of_getLast? hy)
  rw [updateAll_apply, hy]
  exact h y hyl.1 (of_decide_eq_true hyl.2)

end Function

namespace AssocMap

variable {K V β : Type} [DecidableEq K]

/-- The bindings of `m` are the pairs of `R`. -/
def Graph (m : AssocMap K V) (R : K → V → Prop) : Prop := ∀ k v, m.lookup k = some v ↔ R k v

/-- Bind every element of a list, in order; a later binding replaces an earlier one. -/
def insertAll (f : β → K) (g : β → V) (m : AssocMap K V) (l : List β) : AssocMap K V :=
  l.foldl (fun m x => m.insert (f x) (g x)) m

theorem lookup_insertAll (f : β → K) (g : β → V) (m : AssocMap K V) (l : List β) (k : K) :
    (m.insertAll f g l).lookup k =
      Function.updateAll f (fun x => some (g x)) (fun k => m.lookup k) l k := by
  induction l generalizing m with
  | nil => rfl
  | cons x l ih =>
    refine (ih (m.insert (f x) (g x))).trans ?_
    rw [Function.updateAll_cons]
    congr 1
    funext k
    by_cases hk : k = f x
    · rw [hk, AList.lookup_insert, Function.update_self]
    · rw [AList.lookup_insert_ne hk, Function.update_of_ne hk]

/-- Remove the key of every element of a list. -/
def eraseAll (f : β → K) (m : AssocMap K V) (l : List β) : AssocMap K V :=
  l.foldl (fun m x => m.erase (f x)) m

namespace Graph

variable {m : AssocMap K V} {R S : K → V → Prop} {k : K} {v : V} {f : β → K} {g : β → V}

theorem rightUnique (h : Graph m R) : Relator.RightUnique R := by
  intro k v v' hv hv'
  have hlook := (h k v).mpr hv
  rw [(h k v').mpr hv'] at hlook
  exact (Option.some.inj hlook).symm

theorem congr (h : Graph m R) (hRS : ∀ k v, R k v ↔ S k v) : Graph m S :=
  fun k v => (h k v).trans (hRS k v)

theorem empty : Graph (∅ : AssocMap K V) fun _ _ => False := by
  intro k v
  simp

theorem mem_iff (h : Graph m R) : k ∈ m ↔ ∃ v, R k v := by
  rw [mem_iff_lookup]
  exact exists_congr fun v => h k v

theorem lookup_eq_none (h : Graph m R) (hk : ∀ v, ¬ R k v) : m.lookup k = none := by
  rw [AList.lookup_eq_none, h.mem_iff]
  rintro ⟨v, hv⟩
  exact hk v hv

theorem insert_other (h : Graph m R) (k : K) (v : V) :
    Graph (m.insert k v) fun k' v' => (k' ≠ k ∧ R k' v') ∨ (k' = k ∧ v' = v) := by
  intro k' v'
  by_cases hk : k' = k
  · subst hk
    simp [eq_comm]
  · rw [AList.lookup_insert_ne hk, h k' v']
    simp [hk]

/-- Binding a key to the only value the relation may have for it adds that pair. -/
theorem insert (h : Graph m R) (hk : ∀ v', R k v' → v' = v) :
    Graph (m.insert k v) fun k' v' => R k' v' ∨ (k' = k ∧ v' = v) := by
  refine (h.insert_other k v).congr fun k' v' => ?_
  by_cases he : k' = k
  · subst he
    simp only [ne_eq, not_true_eq_false, false_and, true_and, false_or]
    exact ⟨Or.inr, fun hv => hv.elim (hk v') id⟩
  · simp [he]

/-- Keeping a value that is there is the same when it is the same value. -/
theorem emplace (h : Graph m R) (hk : ∀ v', R k v' → v' = v) :
    Graph (m.emplace k v) fun k' v' => R k' v' ∨ (k' = k ∧ v' = v) := by
  by_cases hmem : k ∈ m
  · obtain ⟨w, hw⟩ := h.mem_iff.mp hmem
    cases hk w hw
    rw [lookup_emplace_of_mem _ hmem]
    refine h.congr fun k' v' => ⟨Or.inl, ?_⟩
    rintro (hv | ⟨rfl, rfl⟩)
    · exact hv
    · exact hw
  · rw [AssocMap.emplace, if_neg hmem]
    exact h.insert hk

theorem foldl {op : AssocMap K V → K → V → AssocMap K V}
    (hop : ∀ {m : AssocMap K V} {R : K → V → Prop} {k : K} {v : V}, Graph m R →
      (∀ v', R k v' → v' = v) → Graph (op m k v) fun k' v' => R k' v' ∨ (k' = k ∧ v' = v))
    (h : Graph m R) (l : List β)
    (hu : Relator.RightUnique fun k v => R k v ∨ ∃ x ∈ l, f x = k ∧ g x = v) :
    Graph (l.foldl (fun m x => op m (f x) (g x)) m)
      fun k v => R k v ∨ ∃ x ∈ l, f x = k ∧ g x = v := by
  induction l generalizing m R with
  | nil => exact h.congr fun k v => by simp
  | cons x l ih =>
    have hsplit : ∀ k v, ((R k v ∨ (k = f x ∧ v = g x)) ∨ ∃ y ∈ l, f y = k ∧ g y = v) ↔
        (R k v ∨ ∃ y ∈ x :: l, f y = k ∧ g y = v) := by
      intro k v
      simp only [List.mem_cons, exists_eq_or_imp, or_assoc, eq_comm (a := k), eq_comm (a := v)]
    have hstep := hop h (k := f x) (v := g x) fun v' hv' =>
      hu (Or.inl hv') (Or.inr ⟨x, by simp, rfl, rfl⟩)
    refine (ih hstep ?_).congr hsplit
    intro k v v' hv hv'
    exact hu ((hsplit k v).mp hv) ((hsplit k v').mp hv')

theorem emplaceAll (h : Graph m R) (l : List β)
    (hu : Relator.RightUnique fun k v => R k v ∨ ∃ x ∈ l, f x = k ∧ g x = v) :
    Graph (m.emplaceAll f g l) fun k v => R k v ∨ ∃ x ∈ l, f x = k ∧ g x = v :=
  foldl (fun h hk => h.emplace hk) h l hu

theorem insertAll (h : Graph m R) (l : List β)
    (hu : Relator.RightUnique fun k v => R k v ∨ ∃ x ∈ l, f x = k ∧ g x = v) :
    Graph (m.insertAll f g l) fun k v => R k v ∨ ∃ x ∈ l, f x = k ∧ g x = v :=
  foldl (fun h hk => h.insert hk) h l hu

theorem erase (h : Graph m R) (k : K) : Graph (m.erase k) fun k' v' => R k' v' ∧ k' ≠ k := by
  intro k' v'
  by_cases hk : k' = k
  · subst hk
    simp
  · rw [AList.lookup_erase_ne hk, h k' v']
    simp [hk]

theorem eraseAll (h : Graph m R) (l : List β) :
    Graph (m.eraseAll f l) fun k v => R k v ∧ ∀ x ∈ l, f x ≠ k := by
  induction l generalizing m R with
  | nil => exact h.congr fun k v => by simp
  | cons x l ih =>
    refine (ih (h.erase (f x))).congr fun k v => ?_
    simp only [List.mem_cons, forall_eq_or_imp, and_assoc, ne_comm (a := k)]

end Graph

end AssocMap
