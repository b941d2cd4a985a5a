import Mathlib

/-!
# Binary hash trees

The tree over a list is built layer by layer: the nodes of a layer are combined two by two, and
a last one without a partner is carried over.  A hash that sorts the two values it combines
cannot tell a node's children apart.

* `ofList` — the tree over a list, with the list as its leaves (`leaves_of_ofList`);
* `Swapped` — equality of trees up to exchanging the children of nodes;
* `swapped_of_value_eq` — trees with the same value are equal up to exchanges, when the
  hash is free of collisions on what the two trees hash (`Binds`);
* `SwappedLists` — the relation between the lists, and that it makes them permutations.
-/

/-- A binary tree with its items at the leaves. -/
inductive HashTree (α : Type) where
  | leaf (a : α)
  | node (l r : HashTree α)

namespace HashTree

variable {α ν : Type}

/-- The items from left to right. -/
def leaves : HashTree α → List α
  | leaf a => [a]
  | node l r => l.leaves ++ r.leaves

/-- The value of a tree: `f` at the leaves, `g` at the nodes. -/
def value (f : α → ν) (g : ν → ν → ν) : HashTree α → ν
  | leaf a => f a
  | node l r => g (l.value f g) (r.value f g)

/-- The pairs of values that are combined at the nodes. -/
def pairs (f : α → ν) (g : ν → ν → ν) : HashTree α → List (ν × ν)
  | leaf _ => []
  | node l r => (l.value f g, r.value f g) :: (l.pairs f g ++ r.pairs f g)

/-! ### Equality up to exchanging children -/

/-- The same tree up to exchanging the two children of any of its nodes. -/
inductive Swapped : HashTree α → HashTree α → Prop where
  | leaf (a : α) : Swapped (leaf a) (leaf a)
  | node {l r l' r' : HashTree α} :
      Swapped l l' → Swapped r r' → Swapped (node l r) (node l' r')
  | swap {l r l' r' : HashTree α} :
      Swapped l r' → Swapped r l' → Swapped (node l r) (node l' r')

theorem Swapped.perm {t t' : HashTree α} (h : Swapped t t') : t.leaves.Perm t'.leaves := by
  induction h with
  | leaf a => exact List.Perm.refl [a]
  | node _ _ ihl ihr => exact ihl.append ihr
  | swap _ _ ihl ihr => exact (ihl.append ihr).trans List.perm_append_comm

/-- The hash tells apart what two trees hash: their items, items from nodes, and the pairs at
    their nodes up to order. -/
structure Binds (f : α → ν) (g : ν → ν → ν) (t t' : HashTree α) : Prop where
  leaf : ∀ a ∈ t.leaves, ∀ b ∈ t'.leaves, f a = f b → a = b
  leaf_ne : ∀ a ∈ t.leaves, ∀ q ∈ t'.pairs f g, f a ≠ g q.1 q.2
  ne_leaf : ∀ p ∈ t.pairs f g, ∀ b ∈ t'.leaves, g p.1 p.2 ≠ f b
  pair : ∀ p ∈ t.pairs f g, ∀ q ∈ t'.pairs f g, g p.1 p.2 = g q.1 q.2 → p = q ∨ p = q.swap

/-- The items and the pairs of a tree are among those of another. -/
structure Within (f : α → ν) (g : ν → ν → ν) (u t : HashTree α) : Prop where
  leaves : u.leaves ⊆ t.leaves
  pairs : u.pairs f g ⊆ t.pairs f g

theorem within_left (f : α → ν) (g : ν → ν → ν) (l r : HashTree α) : Within f g l (node l r) where
  leaves := List.subset_append_left l.leaves r.leaves
  pairs _ hp := List.mem_cons_of_mem _ (List.mem_append_left _ hp)

theorem within_right (f : α → ν) (g : ν → ν → ν) (l r : HashTree α) : Within f g r (node l r) where
  leaves := List.subset_append_right l.leaves r.leaves
  pairs _ hp := List.mem_cons_of_mem _ (List.mem_append_right _ hp)

theorem Binds.mono {f : α → ν} {g : ν → ν → ν} {t t' u u' : HashTree α} (h : Binds f g t t')
    (hu : Within f g u t) (hu' : Within f g u' t') : Binds f g u u' where
  leaf a ha b hb := h.leaf a (hu.leaves ha) b (hu'.leaves hb)
  leaf_ne a ha q hq := h.leaf_ne a (hu.leaves ha) q (hu'.pairs hq)
  ne_leaf p hp b hb := h.ne_leaf p (hu.pairs hp) b (hu'.leaves hb)
  pair p hp q hq := h.pair p (hu.pairs hp) q (hu'.pairs hq)

/-- **The value of a tree fixes it up to exchanges.** -/
theorem swapped_of_value_eq {f : α → ν} {g : ν → ν → ν} {t t' : HashTree α} (hbinds : Binds f g t t')
    (h : t.value f g = t'.value f g) : Swapped t t' := by
  induction t generalizing t' with
  | leaf a =>
    cases t' with
    | leaf b =>
      have hab := hbinds.leaf a (List.mem_singleton_self a) b (List.mem_singleton_self b) h
      rw [hab]
      exact .leaf b
    | node l' r' =>
      exact absurd h (hbinds.leaf_ne a (List.mem_singleton_self a) _ List.mem_cons_self)
  | node l r ihl ihr =>
    cases t' with
    | leaf b =>
      exact absurd h (hbinds.ne_leaf _ List.mem_cons_self b (List.mem_singleton_self b))
    | node l' r' =>
      have hl := within_left f g l r
      have hr := within_right f g l r
      have hl' := within_left f g l' r'
      have hr' := within_right f g l' r'
      -- the two values are those of the other node's children, in one of the two orders
      rcases hbinds.pair _ List.mem_cons_self _ List.mem_cons_self h with heq | heq
      · obtain ⟨hleft, hright⟩ := Prod.mk.inj heq
        exact .node (ihl (hbinds.mono hl hl') hleft) (ihr (hbinds.mono hr hr') hright)
      · obtain ⟨hleft, hright⟩ := Prod.mk.inj heq
        exact .swap (ihl (hbinds.mono hl hr') hleft) (ihr (hbinds.mono hr hl') hright)

/-! ### The tree over a list -/

/-- Combine the trees of a layer two by two. -/
def pairUp : List (HashTree α) → List (HashTree α)
  | l :: r :: rest => node l r :: pairUp rest
  | [t] => [t]
  | [] => []

/-- Combine layers until one tree is left; the fuel bounds the number of layers. -/
def reduce : Nat → List (HashTree α) → List (HashTree α)
  | 0, layer => layer
  | fuel + 1, layer => if 1 < layer.length then reduce fuel (pairUp layer) else layer

/-- The tree over a list. -/
def ofList (items : List α) : Option (HashTree α) := (reduce items.length (items.map leaf)).head?

theorem length_pairUp (layer : List (HashTree α)) :
    (pairUp layer).length = (layer.length + 1) / 2 := by
  induction layer using pairUp.induct with
  | case1 l r rest ih =>
    simp only [pairUp, List.length_cons, ih]
    omega
  | case2 t => simp [pairUp]
  | case3 => simp [pairUp]

theorem leaves_pairUp (layer : List (HashTree α)) :
    (pairUp layer).flatMap leaves = layer.flatMap leaves := by
  induction layer using pairUp.induct with
  | case1 l r rest ih =>
    simp only [pairUp, List.flatMap_cons, ih, leaves, List.append_assoc]
  | case2 t => rfl
  | case3 => rfl

theorem leaves_reduce (fuel : Nat) (layer : List (HashTree α)) :
    (reduce fuel layer).flatMap leaves = layer.flatMap leaves := by
  induction fuel generalizing layer with
  | zero => rfl
  | succ fuel ih =>
    unfold reduce
    split
    · rw [ih, leaves_pairUp]
    · rfl

theorem length_reduce {fuel : Nat} {layer : List (HashTree α)} (h : layer.length ≤ fuel + 1) :
    (reduce fuel layer).length ≤ 1 := by
  induction fuel generalizing layer with
  | zero => exact h
  | succ fuel ih =>
    unfold reduce
    split
    · refine ih ?_
      rw [length_pairUp]
      omega
    · omega

theorem leaves_of_leaf (items : List α) : (items.map leaf).flatMap leaves = items := by
  induction items with
  | nil => rfl
  | cons a items ih => rw [List.map_cons, List.flatMap_cons, ih]; rfl

theorem reduce_ofList (items : List α) :
    reduce items.length (items.map leaf) = (ofList items).toList := by
  have hlen : (reduce items.length (items.map leaf)).length ≤ 1 :=
    length_reduce (by rw [List.length_map]; exact Nat.le_succ _)
  unfold ofList
  cases hreduce : reduce items.length (items.map leaf) with
  | nil => rfl
  | cons t rest =>
    rw [hreduce, List.length_cons] at hlen
    rw [List.length_eq_zero_iff.mp (by omega : rest.length = 0)]
    rfl

theorem leaves_ofList (items : List α) : (ofList items).toList.flatMap leaves = items := by
  rw [← reduce_ofList, leaves_reduce, leaves_of_leaf]

theorem leaves_of_ofList {items : List α} {t : HashTree α} (h : ofList items = some t) :
    t.leaves = items := by
  have hleaves := leaves_ofList items
  rwa [h, Option.toList_some, List.flatMap_singleton] at hleaves

/-- The lists are equal up to exchanging the children of nodes of their trees. -/
def SwappedLists (items items' : List α) : Prop :=
  Option.Rel Swapped (ofList items) (ofList items')

theorem SwappedLists.perm {items items' : List α} (h : SwappedLists items items') :
    items.Perm items' := by
  rw [← leaves_ofList items, ← leaves_ofList items']
  unfold SwappedLists at h
  generalize ofList items = tree, ofList items' = tree' at h
  cases h with
  | none => exact List.Perm.refl _
  | some h =>
    simp only [Option.toList_some, List.flatMap_singleton]
    exact h.perm

end HashTree
