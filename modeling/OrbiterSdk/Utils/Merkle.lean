import OrbiterSdk.Utils.Tx

namespace OrbiterSdk

/-!
# Merkle trees of hashes

`utils/merkle.h`: the layers of a Merkle tree from the leaves up to the root.  A layer is
folded pairwise; the two hashes of a pair are *sorted* before they are hashed together, and
a last hash without a partner is carried over unchanged.
-/

/-- The parent of two nodes: the hash of the smaller followed by the larger. -/
def parent (C : Crypto) (a b : Hash) : Hash :=
  if a ≤ b then C.sha3 (a.data ++ b.data) else C.sha3 (b.data ++ a.data)

/-- What is hashed for a pair of nodes: the smaller, then the larger. -/
def nodeBytes (a b : Hash) : Bytes := if a ≤ b then a.data ++ b.data else b.data ++ a.data

theorem parent_eq (C : Crypto) (a b : Hash) : parent C a b = C.sha3 (nodeBytes a b) := by
  unfold parent nodeBytes
  split
  · rfl
  · rfl

theorem length_nodeBytes (a b : Hash) : (nodeBytes a b).length = 64 := by
  unfold nodeBytes
  split
  · rw [List.length_append, a.size_eq, b.size_eq]
  · rw [List.length_append, a.size_eq, b.size_eq]

theorem FixedStr.append_inj {n : Nat} {a b c d : FixedStr n}
    (h : a.data ++ b.data = c.data ++ d.data) : a = c ∧ b = d := by
  obtain ⟨hac, hbd⟩ := List.append_inj h (by rw [a.size_eq, c.size_eq])
  exact ⟨FixedStr.ext hac, FixedStr.ext hbd⟩

theorem nodeBytes_inj {a b c d : Hash} (h : nodeBytes a b = nodeBytes c d) :
    (a, b) = (c, d) ∨ (a, b) = (c, d).swap := by
  unfold nodeBytes at h
  split at h
  · split at h
    · obtain ⟨rfl, rfl⟩ := FixedStr.append_inj h
      exact .inl rfl
    · obtain ⟨rfl, rfl⟩ := FixedStr.append_inj h
      exact .inr rfl
  · split at h
    · obtain ⟨rfl, rfl⟩ := FixedStr.append_inj h
      exact .inr rfl
    · obtain ⟨rfl, rfl⟩ := FixedStr.append_inj h
      exact .inl rfl

/-- `Merkle::newLayer`. -/
def newLayer (C : Crypto) : List Hash → List Hash
  | a :: b :: rest => parent C a b :: newLayer C rest
  | [a] => [a]
  | [] => []

theorem length_newLayer (C : Crypto) (layer : List Hash) :
    (newLayer C layer).length = (layer.length + 1) / 2 := by
  induction layer using newLayer.induct with
  | case1 a b rest ih => simp only [newLayer, List.length_cons, ih]; omega
  | case2 a => simp [newLayer]
  | case3 => simp [newLayer]

/-- `class Merkle`: the layers, leaves first. -/
structure Merkle where
  tree : List (List Hash)

namespace Merkle

/-- The loop `while (this->tree.back().size() > 1)`, starting at the last layer. -/
def layers (C : Crypto) : Nat → List Hash → List (List Hash)
  | 0, layer => [layer]
  | fuel + 1, layer =>
    if 1 < layer.length then layer :: layers C fuel (newLayer C layer) else [layer]

/-- The constructor from transactions, given their hashes.  A layer shrinks whenever the
    loop runs, so the number of leaves bounds the iterations. -/
def ofHashes (C : Crypto) (hashes : List Hash) : Merkle :=
  ⟨layers C hashes.length (hashes.map fun h => C.sha3 h.data)⟩

/-- `Merkle::getRoot`: the zero hash for an empty last layer. -/
def getRoot (m : Merkle) : Hash := ((m.tree.getLast?.getD []).head?).getD FixedStr.zero

/-- The loop stops only at a layer of at most one hash: the fuel is enough. -/
theorem length_getLast_layers (C : Crypto) (fuel : Nat) (layer last : List Hash)
    (hfuel : layer.length ≤ fuel + 1) (h : (layers C fuel layer).getLast? = some last) :
    last.length ≤ 1 := by
  induction fuel generalizing layer with
  | zero =>
    simp only [layers, List.getLast?_singleton, Option.some.injEq] at h
    subst h; exact hfuel
  | succ fuel ih =>
    unfold layers at h
    split at h
    · have hne : layers C fuel (newLayer C layer) ≠ [] := by
        unfold layers; split <;> first | split <;> simp | simp
      rw [List.getLast?_cons_of_ne_nil hne] at h
      exact ih (newLayer C layer) (by rw [length_newLayer]; omega) h
    · simp only [List.getLast?_singleton, Option.some.injEq] at h
      subst h; omega

end Merkle

end OrbiterSdk
