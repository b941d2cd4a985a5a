import Mathlib

/-!
# In-place shuffles

A shuffle driven by a generator: at position `i` of a list of length `n` the generator
advances, and the element at `i` is exchanged with the one at `i + draw % (n - i)`.

* `Shuffle.shuffle_perm` — the result is a permutation of the input.

Both the result and the generator's final state are functions of the seed and the input
alone.
-/

namespace Shuffle

variable {α σ : Type}

/-- Exchange the elements at two positions of the list. -/
def swapAt (l : List α) (i j : Nat) : List α := (l.toArray.swapIfInBounds i j).toList

theorem swapAt_perm (l : List α) (i j : Nat) : (swapAt l i j).Perm l := by
  unfold swapAt Array.swapIfInBounds
  split
  · split
    · exact (Array.swap_perm _ _).toList
    · exact List.Perm.refl l
  · exact List.Perm.refl l

/-- The remaining `n` steps of the loop, from position `i` on. -/
def loop (next : σ → σ) (draw : σ → Nat) : Nat → Nat → σ → List α → σ × List α
  | 0, _, s, l => (s, l)
  | n + 1, i, s, l => loop next draw n (i + 1) (next s) (swapAt l (i + draw (next s) % (n + 1)) i)

/-- The whole loop. -/
def shuffle (next : σ → σ) (draw : σ → Nat) (s : σ) (l : List α) : σ × List α :=
  loop next draw l.length 0 s l

theorem loop_perm (next : σ → σ) (draw : σ → Nat) (n i : Nat) (s : σ) (l : List α) :
    (loop next draw n i s l).2.Perm l := by
  induction n generalizing i s l with
  | zero => exact List.Perm.refl l
  | succ n ih => exact (ih _ _ _).trans (swapAt_perm l _ _)

/-- **A shuffle is a permutation.** -/
theorem shuffle_perm (next : σ → σ) (draw : σ → Nat) (s : σ) (l : List α) :
    (shuffle next draw s l).2.Perm l := loop_perm next draw _ _ s l

end Shuffle
