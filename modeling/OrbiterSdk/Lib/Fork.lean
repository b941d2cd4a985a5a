import Mathlib

namespace Fork

/-!
# Where two histories part

Two histories start at elements with the same key, and every element is related to the one
before it.  Compared by keys, one history continues the other (`comparable_or_parted`) or
there is a first place where they part.
-/

variable {α κ : Type} {R : α → α → Prop}

/-- The histories have the same key at `q` and `q'`; then `b` follows in one and `b'` in the
    other, with different keys. -/
structure Parted (R : α → α → Prop) (key : α → κ) (l l' : List α) (q q' b b' : α) : Prop where
  left : R q b ∧ q ∈ l ∧ b ∈ l
  right : R q' b' ∧ q' ∈ l' ∧ b' ∈ l'
  same : key q = key q'
  differ : key b ≠ key b'

/-- **Two histories with the same start are comparable, or they part.** -/
theorem comparable_or_parted [DecidableEq κ] (key : α → κ) {p p' : α} {l l' : List α}
    (hp : key p = key p') (hl : (p :: l).IsChain R) (hl' : (p' :: l').IsChain R) :
    (p :: l).map key <+: (p' :: l').map key ∨ (p' :: l').map key <+: (p :: l).map key ∨
      ∃ q q' b b', Parted R key (p :: l) (p' :: l') q q' b b' := by
  induction l generalizing p p' l' with
  | nil =>
    left
    rw [List.map_cons, List.map_cons, hp]
    exact List.cons_prefix_cons.mpr ⟨rfl, List.nil_prefix⟩
  | cons b l ih =>
    cases l' with
    | nil =>
      right; left
      rw [List.map_cons, List.map_cons, hp]
      exact List.cons_prefix_cons.mpr ⟨rfl, List.nil_prefix⟩
    | cons b' l' =>
      obtain ⟨hpb, hl⟩ := List.isChain_cons_cons.mp hl
      obtain ⟨hpb', hl'⟩ := List.isChain_cons_cons.mp hl'
      by_cases hb : key b = key b'
      · rcases ih hb hl hl' with h | h | ⟨q, q', c, c', ⟨hR, hq, hc⟩, ⟨hR', hq', hc'⟩, h, hne⟩
        · exact .inl (List.cons_prefix_cons.mpr ⟨hp, h⟩)
        · exact .inr (.inl (List.cons_prefix_cons.mpr ⟨hp.symm, h⟩))
        · exact .inr (.inr ⟨q, q', c, c', ⟨hR, .tail p hq, .tail p hc⟩,
            ⟨hR', .tail p' hq', .tail p' hc'⟩, h, hne⟩)
      · exact .inr (.inr ⟨p, p', b, b', ⟨hpb, by simp, by simp⟩, ⟨hpb', by simp, by simp⟩, hp, hb⟩)

end Fork
