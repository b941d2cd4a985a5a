import Mathlib

/-!
# Readers at an index

A hand-written parser reads one field after the other from a list, each at an index it keeps
itself.

* `At bs i f` — the list `f` stands at index `i` of `bs`;
* `Reads r f a` — wherever `f` stands, the reader `r` returns `a` and the index behind it;
* `PrefixCode enc` — what is encoded by `enc` can be cut off the front of a list in only one
  way.

A code that some reader reads is a prefix code (`PrefixCode.of_reads`).
-/

namespace Cursor

variable {α β ε : Type}

/-- The list `f` stands at index `i` of `bs`. -/
def At (bs : List β) (i : Nat) (f : List β) : Prop := f <+: bs.drop i

theorem at_append {bs : List β} {i : Nat} {f g : List β} :
    At bs i (f ++ g) ↔ At bs i f ∧ At bs (i + f.length) g := by
  unfold At
  rw [← List.drop_drop]
  constructor
  · rintro ⟨t, ht⟩
    rw [← ht]
    refine ⟨⟨g ++ t, (List.append_assoc f g t).symm⟩, ?_⟩
    rw [List.append_assoc, List.drop_left]
    exact List.prefix_append g t
  · rintro ⟨⟨t, ht⟩, hg⟩
    rw [← ht, List.drop_left] at hg
    rw [← ht]
    exact (List.prefix_append_right_inj f).mpr hg

theorem at_cons {bs : List β} {i : Nat} {b : β} {f : List β} :
    At bs i (b :: f) ↔ At bs i [b] ∧ At bs (i + 1) f :=
  at_append (f := [b])

theorem at_of_append (pre f post : List β) : At (pre ++ f ++ post) pre.length f := by
  unfold At
  rw [List.append_assoc, List.drop_left]
  exact List.prefix_append f post

theorem At.getElem? {bs : List β} {i : Nat} {b : β} (h : At bs i [b]) : bs[i]? = some b := by
  obtain ⟨t, ht⟩ := h
  have hfirst : (bs.drop i)[0]? = some b := by
    rw [← ht]
    rfl
  rwa [List.getElem?_drop, Nat.add_zero] at hfirst

theorem At.length_le {bs : List β} {i : Nat} {f : List β} (h : At bs i f) (hf : f ≠ []) :
    i + f.length ≤ bs.length := by
  have hle := List.IsPrefix.length_le h
  have hpos := List.length_pos_iff.mpr hf
  rw [List.length_drop] at hle
  omega

theorem At.take {bs : List β} {i : Nat} {f : List β} (h : At bs i f) :
    (bs.drop i).take f.length = f :=
  (List.prefix_iff_eq_take.mp h).symm

/-- Wherever `f` stands, the reader returns `a` and the index behind it. -/
def Reads (r : List β → Nat → Except ε (α × Nat)) (f : List β) (a : α) : Prop :=
  ∀ bs i, At bs i f → r bs i = .ok (a, i + f.length)

/-- Two codes with anything behind them are equal only if all is equal. -/
def PrefixCode (enc : α → List β) : Prop :=
  ∀ a b s t, enc a ++ s = enc b ++ t → a = b ∧ s = t

theorem PrefixCode.of_reads {enc : α → List β} {r : List β → Nat → Except ε (α × Nat)}
    (h : ∀ a, Reads r (enc a) a) : PrefixCode enc := by
  intro a b s t hst
  have ha := h a (enc a ++ s) 0 (List.prefix_append _ _)
  have hb := h b (enc a ++ s) 0 (hst ▸ List.prefix_append _ _)
  cases ha.symm.trans hb
  exact ⟨rfl, List.append_cancel_left hst⟩

end Cursor
