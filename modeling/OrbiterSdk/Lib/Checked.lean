import Mathlib

/-!
# Checked fixed-width arithmetic and fallible code

Unsigned integers below `n` whose operations refuse to wrap: a result that does not fit is
`none`.  Each operation has one specification lemma per outcome, stated on the underlying
natural numbers so that callers finish with linear arithmetic.

`Except.bind_eq_ok` peels one step off a computation that succeeded; `Option.Rel.bind`,
`Option.Rel.map` and `Except.Rel.bind` run two computations side by side.
-/

theorem Except.bind_eq_ok {ε α β : Type} {x : Except ε α} {f : α → Except ε β} {b : β} :
    (x >>= f) = .ok b ↔ ∃ a, x = .ok a ∧ f a = .ok b := by
  cases x with
  | error e =>
    constructor
    · intro h; cases h
    · rintro ⟨a, h, _⟩; cases h
  | ok a =>
    constructor
    · exact fun h => ⟨a, rfl, h⟩
    · rintro ⟨a', h, h'⟩; cases h; exact h'

theorem Except.map_eq_ok {ε α β : Type} {x : Except ε α} {f : α → β} {b : β} :
    x.map f = .ok b ↔ ∃ a, x = .ok a ∧ f a = b := by
  cases x <;> simp [Except.map]

theorem Except.toOption_eq_some {ε α : Type} {x : Except ε α} {a : α} :
    x.toOption = some a ↔ x = .ok a := by
  cases x <;> simp [Except.toOption]

theorem Option.Rel.bind {α β γ δ : Type} {R : α → β → Prop} {Q : γ → δ → Prop} {x : Option α}
    {y : Option β} {f : α → Option γ} {g : β → Option δ} (h : Option.Rel R x y)
    (hfg : ∀ a b, R a b → Option.Rel Q (f a) (g b)) : Option.Rel Q (x.bind f) (y.bind g) := by
  cases h with
  | some h => exact hfg _ _ h
  | none => exact .none

theorem Option.Rel.mono {α β : Type} {R Q : α → β → Prop} {x : Option α} {y : Option β}
    (h : Option.Rel R x y) (hRQ : ∀ a b, R a b → Q a b) : Option.Rel Q x y := by
  cases h with
  | some h => exact .some (hRQ _ _ h)
  | none => exact .none

theorem Option.Rel.map {α β γ δ : Type} {R : α → β → Prop} {Q : γ → δ → Prop} {x : Option α}
    {y : Option β} {f : α → γ} {g : β → δ} (h : Option.Rel R x y)
    (hfg : ∀ a b, R a b → Q (f a) (g b)) : Option.Rel Q (x.map f) (y.map g) := by
  cases h with
  | some h => exact .some (hfg _ _ h)
  | none => exact .none

/-- The same error, or related results. -/
inductive Except.Rel {ε α β : Type} (R : α → β → Prop) : Except ε α → Except ε β → Prop where
  | error (e : ε) : Except.Rel R (.error e) (.error e)
  | ok {a : α} {b : β} : R a b → Except.Rel R (.ok a) (.ok b)

theorem Except.Rel.bind {ε α β γ : Type} {R : β → γ → Prop} (x : Except ε α)
    {f : α → Except ε β} {g : α → Except ε γ}
    (h : ∀ a, x = .ok a → Except.Rel R (f a) (g a)) : Except.Rel R (x >>= f) (x >>= g) := by
  cases x with
  | error e => exact .error e
  | ok a => exact h a rfl

namespace Checked

variable {n : Nat}

/-- Sum, unless it reaches `n`. -/
def add (a b : Fin n) : Option (Fin n) :=
  if h : a.val + b.val < n then some ⟨a.val + b.val, h⟩ else none

/-- Difference, unless it is negative. -/
def sub (a b : Fin n) : Option (Fin n) :=
  if b.val ≤ a.val then some ⟨a.val - b.val, lt_of_le_of_lt (Nat.sub_le _ _) a.isLt⟩ else none

/-- Product, unless it reaches `n`. -/
def mul (a b : Fin n) : Option (Fin n) :=
  if h : a.val * b.val < n then some ⟨a.val * b.val, h⟩ else none

theorem add_eq_some {a b c : Fin n} : add a b = some c ↔ c.val = a.val + b.val := by
  unfold add
  split
  · rw [Option.some.injEq, Fin.ext_iff]
    exact eq_comm
  · have := c.isLt
    constructor
    · intro h; cases h
    · intro h; omega

theorem add_eq_none {a b : Fin n} : add a b = none ↔ n ≤ a.val + b.val := by
  unfold add
  split <;> simp <;> omega

theorem sub_eq_some {a b c : Fin n} : sub a b = some c ↔ c.val + b.val = a.val := by
  unfold sub
  split
  · rw [Option.some.injEq, Fin.ext_iff]
    simp only
    omega
  · constructor
    · intro h; cases h
    · intro h; omega

theorem sub_eq_none {a b : Fin n} : sub a b = none ↔ a.val < b.val := by
  unfold sub
  split <;> simp <;> omega

theorem mul_eq_some {a b c : Fin n} : mul a b = some c ↔ c.val = a.val * b.val := by
  unfold mul
  split
  · rw [Option.some.injEq, Fin.ext_iff]
    exact eq_comm
  · have := c.isLt
    constructor
    · intro h; cases h
    · intro h; omega

end Checked
