import Mathlib

/-!
# Runs with a meter

Computations that can throw, with a log of what they do: every turn of a loop and every
addition of two 64-bit numbers.

* `Metered` — a log and a result; `Stop.unfinished` is a loop that ran out of fuel;
* `turn`, `add` — the operations that are logged;
* `spawn` — a computation on a thread of its own: its log counts, its exception is a value until
  it is asked for (`get`);
* `Runs B m x` — `m` comes to the end with the value or the exception of `x`, no loop `l` has
  more than `B l` turns, and no addition wraps.

The rules below go through a program step by step: bounds add up along `bind`
(`Runs.bind`), a turn costs one (`Runs.turn_bind`), and an addition that fits is free
(`Runs.add_bind`).
-/

namespace Metered

/-- What is logged. -/
inductive Event (L : Type) where
  | turn (loop : L)
  | sum (a b : UInt64)
deriving DecidableEq

/-- How a run ends without a value. -/
inductive Stop (ε : Type) where
  | thrown (e : ε)
  | unfinished
deriving DecidableEq

end Metered

/-- A computation with loops named by `L`: what it logged, and its end. -/
structure Metered (L ε α : Type) where
  log : List (Metered.Event L)
  result : Except (Metered.Stop ε) α

namespace Metered

variable {L ε α β : Type}

instance : Monad (Metered L ε) where
  pure a := ⟨[], .ok a⟩
  bind m f :=
    match m.result with
    | .error e => ⟨m.log, .error e⟩
    | .ok a => ⟨m.log ++ (f a).log, (f a).result⟩

/-- One turn of a loop. -/
def turn (loop : L) : Metered L ε Unit := ⟨[.turn loop], .ok ()⟩

/-- The sum of two 64-bit numbers. -/
def add (a b : UInt64) : Metered L ε UInt64 := ⟨[.sum a b], .ok (a + b)⟩

/-- A computation that has no loops. -/
def lift (x : Except ε α) : Metered L ε α := ⟨[], x.mapError .thrown⟩

/-- A loop whose fuel has run out. -/
def unfinished : Metered L ε α := ⟨[], .error .unfinished⟩

/-- A computation on a thread of its own. -/
def spawn (m : Metered L ε α) : Metered L ε (Except (Stop ε) α) := ⟨m.log, .ok m.result⟩

/-- What a thread left: its value, or its exception. -/
def get (r : Except (Stop ε) α) : Metered L ε α := ⟨[], r⟩

/-- An exception handler that throws again. -/
def mapThrown (f : ε → ε) (m : Metered L ε α) : Metered L ε α :=
  ⟨m.log, m.result.mapError fun
    | .thrown e => .thrown (f e)
    | .unfinished => .unfinished⟩

section

variable [DecidableEq L] {m : Metered L ε α} {x : Except ε α} {B B' : L → Nat}

/-- **The meter's verdict**: `m` ends as `x` does, within the bounds, and without wrapping. -/
structure Runs (B : L → Nat) (m : Metered L ε α) (x : Except ε α) : Prop where
  result : m.result = x.mapError .thrown
  turns : ∀ l, m.log.count (.turn l) ≤ B l
  sums : ∀ a b, Event.sum a b ∈ m.log → a.toNat + b.toNat < 2 ^ 64

theorem Runs.mono (h : Runs B m x) (hB : B ≤ B') : Runs B' m x :=
  ⟨h.result, fun l => (h.turns l).trans (hB l), h.sums⟩

/-- What has no loops stays under every bound. -/
theorem runs_lift (x : Except ε α) : Runs B (lift x) x :=
  ⟨rfl, fun _ => Nat.zero_le _, fun _ _ h => absurd h List.not_mem_nil⟩

theorem runs_pure (a : α) : Runs B (pure a : Metered L ε α) (.ok a) := runs_lift (.ok a)

/-- **Bounds add up.** -/
theorem Runs.bind {f : α → Metered L ε β} {g : α → Except ε β} (h : Runs B m x)
    (hf : ∀ a, x = .ok a → Runs B' (f a) (g a)) : Runs (B + B') (m >>= f) (x >>= g) := by
  obtain ⟨hresult, hturns, hsums⟩ := h
  obtain ⟨log, result⟩ := m
  dsimp only at hresult hturns hsums
  subst hresult
  cases x with
  | error e => exact ⟨rfl, fun l => (hturns l).trans (Nat.le_add_right _ _), hsums⟩
  | ok a =>
    have hnext := hf a rfl
    refine ⟨hnext.result, fun l => ?_, fun c d hmem => ?_⟩
    · show (log ++ (f a).log).count (.turn l) ≤ B l + B' l
      rw [List.count_append]
      exact Nat.add_le_add (hturns l) (hnext.turns l)
    · have hmem : Event.sum c d ∈ log ++ (f a).log := hmem
      rcases List.mem_append.mp hmem with hmem | hmem
      · exact hsums c d hmem
      · exact hnext.sums c d hmem

/-- What is done with the value at the end is free. -/
theorem Runs.map {f : α → β} (h : Runs B m x) :
    Runs B (m >>= fun a => pure (f a)) (x >>= fun a => .ok (f a)) := by
  have hbind := h.bind fun a _ => runs_pure (B := 0) (f a)
  rwa [add_zero] at hbind

/-- A step without loops is free. -/
theorem Runs.lift_bind {f : α → Metered L ε β} {g : α → Except ε β}
    (h : ∀ a, x = .ok a → Runs B (f a) (g a)) : Runs B (lift x >>= f) (x >>= g) := by
  have hbind := (runs_lift (B := 0) x).bind h
  rwa [zero_add] at hbind

/-- Nothing happens behind an exception. -/
theorem Runs.throw_bind {e : ε} {f : α → Metered L ε β} (h : Runs B m (.error e)) :
    Runs B (m >>= f) (.error e) := by
  have hbind : Runs (B + 0) (m >>= f) (.error e) :=
    h.bind (g := fun _ => .error e) fun a ha => nomatch ha
  rwa [add_zero] at hbind

/-- What happens behind a value. -/
theorem Runs.value_bind {a : α} {f : α → Metered L ε β} {y : Except ε β} (h : Runs B m (.ok a))
    (hf : Runs B' (f a) y) : Runs (B + B') (m >>= f) y := by
  refine h.bind (g := fun _ => y) fun c hc => ?_
  cases hc
  exact hf

theorem Runs.ok_bind {a : β} {f : β → Metered L ε α} (h : Runs B (f a) x) :
    Runs B (lift (.ok a) >>= f) x := h

theorem Runs.turn_bind {l : L} {f : Unit → Metered L ε α} (h : Runs B (f ()) x) :
    Runs (Pi.single l 1 + B) (turn l >>= f) x := by
  refine ⟨h.result, fun k => ?_, fun a b hmem => ?_⟩
  · show (Event.turn l :: (f ()).log).count (.turn k) ≤ (Pi.single l 1 : L → Nat) k + B k
    have hturns := h.turns k
    rw [List.count_cons]
    by_cases hk : l = k
    · subst hk
      rw [Pi.single_eq_same, if_pos (beq_self_eq_true _)]
      omega
    · rw [if_neg (by simpa using hk)]
      omega
  · have hmem : Event.sum a b ∈ Event.turn l :: (f ()).log := hmem
    rcases List.mem_cons.mp hmem with heq | hmem
    · cases heq
    · exact h.sums a b hmem

theorem Runs.add_bind {a b : UInt64} {f : UInt64 → Metered L ε α}
    (hfits : a.toNat + b.toNat < 2 ^ 64) (h : Runs B (f (a + b)) x) :
    Runs B (add a b >>= f) x := by
  refine ⟨h.result, fun l => ?_, fun c d hmem => ?_⟩
  · show (Event.sum a b :: (f (a + b)).log).count (.turn l) ≤ B l
    rw [List.count_cons_of_ne (fun heq => by cases heq)]
    exact h.turns l
  · have hmem : Event.sum c d ∈ Event.sum a b :: (f (a + b)).log := hmem
    rcases List.mem_cons.mp hmem with heq | hmem
    · cases heq
      exact hfits
    · exact h.sums c d hmem

/-- A thread never throws where it is started. -/
theorem Runs.spawn (h : Runs B m x) : Runs B (spawn m) (.ok (x.mapError Stop.thrown)) :=
  ⟨congrArg Except.ok h.result, h.turns, h.sums⟩

theorem Runs.mapThrown (h : Runs B m x) (f : ε → ε) : Runs B (mapThrown f m) (x.mapError f) := by
  refine ⟨?_, h.turns, h.sums⟩
  rw [Metered.mapThrown]
  dsimp only
  rw [h.result]
  cases x with
  | error e => rfl
  | ok a => rfl

end

end Metered
