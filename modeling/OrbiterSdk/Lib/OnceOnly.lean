import Mathlib

namespace OnceOnly

/-!
# Work that is claimed once

Several workers share a flag.  The worker that finds the flag down raises it, *then* fetches
a list of items, and then passes the items on one by one; a worker that finds the flag up
does nothing.  Claiming is atomic, everything after it interleaves freely.

* `Cell` — the flag, the workers that raised it and have not finished, and what was passed
  on so far;
* `Move` — the atomic moves of the workers;
* `Once` — the invariant: at most one worker is at it, and what it passed on and still holds
  has no repetition;
* `Move.once` / `Once.nodup` — every move keeps it, and it says that no item was passed on
  twice.
-/

variable {T : Type}

/-- Where a worker stands that raised the flag. -/
inductive Stage (T : Type) where
  /-- It has not fetched the items yet. -/
  | won
  /-- It still has to pass these items on. -/
  | emitting (left : List T)

/-- The flag, the workers at work and the items passed on so far. -/
structure Cell (T : Type) where
  claimed : Bool
  stages : List (Stage T)
  emitted : List T

/-- One atomic move of one worker; `A` and `B` are the workers before and behind it. -/
inductive Move : Cell T → Cell T → Prop where
  | stay {c : Cell T} : Move c c
  | claim {A B : List (Stage T)} {E : List T} :
      Move ⟨false, A ++ B, E⟩ ⟨true, A ++ .won :: B, E⟩
  | fetch {c : Bool} {A B : List (Stage T)} {E l : List T} (hl : l.Nodup) :
      Move ⟨c, A ++ .won :: B, E⟩ ⟨c, A ++ .emitting l :: B, E⟩
  | emit {c : Bool} {A B : List (Stage T)} {E l : List T} {x : T} :
      Move ⟨c, A ++ .emitting (x :: l) :: B, E⟩ ⟨c, A ++ .emitting l :: B, E ++ [x]⟩
  | skip {c : Bool} {A B : List (Stage T)} {E l : List T} {x : T} :
      Move ⟨c, A ++ .emitting (x :: l) :: B, E⟩ ⟨c, A ++ .emitting l :: B, E⟩
  | finish {c : Bool} {A B : List (Stage T)} {E : List T} :
      Move ⟨c, A ++ .emitting [] :: B, E⟩ ⟨c, A ++ B, E⟩

/-- The states of a cell in which nothing was passed on twice, nor ever will be. -/
inductive Once : Cell T → Prop where
  | fresh : Once ⟨false, [], []⟩
  | won : Once ⟨true, [.won], []⟩
  | emitting {E l : List T} (h : (E ++ l).Nodup) : Once ⟨true, [.emitting l], E⟩
  | done {E : List T} (h : E.Nodup) : Once ⟨true, [], E⟩

/-- The one worker at work has no other before or behind it. -/
private theorem alone {A B : List (Stage T)} {x y : Stage T} (h : A ++ x :: B = [y]) :
    A = [] ∧ x = y ∧ B = [] := by
  cases A with
  | nil =>
    obtain ⟨hx, hB⟩ := List.cons.inj h
    exact ⟨rfl, hx, hB⟩
  | cons a A =>
    have := congrArg List.length h
    simp at this

/-- **Step.**  Every move keeps the invariant. -/
theorem Move.once {c c' : Cell T} (hmove : Move c c') (h : Once c) : Once c' := by
  cases hmove with
  | stay => exact h
  | @claim A B E =>
    -- the flag is down, so nobody is at work and nothing was passed on
    generalize hs : A ++ B = stages at h
    cases h with
    | fresh =>
      obtain ⟨rfl, rfl⟩ := List.append_eq_nil_iff.mp hs
      exact .won
  | @fetch c A B E l hl =>
    generalize hs : A ++ .won :: B = stages at h
    cases h with
    | fresh => simp at hs
    | won =>
      obtain ⟨rfl, -, rfl⟩ := alone hs
      exact .emitting hl
    | emitting _ => cases (alone hs).2.1
    | done _ => simp at hs
  | @emit c A B E l x =>
    generalize hs : A ++ .emitting (x :: l) :: B = stages at h
    cases h with
    | fresh => simp at hs
    | won => cases (alone hs).2.1
    | emitting hnd =>
      obtain ⟨rfl, he, rfl⟩ := alone hs
      cases he
      -- the item only changes sides
      exact .emitting (by simpa using hnd)
    | done _ => simp at hs
  | @skip c A B E l x =>
    generalize hs : A ++ .emitting (x :: l) :: B = stages at h
    cases h with
    | fresh => simp at hs
    | won => cases (alone hs).2.1
    | emitting hnd =>
      obtain ⟨rfl, he, rfl⟩ := alone hs
      cases he
      exact .emitting (hnd.sublist (List.Sublist.append_left (List.sublist_cons_self x l) E))
    | done _ => simp at hs
  | @finish c A B E =>
    generalize hs : A ++ .emitting [] :: B = stages at h
    cases h with
    | fresh => simp at hs
    | won => cases (alone hs).2.1
    | emitting hnd =>
      obtain ⟨rfl, he, rfl⟩ := alone hs
      cases he
      exact .done (by simpa using hnd)
    | done _ => simp at hs

theorem Once.nodup {c : Cell T} (h : Once c) : c.emitted.Nodup := by
  cases h with
  | fresh => exact List.nodup_nil
  | won => exact List.nodup_nil
  | emitting hnd => exact hnd.of_append_left
  | done hnd => exact hnd

end OnceOnly
