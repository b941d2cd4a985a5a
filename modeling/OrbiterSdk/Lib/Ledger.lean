import Mathlib

/-!
# Ledgers with bounded accounts

Amounts move between accounts `k : K` whose balances stay below a bound.  A transfer debits
the source and then credits the destination; when the credit would reach the bound the
transfer is *cut*: the debit has happened, the credit has not.

* `Ledger.run` — the balances after a list of events;
* `Ledger.Legal` — the events could happen at those balances;
* `run_add_outflow` — final balance, what went out and what came in;
* `legal_total` — while everything together is below the bound no transfer is cut and the
  total stays the same.
-/

namespace Ledger

/-- How a transfer ended. -/
inductive Outcome where
  /-- Both accounts changed. -/
  | done
  /-- Nothing changed. -/
  | refused
  /-- Debited but not credited. -/
  | cut
deriving DecidableEq

/-- What happens to a ledger. -/
inductive Event (K : Type) where
  | send (src dst : K) (amount : Nat) (outcome : Outcome)
  | query (k : K)

variable {K : Type} [DecidableEq K]

/-- Take `n` out of the account `k`. -/
def debit (v : K → Nat) (k : K) (n : Nat) : K → Nat := Function.update v k (v k - n)

/-- Put `n` into the account `k`. -/
def credit (v : K → Nat) (k : K) (n : Nat) : K → Nat := Function.update v k (v k + n)

/-- The balances after one event. -/
def step (v : K → Nat) : Event K → K → Nat
  | .send src dst n .done => credit (debit v src n) dst n
  | .send src _ n .cut => debit v src n
  | .send _ _ _ .refused => v
  | .query _ => v

/-- The balances after a list of events. -/
def run (v : K → Nat) (es : List (Event K)) : K → Nat := es.foldl step v

/-- The event can happen at these balances. -/
def LegalEvent (bound : Nat) (v : K → Nat) : Event K → Prop
  | .send src dst n .done => n ≤ v src ∧ debit v src n dst + n < bound
  | .send src dst n .cut => n ≤ v src ∧ bound ≤ debit v src n dst + n
  | .send _ _ _ .refused => True
  | .query _ => True

/-- The events can happen one after another. -/
def Legal (bound : Nat) (v : K → Nat) : List (Event K) → Prop
  | [] => True
  | e :: es => LegalEvent bound v e ∧ Legal bound (step v e) es

theorem run_append (v : K → Nat) (es es' : List (Event K)) :
    run v (es ++ es') = run (run v es) es' := List.foldl_append

theorem legal_append {bound : Nat} {v : K → Nat} {es es' : List (Event K)} :
    Legal bound v (es ++ es') ↔ Legal bound v es ∧ Legal bound (run v es) es' := by
  induction es generalizing v with
  | nil => simp [Legal, run]
  | cons e es ih => simp [Legal, ih, run, and_assoc]

/-! ### Flows -/

/-- What completed transfers brought into `k`. -/
def inflow (es : List (Event K)) (k : K) : Nat :=
  (es.map fun
    | .send _ dst n .done => if dst = k then n else 0
    | _ => 0).sum

/-- What completed transfers took out of `k`. -/
def outflow (es : List (Event K)) (k : K) : Nat :=
  (es.map fun
    | .send src _ n .done => if src = k then n else 0
    | _ => 0).sum

/-- What cut transfers took out of `k`. -/
def cutflow (es : List (Event K)) (k : K) : Nat :=
  (es.map fun
    | .send src _ n .cut => if src = k then n else 0
    | _ => 0).sum

theorem debit_add (v : K → Nat) (src k : K) (n : Nat) (h : n ≤ v src) :
    debit v src n k + (if src = k then n else 0) = v k := by
  by_cases hk : src = k
  · subst hk; simp [debit, h]
  · simp [debit, hk, Function.update_of_ne (Ne.symm hk)]

theorem credit_eq (v : K → Nat) (dst k : K) (n : Nat) :
    credit v dst n k = v k + if dst = k then n else 0 := by
  by_cases hk : dst = k
  · subst hk; simp [credit]
  · simp [credit, hk, Function.update_of_ne (Ne.symm hk)]

/-- **Final balances.**  What an account ends with, plus what left it, is what it started
    with plus what came in. -/
theorem run_add_outflow {bound : Nat} {v : K → Nat} {es : List (Event K)}
    (h : Legal bound v es) (k : K) :
    run v es k + (outflow es k + cutflow es k) = v k + inflow es k := by
  induction es generalizing v with
  | nil => simp [run, outflow, cutflow, inflow]
  | cons e es ih =>
    have hrest := ih h.2
    have hrun : run v (e :: es) = run (step v e) es := rfl
    rw [hrun]
    simp only [outflow, cutflow, inflow, List.map_cons, List.sum_cons] at hrest ⊢
    cases e with
    | query a => simpa [step] using hrest
    | send src dst n outcome =>
      cases outcome with
      | refused => simpa [step] using hrest
      | done =>
        have h1 := debit_add v src k n h.1.1
        have h2 := credit_eq (debit v src n) dst k n
        simp only [step] at hrest ⊢
        omega
      | cut =>
        have h1 := debit_add v src k n h.1.1
        simp only [step] at hrest ⊢
        omega

/-- An account that never sends loses nothing. -/
theorem le_run {v : K → Nat} {es : List (Event K)} {k : K}
    (h : ∀ src dst n o, Event.send src dst n o ∈ es → src ≠ k) : v k ≤ run v es k := by
  induction es generalizing v with
  | nil => exact le_rfl
  | cons e es ih =>
    refine le_trans ?_ (ih fun src dst n o hm => h src dst n o (by simp [hm]))
    cases e with
    | query a => exact le_rfl
    | send src dst n o =>
      have hne : k ≠ src := fun he => h src dst n o (by simp) he.symm
      cases o with
      | refused => exact le_rfl
      | cut => simp [step, debit, hne]
      | done => simp [step, credit_eq, debit, hne]

/-- The event is a cut transfer. -/
def Event.isCut : Event K → Bool
  | .send _ _ _ .cut => true
  | _ => false

/-- No transfer of the list was cut. -/
def Uncut (es : List (Event K)) : Prop := ∀ src dst n, Event.send src dst n .cut ∉ es

theorem cutflow_eq_zero {es : List (Event K)} (h : Uncut es) (k : K) : cutflow es k = 0 := by
  induction es with
  | nil => rfl
  | cons e es ih =>
    have hrest : Uncut es := fun src dst n hm => h src dst n (by simp [hm])
    have hhead := fun src dst n => h src dst n
    simp only [cutflow, List.map_cons, List.sum_cons] at ih ⊢
    rw [ih hrest]
    cases e with
    | query a => rfl
    | send src dst n outcome =>
      cases outcome with
      | done => rfl
      | refused => rfl
      | cut => exact absurd (by simp) (h src dst n)

/-! ### Totals -/

section Totals

variable (F : Finset K)

private theorem sum_debit (v : K → Nat) {src : K} (hsrc : src ∈ F) {n : Nat} (h : n ≤ v src) :
    ∑ k ∈ F, debit v src n k + n = ∑ k ∈ F, v k := by
  rw [← Finset.sum_erase_add F _ hsrc, ← Finset.sum_erase_add F v hsrc]
  have hrest : ∑ k ∈ F.erase src, debit v src n k = ∑ k ∈ F.erase src, v k :=
    Finset.sum_congr rfl fun k hk => by simp [debit, Finset.ne_of_mem_erase hk]
  have hself : debit v src n src = v src - n := by simp [debit]
  omega

private theorem sum_credit (v : K → Nat) {dst : K} (hdst : dst ∈ F) (n : Nat) :
    ∑ k ∈ F, credit v dst n k = ∑ k ∈ F, v k + n := by
  rw [← Finset.sum_erase_add F _ hdst, ← Finset.sum_erase_add F v hdst]
  have hrest : ∑ k ∈ F.erase dst, credit v dst n k = ∑ k ∈ F.erase dst, v k :=
    Finset.sum_congr rfl fun k hk => by simp [credit, Finset.ne_of_mem_erase hk]
  have hself : credit v dst n dst = v dst + n := by simp [credit]
  omega

/-- The accounts an event names. -/
def Event.within (F : Finset K) : Event K → Prop
  | .send src dst _ _ => src ∈ F ∧ dst ∈ F
  | .query k => k ∈ F

/-- **Totals below the bound are preserved.** -/
theorem legal_total {bound : Nat} {v : K → Nat} {es : List (Event K)}
    (h : Legal bound v es) (hF : ∀ e ∈ es, e.within F) (htotal : ∑ k ∈ F, v k < bound) :
    Uncut es ∧ ∑ k ∈ F, run v es k = ∑ k ∈ F, v k := by
  induction es generalizing v with
  | nil => exact ⟨fun _ _ _ => by simp, rfl⟩
  | cons e es ih =>
    have hFe := hF e (by simp)
    have hstep : (∀ src dst n, e ≠ Event.send src dst n .cut) ∧
        ∑ k ∈ F, step v e k = ∑ k ∈ F, v k := by
      cases e with
      | query a => exact ⟨by simp, rfl⟩
      | send src dst n outcome =>
        have hsum := sum_debit F v hFe.1 (n := n)
        cases outcome with
        | refused => exact ⟨by simp, rfl⟩
        | done =>
          refine ⟨by simp, ?_⟩
          rw [step, sum_credit F _ hFe.2]
          exact hsum h.1.1
        | cut =>
          -- The destination alone would reach the bound.
          have hle : debit v src n dst ≤ ∑ k ∈ F, debit v src n k :=
            Finset.single_le_sum (fun _ _ => Nat.zero_le _) hFe.2
          have := hsum h.1.1
          have := h.1.2
          omega
    obtain ⟨huncut, hrun⟩ := ih h.2 (fun e' he' => hF e' (by simp [he'])) (by rw [hstep.2]; exact htotal)
    refine ⟨fun src dst n hm => ?_, hrun.trans hstep.2⟩
    rcases List.mem_cons.mp hm with he | hm
    · exact hstep.1 src dst n he.symm
    · exact huncut src dst n hm

end Totals

end Ledger
