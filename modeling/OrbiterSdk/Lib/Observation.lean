import OrbiterSdk.Lib.Machine

/-!
# Machines that are observed

An implementation and its specification are compared by what can be seen of their runs.

* `answers` — the answers of a machine that answers every operation;
* `answers_eq_iff` — the implementation answers like its specification exactly along the
  operations at which a step simulates it, if every other operation shows in its answer;
* `prefix_iff` — the same for a property that is looked at after every operation of a run.
-/

namespace Machine

variable {σ τ ω α : Type}

/-- The answers to the operations, in order. -/
def answers (step : ω → σ → α × σ) : List ω → σ → List α
  | [], _ => []
  | op :: ops, s => (step op s).1 :: answers step ops (step op s).2

/-- The states of a machine that answers. -/
def next (step : ω → σ → α × σ) (op : ω) (s : σ) : Option σ := some (step op s).2

/-- **Observational refinement.**  `P` says exactly when a step answers as the specification
    does, and such a step keeps the relation. -/
theorem answers_eq_iff {step : ω → σ → α × σ} {spec : ω → τ → α × τ} {R : σ → τ → Prop}
    {P : σ → ω → Prop}
    (hstep : ∀ s t op, R s t → P s op →
      (step op s).1 = (spec op t).1 ∧ R (step op s).2 (spec op t).2)
    (hstop : ∀ s t op, R s t → (step op s).1 = (spec op t).1 → P s op)
    {ops : List ω} {s : σ} {t : τ} (h : R s t) :
    answers step ops s = answers spec ops t ↔ Along (next step) P ops s := by
  induction ops generalizing s t with
  | nil => exact ⟨fun _ => trivial, fun _ => rfl⟩
  | cons op ops ih =>
    constructor
    · intro heq
      obtain ⟨hanswer, hrest⟩ := List.cons.inj heq
      have hP := hstop s t op h hanswer
      refine ⟨hP, fun s' hs' => ?_⟩
      cases hs'
      exact (ih (hstep s t op h hP).2).mp hrest
    · rintro ⟨hP, halong⟩
      obtain ⟨hanswer, hR⟩ := hstep s t op h hP
      exact congrArg₂ List.cons hanswer ((ih hR).mpr (halong _ rfl))

section

variable {step : ω → σ → Option σ} {I : σ → Prop} {Q : List ω → σ → Prop} {P : σ → ω → Prop}

/-- A property that is looked at after every operation, some of which are done. -/
theorem prefix_iff_append
    (hstep : ∀ done s op, I s → Q done s →
      ∃ s', step op s = some s' ∧ I s' ∧ (Q (done ++ [op]) s' ↔ P s op))
    {done ops : List ω} {s : σ} (hI : I s) (hQ : Q done s) :
    (∀ pre, pre <+: ops → ∃ s', run step pre s = some s' ∧ Q (done ++ pre) s') ↔
      Along step P ops s := by
  induction ops generalizing done s with
  | nil =>
    refine ⟨fun _ => trivial, fun _ pre hpre => ?_⟩
    rw [List.prefix_nil.mp hpre, List.append_nil]
    exact ⟨s, rfl, hQ⟩
  | cons op ops ih =>
    obtain ⟨s₁, hs₁, hI₁, hiff⟩ := hstep done s op hI hQ
    constructor
    · intro h
      have hQ₁ : Q (done ++ [op]) s₁ := by
        obtain ⟨s', hs', hQ'⟩ := h [op] (List.prefix_append [op] ops)
        rw [run, hs₁] at hs'
        cases hs'
        exact hQ'
      refine ⟨hiff.mp hQ₁, fun s' hs' => ?_⟩
      cases hs₁.symm.trans hs'
      refine (ih hI₁ hQ₁).mp fun pre hpre => ?_
      obtain ⟨s', hs', hQ'⟩ := h (op :: pre) (List.cons_prefix_cons.mpr ⟨rfl, hpre⟩)
      rw [run, hs₁] at hs'
      refine ⟨s', hs', ?_⟩
      rwa [List.append_assoc]
    · rintro ⟨hP, halong⟩ pre hpre
      have hQ₁ := hiff.mpr hP
      cases pre with
      | nil => exact ⟨s, rfl, by rwa [List.append_nil]⟩
      | cons op' pre =>
        obtain ⟨rfl, htail⟩ := List.cons_prefix_cons.mp hpre
        obtain ⟨s', hs', hQ'⟩ := (ih hI₁ hQ₁).mpr (halong s₁ hs₁) pre htail
        refine ⟨s', ?_, ?_⟩
        · rw [run, hs₁]
          exact hs'
        · rwa [List.append_assoc] at hQ'

/-- **Observation after every operation.**  `Q pre s` is looked at after the operations `pre`;
    `P` says exactly when the next operation keeps it. -/
theorem prefix_iff
    (hstep : ∀ done s op, I s → Q done s →
      ∃ s', step op s = some s' ∧ I s' ∧ (Q (done ++ [op]) s' ↔ P s op))
    {ops : List ω} {s : σ} (hI : I s) (hQ : Q [] s) :
    (∀ pre, pre <+: ops → ∃ s', run step pre s = some s' ∧ Q pre s') ↔ Along step P ops s :=
  prefix_iff_append hstep hI hQ

/-- A condition on the operations alone, along a machine that always goes on. -/
theorem along_iff_forall_mem {P : ω → Prop}
    (hstep : ∀ s op, I s → ∃ s', step op s = some s' ∧ I s') {ops : List ω} {s : σ} (hI : I s) :
    Along step (fun _ op => P op) ops s ↔ ∀ op ∈ ops, P op := by
  constructor
  · intro halong
    induction ops generalizing s with
    | nil => exact fun op hop => absurd hop List.not_mem_nil
    | cons op ops ih =>
      obtain ⟨s', hs', hI'⟩ := hstep s op hI
      exact List.forall_mem_cons.mpr ⟨halong.1, ih hI' (halong.2 s' hs')⟩
  · intro h
    exact along_of_mem (fun op hop _ => h op hop) s

end

end Machine
