import OrbiterSdk.Contract.SafeVariables
import OrbiterSdk.Lib.Observation

namespace OrbiterSdk

/-!
# Scalar Safe variables over several calls

Each scalar class implements its constructor, `commit` and `revert` itself.  A contract commits
or reverts, at the end of a call, the variables that were registered during it.

* `ScalarKind` — the seven classes; `construct`, `commit` and `revert` are their members;
* `ScalarContract` — a contract that owns such variables, with `markAsUsed` and `updateState`;
* `ScalarCall` — what a call does to the variables, and whether it is committed;
* `ScalarContract.read_iff` — a variable is transactional exactly along calls that are
  committed or can be undone (`Undoable`).
-/

/-! ### The classes -/

/-- A variable with an owner: its committed member and the value it shows. -/
def SafeScalar.owned {V : Type} (value shown : V) : SafeScalar V :=
  { value, valuePtr := some shown, registered := false }

/-- `SafeUint8_t(owner, value)`: the committed member is zero. -/
def SafeUint8_t.new (value : UInt8) : SafeScalar UInt8 := SafeScalar.owned 0 value

/-- `SafeUint32_t(owner, value)`. -/
def SafeUint32_t.new (value : UInt32) : SafeScalar UInt32 := SafeScalar.owned 0 value

/-- `SafeUint64_t(owner, value)`. -/
def SafeUint64_t.new (value : UInt64) : SafeScalar UInt64 := SafeScalar.owned 0 value

/-- `SafeUint256_t(owner, value)`. -/
def SafeUint256_t.new (value : Uint256) : SafeScalar Uint256 := SafeScalar.owned 0 value

/-- `SafeUint256_t::commit`: it does not call `check`, so a missing pointer would be
    dereferenced (`none`). -/
def SafeUint256_t.commit (x : SafeScalar Uint256) : Option (SafeScalar Uint256) :=
  x.valuePtr.map fun v => { value := v, valuePtr := none, registered := false }

/-- `SafeBool(owner, value)`. -/
def SafeBool.new (value : Bool) : SafeScalar Bool := SafeScalar.owned false value

/-- `SafeString(owner, str)`: the committed member is the empty string. -/
def SafeString.new (str : Bytes) : SafeScalar Bytes := SafeScalar.owned [] str

/-- `SafeString::commit`: the pointer stays. -/
def SafeString.commit (x : SafeScalar Bytes) : SafeScalar Bytes :=
  { value := x.cur, valuePtr := some x.cur, registered := false }

/-- `SafeAddress(owner, address)`: the only class that sets its committed member. -/
def SafeAddress.new (address : Address) : SafeScalar Address := SafeScalar.owned address address

/-- `SafeAddress::commit`: the variable stays registered. -/
def SafeAddress.commit (x : SafeScalar Address) : SafeScalar Address :=
  { x with value := x.cur, valuePtr := none }

/-- `SafeAddress::revert`: the variable stays registered. -/
def SafeAddress.revert (x : SafeScalar Address) : SafeScalar Address := { x with valuePtr := none }

/-- The scalar classes. -/
inductive ScalarKind where
  | uint8
  | uint32
  | uint64
  | uint256
  | bool
  | string
  | address

namespace ScalarKind

/-- The values of a class. -/
def Value : ScalarKind → Type
  | uint8 => UInt8
  | uint32 => UInt32
  | uint64 => UInt64
  | uint256 => Uint256
  | bool => Bool
  | string => Bytes
  | address => Address

/-- The constructor with an owner. -/
def construct : (κ : ScalarKind) → κ.Value → SafeScalar κ.Value
  | uint8 => SafeUint8_t.new
  | uint32 => SafeUint32_t.new
  | uint64 => SafeUint64_t.new
  | uint256 => SafeUint256_t.new
  | bool => SafeBool.new
  | string => SafeString.new
  | address => SafeAddress.new

/-- `commit`. -/
def commit : (κ : ScalarKind) → SafeScalar κ.Value → Option (SafeScalar κ.Value)
  | uint8, x => some x.commit
  | uint32, x => some x.commit
  | uint64, x => some x.commit
  | uint256, x => SafeUint256_t.commit x
  | bool, x => some x.commit
  | string, x => some (SafeString.commit x)
  | address, x => some (SafeAddress.commit x)

/-- `revert`. -/
def revert : (κ : ScalarKind) → SafeScalar κ.Value → SafeScalar κ.Value
  | uint8, x => x.revert
  | uint32, x => x.revert
  | uint64, x => x.revert
  | uint256, x => x.revert
  | bool, x => x.revert
  | string, x => x.revert
  | address, x => SafeAddress.revert x

theorem construct_cur (κ : ScalarKind) (v : κ.Value) : (κ.construct v).cur = v := by
  cases κ with
  | uint8 => rfl
  | uint32 => rfl
  | uint64 => rfl
  | uint256 => rfl
  | bool => rfl
  | string => rfl
  | address => rfl

/-- Every class commits the value that is seen, once the pointer is set. -/
theorem commit_cur (κ : ScalarKind) {x : SafeScalar κ.Value} (h : x.valuePtr.isSome) :
    ∃ x', κ.commit x = some x' ∧ x'.cur = x.cur := by
  cases κ with
  | uint8 => exact ⟨_, rfl, rfl⟩
  | uint32 => exact ⟨_, rfl, rfl⟩
  | uint64 => exact ⟨_, rfl, rfl⟩
  | uint256 =>
    obtain ⟨v, hv⟩ := Option.isSome_iff_exists.mp h
    refine ⟨⟨v, none, false⟩, ?_, ?_⟩
    · show x.valuePtr.map _ = _
      rw [hv]
      rfl
    · show v = x.valuePtr.getD x.value
      rw [hv]
      rfl
  | bool => exact ⟨_, rfl, rfl⟩
  | string => exact ⟨_, rfl, rfl⟩
  | address => exact ⟨_, rfl, rfl⟩

theorem revert_cur (κ : ScalarKind) (x : SafeScalar κ.Value) : (κ.revert x).cur = x.value := by
  cases κ with
  | uint8 => rfl
  | uint32 => rfl
  | uint64 => rfl
  | uint256 => rfl
  | bool => rfl
  | string => rfl
  | address => rfl

end ScalarKind

/-! ### Contracts -/

section

variable {ι : Type} {kind : ι → ScalarKind}

/-- A contract with scalar variables. -/
structure ScalarContract (kind : ι → ScalarKind) where
  vars : (i : ι) → SafeScalar (kind i).Value
  usedVariables : List ι

/-- What contract code does to a variable: read it, or change the value that is seen.  Every
    assignment and compound assignment is a `write`; one that throws after `markAsUsed`
    writes the value back. -/
inductive ScalarOp (kind : ι → ScalarKind) where
  | read (i : ι)
  | write (i : ι) (f : (kind i).Value → (kind i).Value)

/-- A call of the contract, ended by `updateState(commit)`. -/
structure ScalarCall (kind : ι → ScalarKind) where
  ops : List (ScalarOp kind)
  commit : Bool

/-- The operations change the variable. -/
def ScalarOp.Writes (ops : List (ScalarOp kind)) (i : ι) : Prop := ∃ f, .write i f ∈ ops

theorem ScalarOp.writes_append {ops : List (ScalarOp kind)} {op : ScalarOp kind} {i : ι} :
    Writes (ops ++ [op]) i ↔ Writes ops i ∨ ∃ f, op = .write i f := by
  constructor
  · rintro ⟨f, hf⟩
    rcases List.mem_append.mp hf with hf | hf
    · exact .inl ⟨f, hf⟩
    · exact .inr ⟨f, (List.mem_singleton.mp hf).symm⟩
  · rintro (⟨f, hf⟩ | ⟨f, rfl⟩)
    · exact ⟨f, List.mem_append_left _ hf⟩
    · exact ⟨f, List.mem_append_right _ List.mem_cons_self⟩

variable [DecidableEq ι]

namespace ScalarContract

/-- The contract with its variables constructed. -/
def new (init : (i : ι) → (kind i).Value) : ScalarContract kind :=
  { vars := fun i => (kind i).construct (init i), usedVariables := [] }

/-- Replace a variable. -/
def setVar (c : ScalarContract kind) (i : ι) (x : SafeScalar (kind i).Value) :
    ScalarContract kind :=
  { c with vars := Function.update c.vars i x }

/-- `markAsUsed`: register the variable once. -/
def markAsUsed (c : ScalarContract kind) (i : ι) : ScalarContract kind :=
  if (c.vars i).registered then c
  else { c.setVar i { c.vars i with registered := true } with
    usedVariables := c.usedVariables ++ [i] }

/-- Change the value that is seen: `check`, `markAsUsed`, then assign through the pointer. -/
def write (c : ScalarContract kind) (i : ι) (f : (kind i).Value → (kind i).Value) :
    ScalarContract kind :=
  let c := (c.setVar i (c.vars i).check).markAsUsed i
  c.setVar i ((c.vars i).set (f (c.vars i).cur))

/-- One operation of contract code. -/
def perform (c : ScalarContract kind) : ScalarOp kind → ScalarContract kind
  | .read i => c.setVar i (c.vars i).check
  | .write i f => c.write i f

/-- `commit()` or `revert()` of one variable. -/
def updateVar (commitToState : Bool) (c : ScalarContract kind) (i : ι) :
    Option (ScalarContract kind) :=
  if commitToState then ((kind i).commit (c.vars i)).map (c.setVar i)
  else some (c.setVar i ((kind i).revert (c.vars i)))

/-- `DynamicContract::updateState`. -/
def updateState (c : ScalarContract kind) (commitToState : Bool) :
    Option (ScalarContract kind) :=
  (c.usedVariables.foldlM (updateVar commitToState) c).map
    fun c => { c with usedVariables := [] }

/-- A call. -/
def call (k : ScalarCall kind) (c : ScalarContract kind) : Option (ScalarContract kind) :=
  (k.ops.foldl perform c).updateState k.commit

end ScalarContract

/-! ### What a call does to one variable -/

/-- The effect of an operation on the value that is seen of a variable. -/
def ScalarOp.effect (i : ι) : ScalarOp kind → (kind i).Value → (kind i).Value
  | .read _, v => v
  | .write j f, v => if h : j = i then h ▸ f (h ▸ v) else v

/-- The value of a variable at the end of the operations. -/
def ScalarOp.result (ops : List (ScalarOp kind)) (i : ι) (v : (kind i).Value) :
    (kind i).Value :=
  ops.foldl (fun v op => op.effect i v) v

theorem ScalarOp.effect_self (i : ι) (f : (kind i).Value → (kind i).Value) (v : (kind i).Value) :
    (ScalarOp.write i f : ScalarOp kind).effect i v = f v := by
  rw [effect, dif_pos rfl]

theorem ScalarOp.effect_ne {i j : ι} (h : j ≠ i) (f : (kind j).Value → (kind j).Value)
    (v : (kind i).Value) : (ScalarOp.write j f : ScalarOp kind).effect i v = v := by
  rw [effect, dif_neg h]

theorem ScalarOp.result_append (ops : List (ScalarOp kind)) (op : ScalarOp kind) (i : ι)
    (v : (kind i).Value) : result (ops ++ [op]) i v = op.effect i (result ops i v) := by
  rw [result, List.foldl_append]
  rfl

theorem ScalarOp.result_of_not_writes {ops : List (ScalarOp kind)} {i : ι}
    (h : ¬ Writes ops i) (v : (kind i).Value) : result ops i v = v := by
  induction ops using List.reverseRecOn with
  | nil => rfl
  | append_singleton ops op ih =>
    rw [writes_append, not_or] at h
    rw [result_append, ih h.1]
    cases op with
    | read j => rfl
    | write j f =>
      refine effect_ne ?_ f v
      rintro rfl
      exact h.2 ⟨f, rfl⟩

namespace ScalarContract

variable {c₀ c : ScalarContract kind}

/-- A variable after the operations `ops` of a call that began in `c₀`. -/
structure Tracks (c₀ c : ScalarContract kind) (ops : List (ScalarOp kind)) (i : ι) : Prop where
  value : (c.vars i).value = (c₀.vars i).value
  cur : (c.vars i).cur = ScalarOp.result ops i (c₀.vars i).cur
  registered : (c.vars i).registered = true ↔
    (c₀.vars i).registered = true ∨ ScalarOp.Writes ops i
  used : i ∈ c.usedVariables ↔ (c₀.vars i).registered = false ∧ ScalarOp.Writes ops i
  ptr : ScalarOp.Writes ops i → (c.vars i).valuePtr.isSome = true

@[simp] theorem setVar_self (c : ScalarContract kind) (i : ι) (x : SafeScalar (kind i).Value) :
    (c.setVar i x).vars i = x := Function.update_self _ _ _

theorem setVar_ne (c : ScalarContract kind) {i j : ι} (h : j ≠ i)
    (x : SafeScalar (kind i).Value) : (c.setVar i x).vars j = c.vars j :=
  Function.update_of_ne h _ _

/-- Registering changes the flag, and the list once. -/
theorem markAsUsed_spec (c : ScalarContract kind) (i : ι) :
    (c.markAsUsed i).vars i = { c.vars i with registered := true } ∧
      (∀ j, j ≠ i → (c.markAsUsed i).vars j = c.vars j) ∧
      (c.markAsUsed i).usedVariables =
        if (c.vars i).registered then c.usedVariables else c.usedVariables ++ [i] := by
  unfold markAsUsed
  by_cases h : (c.vars i).registered = true
  · rw [if_pos h, if_pos h]
    refine ⟨?_, fun _ _ => rfl, rfl⟩
    rw [← h]
  · rw [if_neg h, if_neg h]
    exact ⟨setVar_self _ _ _, fun j hj => setVar_ne _ hj _, rfl⟩

/-- A written variable shows the new value and is registered; other variables stay. -/
theorem write_spec (c : ScalarContract kind) (i : ι) (f : (kind i).Value → (kind i).Value) :
    (c.write i f).vars i =
        { value := (c.vars i).value, valuePtr := some (f (c.vars i).cur), registered := true } ∧
      (∀ j, j ≠ i → (c.write i f).vars j = c.vars j) ∧
      (c.write i f).usedVariables =
        if (c.vars i).registered then c.usedVariables else c.usedVariables ++ [i] := by
  obtain ⟨hself, hne, hused⟩ := markAsUsed_spec (c.setVar i (c.vars i).check) i
  rw [setVar_self] at hself hused
  refine ⟨?_, fun j hj => ?_, hused⟩
  · rw [write, setVar_self, hself]
    rfl
  · rw [write, setVar_ne _ hj, hne j hj, setVar_ne _ hj]

section

variable {ops : List (ScalarOp kind)} {i j : ι}

theorem Tracks.read (h : Tracks c₀ c ops i) :
    Tracks c₀ (c.perform (.read j)) (ops ++ [.read j]) i := by
  have hwrites : ScalarOp.Writes (ops ++ [.read j]) i ↔ ScalarOp.Writes ops i := by
    rw [ScalarOp.writes_append]
    exact or_iff_left (by rintro ⟨f, hf⟩; cases hf)
  have hcheck : ((c.perform (.read j)).vars i) = c.vars i ∨
      ((c.perform (.read j)).vars i) = (c.vars i).check := by
    by_cases hj : i = j
    · subst hj
      exact .inr (setVar_self _ _ _)
    · exact .inl (setVar_ne _ hj _)
  constructor
  · rcases hcheck with hv | hv
    · rw [hv, h.value]
    · rw [hv]
      exact h.value
  · rw [ScalarOp.result_append]
    rcases hcheck with hv | hv
    · rw [hv]
      exact h.cur
    · rw [hv]
      exact h.cur
  · rw [hwrites, ← h.registered]
    rcases hcheck with hv | hv
    · rw [hv]
    · rw [hv]
      rfl
  · rw [hwrites, ← h.used]
    rfl
  · intro hw
    rcases hcheck with hv | hv
    · rw [hv]
      exact h.ptr (hwrites.mp hw)
    · rw [hv]
      rfl

/-- The variable itself is written: it is registered now, and used if it was not before. -/
theorem Tracks.write_self (h : Tracks c₀ c ops i) (f : (kind i).Value → (kind i).Value) :
    Tracks c₀ (c.perform (.write i f)) (ops ++ [.write i f]) i := by
  obtain ⟨hself, -, hused⟩ := write_spec c i f
  have hwrites : ScalarOp.Writes (ops ++ [.write i f]) i := ⟨f, by simp⟩
  constructor
  · show ((c.write i f).vars i).value = _
    rw [hself]
    exact h.value
  · show ((c.write i f).vars i).cur = _
    rw [hself, ScalarOp.result_append, ScalarOp.effect_self, ← h.cur]
    rfl
  · show ((c.write i f).vars i).registered = true ↔ _
    rw [hself]
    exact ⟨fun _ => .inr hwrites, fun _ => rfl⟩
  · show i ∈ (c.write i f).usedVariables ↔ _
    rw [hused]
    by_cases hreg : (c.vars i).registered = true
    · rw [if_pos hreg, h.used]
      refine ⟨fun hw => ⟨hw.1, hwrites⟩, fun hw => ⟨hw.1, ?_⟩⟩
      rcases h.registered.mp hreg with hreg₀ | hw'
      · rw [hw.1] at hreg₀
        cases hreg₀
      · exact hw'
    · rw [if_neg hreg]
      refine ⟨fun _ => ⟨?_, hwrites⟩, fun _ => List.mem_append_right _ List.mem_cons_self⟩
      rw [← Bool.not_eq_true]
      exact fun hreg₀ => hreg (h.registered.mpr (.inl hreg₀))
  · intro _
    show ((c.write i f).vars i).valuePtr.isSome = true
    rw [hself]
    rfl

theorem Tracks.write_ne (h : Tracks c₀ c ops i) (hj : i ≠ j)
    (f : (kind j).Value → (kind j).Value) :
    Tracks c₀ (c.perform (.write j f)) (ops ++ [.write j f]) i := by
  obtain ⟨-, hne, hused⟩ := write_spec c j f
  have hwrites : ScalarOp.Writes (ops ++ [.write j f]) i ↔ ScalarOp.Writes ops i := by
    rw [ScalarOp.writes_append]
    refine or_iff_left ?_
    rintro ⟨g, hg⟩
    cases hg
    exact hj rfl
  have hvars : (c.perform (.write j f)).vars i = c.vars i := hne i hj
  constructor
  · rw [hvars, h.value]
  · rw [hvars, ScalarOp.result_append, ScalarOp.effect_ne (Ne.symm hj), h.cur]
  · rw [hvars, hwrites, h.registered]
  · show i ∈ (c.write j f).usedVariables ↔ _
    rw [hused, hwrites, ← h.used]
    split
    · rfl
    · rw [List.mem_append, List.mem_singleton, or_iff_left hj]
  · intro hw
    rw [hvars]
    exact h.ptr (hwrites.mp hw)

theorem Tracks.perform (h : Tracks c₀ c ops i) (op : ScalarOp kind) :
    Tracks c₀ (c.perform op) (ops ++ [op]) i := by
  cases op with
  | read j => exact h.read
  | write j f =>
    by_cases hj : i = j
    · subst hj
      exact h.write_self f
    · exact h.write_ne hj f

end

/-- The state of all variables during a call. -/
structure During (c₀ c : ScalarContract kind) (ops : List (ScalarOp kind)) : Prop where
  tracks : ∀ i, Tracks c₀ c ops i
  nodup : c.usedVariables.Nodup

theorem During.perform {ops : List (ScalarOp kind)} (h : During c₀ c ops)
    (op : ScalarOp kind) : During c₀ (c.perform op) (ops ++ [op]) where
  tracks i := (h.tracks i).perform op
  nodup := by
    cases op with
    | read j => exact h.nodup
    | write j f =>
      show (c.write j f).usedVariables.Nodup
      rw [(write_spec c j f).2.2]
      split
      · exact h.nodup
      · rename_i hreg
        -- a used variable is registered
        have hj : j ∉ c.usedVariables := fun hmem =>
          hreg ((h.tracks j).registered.mpr (.inr ((h.tracks j).used.mp hmem).2))
        exact List.nodup_append.mpr ⟨h.nodup, List.nodup_singleton j, by
          intro a ha b hb
          rw [List.mem_singleton.mp hb]
          rintro rfl
          exact hj ha⟩

theorem During.foldl {done : List (ScalarOp kind)} (h : During c₀ c done)
    (ops : List (ScalarOp kind)) :
    During c₀ (ops.foldl ScalarContract.perform c) (done ++ ops) := by
  induction ops generalizing c done with
  | nil => rwa [List.append_nil]
  | cons op ops ih =>
    have hnext := ih (h.perform op)
    rwa [List.append_assoc] at hnext

theorem during_self (h : c₀.usedVariables = []) : During c₀ c₀ [] where
  tracks i :=
    { value := rfl
      cur := rfl
      registered := ⟨.inl, fun h => h.elim id fun ⟨_, hf⟩ => absurd hf List.not_mem_nil⟩
      used := by
        rw [h]
        exact ⟨fun h => absurd h List.not_mem_nil, fun ⟨_, _, hf⟩ => absurd hf List.not_mem_nil⟩
      ptr := fun ⟨_, hf⟩ => absurd hf List.not_mem_nil }
  nodup := by
    rw [h]
    exact List.nodup_nil

theorem foldlM_updateVar {used : List ι} (hnodup : used.Nodup) (b : Bool)
    (hptr : ∀ i ∈ used, (c.vars i).valuePtr.isSome = true) :
    ∃ c', used.foldlM (updateVar b) c = some c' ∧
      (∀ i ∈ used, (c'.vars i).cur = if b then (c.vars i).cur else (c.vars i).value) ∧
      ∀ i, i ∉ used → c'.vars i = c.vars i := by
  induction used generalizing c with
  | nil => exact ⟨c, rfl, fun i hi => absurd hi List.not_mem_nil, fun _ _ => rfl⟩
  | cons j used ih =>
    obtain ⟨hj, hnodup⟩ := List.nodup_cons.mp hnodup
    have hupdate : ∃ x, updateVar b c j = some (c.setVar j x) ∧
        x.cur = if b then (c.vars j).cur else (c.vars j).value := by
      cases b with
      | true =>
        obtain ⟨x, hx, hcur⟩ := (kind j).commit_cur (hptr j List.mem_cons_self)
        refine ⟨x, ?_, hcur⟩
        show ((kind j).commit (c.vars j)).map (c.setVar j) = _
        rw [hx]
        rfl
      | false => exact ⟨_, rfl, (kind j).revert_cur (c.vars j)⟩
    obtain ⟨x, hx, hcur⟩ := hupdate
    have hother : ∀ i ∈ used, (c.setVar j x).vars i = c.vars i := by
      intro i hi
      refine setVar_ne c ?_ x
      rintro rfl
      exact hj hi
    obtain ⟨c', hc', hin, hout⟩ := ih (c := c.setVar j x) hnodup fun i hi => by
      rw [hother i hi]
      exact hptr i (List.mem_cons_of_mem _ hi)
    refine ⟨c', ?_, fun i hi => ?_, fun i hi => ?_⟩
    · rw [List.foldlM_cons, hx]
      exact hc'
    · rcases List.mem_cons.mp hi with rfl | hi
      · rw [hout i hj, setVar_self, hcur]
      · rw [hin i hi, hother i hi]
    · rw [List.mem_cons, not_or] at hi
      rw [hout i hi.2, setVar_ne _ hi.1]

/-- **One call.**  It returns, and shows of a variable: the value at its end if it is
    committed; the committed member if it is reverted and registered the variable; the value
    at its end if it is reverted and did not. -/
theorem call_spec (hc : c.usedVariables = []) (k : ScalarCall kind) :
    ∃ c', call k c = some c' ∧ c'.usedVariables = [] ∧ ∀ i,
      (k.commit = true → (c'.vars i).cur = ScalarOp.result k.ops i (c.vars i).cur) ∧
      (k.commit = false → (c.vars i).registered = false → ScalarOp.Writes k.ops i →
        (c'.vars i).cur = (c.vars i).value) ∧
      (k.commit = false → (c.vars i).registered = true ∨ ¬ ScalarOp.Writes k.ops i →
        (c'.vars i).cur = ScalarOp.result k.ops i (c.vars i).cur) := by
  have hduring := (during_self hc).foldl k.ops
  rw [List.nil_append] at hduring
  have hptr : ∀ i ∈ (k.ops.foldl perform c).usedVariables,
      ((k.ops.foldl perform c).vars i).valuePtr.isSome = true := fun i hi =>
    (hduring.tracks i).ptr ((hduring.tracks i).used.mp hi).2
  obtain ⟨c', hc', hin, hout⟩ := foldlM_updateVar hduring.nodup k.commit hptr
  refine ⟨{ c' with usedVariables := [] }, ?_, rfl, fun i => ?_⟩
  · rw [call, updateState, hc']
    rfl
  have htracks := hduring.tracks i
  refine ⟨fun hcommit => ?_, fun hcommit hreg hw => ?_, fun hcommit hnot => ?_⟩
  · by_cases hi : i ∈ (k.ops.foldl perform c).usedVariables
    · rw [hin i hi, hcommit, if_pos rfl, htracks.cur]
    · rw [hout i hi, htracks.cur]
  · rw [hin i (htracks.used.mpr ⟨hreg, hw⟩), hcommit, if_neg Bool.false_ne_true, htracks.value]
  · have hi : i ∉ (k.ops.foldl perform c).usedVariables := by
      intro hi
      obtain ⟨hreg, hw⟩ := htracks.used.mp hi
      rcases hnot with h | h
      · rw [hreg] at h
        cases h
      · exact h hw
    rw [hout i hi, htracks.cur]

/-! ### Sequences of calls -/

/-- The value a variable should show after some calls: that at the end of the last committed
    one, or the constructor's. -/
def expected (i : ι) (init : (kind i).Value) (calls : List (ScalarCall kind)) : (kind i).Value :=
  calls.foldl (fun v k => if k.commit then ScalarOp.result k.ops i v else v) init

/-- A call that is committed, or whose writes to the variable can be undone: the variable is
    not registered and shows its committed member, or it is registered and ends the call with
    the value it had. -/
def Undoable (i : ι) (c : ScalarContract kind) (k : ScalarCall kind) : Prop :=
  k.commit = true ∨ if (c.vars i).registered then
    ScalarOp.result k.ops i (c.vars i).cur = (c.vars i).cur
  else ScalarOp.Writes k.ops i → (c.vars i).value = (c.vars i).cur

/-- **Scalar variables over several calls.**  For every choice of classes, initial values and
    calls: no call crashes, and a variable shows at the start of every call what the last
    committed call left, exactly if all calls are committed or undoable where they are made. -/
theorem read_iff (init : (i : ι) → (kind i).Value) (calls : List (ScalarCall kind)) (i : ι) :
    (∀ pre, pre <+: calls → ∃ c, Machine.run call pre (new init) = some c ∧
        (c.vars i).cur = expected i (init i) pre) ↔
      Machine.Along call (Undoable i) calls (new init) := by
  refine Machine.prefix_iff (I := fun c : ScalarContract kind => c.usedVariables = [])
    (Q := fun pre c => (c.vars i).cur = expected i (init i) pre) ?_ rfl
    ((kind i).construct_cur (init i))
  intro done c k hI hQ
  obtain ⟨c', hc', hI', hvars⟩ := call_spec hI k
  obtain ⟨hcommit, hrevert, hkeep⟩ := hvars i
  refine ⟨c', hc', hI', ?_⟩
  have hexpected : expected i (init i) (done ++ [k]) =
      if k.commit then ScalarOp.result k.ops i (c.vars i).cur else (c.vars i).cur := by
    rw [expected, List.foldl_append, hQ]
    rfl
  show (c'.vars i).cur = expected i (init i) (done ++ [k]) ↔ _
  rw [hexpected]
  unfold Undoable
  cases hk : k.commit with
  | true => exact ⟨fun _ => .inl rfl, fun _ => hcommit hk⟩
  | false =>
    rw [if_neg Bool.false_ne_true]
    cases hreg : (c.vars i).registered with
    | true =>
      rw [hkeep hk (.inl hreg), if_pos rfl]
      exact ⟨.inr, fun h => h.resolve_left Bool.false_ne_true⟩
    | false =>
      rw [if_neg Bool.false_ne_true]
      by_cases hw : ScalarOp.Writes k.ops i
      · rw [hrevert hk hreg hw]
        exact ⟨fun h => .inr fun _ => h, fun h => h.resolve_left Bool.false_ne_true hw⟩
      · rw [hkeep hk (.inr hw), ScalarOp.result_of_not_writes hw]
        exact ⟨fun _ => .inr fun h => absurd h hw, fun _ => rfl⟩

end ScalarContract

end

/-! ### Two variables that are not transactional -/

/-- A number and an address. -/
def numberAndAddress : Bool → ScalarKind
  | false => .uint256
  | true => .address

/-- The number is constructed with 5, the address with zero. -/
def numberAndAddressInit : (i : Bool) → (numberAndAddress i).Value
  | false => (5 : Uint256)
  | true => (FixedStr.zero : Address)

/-- The call assigns both variables. -/
def assignBoth (number : Uint256) (address : Address) (commit : Bool) : ScalarCall numberAndAddress :=
  { ops := [.write false fun _ => number, .write true fun _ => address], commit }

/-- **Reverted writes that show.**  After one reverted call the number is 0 and not the 5 it
    was constructed with; after a committed and a reverted call the address is that of the
    reverted call. -/
theorem reverted_writes_show :
    ((Machine.run ScalarContract.call [assignBoth 7 (FixedStr.ofNat 20 1) false]
        (ScalarContract.new numberAndAddressInit)).map fun c => (c.vars false).cur) =
      some (0 : Uint256) ∧
    ((Machine.run ScalarContract.call [assignBoth 7 (FixedStr.ofNat 20 1) true,
        assignBoth 8 (FixedStr.ofNat 20 2) false]
        (ScalarContract.new numberAndAddressInit)).map fun c => (c.vars true).cur) =
      some (FixedStr.ofNat 20 2 : Address) := by
  exact ⟨rfl, rfl⟩

end OrbiterSdk
