import OrbiterSdk.Utils.Bounds
import OrbiterSdk.Utils.TxParse

namespace OrbiterSdk

/-!
# Where the transaction parsers read outside their input

Both parsers walk over the fields of an RLP list.  A field starts with a byte that announces
its extent, and neither that byte nor what it announces is compared with the size of the
input (only the size in the list header is, and only after the header was read).

* `RlpField` — the kinds of fields, with what the parser does there (`read`);
* `RlpField.Overruns` — the first byte of a field, or what it announces, lies outside;
* `Overrun` — this happens at some field, and everything in front of it was accepted.

`read_eq_oob` compares the two for each kind of field, and `parse_inside_iff` says for both
parsers that they stay inside the input exactly when no field overruns.
-/

/-! ### The remaining fields as readers -/

/-- The receiver of a `TxBlock`. -/
def readReceiver (bs : Bytes) (i : Nat) : Except Fail (Address × Nat) := do
  if (← byteAt bs i) ≠ 0x94 then raise "Receiver address (to) is not a 20 byte string (address)"
  let receiver : Address := FixedStr.ofBytes (← viewAt bs (i + 1) 20)
  return (receiver, i + 21)

/-- The access list. -/
def readAccessList (bs : Bytes) (i : Nat) : Except Fail (Unit × Nat) := do
  if (← byteAt bs i) ≠ 0xc0 then raise "Access list is not empty"
  return ((), i + 1)

/-- The byte for `v`. -/
def readV (bs : Bytes) (i : Nat) : Except Fail (UInt8 × Nat) := do
  let vByte ← byteAt bs i
  let v := if vByte = 0x80 then 0 else vByte
  if 1 < v then raise "V is not 0 or 1"
  return (v, i + 1)

namespace TxBlock

/-- The fields of a `TxBlock` behind its type byte, reader by reader. -/
def readByField (txData : Bytes) : Except Fail TxBlock := do
  let index ← readListHeader txData
  let (chainId, index) ← readUint fromBigEndian64 (some "ChainId is too large") txData index
  let (nonce, index) ← readUint fromBigEndian64 (some "Nonce is too large") txData index
  let (maxPriorityFeePerGas, index) ←
    readUint fromBigEndian256 (some "MaxPriorityFeePerGas is too large") txData index
  let (maxFeePerGas, index) ←
    readUint fromBigEndian256 (some "MaxFeePerGas is too large") txData index
  let (gasLimit, index) ← readUint fromBigEndian64 (some "GasLimit is too large") txData index
  let (receiver, index) ← readReceiver txData index
  let (value, index) ←
    readUint fromBigEndian256 (some "Value is not a small string") txData index
  let (data, index) ← readData (some "Data is too large") txData index
  let (_, index) ← readAccessList txData index
  let (v, index) ← readV txData index
  let (r, index) ← readSigHalf 0x20 "R is bigger than 32 bytes" txData index
  let (s, _) ← readSigHalf 0x20 "S is bigger than 32 bytes" txData index
  return ofParts ⟨chainId, nonce, maxPriorityFeePerGas, maxFeePerGas, gasLimit, receiver, value⟩
    ⟨data, v, r, s⟩

theorem readFields_eq_readByField (txData : Bytes) :
    readFields (0x02 :: txData) = readByField txData := by
  show (readHead txData >>= fun p => readTail txData p.2 >>= fun t =>
    (pure (ofParts p.1 t) : Except Fail TxBlock)) = _
  unfold readHead readTail readByField readReceiver readAccessList readV
  simp only [bind_assoc, guard_bind, pure_bind]

end TxBlock

/-! ### Fields -/

/-- The kinds of fields, with the texts of their errors. -/
inductive RlpField where
  /-- A number of 256 (`wide`) or 64 bits. -/
  | number (wide : Bool) (tooLarge : Option String)
  /-- The receiver of a `TxBlock`. -/
  | receiver
  | data (tooLarge : Option String)
  | accessList
  /-- The one byte for `v` in a `TxBlock`. -/
  | vByte
  /-- `r` or `s`. -/
  | sigHalf (bound : Nat) (tooLarge : String)

namespace RlpField

/-- What the parsers do at a field, as far as the index is concerned. -/
def read (bs : Bytes) (i : Nat) : RlpField → Except Fail Nat
  | .number false tooLarge => (readUint fromBigEndian64 tooLarge bs i).map Prod.snd
  | .number true tooLarge => (readUint fromBigEndian256 tooLarge bs i).map Prod.snd
  | .receiver => (readReceiver bs i).map Prod.snd
  | .data tooLarge => (readData tooLarge bs i).map Prod.snd
  | .accessList => (readAccessList bs i).map Prod.snd
  | .vByte => (readV bs i).map Prod.snd
  | .sigHalf bound tooLarge => (readSigHalf bound tooLarge bs i).map Prod.snd

/-- The first byte `b` of the field is accepted and announces more than there is.  A number of
    256 bits is read only until it overflows. -/
def Announces (bs : Bytes) (i : Nat) (b : UInt8) : RlpField → Prop
  | .number wide tooLarge => 0x80 < b.toNat ∧ (tooLarge.isSome → b.toNat ≤ 0xb7) ∧
      bs.length < i + 1 + (b.toNat - 0x80) ∧
      (wide → BigEndian.decode (bs.drop (i + 1)) < 2 ^ 256)
  | .receiver => b = 0x94 ∧ bs.length < i + 21
  | .data tooLarge => 0xb7 ≤ b.toNat ∧ (tooLarge.isSome → b.toNat < 0xc0) ∧
      bs.length < i + 1 + (b.toNat - 0xb7)
  | .accessList => False
  | .vByte => False
  | .sigHalf bound _ => (b - 0x80).toNat ≤ bound ∧ bs.length < i + 1 + (b - 0x80).toNat ∧
      BigEndian.decode (bs.drop (i + 1)) < 2 ^ 256

/-- The first byte or what it announces lies outside. -/
def Overruns (bs : Bytes) (i : Nat) (f : RlpField) : Prop :=
  bs.length ≤ i ∨ ∃ b, bs[i]? = some b ∧ f.Announces bs i b

variable {bs : Bytes} {i : Nat}

theorem take_drop_of_lt {len : Nat} (h : bs.length < i + len) :
    (bs.drop i).take len = bs.drop i :=
  List.take_of_length_le (by rw [List.length_drop]; omega)

theorem fromBigEndian256_ok_iff {x : Bytes} :
    (∃ y, fromBigEndian256 x = .ok y) ↔ BigEndian.decode x < 2 ^ 256 := by
  unfold fromBigEndian256
  split
  · next h => exact ⟨fun _ => h, fun _ => ⟨_, rfl⟩⟩
  · next h => exact ⟨fun ⟨y, hy⟩ => (by cases hy), fun h' => absurd h' h⟩

/-- Numbers of any width: `Fits` says which rests can be converted. -/
theorem readUint_eq_oob {α : Type} {conv : Bytes → Except Exn α} {tooLarge : Option String}
    {Fits : Bytes → Prop} (hconv : ∀ x, (∃ y, conv x = .ok y) ↔ Fits x) :
    readUint conv tooLarge bs i = .error .oob ↔
      bs.length ≤ i ∨ ∃ b, bs[i]? = some b ∧ 0x80 < b.toNat ∧ (tooLarge.isSome → b.toNat ≤ 0xb7) ∧
        bs.length < i + 1 + (b.toNat - 0x80) ∧ Fits (bs.drop (i + 1)) := by
  unfold readUint
  rw [byteAt_bind_eq_oob]
  refine or_congr_right (exists_congr fun b => and_congr_right fun _ => ?_)
  dsimp only
  by_cases hlarge : 0x80 < b.toNat
  · have hlen : (if 0x80 ≤ b.toNat then b.toNat - 0x80 else 0) = b.toNat - 0x80 :=
      if_pos (by omega)
    -- what is behind the check of the length
    have hrest : ((convAt conv bs (i + 1) (b.toNat - 0x80)) >>= fun x =>
        (pure (x, i + 1 + (b.toNat - 0x80)) : Except Fail (α × Nat))) = .error .oob ↔
          bs.length < i + 1 + (b.toNat - 0x80) ∧ Fits (bs.drop (i + 1)) := by
      rw [bind_eq_oob, convAt_eq_oob]
      constructor
      · rintro (⟨hlt, hx⟩ | ⟨_, -, hpure⟩)
        · rw [take_drop_of_lt hlt] at hx
          exact ⟨hlt, (hconv _).mp hx⟩
        · cases hpure
      · rintro ⟨hlt, hfits⟩
        refine .inl ⟨hlt, ?_⟩
        rw [take_drop_of_lt hlt]
        exact (hconv _).mpr hfits
    rw [hlen, if_pos (by omega)]
    cases tooLarge with
    | none => simpa [hlarge] using hrest
    | some what =>
      refine (guard_eq_oob (p := 0x37 < b.toNat - 0x80)).trans ?_
      rw [hrest]
      simp only [Option.isSome_some, forall_const, hlarge, true_and, not_lt]
      exact and_congr_left fun _ => by omega
  · have hlen : (if 0x80 ≤ b.toNat then b.toNat - 0x80 else 0) = 0 := by
      split <;> omega
    rw [hlen, if_neg (not_not.mpr rfl), bind_eq_oob]
    refine ⟨fun h => ?_, fun h => absurd h.1 hlarge⟩
    rcases h with h | ⟨_, -, h⟩
    · exact absurd h liftExn_ne_oob
    · cases h

theorem readSigHalf_eq_oob {bound : Nat} {what : String} :
    readSigHalf bound what bs i = .error .oob ↔ Overruns bs i (.sigHalf bound what) := by
  unfold readSigHalf
  rw [byteAt_bind_eq_oob]
  refine or_congr_right (exists_congr fun b => and_congr_right fun _ => ?_)
  rw [guard_eq_oob, bind_eq_oob, convAt_eq_oob, fromBigEndian256_ok_iff, not_lt, Announces]
  refine and_congr_right fun _ => ?_
  constructor
  · rintro (⟨hlt, hx⟩ | ⟨_, -, hpure⟩)
    · rw [take_drop_of_lt hlt] at hx
      exact ⟨hlt, hx⟩
    · cases hpure
  · rintro ⟨hlt, hx⟩
    rw [take_drop_of_lt hlt]
    exact .inl ⟨hlt, hx⟩

theorem longData_eq_oob {lenSize : Nat} :
    (do
      let len ← liftExn (fromBigEndian64 (← viewAt bs (i + 1) lenSize))
      let data ← liftExn (substr bs (i + 1 + lenSize) len.toNat)
      return (data, (i + 1 + lenSize + len.toNat) % 2 ^ 64) : Except Fail (Bytes × Nat)) =
        .error .oob ↔ bs.length < i + 1 + lenSize := by
  rw [bind_eq_oob, viewAt_eq_oob]
  refine ⟨fun h => ?_, .inl⟩
  rcases h with h | ⟨view, -, h⟩
  · exact h
  · rcases bind_eq_oob.mp h with h | ⟨len, -, h⟩
    · exact absurd h liftExn_ne_oob
    · rcases bind_eq_oob.mp h with h | ⟨data, -, h⟩
      · exact absurd h liftExn_ne_oob
      · cases h

theorem readData_eq_oob {tooLarge : Option String} :
    readData tooLarge bs i = .error .oob ↔ Overruns bs i (.data tooLarge) := by
  unfold readData
  rw [byteAt_bind_eq_oob]
  refine or_congr_right (exists_congr fun b => and_congr_right fun _ => ?_)
  rw [Announces]
  by_cases hbyte : b.toNat < 0x80
  · rw [if_pos hbyte]
    exact ⟨fun h => (by cases h), fun h => by omega⟩
  · rw [if_neg hbyte]
    by_cases hshort : b.toNat < 0xb7
    · -- `substr` throws instead of reading outside
      rw [if_pos hshort]
      refine ⟨fun h => ?_, fun h => by omega⟩
      dsimp only at h
      split at h
      · cases h
      · rcases bind_eq_oob.mp h with h | ⟨_, -, h⟩
        · exact absurd h liftExn_ne_oob
        · cases h
    · rw [if_neg hshort]
      have hge : 0xb7 ≤ b.toNat := by omega
      cases tooLarge with
      | none =>
        refine longData_eq_oob.trans ?_
        simp [hge]
      | some what =>
        refine (guard_eq_oob (p := 0xc0 ≤ b.toNat)).trans ?_
        rw [longData_eq_oob]
        simp [hge]

theorem readReceiver_eq_oob : readReceiver bs i = .error .oob ↔ Overruns bs i .receiver := by
  unfold readReceiver
  rw [byteAt_bind_eq_oob]
  refine or_congr_right (exists_congr fun b => and_congr_right fun _ => ?_)
  rw [guard_eq_oob, not_not, bind_eq_oob, viewAt_eq_oob, Announces]
  refine and_congr_right fun _ => ⟨fun h => ?_, fun h => .inl (by omega)⟩
  rcases h with h | ⟨_, -, h⟩
  · omega
  · cases h

/-- **A field reads outside the input exactly when it overruns.** -/
theorem read_eq_oob (f : RlpField) : f.read bs i = .error .oob ↔ f.Overruns bs i := by
  cases f with
  | number wide tooLarge =>
    cases wide with
    | false =>
      have hconv : ∀ x, (∃ y, fromBigEndian64 x = .ok y) ↔ True := by simp [fromBigEndian64]
      refine map_eq_oob.trans ((readUint_eq_oob hconv).trans ?_)
      simp [Overruns, Announces]
    | true =>
      refine map_eq_oob.trans ((readUint_eq_oob fun _ => fromBigEndian256_ok_iff).trans ?_)
      simp [Overruns, Announces]
  | receiver => exact map_eq_oob.trans readReceiver_eq_oob
  | data tooLarge => exact map_eq_oob.trans readData_eq_oob
  | accessList =>
    refine map_eq_oob.trans ?_
    unfold readAccessList
    rw [byteAt_bind_eq_oob]
    refine or_congr_right (exists_congr fun b => and_congr_right fun _ => ?_)
    rw [guard_eq_oob]
    exact ⟨fun h => (by cases h.2), False.elim⟩
  | vByte =>
    refine map_eq_oob.trans ?_
    unfold readV
    rw [byteAt_bind_eq_oob]
    refine or_congr_right (exists_congr fun b => and_congr_right fun _ => ?_)
    rw [guard_eq_oob]
    exact ⟨fun h => (by cases h.2), False.elim⟩
  | sigHalf bound tooLarge => exact map_eq_oob.trans readSigHalf_eq_oob

end RlpField

/-! ### Lists of fields -/

/-- A field overruns, and everything in front of it was accepted. -/
def Overrun (bs : Bytes) : List RlpField → Nat → Prop
  | [], _ => False
  | f :: fs, i => f.Overruns bs i ∨ ∃ j, f.read bs i = .ok j ∧ Overrun bs fs j

/-- The list header, or a field behind an accepted header. -/
def ListOverrun (bs : Bytes) (fields : List RlpField) : Prop :=
  (bs = [] ∨ ∃ b, bs[0]? = some b ∧ 0xf7 ≤ b.toNat ∧ bs.length < 1 + (b.toNat - 0xf7)) ∨
    ∃ i, readListHeader bs = .ok i ∧ Overrun bs fields i

section

variable {α β : Type} {bs : Bytes} {i : Nat} {f : RlpField} {fs : List RlpField}

theorem overrun_cons {r : Except Fail (α × Nat)} {k : α × Nat → Except Fail β}
    (hr : r.map Prod.snd = f.read bs i) (hk : ∀ x j, k (x, j) = .error .oob ↔ Overrun bs fs j) :
    (r >>= k) = .error .oob ↔ Overrun bs (f :: fs) i := by
  rw [bind_eq_oob, Overrun, ← RlpField.read_eq_oob, ← hr, map_eq_oob]
  refine or_congr_right ⟨?_, ?_⟩
  · rintro ⟨⟨x, j⟩, hx, h⟩
    exact ⟨j, by rw [hx]; rfl, (hk x j).mp h⟩
  · rintro ⟨j, hj, h⟩
    obtain ⟨⟨x, j'⟩, hx, rfl⟩ := Except.map_eq_ok.mp hj
    exact ⟨(x, j'), hx, (hk x j').mpr h⟩

theorem listOverrun_iff {k : Nat → Except Fail β} (hk : ∀ i, k i = .error .oob ↔ Overrun bs fs i) :
    (readListHeader bs >>= k) = .error .oob ↔ ListOverrun bs fs := by
  have hheader : readListHeader bs = .error .oob ↔ bs = [] ∨
      ∃ b, bs[0]? = some b ∧ 0xf7 ≤ b.toNat ∧ bs.length < 1 + (b.toNat - 0xf7) := by
    unfold readListHeader
    rw [byteAt_bind_eq_oob, Nat.le_zero, List.length_eq_zero_iff]
    refine or_congr_right (exists_congr fun b => and_congr_right fun _ => ?_)
    rw [guard_eq_oob, not_lt]
    refine and_congr_right fun _ => ?_
    dsimp only
    rw [bind_eq_oob, viewAt_eq_oob]
    refine ⟨fun h => ?_, .inl⟩
    rcases h with h | ⟨view, -, h⟩
    · exact h
    · rcases bind_eq_oob.mp h with h | ⟨len, -, h⟩
      · exact absurd h liftExn_ne_oob
      · split at h
        · cases h
        · split at h
          · cases h
          · cases h
  rw [bind_eq_oob, hheader, ListOverrun]
  simp only [hk]

end

/-! ### The parsers -/

/-- The fields of a `TxBlock`. -/
def TxBlock.fields : List RlpField := [
  .number false (some "ChainId is too large"),
  .number false (some "Nonce is too large"),
  .number true (some "MaxPriorityFeePerGas is too large"),
  .number true (some "MaxFeePerGas is too large"),
  .number false (some "GasLimit is too large"),
  .receiver,
  .number true (some "Value is not a small string"),
  .data (some "Data is too large"),
  .accessList,
  .vByte,
  .sigHalf 0x20 "R is bigger than 32 bytes",
  .sigHalf 0x20 "S is bigger than 32 bytes"]

/-- The fields of a `TxValidator`. -/
def TxValidator.fields : List RlpField := [
  .data none,
  .number false none,
  .number true (some "V is not a small string"),
  .sigHalf 0x37 "R is not a small string",
  .sigHalf 0x37 "S is not a small string"]

theorem TxBlock.recoverSender_ne_oob {C : Crypto} {tx : TxBlock} :
    recoverSender C tx ≠ .error .oob := by
  unfold recoverSender
  rw [Ne, guard_eq_oob, guard_eq_oob]
  rintro ⟨-, -, h⟩
  cases h

theorem TxValidator.recoverSender_ne_oob {C : Crypto} {f : Fields} :
    recoverSender C f ≠ .error .oob := by
  unfold recoverSender
  by_cases hlow : f.v.val ≤ 36
  · rw [if_pos hlow]
    by_cases h27 : f.v.val ≠ 27 ∧ f.v.val ≠ 28
    · rw [if_pos h27]
      exact fun h => by cases h
    · rw [if_neg h27]
      exact fun h => by cases h
  · rw [if_neg hlow]
    by_cases hhigh : 2 ^ 64 ≤ (f.v.val - 35) / 2
    · rw [if_pos hhigh]
      exact fun h => by cases h
    · rw [if_neg hhigh]
      show ¬ ((if _ then _ else _) = _)
      rw [guard_eq_oob, guard_eq_oob]
      rintro ⟨-, -, h⟩
      cases h

theorem TxBlock.readFields_eq_oob {txData : Bytes} :
    readFields (0x02 :: txData) = .error .oob ↔ ListOverrun txData TxBlock.fields := by
  rw [readFields_eq_readByField]
  refine listOverrun_iff fun _ => overrun_cons rfl fun _ _ => overrun_cons rfl fun _ _ =>
    overrun_cons rfl fun _ _ => overrun_cons rfl fun _ _ => overrun_cons rfl fun _ _ =>
    overrun_cons rfl fun _ _ => overrun_cons rfl fun _ _ => overrun_cons rfl fun _ _ =>
    overrun_cons rfl fun _ _ => overrun_cons rfl fun _ _ => overrun_cons rfl fun _ _ =>
    overrun_cons rfl fun _ _ => ?_
  exact ⟨fun h => (by cases h), False.elim⟩

theorem TxValidator.readFields_eq_oob {bytes : Bytes} :
    readFields bytes = .error .oob ↔ ListOverrun bytes TxValidator.fields := by
  refine listOverrun_iff fun _ => overrun_cons rfl fun _ _ => overrun_cons rfl fun _ _ =>
    overrun_cons rfl fun _ _ => overrun_cons rfl fun _ _ => overrun_cons rfl fun _ _ => ?_
  exact ⟨fun h => (by cases h), False.elim⟩

theorem TxValidator.parse_eq_oob {C : Crypto} {bytes : Bytes} {id : UInt64} :
    parse C bytes id = .error .oob ↔ ListOverrun bytes TxValidator.fields := by
  rw [parse_eq, bind_eq_oob, readFields_eq_oob]
  refine or_iff_left ?_
  rintro ⟨f, -, h⟩
  exact recoverSender_ne_oob h

/-- **The parsers stay inside their input** exactly when no field overruns: behind the type
    byte of a `TxBlock` and from the start of a `TxValidator`. -/
theorem parse_inside_iff (C : Crypto) (bytes : Bytes) (id : UInt64) :
    (TxBlock.parse C bytes id ≠ .error .oob ↔
      ∀ txData, bytes = 0x02 :: txData → ¬ ListOverrun txData TxBlock.fields) ∧
    (TxValidator.parse C bytes id ≠ .error .oob ↔ ¬ ListOverrun bytes TxValidator.fields) := by
  constructor
  · rw [TxBlock.parse_eq, Ne, bind_eq_oob]
    have hrecover : ¬ ∃ tx, TxBlock.readFields bytes = .ok tx ∧
        TxBlock.recoverSender C tx = .error .oob := by
      rintro ⟨tx, -, h⟩
      exact TxBlock.recoverSender_ne_oob h
    rw [or_iff_left hrecover]
    cases bytes with
    | nil =>
      -- `substr` throws
      refine ⟨fun _ txData h => (by cases h), fun _ h => (by cases h)⟩
    | cons b txData =>
      by_cases hb : b = 0x02
      · subst hb
        rw [TxBlock.readFields_eq_oob]
        refine ⟨fun h txData' heq => ?_, fun h => h txData rfl⟩
        cases heq
        exact h
      · refine ⟨fun _ txData' heq => absurd (List.cons.inj heq).1 hb, fun _ h => ?_⟩
        change (if b ≠ 0x02 then _ else _) = _ at h
        rw [if_pos hb] at h
        cases h
  · exact not_congr TxValidator.parse_eq_oob

/-- Behind a type byte alone, and in the empty input, the first byte of the list is read. -/
theorem parse_overruns :
    (∀ C id, TxBlock.parse C [0x02] id = .error .oob) ∧
      ∀ C id, TxValidator.parse C [] id = .error .oob :=
  ⟨fun _ _ => rfl, fun _ _ => rfl⟩

end OrbiterSdk
