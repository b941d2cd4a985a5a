import OrbiterSdk.Lib.Cursor
import OrbiterSdk.Utils.Tx

namespace OrbiterSdk

open Cursor

/-!
# What the transaction parsers read

The encoders of `utils/tx.cpp` against its parsers, field by field.

* `reads_rlpUint`, `reads_rlpV`, `reads_rlpSigHalf` — a number is read back wherever it
  stands;
* `readData_rlpData` — so is the data, but for a string of 55 bytes: its first byte `0xb7` is
  taken for that of a long string with no length (`readData_short_string`);
* `readListHeader_of_lt`, `readListHeader_of_le` — the list header, which is refused when the
  list has at most 55 bytes.
-/

section

variable {α : Type} {bs f : Bytes} {i n : Nat} {b : UInt8}

/-! ### Bytes and strings -/

theorem byteAt_of_at (h : At bs i [b]) : byteAt bs i = .ok b := by
  rw [byteAt, h.getElem?]

theorem viewAt_of_at (h : At bs i (b :: f)) : viewAt bs (i + 1) f.length = .ok f := by
  have hle := h.length_le (List.cons_ne_nil b f)
  rw [List.length_cons] at hle
  rw [viewAt, if_pos (by omega), (at_cons.mp h).2.take]

theorem convAt_of_at {conv : Bytes → Except Exn α} {x : α} (h : At bs i (b :: f))
    (hconv : conv f = .ok x) : convAt conv bs (i + 1) f.length = .ok x := by
  have hle := h.length_le (List.cons_ne_nil b f)
  rw [List.length_cons] at hle
  rw [convAt, (at_cons.mp h).2.take, hconv]
  exact if_pos (by omega)

theorem substr_of_at (h : At bs i (b :: f)) : substr bs (i + 1) f.length = .ok f := by
  have hle := h.length_le (List.cons_ne_nil b f)
  rw [List.length_cons] at hle
  rw [substr, if_neg (by omega), (at_cons.mp h).2.take]

theorem toNat_ofNat_of_lt (h : n < 256) : (UInt8.ofNat n).toNat = n := by
  rw [UInt8.toNat_ofNat']
  exact Nat.mod_eq_of_lt h

/-! ### Numbers -/

variable {conv : Bytes → Except Exn α} {tooLarge : Option String} {x : α}

theorem readUint_byte (h : At bs i [b]) (hb : b.toNat ≤ 0x80)
    (hconv : conv (if b = 0x80 then [] else [b]) = .ok x) :
    readUint conv tooLarge bs i = .ok (x, i + 1) := by
  have hlen : (if 0x80 ≤ b.toNat then b.toNat - 0x80 else 0) = 0 := by
    split <;> omega
  rw [readUint, byteAt_of_at h]
  show (if (if 0x80 ≤ b.toNat then b.toNat - 0x80 else 0) ≠ 0 then _ else _) = _
  rw [hlen, if_neg (not_not.mpr rfl), hconv]
  rfl

theorem readUint_string (h : At bs i (UInt8.ofNat (f.length + 0x80) :: f)) (hpos : 0 < f.length)
    (hle : f.length ≤ 0x37) (hconv : conv f = .ok x) :
    readUint conv tooLarge bs i = .ok (x, i + 1 + f.length) := by
  have hbyte : (UInt8.ofNat (f.length + 0x80)).toNat = f.length + 0x80 :=
    toNat_ofNat_of_lt (by omega)
  have hlen : (if 0x80 ≤ (UInt8.ofNat (f.length + 0x80)).toNat then
      (UInt8.ofNat (f.length + 0x80)).toNat - 0x80 else 0) = f.length := by
    rw [hbyte, if_pos (by omega), Nat.add_sub_cancel]
  rw [readUint, byteAt_of_at (at_cons.mp h).1]
  show (if (if 0x80 ≤ (UInt8.ofNat (f.length + 0x80)).toNat then
    (UInt8.ofNat (f.length + 0x80)).toNat - 0x80 else 0) ≠ 0 then _ else _) = _
  rw [hlen, if_pos (by omega), convAt_of_at h hconv]
  cases tooLarge with
  | none => rfl
  | some what =>
    show (if 0x37 < f.length then _ else _) = _
    rw [if_neg (by omega)]
    rfl

/-- **Numbers.** -/
theorem reads_rlpUint (hconv : conv (uintToBytes n) = .ok x) (hlen : bytesRequired n ≤ 0x37) :
    Reads (readUint conv tooLarge) (rlpUint n) x := by
  intro bs i h
  unfold rlpUint at h ⊢
  by_cases h0 : n = 0
  · subst h0
    exact readUint_byte h le_rfl hconv
  · rw [if_neg h0] at h ⊢
    by_cases hbyte : n < 0x80
    · rw [if_pos hbyte] at h ⊢
      rw [uintToBytes, BigEndian.minimal_of_lt (by omega) (by omega)] at hconv
      have hn : (UInt8.ofNat n).toNat = n := toNat_ofNat_of_lt (by omega)
      refine readUint_byte h (by omega) ?_
      rw [if_neg]
      · exact hconv
      · intro heq
        rw [heq] at hn
        have : (0x80 : UInt8).toNat = 128 := rfl
        omega
    · rw [if_neg hbyte] at h ⊢
      have hpos : 0 < (uintToBytes n).length :=
        List.length_pos_iff.mpr (BigEndian.minimal_ne_nil (by omega))
      rw [readUint_string h hpos hlen hconv, List.length_cons, Nat.add_assoc, Nat.add_comm 1]

/-- `v` and the chain id of a validator transaction: the byte zero is read as zero, too. -/
theorem reads_rlpV (hconv : conv (uintToBytes n) = .ok x) (hzero : n = 0 → conv [0] = .ok x)
    (hlen : bytesRequired n ≤ 0x37) : Reads (readUint conv tooLarge) (TxValidator.rlpV n) x := by
  by_cases h0 : n = 0
  · subst h0
    intro bs i h
    exact readUint_byte h (by decide) (hzero rfl)
  · have hsame : TxValidator.rlpV n = rlpUint n := by
      rw [TxValidator.rlpV, rlpUint, if_neg h0]
    rw [hsame]
    exact reads_rlpUint hconv hlen

theorem fromBigEndian64_uintToBytes (n : Nat) :
    fromBigEndian64 (uintToBytes n) = .ok (UInt64.ofNat n) := by
  rw [fromBigEndian64, uintToBytes, BigEndian.decode_minimal]

theorem bytesRequired_le (n : Uint256) : bytesRequired n ≤ 32 :=
  BigEndian.length_minimal_le n.isLt

theorem reads_rlpUint64 (n : Uint256) :
    Reads (readUint fromBigEndian64 tooLarge) (rlpUint n) (UInt64.ofNat n) :=
  reads_rlpUint (fromBigEndian64_uintToBytes n) ((bytesRequired_le n).trans (by decide))

theorem reads_rlpUint_toNat (n : UInt64) :
    Reads (readUint fromBigEndian64 tooLarge) (rlpUint n.toNat) n := by
  have hlen : bytesRequired n.toNat ≤ 8 := BigEndian.length_minimal_le n.toNat_lt
  have hconv := fromBigEndian64_uintToBytes n.toNat
  rw [UInt64.ofNat_toNat] at hconv
  exact reads_rlpUint hconv (hlen.trans (by decide))

theorem reads_rlpUint256 (n : Uint256) :
    Reads (readUint fromBigEndian256 tooLarge) (rlpUint n) n :=
  reads_rlpUint (fromBigEndian256_uintToBytes n) ((bytesRequired_le n).trans (by decide))

/-- **Signature halves.** -/
theorem reads_rlpSigHalf {bound : Nat} {what : String} (hbound : 32 ≤ bound) (n : Uint256) :
    Reads (readSigHalf bound what) (rlpSigHalf n) n := by
  intro bs i h
  have hle := bytesRequired_le n
  have hbyte : (UInt8.ofNat (bytesRequired n + 0x80) - 0x80).toNat = bytesRequired n := by
    rw [UInt8.toNat_sub, toNat_ofNat_of_lt (by omega)]
    show (2 ^ 8 - 128 + (bytesRequired n + 128)) % 2 ^ 8 = _
    omega
  have hconv : convAt fromBigEndian256 bs (i + 1) (bytesRequired n) = .ok n :=
    convAt_of_at h (fromBigEndian256_uintToBytes n)
  rw [readSigHalf, byteAt_of_at (at_cons.mp h).1]
  show (if bound < (UInt8.ofNat (bytesRequired n + 0x80) - 0x80).toNat then _ else _) = _
  rw [hbyte, if_neg (by omega), hconv, rlpSigHalf, List.length_cons]
  show Except.ok (n, i + 1 + bytesRequired n) = _
  rw [Nat.add_assoc, Nat.add_comm 1]
  rfl

/-! ### Data -/

theorem readData_short (h : byteAt bs i = .ok b) (hge : 0x80 ≤ b.toNat) (hlt : b.toNat < 0xb7) :
    readData tooLarge bs i = if b.toNat - 0x80 = 0 then .ok ([], i + 1) else (do
      let data ← liftExn (substr bs (i + 1) (b.toNat - 0x80))
      return (data, i + 1 + (b.toNat - 0x80))) := by
  rw [readData, h]
  show (if b.toNat < 0x80 then _ else if b.toNat < 0xb7 then _ else _) = _
  rw [if_neg (by omega), if_pos hlt]
  rfl

theorem readData_empty (h : At bs i [0x80]) : readData tooLarge bs i = .ok ([], i + 1) := by
  rw [readData_short (byteAt_of_at h) (by decide) (by decide), if_pos (by decide)]

theorem readData_string (h : At bs i (UInt8.ofNat (f.length + 0x80) :: f)) (hpos : 0 < f.length)
    (hle : f.length ≤ 54) : readData tooLarge bs i = .ok (f, i + 1 + f.length) := by
  have hbyte : (UInt8.ofNat (f.length + 0x80)).toNat = f.length + 0x80 :=
    toNat_ofNat_of_lt (by omega)
  rw [readData_short (byteAt_of_at (at_cons.mp h).1) (by omega) (by omega), hbyte,
    Nat.add_sub_cancel, if_neg (by omega), substr_of_at h]
  rfl

theorem readData_long (h : byteAt bs i = .ok b) (hge : 0xb7 ≤ b.toNat) (hlt : b.toNat < 0xc0) :
    readData tooLarge bs i = (do
      let len ← liftExn (fromBigEndian64 (← viewAt bs (i + 1) (b.toNat - 0xb7)))
      let data ← liftExn (substr bs (i + 1 + (b.toNat - 0xb7)) len.toNat)
      return (data, (i + 1 + (b.toNat - 0xb7) + len.toNat) % 2 ^ 64)) := by
  rw [readData, h]
  show (if b.toNat < 0x80 then _ else if b.toNat < 0xb7 then _ else _) = _
  rw [if_neg (by omega), if_neg (by omega)]
  cases tooLarge with
  | none => rfl
  | some what =>
    show (if 0xc0 ≤ b.toNat then _ else _) = _
    rw [if_neg (by omega)]

/-- The first byte `0xb7` of a string of 55 bytes is that of a long string with no length. -/
theorem readData_short_string (h : At bs i [0xb7]) (hlen : bs.length < 2 ^ 64) :
    readData tooLarge bs i = .ok ([], i + 1) := by
  have hle := h.length_le (List.cons_ne_nil _ _)
  rw [List.length_singleton] at hle
  have hview : viewAt bs (i + 1) ((0xb7 : UInt8).toNat - 0xb7) = .ok [] := by
    show viewAt bs (i + 1) 0 = _
    rw [viewAt, if_pos hle, List.take_zero]
  rw [readData_long (byteAt_of_at h) (by decide) (by decide), hview]
  refine Except.bind_eq_ok.mpr ⟨[], rfl, Except.bind_eq_ok.mpr ⟨0, rfl, ?_⟩⟩
  refine Except.bind_eq_ok.mpr ⟨[], liftExn_eq_ok.mpr ?_, ?_⟩
  · show substr bs (i + 1) 0 = _
    rw [substr, if_neg (by omega), List.take_zero]
  · have hlt : i + 1 < 2 ^ 64 := by omega
    exact congrArg (fun j => Except.ok ([], j)) (Nat.mod_eq_of_lt hlt)

theorem readData_long_string {l : Bytes}
    (h : At bs i (UInt8.ofNat (l.length + 0xb7) :: (l ++ f))) (hl : l = uintToBytes f.length)
    (hlong : 55 < f.length) (hlen : bs.length < 2 ^ 64) :
    readData tooLarge bs i = .ok (f, i + 1 + l.length + f.length) := by
  have hend := h.length_le (List.cons_ne_nil _ _)
  rw [List.length_cons, List.length_append] at hend
  have hsize : l.length ≤ 8 := by
    rw [hl]
    exact BigEndian.length_minimal_le (show f.length < 256 ^ 8 by omega)
  have hpos : 0 < l.length := by
    rw [hl]
    exact List.length_pos_iff.mpr (BigEndian.minimal_ne_nil (by omega))
  have hbyte : (UInt8.ofNat (l.length + 0xb7)).toNat = l.length + 0xb7 :=
    toNat_ofNat_of_lt (by omega)
  obtain ⟨hhead, hlf⟩ := at_cons.mp h
  obtain ⟨hl', hf⟩ := at_append.mp hlf
  have hview : viewAt bs (i + 1) l.length = .ok l := by
    rw [viewAt, if_pos (by omega), hl'.take]
  have hsub : substr bs (i + 1 + l.length) f.length = .ok f := by
    rw [substr, if_neg (by omega), hf.take]
  have hcount : (UInt64.ofNat f.length).toNat = f.length := by
    rw [UInt64.toNat_ofNat']
    exact Nat.mod_eq_of_lt (by omega)
  rw [readData_long (byteAt_of_at hhead) (by omega) (by omega), hbyte, Nat.add_sub_cancel, hview]
  refine Except.bind_eq_ok.mpr ⟨l, rfl, Except.bind_eq_ok.mpr ⟨UInt64.ofNat f.length, ?_, ?_⟩⟩
  · rw [hl, fromBigEndian64_uintToBytes]
    rfl
  · rw [hcount, hsub, Nat.mod_eq_of_lt (by omega)]
    rfl

/-- **Data**, of any length but 55. -/
theorem readData_rlpData {data : Bytes} (h : At bs i (rlpData data)) (h55 : data.length ≠ 55)
    (hlen : bs.length < 2 ^ 64) :
    readData tooLarge bs i = .ok (data, i + (rlpData data).length) := by
  unfold rlpData at h ⊢
  by_cases h0 : data.length = 0
  · rw [if_pos h0] at h ⊢
    rw [List.length_eq_zero_iff.mp h0]
    exact readData_empty h
  · rw [if_neg h0] at h ⊢
    by_cases hshort : data.length ≤ 55
    · rw [if_pos hshort] at h ⊢
      rw [readData_string h (by omega) (by omega), List.length_cons, Nat.add_assoc,
        Nat.add_comm 1]
    · rw [if_neg hshort] at h ⊢
      rw [readData_long_string h rfl (by omega) hlen, List.length_cons, List.length_append]
      refine congrArg (fun j => Except.ok (data, j)) ?_
      omega

theorem length_substr_le {pos len : Nat} {data : Bytes} (h : substr bs pos len = .ok data) :
    data.length ≤ bs.length := by
  unfold substr at h
  split at h
  · cases h
  · cases h
    rw [List.length_take, List.length_drop]
    omega

theorem length_readLong_le {lenSize j : Nat} {data : Bytes}
    (h : (do
      let len ← liftExn (fromBigEndian64 (← viewAt bs (i + 1) lenSize))
      let data ← liftExn (substr bs (i + 1 + lenSize) len.toNat)
      return (data, (i + 1 + lenSize + len.toNat) % 2 ^ 64)) =
        (Except.ok (data, j) : Except Fail (Bytes × Nat))) : data.length ≤ bs.length := by
  obtain ⟨l, -, h⟩ := Except.bind_eq_ok.mp h
  obtain ⟨len, -, h⟩ := Except.bind_eq_ok.mp h
  obtain ⟨d, hd, h⟩ := Except.bind_eq_ok.mp h
  cases h
  exact length_substr_le (liftExn_eq_ok.mp hd)

theorem length_readData_le {data : Bytes} {j : Nat} (h : readData tooLarge bs i = .ok (data, j)) :
    data.length ≤ bs.length := by
  obtain ⟨b, hb, h⟩ := Except.bind_eq_ok.mp h
  have hmem : 0 < bs.length := by
    rw [List.length_pos_iff]
    rintro rfl
    cases hb
  dsimp only at h
  split at h
  · cases h
    exact hmem
  · split at h
    · split at h
      · cases h
        exact Nat.zero_le _
      · obtain ⟨d, hd, h⟩ := Except.bind_eq_ok.mp h
        cases h
        exact length_substr_le (liftExn_eq_ok.mp hd)
    · cases tooLarge with
      | none => exact length_readLong_le h
      | some what =>
        dsimp only at h
        exact length_readLong_le (guard_eq_ok.mp h).2

/-! ### Sizes and the list header -/

theorem length_rlpUint (n : Nat) : (rlpUint n).length = rlpUintSize n := by
  unfold rlpUint rlpUintSize
  by_cases h0 : n = 0
  · subst h0
    rfl
  · rw [if_neg h0]
    by_cases hbyte : n < 0x80
    · rw [if_pos hbyte, if_pos hbyte]
      rfl
    · rw [if_neg hbyte, if_neg hbyte, List.length_cons, bytesRequired, Nat.add_comm]

theorem length_rlpV (n : Nat) : (TxValidator.rlpV n).length = rlpUintSize n := by
  unfold TxValidator.rlpV rlpUintSize
  by_cases hbyte : n < 0x80
  · rw [if_pos hbyte, if_pos hbyte]
    rfl
  · rw [if_neg hbyte, if_neg hbyte, List.length_cons, bytesRequired, Nat.add_comm]

theorem length_rlpData (data : Bytes) : (rlpData data).length = rlpDataSize data := by
  unfold rlpData rlpDataSize
  by_cases h0 : data.length = 0
  · rw [if_pos h0, if_pos h0]
    rfl
  · rw [if_neg h0, if_neg h0]
    by_cases hshort : data.length ≤ 55
    · rw [if_pos hshort, if_pos hshort, List.length_cons, Nat.add_comm]
    · rw [if_neg hshort, if_neg hshort, List.length_cons, List.length_append, bytesRequired]
      omega

theorem length_rlpSigHalf (n : Nat) : (rlpSigHalf n).length = 1 + bytesRequired n := by
  rw [rlpSigHalf, List.length_cons, bytesRequired, Nat.add_comm]

theorem TxBlock.length_rlpPayload (tx : TxBlock) (includeSig : Bool) :
    (tx.rlpPayload includeSig).length = tx.rlpSize includeSig := by
  unfold TxBlock.rlpPayload TxBlock.rlpSize
  simp only [List.length_append, List.length_cons, List.length_nil, length_rlpUint,
    length_rlpData, FixedStr.size_eq]
  cases includeSig with
  | false =>
    simp only [Bool.false_eq_true, if_false, List.length_nil]
    omega
  | true =>
    simp only [if_true, List.length_append, List.length_singleton, length_rlpSigHalf]
    omega

theorem TxValidator.length_rlpPayload (tx : TxValidator) (includeSig : Bool) :
    (tx.rlpPayload includeSig).length = tx.rlpSize includeSig := by
  unfold TxValidator.rlpPayload TxValidator.rlpSize
  simp only [List.length_append, length_rlpUint, length_rlpV, length_rlpData]
  cases includeSig with
  | false => rfl
  | true => simp only [if_true, length_rlpSigHalf]

theorem readListHeader_eq (h : byteAt bs 0 = .ok b) (hb : 0xf7 ≤ b.toNat) :
    readListHeader bs = (do
      let len ← liftExn (fromBigEndian64 (← viewAt bs 1 (b.toNat - 0xf7)))
      if len.toNat < bs.length - (b.toNat - 0xf7) - 1 then
        raise "Tx RLP returns smaller size than reported"
      else if bs.length - (b.toNat - 0xf7) - 1 < len.toNat then
        raise "Tx RLP returns larger size than reported"
      return 1 + (b.toNat - 0xf7)) := by
  rw [readListHeader, h]
  show (if b.toNat < 0xf7 then _ else _) = _
  rw [if_neg (by omega)]

/-- A list: the header and the fields. -/
def rlpList (payload : Bytes) : Bytes := rlpListHeader payload.length ++ payload

theorem at_rlpList (payload : Bytes) :
    At (rlpList payload) (rlpListHeader payload.length).length payload := by
  have h := at_of_append (rlpListHeader payload.length) payload []
  rwa [List.append_nil] at h

theorem length_rlpList_lt (h : f.length < 2 ^ 63) : (rlpList f).length < 2 ^ 64 := by
  rw [rlpList, List.length_append, rlpListHeader]
  split
  · rw [List.length_singleton]
    omega
  · have hsize : (uintToBytes f.length).length ≤ 8 :=
      BigEndian.length_minimal_le (show f.length < 256 ^ 8 by omega)
    rw [List.length_cons]
    omega

/-- **The list header** of a list with more than 55 bytes. -/
theorem readListHeader_of_lt (hlong : 55 < f.length) (hlen : f.length < 2 ^ 63) :
    readListHeader (rlpList f) = .ok (rlpListHeader f.length).length := by
  rw [rlpList, rlpListHeader, if_neg (by omega)]
  set l := uintToBytes f.length with hl
  have hsize : l.length ≤ 8 := by
    rw [hl]
    exact BigEndian.length_minimal_le (show f.length < 256 ^ 8 by omega)
  have hbyte : (UInt8.ofNat (bytesRequired f.length + 0xf7)).toNat = l.length + 0xf7 :=
    toNat_ofNat_of_lt (show l.length + 0xf7 < 256 by omega)
  set bs := UInt8.ofNat (bytesRequired f.length + 0xf7) :: l ++ f with hbs
  have hlength : bs.length = l.length + 1 + f.length := by
    rw [hbs, List.length_append, List.length_cons]
  have hview : viewAt bs 1 l.length = .ok l := by
    rw [viewAt, if_pos (by omega), hbs]
    show Except.ok ((l ++ f).take l.length) = _
    rw [List.take_left]
  have hcount : (UInt64.ofNat f.length).toNat = f.length := by
    rw [UInt64.toNat_ofNat']
    exact Nat.mod_eq_of_lt (by omega)
  rw [readListHeader_eq rfl (by omega), hbyte, Nat.add_sub_cancel, hview]
  refine Except.bind_eq_ok.mpr ⟨l, rfl, Except.bind_eq_ok.mpr ⟨UInt64.ofNat f.length, ?_, ?_⟩⟩
  · rw [hl, fromBigEndian64_uintToBytes]
    rfl
  · rw [hcount, if_neg (by omega), if_neg (by omega), List.length_cons, Nat.add_comm]
    rfl

theorem readListHeader_of_le (hshort : f.length ≤ 55) (hne : f ≠ []) :
    ∃ e, readListHeader (rlpList f) = .error e := by
  have hpos := List.length_pos_iff.mpr hne
  have hbyte : (UInt8.ofNat (f.length + 0xc0)).toNat = f.length + 0xc0 :=
    toNat_ofNat_of_lt (by omega)
  rw [rlpList, rlpListHeader, if_pos hshort]
  show ∃ e, readListHeader (UInt8.ofNat (f.length + 0xc0) :: f) = .error e
  by_cases hlist : f.length = 55
  · -- The first byte `0xf7` announces a length of no bytes.
    have hzero : (UInt8.ofNat (f.length + 0xc0)).toNat - 0xf7 = 0 := by omega
    have hview : viewAt (UInt8.ofNat (f.length + 0xc0) :: f) 1 0 = .ok [] := by
      rw [viewAt, if_pos (by rw [List.length_cons]; omega), List.take_zero]
    refine ⟨.exn (.runtimeError "Tx RLP returns smaller size than reported"), ?_⟩
    rw [readListHeader_eq rfl (by omega), hzero, hview]
    show (if 0 < (UInt8.ofNat (f.length + 0xc0) :: f).length - 0 - 1 then _ else _) = _
    rw [if_pos (by rw [List.length_cons]; omega)]
    rfl
  · refine ⟨.exn (.runtimeError "Tx is not a list"), ?_⟩
    rw [readListHeader]
    show (if (UInt8.ofNat (f.length + 0xc0)).toNat < 0xf7 then _ else _) = _
    rw [if_pos (by omega)]
    rfl

end

end OrbiterSdk
