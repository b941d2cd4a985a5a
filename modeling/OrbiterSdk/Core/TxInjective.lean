import OrbiterSdk.Core.Recorded
import OrbiterSdk.Utils.TxParse

namespace OrbiterSdk

open Cursor

/-!
# What a signature binds

The message that is signed is the encoding without the signature, so nobody can read a field
of a signed transaction in two ways.

* numbers, signature halves and addresses are prefix codes because a reader reads them;
* the data is cut off by its first byte and its length (`rlpData_append_inj`); a reader does
  not help here, since the one of the code does not read 55 bytes;
* `rlpList_injective` — the list header is fixed by the length of the list;
* `rlpSerialize_binds` — equal encodings have equal fields, and no encoding of a transaction
  is one of a validator transaction.
-/

/-! ### Fields -/

theorem prefixCode_uint64 : PrefixCode fun n : UInt64 => rlpUint n.toNat :=
  PrefixCode.of_reads (r := readUint fromBigEndian64 none) reads_rlpUint_toNat

theorem prefixCode_uint256 : PrefixCode fun n : Uint256 => rlpUint n :=
  PrefixCode.of_reads (r := readUint fromBigEndian256 none) reads_rlpUint256

theorem prefixCode_sigHalf : PrefixCode fun n : Uint256 => rlpSigHalf n :=
  PrefixCode.of_reads (r := readSigHalf 32 "") (reads_rlpSigHalf le_rfl)

theorem prefixCode_rlpV : PrefixCode fun n : Uint256 => TxValidator.rlpV n := by
  refine PrefixCode.of_reads (r := readUint fromBigEndian256 none) fun n => ?_
  refine reads_rlpV (fromBigEndian256_uintToBytes n) (fun h0 => ?_)
    ((bytesRequired_le n).trans (by decide))
  rw [show n = 0 from Fin.ext h0]
  rfl

theorem rlpData_of_le {data : Bytes} (h : data.length ≤ 55) :
    rlpData data = UInt8.ofNat (data.length + 0x80) :: data := by
  unfold rlpData
  by_cases h0 : data.length = 0
  · rw [if_pos h0, List.length_eq_zero_iff.mp h0]
    rfl
  · rw [if_neg h0, if_pos h]

theorem rlpData_of_lt {data : Bytes} (h : 55 < data.length) :
    rlpData data = UInt8.ofNat (bytesRequired data.length + 0xb7) ::
      (uintToBytes data.length ++ data) := by
  rw [rlpData, if_neg (by omega), if_neg (by omega)]

theorem ofNat_eq_iff {n m : Nat} : UInt8.ofNat n = UInt8.ofNat m ↔ n % 256 = m % 256 := by
  rw [← UInt8.toNat_inj, UInt8.toNat_ofNat', UInt8.toNat_ofNat']

theorem rlpData_ne_of_le_of_lt {d d' t t' : Bytes} (hd : d.length ≤ 55) (hd' : 55 < d'.length)
    (ht : t.length ≤ 200) : rlpData d ++ t ≠ rlpData d' ++ t' := by
  intro h
  rw [rlpData_of_le hd, rlpData_of_lt hd', List.cons_append, List.cons_append] at h
  obtain ⟨hbyte, hrest⟩ := List.cons.inj h
  have hlen := congrArg List.length hrest
  simp only [List.length_append] at hlen
  have hpos : 0 < bytesRequired d'.length :=
    List.length_pos_iff.mpr (BigEndian.minimal_ne_nil (by omega))
  have hle : bytesRequired d'.length ≤ 1 :=
    BigEndian.length_minimal_le (show d'.length < 256 ^ 1 by omega)
  rw [ofNat_eq_iff] at hbyte
  omega

/-- Lengths that are close together need about as many bytes. -/
theorem bytesRequired_le_succ {n m : Nat} (hn : 0 < n) (h : m ≤ n + bytesRequired n + 300) :
    bytesRequired m ≤ bytesRequired n + 1 := by
  have hlt : n < 256 ^ bytesRequired n := BigEndian.lt_of_length_minimal le_rfl
  have hsmall : bytesRequired n < 256 ^ bytesRequired n := Nat.lt_pow_self (by decide)
  have hpos : 0 < bytesRequired n :=
    List.length_pos_iff.mpr (BigEndian.minimal_ne_nil hn)
  have hbase : 256 ^ 1 ≤ 256 ^ bytesRequired n := Nat.pow_le_pow_right (by decide) hpos
  refine BigEndian.length_minimal_le (show m < 256 ^ (bytesRequired n + 1) from ?_)
  rw [pow_succ]
  omega

/-- **Data** can be cut off the front in only one way. -/
theorem rlpData_append_inj {d d' t t' : Bytes} (ht : t.length ≤ 200) (ht' : t'.length ≤ 200)
    (h : rlpData d ++ t = rlpData d' ++ t') : d = d' ∧ t = t' := by
  by_cases hd : d.length ≤ 55
  · by_cases hd' : d'.length ≤ 55
    · rw [rlpData_of_le hd, rlpData_of_le hd', List.cons_append, List.cons_append] at h
      obtain ⟨hbyte, hrest⟩ := List.cons.inj h
      rw [ofNat_eq_iff] at hbyte
      exact List.append_inj hrest (by omega)
    · exact absurd h (rlpData_ne_of_le_of_lt hd (by omega) ht)
  · by_cases hd' : d'.length ≤ 55
    · exact absurd h.symm (rlpData_ne_of_le_of_lt hd' (by omega) ht')
    · rw [rlpData_of_lt (by omega), rlpData_of_lt (by omega), List.cons_append, List.cons_append,
        List.append_assoc, List.append_assoc] at h
      obtain ⟨hbyte, hrest⟩ := List.cons.inj h
      have hlen := congrArg List.length hrest
      simp only [List.length_append] at hlen
      have hcount : ∀ n, (uintToBytes n).length = bytesRequired n := fun _ => rfl
      rw [hcount, hcount] at hlen
      rw [ofNat_eq_iff] at hbyte
      -- The two lengths are so close that their own lengths differ by at most one.
      have hsame : bytesRequired d.length = bytesRequired d'.length := by
        rcases Nat.le_total d.length d'.length with hle | hle
        · have hmono := BigEndian.length_minimal_mono hle
          have hsucc := bytesRequired_le_succ (show 0 < d.length by omega)
            (show d'.length ≤ d.length + bytesRequired d.length + 300 by omega)
          have hmono' : bytesRequired d.length ≤ bytesRequired d'.length := hmono
          omega
        · have hmono := BigEndian.length_minimal_mono hle
          have hsucc := bytesRequired_le_succ (show 0 < d'.length by omega)
            (show d.length ≤ d'.length + bytesRequired d'.length + 300 by omega)
          have hmono' : bytesRequired d'.length ≤ bytesRequired d.length := hmono
          omega
      obtain ⟨hdigits, hrest⟩ := List.append_inj hrest hsame
      exact List.append_inj hrest (BigEndian.minimal_injective hdigits)

/-! ### Lists -/

theorem length_rlpListHeader_mono {n m : Nat} (h : n ≤ m) :
    (rlpListHeader n).length ≤ (rlpListHeader m).length := by
  have hmono : (uintToBytes n).length ≤ (uintToBytes m).length := BigEndian.length_minimal_mono h
  unfold rlpListHeader
  split
  · split
    · exact le_rfl
    · rw [List.length_singleton, List.length_cons]
      omega
  · rw [if_neg (by omega), List.length_cons, List.length_cons]
    omega

theorem rlpList_injective {p q : Bytes} (h : rlpList p = rlpList q) : p = q := by
  have hlen := congrArg List.length h
  rw [rlpList, rlpList, List.length_append, List.length_append] at hlen
  have hsame : p.length = q.length := by
    rcases Nat.le_total p.length q.length with hle | hle
    · have := length_rlpListHeader_mono hle
      omega
    · have := length_rlpListHeader_mono hle
      omega
  rw [rlpList, rlpList, hsame] at h
  exact List.append_cancel_left h

/-! ### Block transactions -/

namespace TxBlock

/-- The fields a signature binds. -/
structure SameMessage (tx tx' : TxBlock) : Prop where
  chainId : tx.chainId = tx'.chainId
  nonce : tx.nonce = tx'.nonce
  maxPriorityFeePerGas : tx.maxPriorityFeePerGas = tx'.maxPriorityFeePerGas
  maxFeePerGas : tx.maxFeePerGas = tx'.maxFeePerGas
  gasLimit : tx.gasLimit = tx'.gasLimit
  receiver : tx.receiver = tx'.receiver
  value : tx.value = tx'.value
  data : tx.data = tx'.data

variable {tx tx' : TxBlock}

theorem rlpPayload_false (tx : TxBlock) :
    tx.rlpPayload false = tx.rlpHead ++ (rlpData tx.data ++ [0xc0]) := by
  simp only [rlpPayload, rlpHead, Bool.false_eq_true, if_false, List.append_assoc,
    List.cons_append, List.append_nil]

theorem sameMessage_of_append {t t' : Bytes} (ht : t.length ≤ 200) (ht' : t'.length ≤ 200)
    (h : tx.rlpHead ++ (rlpData tx.data ++ t) = tx'.rlpHead ++ (rlpData tx'.data ++ t')) :
    SameMessage tx tx' ∧ t = t' := by
  unfold rlpHead at h
  simp only [List.append_assoc] at h
  obtain ⟨hchain, h⟩ := prefixCode_uint64 _ _ _ _ h
  obtain ⟨hnonce, h⟩ := prefixCode_uint256 _ _ _ _ h
  obtain ⟨hprio, h⟩ := prefixCode_uint256 _ _ _ _ h
  obtain ⟨hfee, h⟩ := prefixCode_uint256 _ _ _ _ h
  obtain ⟨hgas, h⟩ := prefixCode_uint256 _ _ _ _ h
  obtain ⟨hreceiver, h⟩ := List.append_inj h (by simp [FixedStr.size_eq])
  obtain ⟨hvalue, h⟩ := prefixCode_uint256 _ _ _ _ h
  obtain ⟨hdata, h⟩ := rlpData_append_inj ht ht' h
  exact ⟨⟨hchain, hnonce, hprio, hfee, hgas, FixedStr.ext (List.cons.inj hreceiver).2, hvalue,
    hdata⟩, h⟩

theorem sameMessage_of_rlpSerialize (h : tx.rlpSerialize false = tx'.rlpSerialize false) :
    SameMessage tx tx' := by
  rw [rlpSerialize_eq, rlpSerialize_eq] at h
  have hpayload := rlpList_injective (List.cons.inj h).2
  rw [rlpPayload_false, rlpPayload_false] at hpayload
  exact (sameMessage_of_append (by decide) (by decide) hpayload).1

theorem length_rlpSig_le (tx : TxBlock) : (0xc0 :: tx.rlpSig).length ≤ 200 := by
  have hr := bytesRequired_le tx.r
  have hs := bytesRequired_le tx.s
  rw [rlpSig, List.length_cons, List.length_cons, List.length_append, length_rlpSigHalf,
    length_rlpSigHalf]
  omega

theorem same_of_rlpSerialize_true (hv : tx.v ≤ 1) (hv' : tx'.v ≤ 1)
    (h : tx.rlpSerialize true = tx'.rlpSerialize true) :
    SameMessage tx tx' ∧ tx.v = tx'.v ∧ tx.r = tx'.r ∧ tx.s = tx'.s := by
  rw [rlpSerialize_eq, rlpSerialize_eq] at h
  have hpayload := rlpList_injective (List.cons.inj h).2
  rw [rlpPayload_true, rlpPayload_true] at hpayload
  obtain ⟨hmessage, hsig⟩ :=
    sameMessage_of_append tx.length_rlpSig_le tx'.length_rlpSig_le hpayload
  obtain ⟨hvByte, hhalves⟩ := List.cons.inj (List.cons.inj hsig).2
  obtain ⟨hr, hrest⟩ := prefixCode_sigHalf _ _ _ _ hhalves
  have hs : tx.s = tx'.s := by
    have h := prefixCode_sigHalf tx.s tx'.s [] []
    rw [List.append_nil, List.append_nil] at h
    exact (h hrest).1
  refine ⟨hmessage, ?_, hr, hs⟩
  -- The byte `0x80` stands for zero only.
  have hne : ∀ {v : UInt8}, v ≤ 1 → v ≠ 0x80 := by
    rintro v hle rfl
    exact absurd hle (by decide)
  by_cases h0 : tx.v = 0
  · by_cases h0' : tx'.v = 0
    · rw [h0, h0']
    · rw [if_pos h0, if_neg h0'] at hvByte
      exact absurd hvByte.symm (hne hv')
  · by_cases h0' : tx'.v = 0
    · rw [if_neg h0, if_pos h0'] at hvByte
      exact absurd hvByte (hne hv)
    · rwa [if_neg h0, if_neg h0'] at hvByte

end TxBlock

/-! ### Validator transactions -/

namespace TxValidator

variable {tx tx' : TxValidator}

theorem rlpPayload_false (tx : TxValidator) : tx.rlpPayload false =
    rlpData tx.data ++ (rlpUint tx.nHeight.toNat ++ (rlpV tx.chainId.toNat ++ [0x80, 0x80])) := by
  simp only [rlpPayload, vOrChainId, Bool.false_eq_true, if_false, List.append_assoc,
    List.cons_append, List.nil_append]

theorem rlpUintSize_toNat_le (n : UInt64) : rlpUintSize n.toNat ≤ 9 := by
  have h : bytesRequired n.toNat ≤ 8 := BigEndian.length_minimal_le n.toNat_lt
  unfold rlpUintSize
  split <;> omega

theorem same_of_rlpSerialize_false (h : tx.rlpSerialize false = tx'.rlpSerialize false) :
    tx.data = tx'.data ∧ tx.nHeight = tx'.nHeight ∧ tx.chainId = tx'.chainId := by
  have htail : ∀ t : TxValidator, (rlpUint t.nHeight.toNat ++
      (rlpV t.chainId.toNat ++ [0x80, 0x80])).length ≤ 200 := by
    intro t
    have hheight := rlpUintSize_toNat_le t.nHeight
    have hchain := rlpUintSize_toNat_le t.chainId
    simp only [List.length_append, List.length_cons, List.length_nil, length_rlpUint, length_rlpV]
    omega
  rw [rlpSerialize_eq, rlpSerialize_eq] at h
  have hpayload := rlpList_injective h
  rw [rlpPayload_false, rlpPayload_false] at hpayload
  obtain ⟨hdata, hpayload⟩ := rlpData_append_inj (htail tx) (htail tx') hpayload
  obtain ⟨hheight, hpayload⟩ := prefixCode_uint64 _ _ _ _ hpayload
  have hwide : ∀ n : UInt64, n.toNat < 2 ^ 256 := fun n => by
    have := n.toNat_lt
    omega
  obtain ⟨hchain, -⟩ := prefixCode_rlpV ⟨_, hwide tx.chainId⟩ ⟨_, hwide tx'.chainId⟩ _ _ hpayload
  exact ⟨hdata, hheight, UInt64.toNat_inj.mp (Fin.mk.inj hchain)⟩

theorem length_rlpRest_le (tx : TxValidator) : tx.rlpRest.length ≤ 200 := by
  have hheight := rlpUintSize_toNat_le tx.nHeight
  have hr := bytesRequired_le tx.r
  have hs := bytesRequired_le tx.s
  have hv : rlpUintSize tx.v ≤ 33 := by
    have h := bytesRequired_le tx.v
    unfold rlpUintSize
    split <;> omega
  simp only [rlpRest, List.length_append, length_rlpUint, length_rlpV, length_rlpSigHalf]
  omega

theorem same_of_rlpSerialize_true (h : tx.rlpSerialize true = tx'.rlpSerialize true) :
    tx.data = tx'.data ∧ tx.nHeight = tx'.nHeight ∧ tx.v = tx'.v ∧ tx.r = tx'.r ∧
      tx.s = tx'.s := by
  rw [rlpSerialize_eq, rlpSerialize_eq] at h
  have hpayload := rlpList_injective h
  rw [rlpPayload_true, rlpPayload_true] at hpayload
  obtain ⟨hdata, hpayload⟩ :=
    rlpData_append_inj tx.length_rlpRest_le tx'.length_rlpRest_le hpayload
  obtain ⟨hheight, hpayload⟩ := prefixCode_uint64 _ _ _ _ hpayload
  obtain ⟨hv, hpayload⟩ := prefixCode_rlpV _ _ _ _ hpayload
  obtain ⟨hr, hpayload⟩ := prefixCode_sigHalf _ _ _ _ hpayload
  have hs := prefixCode_sigHalf tx.s tx'.s [] []
  rw [List.append_nil, List.append_nil] at hs
  exact ⟨hdata, hheight, hv, hr, (hs hpayload).1⟩

end TxValidator

/-! ### The two kinds of transactions -/

theorem rlpList_of_le {p : Bytes} (h : p.length ≤ 55) :
    rlpList p = UInt8.ofNat (p.length + 0xc0) :: p := by
  rw [rlpList, rlpListHeader, if_pos h]
  rfl

theorem rlpList_of_lt {p : Bytes} (h : 55 < p.length) :
    rlpList p = UInt8.ofNat (bytesRequired p.length + 0xf7) :: (uintToBytes p.length ++ p) := by
  rw [rlpList, rlpListHeader, if_neg (by omega)]
  rfl

/-- If a list behind the byte `0x02` were a list, the two would be so long that the second
    starts with a byte one, at a length of eleven bytes up to multiples of 256. -/
theorem head_of_cons_rlpList {p q : Bytes} {b : UInt8} (h : 0x02 :: rlpList p = rlpList (b :: q)) :
    bytesRequired (b :: q).length % 256 = 11 ∧ b.toNat = 1 := by
  have htwo : (2 : UInt8).toNat = 2 := rfl
  have hcount : ∀ n, (uintToBytes n).length = bytesRequired n := fun _ => rfl
  -- The byte `0x02` is no short list header.
  have hlong : 55 < (b :: q).length := by
    by_contra hshort
    rw [rlpList_of_le (not_lt.mp hshort)] at h
    have hbyte := congrArg UInt8.toNat (List.cons.inj h).1
    rw [toNat_ofNat_of_lt (by omega)] at hbyte
    omega
  rw [rlpList_of_lt hlong] at h
  obtain ⟨hbyte, h⟩ := List.cons.inj h
  have hmod : bytesRequired (b :: q).length % 256 = 11 := by
    have hnat := congrArg UInt8.toNat hbyte
    rw [UInt8.toNat_ofNat'] at hnat
    have : 2 = (bytesRequired (b :: q).length + 0xf7) % 256 := hnat
    omega
  refine ⟨hmod, ?_⟩
  have hlen := congrArg List.length h
  rw [List.length_append, hcount] at hlen
  -- The length of the other list is one less, so it has a long header, too.
  by_cases hp : p.length ≤ 55
  · rw [rlpList_of_le hp, List.length_cons] at hlen
    omega
  · rw [rlpList_of_lt (not_le.mp hp), List.length_cons, List.length_append, hcount] at hlen
    have hk : bytesRequired p.length = bytesRequired (b :: q).length := by
      rcases Nat.lt_or_ge p.length (b :: q).length with hlt | hle
      · have hmono : bytesRequired p.length ≤ bytesRequired (b :: q).length :=
          BigEndian.length_minimal_mono hlt.le
        omega
      · have hmono : bytesRequired (b :: q).length ≤ bytesRequired p.length :=
          BigEndian.length_minimal_mono hle
        omega
    rw [rlpList_of_lt (not_le.mp hp), hk, ← hbyte] at h
    -- Both start with `k + 1` bytes: `0x02` and the one length, the other length and `b`.
    have hsplit : (0x02 :: uintToBytes p.length) ++ p =
        (uintToBytes (b :: q).length ++ [b]) ++ q := by
      rw [List.append_assoc]
      exact h
    obtain ⟨hfront, -⟩ := List.append_inj hsplit (by
      rw [List.length_cons, List.length_append, hcount, hcount, hk, List.length_singleton])
    have hnum := congrArg BigEndian.decode hfront
    have hcons : BigEndian.decode (0x02 :: uintToBytes p.length) =
        2 * 256 ^ bytesRequired p.length + p.length := by
      rw [show (0x02 :: uintToBytes p.length) = [0x02] ++ uintToBytes p.length from rfl,
        BigEndian.decode_append, uintToBytes, BigEndian.decode_minimal]
      rfl
    rw [hcons, BigEndian.decode_append_singleton, uintToBytes, BigEndian.decode_minimal] at hnum
    -- Modulo 255 this leaves `2 = 1 + b`.
    have hpow : 256 ^ bytesRequired p.length % 255 = 1 := by
      rw [Nat.pow_mod]
      simp
    have hb := b.toNat_lt
    omega

/-- **A transaction is no validator transaction.** -/
theorem rlpSerialize_ne (tx : TxBlock) (tx' : TxValidator) (includeSig includeSig' : Bool) :
    tx.rlpSerialize includeSig ≠ tx'.rlpSerialize includeSig' := by
  intro h
  have hrest : ∃ rest, rest.length ≤ 200 ∧
      tx'.rlpPayload includeSig' = rlpData tx'.data ++ rest := by
    cases includeSig' with
    | false =>
      refine ⟨_, ?_, tx'.rlpPayload_false⟩
      have hheight := TxValidator.rlpUintSize_toNat_le tx'.nHeight
      have hchain := TxValidator.rlpUintSize_toNat_le tx'.chainId
      simp only [List.length_append, List.length_cons, List.length_nil, length_rlpUint,
        length_rlpV]
      omega
    | true => exact ⟨_, tx'.length_rlpRest_le, tx'.rlpPayload_true⟩
  obtain ⟨rest, hle, hpayload⟩ := hrest
  rw [TxBlock.rlpSerialize_eq, TxValidator.rlpSerialize_eq, hpayload] at h
  by_cases hd : tx'.data.length ≤ 55
  · rw [rlpData_of_le hd, List.cons_append] at h
    have hb := (head_of_cons_rlpList h).2
    rw [toNat_ofNat_of_lt (by omega)] at hb
    omega
  · rw [rlpData_of_lt (not_le.mp hd), List.cons_append] at h
    obtain ⟨hmod, hb⟩ := head_of_cons_rlpList h
    rw [UInt8.toNat_ofNat'] at hb
    have hb' : (bytesRequired tx'.data.length + 0xb7) % 256 = 1 := hb
    -- The list is little longer than the data.
    have hcount : ∀ n, (uintToBytes n).length = bytesRequired n := fun _ => rfl
    rw [List.length_cons, List.length_append, List.length_append, hcount] at hmod
    have hsucc := bytesRequired_le_succ (show 0 < tx'.data.length by omega)
      (show bytesRequired tx'.data.length + tx'.data.length + rest.length + 1 ≤
        tx'.data.length + bytesRequired tx'.data.length + 300 by omega)
    have hmono : bytesRequired tx'.data.length ≤
        bytesRequired (bytesRequired tx'.data.length + tx'.data.length + rest.length + 1) :=
      BigEndian.length_minimal_mono (by omega)
    omega

/-- **What a signature binds.**  Equal signing payloads of transactions have equal fields, and
    with the signature also equal `v`, `r` and `s`; equal signing payloads of validator
    transactions have equal data, height and chain id; and no payload of one kind is one of
    the other. -/
theorem rlpSerialize_binds :
    (∀ tx tx' : TxBlock, tx.rlpSerialize false = tx'.rlpSerialize false →
      TxBlock.SameMessage tx tx') ∧
    (∀ tx tx' : TxBlock, tx.v ≤ 1 → tx'.v ≤ 1 → tx.rlpSerialize true = tx'.rlpSerialize true →
      TxBlock.SameMessage tx tx' ∧ tx.v = tx'.v ∧ tx.r = tx'.r ∧ tx.s = tx'.s) ∧
    (∀ tx tx' : TxValidator, tx.rlpSerialize false = tx'.rlpSerialize false →
      tx.data = tx'.data ∧ tx.nHeight = tx'.nHeight ∧ tx.chainId = tx'.chainId) ∧
    ∀ (tx : TxBlock) (tx' : TxValidator) (includeSig includeSig' : Bool),
      tx.rlpSerialize includeSig ≠ tx'.rlpSerialize includeSig' :=
  ⟨fun _ _ => TxBlock.sameMessage_of_rlpSerialize, fun _ _ => TxBlock.same_of_rlpSerialize_true,
    fun _ _ => TxValidator.same_of_rlpSerialize_false, rlpSerialize_ne⟩

/-- The transfer with another sender has the same payload. -/
theorem rlpSerialize_binds_transfer :
    TxBlock.SameMessage Recorded.transfer { Recorded.transfer with sender := FixedStr.zero } ∧
      Recorded.transfer.r = ({ Recorded.transfer with sender := FixedStr.zero } : TxBlock).r :=
  ⟨rlpSerialize_binds.1 _ _ rfl, (rlpSerialize_binds.2.1 _ _ (by decide) (by decide) rfl).2.2.1⟩

end OrbiterSdk
