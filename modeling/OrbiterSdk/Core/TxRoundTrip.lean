import OrbiterSdk.Core.Recorded
import OrbiterSdk.Utils.TxParse

namespace OrbiterSdk

/-!
# Transactions survive their encoding

A transaction made by the signing constructor is encoded and parsed again.

* `TxBlock.parse_create_iff` — it comes back unchanged exactly when its nonce and gas limit
  fit 64 bits, its data does not have 55 bytes and the list has more than 55 bytes;
* `TxValidator.parse_signed_iff` — the same for validator transactions, where in addition `v`
  must not wrap and the chain id must not be zero.
-/

/-- The library signs with the key only if it has a public key, serialized with the header
    byte of uncompressed keys. -/
def Crypto.SignsWith (C : Crypto) (key : PrivKey) : Prop :=
  ∀ msg sig, C.ecdsaSignRecoverable msg key = some sig →
    ∃ pub, C.ecPubkeyCreate key = some pub ∧ pub.data.head? = some 0x04

theorem Crypto.signsWith_of_pubkey {C : Crypto} {key : PrivKey}
    (h : ((C.ecPubkeyCreate key).map fun pub => decide (pub.data.head? = some 0x04)) =
      some true) : C.SignsWith key := by
  intro _ _ _
  obtain ⟨pub, hpub, hhead⟩ := Option.map_eq_some_iff.mp h
  exact ⟨pub, hpub, of_decide_eq_true hhead⟩

namespace Secp256k1

theorem makeSig_eq (sig : Signature) : makeSig (sigR sig) (sigS sig) (sigV sig) = sig := by
  refine FixedStr.ext ?_
  have hlen := sig.size_eq
  have hr : BigEndian.fixed 32 (sigR sig) = sig.data.take 32 := by
    have h := BigEndian.fixed_decode (sig.data.take 32)
    rwa [List.length_take, hlen] at h
  have hs : BigEndian.fixed 32 (sigS sig) = (sig.data.drop 32).take 32 := by
    have h := BigEndian.fixed_decode ((sig.data.drop 32).take 32)
    rwa [List.length_take, List.length_drop, hlen] at h
  have hv : [sigV sig] = sig.data.drop 64 := by
    rw [sigV, List.drop_eq_getElem_cons (by omega), List.drop_eq_nil_of_le (by omega),
      List.getD_eq_getElem _ _ (by omega)]
  show BigEndian.fixed 32 (sigR sig) ++ BigEndian.fixed 32 (sigS sig) ++ [sigV sig] = sig.data
  rw [hr, hs, hv, List.append_assoc]
  have hdrop : sig.data.drop 64 = (sig.data.drop 32).drop 32 := by rw [List.drop_drop]
  rw [hdrop, List.take_append_drop, List.take_append_drop]

theorem sigR_lt (sig : Signature) : sigR sig < 2 ^ 256 := by
  refine (BigEndian.decode_lt _).trans_le ?_
  rw [List.length_take, sig.size_eq]
  exact le_rfl

theorem sigS_lt (sig : Signature) : sigS sig < 2 ^ 256 := by
  refine (BigEndian.decode_lt _).trans_le ?_
  rw [List.length_take, List.length_drop, sig.size_eq]
  exact le_rfl

/-- A key that made a valid signature is not the zero key. -/
theorem toUPub_head {C : Crypto} {key : PrivKey} {msg : Hash} (hkey : C.SignsWith key)
    (hsig : verifySig (sigR (sign C msg key)) (sigS (sign C msg key)) (sigV (sign C msg key)) =
      true) : (toUPub C key).data.head? = some 0x04 := by
  cases hsign : C.ecdsaSignRecoverable msg key with
  | none =>
    -- The zero signature is not valid.
    rw [sign, hsign] at hsig
    exact absurd hsig (by decide)
  | some sig =>
    obtain ⟨pub, hpub, hhead⟩ := hkey msg sig hsign
    rw [toUPub, hpub]
    exact hhead

end Secp256k1

theorem toBool_of_head {n : Nat} {key : FixedStr n} (h : key.data.head? = some 0x04) :
    key.toBool = true := by
  rw [FixedStr.toBool, List.any_eq_true]
  exact ⟨0x04, List.mem_of_mem_head? h, by decide⟩

theorem rlpUintSize_le (n : Uint256) : rlpUintSize n ≤ 33 := by
  have h := bytesRequired_le n
  unfold rlpUintSize
  split <;> omega

theorem rlpDataSize_le {data : Bytes} (h : data.length < 2 ^ 64) :
    rlpDataSize data ≤ 9 + data.length := by
  have hsize : bytesRequired data.length ≤ 8 :=
    BigEndian.length_minimal_le (show data.length < 256 ^ 8 by omega)
  unfold rlpDataSize
  split
  · omega
  · split <;> omega

/-! ### Block transactions -/

namespace TxBlock

variable {C : Crypto} {tx : TxBlock}

theorem rlpSize_le (h : tx.data.length < 2 ^ 64) (includeSig : Bool) :
    tx.rlpSize includeSig ≤ tx.data.length + 400 := by
  have hchain : rlpUintSize tx.chainId.toNat ≤ 33 :=
    rlpUintSize_le ⟨tx.chainId.toNat, by have := tx.chainId.toNat_lt; omega⟩
  have hnonce := rlpUintSize_le tx.nonce
  have hprio := rlpUintSize_le tx.maxPriorityFeePerGas
  have hfee := rlpUintSize_le tx.maxFeePerGas
  have hgas := rlpUintSize_le tx.gasLimit
  have hvalue := rlpUintSize_le tx.value
  have hdata := rlpDataSize_le h
  have hr := bytesRequired_le tx.r
  have hs := bytesRequired_le tx.s
  unfold rlpSize
  split <;> omega

theorem rlpSize_lt (h : tx.data.length < 2 ^ 62) (includeSig : Bool) :
    tx.rlpSize includeSig < 2 ^ 63 := by
  have hle := rlpSize_le (show tx.data.length < 2 ^ 64 by omega) includeSig
  omega

/-- What the signing constructor checked. -/
structure Created (C : Crypto) (privKey : PrivKey) (tx : TxBlock) : Prop where
  sender : Secp256k1.toAddress C (Secp256k1.toUPub C privKey) = tx.sender
  recovers : tx.senderKey C = Secp256k1.toUPub C privKey
  valid : Secp256k1.verifySig tx.r tx.s tx.v = true
  head : C.SignsWith privKey → (Secp256k1.toUPub C privKey).data.head? = some 0x04

theorem created_of_create {receiver sender : Address} {data : Bytes} {chainId : UInt64}
    {nonce value maxPriorityFeePerGas maxFeePerGas gasLimit : Uint256} {privKey : PrivKey}
    (h : create C receiver sender data chainId nonce value maxPriorityFeePerGas maxFeePerGas
      gasLimit privKey = .ok tx) :
    Created C privKey tx ∧ tx.receiver = receiver ∧ tx.sender = sender ∧ tx.data = data ∧
      tx.chainId = chainId ∧ tx.nonce = nonce ∧ tx.value = value ∧
      tx.maxPriorityFeePerGas = maxPriorityFeePerGas ∧ tx.maxFeePerGas = maxFeePerGas ∧
      tx.gasLimit = gasLimit := by
  unfold create at h
  dsimp only at h
  split at h
  · cases h
  · rename_i hsender
    split at h
    · cases h
    · rename_i hrecover
      split at h
      · cases h
      · rename_i hvalid
        set sig := Secp256k1.sign C _ privKey with hsig
        rw [Bool.not_eq_true', Bool.not_eq_false] at hvalid
        have hr : (Fin.ofNat (2 ^ 256) (sigR sig)).val = sigR sig :=
          Nat.mod_eq_of_lt (Secp256k1.sigR_lt sig)
        have hs : (Fin.ofNat (2 ^ 256) (sigS sig)).val = sigS sig :=
          Nat.mod_eq_of_lt (Secp256k1.sigS_lt sig)
        cases h
        refine ⟨⟨not_not.mp hsender, ?_, ?_, fun hkey => ?_⟩,
          rfl, rfl, rfl, rfl, rfl, rfl, rfl, rfl, rfl⟩
        · show Secp256k1.recover C (Secp256k1.makeSig (Fin.ofNat (2 ^ 256) (sigR sig)).val
            (Fin.ofNat (2 ^ 256) (sigS sig)).val (sigV sig)) _ = _
          rw [hr, hs, Secp256k1.makeSig_eq]
          exact (not_not.mp hrecover).symm
        · show Secp256k1.verifySig (Fin.ofNat (2 ^ 256) (sigR sig)).val
            (Fin.ofNat (2 ^ 256) (sigS sig)).val (sigV sig) = true
          rw [hr, hs]
          exact hvalid
        · exact Secp256k1.toUPub_head hkey hvalid

/-- **Round trip.**  A transaction made by the signing constructor comes back from its
    encoding exactly when the nonce and the gas limit fit 64 bits, the data does not have 55
    bytes, and the list has more than 55.  No `std::string` has `2 ^ 62` bytes. -/
theorem parse_create_iff {receiver sender : Address} {data : Bytes} {chainId : UInt64}
    {nonce value maxPriorityFeePerGas maxFeePerGas gasLimit : Uint256} {privKey : PrivKey}
    (hkey : C.SignsWith privKey) (hdata : data.length < 2 ^ 62)
    (h : create C receiver sender data chainId nonce value maxPriorityFeePerGas maxFeePerGas
      gasLimit privKey = .ok tx) :
    parse C (tx.rlpSerialize true) tx.chainId = .ok tx ↔
      nonce.val < 2 ^ 64 ∧ gasLimit.val < 2 ^ 64 ∧ data.length ≠ 55 ∧ 55 < tx.rlpSize true := by
  obtain ⟨hcreated, -, -, rfl, -, rfl, -, -, -, rfl⟩ := created_of_create h
  have hlen := rlpSize_lt hdata true
  rw [parse_eq]
  constructor
  · intro hparse
    obtain ⟨tx₀, hread, hsend⟩ := Except.bind_eq_ok.mp hparse
    obtain ⟨-, -, hsame⟩ := recoverSender_eq_ok.mp hsend
    obtain ⟨hnonce, hgas, -, -, -⟩ := readFields_bounds hread
    refine ⟨?_, ?_, fun h55 => ?_, ?_⟩
    · rw [hsame]
      exact hnonce
    · rw [hsame]
      exact hgas
    · have hnil := (readFields_of_short_string h55 hlen hread).1
      rw [hsame] at h55
      have hsub := congrArg List.length hnil
      rw [List.length_nil] at hsub
      exact absurd (hsub.symm.trans h55) (by decide)
    · by_contra hshort
      obtain ⟨e, he⟩ := readFields_of_short (not_lt.mp hshort)
      rw [he] at hread
      cases hread
  · rintro ⟨hnonce, hgas, h55, hlong⟩
    have hv : tx.v ≤ 1 := (of_decide_eq_true hcreated.valid).1
    rw [readFields_rlpSerialize h55 hlong hlen hv, cut_of_lt hnonce hgas]
    refine recoverSender_eq_ok.mpr ⟨hcreated.valid, ?_, ?_⟩
    · show (tx.senderKey C).toBool = true
      rw [hcreated.recovers]
      exact toBool_of_head (hcreated.head hkey)
    · show tx = { tx with sender := Secp256k1.toAddress C (tx.senderKey C) }
      rw [hcreated.recovers, hcreated.sender]

/-- Sign a transaction of the genesis account. -/
def recorded (data : Bytes) : Except Exn TxBlock :=
  create Recorded.crypto Recorded.transfer.receiver contractCreator data 8080 0
    Recorded.transfer.value Recorded.transfer.maxPriorityFeePerGas Recorded.transfer.maxFeePerGas
    Recorded.transfer.gasLimit Recorded.creatorKey

/-- The transfer of the genesis account survives its encoding. -/
theorem parse_create_transfer :
    recorded [] = .ok Recorded.transfer ∧
      parse Recorded.crypto (Recorded.transfer.rlpSerialize true) Recorded.transfer.chainId =
        .ok Recorded.transfer := by
  have hcreate : recorded [] = .ok Recorded.transfer := by decide +kernel
  have hkey : Recorded.crypto.SignsWith Recorded.creatorKey :=
    Crypto.signsWith_of_pubkey (by decide +kernel)
  refine ⟨hcreate, (parse_create_iff hkey (by decide) hcreate).mpr ?_⟩
  exact ⟨by decide, by decide, by decide, by decide +kernel⟩

/-- With 55 bytes of data the transfer is encoded, but not accepted. -/
theorem parse_create_short_string :
    ∃ tx, recorded (List.replicate 55 0) = .ok tx ∧
      parse Recorded.crypto (tx.rlpSerialize true) tx.chainId =
        .error (.exn (.runtimeError "Access list is not empty")) := by
  have hlook : ((recorded (List.replicate 55 0)).toOption.map fun tx =>
      decide (parse Recorded.crypto (tx.rlpSerialize true) tx.chainId =
        .error (.exn (.runtimeError "Access list is not empty")))) = some true := by
    decide +kernel
  obtain ⟨tx, htx, hparse⟩ := Option.map_eq_some_iff.mp hlook
  exact ⟨tx, Except.toOption_eq_some.mp htx, of_decide_eq_true hparse⟩

end TxBlock

/-! ### Validator transactions -/

namespace TxValidator

variable {C : Crypto} {tx : TxValidator}

theorem vOrChainId_lt (tx : TxValidator) (includeSig : Bool) :
    tx.vOrChainId includeSig < 2 ^ 256 := by
  have hchain := tx.chainId.toNat_lt
  unfold vOrChainId
  split
  · exact tx.v.isLt
  · omega

theorem rlpSize_le (h : tx.data.length < 2 ^ 64) (includeSig : Bool) :
    tx.rlpSize includeSig ≤ tx.data.length + 400 := by
  have hheight : rlpUintSize tx.nHeight.toNat ≤ 33 :=
    rlpUintSize_le ⟨tx.nHeight.toNat, by have := tx.nHeight.toNat_lt; omega⟩
  have hv : rlpUintSize (tx.vOrChainId includeSig) ≤ 33 :=
    rlpUintSize_le ⟨tx.vOrChainId includeSig, tx.vOrChainId_lt includeSig⟩
  have hdata := rlpDataSize_le h
  have hr := bytesRequired_le tx.r
  have hs := bytesRequired_le tx.s
  unfold rlpSize
  split <;> omega

theorem rlpSize_lt (h : tx.data.length < 2 ^ 62) : tx.rlpSize true < 2 ^ 63 := by
  have hle := rlpSize_le (show tx.data.length < 2 ^ 64 by omega) true
  omega

/-- The signature of the signing constructor. -/
def signature (C : Crypto) (sender : Address) (data : Bytes) (chainId nHeight : UInt64)
    (privKey : PrivKey) : Signature :=
  Secp256k1.sign C (({ sender, data, chainId, nHeight, v := 0, r := 0, s := 0 } :
    TxValidator).hash C false) privKey

/-- What the signing constructor checked and computed. -/
structure Created (C : Crypto) (privKey : PrivKey) (sig : Signature) (tx : TxValidator) :
    Prop where
  sender : Secp256k1.toAddress C (Secp256k1.toUPub C privKey) = tx.sender
  sig_eq : Secp256k1.makeSig tx.r tx.s (sigV sig) = sig
  recovers : Secp256k1.recover C sig (tx.hash C false) = Secp256k1.toUPub C privKey
  valid : Secp256k1.verifySig tx.r tx.s (sigV sig) = true
  head : C.SignsWith privKey → (Secp256k1.toUPub C privKey).data.head? = some 0x04
  v_eq : tx.v.val = ((sigV sig).toNat + (tx.chainId.toNat * 2 + 35)) % 2 ^ 64

theorem toNat_v (recid : UInt8) (chainId : UInt64) :
    (recid.toUInt64 + (chainId * 2 + 35)).toNat =
      (recid.toNat + (chainId.toNat * 2 + 35)) % 2 ^ 64 := by
  rw [UInt64.toNat_add, UInt64.toNat_add, UInt64.toNat_mul, UInt8.toNat_toUInt64]
  show (recid.toNat + (chainId.toNat * 2 % 2 ^ 64 + 35) % 2 ^ 64) % 2 ^ 64 = _
  omega

theorem created_of_create {sender : Address} {data : Bytes} {chainId nHeight : UInt64}
    {privKey : PrivKey} (h : create C sender data chainId nHeight privKey = .ok tx) :
    Created C privKey (signature C sender data chainId nHeight privKey) tx ∧
      tx.sender = sender ∧ tx.data = data ∧ tx.chainId = chainId ∧ tx.nHeight = nHeight := by
  unfold create at h
  dsimp only at h
  split at h
  · cases h
  · rename_i hsender
    split at h
    · cases h
    · rename_i hvalid
      split at h
      · cases h
      · rename_i hrecover
        set sig := signature C sender data chainId nHeight privKey with hsig
        have hvalid' : Secp256k1.verifySig (sigR sig) (sigS sig) (sigV sig) = true := by
          rwa [Bool.not_eq_true', Bool.not_eq_false] at hvalid
        have hr : (Fin.ofNat (2 ^ 256) (sigR sig)).val = sigR sig :=
          Nat.mod_eq_of_lt (Secp256k1.sigR_lt sig)
        have hs : (Fin.ofNat (2 ^ 256) (sigS sig)).val = sigS sig :=
          Nat.mod_eq_of_lt (Secp256k1.sigS_lt sig)
        have hv := toNat_v (sigV sig) chainId
        cases h
        refine ⟨⟨not_not.mp hsender, ?_, ?_, ?_, fun hkey => ?_, ?_⟩, rfl, rfl, rfl, rfl⟩
        · show Secp256k1.makeSig (Fin.ofNat (2 ^ 256) (sigR sig)).val
            (Fin.ofNat (2 ^ 256) (sigS sig)).val (sigV sig) = sig
          rw [hr, hs, Secp256k1.makeSig_eq]
        · exact (not_not.mp hrecover).symm
        · show Secp256k1.verifySig (Fin.ofNat (2 ^ 256) (sigR sig)).val
            (Fin.ofNat (2 ^ 256) (sigS sig)).val (sigV sig) = true
          rw [hr, hs]
          exact hvalid'
        · exact Secp256k1.toUPub_head hkey hvalid'
        · show (Fin.ofNat (2 ^ 256) ((sigV sig).toUInt64 + (chainId * 2 + 35)).toNat).val = _
          rw [hv]
          exact Nat.mod_eq_of_lt (by omega)

/-- Behind its fields the sender of a signed transaction is recovered: the chain id and the
    recovery id are read off `v`. -/
theorem Created.recoverSender {privKey : PrivKey} {sig : Signature}
    (h : Created C privKey sig tx) (hkey : C.SignsWith privKey) (hne : tx.chainId.toNat ≠ 0)
    (hwrap : (sigV sig).toNat + (tx.chainId.toNat * 2 + 35) < 2 ^ 64) :
    recoverSender C ⟨tx.data, tx.nHeight, tx.v, tx.r, tx.s⟩ = .ok tx := by
  have hrecid : (sigV sig).toNat ≤ 1 := (of_decide_eq_true h.valid).1
  have hchain := tx.chainId.toNat_lt
  have hv := h.v_eq
  rw [Nat.mod_eq_of_lt hwrap] at hv
  have hchainEq : UInt64.ofNat ((tx.v.val - 35) / 2) = tx.chainId := by
    rw [show (tx.v.val - 35) / 2 = tx.chainId.toNat by omega, UInt64.ofNat_toNat]
  have hofFields : ofFields ⟨tx.data, tx.nHeight, tx.v, tx.r, tx.s⟩ =
      { tx with sender := FixedStr.zero } := by
    rw [ofFields, hchainEq]
  have hid : tx.recoveryId = sigV sig := by
    rw [recoveryId, show tx.v.val - (tx.chainId.toNat * 2 + 35) = (sigV sig).toNat by omega,
      UInt8.ofNat_toNat]
  have hkeyEq : tx.senderKey C = Secp256k1.toUPub C privKey := by
    rw [senderKey, hid, h.sig_eq, h.recovers]
  refine recoverSender_eq_ok.mpr ⟨?_, ?_, ?_, ?_, ?_⟩
  · show 36 < tx.v.val
    omega
  · show (tx.v.val - 35) / 2 < 2 ^ 64
    omega
  · rw [hofFields]
    show Secp256k1.verifySig tx.r tx.s tx.recoveryId = true
    rw [hid]
    exact h.valid
  · rw [hofFields]
    show tx.senderKey C ≠ FixedStr.zero
    rw [hkeyEq]
    intro h0
    have hhead := h.head hkey
    rw [h0] at hhead
    exact absurd hhead (by decide)
  · rw [hofFields]
    show tx = { tx with sender := Secp256k1.toAddress C (tx.senderKey C) }
    rw [hkeyEq, h.sender]

/-- A transaction that comes back from its encoding: `v` is large enough and has the chain id
    in it, and the encoding is in the range of the reader. -/
theorem of_parse_rlpSerialize (hdata : tx.data.length < 2 ^ 62)
    (h : parse C (tx.rlpSerialize true) tx.chainId = .ok tx) :
    36 < tx.v.val ∧ tx.chainId.toNat = (tx.v.val - 35) / 2 ∧ tx.data.length ≠ 55 ∧
      55 < tx.rlpSize true := by
  rw [parse_eq] at h
  obtain ⟨f, hread, hsend⟩ := Except.bind_eq_ok.mp h
  obtain ⟨h36, hhigh, -, -, hsame⟩ := recoverSender_eq_ok.mp hsend
  have hfv : f.v = tx.v := by
    rw [hsame]
    rfl
  have hfchain : tx.chainId.toNat = (tx.v.val - 35) / 2 := by
    have h := congrArg (fun t => t.chainId.toNat) hsame
    rw [← hfv]
    exact h.trans ((UInt64.toNat_ofNat' ..).trans (Nat.mod_eq_of_lt hhigh))
  rw [hfv] at h36
  refine ⟨h36, hfchain, fun h55 => ?_, ?_⟩
  · have hnil := readFields_of_short_string h55 (rlpSize_lt hdata) hread
    rw [hsame] at h55
    have hsub := congrArg List.length hnil
    rw [List.length_nil] at hsub
    exact absurd (hsub.symm.trans h55) (by decide)
  · by_contra hshort
    obtain ⟨e, he⟩ := readFields_of_short (not_lt.mp hshort)
    rw [he] at hread
    cases hread

/-- **Round trip.**  A validator transaction made by the signing constructor comes back from
    its encoding exactly when its chain id is not zero, `v` did not wrap, the data does not
    have 55 bytes and the list has more than 55. -/
theorem parse_signed_iff {sender : Address} {data : Bytes} {chainId nHeight : UInt64}
    {privKey : PrivKey} (hkey : C.SignsWith privKey) (hdata : data.length < 2 ^ 62)
    (h : create C sender data chainId nHeight privKey = .ok tx) :
    parse C (tx.rlpSerialize true) tx.chainId = .ok tx ↔
      chainId ≠ 0 ∧
      (sigV (signature C sender data chainId nHeight privKey)).toNat + (chainId.toNat * 2 + 35) <
        2 ^ 64 ∧
      data.length ≠ 55 ∧ 55 < tx.rlpSize true := by
  obtain ⟨hcreated, -, hdataEq, hchainEq, -⟩ := created_of_create h
  generalize signature C sender data chainId nHeight privKey = sig at hcreated ⊢
  subst hdataEq hchainEq
  have hrecid : (sigV sig).toNat ≤ 1 := (of_decide_eq_true hcreated.valid).1
  have hv := hcreated.v_eq
  have hzero : tx.chainId ≠ 0 ↔ tx.chainId.toNat ≠ 0 := by
    rw [ne_eq, ne_eq, ← UInt64.toNat_inj]
    rfl
  rw [hzero]
  constructor
  · intro hparse
    obtain ⟨h36, hchain, h55, hlong⟩ := of_parse_rlpSerialize hdata hparse
    have hlt := tx.chainId.toNat_lt
    exact ⟨by omega, by omega, h55, hlong⟩
  · rintro ⟨hne, hwrap, h55, hlong⟩
    rw [parse_eq, readFields_rlpSerialize h55 hlong (rlpSize_lt hdata)]
    exact hcreated.recoverSender hkey hne hwrap

/-- Sign a transaction of the first participant of block 1. -/
def recorded (data : Bytes) : Except Exn TxValidator :=
  create Recorded.crypto (Secp256k1.toAddress Recorded.crypto
    (Secp256k1.toUPub Recorded.crypto Recorded.participantKey)) data 8080 1 Recorded.participantKey

/-- The first transaction of block 1 survives its encoding. -/
theorem parse_signed_participant :
    ∃ tx, Recorded.validatorTxs.head? = some tx ∧ recorded tx.data = .ok tx ∧
      parse Recorded.crypto (tx.rlpSerialize true) tx.chainId = .ok tx := by
  have hlook : (Recorded.validatorTxs.head?.map fun tx =>
      decide (recorded tx.data = .ok tx ∧ tx.data.length < 2 ^ 62 ∧
        (sigV (signature Recorded.crypto (Secp256k1.toAddress Recorded.crypto
          (Secp256k1.toUPub Recorded.crypto Recorded.participantKey)) tx.data 8080 1
            Recorded.participantKey)).toNat + ((8080 : UInt64).toNat * 2 + 35) < 2 ^ 64 ∧
        tx.data.length ≠ 55 ∧ 55 < tx.rlpSize true)) = some true := by
    decide +kernel
  obtain ⟨tx, htx, hlook⟩ := Option.map_eq_some_iff.mp hlook
  obtain ⟨hcreate, hdata, hwrap, h55, hlong⟩ := of_decide_eq_true hlook
  have hkey : Recorded.crypto.SignsWith Recorded.participantKey :=
    Crypto.signsWith_of_pubkey (by decide +kernel)
  refine ⟨tx, htx, hcreate, (parse_signed_iff hkey hdata hcreate).mpr ?_⟩
  exact ⟨by decide, hwrap, h55, hlong⟩

/-- With 55 bytes of data a transaction of the same participant is encoded, but not
    accepted. -/
theorem parse_signed_short_string :
    ∃ tx, recorded (List.replicate 55 0) = .ok tx ∧
      parse Recorded.crypto (tx.rlpSerialize true) tx.chainId =
        .error (.exn (.runtimeError "R is not a small string")) := by
  have hlook : ((recorded (List.replicate 55 0)).toOption.map fun tx =>
      decide (parse Recorded.crypto (tx.rlpSerialize true) tx.chainId =
        .error (.exn (.runtimeError "R is not a small string")))) = some true := by
    decide +kernel
  obtain ⟨tx, htx, hparse⟩ := Option.map_eq_some_iff.mp hlook
  exact ⟨tx, Except.toOption_eq_some.mp htx, of_decide_eq_true hparse⟩

end TxValidator

end OrbiterSdk
