import OrbiterSdk.Core.TxRoundTrip
import OrbiterSdk.Lib.Rlp

namespace OrbiterSdk

/-!
# The headers the encoders write

`rlpSerialize` computes the size of its list before it writes anything, with a case analysis of
its own.  Here both passes are held against the rules of the encoding.

* `TxBlock.rlpItems`, `TxValidator.rlpItems` — the fields as separate items; the payload is
  their concatenation;
* `isItem_rlpUint`, `isItem_rlpV`, `isItem_rlpData`, `isItem_rlpSigHalf` — every field is an
  item: its header announces exactly what follows;
* `isListOf_rlpListHeader` — a size that agrees with the payload makes a list of its items.

The one field without a header of its own is `v` of a block transaction, a byte that has to be
below `0x80`; both constructors let only zero and one through (`TxBlock.Made.v_le`).
-/

open Rlp

/-! ### Fields -/

theorem length_uintToBytes_le (n : Uint256) : (uintToBytes n).length ≤ 55 :=
  (bytesRequired_le n).trans (by decide)

theorem isItem_rlpSigHalf (n : Uint256) : IsItem (rlpSigHalf n) :=
  isItem_short (length_uintToBytes_le n)

theorem isItem_rlpV (n : Uint256) : IsItem (TxValidator.rlpV n) := by
  rw [TxValidator.rlpV]
  split
  · next hbyte =>
    refine isItem_byte ?_
    rw [toNat_ofNat_of_lt (by omega)]
    exact hbyte
  · exact isItem_short (length_uintToBytes_le n)

theorem isItem_rlpUint (n : Uint256) : IsItem (rlpUint n) := by
  rw [rlpUint]
  split
  · exact isItem_empty
  · exact isItem_rlpV n

theorem isItem_rlpUint64 (n : UInt64) : IsItem (rlpUint n.toNat) :=
  isItem_rlpUint ⟨n.toNat, by have := n.toNat_lt; omega⟩

theorem isItem_rlpData {data : Bytes} (h : data.length < 2 ^ 64) : IsItem (rlpData data) := by
  rw [rlpData]
  split
  · exact isItem_empty
  · split
    · next hshort => exact isItem_short hshort
    · exact isItem_long (by omega) h

/-- The header of a list whose size was computed right. -/
theorem isListOf_rlpListHeader {items : List Bytes} {size : Nat}
    (hsize : items.flatten.length = size) (hpos : 0 < size) (hlt : size < 2 ^ 64)
    (hitems : ∀ item ∈ items, IsItem item) :
    IsListOf items (rlpListHeader size ++ items.flatten) := by
  subst hsize
  rw [rlpListHeader]
  split
  · next hshort => exact isListOf_short hitems hshort
  · exact isListOf_long hitems hpos hlt

/-! ### Block transactions -/

namespace TxBlock

variable {C : Crypto} {tx : TxBlock}

/-- A transaction as a constructor leaves it. -/
inductive Made (C : Crypto) : TxBlock → Prop where
  | parsed {bytes : Bytes} {chainId : UInt64} {tx : TxBlock} :
      parse C bytes chainId = .ok tx → Made C tx
  | created {receiver sender : Address} {data : Bytes} {chainId : UInt64}
      {nonce value maxPriorityFeePerGas maxFeePerGas gasLimit : Uint256} {privKey : PrivKey}
      {tx : TxBlock} :
      create C receiver sender data chainId nonce value maxPriorityFeePerGas maxFeePerGas gasLimit
        privKey = .ok tx → Made C tx

/-- Both constructors check the signature, and with it `v`. -/
theorem Made.v_le (h : Made C tx) : tx.v ≤ 1 := by
  cases h with
  | parsed h =>
    rw [parse_eq] at h
    obtain ⟨tx₀, hread, hsend⟩ := Except.bind_eq_ok.mp h
    obtain ⟨-, -, rfl⟩ := recoverSender_eq_ok.mp hsend
    exact (readFields_bounds hread).2.2.1
  | created h => exact (of_decide_eq_true (created_of_create h).1.valid).1

/-- The items of `TxBlock::rlpSerialize` in order. -/
def rlpItems (tx : TxBlock) (includeSig : Bool) : List Bytes :=
  [rlpUint tx.chainId.toNat, rlpUint tx.nonce, rlpUint tx.maxPriorityFeePerGas,
    rlpUint tx.maxFeePerGas, rlpUint tx.gasLimit, 0x94 :: tx.receiver.data, rlpUint tx.value,
    rlpData tx.data, [0xc0]] ++
    if includeSig then [[if tx.v = 0 then 0x80 else tx.v], rlpSigHalf tx.r, rlpSigHalf tx.s]
    else []

theorem flatten_rlpItems (tx : TxBlock) (includeSig : Bool) :
    (tx.rlpItems includeSig).flatten = tx.rlpPayload includeSig := by
  rw [rlpItems, rlpPayload]
  cases includeSig with
  | false => simp
  | true => simp

theorem isItem_of_mem_rlpItems (hv : tx.v ≤ 1) (hdata : tx.data.length < 2 ^ 64)
    (includeSig : Bool) : ∀ item ∈ tx.rlpItems includeSig, IsItem item := by
  have hreceiver : IsItem (0x94 :: tx.receiver.data) := by
    have hle : tx.receiver.data.length ≤ 55 := by
      rw [tx.receiver.size_eq]
      decide
    have hshort := isItem_short hle
    rwa [tx.receiver.size_eq] at hshort
  have hempty : IsItem [0xc0] := ⟨⟨.list, 1, 0⟩, rfl, rfl⟩
  have hbyte : IsItem [if tx.v = 0 then 0x80 else tx.v] := by
    split
    · exact isItem_empty
    · have hle : tx.v.toNat ≤ 1 := hv
      exact isItem_byte (by omega)
  have hhead : ∀ item ∈ [rlpUint tx.chainId.toNat, rlpUint tx.nonce,
      rlpUint tx.maxPriorityFeePerGas, rlpUint tx.maxFeePerGas, rlpUint tx.gasLimit,
      0x94 :: tx.receiver.data, rlpUint tx.value, rlpData tx.data, [0xc0]], IsItem item := by
    simp only [List.forall_mem_cons, List.not_mem_nil, false_implies, implies_true, and_true]
    exact ⟨isItem_rlpUint64 _, isItem_rlpUint _, isItem_rlpUint _, isItem_rlpUint _,
      isItem_rlpUint _, hreceiver, isItem_rlpUint _, isItem_rlpData hdata, hempty⟩
  intro item hmem
  rcases List.mem_append.mp hmem with hmem | hmem
  · exact hhead item hmem
  · cases includeSig with
    | false => cases hmem
    | true =>
      rcases List.mem_cons.mp hmem with rfl | hmem
      · exact hbyte
      · rcases List.mem_cons.mp hmem with rfl | hmem
        · exact isItem_rlpSigHalf _
        · rw [List.mem_singleton.mp hmem]
          exact isItem_rlpSigHalf _

theorem isListOf_rlpSerialize (hv : tx.v ≤ 1) (hdata : tx.data.length < 2 ^ 63)
    (includeSig : Bool) :
    ∃ bs, tx.rlpSerialize includeSig = 0x02 :: bs ∧ IsListOf (tx.rlpItems includeSig) bs := by
  refine ⟨_, rfl, ?_⟩
  have hle := rlpSize_le (show tx.data.length < 2 ^ 64 by omega) includeSig
  have hsize : (tx.rlpItems includeSig).flatten.length = tx.rlpSize includeSig := by
    rw [flatten_rlpItems, length_rlpPayload]
  have hpos : 0 < tx.rlpSize includeSig := by
    rw [rlpSize]
    omega
  rw [← flatten_rlpItems]
  exact isListOf_rlpListHeader hsize hpos (by omega)
    (isItem_of_mem_rlpItems hv (by omega) includeSig)

end TxBlock

/-! ### Validator transactions -/

namespace TxValidator

variable {tx : TxValidator}

/-- The items of `TxValidator::rlpSerialize` in order. -/
def rlpItems (tx : TxValidator) (includeSig : Bool) : List Bytes :=
  [rlpData tx.data, rlpUint tx.nHeight.toNat, rlpV (tx.vOrChainId includeSig),
    if includeSig then rlpSigHalf tx.r else [0x80], if includeSig then rlpSigHalf tx.s else [0x80]]

theorem flatten_rlpItems (tx : TxValidator) (includeSig : Bool) :
    (tx.rlpItems includeSig).flatten = tx.rlpPayload includeSig := by
  rw [rlpItems, rlpPayload]
  simp

theorem isItem_of_mem_rlpItems (hdata : tx.data.length < 2 ^ 64) (includeSig : Bool) :
    ∀ item ∈ tx.rlpItems includeSig, IsItem item := by
  have hhalf : ∀ n : Uint256, IsItem (if includeSig then rlpSigHalf n else [0x80]) := by
    intro n
    split
    · exact isItem_rlpSigHalf n
    · exact isItem_empty
  rw [rlpItems]
  simp only [List.forall_mem_cons, List.not_mem_nil, false_implies, implies_true, and_true]
  exact ⟨isItem_rlpData hdata, isItem_rlpUint64 _,
    isItem_rlpV ⟨tx.vOrChainId includeSig, tx.vOrChainId_lt includeSig⟩, hhalf tx.r, hhalf tx.s⟩

theorem isListOf_rlpSerialize (hdata : tx.data.length < 2 ^ 63) (includeSig : Bool) :
    IsListOf (tx.rlpItems includeSig) (tx.rlpSerialize includeSig) := by
  have hle := rlpSize_le (show tx.data.length < 2 ^ 64 by omega) includeSig
  have hsize : (tx.rlpItems includeSig).flatten.length = tx.rlpSize includeSig := by
    rw [flatten_rlpItems, length_rlpPayload]
  have hpos : 0 < tx.rlpSize includeSig := by
    rw [rlpSize]
    split <;> omega
  rw [rlpSerialize, ← flatten_rlpItems]
  exact isListOf_rlpListHeader hsize hpos (by omega)
    (isItem_of_mem_rlpItems (by omega) includeSig)

end TxValidator

/-- **Headers match payloads**: behind the type byte of a block transaction, and at the start
    of a validator transaction, stands a list header that announces exactly the bytes that
    follow; they split into the items of the transaction, and every item's header announces
    exactly its item.  No `std::string` has `2 ^ 63` bytes. -/
theorem rlpSerialize_headers (C : Crypto) :
    (∀ tx : TxBlock, TxBlock.Made C tx → tx.data.length < 2 ^ 63 → ∀ includeSig : Bool,
      ∃ bs, tx.rlpSerialize includeSig = 0x02 :: bs ∧ IsListOf (tx.rlpItems includeSig) bs) ∧
    ∀ tx : TxValidator, tx.data.length < 2 ^ 63 → ∀ includeSig : Bool,
      IsListOf (tx.rlpItems includeSig) (tx.rlpSerialize includeSig) :=
  ⟨fun _ hmade hdata => TxBlock.isListOf_rlpSerialize hmade.v_le hdata,
    fun _ hdata => TxValidator.isListOf_rlpSerialize hdata⟩

/-- The transfer is a list of its twelve items. -/
theorem rlpSerialize_headers_transfer :
    TxBlock.Made Recorded.crypto Recorded.transfer ∧
      ∃ bs, Recorded.transfer.rlpSerialize true = 0x02 :: bs ∧
        IsListOf (Recorded.transfer.rlpItems true) bs :=
  ⟨.parsed Recorded.parse_transfer, (rlpSerialize_headers Recorded.crypto).1 _
    (.parsed Recorded.parse_transfer) (by decide) true⟩

end OrbiterSdk
