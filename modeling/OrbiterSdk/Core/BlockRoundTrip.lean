import OrbiterSdk.Core.Recorded
import OrbiterSdk.Utils.BlockWalk

namespace OrbiterSdk.Block

/-!
# Encoding and decoding of blocks

`serializeBlock` writes the header, the place where the validator transactions start, and both
lists of transactions behind their lengths; the parser reads all of it again and recomputes the
roots and the randomness.

* `Decoded` — what the parser makes of a byte string;
* `parse_serializeBlock` — a finalized block comes back from its encoding;
* `ExactAreas` — both areas of the input end where they should;
* `serializeBlock_parse_iff` — an accepted byte string is the encoding of its block exactly
  when they do.
-/

variable {C : Crypto}

/-! ### What the parser makes of a byte string -/

/-- `bytes.substr(pos, len)` within the header. -/
def field (bytes : Bytes) (pos len : Nat) : Bytes := (bytes.drop pos).take len

/-- `txValidatorStart`. -/
def startOf (bytes : Bytes) : Nat := BigEndian.decode (field bytes 209 8)

/-- A block whose header is the one in front of `bytes`. -/
structure Headed (bytes : Bytes) (b : Block) : Prop where
  length : 217 ≤ bytes.length
  validatorSig : b.validatorSig.data = field bytes 0 65
  prevBlockHash : b.prevBlockHash.data = field bytes 65 32
  blockRandomness : b.blockRandomness.data = field bytes 97 32
  validatorMerkleRoot : b.validatorMerkleRoot.data = field bytes 129 32
  txMerkleRoot : b.txMerkleRoot.data = field bytes 161 32
  timestamp : BigEndian.fixed 8 b.timestamp.toNat = field bytes 193 8
  nHeight : BigEndian.fixed 8 b.nHeight.toNat = field bytes 201 8

/-- What the parser did when it returned `b`. -/
structure Decoded (C : Crypto) (thrNum : Nat) (bytes : Bytes) (chainId : UInt64) (b : Block) :
    Prop extends Headed bytes b where
  txs : ∃ txCount, countItems bytes (startOf bytes) (bytes.length + 1) 217 = .ok txCount ∧
    readTxs C thrNum bytes chainId txCount = .ok b.txs
  txValidators : ∃ valTxCount,
    countItems bytes bytes.length (bytes.length + 1) (startOf bytes) = .ok valTxCount ∧
      readItems (parseTxValidator C chainId b.nHeight) bytes valTxCount (startOf bytes) =
        .ok b.txValidators
  txRoot_eq : b.txMerkleRoot = txRoot C b.txs
  validatorRoot_eq : b.validatorMerkleRoot = validatorRoot C b.txValidators
  randomness_eq : b.blockRandomness = parseTxSeedList C b.txValidators
  signature : Secp256k1.verifySig (sigR b.validatorSig) (sigS b.validatorSig)
    (sigV b.validatorSig) = true
  validatorPubKey : b.validatorPubKey = Secp256k1.recover C b.validatorSig (b.hash C)
  finalized : b.finalized = true

theorem length_field {bytes : Bytes} {pos len : Nat} (h : pos + len ≤ bytes.length) :
    (field bytes pos len).length = len := by
  rw [field, List.length_take, List.length_drop]
  omega

theorem ofBytes_field {n : Nat} {bytes : Bytes} {pos : Nat} (h : pos + n ≤ bytes.length) :
    (FixedStr.ofBytes (field bytes pos n) : FixedStr n).data = field bytes pos n := by
  show (field bytes pos n ++ List.replicate n 0).take n = _
  exact List.take_left' (length_field h)

theorem fixed_ofNat_decode {bytes : Bytes} {pos : Nat} (h : pos + 8 ≤ bytes.length) :
    BigEndian.fixed 8 (UInt64.ofNat (BigEndian.decode (field bytes pos 8))).toNat =
      field bytes pos 8 := by
  have hlen := length_field h
  have hlt : BigEndian.decode (field bytes pos 8) < 2 ^ 64 := by
    have := BigEndian.decode_lt (field bytes pos 8)
    rwa [hlen] at this
  have hfixed := BigEndian.fixed_decode (field bytes pos 8)
  rw [hlen] at hfixed
  rw [UInt64.toNat_ofNat_of_lt' hlt, hfixed]

theorem uint64_eq_of_fixed {n : UInt64} {bs : Bytes} (h : BigEndian.fixed 8 n.toNat = bs) :
    n = UInt64.ofNat (BigEndian.decode bs) := by
  have hlt : n.toNat < 256 ^ 8 := n.toNat_lt
  rw [← h, BigEndian.decode_fixed, Nat.mod_eq_of_lt hlt, UInt64.ofNat_toNat]

theorem bytesToUint64_field {bytes : Bytes} (h : 217 ≤ bytes.length) :
    bytesToUint64 ((bytes.drop 209).take 8) = .ok (startOf bytes) :=
  if_neg (not_not.mpr (length_field (show 209 + 8 ≤ bytes.length by omega)))

theorem decoded_of_parse {thrNum : Nat} {bytes : Bytes} {chainId : UInt64} {b : Block}
    (h : parse C thrNum bytes chainId = .ok b) : Decoded C thrNum bytes chainId b := by
  obtain ⟨⟨start, txCount, valTxCount, hstart, hcount, hvalCount, htxs, hvals⟩, htxRoot, hvalRoot,
    hrandom, hkey⟩ := parse_steps h
  have hbody : parseBody C thrNum bytes chainId = .ok b := by
    unfold parse at h
    cases hp : parseBody C thrNum bytes chainId with
    | error e => rw [hp] at h; cases h
    | ok b' => rw [hp] at h; exact h
  unfold parseBody at hbody
  obtain ⟨hlen, hbody⟩ := guard_eq_ok.mp hbody
  have hlen : 217 ≤ bytes.length := not_lt.mp hlen
  rw [bytesToUint64_field hlen] at hstart
  cases hstart
  obtain ⟨_, -, hbody⟩ := Except.bind_eq_ok.mp hbody
  obtain ⟨_, -, hbody⟩ := Except.bind_eq_ok.mp hbody
  obtain ⟨_, -, hbody⟩ := Except.bind_eq_ok.mp hbody
  obtain ⟨txs, -, hbody⟩ := Except.bind_eq_ok.mp hbody
  obtain ⟨txValidators, -, hbody⟩ := Except.bind_eq_ok.mp hbody
  obtain ⟨-, hbody⟩ := guard_eq_ok.mp hbody
  obtain ⟨-, hbody⟩ := guard_eq_ok.mp hbody
  obtain ⟨-, hbody⟩ := guard_eq_ok.mp hbody
  obtain ⟨hsig, hbody⟩ := guard_eq_ok.mp hbody
  cases hbody
  exact
    { length := hlen
      validatorSig := ofBytes_field (by omega)
      prevBlockHash := ofBytes_field (by omega)
      blockRandomness := ofBytes_field (by omega)
      validatorMerkleRoot := ofBytes_field (by omega)
      txMerkleRoot := ofBytes_field (by omega)
      timestamp := fixed_ofNat_decode (by omega)
      nHeight := fixed_ofNat_decode (by omega)
      txs := ⟨txCount, hcount, htxs⟩
      txValidators := ⟨valTxCount, hvalCount, hvals⟩
      txRoot_eq := htxRoot
      validatorRoot_eq := hvalRoot
      randomness_eq := hrandom
      signature := by simpa using hsig
      validatorPubKey := hkey
      finalized := rfl }

theorem parse_of_decoded {thrNum : Nat} {bytes : Bytes} {chainId : UInt64} {b : Block}
    (h : Decoded C thrNum bytes chainId b) : parse C thrNum bytes chainId = .ok b := by
  obtain ⟨txCount, hcount, htxs⟩ := h.txs
  obtain ⟨valTxCount, hvalCount, hvals⟩ := h.txValidators
  have hlen := h.length
  -- The fields of the header are determined by their bytes.
  have hsig : (FixedStr.ofBytes (field bytes 0 65) : Signature) = b.validatorSig :=
    FixedStr.ext ((ofBytes_field (by omega)).trans h.validatorSig.symm)
  have hprev : (FixedStr.ofBytes (field bytes 65 32) : Hash) = b.prevBlockHash :=
    FixedStr.ext ((ofBytes_field (by omega)).trans h.prevBlockHash.symm)
  have hrandom : (FixedStr.ofBytes (field bytes 97 32) : Hash) = b.blockRandomness :=
    FixedStr.ext ((ofBytes_field (by omega)).trans h.blockRandomness.symm)
  have hvalRoot : (FixedStr.ofBytes (field bytes 129 32) : Hash) = b.validatorMerkleRoot :=
    FixedStr.ext ((ofBytes_field (by omega)).trans h.validatorMerkleRoot.symm)
  have htxRoot : (FixedStr.ofBytes (field bytes 161 32) : Hash) = b.txMerkleRoot :=
    FixedStr.ext ((ofBytes_field (by omega)).trans h.txMerkleRoot.symm)
  have htime : UInt64.ofNat (BigEndian.decode (field bytes 193 8)) = b.timestamp :=
    (uint64_eq_of_fixed h.timestamp).symm
  have hheight : UInt64.ofNat (BigEndian.decode (field bytes 201 8)) = b.nHeight :=
    (uint64_eq_of_fixed h.nHeight).symm
  have hbody : parseBody C thrNum bytes chainId = .ok b := by
    unfold parseBody
    refine guard_eq_ok.mpr ⟨not_lt.mpr hlen, ?_⟩
    refine Except.bind_eq_ok.mpr ⟨_, liftExn_eq_ok.mpr (bytesToUint64_field hlen), ?_⟩
    refine Except.bind_eq_ok.mpr ⟨_, liftExn_eq_ok.mpr hcount, ?_⟩
    refine Except.bind_eq_ok.mpr ⟨_, liftExn_eq_ok.mpr hvalCount, ?_⟩
    refine Except.bind_eq_ok.mpr ⟨_, htxs, ?_⟩
    refine Except.bind_eq_ok.mpr ⟨b.txValidators, ?_, ?_⟩
    · rw [← hvals, ← hheight]
      rfl
    · refine guard_eq_ok.mpr ⟨not_not.mpr (h.txRoot_eq.symm.trans htxRoot.symm), ?_⟩
      refine guard_eq_ok.mpr ⟨not_not.mpr (h.validatorRoot_eq.symm.trans hvalRoot.symm), ?_⟩
      refine guard_eq_ok.mpr ⟨not_not.mpr (h.randomness_eq.symm.trans hrandom.symm), ?_⟩
      refine guard_eq_ok.mpr ⟨?_, ?_⟩
      · have hvalid := h.signature
        rw [← hsig] at hvalid
        intro hinvalid
        rw [Bool.not_eq_true', ← Bool.not_eq_true] at hinvalid
        exact hinvalid hvalid
      · have hkey := h.validatorPubKey
        have hfinal := h.finalized
        refine congrArg Except.ok ?_
        cases b
        cases hsig; cases hprev; cases hrandom; cases hvalRoot; cases htxRoot; cases htime
        cases hheight; cases hfinal
        congr 1
        exact hkey.symm
  rw [parse, hbody]
  rfl

/-- **The parser returns a block exactly when it decodes to it.** -/
theorem parse_eq_ok_iff {thrNum : Nat} {bytes : Bytes} {chainId : UInt64} {b : Block} :
    parse C thrNum bytes chainId = .ok b ↔ Decoded C thrNum bytes chainId b :=
  ⟨decoded_of_parse, parse_of_decoded⟩

/-! ### The layout of an encoding -/

/-- The parts of the first 217 bytes. -/
def headParts (b : Block) (start : Nat) : List Bytes :=
  [b.validatorSig.data, b.prevBlockHash.data, b.blockRandomness.data, b.validatorMerkleRoot.data,
    b.txMerkleRoot.data, BigEndian.fixed 8 b.timestamp.toNat, BigEndian.fixed 8 b.nHeight.toNat,
    BigEndian.fixed 8 start]

/-- The encodings of the transactions. -/
def txItems (b : Block) : List Bytes := b.txs.map fun tx => tx.rlpSerialize true

/-- The encodings of the validator transactions. -/
def validatorItems (b : Block) : List Bytes := b.txValidators.map fun tx => tx.rlpSerialize true

/-- Where the validator transactions of an encoding start. -/
def validatorsAt (b : Block) : Nat := 217 + (serializeItems b.txItems).length

theorem length_headParts (b : Block) (start : Nat) : (b.headParts start).flatten.length = 217 := by
  simp [headParts, FixedStr.size_eq]

theorem serializeBlock_eq (b : Block) :
    b.serializeBlock = (b.headParts b.validatorsAt).flatten ++
      (serializeItems b.txItems ++ serializeItems b.validatorItems) := by
  have hlen : (b.validatorSig.data ++ b.serializeHeader).length + 8 +
      (serializeItems b.txItems).length = b.validatorsAt := by
    simp [serializeHeader, validatorsAt, FixedStr.size_eq]
  have hstart : (b.validatorSig.data ++ b.serializeHeader).length + 8 +
      (serializeItems (b.txs.map fun tx => tx.rlpSerialize true)).length = b.validatorsAt := hlen
  unfold serializeBlock
  dsimp only
  rw [hstart]
  simp [headParts, serializeHeader, txItems, validatorItems, List.append_assoc]

theorem field_flatten (before after : List Bytes) (part rest : Bytes) :
    field ((before ++ part :: after).flatten ++ rest) before.flatten.length part.length = part := by
  rw [field, List.flatten_append, List.flatten_cons, List.append_assoc, List.append_assoc,
    List.drop_left, List.take_left]

/-- The first 217 bytes written for a block are its header. -/
theorem headed_headParts (b : Block) (start : Nat) (rest : Bytes) :
    Headed ((b.headParts start).flatten ++ rest) b := by
  have hfield : ∀ before part after, b.headParts start = before ++ part :: after →
      ∀ pos len, pos = before.flatten.length → len = part.length →
        part = field ((b.headParts start).flatten ++ rest) pos len := by
    rintro before part after heq pos len rfl rfl
    rw [heq, field_flatten]
  refine ⟨?_, ?_, ?_, ?_, ?_, ?_, ?_, ?_⟩
  · rw [List.length_append, length_headParts]
    omega
  · exact hfield [] _ _ rfl 0 65 rfl b.validatorSig.size_eq.symm
  · exact hfield [_] _ _ rfl 65 32 (by simp [FixedStr.size_eq]) b.prevBlockHash.size_eq.symm
  · exact hfield [_, _] _ _ rfl 97 32 (by simp [FixedStr.size_eq]) b.blockRandomness.size_eq.symm
  · exact hfield [_, _, _] _ _ rfl 129 32 (by simp [FixedStr.size_eq])
      b.validatorMerkleRoot.size_eq.symm
  · exact hfield [_, _, _, _] _ _ rfl 161 32 (by simp [FixedStr.size_eq])
      b.txMerkleRoot.size_eq.symm
  · exact hfield [_, _, _, _, _] _ _ rfl 193 8 (by simp [FixedStr.size_eq]) (by simp)
  · exact hfield [_, _, _, _, _, _] _ _ rfl 201 8 (by simp [FixedStr.size_eq]) (by simp)

theorem startOf_headParts (b : Block) {start : Nat} (h : start < 2 ^ 64) (rest : Bytes) :
    startOf ((b.headParts start).flatten ++ rest) = start := by
  have hlen : ((b.headParts start).take 7).flatten.length = 209 := by
    simp [headParts, FixedStr.size_eq]
  have hfield := field_flatten ((b.headParts start).take 7) [] (BigEndian.fixed 8 start) rest
  rw [hlen, BigEndian.length_fixed] at hfield
  rw [startOf]
  refine (congrArg BigEndian.decode hfield).trans ?_
  rw [BigEndian.decode_fixed]
  exact Nat.mod_eq_of_lt h

theorem Headed.take_eq {bytes : Bytes} {b : Block} (h : Headed bytes b) :
    bytes.take 217 = (b.headParts (startOf bytes)).flatten := by
  have hlen := h.length
  have hstart : BigEndian.fixed 8 (startOf bytes) = field bytes 209 8 := by
    have hfixed := BigEndian.fixed_decode (field bytes 209 8)
    rwa [length_field (by omega)] at hfixed
  rw [headParts, h.validatorSig, h.prevBlockHash, h.blockRandomness, h.validatorMerkleRoot,
    h.txMerkleRoot, h.timestamp, h.nHeight, hstart]
  have hadd : ∀ pos len, bytes.take (pos + len) = bytes.take pos ++ field bytes pos len :=
    fun pos len => List.take_add
  calc bytes.take 217 = bytes.take 0 ++ field bytes 0 65 ++ field bytes 65 32 ++ field bytes 97 32 ++
        field bytes 129 32 ++ field bytes 161 32 ++ field bytes 193 8 ++ field bytes 201 8 ++
        field bytes 209 8 := by
        rw [← hadd, ← hadd, ← hadd, ← hadd, ← hadd, ← hadd, ← hadd, ← hadd]
    _ = _ := by simp [List.append_assoc]

/-! ### The walks over an encoding -/

/-- The encoding with the header, or with everything in front of the validator transactions, split
    off. -/
theorem serializeBlock_eq_validators (b : Block) :
    b.serializeBlock = ((b.headParts b.validatorsAt).flatten ++ serializeItems b.txItems) ++
      (serializeItems b.validatorItems ++ []) := by
  rw [serializeBlock_eq]
  simp [List.append_assoc]

theorem validatorsAt_eq (b : Block) : b.validatorsAt =
    ((b.headParts b.validatorsAt).flatten ++ serializeItems b.txItems).length := by
  rw [List.length_append, length_headParts, validatorsAt]

theorem length_serializeBlock (b : Block) : b.serializeBlock.length =
    b.validatorsAt + (serializeItems b.validatorItems).length := by
  rw [serializeBlock_eq_validators, List.length_append, ← validatorsAt_eq, List.append_nil]

/-- Every length fits in its prefix, and the whole encoding in a string. -/
structure Sized (b : Block) : Prop where
  txs : ∀ bs ∈ b.txItems, bs.length < 2 ^ 32
  txValidators : ∀ bs ∈ b.validatorItems, bs.length < 2 ^ 32
  total : b.serializeBlock.length < 2 ^ 64

/-- The walks over the two areas of an encoding, which end where the areas end. -/
structure Walks (b : Block) (bytes : Bytes) : Prop where
  start : startOf bytes = b.validatorsAt
  count : countItems bytes b.validatorsAt (bytes.length + 1) 217 = .ok b.txItems.length
  skip : skipItems bytes b.txItems.length 217 = .ok b.validatorsAt
  valCount : countItems bytes bytes.length (bytes.length + 1) b.validatorsAt =
    .ok b.validatorItems.length
  valSkip : skipItems bytes b.validatorItems.length b.validatorsAt = .ok bytes.length

theorem walks_serializeBlock {b : Block} (h : Sized b) : Walks b b.serializeBlock := by
  have hlen := length_serializeBlock b
  have hsize := h.total
  have hfew := length_serializeItems_le b.txItems
  have hfew' := length_serializeItems_le b.validatorItems
  have hat : b.validatorsAt = 217 + (serializeItems b.txItems).length := rfl
  -- each walk starts behind a known string
  have hhead := length_headParts b b.validatorsAt
  have hbefore := validatorsAt_eq b
  constructor
  · rw [serializeBlock_eq]
    exact startOf_headParts b (by omega) _
  · have hwalk := countItems_serializeItems h.txs (b.headParts b.validatorsAt).flatten
      (serializeItems b.validatorItems) (show _ < b.serializeBlock.length + 1 by omega)
    rwa [hhead, ← serializeBlock_eq] at hwalk
  · have hwalk := skipItems_serializeItems h.txs (b.headParts b.validatorsAt).flatten
      (serializeItems b.validatorItems)
    rwa [hhead, ← serializeBlock_eq] at hwalk
  · have hwalk := countItems_serializeItems h.txValidators ((b.headParts b.validatorsAt).flatten ++
      serializeItems b.txItems) [] (show _ < b.serializeBlock.length + 1 by omega)
    rwa [← hbefore, ← serializeBlock_eq_validators, ← hlen] at hwalk
  · have hwalk := skipItems_serializeItems h.txValidators ((b.headParts b.validatorsAt).flatten ++
      serializeItems b.txItems) []
    rwa [← hbefore, ← serializeBlock_eq_validators, ← hlen] at hwalk

/-- Transactions that come back from their own encodings are read from that of the block. -/
theorem readItems_txs {b : Block} (h : Sized b) {item : Bytes → Except Fail TxBlock}
    (hitem : ∀ tx ∈ b.txs, item (tx.rlpSerialize true) = .ok tx) :
    readItems item b.serializeBlock b.txItems.length 217 = .ok b.txs := by
  have hwalk := readItems_serializeItems h.txs
    (List.forall₂_map_left_iff.mpr (List.forall₂_same.mpr hitem))
    (b.headParts b.validatorsAt).flatten (serializeItems b.validatorItems)
  rwa [length_headParts, ← serializeBlock_eq] at hwalk

theorem readItems_txValidators {b : Block} (h : Sized b) {item : Bytes → Except Fail TxValidator}
    (hitem : ∀ tx ∈ b.txValidators, item (tx.rlpSerialize true) = .ok tx) :
    readItems item b.serializeBlock b.validatorItems.length b.validatorsAt =
      .ok b.txValidators := by
  have hwalk := readItems_serializeItems h.txValidators
    (List.forall₂_map_left_iff.mpr (List.forall₂_same.mpr hitem))
    ((b.headParts b.validatorsAt).flatten ++ serializeItems b.txItems) []
  rwa [← validatorsAt_eq, ← serializeBlock_eq_validators] at hwalk

/-- Reading the transactions, with however many threads, when one thread reads them. -/
theorem readTxs_of_readItems {thrNum txCount last : Nat} {bytes : Bytes} {chainId : UInt64}
    {txs : List TxBlock} (hskip : skipItems bytes txCount 217 = .ok last)
    (h : readItems (fun bs => TxBlock.parse C bs chainId) bytes txCount 217 = .ok txs) :
    readTxs C thrNum bytes chainId txCount = .ok txs := by
  by_cases hfew : thrNum ≤ 1 ∨ txCount ≤ 2000
  · rw [readTxs, if_pos hfew]
    exact h
  · rw [readTxs_of_many hfew, readTxsThreaded_of_skipItems (by omega) hskip]
    exact h

/-! ### Finalized blocks come back -/

/-- What is assumed of the library that signs: its signature of `msg` is in range, and `recover`
    inverts `sign`. -/
structure Signs (C : Crypto) (key : PrivKey) (msg : Hash) : Prop where
  valid : Secp256k1.verifySig (sigR (Secp256k1.sign C msg key)) (sigS (Secp256k1.sign C msg key))
    (sigV (Secp256k1.sign C msg key)) = true
  recovers : Secp256k1.recover C (Secp256k1.sign C msg key) msg = Secp256k1.toUPub C key

theorem finalize_eq {b b' : Block} {key : PrivKey} {timestamp : UInt64}
    (h : b.finalize C key timestamp = (true, b')) :
    b'.txMerkleRoot = txRoot C b'.txs ∧
      b'.validatorMerkleRoot = validatorRoot C b'.txValidators ∧
      b'.blockRandomness = parseTxSeedList C b'.txValidators ∧
      b'.validatorSig = Secp256k1.sign C (b'.hash C) key ∧
      b'.validatorPubKey = Secp256k1.recover C b'.validatorSig (b'.hash C) ∧
      b'.finalized = true := by
  unfold finalize at h
  split at h
  · cases h
  · split at h
    · cases h
    · cases h
      exact ⟨rfl, rfl, rfl, rfl, rfl, rfl⟩

theorem parse_of_finalize {b b' : Block} {key : PrivKey} {timestamp chainId : UInt64}
    (hfinal : b.finalize C key timestamp = (true, b')) (hsized : Sized b')
    (htxs : ∀ tx ∈ b'.txs, TxBlock.parse C (tx.rlpSerialize true) chainId = .ok tx)
    (hvals : ∀ tx ∈ b'.txValidators, TxValidator.parse C (tx.rlpSerialize true) chainId = .ok tx)
    (hheight : ∀ tx ∈ b'.txValidators, tx.nHeight = b'.nHeight)
    (hsigns : Signs C key (b'.hash C)) (thrNum : Nat) :
    parse C thrNum b'.serializeBlock chainId = .ok b' := by
  obtain ⟨htxRoot, hvalRoot, hrandom, hsig, hkey, hdone⟩ := finalize_eq hfinal
  have hwalks := walks_serializeBlock hsized
  have hheaded : Headed b'.serializeBlock b' := by
    rw [serializeBlock_eq]
    exact headed_headParts b' _ _
  have hval : ∀ tx ∈ b'.txValidators,
      parseTxValidator C chainId b'.nHeight (tx.rlpSerialize true) = .ok tx := by
    intro tx htx
    unfold parseTxValidator
    exact Except.bind_eq_ok.mpr ⟨tx, hvals tx htx,
      guard_eq_ok.mpr ⟨not_not.mpr (hheight tx htx), rfl⟩⟩
  refine parse_eq_ok_iff.mpr { hheaded with
    txs := ⟨_, ?_, readTxs_of_readItems hwalks.skip (readItems_txs hsized htxs)⟩
    txValidators := ⟨b'.validatorItems.length, ?_, ?_⟩
    txRoot_eq := htxRoot
    validatorRoot_eq := hvalRoot
    randomness_eq := hrandom
    signature := ?_
    validatorPubKey := hkey
    finalized := hdone }
  · rw [hwalks.start]
    exact hwalks.count
  · rw [hwalks.start]
    exact hwalks.valCount
  · rw [hwalks.start]
    exact readItems_txValidators hsized hval
  · rw [hsig]
    exact hsigns.valid

/-- **A finalized block comes back from its encoding**: for any numbers of transactions and
    threads, if every transaction comes back from its own encoding, the lengths fit in their
    prefixes, the validator transactions have the block's height and the library signs. -/
theorem parse_serializeBlock {b b' : Block} {key : PrivKey} {timestamp chainId : UInt64}
    (hfinal : b.finalize C key timestamp = (true, b')) (hsized : Sized b')
    (htxs : ∀ tx ∈ b'.txs, TxBlock.parse C (tx.rlpSerialize true) chainId = .ok tx)
    (hvals : ∀ tx ∈ b'.txValidators, TxValidator.parse C (tx.rlpSerialize true) chainId = .ok tx)
    (hheight : ∀ tx ∈ b'.txValidators, tx.nHeight = b'.nHeight)
    (hsigns : Signs C key (b'.hash C)) (thrNum : Nat) :
    parse C thrNum b'.serializeBlock chainId = .ok b' ∧
      b'.validatorPubKey = Secp256k1.toUPub C key := by
  refine ⟨parse_of_finalize hfinal hsized htxs hvals hheight hsigns thrNum, ?_⟩
  obtain ⟨-, -, -, hsig, hkey, -⟩ := finalize_eq hfinal
  rw [hkey, hsig]
  exact hsigns.recovers

section

variable (txs : List TxBlock)

theorem parse_recorded_txValidators : ∀ tx ∈ (Recorded.block txs).txValidators,
    TxValidator.parse Recorded.crypto (tx.rlpSerialize true) 8080 = .ok tx := by
  rw [(Recorded.block_contents txs).2.1]
  exact Recorded.parse_validatorTxs

theorem height_recorded_txValidators : ∀ tx ∈ (Recorded.block txs).txValidators,
    tx.nHeight = (Recorded.block txs).nHeight := by
  rw [(Recorded.block_contents txs).2.1, (Recorded.block_contents txs).2.2]
  decide

variable {txs}

theorem parse_recorded (hsized : Sized (Recorded.block txs))
    (htxs : ∀ tx ∈ txs, TxBlock.parse Recorded.crypto (tx.rlpSerialize true) 8080 = .ok tx)
    (hsigns : Signs Recorded.crypto Recorded.signerKey ((Recorded.block txs).hash Recorded.crypto))
    (thrNum : Nat) :
    parse Recorded.crypto thrNum (Recorded.block txs).serializeBlock 8080 =
      .ok (Recorded.block txs) := by
  refine parse_of_finalize (Recorded.finalize_block txs) hsized ?_
    (parse_recorded_txValidators txs) (height_recorded_txValidators txs) hsigns thrNum
  rwa [(Recorded.block_contents txs).1]

end

/-- Block 1 with a transfer and the transactions of its four participants. -/
def oneTransfer : Block := Recorded.block [Recorded.transfer]

theorem parse_oneTransfer_txs : ∀ tx ∈ oneTransfer.txs,
    TxBlock.parse Recorded.crypto (tx.rlpSerialize true) 8080 = .ok tx := by
  rw [oneTransfer, (Recorded.block_contents _).1]
  exact List.forall_mem_singleton.mpr Recorded.parse_transfer

theorem sized_oneTransfer : Sized oneTransfer :=
  ⟨by decide +kernel, by decide +kernel, by decide +kernel⟩

theorem signs_oneTransfer :
    Signs Recorded.crypto Recorded.signerKey (oneTransfer.hash Recorded.crypto) :=
  ⟨by decide +kernel, by decide +kernel⟩

theorem parse_oneTransfer :
    parse Recorded.crypto 4 oneTransfer.serializeBlock 8080 = .ok oneTransfer :=
  parse_recorded sized_oneTransfer (List.forall_mem_singleton.mpr Recorded.parse_transfer)
    signs_oneTransfer 4

theorem parse_serializeBlock_oneTransfer :
    parse Recorded.crypto 4 oneTransfer.serializeBlock 8080 = .ok oneTransfer ∧
      oneTransfer.validatorPubKey = Secp256k1.toUPub Recorded.crypto Recorded.signerKey :=
  parse_serializeBlock (Recorded.finalize_block _) sized_oneTransfer parse_oneTransfer_txs
    (parse_recorded_txValidators _) (height_recorded_txValidators _) signs_oneTransfer 4

/-! ### Accepted byte strings -/

/-- The strings the transactions of a block are read from. -/
def txSlices (bytes : Bytes) : Except Fail (List Bytes) := do
  let txCount ← liftExn (countItems bytes (startOf bytes) (bytes.length + 1) 217)
  readItems .ok bytes txCount 217

/-- The strings the validator transactions of a block are read from. -/
def validatorSlices (bytes : Bytes) : Except Fail (List Bytes) := do
  let valTxCount ← liftExn (countItems bytes bytes.length (bytes.length + 1) (startOf bytes))
  readItems .ok bytes valTxCount (startOf bytes)

/-- The encodings of the transactions in `bytes` are the ones `rlpSerialize` gives. -/
structure CanonicalItems (C : Crypto) (chainId : UInt64) (bytes : Bytes) : Prop where
  txs : ∀ items, txSlices bytes = .ok items → ∀ bs ∈ items, ∀ tx,
    TxBlock.parse C bs chainId = .ok tx → tx.rlpSerialize true = bs
  txValidators : ∀ items, validatorSlices bytes = .ok items → ∀ bs ∈ items, ∀ tx,
    TxValidator.parse C bs chainId = .ok tx → tx.rlpSerialize true = bs

/-- The transactions end where the validator transactions start, and these end with the string.
    As the walks then stay within the string, no slice is cut. -/
def ExactAreas (bytes : Bytes) : Prop :=
  (∃ txCount, countItems bytes (startOf bytes) (bytes.length + 1) 217 = .ok txCount ∧
      skipItems bytes txCount 217 = .ok (startOf bytes)) ∧
    ∃ valTxCount, countItems bytes bytes.length (bytes.length + 1) (startOf bytes) =
        .ok valTxCount ∧
      skipItems bytes valTxCount (startOf bytes) = .ok bytes.length

theorem slices_eq_map {α : Type} {item : Bytes → Except Fail α} {enc : α → Bytes}
    {items : List Bytes} {xs : List α} (h : List.Forall₂ (fun bs x => item bs = .ok x) items xs)
    (henc : ∀ bs ∈ items, ∀ x, item bs = .ok x → enc x = bs) : items = xs.map enc := by
  induction h with
  | nil => rfl
  | cons hx _ ih =>
    rw [List.map_cons, henc _ (by simp) _ hx, ← ih fun bs hbs => henc bs (by simp [hbs])]

theorem length_slice_lt {bytes : Bytes} {n index : Nat} {items : List Bytes}
    (h : readItems (α := Bytes) .ok bytes n index = .ok items) :
    ∀ bs ∈ items, bs.length < 2 ^ 32 := by
  intro bs hbs
  obtain ⟨bs', hlt, heq⟩ := readItems_ok h bs hbs
  cases heq
  exact hlt

theorem Decoded.slices {thrNum : Nat} {bytes : Bytes} {chainId : UInt64} {b : Block}
    (h : Decoded C thrNum bytes chainId b) (hcanon : CanonicalItems C chainId bytes) :
    (∃ txCount, countItems bytes (startOf bytes) (bytes.length + 1) 217 = .ok txCount ∧
        readItems .ok bytes txCount 217 = .ok b.txItems) ∧
      ∃ valTxCount, countItems bytes bytes.length (bytes.length + 1) (startOf bytes) =
          .ok valTxCount ∧
        readItems .ok bytes valTxCount (startOf bytes) = .ok b.validatorItems := by
  constructor
  · obtain ⟨txCount, hcount, htxs⟩ := h.txs
    obtain ⟨items, hitems, hall⟩ := slices_of_readItems (readTxs_eq_ok htxs)
    have hslices : txSlices bytes = .ok items :=
      Except.bind_eq_ok.mpr ⟨txCount, liftExn_eq_ok.mpr hcount, hitems⟩
    have heq : items = b.txItems := slices_eq_map hall (hcanon.txs items hslices)
    rw [heq] at hitems
    exact ⟨txCount, hcount, hitems⟩
  · obtain ⟨valTxCount, hcount, hvals⟩ := h.txValidators
    obtain ⟨items, hitems, hall⟩ := slices_of_readItems hvals
    have hslices : validatorSlices bytes = .ok items :=
      Except.bind_eq_ok.mpr ⟨valTxCount, liftExn_eq_ok.mpr hcount, hitems⟩
    have heq : items = b.validatorItems := by
      refine slices_eq_map hall fun bs hbs tx htx => ?_
      obtain ⟨tx', htx', hguard⟩ := Except.bind_eq_ok.mp htx
      obtain ⟨-, hguard⟩ := guard_eq_ok.mp hguard
      cases hguard
      exact hcanon.txValidators items hslices bs hbs tx htx'
    rw [heq] at hitems
    exact ⟨valTxCount, hcount, hitems⟩

/-- **When decoding is canonical.**  For an accepted byte string whose transactions have canonical
    encodings of their own, the block is encoded as that string exactly when the transactions
    end at `txValidatorStart` and the validator transactions at the end of the string. -/
theorem serializeBlock_parse_iff {thrNum : Nat} {bytes : Bytes} {chainId : UInt64} {b : Block}
    (hsize : bytes.length < 2 ^ 64) (h : parse C thrNum bytes chainId = .ok b)
    (hcanon : CanonicalItems C chainId bytes) : b.serializeBlock = bytes ↔ ExactAreas bytes := by
  have hdecoded := parse_eq_ok_iff.mp h
  obtain ⟨⟨txCount, hcount, hitems⟩, valTxCount, hvalCount, hvalItems⟩ := hdecoded.slices hcanon
  constructor
  · intro heq
    have hsized : Sized b :=
      ⟨length_slice_lt hitems, length_slice_lt hvalItems, by rwa [heq]⟩
    have hwalks := walks_serializeBlock hsized
    rw [heq] at hwalks
    refine ⟨⟨b.txItems.length, ?_, ?_⟩, b.validatorItems.length, ?_, ?_⟩
    · rw [hwalks.start]
      exact hwalks.count
    · rw [hwalks.start]
      exact hwalks.skip
    · rw [hwalks.start]
      exact hwalks.valCount
    · rw [hwalks.start]
      exact hwalks.valSkip
  · rintro ⟨⟨n, hn, hskip⟩, k, hk, hvalSkip⟩
    rw [hcount] at hn
    rw [hvalCount] at hk
    cases hn
    cases hk
    obtain ⟨hle, hvalDrop⟩ := serializeItems_of_skipItems hvalItems hvalSkip (le_refl _)
    obtain ⟨hle', hdrop⟩ := serializeItems_of_skipItems hitems hskip hle
    -- The start is the one the encoder computes.
    have hstart : startOf bytes = b.validatorsAt := by
      have hlen := congrArg List.length hdrop
      simp only [List.length_append, List.length_drop] at hlen
      rw [validatorsAt]
      omega
    rw [serializeBlock_eq, ← hstart, ← hdecoded.take_eq]
    conv_rhs => rw [← List.take_append_drop 217 bytes, hdrop, hvalDrop, List.drop_length,
      List.append_nil]

/-- Strings read from `bytes` that are the encodings of transactions which come back. -/
theorem canonical_of_slices {bytes : Bytes} {chainId : UInt64} {b : Block}
    (htxs : txSlices bytes = .ok b.txItems) (hvals : validatorSlices bytes = .ok b.validatorItems)
    (hback : ∀ tx ∈ b.txs, TxBlock.parse C (tx.rlpSerialize true) chainId = .ok tx)
    (hvalBack : ∀ tx ∈ b.txValidators,
      TxValidator.parse C (tx.rlpSerialize true) chainId = .ok tx) :
    CanonicalItems C chainId bytes where
  txs := by
    intro items hitems bs hbs tx htx
    rw [htxs] at hitems
    cases hitems
    obtain ⟨tx', hmem, rfl⟩ := List.mem_map.mp hbs
    rw [hback tx' hmem] at htx
    cases htx
    rfl
  txValidators := by
    intro items hitems bs hbs tx htx
    rw [hvals] at hitems
    cases hitems
    obtain ⟨tx', hmem, rfl⟩ := List.mem_map.mp hbs
    rw [hvalBack tx' hmem] at htx
    cases htx
    rfl

theorem serializeBlock_parse_oneTransfer :
    parse Recorded.crypto 4 oneTransfer.serializeBlock 8080 = .ok oneTransfer ∧
      CanonicalItems Recorded.crypto 8080 oneTransfer.serializeBlock ∧
      ExactAreas oneTransfer.serializeBlock := by
  have hcanon : CanonicalItems Recorded.crypto 8080 oneTransfer.serializeBlock :=
    canonical_of_slices (by decide +kernel) (by decide +kernel) parse_oneTransfer_txs
      (parse_recorded_txValidators _)
  exact ⟨parse_oneTransfer, hcanon,
    (serializeBlock_parse_iff (by decide +kernel) parse_oneTransfer hcanon).mp rfl⟩

/-- The encoding of that block with the length of the last validator transaction, 109 bytes,
    raised by one. -/
def overlong : Bytes :=
  oneTransfer.serializeBlock.set (oneTransfer.serializeBlock.length - 110) 110

theorem parse_overlong : parse Recorded.crypto 4 overlong 8080 = .ok oneTransfer := by
  decide +kernel

/-- **A length that is too large is accepted.**  `substr` stops at the end of the string, so the
    last transaction is read as before, and the encoding of the block is a different string. -/
theorem overlong_accepted :
    parse Recorded.crypto 4 overlong 8080 = .ok oneTransfer ∧
      CanonicalItems Recorded.crypto 8080 overlong ∧
      oneTransfer.serializeBlock ≠ overlong := by
  refine ⟨parse_overlong, ?_, by decide +kernel⟩
  exact canonical_of_slices (by decide +kernel) (by decide +kernel) parse_oneTransfer_txs
    (parse_recorded_txValidators _)

/-! ### One transaction -/

/-- **One transaction by its index.**  On every string the parser accepts, `Storage` finds at
    each index the transaction that the parsed block has there, without an exception. -/
theorem getTxFromBlockWithIndex_eq {thrNum : Nat} {bytes : Bytes} {chainId : UInt64} {b : Block}
    (hlen : bytes.length < 2 ^ 32) (hb : parse C thrNum bytes chainId = .ok b) (i : Nat)
    (hi : i < b.txs.length) : getTxFromBlockWithIndex C chainId bytes i = .ok b.txs[i] :=
  getTxFromBlockWithIndex_of_parse hlen hb (List.getElem?_eq_getElem hi)

/-- The transfer, also out of the string with a length that is too large. -/
theorem getTxFromBlockWithIndex_eq_oneTransfer :
    parse Recorded.crypto 4 overlong 8080 = .ok oneTransfer ∧
      getTxFromBlockWithIndex Recorded.crypto 8080 overlong 0 = .ok Recorded.transfer := by
  exact ⟨parse_overlong, getTxFromBlockWithIndex_eq (by decide +kernel) parse_overlong 0
    (by decide)⟩

end OrbiterSdk.Block
