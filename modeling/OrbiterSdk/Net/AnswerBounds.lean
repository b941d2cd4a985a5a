import OrbiterSdk.Net.Answers

namespace OrbiterSdk.P2P

open Cursor

/-!
# Answers from anywhere

The decoders of the lists on payloads that nobody has encoded.

* `NodeEntry`, `TxEntry` — complete entries;
* `Safe` — a decoder comes to an end, does not read where it must not and returns only if the
  payload consists of complete entries;
* `CutAt` — a node that ends behind its version: the text of the address is empty, and its last
  character is removed;
* `TxOverrunAt` — a transaction whose fields announce more than its size.

Both loops always come to an end, and the loop over nodes returns only at the end of the payload
(`readNode_ends`).  The loop over transactions compares sizes with the whole payload, so an entry
may announce more than is left.
-/

/-- Type, id, version, four or sixteen bytes of address, port. -/
def NodeEntry (entry : Bytes) : Prop :=
  entry[33]? = some 0 ∧ entry.length = 40 ∨ entry[33]? = some 1 ∧ entry.length = 52

/-- A size in four bytes and as many bytes. -/
def TxEntry (entry : Bytes) : Prop :=
  ∃ body : Bytes, body.length < 2 ^ 32 ∧ entry = BigEndian.fixed 4 body.length ++ body

/-- What is asked of a decoder for any payload. -/
structure Safe {α : Type} (entry : Bytes → Prop) (payload : Bytes)
    (result : Option (Except Fail α)) : Prop where
  terminates : result ≠ none
  inside : result ≠ some (.error .oob)
  exact : ∀ x, result = some (.ok x) → Concatenation entry payload

/-- The payload ends where the address of a node should start. -/
def CutAt (payload : Bytes) (i : Nat) : Prop :=
  40 ≤ payload.length ∧ payload.length = i + 34 ∧
    (payload[i + 33]? = some 0 ∨ payload[i + 33]? = some 1)

/-- The bytes a transaction is read from. -/
def txBytes (payload : Bytes) (i : Nat) : Bytes :=
  (payload.drop (i + 4)).take (BigEndian.decode ((payload.drop i).take 4))

/-- The checks of the sizes are passed, and a field overruns. -/
def TxOverrunAt (payload : Bytes) (i : Nat) : Prop :=
  i + 4 ≤ payload.length ∧ BigEndian.decode ((payload.drop i).take 4) ≤ payload.length ∧
    ListOverrun (txBytes payload i) TxValidator.fields

/-! ### Nodes -/

section

variable {fromString : List Char → Except Exn IpAddress} {bs : Bytes} {i j : Nat}

/-- An address is undefined exactly if nothing is left of it. -/
theorem readAddress_eq_oob {separator : Char} {size : Nat} (hsize : 0 < size) :
    readAddress fromString separator size bs i = .error .oob ↔ bs.length = i := by
  unfold readAddress
  rw [bind_eq_oob, or_iff_right liftExn_ne_oob]
  constructor
  · rintro ⟨v, hv, h⟩
    obtain ⟨hle, rfl⟩ := substr_eq_ok.mp (liftExn_eq_ok.mp hv)
    dsimp only at h
    split at h
    · next hnil =>
      have hlen := congrArg List.length (ipText_eq_nil.mp hnil)
      rw [List.length_take, List.length_drop, List.length_nil] at hlen
      omega
    · exact absurd h liftExn_ne_oob
  · rintro rfl
    refine ⟨[], liftExn_eq_ok.mpr (substr_eq_ok.mpr ⟨le_rfl, ?_⟩), rfl⟩
    rw [List.drop_length, List.take_nil]

theorem readAddressAndPort_eq_oob {separator : Char} {size : Nat} (hsize : 0 < size) :
    readAddressAndPort fromString separator size bs i = .error .oob ↔ bs.length = i := by
  refine (bind_eq_oob.trans (or_iff_left ?_)).trans (readAddress_eq_oob hsize)
  rintro ⟨address, -, h⟩
  rcases bind_eq_oob.mp h with h | ⟨v, -, h⟩
  · exact liftExn_ne_oob h
  · rcases bind_eq_oob.mp h with h | ⟨port, -, h⟩
    · exact liftExn_ne_oob h
    · cases h

theorem substr_byte {b : UInt8} (h : bs[i]? = some b) : substr bs i 1 = .ok [b] := by
  obtain ⟨hi, rfl⟩ := List.getElem?_eq_some_iff.mp h
  refine substr_eq_ok.mpr ⟨hi.le, ?_⟩
  rw [List.drop_eq_getElem_cons hi, List.take_succ_cons, List.take_zero]

/-- **A node is read outside exactly if it is cut behind its version.** -/
theorem readNode_eq_oob : readNode fromString bs i = .error .oob ↔ CutAt bs i := by
  unfold readNode
  rw [guard_eq_oob]
  constructor
  · rintro ⟨hsize, h⟩
    -- everything in front of the address throws if it is not there
    obtain ⟨_, -, h⟩ := (bind_eq_oob.mp h).resolve_left liftExn_ne_oob
    obtain ⟨_, -, h⟩ := (bind_eq_oob.mp h).resolve_left liftExn_ne_oob
    obtain ⟨_, -, h⟩ := (bind_eq_oob.mp h).resolve_left liftExn_ne_oob
    obtain ⟨v, hv, h⟩ := (bind_eq_oob.mp h).resolve_left liftExn_ne_oob
    obtain ⟨version, hversion, h⟩ := (bind_eq_oob.mp h).resolve_left liftExn_ne_oob
    have hbyte := getElem?_of_byte (liftExn_eq_ok.mp hv) (liftExn_eq_ok.mp hversion)
    split at h
    · next h0 =>
      rcases bind_eq_oob.mp h with h | ⟨p, -, h⟩
      · rw [readAddressAndPort_eq_oob (by decide)] at h
        exact ⟨by omega, h, Or.inl (by rw [hbyte, h0])⟩
      · cases h
    · split at h
      · next h1 =>
        rcases bind_eq_oob.mp h with h | ⟨p, -, h⟩
        · rw [readAddressAndPort_eq_oob (by decide)] at h
          exact ⟨by omega, h, Or.inr (by rw [hbyte, h1])⟩
        · cases h
      · cases h
  · rintro ⟨hsize, hend, hversion⟩
    refine ⟨by omega, ?_⟩
    obtain ⟨t, ht⟩ : ∃ t, bs[i]? = some t := ⟨_, List.getElem?_eq_getElem (by omega)⟩
    refine bind_eq_oob.mpr (.inr ⟨_, liftExn_eq_ok.mpr (substr_byte ht), ?_⟩)
    refine bind_eq_oob.mpr (.inr ⟨t, rfl, ?_⟩)
    refine bind_eq_oob.mpr (.inr ⟨_, liftExn_eq_ok.mpr (substr_eq_ok.mpr ⟨by omega, rfl⟩), ?_⟩)
    rcases hversion with h0 | h1
    · refine bind_eq_oob.mpr (.inr ⟨_, liftExn_eq_ok.mpr (substr_byte h0), ?_⟩)
      refine bind_eq_oob.mpr (.inr ⟨0, rfl, ?_⟩)
      rw [if_pos rfl]
      exact bind_eq_oob.mpr (.inl ((readAddressAndPort_eq_oob (by decide)).mpr hend))
    · refine bind_eq_oob.mpr (.inr ⟨_, liftExn_eq_ok.mpr (substr_byte h1), ?_⟩)
      refine bind_eq_oob.mpr (.inr ⟨1, rfl, ?_⟩)
      rw [if_neg (by decide), if_pos rfl]
      exact bind_eq_oob.mpr (.inl ((readAddressAndPort_eq_oob (by decide)).mpr hend))

theorem nodeEntry_of_read {e : Hash × Node} (h : readNode fromString bs i = .ok (e, j)) :
    NodeEntry ((bs.drop i).take (j - i)) := by
  obtain ⟨hj, hends⟩ := readNode_ends h
  have hbyte : ∀ n, 33 < n → ((bs.drop i).take n)[33]? = bs[i + 33]? := by
    intro n hn
    rw [List.getElem?_take_of_lt hn, List.getElem?_drop]
  rcases hends with ⟨h0, rfl⟩ | ⟨h1, rfl⟩
  · refine Or.inl ⟨?_, ?_⟩
    · rw [hbyte _ (by omega), h0]
    · rw [List.length_take, List.length_drop]
      omega
  · refine Or.inr ⟨?_, ?_⟩
    · rw [hbyte _ (by omega), h1]
    · rw [List.length_take, List.length_drop]
      omega

theorem path_readNode_le {xs : List (Hash × Node)}
    (h : Path (readNode fromString bs) bs.length i xs j) (hi : i ≤ bs.length) : j ≤ bs.length := by
  induction h with
  | nil i => exact hi
  | cons hlt hread hpath ih => exact ih (readNode_ends hread).1

end

/-! ### Transactions -/

section

variable {C : Crypto} {chainId : UInt64} {bs : Bytes} {i j : Nat}

theorem bytesToUint32_take (h : i + 4 ≤ bs.length) :
    Block.bytesToUint32 ((bs.drop i).take 4) =
      .ok (BigEndian.decode ((bs.drop i).take 4)) := by
  have hlen : ((bs.drop i).take 4).length = 4 := by
    rw [List.length_take, List.length_drop]
    omega
  rw [Block.bytesToUint32, if_neg (not_not.mpr hlen)]

/-- **A transaction is read outside exactly if one of its fields overruns.** -/
theorem readTx_eq_oob : readTx C chainId bs i = .error .oob ↔ TxOverrunAt bs i := by
  unfold readTx
  rw [guard_eq_oob]
  constructor
  · rintro ⟨-, h⟩
    obtain ⟨v, hv, h⟩ := (bind_eq_oob.mp h).resolve_left liftExn_ne_oob
    obtain ⟨size, hsize, h⟩ := (bind_eq_oob.mp h).resolve_left liftExn_ne_oob
    obtain ⟨hle, h⟩ := guard_eq_oob.mp h
    obtain ⟨txData, htx, h⟩ := (bind_eq_oob.mp h).resolve_left liftExn_ne_oob
    obtain ⟨hi, rfl⟩ := substr_eq_ok.mp (liftExn_eq_ok.mp hv)
    obtain ⟨hi4, rfl⟩ := substr_eq_ok.mp (liftExn_eq_ok.mp htx)
    have hsize := liftExn_eq_ok.mp hsize
    rw [bytesToUint32_take hi4, Except.ok.injEq] at hsize
    subst hsize
    rcases bind_eq_oob.mp h with h | ⟨tx, -, h⟩
    · exact ⟨hi4, not_lt.mp hle, TxValidator.parse_eq_oob.mp h⟩
    · cases h
  · rintro ⟨hi, hsize, hoverrun⟩
    refine ⟨by omega, ?_⟩
    have hstart : substr bs i 4 = .ok ((bs.drop i).take 4) :=
      substr_eq_ok.mpr ⟨by omega, rfl⟩
    refine bind_eq_oob.mpr (.inr ⟨_, liftExn_eq_ok.mpr hstart, ?_⟩)
    refine bind_eq_oob.mpr (.inr ⟨_, liftExn_eq_ok.mpr (bytesToUint32_take hi), ?_⟩)
    refine guard_eq_oob.mpr ⟨not_lt.mpr hsize, ?_⟩
    refine bind_eq_oob.mpr (.inr ⟨_, liftExn_eq_ok.mpr (substr_eq_ok.mpr ⟨hi, rfl⟩), ?_⟩)
    exact bind_eq_oob.mpr (.inl (TxValidator.parse_eq_oob.mpr hoverrun))

theorem txEntry_of_read {tx : TxValidator} (h : readTx C chainId bs i = .ok (tx, j))
    (hj : j ≤ bs.length) : TxEntry ((bs.drop i).take (j - i)) := by
  obtain ⟨hi, rfl⟩ := readTx_ends h
  have hlen : ((bs.drop i).take 4).length = 4 := by
    rw [List.length_take, List.length_drop]
    omega
  have hbody : (txBytes bs i).length = BigEndian.decode ((bs.drop i).take 4) := by
    rw [txBytes, List.length_take, List.length_drop]
    omega
  refine ⟨txBytes bs i, ?_, ?_⟩
  · rw [hbody]
    have := BigEndian.decode_lt ((bs.drop i).take 4)
    rw [hlen] at this
    exact this.trans_eq (by norm_num)
  · rw [hbody, Nat.add_assoc, Nat.add_sub_cancel_left, List.take_add, List.drop_drop, txBytes]
    congr 1
    have hfixed := BigEndian.fixed_decode ((bs.drop i).take 4)
    rw [hlen] at hfixed
    exact hfixed.symm

theorem next_of_txEntry {entry : Bytes} {tx : TxValidator} (hat : At bs i entry)
    (hentry : TxEntry entry) (h : readTx C chainId bs i = .ok (tx, j)) : j = i + entry.length := by
  obtain ⟨body, hsize, rfl⟩ := hentry
  obtain ⟨-, rfl⟩ := readTx_ends h
  have hsizeBytes := (at_append.mp hat).1.take
  have hsize : body.length < 256 ^ 4 := hsize.trans_eq (by norm_num)
  rw [BigEndian.length_fixed] at hsizeBytes
  rw [hsizeBytes, BigEndian.decode_fixed, Nat.mod_eq_of_lt hsize, List.length_append,
    BigEndian.length_fixed, Nat.add_assoc]

end

/-! ### The loops -/

/-- The header is checked by throwing. -/
theorem AnswerDecoder.checkHeader_ne_oob (m : Message) (command : CommandType) :
    checkHeader m command ≠ .error .oob := by
  unfold checkHeader
  intro h
  obtain ⟨type, -, h⟩ := (bind_eq_oob.mp h).resolve_left liftExn_ne_oob
  obtain ⟨-, h⟩ := guard_eq_oob.mp h
  obtain ⟨command', -, h⟩ := (bind_eq_oob.mp h).resolve_left liftExn_ne_oob
  split at h
  · cases h
  · cases h

theorem Safe.map_iff {α β : Type} {entry : Bytes → Prop} {payload : Bytes}
    {result : Option (Except Fail α)} (f : α → β) :
    Safe entry payload (result.map (Except.map f)) ↔ Safe entry payload result := by
  match result with
  | none => exact ⟨fun h => absurd rfl h.terminates, fun h => absurd rfl h.terminates⟩
  | some (.error e) =>
    exact ⟨fun h => ⟨by simp, fun he => h.inside (by cases he; rfl), fun x hx => by cases hx⟩,
      fun h => ⟨by simp, fun he => h.inside (by cases he; rfl), fun x hx => by cases hx⟩⟩
  | some (.ok a) =>
    exact ⟨fun h => ⟨by simp, by simp, fun _ _ => h.exact (f a) rfl⟩,
      fun h => ⟨by simp, by simp [Except.map], fun _ _ => h.exact a rfl⟩⟩

/-- **What makes a decoder of entries safe**: behind a right header no path leads over the end
    of the payload or to an entry that is read outside. -/
theorem AnswerDecoder.decodeAll_safe_iff {α : Type} {read : Bytes → Nat → Except Fail (α × Nat)}
    {entry : Bytes → Prop} {m : Message} {command : CommandType} {bad : Nat → Prop}
    (hadv : Advances (read m.message) m.message.length)
    (hbad : ∀ i, read m.message i = .error .oob ↔ bad i) (hlt : ∀ i, bad i → i < m.message.length)
    (hentry : ∀ i x j, read m.message i = .ok (x, j) → j ≤ m.message.length →
      entry ((m.message.drop i).take (j - i)))
    (hexact : ∀ xs j, Path (read m.message) m.message.length 0 xs j →
      Concatenation entry m.message → j ≤ m.message.length) :
    Safe entry m.message (decodeAll m command read) ↔
      (checkHeader m command = .ok () → ∀ xs j, Path (read m.message) m.message.length 0 xs j →
        j ≤ m.message.length ∧ ¬ bad j) := by
  unfold decodeAll
  cases hheader : checkHeader m command with
  | error e =>
    have he : e ≠ .oob := fun he => checkHeader_ne_oob m command (he ▸ hheader)
    refine ⟨fun _ h => (by cases h), fun _ => ⟨by simp, ?_, fun x h => (by cases h)⟩⟩
    intro h
    cases h
    exact he rfl
  | ok u =>
    constructor
    · intro hsafe _ xs j hpath
      constructor
      · by_contra hj
        -- behind the end the loop returns, so the payload would have to be complete
        have hok : readAll (read m.message) m.message.length (m.message.length + 1) 0 =
            some (.ok xs) := hpath.readAll_ok (by omega) hadv (by omega)
        exact hj (hexact xs j hpath (hsafe.exact xs hok))
      · intro hj
        exact hsafe.inside (hpath.readAll_error (hlt j hj) ((hbad j).mpr hj) hadv (by omega))
    · intro h
      have h := h rfl
      refine ⟨readAll_ne_none hadv (by omega), ?_, ?_⟩
      · intro hoob
        obtain ⟨xs, j, hpath, -, hread⟩ := path_of_readAll_error hoob
        exact (h xs j hpath).2 ((hbad j).mp hread)
      · intro xs hok
        obtain ⟨j, hpath, hj⟩ := path_of_readAll hok
        -- the loop ends behind the payload or at its end, and a path does not go behind it
        have hend : j = m.message.length := le_antisymm (h xs j hpath).1 hj
        subst hend
        have := hpath.concatenation le_rfl hadv hentry
        rwa [List.drop_zero, Nat.sub_zero, List.take_length] at this

/-- **When the decoders are safe.**  The list of nodes: unless a node is cut right behind its
    version.  The list of transactions: unless an entry announces more than is left or its
    transaction overruns it.  In both cases the entries in front of it have been read. -/
theorem answers_safe_iff (fromString : List Char → Except Exn IpAddress) (C : Crypto)
    (chainId : UInt64) (m : Message) :
    (Safe NodeEntry m.message (AnswerDecoder.requestNodes fromString m) ↔
      (AnswerDecoder.checkHeader m .requestNodes = .ok () → ∀ nodes j,
        Path (readNode fromString m.message) m.message.length 0 nodes j → ¬ CutAt m.message j)) ∧
    (Safe TxEntry m.message (AnswerDecoder.requestValidatorTxs C chainId m) ↔
      (AnswerDecoder.checkHeader m .requestValidatorTxs = .ok () → ∀ txs j,
        Path (readTx C chainId m.message) m.message.length 0 txs j →
          j ≤ m.message.length ∧ ¬ TxOverrunAt m.message j)) := by
  constructor
  · unfold AnswerDecoder.requestNodes
    rw [Safe.map_iff, AnswerDecoder.decodeAll_safe_iff advances_readNode
      (fun i => readNode_eq_oob) (fun i h => by have := h.2.1; omega)
      (fun i e j h _ => nodeEntry_of_read h)
      (fun nodes j h _ => path_readNode_le h (Nat.zero_le _))]
    -- no node reaches over the end
    refine imp_congr_right fun _ => forall_congr' fun nodes => forall_congr' fun j =>
      imp_congr_right fun hpath => ?_
    exact and_iff_right (path_readNode_le hpath (Nat.zero_le _))
  · refine AnswerDecoder.decodeAll_safe_iff advances_readTx (fun i => readTx_eq_oob)
      (fun i h => by have := h.1; omega) (fun i tx j h hj => txEntry_of_read h hj) ?_
    intro txs j hpath hall
    refine hpath.le_of_concatenation (Nat.zero_le _) (by rwa [List.drop_zero]) ?_
    exact fun i entry tx j hat hentry h => next_of_txEntry hat hentry h

/-- An answer with the given payload. -/
def answer (command : CommandType) (payload : Bytes) (hc : command ≠ .unnamed) : Message :=
  .ofFrame .answering (FixedStr.ofNat 8 7) command payload answering_ne_unnamed hc

/-- A node at 0.0.0.0 and the first 34 bytes of another one. -/
def cutNode : Bytes := List.replicate 74 0

/-- A transaction behind a size that is one too large. -/
def shortTx (tx : TxValidator) : Bytes :=
  BigEndian.fixed 4 ((tx.rlpSerialize true).length + 1) ++ tx.rlpSerialize true

theorem readTx_shortTx : ∀ tx ∈ Recorded.validatorTxs,
    readTx Recorded.crypto 8080 (shortTx tx) 0 = .ok (tx, (shortTx tx).length + 1) := by
  decide +kernel

/-- The last character of an empty address is removed; the first byte of an empty transaction is
    read; a transaction is accepted where a byte is missing. -/
theorem answers_unsafe :
    AnswerDecoder.requestNodes dottedParser (answer .requestNodes cutNode (by decide)) =
        some (.error .oob) ∧
      (∀ C chainId, AnswerDecoder.requestValidatorTxs C chainId
        (answer .requestValidatorTxs [0, 0, 0, 0] (by decide)) = some (.error .oob)) ∧
      ∀ tx ∈ Recorded.validatorTxs, AnswerDecoder.requestValidatorTxs Recorded.crypto 8080
        (answer .requestValidatorTxs (shortTx tx) (by decide)) = some (.ok [tx]) ∧
          ¬ Concatenation TxEntry (shortTx tx) := by
  refine ⟨?_, ?_, ?_⟩
  · have hfirst : readNode dottedParser cutNode 0 = .ok
        ((FixedStr.ofNat 32 0, ⟨.normalNode, .v4 (FixedStr.ofNat 4 0), 0⟩), 40) := by
      decide +kernel
    have hcut : CutAt cutNode 40 := ⟨by decide, by decide, .inl (by decide)⟩
    have hpath : Path (readNode dottedParser cutNode) cutNode.length 0 _ 40 :=
      .cons (by decide) hfirst (.nil 40)
    have hloop : readAll (readNode dottedParser cutNode) cutNode.length (cutNode.length + 1) 0 =
        some (.error .oob) :=
      hpath.readAll_error (by decide) (readNode_eq_oob.mpr hcut) advances_readNode (by decide)
    rw [AnswerDecoder.requestNodes, answer, AnswerDecoder.decodeAll_ofFrame, hloop]
    rfl
  · intro C chainId
    have hoverrun : TxOverrunAt [0, 0, 0, 0] 0 := ⟨by decide, by decide, .inl (.inl (by decide))⟩
    refine (AnswerDecoder.decodeAll_ofFrame ..).trans ?_
    exact (Path.nil 0).readAll_error (by decide) (readTx_eq_oob.mpr hoverrun) advances_readTx
      (by decide)
  · intro tx htx
    have hpath : Path (readTx Recorded.crypto 8080 (shortTx tx)) (shortTx tx).length 0 [tx]
        ((shortTx tx).length + 1) := by
      refine .cons ?_ (readTx_shortTx tx htx) (.nil _)
      simp [shortTx]
    constructor
    · refine (AnswerDecoder.decodeAll_ofFrame ..).trans ?_
      exact hpath.readAll_ok (by omega) advances_readTx (by omega)
    · intro hall
      have hle := hpath.le_of_concatenation (Nat.zero_le _) (by rwa [List.drop_zero])
        fun i entry tx j hat hentry h => next_of_txEntry hat hentry h
      omega

end OrbiterSdk.P2P
