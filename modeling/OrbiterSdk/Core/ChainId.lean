import OrbiterSdk.Core.TxCanonical
import OrbiterSdk.Utils.BlockFormat

namespace OrbiterSdk

/-!
# The required chain id

The three parsers are given a required chain id and never look at it.

* `TxBlock.chainIdOf`, `TxValidator.chainIdOf`, `Block.chainIds` — the chain ids that stand in
  the bytes;
* `chainId_iff` — what is accepted is for the required chain exactly when the bytes say so.
-/

/-- The chain id in the bytes of a transaction: the first field. -/
def TxBlock.chainIdOf (bytes : Bytes) : Except Fail UInt64 := do
  let txData ← liftExn (substrFrom bytes 1)
  let index ← readListHeader txData
  let (chainId, _) ← readUint fromBigEndian64 (some "ChainId is too large") txData index
  return chainId

/-- The chain id in the bytes of a validator transaction: a part of `v`. -/
def TxValidator.chainIdOf (bytes : Bytes) : Except Fail UInt64 :=
  (TxValidator.readFields bytes).map fun f => (TxValidator.ofFields f).chainId

/-- The chain ids in the bytes of a block: those of the transactions and those of the
    validator transactions. -/
def Block.chainIds (bytes : Bytes) : Except Fail (List UInt64) := do
  let start ← liftExn (bytesToUint64 ((bytes.drop 209).take 8))
  let txCount ← liftExn (countItems bytes start (bytes.length + 1) 217)
  let valTxCount ← liftExn (countItems bytes bytes.length (bytes.length + 1) start)
  let txIds ← readItems TxBlock.chainIdOf bytes txCount 217
  let valIds ← readItems TxValidator.chainIdOf bytes valTxCount start
  return txIds ++ valIds

variable {C : Crypto} {bytes : Bytes} {id : UInt64}

theorem TxBlock.chainIdOf_of_parse {tx : TxBlock} (h : TxBlock.parse C bytes id = .ok tx) :
    TxBlock.chainIdOf bytes = .ok tx.chainId := by
  obtain ⟨hread, -⟩ := parse_eq_ok h
  obtain ⟨txData, hdata, hread⟩ := Except.bind_eq_ok.mp hread
  obtain ⟨_, -, hread⟩ := Except.bind_eq_ok.mp hread
  obtain ⟨-, hread⟩ := guard_eq_ok.mp hread
  obtain ⟨⟨head, index⟩, hhead, hread⟩ := Except.bind_eq_ok.mp hread
  obtain ⟨tail, -, hread⟩ := Except.bind_eq_ok.mp hread
  obtain ⟨start, hstart, hhead⟩ := Except.bind_eq_ok.mp hhead
  obtain ⟨⟨chainId, next⟩, hchain, hhead⟩ := Except.bind_eq_ok.mp hhead
  have hsame : head.chainId = chainId := by
    obtain ⟨_, -, hhead⟩ := Except.bind_eq_ok.mp hhead
    obtain ⟨_, -, hhead⟩ := Except.bind_eq_ok.mp hhead
    obtain ⟨_, -, hhead⟩ := Except.bind_eq_ok.mp hhead
    obtain ⟨_, -, hhead⟩ := Except.bind_eq_ok.mp hhead
    obtain ⟨_, -, hhead⟩ := Except.bind_eq_ok.mp hhead
    obtain ⟨-, hhead⟩ := guard_eq_ok.mp hhead
    obtain ⟨_, -, hhead⟩ := Except.bind_eq_ok.mp hhead
    obtain ⟨_, -, hhead⟩ := Except.bind_eq_ok.mp hhead
    cases hhead
    rfl
  have htx : tx.chainId = head.chainId :=
    congrArg TxBlock.chainId (Except.ok.inj hread).symm
  rw [htx, hsame]
  exact Except.bind_eq_ok.mpr ⟨txData, hdata, Except.bind_eq_ok.mpr ⟨start, hstart,
    Except.bind_eq_ok.mpr ⟨_, hchain, rfl⟩⟩⟩

theorem TxValidator.chainIdOf_of_parse {tx : TxValidator}
    (h : TxValidator.parse C bytes id = .ok tx) :
    TxValidator.chainIdOf bytes = .ok tx.chainId := by
  rw [TxValidator.parse_eq] at h
  obtain ⟨f, hread, hsend⟩ := Except.bind_eq_ok.mp h
  obtain ⟨-, -, -, -, rfl⟩ := TxValidator.recoverSender_eq_ok.mp hsend
  exact Except.map_eq_ok.mpr ⟨f, hread, rfl⟩

namespace Block

theorem readItems_map {α β : Type} {item : Bytes → Except Fail α} {item' : Bytes → Except Fail β}
    {g : α → β} (hitem : ∀ bs x, item bs = .ok x → item' bs = .ok (g x)) {n index : Nat}
    {xs : List α} (h : readItems item bytes n index = .ok xs) :
    readItems item' bytes n index = .ok (xs.map g) := by
  induction n generalizing index xs with
  | zero =>
    cases h
    rfl
  | succ n ih =>
    obtain ⟨size, hsize, h⟩ := Except.bind_eq_ok.mp h
    obtain ⟨bs, hbs, h⟩ := Except.bind_eq_ok.mp h
    obtain ⟨x, hx, h⟩ := Except.bind_eq_ok.mp h
    obtain ⟨rest, hrest, h⟩ := Except.bind_eq_ok.mp h
    cases h
    exact Except.bind_eq_ok.mpr ⟨size, hsize, Except.bind_eq_ok.mpr ⟨bs, hbs,
      Except.bind_eq_ok.mpr ⟨g x, hitem bs x hx, Except.bind_eq_ok.mpr ⟨_, ih hrest, rfl⟩⟩⟩⟩

theorem chainIds_of_parse {thrNum : Nat} {b : Block} (h : parse C thrNum bytes id = .ok b) :
    chainIds bytes =
      .ok (b.txs.map TxBlock.chainId ++ b.txValidators.map TxValidator.chainId) := by
  obtain ⟨⟨start, txCount, valTxCount, hstart, hcount, hvalCount, htxs, hvals⟩, -⟩ := parse_steps h
  have htxIds : readItems TxBlock.chainIdOf bytes txCount 217 = .ok (b.txs.map TxBlock.chainId) :=
    readItems_map (fun bs tx htx => TxBlock.chainIdOf_of_parse htx) (readTxs_eq_ok htxs)
  have hvalIds : readItems TxValidator.chainIdOf bytes valTxCount start =
      .ok (b.txValidators.map TxValidator.chainId) := by
    refine readItems_map (fun bs tx htx => ?_) hvals
    obtain ⟨tx', htx', hrest⟩ := Except.bind_eq_ok.mp htx
    obtain ⟨-, hrest⟩ := guard_eq_ok.mp hrest
    cases hrest
    exact TxValidator.chainIdOf_of_parse htx'
  exact Except.bind_eq_ok.mpr ⟨start, liftExn_eq_ok.mpr hstart, Except.bind_eq_ok.mpr
    ⟨txCount, liftExn_eq_ok.mpr hcount, Except.bind_eq_ok.mpr
    ⟨valTxCount, liftExn_eq_ok.mpr hvalCount, Except.bind_eq_ok.mpr
    ⟨_, htxIds, Except.bind_eq_ok.mpr ⟨_, hvalIds, rfl⟩⟩⟩⟩⟩

end Block

/-- **The required chain id.**  A transaction, a validator transaction or a block that is
    accepted is for the required chain exactly when the bytes themselves say so: the parsers
    do not compare. -/
theorem chainId_iff (C : Crypto) (thrNum : Nat) (bytes : Bytes) (id : UInt64) :
    (∀ tx, TxBlock.parse C bytes id = .ok tx →
      (tx.chainId = id ↔ TxBlock.chainIdOf bytes = .ok id)) ∧
    (∀ tx, TxValidator.parse C bytes id = .ok tx →
      (tx.chainId = id ↔ TxValidator.chainIdOf bytes = .ok id)) ∧
    ∀ b, Block.parse C thrNum bytes id = .ok b →
      ((∀ tx ∈ b.txs, tx.chainId = id) ∧ (∀ tx ∈ b.txValidators, tx.chainId = id) ↔
        ∃ ids, Block.chainIds bytes = .ok ids ∧ ∀ c ∈ ids, c = id) := by
  refine ⟨fun tx h => ?_, fun tx h => ?_, fun b h => ?_⟩
  · rw [TxBlock.chainIdOf_of_parse h, Except.ok.injEq]
  · rw [TxValidator.chainIdOf_of_parse h, Except.ok.injEq]
  · rw [Block.chainIds_of_parse h]
    constructor
    · rintro ⟨htxs, hvals⟩
      refine ⟨_, rfl, fun c hc => ?_⟩
      rcases List.mem_append.mp hc with hc | hc
      · obtain ⟨tx, htx, rfl⟩ := List.mem_map.mp hc
        exact htxs tx htx
      · obtain ⟨tx, htx, rfl⟩ := List.mem_map.mp hc
        exact hvals tx htx
    · rintro ⟨ids, hids, hall⟩
      cases hids
      exact ⟨fun tx htx => hall _ (List.mem_append_left _ (List.mem_map_of_mem htx)),
        fun tx htx => hall _ (List.mem_append_right _ (List.mem_map_of_mem htx))⟩

/-- The transfer is for chain 8080. -/
theorem chainId_transfer :
    TxBlock.parse Recorded.crypto (Recorded.transfer.rlpSerialize true) 8080 =
      .ok Recorded.transfer ∧
      TxBlock.chainIdOf (Recorded.transfer.rlpSerialize true) = .ok 8080 :=
  ⟨Recorded.parse_transfer,
    ((chainId_iff Recorded.crypto 4 _ 8080).1 _ Recorded.parse_transfer).mp rfl⟩

/-- A node of chain 1 accepts the transfer, which is for chain 8080. -/
theorem chainId_ignored :
    TxBlock.parse Recorded.crypto (Recorded.transfer.rlpSerialize true) 1 =
      .ok Recorded.transfer ∧ Recorded.transfer.chainId ≠ 1 := by
  decide +kernel

end OrbiterSdk
