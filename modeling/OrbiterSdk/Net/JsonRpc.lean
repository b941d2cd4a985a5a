import OrbiterSdk.Core.State
import OrbiterSdk.Core.StorageCache
import OrbiterSdk.Utils.Hex

namespace OrbiterSdk

/-!
# Answers of the JSON-RPC server

`net/http/jsonrpc/encoding.cpp`: what the server answers to queries for blocks, transactions,
balances and nonces.

* `JsonRpc.quantity`, `JsonRpc.hexData` — numbers and byte strings, both written by
  `Hex::forRPC`;
* `JsonRpc.getBlockJson`, `JsonRpc.minedTxJson`, `JsonRpc.mempoolTxJson` — blocks and
  transactions;
* `JsonRpc.eth_…` — the queries, under the names of the protocol.

`quantities_exact` says that numbers come out right, and `input_faithful_iff` when the data of
a transaction does.

A query may fill the caches of the storage, so it returns the storage as well.
-/

/-- `nlohmann::json`; an object has its fields in the order in which they are assigned. -/
inductive Json where
  | null
  | num (n : Int)
  | str (s : String)
  | arr (elems : List Json)
  | obj (fields : List (String × Json))

/-- `json[key]` of an object that has the field. -/
def Json.field? : Json → String → Option Json
  | .obj fields, key => fields.lookup key
  | _, _ => none

/-- `State::getNativeBalance`. -/
def State.getNativeBalance (s : State) (addr : Address) : Uint256 :=
  match s.accounts.lookup addr with
  | none => 0
  | some acc => acc.balance

/-- `State::getNativeNonce`. -/
def State.getNativeNonce (s : State) (addr : Address) : UInt64 :=
  match s.accounts.lookup addr with
  | none => 0
  | some acc => acc.nonce

/-- `State::getTxFromMempool`. -/
def State.getTxFromMempool (s : State) (txHash : Hash) : Option TxBlock := s.mempool.lookup txHash

namespace JsonRpc

/-! ### Values -/

/-- `Hex::fromBytes(Utils::uintToBytes(n), true).forRPC()`. -/
def quantity (n : Nat) : Json := .str (Hex.fromBytes (uintToBytes n) true).forRPC

/-- `Hex::fromBytes(bytes, true).forRPC()`. -/
def hexData (bytes : Bytes) : Json := .str (Hex.fromBytes bytes true).forRPC

/-- `str.hex(true)`. -/
def hexStr {n : Nat} (str : FixedStr n) : Json := .str (Hex.fromBytes str.data true).get

/-- An answer with a result. -/
def answer (result : Json) : Json := .obj [("jsonrpc", .str "2.0"), ("result", result)]

/-! ### Transactions and blocks -/

variable (C : Crypto)

/-- A transaction of the mempool in the answer of `eth_getTransactionByHash`. -/
def mempoolTxJson (tx : TxBlock) : Json := .obj [
  ("blockHash", .null),
  ("blockIndex", .null),
  ("from", hexStr tx.sender),
  ("gas", quantity tx.gasLimit),
  ("gasPrice", quantity tx.maxFeePerGas),
  ("hash", hexStr (tx.hash C true)),
  ("input", hexData tx.data),
  ("nonce", quantity tx.nonce),
  ("to", hexStr tx.receiver),
  ("transactionIndex", .null),
  ("value", quantity tx.value),
  ("v", quantity tx.v.toNat),
  ("r", quantity tx.r),
  ("s", quantity tx.s)]

/-- A transaction of a block in the answers of the three `eth_getTransactionBy…`. -/
def minedTxJson (tx : TxBlock) (entry : TxEntry) : Json := .obj [
  ("blockHash", hexStr entry.blockHash),
  ("blockNumber", quantity entry.blockHeight.toNat),
  ("from", hexStr tx.sender),
  ("gas", quantity tx.gasLimit),
  ("gasPrice", quantity tx.maxFeePerGas),
  ("hash", hexStr (tx.hash C true)),
  ("input", hexData tx.data),
  ("nonce", quantity tx.nonce),
  ("to", hexStr tx.receiver),
  ("transactionIndex", quantity entry.blockIndex),
  ("value", quantity tx.value),
  ("v", quantity tx.v.toNat),
  ("r", quantity tx.r),
  ("s", quantity tx.s)]

/-- The answer for a transaction the storage was asked for. -/
def entryJson (entry : TxEntry) : Json :=
  match entry.tx with
  | some tx => answer (minedTxJson C tx entry)
  | none => answer .null

/-- A transaction inside a block. -/
def blockTxJson (tx : TxBlock) : Json := .obj [
  ("type", .str "0x0"),
  ("nonce", quantity tx.nonce),
  ("to", hexStr tx.receiver),
  ("gas", quantity tx.gasLimit),
  ("value", quantity tx.value),
  ("input", hexData tx.data),
  ("gasPrice", quantity tx.maxFeePerGas),
  ("chainId", quantity tx.chainId.toNat),
  ("v", quantity tx.v.toNat),
  ("r", quantity tx.r),
  ("s", quantity tx.s)]

/-- The fields of a block. -/
def blockFields (block : Block) (includeTransactions : Bool) : Json := .obj [
  ("hash", hexStr (block.hash C)),
  ("parentHash", hexStr block.prevBlockHash),
  ("sha3Uncles", hexStr (FixedStr.zero : Hash)),
  ("miner", hexStr (Secp256k1.toAddress C block.validatorPubKey)),
  ("stateRoot", hexStr (FixedStr.zero : Hash)),
  ("transactionsRoot", hexStr block.txMerkleRoot),
  ("receiptsRoot", hexStr (FixedStr.zero : Hash)),
  ("logsBloom", hexStr (FixedStr.zero : Hash)),
  ("difficulty", .str "0x1"),
  ("number", quantity block.nHeight.toNat),
  ("gasLimit", quantity (2 ^ 64 - 1)),
  ("gasUsed", quantity 1000000000),
  ("timestamp", quantity block.timestamp.toNat),
  ("extraData", .str "0x0"),
  ("mixHash", hexStr (FixedStr.zero : Hash)),
  ("nonce", .str "0x0"),
  ("totalDifficulty", .str "0x1"),
  ("baseFeePerGas", .str "0x9502f900"),
  ("withdrawRoot", hexStr (FixedStr.zero : Hash)),
  ("size", quantity block.serializeBlock.length),
  ("transactions", .arr (block.txs.map fun tx =>
    if includeTransactions then blockTxJson tx else hexStr (tx.hash C true))),
  ("withdrawls", .arr []),
  ("uncles", .arr [])]

/-- `getBlockJson`.  Nothing in its `try` block throws; the version is a number here. -/
def getBlockJson (block : Option Block) (includeTransactions : Bool) : Json :=
  match block with
  | none => .obj [("jsonrpc", .num 2), ("result", .null)]
  | some block => .obj [("jsonrpc", .num 2), ("result", blockFields C block includeTransactions)]

/-! ### Queries -/

variable (E : Env)

/-- `eth_getBalance`. -/
def eth_getBalance (address : Address) (state : State) : Json :=
  answer (quantity (state.getNativeBalance address))

/-- `eth_getTransactionCount`. -/
def eth_getTransactionCount (address : Address) (state : State) : Json :=
  answer (quantity (state.getNativeNonce address).toNat)

/-- `eth_getBlockByHash`. -/
def eth_getBlockByHash (blockHash : Hash) (includeTransactions : Bool) (s : BlockStorage) :
    Except Fail Json × BlockStorage :=
  (s.getBlock E blockHash).map (Except.map (getBlockJson E.C · includeTransactions)) id

/-- `eth_getBlockByNumber`. -/
def eth_getBlockByNumber (blockNumber : UInt64) (includeTransactions : Bool) (s : BlockStorage) :
    Except Fail Json × BlockStorage :=
  (s.getBlockAt E blockNumber).map (Except.map (getBlockJson E.C · includeTransactions)) id

/-- The number of transactions of a block; after the null result of a missing block the null
    pointer is read nevertheless. -/
def countTxs : Option Block → Except Fail Json
  | none => .error .oob
  | some block => .ok (answer (quantity block.txs.length))

/-- `eth_getBlockTransactionCountByHash`. -/
def eth_getBlockTransactionCountByHash (blockHash : Hash) (s : BlockStorage) :
    Except Fail Json × BlockStorage :=
  (s.getBlock E blockHash).map (· >>= countTxs) id

/-- `eth_getBlockTransactionCountByNumber`. -/
def eth_getBlockTransactionCountByNumber (blockNumber : UInt64) (s : BlockStorage) :
    Except Fail Json × BlockStorage :=
  (s.getBlockAt E blockNumber).map (· >>= countTxs) id

/-- `eth_getTransactionByHash`: the mempool first, then the chain. -/
def eth_getTransactionByHash (txHash : Hash) (s : BlockStorage) (state : State) :
    Except Fail Json × BlockStorage :=
  match state.getTxFromMempool txHash with
  | some tx => (.ok (answer (mempoolTxJson E.C tx)), s)
  | none => (s.getTx E txHash).map (Except.map (entryJson E.C)) id

/-- `eth_getTransactionByBlockHashAndIndex`. -/
def eth_getTransactionByBlockHashAndIndex (blockHash : Hash) (blockIndex : Nat) (s : BlockStorage) :
    Except Fail Json × BlockStorage :=
  (s.getTxByBlockHashAndIndex E blockHash blockIndex).map (Except.map (entryJson E.C)) id

/-- `eth_getTransactionByBlockNumberAndIndex`. -/
def eth_getTransactionByBlockNumberAndIndex (blockNumber : UInt64) (blockIndex : Nat)
    (s : BlockStorage) : Except Fail Json × BlockStorage :=
  (s.getTxByBlockNumberAndIndex E blockNumber blockIndex).map (Except.map (entryJson E.C)) id

/-! ### Numbers -/

/-- The value is the canonical form of the number. -/
def Denotes (json : Json) (n : Nat) : Prop := ∃ text, json = .str text ∧ Hex.IsQuantity n text

/-- The field is the canonical form of the number. -/
def Shows (json : Json) (key : String) (n : Nat) : Prop :=
  ∃ value, json.field? key = some value ∧ Denotes value n

theorem denotes_quantity (n : Nat) : Denotes (quantity n) n := ⟨_, rfl, Hex.isQuantity_forRPC n⟩

theorem shows_of_field {json : Json} {key : String} {n : Nat}
    (h : json.field? key = some (quantity n)) : Shows json key n := ⟨_, h, denotes_quantity n⟩

/-- **Quantities are canonical and exact**: every number below `2 ^ 256` is written in its
    canonical form, so the answers show the balances, nonces, heights, values and fees there
    are. -/
theorem quantities_exact :
    (∀ n : Uint256, Hex.IsQuantity n.val (Hex.fromBytes (uintToBytes n.val) true).forRPC) ∧
      (∀ a state, Shows (eth_getBalance a state) "result" (state.getNativeBalance a).val) ∧
      (∀ a state, Shows (eth_getTransactionCount a state) "result" (state.getNativeNonce a).toNat) ∧
      (∀ C block inc, Shows (blockFields C block inc) "number" block.nHeight.toNat) ∧
      ∀ C tx entry, Shows (minedTxJson C tx entry) "blockNumber" entry.blockHeight.toNat ∧
        Shows (minedTxJson C tx entry) "nonce" tx.nonce.val ∧
        Shows (minedTxJson C tx entry) "value" tx.value.val ∧
        Shows (minedTxJson C tx entry) "gas" tx.gasLimit.val ∧
        Shows (minedTxJson C tx entry) "gasPrice" tx.maxFeePerGas.val := by
  refine ⟨fun n => Hex.isQuantity_forRPC n.val, fun a state => shows_of_field rfl,
    fun a state => shows_of_field rfl, fun C block inc => shows_of_field rfl, ?_⟩
  intro C tx entry
  exact ⟨shows_of_field rfl, shows_of_field rfl, shows_of_field rfl, shows_of_field rfl,
    shows_of_field rfl⟩

/-! ### The data of a transaction -/

/-- The transaction is shown as the object in an answer: of `eth_getTransactionByHash` (from
    the mempool or from the chain), of the queries by place, or inside a block. -/
inductive ShownAs (E : Env) (tx : TxBlock) : Json → Prop
  | mempool {txHash : Hash} {s : BlockStorage} {state : State} {json obj : Json}
      (hfound : state.getTxFromMempool txHash = some tx)
      (hanswer : (eth_getTransactionByHash E txHash s state).1 = .ok json)
      (hobj : json.field? "result" = some obj) : ShownAs E tx obj
  | chain {txHash : Hash} {s : BlockStorage} {state : State} {entry : TxEntry} {json obj : Json}
      (hmempool : state.getTxFromMempool txHash = none)
      (hfound : (s.getTx E txHash).1 = .ok entry) (htx : entry.tx = some tx)
      (hanswer : (eth_getTransactionByHash E txHash s state).1 = .ok json)
      (hobj : json.field? "result" = some obj) : ShownAs E tx obj
  | byHash {blockHash : Hash} {i : Nat} {s : BlockStorage} {entry : TxEntry} {json obj : Json}
      (hfound : (s.getTxByBlockHashAndIndex E blockHash i).1 = .ok entry) (htx : entry.tx = some tx)
      (hanswer : (eth_getTransactionByBlockHashAndIndex E blockHash i s).1 = .ok json)
      (hobj : json.field? "result" = some obj) : ShownAs E tx obj
  | byNumber {blockNumber : UInt64} {i : Nat} {s : BlockStorage} {entry : TxEntry} {json obj : Json}
      (hfound : (s.getTxByBlockNumberAndIndex E blockNumber i).1 = .ok entry)
      (htx : entry.tx = some tx)
      (hanswer : (eth_getTransactionByBlockNumberAndIndex E blockNumber i s).1 = .ok json)
      (hobj : json.field? "result" = some obj) : ShownAs E tx obj
  | block {block : Block} {fields obj : Json} {objs : List Json} {i : Nat}
      (hfields : (getBlockJson E.C (some block) true).field? "result" = some fields)
      (hobjs : fields.field? "transactions" = some (.arr objs))
      (htx : block.txs[i]? = some tx) (hobj : objs[i]? = some obj) : ShownAs E tx obj

theorem field?_entryJson {C : Crypto} {entry : TxEntry} {tx : TxBlock} {obj : Json}
    (htx : entry.tx = some tx) (hobj : (entryJson C entry).field? "result" = some obj) :
    obj.field? "input" = some (hexData tx.data) := by
  rw [entryJson, htx] at hobj
  obtain rfl : minedTxJson C tx entry = obj := Option.some.inj hobj
  rfl

/-- Whichever answer shows a transaction, its data is written by `Hex::forRPC`. -/
theorem ShownAs.field?_input {E : Env} {tx : TxBlock} {obj : Json} (h : ShownAs E tx obj) :
    obj.field? "input" = some (hexData tx.data) := by
  cases h with
  | mempool hfound hanswer hobj =>
    rw [eth_getTransactionByHash, hfound] at hanswer
    cases hanswer
    obtain rfl : mempoolTxJson E.C tx = obj := Option.some.inj hobj
    rfl
  | chain hmempool hfound htx hanswer hobj =>
    rw [eth_getTransactionByHash, hmempool, Prod.map_fst, hfound] at hanswer
    cases hanswer
    exact field?_entryJson htx hobj
  | byHash hfound htx hanswer hobj =>
    rw [eth_getTransactionByBlockHashAndIndex, Prod.map_fst, hfound] at hanswer
    cases hanswer
    exact field?_entryJson htx hobj
  | byNumber hfound htx hanswer hobj =>
    rw [eth_getTransactionByBlockNumberAndIndex, Prod.map_fst, hfound] at hanswer
    cases hanswer
    exact field?_entryJson htx hobj
  | @block block _ _ objs _ hfields hobjs htx hobj =>
    obtain rfl := Option.some.inj hfields
    obtain rfl : block.txs.map blockTxJson = objs := Json.arr.inj (Option.some.inj hobjs)
    rw [List.getElem?_map, htx] at hobj
    cases hobj
    rfl

/-- The `input` field decodes to the data, and is `0x` for none. -/
def Faithful (data : Bytes) (obj : Json) : Prop :=
  ∃ text, obj.field? "input" = some (.str text) ∧ Hex.toBytes text = .ok data ∧
    (data = [] → text = "0x")

/-- **When the data of a transaction is shown faithfully**: exactly when there is some and it
    does not start with a zero byte.  Leading zeros are dropped as if the data were a number,
    and nothing becomes the number zero. -/
theorem input_faithful_iff {E : Env} {tx : TxBlock} {obj : Json} (h : ShownAs E tx obj) :
    Faithful tx.data obj ↔ tx.data ≠ [] ∧ tx.data.head? ≠ some 0 := by
  have hinput := h.field?_input
  constructor
  · rintro ⟨text, htext, hbytes, hempty⟩
    rw [hinput] at htext
    cases htext
    rw [Hex.toBytes_forRPC] at hbytes
    have hdata := Except.ok.inj hbytes
    split at hdata
    · next hnil => exact absurd (hdata.trans hnil) (List.cons_ne_nil _ _)
    · next hne =>
      refine ⟨hne, fun hzero => ?_⟩
      have hstop := List.head?_dropWhile_not (· == (0 : UInt8)) tx.data
      rw [hdata, hzero] at hstop
      simp at hstop
  · rintro ⟨hne, hhead⟩
    refine ⟨_, hinput, ?_, fun hnil => absurd hnil hne⟩
    rw [Hex.toBytes_forRPC, if_neg hne]
    congr 1
    cases hdata : tx.data with
    | nil => exact absurd hdata hne
    | cons b bytes =>
      have hb : b ≠ 0 := by
        rintro rfl
        exact hhead (by rw [hdata]; rfl)
      rw [List.dropWhile_cons, if_neg (by simpa using hb)]

/-- A transaction with the given data, inside a block. -/
def recordedTx (data : Bytes) : TxBlock := { Recorded.transfer with data }

theorem shownAs_recordedTx (data : Bytes) :
    ShownAs BlockStorage.recordedEnv (recordedTx data) (blockTxJson (recordedTx data)) := by
  let block : Block := { Block.new FixedStr.zero 0 1 with txs := [recordedTx data] }
  have htx : block.txs[0]? = some (recordedTx data) := rfl
  exact .block rfl rfl htx rfl

theorem input_faithful_iff_call :
    ShownAs BlockStorage.recordedEnv (recordedTx [0xa9, 0x05])
        (blockTxJson (recordedTx [0xa9, 0x05])) ∧
      Faithful [0xa9, 0x05] (blockTxJson (recordedTx [0xa9, 0x05])) :=
  ⟨shownAs_recordedTx _,
    (input_faithful_iff (shownAs_recordedTx [0xa9, 0x05])).mpr ⟨by decide, by decide⟩⟩

/-- A plain transfer has no data and is shown with a byte of it; of a call that starts with a
    zero byte the first byte is missing. -/
theorem input_unfaithful :
    (ShownAs BlockStorage.recordedEnv (recordedTx []) (blockTxJson (recordedTx [])) ∧
      (blockTxJson (recordedTx [])).field? "input" = some (.str "0x0") ∧
      Hex.toBytes "0x0" = .ok [0]) ∧
    ShownAs BlockStorage.recordedEnv (recordedTx [0, 1]) (blockTxJson (recordedTx [0, 1])) ∧
      (blockTxJson (recordedTx [0, 1])).field? "input" = some (.str "0x1") ∧
      Hex.toBytes "0x1" = .ok [1] := by
  have hempty : (Hex.fromBytes [] true).forRPC = "0x0" := by decide
  have hzero : (Hex.fromBytes [0, 1] true).forRPC = "0x1" := by decide
  refine ⟨⟨shownAs_recordedTx [], ?_, by decide⟩, shownAs_recordedTx [0, 1], ?_, by decide⟩
  · exact congrArg (fun text => some (Json.str text)) hempty
  · exact congrArg (fun text => some (Json.str text)) hzero

end JsonRpc

end OrbiterSdk
