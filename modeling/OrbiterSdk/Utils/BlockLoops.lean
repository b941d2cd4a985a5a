import OrbiterSdk.Lib.Metered
import OrbiterSdk.Utils.BlockWalk

namespace OrbiterSdk

/-!
# The loops of the block parser

`Block::Block(bytes, requiredChainId)` once more, at the level of its machine arithmetic: 64-bit
indices that could wrap, loops that log every turn, and the asyncs with their own loops.

* `countLoop`, `itemLoop`, `skipLoop` — the loops over length-prefixed items;
* `launch` — the asyncs, each started before the offset of the next one is looked for;
* `parseRun` — the constructor.

Every turn reads four bytes at its index and moves it past them, so the bytes behind the index
pay for the turns (`turnsFrom_step`): each loop has at most a quarter as many turns as there are
bytes, and one more that throws.  The indices stay close to the end of the string and never wrap
(`toNat_next`).  So the constructor does what `parse` says, whatever the length prefixes and the
start of the validator transactions are (`runs_parseRun`).
-/

open Metered

namespace Block

/-! ### The machine level -/

/-- The loops of the constructor. -/
inductive ParserLoop where
  | countTxs
  | countValidators
  | readTxs
  /-- The loop of an async. -/
  | thread (i : Nat)
  /-- The loop that looks for the offset of the next async. -/
  | offset (i : Nat)
  | readValidators
deriving DecidableEq

/-- `while (index < stop) { … ++count; }`. -/
def countLoop (loop : ParserLoop) (bytes : Bytes) (stop : UInt64) :
    Nat → UInt64 → Metered ParserLoop Fail Nat
  | 0, _ => unfinished
  | fuel + 1, index =>
    if index < stop then do
      turn loop
      let size ← lift (liftExn (readSize bytes index.toNat))
      let txSize := UInt64.ofNat size
      let step ← add txSize 4
      let next ← add index step
      let count ← countLoop loop bytes stop fuel next
      return count + 1
    else return 0

/-- `for (i = 0; i < n; ++i)` over items that are parsed. -/
def itemLoop {α : Type} (loop : ParserLoop) (item : Bytes → Except Fail α) (bytes : Bytes) :
    Nat → UInt64 → Metered ParserLoop Fail (List α)
  | 0, _ => return []
  | n + 1, index => do
    turn loop
    let size ← lift (liftExn (readSize bytes index.toNat))
    let txSize := UInt64.ofNat size
    let start ← add index 4
    let bs ← lift (liftExn (substr bytes start.toNat txSize.toNat))
    let x ← lift (item bs)
    let next ← add start txSize
    let xs ← itemLoop loop item bytes n next
    return x :: xs

/-- The same over items that are skipped; the result is the offset. -/
def skipLoop (loop : ParserLoop) (bytes : Bytes) : Nat → UInt64 → Metered ParserLoop Fail UInt64
  | 0, off => return off
  | n + 1, off => do
    turn loop
    let size ← lift (liftExn (readSize bytes off.toNat))
    let len := UInt64.ofNat size
    let step ← add len 4
    let next ← add off step
    skipLoop loop bytes n next

/-- The asyncs from number `i` on; the last one needs no next offset. -/
def launch {α : Type} (item : Bytes → Except Fail α) (bytes : Bytes) :
    Nat → List Nat → UInt64 → Metered ParserLoop Fail (List (Except (Stop Fail) (List α)))
  | _, [], _ => return []
  | i, [n], off => do
    let f ← spawn (itemLoop (.thread i) item bytes n off)
    return [f]
  | i, n :: ns, off => do
    let f ← spawn (itemLoop (.thread i) item bytes n off)
    let next ← skipLoop (.offset i) bytes n off
    let fs ← launch item bytes (i + 1) ns next
    return f :: fs

/-- The results of the asyncs, one after the other. -/
def gather {α : Type} :
    List (Except (Stop Fail) (List α)) → Metered ParserLoop Fail (List α)
  | [] => return []
  | f :: fs => do
    let xs ← Metered.get f
    let rest ← gather fs
    return xs ++ rest

/-- The block transactions, on one thread or on many. -/
def readTxsRun (C : Crypto) (thrNum : Nat) (bytes : Bytes) (chainId : UInt64) (txCount : Nat) :
    Metered ParserLoop Fail (List TxBlock) :=
  if thrNum ≤ 1 ∨ txCount ≤ 2000 then
    itemLoop .readTxs (fun bs => TxBlock.parse C bs chainId) bytes txCount 217
  else do
    let futures ← launch (fun bs => TxBlock.parse C bs chainId) bytes 0
      (List.replicate (thrNum - 1) (txCount / thrNum) ++ [txCount / thrNum + txCount % thrNum]) 217
    gather futures

/-- The check in front of everything else. -/
def longEnough (bytes : Bytes) : Except Fail Unit :=
  if bytes.length < 217 then raise "Invalid block size - too short" else .ok ()

/-- What follows the loops: the roots, the randomness and the signature. -/
def checked (C : Crypto) (bytes : Bytes) (txs : List TxBlock) (txValidators : List TxValidator) :
    Except Fail Block := do
  let field (pos len : Nat) : Bytes := (bytes.drop pos).take len
  let b : Block :=
    { validatorSig := FixedStr.ofBytes (field 0 65)
      prevBlockHash := FixedStr.ofBytes (field 65 32)
      blockRandomness := FixedStr.ofBytes (field 97 32)
      validatorMerkleRoot := FixedStr.ofBytes (field 129 32)
      txMerkleRoot := FixedStr.ofBytes (field 161 32)
      timestamp := UInt64.ofNat (BigEndian.decode (field 193 8))
      nHeight := UInt64.ofNat (BigEndian.decode (field 201 8))
      txValidators, txs, validatorPubKey := FixedStr.zero, finalized := false }
  if txRoot C txs ≠ b.txMerkleRoot then raise "Invalid tx merkle root"
  if validatorRoot C txValidators ≠ b.validatorMerkleRoot then
    raise "Invalid validator merkle root"
  if parseTxSeedList C txValidators ≠ b.blockRandomness then raise "Invalid block randomness"
  if !Secp256k1.verifySig (sigR b.validatorSig) (sigS b.validatorSig) (sigV b.validatorSig) then
    raise "Invalid validator signature"
  return { b with
    validatorPubKey := Secp256k1.recover C b.validatorSig (b.hash C), finalized := true }

/-- The `try` block of the constructor, with fuel for its two `while` loops. -/
def bodyRun (C : Crypto) (thrNum : Nat) (bytes : Bytes) (chainId : UInt64) (fuel : Nat) :
    Metered ParserLoop Fail Block := do
  lift (longEnough bytes)
  let nHeight := UInt64.ofNat (BigEndian.decode ((bytes.drop 201).take 8))
  let start ← lift (liftExn (bytesToUint64 ((bytes.drop 209).take 8)))
  let txValidatorStart := UInt64.ofNat start
  let txCount ← countLoop .countTxs bytes txValidatorStart fuel 217
  let valTxCount ←
    countLoop .countValidators bytes (UInt64.ofNat bytes.length) fuel txValidatorStart
  let txs ← readTxsRun C thrNum bytes chainId txCount
  let txValidators ← itemLoop .readValidators (parseTxValidator C chainId nHeight) bytes valTxCount
    txValidatorStart
  lift (checked C bytes txs txValidators)

/-- `Block::Block(bytes, requiredChainId)` with its meter. -/
def parseRun (C : Crypto) (thrNum : Nat) (bytes : Bytes) (chainId : UInt64) (fuel : Nat) :
    Metered ParserLoop Fail Block :=
  mapThrown rethrow (bodyRun C thrNum bytes chainId fuel)

/-! ### One turn -/

section

variable {bytes : Bytes} {loop : ParserLoop} {index : UInt64} {size : Nat}

theorem readSize_bounds {i : Nat} (h : readSize bytes i = .ok size) :
    i + 4 ≤ bytes.length ∧ size < 2 ^ 32 := by
  obtain ⟨htake, hsize⟩ := take_of_readSize h
  have hlen := congrArg List.length htake
  rw [BigEndian.length_fixed, List.length_take, List.length_drop] at hlen
  omega

/-- The turns of a loop that starts at `i`. -/
def turnsFrom (bytes : Bytes) (loop : ParserLoop) (i : Nat) : ParserLoop → Nat :=
  Pi.single loop ((bytes.length - i) / 4 + 1)

/-- **The bytes behind the index pay for a turn.** -/
theorem turnsFrom_step {i j : Nat} (hi : i + 4 ≤ bytes.length) (hj : i + 4 ≤ j) :
    Pi.single loop 1 + turnsFrom bytes loop j ≤ turnsFrom bytes loop i := by
  rw [turnsFrom, turnsFrom, ← Pi.single_add]
  exact Pi.single_mono loop (by omega)

/-- A turn that throws is the last one. -/
theorem runs_turn_throw {α β : Type} {i : Nat} {e : Fail} {f : α → Metered ParserLoop Fail β} :
    Runs (turnsFrom bytes loop i) (turn loop >>= fun _ => lift (.error e) >>= f) (.error e) := by
  have hone : Pi.single loop 1 + 0 ≤ turnsFrom bytes loop i := Pi.single_mono loop (by omega)
  exact (Runs.turn_bind (runs_lift _).throw_bind).mono hone

theorem turnsFrom_le (bytes : Bytes) (loop : ParserLoop) (i : Nat) :
    turnsFrom bytes loop i ≤ Pi.single loop (bytes.length / 4 + 1) :=
  Pi.single_mono loop (by omega)

theorem toNat_size (hsize : size < 2 ^ 32) : (UInt64.ofNat size).toNat = size := by
  rw [UInt64.toNat_ofNat']
  exact Nat.mod_eq_of_lt (by omega)

theorem toNat_add_of_lt {a b : UInt64} (h : a.toNat + b.toNat < 2 ^ 64) :
    (a + b).toNat = a.toNat + b.toNat := by
  rw [UInt64.toNat_add]
  exact Nat.mod_eq_of_lt h

/-- Where a turn gets to: the sums of the two loops, and what they are as numbers. -/
theorem toNat_next (hlen : bytes.length < 2 ^ 63) (h : readSize bytes index.toNat = .ok size) :
    (UInt64.ofNat size).toNat + (4 : UInt64).toNat < 2 ^ 64 ∧
      index.toNat + (UInt64.ofNat size + 4).toNat < 2 ^ 64 ∧
      (index + (UInt64.ofNat size + 4)).toNat = index.toNat + size + 4 := by
  obtain ⟨hindex, hsize⟩ := readSize_bounds h
  have hfour : (4 : UInt64).toNat = 4 := rfl
  have hnat := toNat_size hsize
  have hstep : (UInt64.ofNat size + 4).toNat = size + 4 := by
    rw [toNat_add_of_lt (by omega), hnat, hfour]
  refine ⟨by omega, by omega, ?_⟩
  rw [toNat_add_of_lt (by omega), hstep]
  omega

theorem toNat_start (hlen : bytes.length < 2 ^ 63) (h : readSize bytes index.toNat = .ok size) :
    index.toNat + (4 : UInt64).toNat < 2 ^ 64 ∧ (index + 4).toNat = index.toNat + 4 ∧
      (index + 4).toNat + (UInt64.ofNat size).toNat < 2 ^ 64 ∧
      (index + 4 + UInt64.ofNat size).toNat = index.toNat + 4 + size := by
  obtain ⟨hindex, hsize⟩ := readSize_bounds h
  have hfour : (4 : UInt64).toNat = 4 := rfl
  have hnat := toNat_size hsize
  have hstart : (index + 4).toNat = index.toNat + 4 := by
    rw [toNat_add_of_lt (by omega), hfour]
  refine ⟨by omega, hstart, by omega, ?_⟩
  rw [toNat_add_of_lt (by omega), hstart, hnat]

/-! ### The loops -/

theorem liftExn_map {α β : Type} (x : Except Exn α) (f : α → β) :
    liftExn (x >>= fun a => pure (f a)) = liftExn x >>= fun a => .ok (f a) := by
  cases x with
  | error e => rfl
  | ok a => rfl

/-- **A counting loop.** -/
theorem runs_countLoop (hlen : bytes.length < 2 ^ 63) (loop : ParserLoop) (stop index : UInt64)
    {fuel fuel' : Nat} (hfuel : (bytes.length - index.toNat) / 4 + 1 ≤ fuel)
    (hfuel' : (bytes.length - index.toNat) / 4 + 1 ≤ fuel') :
    Runs (turnsFrom bytes loop index.toNat) (countLoop loop bytes stop fuel index)
      (liftExn (countItems bytes stop.toNat fuel' index.toNat)) := by
  induction fuel generalizing fuel' index with
  | zero => omega
  | succ fuel ih =>
    obtain ⟨fuel', rfl⟩ : ∃ k, fuel' = k + 1 := ⟨fuel' - 1, by omega⟩
    rw [countLoop, countItems]
    by_cases hstop : index < stop
    · rw [if_pos hstop, if_pos (UInt64.lt_iff_toNat_lt.mp hstop)]
      cases hread : readSize bytes index.toNat with
      | error e =>
        exact runs_turn_throw
      | ok size =>
        obtain ⟨hindex, -⟩ := readSize_bounds hread
        obtain ⟨hfirst, hsecond, hnext⟩ := toNat_next hlen hread
        have hrest : Runs _ (countLoop loop bytes stop fuel (index + (UInt64.ofNat size + 4)))
            (liftExn (countItems bytes stop.toNat fuel' _)) := ih _ (by omega) (by omega)
        rw [hnext] at hrest
        show Runs _ _ (liftExn (countItems bytes stop.toNat fuel' (index.toNat + size + 4) >>=
          fun n => pure (n + 1)))
        rw [liftExn_map]
        exact (Runs.turn_bind (Runs.ok_bind (Runs.add_bind hfirst
          (Runs.add_bind hsecond hrest.map)))).mono (turnsFrom_step hindex (by omega))
    · rw [if_neg hstop, if_neg fun h => hstop (UInt64.lt_iff_toNat_lt.mpr h)]
      exact runs_pure 0

/-- **A parsing loop.** -/
theorem runs_itemLoop {α : Type} (hlen : bytes.length < 2 ^ 63) (loop : ParserLoop)
    (item : Bytes → Except Fail α) (n : Nat) (index : UInt64) :
    Runs (turnsFrom bytes loop index.toNat) (itemLoop loop item bytes n index)
      (readItems item bytes n index.toNat) := by
  induction n generalizing index with
  | zero => exact runs_pure []
  | succ n ih =>
    rw [itemLoop, readItems]
    cases hread : readSize bytes index.toNat with
    | error e => exact runs_turn_throw
    | ok size =>
      obtain ⟨hindex, hsize⟩ := readSize_bounds hread
      obtain ⟨hfirst, hstart, hsecond, hnext⟩ := toNat_start hlen hread
      have hrest := ih (index + 4 + UInt64.ofNat size)
      rw [hnext] at hrest
      refine (Runs.turn_bind (Runs.ok_bind (Runs.add_bind hfirst ?_))).mono
        (turnsFrom_step hindex (Nat.le_add_right (index.toNat + 4) size))
      rw [hstart, toNat_size hsize]
      refine Runs.lift_bind fun bs _ => ?_
      refine Runs.lift_bind fun x _ => ?_
      exact Runs.add_bind hsecond hrest.map

theorem skipItems_lt (hlen : bytes.length < 2 ^ 63) {n i last : Nat} (hi : i < 2 ^ 64)
    (h : skipItems bytes n i = .ok last) : last < 2 ^ 64 := by
  induction n generalizing i with
  | zero =>
    cases h
    exact hi
  | succ n ih =>
    obtain ⟨size, hsize, h⟩ := Except.bind_eq_ok.mp h
    have hbounds := readSize_bounds hsize
    exact ih (by omega) h

/-- **A loop that skips items.** -/
theorem runs_skipLoop (hlen : bytes.length < 2 ^ 63) (loop : ParserLoop) (n : Nat)
    (index : UInt64) :
    Runs (turnsFrom bytes loop index.toNat) (skipLoop loop bytes n index)
      (liftExn (skipItems bytes n index.toNat) >>= fun last => .ok (UInt64.ofNat last)) := by
  induction n generalizing index with
  | zero =>
    have hend : (liftExn (skipItems bytes 0 index.toNat) >>= fun last => .ok (UInt64.ofNat last)) =
        (.ok index : Except Fail UInt64) := congrArg Except.ok UInt64.ofNat_toNat
    rw [hend]
    exact runs_pure index
  | succ n ih =>
    rw [skipLoop, skipItems]
    cases hread : readSize bytes index.toNat with
    | error e => exact runs_turn_throw
    | ok size =>
      obtain ⟨hindex, -⟩ := readSize_bounds hread
      obtain ⟨hfirst, hsecond, hnext⟩ := toNat_next hlen hread
      have hrest := ih (index + (UInt64.ofNat size + 4))
      rw [hnext] at hrest
      exact (Runs.turn_bind (Runs.ok_bind (Runs.add_bind hfirst
        (Runs.add_bind hsecond hrest)))).mono (turnsFrom_step hindex (by omega))

/-! ### The asyncs -/

/-- The loops of the asyncs from number `i` on. -/
def threadsFrom (bytes : Bytes) (i : Nat) : ParserLoop → Nat
  | .thread j => if i ≤ j then bytes.length / 4 + 1 else 0
  | .offset j => if i ≤ j then bytes.length / 4 + 1 else 0
  | _ => 0

theorem threadsFrom_step (bytes : Bytes) (i j k : Nat) :
    turnsFrom bytes (.thread i) j + (turnsFrom bytes (.offset i) k + threadsFrom bytes (i + 1)) ≤
      threadsFrom bytes i := by
  refine Pi.le_def.mpr fun l => ?_
  have hthread := turnsFrom_le bytes (.thread i) j l
  have hoffset := turnsFrom_le bytes (.offset i) k l
  simp only [Pi.add_apply, Pi.single_apply] at hthread hoffset ⊢
  cases l with
  | thread j =>
    simp only [ParserLoop.thread.injEq, reduceCtorEq, if_false, threadsFrom] at hthread hoffset ⊢
    split_ifs at hthread ⊢ <;> omega
  | offset j =>
    simp only [ParserLoop.offset.injEq, reduceCtorEq, if_false, threadsFrom] at hthread hoffset ⊢
    split_ifs at hoffset ⊢ <;> omega
  | countTxs | countValidators | readTxs | readValidators =>
    simp only [reduceCtorEq, if_false, threadsFrom] at hthread hoffset ⊢
    omega

section

variable {α : Type} {item : Bytes → Except Fail α}

/-- What an async leaves behind. -/
def future (item : Bytes → Except Fail α) (bytes : Bytes) (chunk : Nat × Nat) :
    Except (Stop Fail) (List α) :=
  (readItems item bytes chunk.2 chunk.1).mapError .thrown

theorem launch_cons (item : Bytes → Except Fail α) (bytes : Bytes) (i n n' : Nat) (ns : List Nat)
    (off : UInt64) :
    launch item bytes i (n :: n' :: ns) off = (do
      let f ← spawn (itemLoop (.thread i) item bytes n off)
      let next ← skipLoop (.offset i) bytes n off
      let fs ← launch item bytes (i + 1) (n' :: ns) next
      return f :: fs) := rfl

/-- One async and the ones behind it; the offset between them is a 64-bit number. -/
theorem futures_cons (hlen : bytes.length < 2 ^ 63) (n n' : Nat) (ns : List Nat) (off : UInt64) :
    (liftExn (threadChunks bytes (n :: n' :: ns) off.toNat) >>= fun chunks =>
        .ok (chunks.map (future item bytes))) = (do
      let f ← Except.ok (future item bytes (off.toNat, n))
      let next ← liftExn (skipItems bytes n off.toNat) >>= fun last => .ok (UInt64.ofNat last)
      let fs ← liftExn (threadChunks bytes (n' :: ns) next.toNat) >>= fun chunks =>
        .ok (chunks.map (future item bytes))
      .ok (f :: fs)) := by
  have hchunks : threadChunks bytes (n :: n' :: ns) off.toNat = (do
      let next ← skipItems bytes n off.toNat
      let chunks ← threadChunks bytes (n' :: ns) next
      return (off.toNat, n) :: chunks) := rfl
  rw [hchunks]
  cases hskip : skipItems bytes n off.toNat with
  | error e => rfl
  | ok last =>
    have hlast : (UInt64.ofNat last).toNat = last := by
      rw [UInt64.toNat_ofNat']
      exact Nat.mod_eq_of_lt (skipItems_lt hlen off.toNat_lt hskip)
    show (liftExn (threadChunks bytes (n' :: ns) last >>= fun chunks =>
        pure ((off.toNat, n) :: chunks)) >>= fun chunks =>
          .ok (chunks.map (future item bytes))) =
      ((liftExn (threadChunks bytes (n' :: ns) (UInt64.ofNat last).toNat) >>= fun chunks =>
        .ok (chunks.map (future item bytes))) >>= fun fs =>
          .ok (future item bytes (off.toNat, n) :: fs))
    rw [hlast]
    cases threadChunks bytes (n' :: ns) last with
    | error e => rfl
    | ok chunks => rfl

/-- **Starting the asyncs.** -/
theorem runs_launch (hlen : bytes.length < 2 ^ 63) (item : Bytes → Except Fail α) (i : Nat)
    (ns : List Nat) (off : UInt64) :
    Runs (threadsFrom bytes i) (launch item bytes i ns off)
      (liftExn (threadChunks bytes ns off.toNat) >>= fun chunks =>
        .ok (chunks.map (future item bytes))) := by
  induction ns generalizing i off with
  | nil => exact runs_pure []
  | cons n ns ih =>
    have hspawn := (runs_itemLoop hlen (.thread i) item n off).spawn
    cases ns with
    | nil =>
      have hle := le_self_add.trans (threadsFrom_step bytes i off.toNat off.toNat)
      exact hspawn.map.mono hle
    | cons n' ns =>
      rw [launch_cons, futures_cons hlen]
      refine (hspawn.bind fun f hf => ?_).mono (threadsFrom_step bytes i off.toNat off.toNat)
      cases hf
      exact (runs_skipLoop hlen (.offset i) n off).bind fun next _ => (ih (i + 1) next).map

/-- **Collecting their results.** -/
theorem runs_gather (item : Bytes → Except Fail α) (chunks : List (Nat × Nat)) :
    Runs 0 (gather (chunks.map (future item bytes))) (readChunks item bytes chunks) := by
  induction chunks with
  | nil => exact runs_pure []
  | cons c chunks ih => exact Runs.lift_bind fun xs _ => ih.map

end

/-! ### The constructor -/

variable {C : Crypto}

/-- The loops that read the block transactions. -/
def readingLoops (bytes : Bytes) : ParserLoop → Nat
  | .readTxs | .thread _ | .offset _ => bytes.length / 4 + 1
  | _ => 0

theorem threadsFrom_le (bytes : Bytes) : threadsFrom bytes 0 ≤ readingLoops bytes := by
  refine Pi.le_def.mpr fun l => ?_
  cases l with
  | thread j | offset j =>
    rw [threadsFrom, if_pos (Nat.zero_le j)]
    exact le_rfl
  | countTxs | countValidators | readTxs | readValidators => exact Nat.zero_le _

theorem turnsFrom_le_readingLoops (bytes : Bytes) (i : Nat) :
    turnsFrom bytes .readTxs i ≤ readingLoops bytes := by
  refine (turnsFrom_le bytes .readTxs i).trans (Pi.le_def.mpr fun l => ?_)
  rw [Pi.single_apply]
  split
  · next h =>
    rw [h]
    exact le_rfl
  · exact Nat.zero_le _

/-- **Reading the block transactions**, on any number of threads. -/
theorem runs_readTxsRun (hlen : bytes.length < 2 ^ 63) (C : Crypto) (thrNum : Nat)
    (chainId : UInt64) (txCount : Nat) :
    Runs (readingLoops bytes) (readTxsRun C thrNum bytes chainId txCount)
      (readTxs C thrNum bytes chainId txCount) := by
  rw [readTxsRun, readTxs]
  split
  · exact (runs_itemLoop hlen .readTxs _ txCount 217).mono (turnsFrom_le_readingLoops bytes _)
  · set item := fun bs => TxBlock.parse C bs chainId
    set ns := List.replicate (thrNum - 1) (txCount / thrNum) ++
      [txCount / thrNum + txCount % thrNum]
    have hlaunch := runs_launch hlen item 0 ns 217
    have hstart : (217 : UInt64).toNat = 217 := rfl
    rw [hstart] at hlaunch
    cases hchunks : threadChunks bytes ns 217 with
    | error e =>
      rw [hchunks] at hlaunch
      exact (Runs.throw_bind hlaunch).mono (threadsFrom_le bytes)
    | ok chunks =>
      rw [hchunks] at hlaunch
      exact (Runs.value_bind hlaunch (runs_gather item chunks)).mono (threadsFrom_le bytes)

theorem parseBody_eq (C : Crypto) (thrNum : Nat) (bytes : Bytes) (chainId : UInt64) :
    parseBody C thrNum bytes chainId = (do
      longEnough bytes
      let start ← liftExn (bytesToUint64 ((bytes.drop 209).take 8))
      let txCount ← liftExn (countItems bytes start (bytes.length + 1) 217)
      let valTxCount ← liftExn (countItems bytes bytes.length (bytes.length + 1) start)
      let txs ← readTxs C thrNum bytes chainId txCount
      let txValidators ← readItems (parseTxValidator C chainId
        (UInt64.ofNat (BigEndian.decode ((bytes.drop 201).take 8)))) bytes valTxCount start
      checked C bytes txs txValidators) := by
  unfold parseBody longEnough
  split
  · rfl
  · rfl

theorem bytesToUint64_lt {bs : Bytes} {n : Nat} (h : bytesToUint64 bs = .ok n) : n < 2 ^ 64 := by
  unfold bytesToUint64 at h
  split at h
  · cases h
  · next hlen =>
    cases h
    have hlt := BigEndian.decode_lt bs
    rwa [not_not.mp hlen] at hlt

/-- Each loop of the constructor has its own name. -/
theorem allLoops_le (bytes : Bytes) (i j k : Nat) :
    turnsFrom bytes .countTxs i + (turnsFrom bytes .countValidators j +
      (readingLoops bytes + (turnsFrom bytes .readValidators k + 0))) ≤
        fun _ => bytes.length / 4 + 1 := by
  refine Pi.le_def.mpr fun l => ?_
  have htxs := turnsFrom_le bytes .countTxs i l
  have hvals := turnsFrom_le bytes .countValidators j l
  have hread := turnsFrom_le bytes .readValidators k l
  simp only [Pi.add_apply, Pi.single_apply, Pi.zero_apply] at htxs hvals hread ⊢
  -- only one of the summands is about `l`
  cases l with
  | countTxs | countValidators | readTxs | thread | offset | readValidators =>
    simp only [reduceCtorEq, if_true, if_false, readingLoops] at htxs hvals hread ⊢
    omega

theorem runs_bodyRun (hlen : bytes.length < 2 ^ 63) (C : Crypto) (thrNum : Nat)
    (chainId : UInt64) {fuel : Nat} (hfuel : bytes.length / 4 + 1 ≤ fuel) :
    Runs (fun _ => bytes.length / 4 + 1) (bodyRun C thrNum bytes chainId fuel)
      (parseBody C thrNum bytes chainId) := by
  rw [bodyRun, parseBody_eq]
  refine Runs.lift_bind fun _ _ => ?_
  refine Runs.lift_bind fun start hstart => ?_
  have hnat : (UInt64.ofNat start).toNat = start := by
    rw [UInt64.toNat_ofNat']
    exact Nat.mod_eq_of_lt (bytesToUint64_lt (liftExn_eq_ok.mp hstart))
  have hsize : (UInt64.ofNat bytes.length).toNat = bytes.length := by
    rw [UInt64.toNat_ofNat']
    exact Nat.mod_eq_of_lt (by omega)
  have hfirst : (217 : UInt64).toNat = 217 := rfl
  have hcount := runs_countLoop hlen .countTxs (UInt64.ofNat start) 217
    (show _ ≤ fuel by omega) (show _ ≤ bytes.length + 1 by omega)
  have hvalCount := runs_countLoop hlen .countValidators (UInt64.ofNat bytes.length)
    (UInt64.ofNat start) (show _ ≤ fuel by omega) (show _ ≤ bytes.length + 1 by omega)
  have hvals := fun n => runs_itemLoop hlen .readValidators (parseTxValidator C chainId
    (UInt64.ofNat (BigEndian.decode ((bytes.drop 201).take 8)))) n (UInt64.ofNat start)
  rw [hnat, hfirst] at hcount
  rw [hsize, hnat] at hvalCount
  simp only [hnat] at hvals
  exact (hcount.bind fun txCount _ => hvalCount.bind fun valTxCount _ =>
    (runs_readTxsRun hlen C thrNum chainId txCount).bind fun txs _ =>
      (hvals valTxCount).bind fun txValidators _ => runs_lift _).mono (allLoops_le bytes _ _ _)

/-- **The block parser comes to an end, and its indices never wrap.**  For every byte string,
    with any start of the validator transactions and any length prefixes in it, no loop of the
    constructor has more than `bytes.size() / 4 + 1` turns, no sum of indices reaches
    `2 ^ 64`, and the constructor returns or throws what `parse` says.  No `std::string` has
    `2 ^ 63` bytes. -/
theorem parseRun_bounded (C : Crypto) (thrNum : Nat) (bytes : Bytes) (chainId : UInt64)
    (hlen : bytes.length < 2 ^ 63) (fuel : Nat) (hfuel : bytes.length / 4 + 1 ≤ fuel) :
    (parseRun C thrNum bytes chainId fuel).result =
        (parse C thrNum bytes chainId).mapError .thrown ∧
      (∀ loop, (parseRun C thrNum bytes chainId fuel).log.count (.turn loop) ≤
        bytes.length / 4 + 1) ∧
      ∀ a b, Event.sum a b ∈ (parseRun C thrNum bytes chainId fuel).log →
        a.toNat + b.toNat < 2 ^ 64 := by
  have hruns := (runs_bodyRun hlen C thrNum chainId hfuel).mapThrown rethrow
  exact ⟨hruns.result, hruns.turns, hruns.sums⟩

/-- All bytes `0xff`: the validator transactions start at `2 ^ 64 - 1`, and every length is
    `2 ^ 32 - 1`. -/
theorem parseRun_bounded_ones :
    (List.replicate 221 0xff : Bytes).length / 4 + 1 = 56 ∧
      ∀ (C : Crypto) (thrNum : Nat) (chainId : UInt64) (loop : ParserLoop),
        (parseRun C thrNum (List.replicate 221 0xff) chainId 56).log.count (.turn loop) ≤ 56 := by
  have hlen : (List.replicate 221 0xff : Bytes).length = 221 := List.length_replicate
  refine ⟨by rw [hlen], fun C thrNum chainId loop => ?_⟩
  have hbound := (parseRun_bounded C thrNum (List.replicate 221 0xff) chainId
    (by rw [hlen]; decide) 56 (by rw [hlen])).2.1 loop
  rwa [hlen] at hbound

end

end Block

end OrbiterSdk
