import OrbiterSdk.Core.Recorded
import OrbiterSdk.Core.Schedule

namespace OrbiterSdk

/-!
# The worker of a validator

`rdPoSWorker::workerLoop` and `doTxCreation` of `core/rdpos.cpp`: a participant of the round
adds and broadcasts its randomHash transaction, waits, and then adds and broadcasts the random
transaction that opens it.  The worker is a thread; its steps between two accesses to shared
data are interleaved with the deliveries of validator transactions, with blocks and with a
request to stop.

* `Committed` — every participant's randomHash transaction is in the mempool;
* `Sealed` — no other transaction is there before that;
* `commit_before_reveal` — the worker reveals its seed only when all have committed, in every
  run in which nobody else reveals earlier, the worker is not stopped while it waits and no
  block is accepted during the wait.
-/

/-- Where the thread stands. -/
inductive Phase where
  /-- At the head of `workerLoop`. -/
  | loop
  /-- In `doTxCreation`, about to add and broadcast the randomHash transaction. -/
  | commit (randomHashTx seedTx : TxValidator)
  /-- At the head of the waiting loop, with `validatorMempoolSize`. -/
  | wait (validatorMempoolSize : Nat) (seedTx : TxValidator)
  /-- About to read the size of the mempool. -/
  | measure (seedTx : TxValidator)
  /-- Asking the connected nodes for more transactions. -/
  | request (validatorMempoolSize : Nat) (seedTx : TxValidator)
  /-- About to add and broadcast the random transaction. -/
  | reveal (seedTx : TxValidator)
  /-- Waiting for the next block. -/
  | rest
  /-- The thread has ended. -/
  | stopped

/-- A node with its worker. -/
structure Node where
  state : State
  latestBlock : Block
  phase : Phase
  stopWorker : Bool

/-- What happens next. -/
inductive Event where
  /-- Some thread calls `State::addValidatorTx`. -/
  | deliver (tx : TxValidator)
  /-- Some thread calls `State::processNextBlock`. -/
  | processNextBlock (block : Block)
  /-- `rdPoSWorker::stop`. -/
  | stop
  /-- The worker goes on; `randomness` is what `Hash::random` returns. -/
  | work (randomness : Hash)
  /-- The worker turns to the next connected node. -/
  | nextNode

namespace Node

variable (C : Crypto) (depth : Nat) (chainId : UInt64) (validatorKey : PrivKey)

/-- The address of the worker's key. -/
def me : Address := Secp256k1.toAddress C (Secp256k1.toUPub C validatorKey)

/-- The two transactions of `doTxCreation`; an exception ends the thread. -/
def doTxCreation (nHeight : UInt64) (randomness : Hash) : Phase :=
  let randomHash := C.sha3 randomness.data
  match TxValidator.create C (me C validatorKey) (randomHashHash ++ randomHash.data) chainId
      nHeight validatorKey with
  | .error _ => .stopped
  | .ok randomHashTx =>
    match TxValidator.create C (me C validatorKey) (randomSeedHash ++ randomness.data) chainId
        nHeight validatorKey with
    | .error _ => .stopped
    | .ok seedTx =>
      if (C.sha3 (seedTx.data.drop 4)).data ≠ randomHashTx.data.drop 4 then .rest
      else .commit randomHashTx seedTx

/-- One step of the worker.  `doBlockCreation` only asks for more transactions, which are
    deliveries, so the block creator is at rest at once. -/
def work (randomness : Hash) (n : Node) : Node :=
  match n.phase with
  | .loop =>
    if n.stopWorker then { n with phase := .stopped }
    else if n.state.rdpos.randomList[0]? = some (me C validatorKey) then { n with phase := .rest }
    else if me C validatorKey ∈ n.state.rdpos.participants then
      { n with phase :=
          doTxCreation C chainId validatorKey (n.latestBlock.nHeight + 1) randomness }
    else { n with phase := .rest }
  | .commit randomHashTx seedTx =>
    { n with state := (n.state.addValidatorTx C randomHashTx).2, phase := .wait 0 seedTx }
  | .wait size seedTx =>
    if size < minValidators ∧ n.stopWorker = false then { n with phase := .measure seedTx }
    else { n with phase := .reveal seedTx }
  | .measure seedTx =>
    { n with phase := .request n.state.rdpos.validatorMempool.entries.length seedTx }
  | .request size seedTx => { n with phase := .wait size seedTx }
  | .reveal seedTx => { n with state := (n.state.addValidatorTx C seedTx).2, phase := .rest }
  | .rest =>
    if n.latestBlock ≠ n.state.storage.latest ∨ n.stopWorker = true then
      { n with latestBlock := n.state.storage.latest, phase := .loop }
    else n
  | .stopped => n

/-- The loop over the connected nodes looks at `stopWorker` before each. -/
def nextNode (n : Node) : Node :=
  match n.phase with
  | .request _ _ => if n.stopWorker then { n with phase := .rest } else n
  | _ => n

/-- The node after an event. -/
def step : Event → Node → Option Node
  | .deliver tx, n => some { n with state := (n.state.addValidatorTx C tx).2 }
  | .processNextBlock block, n =>
    (n.state.processNextBlock C depth block).map fun r => { n with state := r.2 }
  | .stop, n => some { n with stopWorker := true }
  | .work randomness, n => some (n.work C chainId validatorKey randomness)
  | .nextNode, n => some n.nextNode

end Node

/-! ### Who has committed -/

/-- Every participant's randomHash transaction for the height is in the mempool. -/
def RdPoS.Committed (r : RdPoS) (nHeight : UInt64) : Prop :=
  ∀ a ∈ r.participants, ∃ tx ∈ r.pool,
    tx.sender = a ∧ getTxValidatorFunction tx = .RANDOMHASH ∧ tx.nHeight = nHeight

instance (r : RdPoS) (nHeight : UInt64) : Decidable (r.Committed nHeight) :=
  inferInstanceAs (Decidable (∀ a ∈ r.participants, ∃ tx ∈ r.pool,
    tx.sender = a ∧ getTxValidatorFunction tx = .RANDOMHASH ∧ tx.nHeight = nHeight))

/-- The mempool of a round in which nobody reveals before all have committed. -/
structure Sealed (C : Crypto) (s : State) : Prop where
  admitted : RdPoS.Admitted C s.storage.latest.nHeight s.rdpos
  first : (∀ tx ∈ s.rdpos.pool, getTxValidatorFunction tx = .RANDOMHASH) ∨
    s.rdpos.Committed (s.storage.latest.nHeight + 1)

variable {C : Crypto} {depth : Nat} {chainId : UInt64} {validatorKey : PrivKey}

theorem sealed_of_empty {s : State} (h : s.rdpos.validatorMempool = ∅) : Sealed C s := by
  refine ⟨RdPoS.admitted_of_empty h, Or.inl fun tx htx => ?_⟩
  rw [RdPoS.pool, h] at htx
  cases htx

/-- A delivery takes nothing out of the mempool and leaves the participants. -/
theorem RdPoS.Committed.add {latestHeight nHeight : UInt64} {r : RdPoS}
    (h : r.Committed nHeight) (tx : TxValidator) :
    (r.addValidatorTx C latestHeight tx).2.Committed nHeight := by
  rcases addValidatorTx_cases (C := C) latestHeight r tx with hsame | ⟨hadd, hnew, -⟩
  · rw [hsame]; exact h
  · rw [hadd]
    intro a ha
    obtain ⟨t, ht, hkind⟩ := h a ha
    refine ⟨t, ?_, hkind⟩
    rw [pool_emplace hnew]
    exact List.mem_cons_of_mem _ ht

/-- What may be delivered: a randomHash transaction, and anything once all have committed. -/
theorem Sealed.add {s : State} (h : Sealed C s) {tx : TxValidator}
    (htx : getTxValidatorFunction tx = .RANDOMHASH ∨
      s.rdpos.Committed (s.storage.latest.nHeight + 1)) :
    Sealed C (s.addValidatorTx C tx).2 := by
  refine ⟨h.admitted.add tx, ?_⟩
  show (∀ t ∈ (s.rdpos.addValidatorTx C s.storage.latest.nHeight tx).2.pool, _) ∨
    (s.rdpos.addValidatorTx C s.storage.latest.nHeight tx).2.Committed _
  rcases htx with htx | htx
  · rcases h.first with hall | hall
    · left
      rcases RdPoS.addValidatorTx_cases (C := C) s.storage.latest.nHeight s.rdpos tx with
        hsame | ⟨hadd, hnew, -⟩
      · rw [hsame]; exact hall
      · rw [hadd, RdPoS.pool_emplace hnew]
        intro t ht
        rcases List.mem_cons.mp ht with rfl | ht
        · exact htx
        · exact hall t ht
    · exact Or.inr (hall.add tx)
  · exact Or.inr (htx.add tx)

/-- **Four transactions are four commitments**, as long as nobody has revealed: then no two have
    the same sender. -/
theorem Sealed.committed {s : State} (h : Sealed C s)
    (hsize : minValidators ≤ s.rdpos.validatorMempool.entries.length) :
    s.rdpos.Committed (s.storage.latest.nHeight + 1) := by
  rcases h.first with hall | hall
  · have hfunctor : ∀ tx ∈ s.rdpos.pool, tx.data.take 4 = randomHashHash :=
      fun tx htx => take_of_getTxValidatorFunction.1 (hall tx htx)
    have hnodup : (s.rdpos.pool.map TxValidator.sender).Nodup := by
      rw [List.Nodup, List.pairwise_map]
      refine h.admitted.functors.imp_of_mem fun {t u} ht hu hne hsender => ?_
      exact hne hsender ((hfunctor t ht).trans (hfunctor u hu).symm)
    have hsub : s.rdpos.pool.map TxValidator.sender ⊆ s.rdpos.participants := by
      intro a ha
      obtain ⟨tx, htx, rfl⟩ := List.mem_map.mp ha
      exact h.admitted.senders tx htx
    -- Four different participants are all of them.
    have hperm : (s.rdpos.pool.map TxValidator.sender).Perm s.rdpos.participants := by
      refine (hnodup.subperm hsub).perm_of_length_le ?_
      have hle : s.rdpos.participants.length ≤ minValidators := List.length_take_le _ _
      rw [List.length_map, RdPoS.pool, List.length_map]
      omega
    intro a ha
    obtain ⟨tx, htx, hsender⟩ := List.mem_map.mp (hperm.mem_iff.mpr ha)
    exact ⟨tx, htx, hsender, hall tx htx, h.admitted.heights tx htx⟩
  · exact hall

theorem Sealed.block {s : State} (h : Sealed C s) {block : Block} {p : Except Exn Unit × State}
    (hp : s.processNextBlock C depth block = some p) : Sealed C p.2 := by
  have hsame : ∀ {s' : State}, s'.rdpos = s.rdpos → s'.storage = s.storage → Sealed C s' := by
    intro s' hrd hst
    exact ⟨by rw [hrd, hst]; exact h.admitted, by rw [hrd, hst]; exact h.first⟩
  have hempty : ∀ {r r' : RdPoS}, r.processBlock C block = .ok r' → r'.validatorMempool = ∅ := by
    intro r r' hr
    unfold RdPoS.processBlock at hr
    split at hr
    · cases hr
    · cases hr; rfl
  cases State.processNextBlock_run hp with
  | refused e => exact h
  | stopped e s₁ hv hs₁ =>
    obtain ⟨-, hrd, hst⟩ := State.processTransactions_frame hs₁
    exact hsame hrd hst
  | unfinalized e s₁ hv hs₁ =>
    obtain ⟨-, hrd, hst⟩ := State.processTransactions_frame hs₁
    exact hsame hrd hst
  | unpushed e s₁ rdpos r mempool hv hs₁ hr => exact sealed_of_empty (hempty hr)
  | accepted s₁ rdpos mempool storage hv hs₁ hr => exact sealed_of_empty (hempty hr)

/-! ### The worker -/

/-- What the worker knows where it stands: whether its latest block is the chain's, whether all
    have committed for the next block and the height of that block. -/
def Phase.Knows (fresh complete : Prop) (nHeight : UInt64) (stopWorker : Bool) : Phase → Prop
  | .loop => fresh
  | .commit randomHashTx seedTx =>
    getTxValidatorFunction randomHashTx = .RANDOMHASH ∧ seedTx.nHeight = nHeight ∧
      (stopWorker = true → complete)
  | .wait size seedTx =>
    seedTx.nHeight = nHeight ∧ (minValidators ≤ size ∨ stopWorker = true → complete)
  | .measure seedTx => seedTx.nHeight = nHeight ∧ (stopWorker = true → complete)
  | .request size seedTx =>
    seedTx.nHeight = nHeight ∧ (minValidators ≤ size ∨ stopWorker = true → complete)
  | .reveal seedTx => seedTx.nHeight = nHeight ∧ complete
  | .rest => True
  | .stopped => True

namespace Phase.Knows

variable {fresh complete complete' : Prop} {nHeight : UInt64} {stopWorker : Bool} {p : Phase}

theorem mono (h : p.Knows fresh complete nHeight stopWorker) (hc : complete → complete') :
    p.Knows fresh complete' nHeight stopWorker := by
  cases p with
  | loop => exact h
  | commit randomHashTx seedTx => exact ⟨h.1, h.2.1, fun hs => hc (h.2.2 hs)⟩
  | wait size seedTx => exact ⟨h.1, fun hs => hc (h.2 hs)⟩
  | measure seedTx => exact ⟨h.1, fun hs => hc (h.2 hs)⟩
  | request size seedTx => exact ⟨h.1, fun hs => hc (h.2 hs)⟩
  | reveal seedTx => exact ⟨h.1, hc h.2⟩
  | rest => trivial
  | stopped => trivial

/-- Once all have committed a request to stop does no harm. -/
theorem stop (h : p.Knows fresh complete nHeight stopWorker) (hc : complete) :
    p.Knows fresh complete nHeight true := by
  cases p with
  | loop => exact h
  | commit randomHashTx seedTx => exact ⟨h.1, h.2.1, fun _ => hc⟩
  | wait size seedTx => exact ⟨h.1, fun _ => hc⟩
  | measure seedTx => exact ⟨h.1, fun _ => hc⟩
  | request size seedTx => exact ⟨h.1, fun _ => hc⟩
  | reveal seedTx => exact h
  | rest => trivial
  | stopped => trivial

end Phase.Knows

namespace Node

/-- All have committed for the next block. -/
def Complete (n : Node) : Prop :=
  n.state.rdpos.Committed (n.state.storage.latest.nHeight + 1)

instance (n : Node) : Decidable n.Complete := inferInstanceAs (Decidable (RdPoS.Committed _ _))

/-- The worker waits for the next block, or has ended. -/
def Idle (n : Node) : Prop := n.phase = .rest ∨ n.phase = .stopped

/-- What keeps the order of commitments and seeds: only randomHash transactions are accepted
    before all have committed, a request to stop does not meet the worker between its two
    transactions before that, and a valid block only comes while the worker waits for one. -/
def Orderly (C : Crypto) (n : Node) : Event → Prop
  | .deliver tx => getTxValidatorFunction tx = .RANDOMHASH ∨ n.Complete ∨
      (n.state.addValidatorTx C tx).2 = n.state
  | .processNextBlock block => n.Idle ∨ n.state.validateNextBlock C block ≠ .ok true
  | .stop => n.Idle ∨ n.phase = .loop ∨ n.Complete
  | .work _ => True
  | .nextNode => True

variable (C chainId validatorKey) in
theorem doTxCreation_cases (nHeight : UInt64) (randomness : Hash) :
    doTxCreation C chainId validatorKey nHeight randomness = .stopped ∨
      doTxCreation C chainId validatorKey nHeight randomness = .rest ∨
      ∃ randomHashTx seedTx,
        doTxCreation C chainId validatorKey nHeight randomness = .commit randomHashTx seedTx ∧
          getTxValidatorFunction randomHashTx = .RANDOMHASH ∧ seedTx.nHeight = nHeight := by
  unfold doTxCreation
  dsimp only
  split
  · exact Or.inl rfl
  · rename_i randomHashTx hhash
    split
    · exact Or.inl rfl
    · rename_i seedTx hseed
      split
      · exact Or.inr (Or.inl rfl)
      · obtain ⟨hdata, -⟩ := TxValidator.create_ok hhash
        refine Or.inr (Or.inr ⟨randomHashTx, seedTx, rfl, ?_, (TxValidator.create_ok hseed).2⟩)
        have hfunctor : (randomHashHash ++ (C.sha3 randomness.data).data).take 4 =
            randomHashHash := List.take_left' rfl
        unfold getTxValidatorFunction
        rw [hdata, if_neg (by simp [randomHashHash, FixedStr.size_eq]), if_pos hfunctor]

/-- What the worker of the node knows. -/
def Knows (n : Node) : Prop :=
  n.phase.Knows (n.latestBlock = n.state.storage.latest) n.Complete
    (n.state.storage.latest.nHeight + 1) n.stopWorker

theorem Idle.knows {n : Node} (h : n.Idle) : n.Knows := by
  unfold Knows
  rcases h with h | h <;> rw [h] <;> trivial

/-- A step of the worker keeps the order: one case per phase. -/
theorem work_knows {n : Node} (randomness : Hash) (hs : Sealed C n.state) (hk : n.Knows) :
    Sealed C (n.work C chainId validatorKey randomness).state ∧
      (n.work C chainId validatorKey randomness).Knows := by
  obtain ⟨s, latestBlock, phase, stopWorker⟩ := n
  cases phase with
  | loop =>
    unfold work
    dsimp only
    split
    · exact ⟨hs, trivial⟩
    · rename_i hstop
      split
      · exact ⟨hs, trivial⟩
      · split
        · refine ⟨hs, ?_⟩
          have hfresh : latestBlock = s.storage.latest := hk
          unfold Knows
          dsimp only
          generalize hnew : doTxCreation C chainId validatorKey (latestBlock.nHeight + 1)
            randomness = p
          rcases doTxCreation_cases C chainId validatorKey (latestBlock.nHeight + 1) randomness with
            h | h | ⟨randomHashTx, seedTx, h, hhash, hseed⟩
          · rw [← hnew, h]; trivial
          · rw [← hnew, h]; trivial
          · rw [← hnew, h]
            exact ⟨hhash, by rw [hseed, hfresh], fun hc => absurd hc hstop⟩
        · exact ⟨hs, trivial⟩
  | commit randomHashTx seedTx =>
    obtain ⟨hhash, hseed, hstop⟩ := hk
    refine ⟨hs.add (Or.inl hhash), hseed, fun hor => ?_⟩
    rcases hor with hsize | hstop'
    · cases hsize
    · exact (hstop hstop').add randomHashTx
  | wait size seedTx =>
    unfold work
    dsimp only
    split
    · rename_i hwait
      exact ⟨hs, hk.1, fun hstop => hk.2 (Or.inr hstop)⟩
    · rename_i hgo
      refine ⟨hs, hk.1, hk.2 ?_⟩
      cases stopWorker with
      | true => exact Or.inr rfl
      | false => exact Or.inl (not_lt.mp fun hlt => hgo ⟨hlt, rfl⟩)
  | measure seedTx =>
    -- The only place where the size of the mempool becomes known.
    refine ⟨hs, hk.1, fun hor => ?_⟩
    rcases hor with hsize | hstop
    · exact hs.committed hsize
    · exact hk.2 hstop
  | request size seedTx => exact ⟨hs, hk⟩
  | reveal seedTx => exact ⟨hs.add (Or.inr hk.2), trivial⟩
  | rest =>
    unfold work
    dsimp only
    split
    · exact ⟨hs, rfl⟩
    · exact ⟨hs, trivial⟩
  | stopped => exact ⟨hs, trivial⟩

/-- **Every event of an orderly run keeps the order.** -/
theorem step_knows {n n' : Node} {e : Event} (h : Sealed C n.state ∧ n.Knows)
    (he : n.Orderly C e) (hstep : step C depth chainId validatorKey e n = some n') :
    Sealed C n'.state ∧ n'.Knows := by
  obtain ⟨hs, hk⟩ := h
  cases e with
  | deliver tx =>
    cases hstep
    refine ⟨?_, hk.mono fun hc => hc.add tx⟩
    rcases he with hhash | hc | hsame
    · exact hs.add (Or.inl hhash)
    · exact hs.add (Or.inr hc)
    · rw [hsame]; exact hs
  | processNextBlock block =>
    obtain ⟨p, hp, rfl⟩ := Option.map_eq_some_iff.mp hstep
    refine ⟨hs.block hp, ?_⟩
    rcases he with hidle | hrefused
    · exact Idle.knows hidle
    · -- A refused block leaves the state as it is.
      cases State.processNextBlock_run hp with
      | refused e => exact hk
      | stopped e s₁ hv => exact absurd hv hrefused
      | unfinalized e s₁ hv => exact absurd hv hrefused
      | unpushed e s₁ rdpos r mempool hv => exact absurd hv hrefused
      | accepted s₁ rdpos mempool storage hv => exact absurd hv hrefused
  | stop =>
    cases hstep
    refine ⟨hs, ?_⟩
    rcases he with hidle | hloop | hc
    · exact Idle.knows hidle
    · unfold Knows at hk ⊢
      dsimp only
      rw [hloop] at hk ⊢
      exact hk
    · exact hk.stop hc
  | work randomness =>
    cases hstep
    exact work_knows randomness hs hk
  | nextNode =>
    cases hstep
    obtain ⟨s, latestBlock, phase, stopWorker⟩ := n
    cases phase with
    | request size seedTx =>
      unfold nextNode
      dsimp only
      split
      · exact ⟨hs, trivial⟩
      · exact ⟨hs, hk⟩
    | loop => exact ⟨hs, hk⟩
    | commit randomHashTx seedTx => exact ⟨hs, hk⟩
    | wait size seedTx => exact ⟨hs, hk⟩
    | measure seedTx => exact ⟨hs, hk⟩
    | reveal seedTx => exact ⟨hs, hk⟩
    | rest => exact ⟨hs, trivial⟩
    | stopped => exact ⟨hs, trivial⟩

/-- **Commit before reveal.**  The worker starts at the head of its loop on a node whose mempool
    of validator transactions is empty, and anything happens in any order, as long as it is
    orderly.  Whenever the worker is about to add and broadcast its random transaction, the
    mempool holds a randomHash transaction of every participant for the same height. -/
theorem commit_before_reveal {n₀ n : Node} {events : List Event} {seedTx : TxValidator}
    (hempty : n₀.state.rdpos.validatorMempool = ∅) (hloop : n₀.phase = .loop)
    (hfresh : n₀.latestBlock = n₀.state.storage.latest)
    (horderly : Machine.Along (step C depth chainId validatorKey) (fun n e => n.Orderly C e)
      events n₀)
    (hrun : Machine.run (step C depth chainId validatorKey) events n₀ = some n)
    (hreveal : n.phase = .reveal seedTx) : n.state.rdpos.Committed seedTx.nHeight := by
  have hstart : Sealed C n₀.state ∧ n₀.Knows := by
    refine ⟨sealed_of_empty hempty, ?_⟩
    unfold Knows
    rw [hloop]
    exact hfresh
  have hend : Sealed C n.state ∧ n.Knows :=
    Machine.run_invariant (fun _ _ _ h he hs => step_knows h he hs) hstart horderly hrun
  have hk := hend.2
  unfold Knows at hk
  rw [hreveal] at hk
  rw [hk.1]
  exact hk.2

/-- A worker at the head of its loop. -/
def ofState (s : State) : Node :=
  { state := s, latestBlock := s.storage.latest, phase := .loop, stopWorker := false }

/-- The worker adds its randomHash transaction, transactions are delivered while it waits, and it
    looks at the mempool once. -/
def round (txs : List TxValidator) : List Event :=
  [.work Recorded.participantSeed, .work FixedStr.zero, .work FixedStr.zero] ++
    txs.map .deliver ++ [.work FixedStr.zero, .work FixedStr.zero, .work FixedStr.zero]

/-- What can be observed of the node that the worker then reveals its seed on. -/
def revealing {α : Type} (txs : List TxValidator) (look : Node → TxValidator → α) : Option α :=
  Recorded.start fun s =>
    (Machine.run (step Recorded.crypto 1 8080 Recorded.participantKey) (round txs)
      (ofState s)).bind fun n =>
        match n.phase with
        | .reveal seedTx => some (look n seedTx)
        | _ => none

theorem revealing_eq_some {α : Type} {txs : List TxValidator} {look : Node → TxValidator → α}
    {x : α} (h : revealing txs look = some x) :
    ∃ s n seedTx, State.genesis Recorded.crypto = .ok s ∧
      Machine.run (step Recorded.crypto 1 8080 Recorded.participantKey) (round txs)
        (ofState s) = some n ∧ n.phase = .reveal seedTx ∧ look n seedTx = x := by
  obtain ⟨s, hs, h⟩ := Recorded.start_eq_some h
  obtain ⟨n, hn, h⟩ := Option.bind_eq_some_iff.mp h
  split at h
  · rename_i seedTx hphase
    exact ⟨s, n, seedTx, hs, hn, hphase, Option.some.inj h⟩
  · cases h

/-- The other three participants commit, and the worker reveals its seed. -/
theorem commit_before_reveal_round :
    ∃ s n seedTx, State.genesis Recorded.crypto = .ok s ∧
      Machine.run (step Recorded.crypto 1 8080 Recorded.participantKey)
        (round ((Recorded.validatorTxs.drop 1).take 3)) (ofState s) = some n ∧
      n.phase = .reveal seedTx ∧ n.state.rdpos.Committed seedTx.nHeight := by
  have hlook : revealing ((Recorded.validatorTxs.drop 1).take 3) (fun _ _ => ()) = some () := by
    decide +kernel
  obtain ⟨s, n, seedTx, hs, hrun, hreveal, -⟩ := revealing_eq_some hlook
  have hhash : ∀ tx ∈ (Recorded.validatorTxs.drop 1).take 3,
      getTxValidatorFunction tx = .RANDOMHASH := by
    decide +kernel
  have horderly : ∀ e ∈ round ((Recorded.validatorTxs.drop 1).take 3), ∀ n : Node,
      n.Orderly Recorded.crypto e := by
    intro e he n
    rcases List.mem_append.mp he with he | he
    · rcases List.mem_append.mp he with he | he
      · simp only [List.mem_cons, List.not_mem_nil, or_false] at he
        rcases he with rfl | rfl | rfl <;> trivial
      · obtain ⟨tx, htx, rfl⟩ := List.mem_map.mp he
        exact Or.inl (hhash tx htx)
    · simp only [List.mem_cons, List.not_mem_nil, or_false] at he
      rcases he with rfl | rfl | rfl <;> trivial
  exact ⟨s, n, seedTx, hs, hrun, hreveal, commit_before_reveal (State.genesis_validatorMempool hs)
    rfl rfl (Machine.along_of_mem horderly _) hrun hreveal⟩

/-- The second participant commits and reveals, the third commits: the worker of the first sees
    four transactions and reveals its seed, although the fourth has not committed. -/
theorem reveal_uncommitted :
    ∃ s n seedTx, State.genesis Recorded.crypto = .ok s ∧
      Machine.run (step Recorded.crypto 1 8080 Recorded.participantKey)
        (round ((Recorded.validatorTxs.drop 1).take 2 ++ (Recorded.validatorTxs.drop 5).take 1))
        (ofState s) = some n ∧
      n.phase = .reveal seedTx ∧ n.state.rdpos.validators.length = 5 ∧
      getTxValidatorFunction seedTx = .RANDOMSEED ∧
      seedTx.nHeight = n.state.storage.latest.nHeight + 1 ∧
      ¬ n.state.rdpos.Committed seedTx.nHeight := by
  have hlook : revealing ((Recorded.validatorTxs.drop 1).take 2 ++
      (Recorded.validatorTxs.drop 5).take 1) (fun n seedTx =>
        decide (n.state.rdpos.validators.length = 5 ∧
          getTxValidatorFunction seedTx = .RANDOMSEED ∧
          seedTx.nHeight = n.state.storage.latest.nHeight + 1 ∧
          ¬ n.state.rdpos.Committed seedTx.nHeight)) = some true := by
    decide +kernel
  obtain ⟨s, n, seedTx, hs, hrun, hreveal, hlook⟩ := revealing_eq_some hlook
  exact ⟨s, n, seedTx, hs, hrun, hreveal, of_decide_eq_true hlook⟩

end Node

end OrbiterSdk
