import OrbiterSdk.Lib.Machine
import OrbiterSdk.Lib.OnceOnly
import OrbiterSdk.Net.Manager

namespace OrbiterSdk.P2P.Gossip

/-!
# Gossip: every link carries an id at most once

The broadcasting of `ManagerNormal`, on any number of threads per node and any finite network
of nodes.

* `Pc`, `Thread` — where a thread stands in `handleMessage`, in one of the broadcast handlers
  or in `broadcastMessage`.  A step is what happens between two points where another thread
  can come in: a read of `closed_`, a critical section, one write of the loop;
* `ManagerNormal.run` — the step of a thread.  What the decoders, the storage and the state
  say to a message is the `Verdict` of the step, and any verdict may come;
* `Node`, `Network`, `Event` — the threads of a node, the nodes, and what can happen: a thread
  steps, a message arrives, the node itself broadcasts, sessions come and go.  What arrives
  is arbitrary, whether a node wrote it or not;
* `Network.cell` — a node and an id seen as a flag that is raised once (`OnceOnly`), and
  `Node.move_of_perform`, every step of a node is a move of that cell;
* `once_per_link` — no link carries an id twice, so an id makes at most as many writes as
  there are links.

The shared lock of the loop in `broadcastMessage` keeps the table of sessions as it is while a
thread is in the loop; `broadcastMutex` makes the test and the mark one step.
-/

open OnceOnly (Cell Stage Move Once)

/-! ### Threads -/

/-- What the decoder, the storage and the state said to a message. -/
inductive Verdict where
  /-- An exception. -/
  | threw
  /-- `addValidatorTx` or `validateNextBlock` returned `false`, or `addTx` a failure. -/
  | refused
  /-- The block is in the storage already. -/
  | known
  | accepted
deriving DecidableEq

/-- Where `broadcastMessage` returns. -/
inductive Caller where
  /-- `broadcastTxValidator`, `broadcastTxBlock` or `broadcastBlock` of this node. -/
  | own
  | handleTxValidatorBroadcast
  | handleTxBroadcast
  /-- The call inside the `try` of `handleBlockBroadcast`, with `blockBroadcastMutex` held. -/
  | insideBlock
  /-- The call behind it. -/
  | behindBlock
deriving DecidableEq

/-- The next thing a thread does. -/
inductive Pc where
  /-- `handleMessage`: read `closed_`, switch on the type. -/
  | handleMessage
  /-- `handleBroadcast`: read `closed_`. -/
  | handleBroadcast
  /-- The lookup in `broadcastedMessages_` under the shared lock. -/
  | lookup
  /-- The switch on the command. -/
  | dispatch
  | handleTxValidatorBroadcast
  | handleTxBroadcast
  /-- `handleBlockBroadcast`: decode the block. -/
  | handleBlockBroadcast
  /-- Wait for `blockBroadcastMutex`. -/
  | lockBlock
  /-- With the mutex: `blockExists`, `validateNextBlock`, `processNextBlock`. -/
  | processBlock
  /-- `broadcastMessage`: read `closed_`. -/
  | broadcastMessage (caller : Caller)
  /-- The test and the mark under the unique lock of `broadcastMutex`. -/
  | mark (caller : Caller)
  /-- Take the shared lock of `sessionsMutex`. -/
  | share (caller : Caller)
  /-- In the loop over the sessions, with these left. -/
  | write (caller : Caller) (left : List (Σ _ : Hash, Session))
  /-- `disconnectSession` of the sender. -/
  | disconnect

/-- A thread: the session the message came from (none for the node's own), the message and
    where it stands. -/
structure Thread where
  session : Option Session
  message : Message
  pc : Pc

namespace Thread

/-- The thread goes on at `pc`. -/
def goto (t : Thread) (pc : Pc) : Option Thread := some { t with pc }

/-- The thread after `broadcastMessage` returned. -/
def back (t : Thread) : Caller → Option Thread
  | .insideBlock => t.goto (.broadcastMessage .behindBlock)
  | _ => none

/-- The thread holds `sessionsMutex` shared across steps. -/
def holdsSessions (t : Thread) : Bool :=
  match t.pc with
  | .write _ _ => true
  | _ => false

/-- The thread holds `blockBroadcastMutex`. -/
def holdsBlock (t : Thread) : Bool :=
  match t.pc with
  | .processBlock | .broadcastMessage .insideBlock | .mark .insideBlock
  | .share .insideBlock | .write .insideBlock _ => true
  | _ => false

/-- The write of the next step: to the session in front, if its host is a normal node. -/
def writing (t : Thread) : List (Hash × Message) :=
  match t.pc with
  | .write _ (s :: _) => if s.2.hostType = .normalNode then [(s.1, t.message)] else []
  | _ => []

end Thread

/-! ### The manager -/

/-- `ManagerNormal`: the table `broadcastedMessages_` besides those of `ManagerBase`. -/
structure ManagerNormal extends ManagerBase where
  broadcastedMessages : AssocMap UInt64 UInt32

namespace ManagerNormal

/-- `broadcastedMessages_[id.toUint64()]`. -/
def counter (m : ManagerNormal) (id : RequestID) : UInt32 :=
  (m.broadcastedMessages.lookup id.toUint64).getD 0

/-- `broadcastedMessages_[id.toUint64()]++`. -/
def count (m : ManagerNormal) (id : RequestID) : ManagerNormal :=
  { m with broadcastedMessages := m.broadcastedMessages.insert id.toUint64 (m.counter id + 1) }

/-- An operation of the base class. -/
def onBase (m : ManagerNormal) (r : Bool × ManagerBase) : ManagerNormal :=
  { m with toManagerBase := r.2 }

/-- One step of a thread: the manager and the thread after it, if it goes on.  The step is not
    possible while another thread holds the mutex it needs. -/
def run (m : ManagerNormal) (others : List Thread) (verdict : Verdict) (t : Thread) :
    Option (ManagerNormal × Option Thread) :=
  match t.pc with
  | .handleMessage =>
    if m.closed then some (m, none)
    else
      match t.message.type with
      | .ok .broadcasting => some (m, t.goto .handleBroadcast)
      | .ok .unnamed => some (m, t.goto .disconnect)
      -- requests and answers go to other handlers, and an exception ends the task
      | _ => some (m, none)
  | .handleBroadcast => some (m, if m.closed then none else t.goto .lookup)
  | .lookup => some (m, if m.counter t.message.id > 0 then none else t.goto .dispatch)
  | .dispatch =>
    match t.message.command with
    | .ok .broadcastValidatorTx => some (m, t.goto .handleTxValidatorBroadcast)
    | .ok .broadcastTx => some (m, t.goto .handleTxBroadcast)
    | .ok .broadcastBlock => some (m, t.goto .handleBlockBroadcast)
    | .ok _ => some (m, t.goto .disconnect)
    | .error _ => some (m, none)
  | .handleTxValidatorBroadcast =>
    match verdict with
    | .threw => some (m, t.goto .disconnect)
    | .accepted => some (m, t.goto (.broadcastMessage .handleTxValidatorBroadcast))
    | _ => some (m, none)
  | .handleTxBroadcast =>
    match verdict with
    | .threw => some (m, t.goto .disconnect)
    | .accepted => some (m, t.goto (.broadcastMessage .handleTxBroadcast))
    | _ => some (m, none)
  | .handleBlockBroadcast =>
    match verdict with
    | .threw => some (m, t.goto .disconnect)
    | _ => some (m, t.goto .lockBlock)
  | .lockBlock => if others.any (·.holdsBlock) then none else some (m, t.goto .processBlock)
  | .processBlock =>
    match verdict with
    | .threw => some (m, t.goto .disconnect)
    | .accepted => some (m, t.goto (.broadcastMessage .insideBlock))
    -- a known block returns at once, although it may have set `shouldRebroadcast`
    | _ => some (m, none)
  | .broadcastMessage caller => some (m, if m.closed then t.back caller else t.goto (.mark caller))
  | .mark caller =>
    if m.counter t.message.id > 0 then some (m, t.back caller)
    else some (m.count t.message.id, t.goto (.share caller))
  | .share caller => some (m, t.goto (.write caller m.sessions.entries))
  | .write caller [] => some (m, t.back caller)
  | .write caller (_ :: left) => some (m, t.goto (.write caller left))
  | .disconnect =>
    if others.any (·.holdsSessions) then none
    else
      match t.session with
      | some session => some (m.onBase (m.disconnectSession session.hostNodeId), none)
      | none => some (m, none)

end ManagerNormal

/-! ### Nodes and networks -/

/-- A node: its manager and its threads. -/
structure Node where
  manager : ManagerNormal
  threads : List Thread

/-- What can happen at a node. -/
inductive Action where
  /-- The node broadcasts a message of its own. -/
  | broadcastMessage (message : Message)
  /-- `on_read` of a session hands a message to the thread pool. -/
  | receive (session : Session) (message : Message)
  /-- A thread takes a step. -/
  | run (thread : Nat) (verdict : Verdict)
  | registerSession (session : Session)
  | unregisterSession (session : Session)
  | disconnectSession (host : Hash)
  /-- The first statement of `stop`; the sessions it clears are disconnected one by one. -/
  | stop
  | startServer

namespace Node

/-- Start a thread. -/
def spawn (node : Node) (t : Thread) : Node := { node with threads := node.threads ++ [t] }

/-- An operation that takes the unique lock of `sessionsMutex`. -/
def lockSessions (node : Node) (r : Bool × ManagerBase) : Option Node :=
  if node.threads.any (·.holdsSessions) then none
  else some { node with manager := node.manager.onBase r }

/-- The node after an action, unless the action is not possible. -/
def perform (node : Node) : Action → Option Node
  | .broadcastMessage message => some (node.spawn ⟨none, message, .broadcastMessage .own⟩)
  | .receive session message =>
    if node.manager.closed then none else some (node.spawn ⟨some session, message, .handleMessage⟩)
  | .run i verdict =>
    (node.threads[i]?).bind fun t =>
      (node.manager.run (node.threads.take i ++ node.threads.drop (i + 1)) verdict t).map fun r =>
        ⟨r.1, node.threads.take i ++ r.2.toList ++ node.threads.drop (i + 1)⟩
  | .registerSession session => node.lockSessions (node.manager.registerSession session)
  | .unregisterSession session => node.lockSessions (node.manager.unregisterSession session)
  | .disconnectSession host => node.lockSessions (node.manager.disconnectSession host)
  | .stop => some { node with manager := node.manager.onBase (true, { node.manager.toManagerBase with
      closed := true }) }
  | .startServer => some { node with
      manager := node.manager.onBase (true, node.manager.toManagerBase.startServer) }

/-- The writes of an action. -/
def writes (node : Node) : Action → List (Hash × Message)
  | .run i _ => ((node.threads[i]?).map Thread.writing).getD []
  | _ => []

end Node

/-- A finite network of nodes under their node ids. -/
abbrev Network := AssocMap Hash Node

/-- Something happens at a node. -/
structure Event where
  node : Hash
  action : Action

/-- A message written by a node to the session with a host. -/
structure Write where
  node : Hash
  host : Hash
  message : Message
deriving DecidableEq

namespace Network

def step (e : Event) (net : Network) : Option Network :=
  (net.lookup e.node).bind fun node => (node.perform e.action).map fun node' =>
    net.insert e.node node'

/-- The writes of an event. -/
def writes (net : Network) (e : Event) : List Write :=
  (((net.lookup e.node).map fun node => node.writes e.action).getD []).map fun w =>
    ⟨e.node, w.1, w.2⟩

/-- The writes of a run, in order. -/
def history (net : Network) (events : List Event) : List Write :=
  Machine.log step writes events net

/-- No thread is at work. -/
def Idle (net : Network) : Prop := ∀ n node, net.lookup n = some node → node.threads = []

/-- The directed sessions of the network. -/
def links (net : Network) : Finset (Hash × Hash) :=
  (net.entries.flatMap fun e => e.2.manager.sessions.keys.map fun host => (e.1, host)).toFinset

end Network

/-- The directed sessions that the events add. -/
def opened (events : List Event) : Finset (Hash × Hash) :=
  (events.filterMap fun e =>
    match e.action with
    | .registerSession session => some (e.node, session.hostNodeId)
    | _ => none).toFinset

/-! ### What a step of a thread can do -/

/-- How far the thread is with a message that it marked. -/
def Pc.stage : Pc → Option (Stage Hash)
  | .share _ => some .won
  | .write _ left => some (.emitting (left.map (·.1)))
  | _ => none

/-- No thread goes on, or one that has nothing to write before it marks a message. -/
def Rests (t : Option Thread) : Prop := ∀ t' ∈ t, t'.pc.stage = none

@[simp] theorem rests_none : Rests none := by
  intro t' h
  cases h

@[simp] theorem rests_goto {t : Thread} {pc : Pc} : Rests (t.goto pc) ↔ pc.stage = none := by
  simp [Rests, Thread.goto]

@[simp] theorem rests_back (t : Thread) (caller : Caller) : Rests (t.back caller) := by
  cases caller <;> simp [Thread.back, Pc.stage]

/-- What a step of a thread can come to. -/
inductive ThreadRun (m : ManagerNormal) (t : Thread) : ManagerNormal → Option Thread → Prop where
  /-- Nothing was marked and nothing is written. -/
  | quiet {m' : ManagerNormal} {t' : Option Thread} (hstage : t.pc.stage = none) (hrest : Rests t')
      (hcount : m'.broadcastedMessages = m.broadcastedMessages)
      (hsessions : ∀ host ∈ m'.sessions, host ∈ m.sessions) : ThreadRun m t m' t'
  | mark {caller : Caller} (hpc : t.pc = .mark caller) (hfree : m.counter t.message.id = 0) :
      ThreadRun m t (m.count t.message.id) (t.goto (.share caller))
  | share {caller : Caller} (hpc : t.pc = .share caller) :
      ThreadRun m t m (t.goto (.write caller m.sessions.entries))
  | write {caller : Caller} {s : Σ _ : Hash, Session} {left : List (Σ _ : Hash, Session)}
      (hpc : t.pc = .write caller (s :: left)) : ThreadRun m t m (t.goto (.write caller left))
  | finish {caller : Caller} (hpc : t.pc = .write caller []) : ThreadRun m t m (t.back caller)

namespace ManagerNormal

variable {m : ManagerNormal} {t : Thread}

theorem disconnectSession_sessions {m : ManagerBase} {nodeId host : Hash}
    (h : host ∈ (m.disconnectSession nodeId).2.sessions) : host ∈ m.sessions := by
  unfold ManagerBase.disconnectSession at h
  split at h
  · exact h
  · exact (AList.mem_erase.mp h).2

/-- A step that leaves the manager as it is and does not come from the writing part. -/
private theorem quiet_same {t' : Option Thread} (hstage : t.pc.stage = none) (hrest : Rests t') :
    ThreadRun m t m t' := .quiet hstage hrest rfl fun _ h => h

/-- **Step of a thread.** -/
theorem run_cases {others : List Thread} {verdict : Verdict} {r : ManagerNormal × Option Thread}
    (h : m.run others verdict t = some r) : ThreadRun m t r.1 r.2 := by
  obtain ⟨session, message, pc⟩ := t
  unfold run at h
  cases pc with
  | handleMessage =>
    dsimp only at h
    split at h
    · cases h
      exact quiet_same rfl rests_none
    · split at h <;> cases h <;> exact quiet_same rfl (by simp [Pc.stage])
  | handleBroadcast | lookup | broadcastMessage caller =>
    cases h
    refine quiet_same rfl ?_
    split <;> simp [Pc.stage]
  | dispatch =>
    dsimp only at h
    split at h <;> cases h <;> exact quiet_same rfl (by simp [Pc.stage])
  | handleTxValidatorBroadcast | handleTxBroadcast | handleBlockBroadcast | processBlock =>
    -- whatever the handler finds, the thread has marked nothing yet
    cases verdict <;> cases h <;> exact quiet_same rfl (by simp [Pc.stage])
  | lockBlock =>
    dsimp only at h
    split at h
    · cases h
    · cases h
      exact quiet_same rfl (by simp [Pc.stage])
  | mark caller =>
    dsimp only at h
    split at h
    · cases h
      exact quiet_same rfl (rests_back _ caller)
    · rename_i hzero
      cases h
      exact .mark rfl (by simpa using hzero)
  | share caller =>
    cases h
    exact .share rfl
  | write caller left =>
    cases left with
    | nil =>
      cases h
      exact .finish rfl
    | cons s left =>
      cases h
      exact .write rfl
  | disconnect =>
    dsimp only at h
    split at h
    · cases h
    · cases session with
      | some session =>
        cases h
        exact .quiet rfl rests_none rfl fun _ hmem => disconnectSession_sessions hmem
      | none =>
        cases h
        exact quiet_same rfl rests_none

theorem counter_congr {m m' : ManagerNormal} (h : m'.broadcastedMessages = m.broadcastedMessages)
    (id : RequestID) : m'.counter id = m.counter id := by
  rw [counter, counter, h]

theorem counter_count_self (m : ManagerNormal) (id : RequestID) :
    (m.count id).counter id = m.counter id + 1 := by
  show ((m.broadcastedMessages.insert id.toUint64 _).lookup id.toUint64).getD 0 = _
  rw [AList.lookup_insert, Option.getD_some]

theorem counter_count_ne (m : ManagerNormal) {id id' : RequestID} (h : id ≠ id') :
    (m.count id').counter id = m.counter id := by
  have hkey : id.toUint64 ≠ id'.toUint64 := fun he => h (RequestID.toUint64_injective he)
  show ((m.broadcastedMessages.insert id'.toUint64 _).lookup id.toUint64).getD 0 = _
  rw [AList.lookup_insert_ne hkey, counter]

end ManagerNormal

/-! ### A node as a flag that is raised once -/

/-- How far the thread is with broadcasting the id. -/
def Thread.stage (id : RequestID) (t : Thread) : Option (Stage Hash) :=
  if t.message.id = id then t.pc.stage else none

/-- The hosts to which the id was written. -/
def hostsOf (id : RequestID) (writes : List (Hash × Message)) : List Hash :=
  (writes.filter fun w => w.2.id = id).map (·.1)

/-- A manager, its threads and the hosts it wrote to so far, seen from one id: the flag is the
    counter. -/
def cellOf (m : ManagerNormal) (threads : List Thread) (id : RequestID) (written : List Hash) :
    Cell Hash :=
  ⟨decide (m.counter id ≠ 0), threads.filterMap (Thread.stage id), written⟩

section

variable {m m' : ManagerNormal} {t : Thread} {t' : Option Thread} {id : RequestID}

theorem Rests.stage_eq_nil (h : Rests t') : t'.toList.filterMap (Thread.stage id) = [] := by
  cases t' with
  | none => rfl
  | some t' =>
    have hpc : t'.pc.stage = none := h t' rfl
    simp [Thread.stage, hpc]

theorem writing_of_stage (h : t.pc.stage = none) : t.writing = [] := by
  unfold Thread.writing
  split
  · rename_i hpc
    rw [hpc] at h
    cases h
  · rfl

theorem hostsOf_writing_of_ne (h : t.message.id ≠ id) : hostsOf id t.writing = [] := by
  unfold Thread.writing
  split
  · split
    · simp [hostsOf, h]
    · rfl
  · rfl

/-- **Step.**  A step of a thread is a move of the cell of every id. -/
theorem ThreadRun.move (hrun : ThreadRun m t m' t') (A B : List Thread) (id : RequestID)
    (written : List Hash) :
    Move (cellOf m (A ++ t :: B) id written)
      (cellOf m' (A ++ t'.toList ++ B) id (written ++ hostsOf id t.writing)) := by
  have hcells : cellOf m (A ++ t :: B) id written =
      ⟨decide (m.counter id ≠ 0), A.filterMap (Thread.stage id) ++
        ((t.stage id).toList ++ B.filterMap (Thread.stage id)), written⟩ := by
    cases hs : t.stage id <;> simp [cellOf, hs]
  have hcells' : ∀ written', cellOf m' (A ++ t'.toList ++ B) id written' =
      ⟨decide (m'.counter id ≠ 0), A.filterMap (Thread.stage id) ++
        (t'.toList.filterMap (Thread.stage id) ++ B.filterMap (Thread.stage id)), written'⟩ := by
    intro written'
    simp [cellOf]
  rw [hcells, hcells']
  by_cases hid : t.message.id = id
  · subst hid
    cases hrun with
    | quiet hstage hrest hcount _ =>
      have ht : t.stage t.message.id = none := by simp [Thread.stage, hstage]
      rw [ManagerNormal.counter_congr hcount, ht, hrest.stage_eq_nil, writing_of_stage hstage]
      simpa [hostsOf] using Move.stay
    | @mark caller hpc hfree =>
      -- the test under the lock says that the flag was down
      have ht : t.stage t.message.id = none := by simp [Thread.stage, hpc, Pc.stage]
      have hw : t.writing = [] := writing_of_stage (by rw [hpc]; rfl)
      rw [ManagerNormal.counter_count_self, hfree, ht, hw]
      simpa [hostsOf, Thread.goto, Thread.stage, Pc.stage] using Move.claim
    | @share caller hpc =>
      have hw : t.writing = [] := by simp [Thread.writing, hpc]
      have hnodup : (m.sessions.entries.map (·.1)).Nodup := m.sessions.nodupKeys
      rw [hw]
      simpa [hostsOf, Thread.goto, Thread.stage, Pc.stage, hpc] using Move.fetch hnodup
    | @write caller s left hpc =>
      -- only hosts that are normal nodes are written to
      by_cases hnormal : s.2.hostType = .normalNode
      · simpa [hostsOf, Thread.goto, Thread.stage, Pc.stage, hpc, Thread.writing, hnormal]
          using Move.emit
      · simpa [hostsOf, Thread.goto, Thread.stage, Pc.stage, hpc, Thread.writing, hnormal]
          using Move.skip
    | @finish caller hpc =>
      have hw : t.writing = [] := by simp [Thread.writing, hpc]
      rw [(rests_back t caller).stage_eq_nil, hw]
      simpa [hostsOf, Thread.stage, Pc.stage, hpc] using Move.finish
  · -- the message has another id, so the cell does not change
    have ht : t.stage id = none := if_neg hid
    have hgoto : ∀ pc, (t.goto pc).toList.filterMap (Thread.stage id) = [] := by
      intro pc
      simp [Thread.goto, Thread.stage, hid]
    have hsame : m'.counter id = m.counter id ∧ t'.toList.filterMap (Thread.stage id) = [] := by
      cases hrun with
      | quiet _ hrest hcount _ => exact ⟨ManagerNormal.counter_congr hcount id, hrest.stage_eq_nil⟩
      | mark => exact ⟨ManagerNormal.counter_count_ne m (Ne.symm hid), hgoto _⟩
      | share => exact ⟨rfl, hgoto _⟩
      | write => exact ⟨rfl, hgoto _⟩
      | finish => exact ⟨rfl, (rests_back _ _).stage_eq_nil⟩
    rw [hsame.1, hsame.2, ht, hostsOf_writing_of_ne hid, List.append_nil]
    exact Move.stay

end

namespace Node

variable {node node' : Node}

theorem lockSessions_eq_some {r : Bool × ManagerBase} (h : node.lockSessions r = some node') :
    node' = { node with manager := node.manager.onBase r } := by
  unfold lockSessions at h
  split at h
  · cases h
  · exact (Option.some.inj h).symm

theorem threads_eq {i : Nat} {t : Thread} (h : node.threads[i]? = some t) :
    node.threads = node.threads.take i ++ t :: node.threads.drop (i + 1) := by
  obtain ⟨hi, rfl⟩ := List.getElem?_eq_some_iff.mp h
  rw [← List.drop_eq_getElem_cons hi, List.take_append_drop]

/-- **Step.**  Whatever happens at a node is a move of the cell of every id. -/
theorem move_of_perform {action : Action} (h : node.perform action = some node') (id : RequestID)
    (written : List Hash) :
    Move (cellOf node.manager node.threads id written)
      (cellOf node'.manager node'.threads id (written ++ hostsOf id (node.writes action))) := by
  have hspawn : ∀ t : Thread, t.pc.stage = none →
      Move (cellOf node.manager node.threads id written)
        (cellOf (node.spawn t).manager (node.spawn t).threads id (written ++ [])) := by
    intro t ht
    have hstage : t.stage id = none := by simp [Thread.stage, ht]
    have hsame : cellOf (node.spawn t).manager (node.spawn t).threads id written =
        cellOf node.manager node.threads id written := by
      show (⟨_, (node.threads ++ [t]).filterMap (Thread.stage id), _⟩ : Cell Hash) = _
      rw [List.filterMap_append, List.filterMap_cons_none hstage, List.filterMap_nil,
        List.append_nil]
      rfl
    rw [List.append_nil, hsame]
    exact Move.stay
  have hlock : ∀ r, node.lockSessions r = some node' →
      Move (cellOf node.manager node.threads id written)
        (cellOf node'.manager node'.threads id (written ++ [])) := by
    intro r hr
    rw [lockSessions_eq_some hr, List.append_nil]
    exact Move.stay
  cases action with
  | broadcastMessage message =>
    cases h
    exact hspawn _ rfl
  | receive session message =>
    unfold perform at h
    simp only at h
    split at h
    · cases h
    · cases h
      exact hspawn _ rfl
  | run i verdict =>
    obtain ⟨t, ht, h⟩ := Option.bind_eq_some_iff.mp h
    obtain ⟨r, hr, rfl⟩ := Option.map_eq_some_iff.mp h
    have hw : node.writes (.run i verdict) = t.writing := by simp [writes, ht]
    rw [hw]
    nth_rewrite 1 [threads_eq ht]
    exact (ManagerNormal.run_cases hr).move _ _ id written
  | registerSession session => exact hlock _ h
  | unregisterSession session => exact hlock _ h
  | disconnectSession host => exact hlock _ h
  | stop =>
    cases h
    rw [show hostsOf id (node.writes .stop) = [] from rfl, List.append_nil]
    exact Move.stay
  | startServer =>
    cases h
    rw [show hostsOf id (node.writes .startServer) = [] from rfl, List.append_nil]
    exact Move.stay

end Node

/-! ### Runs of a network -/

/-- The hosts to which a node wrote the id, in the order of the writes. -/
def hostsBy (n : Hash) (id : RequestID) (history : List Write) : List Hash :=
  (history.filter fun w => w.node = n ∧ w.message.id = id).map (·.host)

theorem hostsBy_append (n : Hash) (id : RequestID) (a b : List Write) :
    hostsBy n id (a ++ b) = hostsBy n id a ++ hostsBy n id b := by
  simp [hostsBy]

namespace Network

variable {net net' : Network} {e : Event} {history : List Write}

/-- The cell of a node and an id after a run that made these writes; a node that is not in the
    network has an empty cell. -/
def cell (net : Network) (history : List Write) (n : Hash) (id : RequestID) : Cell Hash :=
  match net.lookup n with
  | some node => cellOf node.manager node.threads id (hostsBy n id history)
  | none => ⟨false, [], hostsBy n id history⟩

theorem step_eq_some (h : step e net = some net') :
    ∃ node node', net.lookup e.node = some node ∧ node.perform e.action = some node' ∧
      net' = net.insert e.node node' := by
  obtain ⟨node, hnode, h⟩ := Option.bind_eq_some_iff.mp h
  obtain ⟨node', hnode', rfl⟩ := Option.map_eq_some_iff.mp h
  exact ⟨node, node', hnode, hnode', rfl⟩

theorem hostsBy_writes_self {node : Node} (h : net.lookup e.node = some node) (id : RequestID) :
    hostsBy e.node id (net.writes e) = hostsOf id (node.writes e.action) := by
  simp [hostsBy, hostsOf, writes, h, List.filter_map, Function.comp_def]

theorem hostsBy_writes_of_ne {n : Hash} (h : n ≠ e.node) (id : RequestID) :
    hostsBy n id (net.writes e) = [] := by
  simp [hostsBy, writes, List.filter_map, Function.comp_def, h.symm]

theorem cell_of_lookup {n : Hash} {node : Node} (h : net.lookup n = some node)
    (history : List Write) (id : RequestID) :
    net.cell history n id = cellOf node.manager node.threads id (hostsBy n id history) := by
  rw [cell, h]

/-- **Step.**  Every event is a move of every cell. -/
theorem move_of_step (h : step e net = some net') (history : List Write) (n : Hash)
    (id : RequestID) :
    Move (net.cell history n id) (net'.cell (history ++ net.writes e) n id) := by
  obtain ⟨node, node', hnode, hperform, rfl⟩ := step_eq_some h
  by_cases hn : n = e.node
  · subst hn
    rw [cell_of_lookup hnode, cell_of_lookup (AList.lookup_insert net), hostsBy_append,
      hostsBy_writes_self hnode]
    exact Node.move_of_perform hperform id _
  · have hsame : cell (net.insert e.node node') (history ++ net.writes e) n id =
        net.cell history n id := by
      rw [cell, cell, AList.lookup_insert_ne hn, hostsBy_append, hostsBy_writes_of_ne hn,
        List.append_nil]
    rw [hsame]
    exact Move.stay

theorem Idle.once (h : net.Idle) (n : Hash) (id : RequestID) : Once (net.cell [] n id) := by
  cases hn : net.lookup n with
  | none =>
    rw [cell, hn]
    exact .fresh
  | some node =>
    rw [cell_of_lookup hn, cellOf, h n node hn]
    show Once (⟨_, [], []⟩ : Cell Hash)
    by_cases hcount : node.manager.counter id = 0
    · simpa [hcount] using Once.fresh
    · -- the id was marked before the run, so it is never written in it
      simpa [hcount] using Once.done List.nodup_nil

/-- **Run.**  After every run of the network, every cell is raised at most once. -/
theorem once_of_run {events : List Event} (hidle : net.Idle)
    (hrun : Machine.run step events net = some net') (n : Hash) (id : RequestID) :
    Once (net'.cell (net.history events) n id) := by
  have hstep : ∀ l (net : Network) e net', (∀ n id, Once (net.cell l n id)) → True →
      step e net = some net' → ∀ n id, Once (net'.cell (l ++ net.writes e) n id) := by
    intro l net e net' h _ hnet' n id
    exact (move_of_step hnet' l n id).once (h n id)
  exact Machine.log_invariant (I := fun l net => ∀ n id, Once (net.cell l n id)) hstep
    (fun n id => hidle.once n id) (Machine.along_of_forall (fun _ _ => trivial) events net) hrun n id

end Network

/-! ### Writes go over links -/

/-- The hosts a thread still has to write to are in `L`. -/
def Thread.Within (L : Set Hash) (t : Thread) : Prop :=
  ∀ caller left, t.pc = .write caller left → ∀ s ∈ left, s.1 ∈ L

theorem Thread.within_of_stage {L : Set Hash} {t : Thread} (h : t.pc.stage = none) :
    t.Within L := by
  intro caller left hpc
  rw [hpc] at h
  cases h

/-- The hosts of a node's sessions, and those its threads still have to write to, are in `L`. -/
structure Node.Within (L : Set Hash) (node : Node) : Prop where
  sessions : ∀ host ∈ node.manager.sessions, host ∈ L
  threads : ∀ t ∈ node.threads, t.Within L

section

variable {L : Set Hash} {m m' : ManagerNormal} {t : Thread} {t' : Option Thread}

theorem ThreadRun.sessions (hrun : ThreadRun m t m' t') {host : Hash} (h : host ∈ m'.sessions) :
    host ∈ m.sessions := by
  cases hrun with
  | quiet _ _ _ hsessions => exact hsessions host h
  | mark => exact h
  | share => exact h
  | write => exact h
  | finish => exact h

theorem ThreadRun.within (hrun : ThreadRun m t m' t') (hm : ∀ host ∈ m.sessions, host ∈ L)
    (ht : t.Within L) : ∀ t₁ ∈ t', t₁.Within L := by
  intro t₁ h
  cases hrun with
  | quiet _ hrest _ _ => exact Thread.within_of_stage (hrest t₁ h)
  | mark =>
    cases h
    intro caller left hpc
    cases hpc
  | share =>
    cases h
    intro caller left hpc s hs
    cases hpc
    exact hm s.1 (List.mem_map_of_mem hs)
  | write hpc =>
    cases h
    intro caller left hpc' s hs
    cases hpc'
    exact ht _ _ hpc s (List.mem_cons_of_mem _ hs)
  | finish => exact Thread.within_of_stage (rests_back _ _ t₁ h)

theorem Thread.Within.writing (ht : t.Within L) : ∀ w ∈ t.writing, w.1 ∈ L := by
  intro w hw
  unfold Thread.writing at hw
  split at hw
  · rename_i caller s left hpc
    split at hw
    · rw [List.mem_singleton] at hw
      rw [hw]
      exact ht caller (s :: left) hpc s (by simp)
    · cases hw
  · cases hw

end

namespace Node

variable {L : Set Hash} {node node' : Node}

theorem Within.spawn (h : node.Within L) {t : Thread} (ht : t.pc.stage = none) :
    (node.spawn t).Within L := by
  refine ⟨h.sessions, fun t' ht' => ?_⟩
  rcases List.mem_append.mp ht' with ht' | ht'
  · exact h.threads t' ht'
  · rw [List.mem_singleton.mp ht']
    exact Thread.within_of_stage ht

theorem Within.lockSessions (h : node.Within L) {r : Bool × ManagerBase}
    (hr : ∀ host ∈ r.2.sessions, host ∈ L) (hlock : node.lockSessions r = some node') :
    node'.Within L := by
  rw [lockSessions_eq_some hlock]
  exact ⟨hr, h.threads⟩

theorem registerSession_sessions {m : ManagerBase} {session : Session} {host : Hash}
    (h : host ∈ (m.registerSession session).2.sessions) :
    host = session.hostNodeId ∨ host ∈ m.sessions := by
  unfold ManagerBase.registerSession at h
  split at h
  · exact .inr h
  · split at h
    · exact .inr h
    · exact (AList.mem_insert m.sessions).mp h

theorem unregisterSession_sessions {m : ManagerBase} {session : Session} {host : Hash}
    (h : host ∈ (m.unregisterSession session).2.sessions) : host ∈ m.sessions := by
  unfold ManagerBase.unregisterSession at h
  split at h
  · exact h
  · exact (AList.mem_erase.mp h).2

/-- **Step.**  A node stays within `L` if the sessions it registers are. -/
theorem Within.perform (h : node.Within L) {action : Action}
    (hopen : ∀ session, action = .registerSession session → session.hostNodeId ∈ L)
    (hperform : node.perform action = some node') : node'.Within L := by
  cases action with
  | broadcastMessage message =>
    cases hperform
    exact h.spawn rfl
  | receive session message =>
    unfold Node.perform at hperform
    simp only at hperform
    split at hperform
    · cases hperform
    · cases hperform
      exact h.spawn rfl
  | run i verdict =>
    obtain ⟨t, ht, hperform⟩ := Option.bind_eq_some_iff.mp hperform
    obtain ⟨r, hr, rfl⟩ := Option.map_eq_some_iff.mp hperform
    have hrun := ManagerNormal.run_cases hr
    refine ⟨fun host hhost => h.sessions host (hrun.sessions hhost), fun t' ht' => ?_⟩
    have hmem := List.mem_of_getElem? ht
    rcases List.mem_append.mp ht' with ht' | ht'
    · rcases List.mem_append.mp ht' with ht' | ht'
      · exact h.threads t' (List.mem_of_mem_take ht')
      · exact hrun.within h.sessions (h.threads t hmem) t' (Option.mem_toList.mp ht')
    · exact h.threads t' (List.mem_of_mem_drop ht')
  | registerSession session =>
    refine h.lockSessions (fun host hhost => ?_) hperform
    rcases registerSession_sessions hhost with rfl | hhost
    · exact hopen session rfl
    · exact h.sessions host hhost
  | unregisterSession session =>
    exact h.lockSessions
      (fun host hhost => h.sessions host (unregisterSession_sessions hhost)) hperform
  | disconnectSession nodeId =>
    exact h.lockSessions
      (fun host hhost => h.sessions host (ManagerNormal.disconnectSession_sessions hhost)) hperform
  | stop =>
    cases hperform
    exact ⟨h.sessions, h.threads⟩
  | startServer =>
    cases hperform
    exact ⟨h.sessions, h.threads⟩

theorem Within.writes (h : node.Within L) (action : Action) :
    ∀ w ∈ node.writes action, w.1 ∈ L := by
  intro w hw
  cases action with
  | run i verdict =>
    cases ht : node.threads[i]? with
    | none => simp [Node.writes, ht] at hw
    | some t =>
      have hw' : w ∈ t.writing := by simpa [Node.writes, ht] using hw
      exact (h.threads t (List.mem_of_getElem? ht)).writing w hw'
  | _ => cases hw

end Node

namespace Network

variable {net net' : Network} {links : Finset (Hash × Hash)} {events : List Event}

/-- The sessions of the network and the writes so far are among `links`. -/
structure Within (links : Finset (Hash × Hash)) (history : List Write) (net : Network) : Prop where
  nodes : ∀ n node, net.lookup n = some node → node.Within {host | (n, host) ∈ links}
  written : ∀ w ∈ history, (w.node, w.host) ∈ links

theorem Within.step {history : List Write} {e : Event} (h : Within links history net)
    (hopen : ∀ session, e.action = .registerSession session →
      (e.node, session.hostNodeId) ∈ links)
    (hstep : Network.step e net = some net') : Within links (history ++ net.writes e) net' := by
  obtain ⟨node, node', hnode, hperform, rfl⟩ := step_eq_some hstep
  have hin := h.nodes e.node node hnode
  refine ⟨fun n node₁ hlook => ?_, fun w hw => ?_⟩
  · by_cases hn : n = e.node
    · subst hn
      rw [AList.lookup_insert] at hlook
      cases hlook
      exact hin.perform hopen hperform
    · rw [AList.lookup_insert_ne hn] at hlook
      exact h.nodes n node₁ hlook
  · rcases List.mem_append.mp hw with hw | hw
    · exact h.written w hw
    · rw [writes, hnode] at hw
      obtain ⟨w', hw', rfl⟩ := List.mem_map.mp hw
      exact hin.writes e.action w' hw'

theorem mem_links {n host : Hash} {node : Node} (hnode : net.lookup n = some node)
    (hhost : host ∈ node.manager.sessions) : (n, host) ∈ net.links := by
  rw [Network.links, List.mem_toFinset, List.mem_flatMap]
  exact ⟨⟨n, node⟩, AList.mem_lookup_iff.mp hnode, List.mem_map_of_mem hhost⟩

theorem mem_opened {e : Event} (he : e ∈ events) {session : Session}
    (haction : e.action = .registerSession session) :
    (e.node, session.hostNodeId) ∈ opened events := by
  rw [opened, List.mem_toFinset, List.mem_filterMap]
  exact ⟨e, he, by rw [haction]⟩

/-- **Run.**  All writes go over the links the network had or got. -/
theorem written_within (hidle : net.Idle) (hrun : Machine.run step events net = some net') :
    ∀ w ∈ net.history events, (w.node, w.host) ∈ net.links ∪ opened events := by
  have hstart : Within (net.links ∪ opened events) [] net := by
    refine ⟨fun n node hnode => ⟨fun host hhost => ?_, ?_⟩, by simp⟩
    · show (n, host) ∈ net.links ∪ opened events
      exact Finset.mem_union_left _ (mem_links hnode hhost)
    · rw [hidle n node hnode]
      simp
  have halong : Machine.Along step (fun _ e => ∀ session, e.action = .registerSession session →
      (e.node, session.hostNodeId) ∈ net.links ∪ opened events) events net := by
    refine Machine.along_of_mem (fun e he _ session haction => ?_) net
    exact Finset.mem_union_right _ (mem_opened he haction)
  exact (Machine.log_invariant (fun _ _ _ _ h hopen hnet' => h.step hopen hnet') hstart halong
    hrun).written

/-! ### At most once per link -/

theorem nodup_links {writes : List Write}
    (h : ∀ n, ((writes.filter fun w => w.node = n).map (·.host)).Nodup) :
    (writes.map fun w => (w.node, w.host)).Nodup := by
  induction writes with
  | nil => exact List.nodup_nil
  | cons w writes ih =>
    rw [List.map_cons, List.nodup_cons]
    constructor
    · intro hmem
      obtain ⟨w', hw', he⟩ := List.mem_map.mp hmem
      obtain ⟨hnode, hhost⟩ := Prod.mk.inj he
      have hw := h w.node
      rw [List.filter_cons_of_pos (by simp), List.map_cons, List.nodup_cons] at hw
      refine hw.1 (List.mem_map.mpr ⟨w', ?_, hhost⟩)
      exact List.mem_filter.mpr ⟨hw', by simp [hnode]⟩
    · refine ih fun n => (h n).sublist ?_
      exact (List.Sublist.filter _ (List.sublist_cons_self w writes)).map _

/-- **At most once per link.**  In every run of a network that starts with no broadcast under
    way, with any messages arriving, any verdicts, any interleaving of the threads, and
    sessions coming and going: no node writes an id twice to the same host, and the writes of
    one id are at most as many as the directed sessions that the network had or got. -/
theorem once_per_link (hidle : net.Idle) (hrun : Machine.run step events net = some net')
    (id : RequestID) :
    (((net.history events).filter fun w => w.message.id = id).map
        fun w => (w.node, w.host)).Nodup ∧
      ((net.history events).filter fun w => w.message.id = id).length ≤
        (net.links ∪ opened events).card := by
  have hnodup : (((net.history events).filter fun w => w.message.id = id).map
      fun w => (w.node, w.host)).Nodup := by
    refine nodup_links fun n => ?_
    have hhosts : (hostsBy n id (net.history events)).Nodup := by
      have hcell := (once_of_run hidle hrun n id).nodup
      unfold cell at hcell
      split at hcell <;> exact hcell
    rw [List.filter_filter]
    simpa [hostsBy, Bool.decide_and] using hhosts
  refine ⟨hnodup, ?_⟩
  calc ((net.history events).filter fun w => w.message.id = id).length
      = (((net.history events).filter fun w => w.message.id = id).map
          fun w => (w.node, w.host)).toFinset.card := by
        rw [List.toFinset_card_of_nodup hnodup, List.length_map]
    _ ≤ (net.links ∪ opened events).card := by
        refine Finset.card_le_card fun link hlink => ?_
        obtain ⟨w, hw, rfl⟩ := List.mem_map.mp (List.mem_toFinset.mp hlink)
        exact written_within hidle hrun w (List.mem_of_mem_filter hw)

/-- A session with the node whose id ends in `n`. -/
def sessionOf (n : Nat) : Session := ⟨n, .ofNat 32 n, .normalNode, .server⟩

/-- An open node with a session to one other node. -/
def nodeWith (n : Nat) : Node where
  manager :=
    { closed := false
      sessions := AList.insert (.ofNat 32 n) (sessionOf n) ∅
      clientSessionsCount := 0
      requests := .empty
      broadcastedMessages := ∅ }
  threads := []

/-- Two nodes with sessions to each other. -/
def twoNodes : Network :=
  (AList.insert (.ofNat 32 1) (nodeWith 2) ∅).insert (.ofNat 32 2) (nodeWith 1)

/-- A transaction that is broadcast. -/
def broadcastTx : Message := .ofFrame .broadcasting (.ofNat 8 9) .broadcastTx [] (by decide) (by decide)

/-- The first thread of a node takes some steps, with everything accepted. -/
def steps (n count : Nat) : List Event := List.replicate count ⟨.ofNat 32 n, .run 0 .accepted⟩

/-- The first node broadcasts, the second one receives the message and broadcasts it in turn,
    and the first one receives it back. -/
def flooding : List Event :=
  ⟨.ofNat 32 1, .broadcastMessage broadcastTx⟩ :: steps 1 5 ++
    ⟨.ofNat 32 2, .receive (sessionOf 1) broadcastTx⟩ :: steps 2 10 ++
    ⟨.ofNat 32 1, .receive (sessionOf 2) broadcastTx⟩ :: steps 1 3

theorem twoNodes_idle : twoNodes.Idle := by
  intro n node hlook
  unfold twoNodes at hlook
  by_cases h2 : n = .ofNat 32 2
  · rw [h2, AList.lookup_insert] at hlook
    cases hlook
    rfl
  · rw [AList.lookup_insert_ne h2] at hlook
    by_cases h1 : n = .ofNat 32 1
    · rw [h1, AList.lookup_insert] at hlook
      cases hlook
      rfl
    · rw [AList.lookup_insert_ne h1] at hlook
      cases hlook

/-- In the flooding of two nodes each link is used, and no link twice. -/
theorem once_per_link_flooding : ∃ net', Machine.run step flooding twoNodes = some net' ∧
    ((twoNodes.history flooding).map fun w => (w.node, w.host)) =
      [(.ofNat 32 1, .ofNat 32 2), (.ofNat 32 2, .ofNat 32 1)] ∧
    (((twoNodes.history flooding).filter fun w => w.message.id = broadcastTx.id).map
        fun w => (w.node, w.host)).Nodup ∧
      ((twoNodes.history flooding).filter fun w => w.message.id = broadcastTx.id).length ≤
        (twoNodes.links ∪ opened flooding).card := by
  have hsome : (Machine.run step flooding twoNodes).isSome = true := by decide +kernel
  obtain ⟨net', hnet'⟩ := Option.isSome_iff_exists.mp hsome
  exact ⟨net', hnet', by decide +kernel, once_per_link twoNodes_idle hnet' broadcastTx.id⟩

end Network

end OrbiterSdk.P2P.Gossip
