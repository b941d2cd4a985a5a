import OrbiterSdk.Lib.AssocMap
import OrbiterSdk.Net.Encoding

namespace OrbiterSdk.P2P

/-!
# The connection manager: sessions and requests

`ManagerBase` of `net/p2p/p2pmanagerbase` and the answer handlers of `ManagerNormal`.

* `Session` — a connection to a host, which told its node id in the handshake;
* `Request` — a request that was sent, with the promise of its answer;
* `Requests` — the table `requests_`.  The entries are shared pointers, so each carries the
  number of the object it points to; the table carries that no two entries share an object;
* `ManagerBase.sendMessageTo` files a request, `ManagerBase.handleAnswer` answers it.

Session writes leave the manager as it is and do not show here.
-/

/-- What an operation of the network code throws. -/
inductive Thrown where
  | exn (e : Exn)
  /-- `std::future_error(promise_already_satisfied)`. -/
  | promiseAlreadySatisfied
deriving DecidableEq

/-- `BaseSession`, as far as the manager reads it; `object` tells one session object from
    another one to the same host. -/
structure Session where
  object : Nat
  hostNodeId : Hash
  hostType : NodeType
  connectionType : ConnectionType
deriving DecidableEq

/-! ### Requests -/

/-- `Request`; `answer` is the promise. -/
structure Request where
  object : Nat
  command : CommandType
  id : RequestID
  nodeId : Hash
  answer : Option Message
  isAnswered : Bool
deriving DecidableEq

/-- The request once its promise is set. -/
def Request.answered (r : Request) (answer : Message) : Request :=
  { r with answer := some answer, isAnswered := true }

/-- `Request::setAnswer`: a promise can be set only once. -/
def Request.setAnswer (r : Request) (answer : Message) : Except Thrown Request :=
  match r.answer with
  | some _ => .error .promiseAlreadySatisfied
  | none => .ok (r.answered answer)

/-- `requests_` and the number of `Request` objects made so far. -/
structure Requests where
  table : AssocMap RequestID Request
  made : Nat
  object_lt : ∀ id r, table.lookup id = some r → r.object < made
  object_inj : ∀ id id' r r', table.lookup id = some r → table.lookup id' = some r' →
    r.object = r'.object → id = id'

namespace Requests

/-- The table of a new manager. -/
def empty : Requests where
  table := ∅
  made := 0
  object_lt := by
    intro id r h
    simp at h
  object_inj := by
    intro id id' r r' h
    simp at h

/-- An entry that is read back is the new one or an old one under another id. -/
private theorem lookup_insert_cases {table : AssocMap RequestID Request} {id id' : RequestID}
    {r r' : Request} (h : (table.insert id r).lookup id' = some r') :
    (id' = id ∧ r' = r) ∨ (id' ≠ id ∧ table.lookup id' = some r') := by
  by_cases hid : id' = id
  · subst hid
    rw [AList.lookup_insert] at h
    exact .inl ⟨rfl, (Option.some.inj h).symm⟩
  · rw [AList.lookup_insert_ne hid] at h
    exact .inr ⟨hid, h⟩

/-- `requests_[id] = std::make_shared<Request>(command, id, nodeId)`: an entry that was there
    under the id is dropped. -/
def file (rs : Requests) (command : CommandType) (id : RequestID) (nodeId : Hash) : Requests where
  table := rs.table.insert id ⟨rs.made, command, id, nodeId, none, false⟩
  made := rs.made + 1
  object_lt := by
    intro i r h
    rcases lookup_insert_cases h with ⟨-, rfl⟩ | ⟨-, h⟩
    · exact Nat.lt_succ_self _
    · exact Nat.lt_succ_of_lt (rs.object_lt i r h)
  object_inj := by
    intro i i' r r' h h' he
    rcases lookup_insert_cases h with ⟨rfl, rfl⟩ | ⟨-, hold⟩ <;>
      rcases lookup_insert_cases h' with ⟨rfl, rfl⟩ | ⟨-, hold'⟩
    · rfl
    · exact absurd he.symm (Nat.ne_of_lt (rs.object_lt i' r' hold'))
    · exact absurd he (Nat.ne_of_lt (rs.object_lt i r hold))
    · exact rs.object_inj i i' r r' hold hold' he

/-- Every entry points to the object it pointed to before a change in place. -/
private theorem object_of_lookup_modify {table : AssocMap RequestID Request} {id i : RequestID}
    {f : Request → Request} {r' : Request} (h : (table.modify id f).lookup i = some r')
    (hf : ∀ r, (f r).object = r.object) :
    ∃ r, table.lookup i = some r ∧ r'.object = r.object := by
  rw [AssocMap.lookup_modify] at h
  split at h
  · obtain ⟨r, hr, rfl⟩ := Option.map_eq_some_iff.mp h
    exact ⟨r, hr, hf r⟩
  · exact ⟨r', h, rfl⟩

/-- The object an entry points to changes in place. -/
def update (rs : Requests) (id : RequestID) (answered : Request) : Requests where
  table := rs.table.modify id fun r => { answered with object := r.object }
  made := rs.made
  object_lt := by
    intro i r h
    obtain ⟨r₀, hr₀, he⟩ := object_of_lookup_modify h (fun _ => rfl)
    exact he ▸ rs.object_lt i r₀ hr₀
  object_inj := by
    intro i i' r r' h h' he
    obtain ⟨r₀, hr₀, hobj⟩ := object_of_lookup_modify h (fun _ => rfl)
    obtain ⟨r₀', hr₀', hobj'⟩ := object_of_lookup_modify h' (fun _ => rfl)
    exact rs.object_inj i i' r₀ r₀' hr₀ hr₀' (hobj.symm.trans (he.trans hobj'))

end Requests

/-! ### The manager -/

/-- `ManagerBase`: the flag `closed_`, the two tables and the count of client sessions. -/
structure ManagerBase where
  closed : Bool
  sessions : AssocMap Hash Session
  clientSessionsCount : UInt32
  requests : Requests

namespace ManagerBase

/-- `ManagerBase::registerSession`, with its result. -/
def registerSession (m : ManagerBase) (session : Session) : Bool × ManagerBase :=
  if m.closed then (false, m)
  else if session.hostNodeId ∈ m.sessions then (false, m)
  else
    (true, { m with
      clientSessionsCount :=
        if session.connectionType = .client then m.clientSessionsCount + 1
        else m.clientSessionsCount
      sessions := m.sessions.insert session.hostNodeId session })

/-- `ManagerBase::unregisterSession`, with its result. -/
def unregisterSession (m : ManagerBase) (session : Session) : Bool × ManagerBase :=
  if session.hostNodeId ∉ m.sessions then (false, m)
  else
    (true, { m with
      clientSessionsCount :=
        if session.connectionType = .client then m.clientSessionsCount - 1
        else m.clientSessionsCount
      sessions := m.sessions.erase session.hostNodeId })

/-- `ManagerBase::disconnectSession`, with its result. -/
def disconnectSession (m : ManagerBase) (nodeId : Hash) : Bool × ManagerBase :=
  if nodeId ∉ m.sessions then (false, m)
  else (true, { m with sessions := m.sessions.erase nodeId })

/-- `ManagerBase::stop`. -/
def stop (m : ManagerBase) : ManagerBase := { m with closed := true, sessions := ∅ }

/-- `ManagerBase::startServer`. -/
def startServer (m : ManagerBase) : ManagerBase := { m with closed := false }

/-- `ManagerBase::sendMessageTo`: the request filed, if any, and the manager. -/
def sendMessageTo (m : ManagerBase) (nodeId : Hash) (message : Message) :
    Except Thrown (Option Request × ManagerBase) :=
  if m.closed then .ok (none, m)
  else
    match m.sessions.lookup nodeId with
    | none => .ok (none, m)
    | some session =>
      match message.command with
      | .error e => .error (.exn e)
      | .ok command =>
        -- only ping and requestNodes may be asked of a discovery node
        if session.hostType = .discoveryNode ∧
            (command = .info ∨ command = .requestValidatorTxs) then .ok (none, m)
        else
          let requests := m.requests.file command message.id session.hostNodeId
          .ok (requests.table.lookup message.id, { m with requests })

/-- A promise that was set: the request as it was, the session and the message. -/
structure Setting where
  request : Request
  session : Session
  message : Message
deriving DecidableEq

/-- The common body of the four answer handlers: the promise set, if any, and the manager. -/
def answerRequest (m : ManagerBase) (session : Session) (message : Message) :
    Except Thrown (Option Setting × ManagerBase) :=
  match m.requests.table.lookup message.id with
  | none => .ok (none, (m.disconnectSession session.hostNodeId).2)
  | some request =>
    match request.setAnswer message with
    | .error e => .error e
    | .ok answered =>
      .ok (some ⟨request, session, message⟩,
        { m with requests := m.requests.update message.id answered })

/-- `ManagerNormal::handlePingAnswer`. -/
def handlePingAnswer := answerRequest

/-- `ManagerNormal::handleInfoAnswer`. -/
def handleInfoAnswer := answerRequest

/-- `ManagerNormal::handleRequestNodesAnswer`. -/
def handleRequestNodesAnswer := answerRequest

/-- `ManagerNormal::handleTxValidatorAnswer`. -/
def handleTxValidatorAnswer := answerRequest

/-- `ManagerNormal::handleAnswer`. -/
def handleAnswer (m : ManagerBase) (session : Session) (message : Message) :
    Except Thrown (Option Setting × ManagerBase) :=
  match message.command with
  | .error e => .error (.exn e)
  | .ok .ping => m.handlePingAnswer session message
  | .ok .info => m.handleInfoAnswer session message
  | .ok .requestNodes => m.handleRequestNodesAnswer session message
  | .ok .requestValidatorTxs => m.handleTxValidatorAnswer session message
  | .ok _ => .ok (none, (m.disconnectSession session.hostNodeId).2)

/-- `ManagerNormal::handleMessage` on a message of type `Answering`. -/
def handleAnswering (m : ManagerBase) (session : Session) (message : Message) :
    Except Thrown (Option Setting × ManagerBase) :=
  if m.closed then .ok (none, m) else m.handleAnswer session message

end ManagerBase

end OrbiterSdk.P2P
