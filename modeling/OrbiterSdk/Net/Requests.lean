import OrbiterSdk.Lib.Machine
import OrbiterSdk.Net.Manager

namespace OrbiterSdk.P2P

/-!
# Requests and their answers

A manager sends requests and handles the answers that its sessions deliver, in any order and
with sessions coming and going.  The handlers look a request up by the id in the message and
set its promise; they compare neither the session nor the command with the request, and a
second answer makes the promise throw.

* `Event`, `ManagerBase.step` — the operations on the two tables.  Each handler holds
  `requestsMutex` from its lookup to the promise, so it is one step;
* `Matched` — every promise is set at most once, by the node that was asked and with the
  command that was sent, and no handler throws;
* `objects_nodup` — the first part always holds: the promise of an object is set once;
* `Proper`, `matched_iff_proper` — the rest holds in exactly the runs in which every answer
  for a filed request comes from the node that was asked, with its command, and first.
-/

/-- A message of type `Answering`. -/
structure Answer extends Message where
  answering : toMessage.type = .ok .answering
deriving DecidableEq

/-- An operation on the tables of a manager. -/
inductive Event where
  | sendMessageTo (nodeId : Hash) (message : Message)
  /-- A session delivers an answer. -/
  | answer (session : Session) (message : Answer)
  | registerSession (session : Session)
  | unregisterSession (session : Session)
  | disconnectSession (nodeId : Hash)
  | stop
  | startServer

/-- What an answer handler did that others can see. -/
inductive Outcome where
  | set (setting : ManagerBase.Setting)
  | threw (e : Thrown)
deriving DecidableEq

namespace ManagerBase

/-- The manager an operation leaves; one that throws leaves it as it was. -/
def left {α : Type} (m : ManagerBase) : Except Thrown (α × ManagerBase) → ManagerBase
  | .ok (_, m') => m'
  | .error _ => m

/-- The manager after an operation. -/
def after (m : ManagerBase) : Event → ManagerBase
  | .sendMessageTo nodeId message => m.left (m.sendMessageTo nodeId message)
  | .answer session message => m.left (m.handleAnswering session message.toMessage)
  | .registerSession session => (m.registerSession session).2
  | .unregisterSession session => (m.unregisterSession session).2
  | .disconnectSession nodeId => (m.disconnectSession nodeId).2
  | .stop => m.stop
  | .startServer => m.startServer

/-- Every operation can be performed in every state. -/
def step (e : Event) (m : ManagerBase) : Option ManagerBase := some (m.after e)

/-- What an answer handler did to the promises. -/
def shown : Except Thrown (Option Setting × ManagerBase) → List Outcome
  | .ok (some setting, _) => [.set setting]
  | .ok (none, _) => []
  | .error e => [.threw e]

/-- What an operation does to the promises. -/
def outcomes (m : ManagerBase) : Event → List Outcome
  | .answer session message => shown (m.handleAnswering session message.toMessage)
  | _ => []

/-- The outcomes of a run, in order. -/
def history (m : ManagerBase) (events : List Event) : List Outcome :=
  Machine.log step outcomes events m

end ManagerBase

/-! ### What the claim asks of a history -/

/-- The object whose promise was set. -/
def Outcome.object? : Outcome → Option Nat
  | .set setting => some setting.request.object
  | .threw _ => none

/-- The objects whose promise was set, in order. -/
def objects (history : List Outcome) : List Nat := history.filterMap Outcome.object?

/-- Answers match requests. -/
structure Matched (history : List Outcome) : Prop where
  /-- No promise is set twice. -/
  once : (objects history).Nodup
  /-- The node that was asked answers. -/
  host : ∀ setting, .set setting ∈ history →
    setting.session.hostNodeId = setting.request.nodeId
  /-- It answers what it was asked. -/
  command : ∀ setting, .set setting ∈ history →
    setting.message.command = .ok setting.request.command
  /-- No handler throws. -/
  silent : ∀ e, .threw e ∉ history

/-- The part of `Matched` that concerns one outcome. -/
def Outcome.Fine : Outcome → Prop
  | .set setting => setting.session.hostNodeId = setting.request.nodeId ∧
      setting.message.command = .ok setting.request.command
  | .threw _ => False

theorem matched_iff {history : List Outcome} :
    Matched history ↔ (objects history).Nodup ∧ ∀ o ∈ history, o.Fine := by
  constructor
  · intro h
    refine ⟨h.once, fun o ho => ?_⟩
    cases o with
    | set setting => exact ⟨h.host setting ho, h.command setting ho⟩
    | threw e => exact h.silent e ho
  · rintro ⟨hnd, hfine⟩
    exact ⟨hnd, fun _ h => (hfine _ h).1, fun _ h => (hfine _ h).2, fun _ h => hfine _ h⟩

/-! ### One answer -/

/-- The commands that have an answer handler. -/
def CommandType.hasAnswer : CommandType → Bool
  | .ping | .info | .requestNodes | .requestValidatorTxs => true
  | _ => false

namespace ManagerBase

variable {m m' : ManagerBase} {session : Session} {message : Message}

theorem handleAnswer_of_ok {command : CommandType} (h : message.command = .ok command) :
    m.handleAnswer session message =
      if command.hasAnswer then m.answerRequest session message
      else .ok (none, (m.disconnectSession session.hostNodeId).2) := by
  unfold handleAnswer
  rw [h]
  cases command <;> rfl

theorem disconnectSession_requests (nodeId : Hash) :
    (m.disconnectSession nodeId).2.requests = m.requests := by
  unfold disconnectSession
  split <;> rfl

/-- What handling an answer can come to. -/
inductive AnswerRun (m : ManagerBase) (session : Session) (message : Message) :
    Except Thrown (Option Setting × ManagerBase) → Prop where
  | closed (h : m.closed = true) : AnswerRun m session message (.ok (none, m))
  | unreadable {e : Exn} (h : m.closed = false) (hc : message.command = .error e) :
      AnswerRun m session message (.error (.exn e))
  | noHandler {command : CommandType} (h : m.closed = false) (hc : message.command = .ok command)
      (hno : command.hasAnswer = false) :
      AnswerRun m session message (.ok (none, (m.disconnectSession session.hostNodeId).2))
  | unknown {command : CommandType} (h : m.closed = false) (hc : message.command = .ok command)
      (hlook : m.requests.table.lookup message.id = none) :
      AnswerRun m session message (.ok (none, (m.disconnectSession session.hostNodeId).2))
  | again {command : CommandType} {request : Request} {first : Message} (h : m.closed = false)
      (hc : message.command = .ok command) (hhas : command.hasAnswer = true)
      (hlook : m.requests.table.lookup message.id = some request)
      (hans : request.answer = some first) :
      AnswerRun m session message (.error .promiseAlreadySatisfied)
  | answered {command : CommandType} {request : Request} (h : m.closed = false)
      (hc : message.command = .ok command) (hhas : command.hasAnswer = true)
      (hlook : m.requests.table.lookup message.id = some request)
      (hans : request.answer = none) :
      AnswerRun m session message (.ok (some ⟨request, session, message⟩,
        { m with requests := m.requests.update message.id (request.answered message) }))

/-- **Handling an answer.** -/
theorem handleAnswering_run (m : ManagerBase) (session : Session) (message : Message) :
    AnswerRun m session message (m.handleAnswering session message) := by
  unfold handleAnswering
  cases hclosed : m.closed with
  | true => exact .closed hclosed
  | false =>
    rw [if_neg (by simp)]
    cases hc : message.command with
    | error e =>
      have : m.handleAnswer session message = .error (.exn e) := by
        unfold handleAnswer
        rw [hc]
      rw [this]
      exact .unreadable hclosed hc
    | ok command =>
      rw [handleAnswer_of_ok hc]
      cases hhas : command.hasAnswer with
      | false => exact .noHandler hclosed hc hhas
      | true =>
        rw [if_pos rfl]
        unfold answerRequest
        cases hlook : m.requests.table.lookup message.id with
        | none => exact .unknown hclosed hc hlook
        | some request =>
          dsimp only
          unfold Request.setAnswer
          cases hans : request.answer with
          | none => exact .answered hclosed hc hhas hlook hans
          | some first => exact .again hclosed hc hhas hlook hans

/-- An answer that does what an answer should: it can be read, and if its id finds a request
    then this is the first answer, from the node that was asked, with the command it was
    asked. -/
def Proper (m : ManagerBase) : Event → Prop
  | .answer session message => m.closed = true ∨ ∃ command, message.command = .ok command ∧
      (command.hasAnswer = true → ∀ request,
        m.requests.table.lookup message.id = some request →
          request.answer = none ∧ request.nodeId = session.hostNodeId ∧
            request.command = command)
  | _ => True

theorem fine_iff_of_run {message : Answer} {x : Except Thrown (Option Setting × ManagerBase)}
    (hrun : AnswerRun m session message.toMessage x) :
    (∀ o ∈ shown x, o.Fine) ↔ m.Proper (.answer session message) := by
  unfold Proper
  cases hrun with
  | closed h => simp [shown, h]
  | unreadable h hc => simp [shown, h, hc, Outcome.Fine]
  | noHandler h hc hno => simp [shown, h, hc, hno]
  | unknown h hc hlook => simp [shown, h, hc, hlook]
  | again h hc hhas hlook hans => simp [shown, h, hc, hhas, hlook, hans, Outcome.Fine]
  | @answered command request h hc hhas hlook hans =>
    -- the promise is set, so the comparisons the handler leaves out decide
    simp [shown, h, hc, hhas, hlook, hans, Outcome.Fine, @eq_comm _ request.nodeId,
      @eq_comm _ request.command]

/-- The outcome of one operation is fine exactly when the operation is proper. -/
theorem fine_iff_proper (m : ManagerBase) (e : Event) :
    (∀ o ∈ m.outcomes e, o.Fine) ↔ m.Proper e := by
  cases e with
  | answer session message =>
    exact fine_iff_of_run (handleAnswering_run m session message.toMessage)
  | _ => simp [outcomes, Proper]

/-! ### No promise is set twice -/

/-- What an operation does to the table of requests, and the objects whose promise it sets. -/
inductive TableRun (m : ManagerBase) : ManagerBase → List Nat → Prop where
  | same {m' : ManagerBase} (h : m'.requests = m.requests) : TableRun m m' []
  | filed {m' : ManagerBase} {command : CommandType} {id : RequestID} {nodeId : Hash}
      (h : m'.requests = m.requests.file command id nodeId) : TableRun m m' []
  | answered {m' : ManagerBase} {request : Request} {message : Message}
      (hlook : m.requests.table.lookup message.id = some request) (hans : request.answer = none)
      (h : m'.requests = m.requests.update message.id (request.answered message)) :
      TableRun m m' [request.object]

theorem sendMessageTo_run {nodeId : Hash} {r : Option Request × ManagerBase}
    (h : m.sendMessageTo nodeId message = .ok r) : TableRun m r.2 [] := by
  unfold sendMessageTo at h
  split at h
  · cases h
    exact .same rfl
  · cases hlook : m.sessions.lookup nodeId with
    | none =>
      rw [hlook] at h
      cases h
      exact .same rfl
    | some session =>
      rw [hlook] at h
      cases hc : message.command with
      | error e =>
        rw [hc] at h
        cases h
      | ok command =>
        simp only [hc] at h
        split at h
        · cases h
          exact .same rfl
        · cases h
          exact .filed rfl

theorem left_run_of_answer {x : Except Thrown (Option Setting × ManagerBase)}
    (hrun : AnswerRun m session message x) : TableRun m (m.left x) (objects (shown x)) := by
  cases hrun with
  | closed => exact .same rfl
  | unreadable => exact .same rfl
  | noHandler => exact .same (disconnectSession_requests _)
  | unknown => exact .same (disconnectSession_requests _)
  | again => exact .same rfl
  | answered h hc hhas hlook hans => exact .answered hlook hans rfl

theorem after_run (m : ManagerBase) (e : Event) :
    TableRun m (m.after e) (objects (m.outcomes e)) := by
  cases e with
  | sendMessageTo nodeId message =>
    show TableRun m (m.left (m.sendMessageTo nodeId message)) []
    cases hsend : m.sendMessageTo nodeId message with
    | ok r => exact sendMessageTo_run hsend
    | error e => exact .same rfl
  | answer session message =>
    exact left_run_of_answer (handleAnswering_run m session message.toMessage)
  | registerSession session =>
    refine .same ?_
    show (m.registerSession session).2.requests = m.requests
    unfold registerSession
    split
    · rfl
    · split <;> rfl
  | unregisterSession session =>
    refine .same ?_
    show (m.unregisterSession session).2.requests = m.requests
    unfold unregisterSession
    split <;> rfl
  | disconnectSession nodeId => exact .same (disconnectSession_requests nodeId)
  | stop => exact .same rfl
  | startServer => exact .same rfl

/-- The promises set so far belong to made objects, each was set once, and none of them is
    open in the table. -/
structure SetOnce (set : List Nat) (m : ManagerBase) : Prop where
  nodup : set.Nodup
  made : ∀ object ∈ set, object < m.requests.made
  opened : ∀ id r, m.requests.table.lookup id = some r → r.answer = none → r.object ∉ set

theorem SetOnce.step {set new : List Nat} (h : SetOnce set m) (hrun : TableRun m m' new) :
    SetOnce (set ++ new) m' := by
  cases hrun with
  | same hreq => exact ⟨by simpa using h.nodup, by simpa [hreq] using h.made,
      by simpa [hreq] using h.opened⟩
  | @filed command id nodeId hreq =>
    rw [List.append_nil]
    refine ⟨h.nodup, fun object ho => ?_, fun i r hlook hans => ?_⟩
    · rw [hreq]
      exact Nat.lt_succ_of_lt (h.made object ho)
    · rw [hreq] at hlook
      by_cases hi : i = id
      · -- the new object is none of those made before
        subst hi
        rw [Requests.file, AList.lookup_insert] at hlook
        cases hlook
        exact fun hmem => Nat.lt_irrefl _ (h.made _ hmem)
      · rw [Requests.file, AList.lookup_insert_ne hi] at hlook
        exact h.opened i r hlook hans
  | @answered request message hlook hans hreq =>
    have hfresh : request.object ∉ set := h.opened message.id request hlook hans
    refine ⟨?_, fun object ho => ?_, fun i r hi hopen => ?_⟩
    · exact List.nodup_append.mpr ⟨h.nodup, List.nodup_singleton _,
        fun a ha b hb => by
          rw [List.mem_singleton] at hb
          exact fun he => hfresh (hb ▸ he ▸ ha)⟩
    · rw [hreq]
      rcases List.mem_append.mp ho with ho | ho
      · exact h.made object ho
      · exact List.mem_singleton.mp ho ▸ m.requests.object_lt message.id request hlook
    · rw [hreq, Requests.update, AssocMap.lookup_modify] at hi
      by_cases hid : i = message.id
      · -- the promise that was just set is not open any more
        rw [if_pos hid, hid, hlook] at hi
        cases hi
        cases hopen
      · rw [if_neg hid] at hi
        intro hmem
        rcases List.mem_append.mp hmem with hmem | hmem
        · exact h.opened i r hi hopen hmem
        · exact hid (m.requests.object_inj i message.id r request hi hlook
            (List.mem_singleton.mp hmem))

theorem objects_append (a b : List Outcome) : objects (a ++ b) = objects a ++ objects b :=
  List.filterMap_append

/-- **At most one answer.**  In every run, from every state of the tables, the promise of a
    request is set at most once. -/
theorem objects_nodup (m : ManagerBase) (events : List Event) :
    (objects (m.history events)).Nodup := by
  obtain ⟨m', hm'⟩ : ∃ m', Machine.run step events m = some m' := by
    induction events generalizing m with
    | nil => exact ⟨m, rfl⟩
    | cons e events ih => exact ih (m.after e)
  have hstart : SetOnce (objects []) m := ⟨List.nodup_nil, by simp [objects], by simp [objects]⟩
  have hstep : ∀ l m e m₁, SetOnce (objects l) m → True → step e m = some m₁ →
      SetOnce (objects (l ++ outcomes m e)) m₁ := by
    intro l m e m₁ h _ hm₁
    cases hm₁
    rw [objects_append]
    exact h.step (after_run m e)
  exact (Machine.log_invariant (I := fun l m => SetOnce (objects l) m) hstep hstart
    (Machine.along_of_forall (fun _ _ => trivial) events m) hm').nodup

/-! ### When answers match -/

/-- **Request and answer.**  In the runs from any state of the tables, every promise is set at
    most once, by the node that was asked and with the command it was asked, and no handler
    throws, exactly when every answer is proper where it arrives. -/
theorem matched_iff_proper (m : ManagerBase) (events : List Event) :
    Matched (m.history events) ↔ Machine.Along step Proper events m := by
  have hpoint : (fun (m : ManagerBase) e => ∀ o ∈ m.outcomes e, o.Fine) = Proper := by
    funext m e
    exact propext (fine_iff_proper m e)
  rw [matched_iff, ← hpoint, ← Machine.forall_log_iff]
  exact ⟨fun h => h.2, fun h => ⟨objects_nodup m events, h⟩⟩

end ManagerBase

/-! ### A run in which they do not match -/

/-- A session with the node whose id ends in `host`. -/
def sessionWith (host : Nat) : Session := ⟨host, .ofNat 32 host, .normalNode, .server⟩

/-- A manager with sessions to two nodes and no request yet. -/
def connected : ManagerBase where
  closed := false
  sessions := (AList.insert (sessionWith 1).hostNodeId (sessionWith 1) ∅).insert
    (sessionWith 2).hostNodeId (sessionWith 2)
  clientSessionsCount := 0
  requests := .empty

/-- The ping sent to the first node. -/
def pinged : Message := RequestEncoder.ping (.ofNat 8 7)

/-- An answer `Info` under the id of the ping. -/
def answeredInfo : Message :=
  .ofFrame .answering pinged.id .info [] answering_ne_unnamed (by decide)

theorem type_answeredInfo : answeredInfo.type = .ok .answering := Message.type_ofFrame

/-- The first node is pinged, the second one answers `Info` under the same id, and then the
    first one answers the ping. -/
def crossed : List Event :=
  [.sendMessageTo (.ofNat 32 1) pinged,
    .answer (sessionWith 2) ⟨answeredInfo, type_answeredInfo⟩,
    .answer (sessionWith 1) ⟨AnswerEncoder.ping pinged, AnswerEncoder.type_ping pinged⟩]

theorem crossed_history : ∃ setting,
    connected.history crossed = [.set setting, .threw .promiseAlreadySatisfied] ∧
      setting.session.hostNodeId ≠ setting.request.nodeId ∧
      setting.message.command ≠ .ok setting.request.command := by
  refine ⟨⟨⟨0, .ping, .ofNat 8 7, .ofNat 32 1, none, false⟩, sessionWith 2, answeredInfo⟩,
    ?_, ?_, ?_⟩
  · decide +kernel
  · decide +kernel
  · rw [answeredInfo, Message.command_ofFrame]
    decide

/-- **Mismatch.**  A request to one node is answered by another one, with another command;
    the answer of the node that was asked then makes its handler throw. -/
theorem crossed_not_matched : ¬ Matched (connected.history crossed) ∧
    ∃ setting, .set setting ∈ connected.history crossed ∧
      setting.session.hostNodeId ≠ setting.request.nodeId ∧
      setting.message.command ≠ .ok setting.request.command ∧
      .threw .promiseAlreadySatisfied ∈ connected.history crossed := by
  obtain ⟨setting, hhist, hhost, hcommand⟩ := crossed_history
  rw [hhist]
  refine ⟨fun h => ?_, setting, by simp, hhost, hcommand, by simp⟩
  exact h.silent .promiseAlreadySatisfied (by simp)

end OrbiterSdk.P2P
