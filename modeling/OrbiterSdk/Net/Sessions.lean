import OrbiterSdk.Lib.Machine
import OrbiterSdk.Net.Manager

namespace OrbiterSdk.P2P

/-!
# The accounting of sessions

`clientSessionsCount` beside the table `sessions_`, over the calls of `registerSession`,
`unregisterSession`, `disconnectSession` and `stop`.  Sessions are keyed by the node id the peer
has told, so several of them may have the same key; a session that was refused is unregistered
all the same when it fails.

* `ManagerBase.Accounted` — the count is the number of client sessions in the table;
* `SessionCall.Sound` — a call leaves the count right, and unregistering a session does not
  remove the entry of another one;
* `SessionCall.Accounts` — what has to hold of a call in the state in which it is made.

`Accounted` is kept by a call exactly if it accounts (`SessionCall.sound_iff`), and so along a
sequence of calls (`sessions_accounted_iff`).
-/

namespace ManagerBase

/-- The number of client sessions in `sessions_`. -/
def clientSessions (m : ManagerBase) : Nat :=
  m.sessions.entries.countP fun e => e.2.connectionType = .client

/-- `clientSessionsCount` is right. -/
def Accounted (m : ManagerBase) : Prop := m.clientSessionsCount.toNat = m.clientSessions

end ManagerBase

/-- A call of the manager by a session or by the node. -/
inductive SessionCall where
  | registerSession (session : Session)
  | unregisterSession (session : Session)
  | disconnectSession (nodeId : Hash)
  | stop
deriving DecidableEq

namespace SessionCall

/-- The manager behind the call. -/
def perform (m : ManagerBase) : SessionCall → ManagerBase
  | .registerSession session => (m.registerSession session).2
  | .unregisterSession session => (m.unregisterSession session).2
  | .disconnectSession nodeId => (m.disconnectSession nodeId).2
  | .stop => m.stop

/-- Every call is performed. -/
def step (call : SessionCall) (m : ManagerBase) : Option ManagerBase := some (call.perform m)

/-- Unregistering a session leaves the entries of all others. -/
def KeepsOthers (m : ManagerBase) (call : SessionCall) : Prop :=
  ∀ session, call = .unregisterSession session → ∀ id other, m.sessions.lookup id = some other →
    other ≠ session → (call.perform m).sessions.lookup id = some other

/-- What is expected of a call. -/
structure Sound (m : ManagerBase) (call : SessionCall) : Prop where
  accounted : (call.perform m).Accounted
  keepsOthers : call.KeepsOthers m

/-- What makes a call sound: the count does not run over; a session is unregistered only where it
    is registered; no client is disconnected or stopped by the manager. -/
def Accounts (m : ManagerBase) : SessionCall → Prop
  | .registerSession session => m.closed = false → session.hostNodeId ∉ m.sessions →
      session.connectionType = .client → m.clientSessions + 1 < 2 ^ 32
  | .unregisterSession session => ∀ other, m.sessions.lookup session.hostNodeId = some other →
      other = session
  | .disconnectSession nodeId => ∀ other, m.sessions.lookup nodeId = some other →
      other.connectionType ≠ .client
  | .stop => m.clientSessions = 0

end SessionCall

/-! ### Counting -/

/-- What a session adds to the count. -/
def Session.clients (session : Session) : Nat := if session.connectionType = .client then 1 else 0

theorem Session.clients_eq_zero {session : Session} :
    session.clients = 0 ↔ session.connectionType ≠ .client := by
  unfold clients
  split <;> simp [*]

namespace ManagerBase

variable {m : ManagerBase} {session : Session} {nodeId : Hash}

theorem clientSessions_eq_total (m : ManagerBase) :
    m.clientSessions = m.sessions.total Session.clients := by
  unfold clientSessions AssocMap.total
  induction m.sessions.entries with
  | nil => rfl
  | cons e entries ih =>
    rw [List.countP_cons, List.map_cons, List.sum_cons, ih, Nat.add_comm]
    simp [Session.clients]

theorem clientSessions_insert (h : nodeId ∉ m.sessions) (count : UInt32) :
    ({ m with sessions := m.sessions.insert nodeId session, clientSessionsCount := count } :
      ManagerBase).clientSessions = m.clientSessions + session.clients := by
  have htotal := AssocMap.total_insert Session.clients m.sessions nodeId session
  rw [AssocMap.weight_of_notMem h, Nat.add_zero] at htotal
  rw [clientSessions_eq_total, clientSessions_eq_total]
  exact htotal

theorem clientSessions_erase (h : m.sessions.lookup nodeId = some session) (count : UInt32) :
    ({ m with sessions := m.sessions.erase nodeId, clientSessionsCount := count } :
      ManagerBase).clientSessions + session.clients = m.clientSessions := by
  have htotal := AssocMap.total_erase Session.clients m.sessions nodeId
  rw [AssocMap.weight_of_lookup h] at htotal
  rw [clientSessions_eq_total, clientSessions_eq_total]
  exact htotal

/-! ### One call -/

theorem accounted_register (h : m.Accounted) (hopen : m.closed = false)
    (hnew : session.hostNodeId ∉ m.sessions) :
    (m.registerSession session).2.Accounted ↔
      (session.connectionType = .client → m.clientSessions + 1 < 2 ^ 32) := by
  unfold Accounted at h ⊢
  have hlt := m.clientSessionsCount.toNat_lt
  rw [registerSession, if_neg (by simp [hopen]), if_neg hnew]
  rw [clientSessions_insert hnew, Session.clients]
  by_cases hclient : session.connectionType = .client
  · rw [if_pos hclient, if_pos hclient, UInt32.toNat_add, h]
    have hone : (1 : UInt32).toNat = 1 := rfl
    rw [hone]
    -- the counter is right unless it wraps to zero
    exact ⟨fun hmod _ => by omega, fun hsmall => Nat.mod_eq_of_lt (hsmall hclient)⟩
  · rw [if_neg hclient, if_neg hclient]
    exact ⟨fun _ hc => absurd hc hclient, fun _ => h⟩

theorem accounted_unregister (h : m.Accounted)
    (hown : m.sessions.lookup session.hostNodeId = some session) :
    (m.unregisterSession session).2.Accounted := by
  unfold Accounted at h ⊢
  have hmem : session.hostNodeId ∈ m.sessions := AssocMap.mem_iff_lookup.mpr ⟨session, hown⟩
  rw [unregisterSession, if_neg (not_not.mpr hmem)]
  have herase := clientSessions_erase hown (if session.connectionType = .client then
    m.clientSessionsCount - 1 else m.clientSessionsCount)
  rw [← h, Session.clients] at herase
  by_cases hclient : session.connectionType = .client
  · simp only [if_pos hclient] at herase ⊢
    rw [UInt32.toNat_sub_of_le]
    · exact Nat.sub_eq_of_eq_add herase.symm
    · -- a client that is registered is counted
      rw [UInt32.le_iff_toNat_le]
      show 1 ≤ _
      omega
  · simp only [if_neg hclient] at herase ⊢
    exact herase.symm

theorem accounted_disconnect (h : m.Accounted)
    (hentry : m.sessions.lookup nodeId = some session) :
    (m.disconnectSession nodeId).2.Accounted ↔ session.connectionType ≠ .client := by
  unfold Accounted at h ⊢
  have hmem : nodeId ∈ m.sessions := AssocMap.mem_iff_lookup.mpr ⟨session, hentry⟩
  have herase := clientSessions_erase hentry m.clientSessionsCount
  rw [disconnectSession, if_neg (not_not.mpr hmem), ← Session.clients_eq_zero]
  dsimp only
  omega

theorem accounted_stop (h : m.Accounted) : m.stop.Accounted ↔ m.clientSessions = 0 := by
  unfold Accounted at h
  rw [← h]
  exact Iff.rfl

end ManagerBase

namespace SessionCall

variable {m : ManagerBase} {call : SessionCall}

theorem sound_of_eq (h : m.Accounted) (heq : call.perform m = m) : call.Sound m := by
  refine ⟨heq.symm ▸ h, ?_⟩
  intro _ _ id other hother _
  rw [heq, hother]

theorem keepsOthers_of_ne (h : ∀ session, call ≠ .unregisterSession session) :
    call.KeepsOthers m := fun session hcall => absurd hcall (h session)

/-- A refused registration changes nothing. -/
theorem sound_registerSession_iff (h : m.Accounted) (session : Session) :
    (registerSession session).Sound m ↔ (registerSession session).Accounts m := by
  by_cases hclosed : m.closed = true
  · have heq : (registerSession session).perform m = m := by
      rw [perform, ManagerBase.registerSession, if_pos hclosed]
    exact iff_of_true (sound_of_eq h heq) fun hopen => absurd (hclosed.symm.trans hopen) (by simp)
  by_cases hmem : session.hostNodeId ∈ m.sessions
  · have heq : (registerSession session).perform m = m := by
      rw [perform, ManagerBase.registerSession, if_neg hclosed, if_pos hmem]
    exact iff_of_true (sound_of_eq h heq) fun _ hnew => absurd hmem hnew
  have hopen : m.closed = false := by simpa using hclosed
  have hcount := ManagerBase.accounted_register h hopen hmem
  constructor
  · intro hsound _ _
    exact hcount.mp hsound.accounted
  · intro hacc
    exact ⟨hcount.mpr (hacc hopen hmem), keepsOthers_of_ne (by simp)⟩

/-- The entry under the node id is removed, whose ever it is. -/
theorem sound_unregisterSession_iff (h : m.Accounted) (session : Session) :
    (unregisterSession session).Sound m ↔ (unregisterSession session).Accounts m := by
  by_cases hmem : session.hostNodeId ∈ m.sessions
  · have hsessions : ((unregisterSession session).perform m).sessions =
        m.sessions.erase session.hostNodeId := by
      rw [perform, ManagerBase.unregisterSession, if_neg (not_not.mpr hmem)]
    constructor
    · intro hsound other hother
      by_contra hne
      -- the entry is gone, though it was another one's
      have hkept := hsound.keepsOthers session rfl _ _ hother hne
      rw [hsessions, AList.lookup_erase] at hkept
      cases hkept
    · intro hacc
      obtain ⟨registered, hlookup⟩ := AssocMap.mem_iff_lookup.mp hmem
      have hown : m.sessions.lookup session.hostNodeId = some session := by
        rw [hlookup, hacc registered hlookup]
      refine ⟨ManagerBase.accounted_unregister h hown, ?_⟩
      rintro _ ⟨⟩ id other hother hne
      have hid : id ≠ session.hostNodeId := by
        rintro rfl
        exact hne (hacc other hother)
      rw [hsessions, AList.lookup_erase_ne hid, hother]
  · have heq : (unregisterSession session).perform m = m := by
      rw [perform, ManagerBase.unregisterSession, if_pos hmem]
    refine iff_of_true (sound_of_eq h heq) fun other hother => ?_
    exact absurd (AssocMap.mem_iff_lookup.mpr ⟨other, hother⟩) hmem

/-- The count is not touched when an entry is removed. -/
theorem sound_disconnectSession_iff (h : m.Accounted) (nodeId : Hash) :
    (disconnectSession nodeId).Sound m ↔ (disconnectSession nodeId).Accounts m := by
  by_cases hmem : nodeId ∈ m.sessions
  · constructor
    · intro hsound other hother
      exact (ManagerBase.accounted_disconnect h hother).mp hsound.accounted
    · intro hacc
      obtain ⟨session, hlookup⟩ := AssocMap.mem_iff_lookup.mp hmem
      exact ⟨(ManagerBase.accounted_disconnect h hlookup).mpr (hacc session hlookup),
        keepsOthers_of_ne (by simp)⟩
  · have heq : (disconnectSession nodeId).perform m = m := by
      rw [perform, ManagerBase.disconnectSession, if_pos hmem]
    refine iff_of_true (sound_of_eq h heq) fun other hother => ?_
    exact absurd (AssocMap.mem_iff_lookup.mpr ⟨other, hother⟩) hmem

/-- **One call**: from a right count it is sound exactly if it accounts. -/
theorem sound_iff (h : m.Accounted) : call.Sound m ↔ call.Accounts m := by
  cases call with
  | registerSession session => exact sound_registerSession_iff h session
  | unregisterSession session => exact sound_unregisterSession_iff h session
  | disconnectSession nodeId => exact sound_disconnectSession_iff h nodeId
  | stop =>
    have hcount := ManagerBase.accounted_stop h
    exact ⟨fun hsound => hcount.mp hsound.accounted,
      fun hacc => ⟨hcount.mpr hacc, keepsOthers_of_ne (by simp)⟩⟩

end SessionCall

/-! ### Sequences of calls -/

/-- **The accounting of sessions.**  From a right count, every call of a sequence leaves the
    count right and the entries of other sessions alone exactly if every call accounts where it
    is made. -/
theorem sessions_accounted_iff {m : ManagerBase} (h : m.Accounted) (calls : List SessionCall) :
    Machine.Along SessionCall.step (fun m call => call.Sound m) calls m ↔
      Machine.Along SessionCall.step (fun m call => call.Accounts m) calls m := by
  have htotal : ∀ call m, ∃ m', SessionCall.step call m = some m' := fun call m => ⟨_, rfl⟩
  obtain ⟨m', hrun⟩ := Machine.exists_run_of_total htotal calls m
  have hiff : ∀ (m : ManagerBase) call m', m.Accounted → SessionCall.step call m = some m' →
      (call.Sound m ↔ call.Accounts m) := fun m call m' hm _ => SessionCall.sound_iff hm
  refine Machine.along_congr hiff ?_ h hrun
  rintro m call m' - hsound ⟨⟩
  exact hsound.accounted

/-- A manager that has been started and has no sessions yet. -/
def started : ManagerBase := ⟨false, ∅, 0, .empty⟩

/-- A session of either kind with the node 1. -/
def sessionOf (object : Nat) (connectionType : ConnectionType) : Session :=
  ⟨object, FixedStr.ofNat 32 1, .normalNode, connectionType⟩

/-- A client comes and goes, then a server. -/
theorem sessions_accounted_iff_started :
    started.Accounted ∧ Machine.Along SessionCall.step (fun m call => call.Sound m)
      [.registerSession (sessionOf 1 .client), .unregisterSession (sessionOf 1 .client),
        .registerSession (sessionOf 2 .server), .disconnectSession (FixedStr.ofNat 32 1), .stop]
      started := by
  have hstarted : started.Accounted := rfl
  refine ⟨hstarted, (sessions_accounted_iff hstarted _).mpr ?_⟩
  refine ⟨fun _ _ _ => by decide, ?_⟩
  rintro _ ⟨⟩
  refine ⟨fun other hother => ?_, ?_⟩
  · exact (Option.some.inj hother).symm
  rintro _ ⟨⟩
  refine ⟨fun _ _ hclient => absurd hclient (by decide), ?_⟩
  rintro _ ⟨⟩
  refine ⟨fun other hother => ?_, ?_⟩
  · cases hother
    decide
  rintro _ ⟨⟩
  exact ⟨rfl, fun _ _ => trivial⟩

/-- The manager after calls from `started`. -/
def after (calls : List SessionCall) : ManagerBase := calls.foldl SessionCall.perform started

/-- A client that is disconnected, or stopped with the manager, stays in the count.  A client that
    was refused removes the session it was refused for, and the count runs below zero. -/
theorem sessions_miscounted :
    started.Accounted ∧
      ¬ (after [.registerSession (sessionOf 1 .client),
        .disconnectSession (FixedStr.ofNat 32 1)]).Accounted ∧
      ¬ (after [.registerSession (sessionOf 1 .client), .stop]).Accounted ∧
      (after [.registerSession (sessionOf 1 .server),
        .registerSession (sessionOf 2 .client)]).sessions.lookup (FixedStr.ofNat 32 1) =
          some (sessionOf 1 .server) ∧
      (after [.registerSession (sessionOf 1 .server), .registerSession (sessionOf 2 .client),
        .unregisterSession (sessionOf 2 .client)]).sessions.lookup (FixedStr.ofNat 32 1) = none ∧
      (after [.registerSession (sessionOf 1 .server), .registerSession (sessionOf 2 .client),
        .unregisterSession (sessionOf 2 .client)]).clientSessionsCount.toNat = 2 ^ 32 - 1 := by
  unfold ManagerBase.Accounted
  decide

end OrbiterSdk.P2P
