/-
The methods of `dynamod-logind` that create, activate and remove
sessions (`manager.rs`, and the methods of the same purpose in
`session.rs`, `seat.rs` and `user.rs`).

A method of `manager.rs` works in two parts: what it does under the
state lock, and calls it makes once the lock is dropped, decided by
values taken under the lock. The first part is a function on the login
state (`createLocked`, `activateWithAclHandover`, `finalizeLocked`);
the second is a list of `Effect`s. A method run to completion is one
after the other; `Dynamod.Logind.Tasks` lets them interleave. The
methods of the other three interfaces do everything under the lock.

Read from outside and passed in: the session id that was drawn, the
two clock readings, the passwd entry and the configured size of the
runtime directory. D-Bus objects and object paths are left out.
-/
import Dynamod.Logind.Device

namespace Dynamod.Logind

open Lib

/-- `fdo::Error`, as far as it is returned. -/
inductive FdoError
  | failed (message : String)
  | invalidArgs (message : String)
  deriving DecidableEq

/-- A call a method makes besides answering. -/
inductive Effect
  /-- `kill(pid, SIGTERM)`. -/
  | terminate (pid : Nat)
  /-- `revert_session_acl` or `apply_session_acl`. -/
  | acl (step : AclStep)
  /-- `runtime_dir::ensure`. -/
  | ensure (uid gid : Nat) (size : String)
  /-- `cgroup::place_leader`. -/
  | placeLeader (uid : Nat) (sessionId : SessionId) (pid : Nat)
  /-- `cgroup::release_scope`. -/
  | releaseScope (uid : Nat) (sessionId : SessionId)
  /-- The umount of `runtime_dir::release`. -/
  | unmount (uid : Nat)
  /-- The rmdir of `runtime_dir::release`. -/
  | removeDir (uid : Nat)
  /-- `cgroup::release_user_slice`. -/
  | releaseUserSlice (uid : Nat)
  /-- `drm_set_master`. -/
  | setMaster (fd : Nat)
  deriving DecidableEq

/-- The ownership steps among some effects. -/
def aclSteps (effects : List Effect) : List AclStep :=
  effects.filterMap fun
    | .acl step => some step
    | _ => none

/-- What a method comes to: its answer, the login state, and the calls
it made, in order. -/
structure Outcome (A : Type) where
  result : Except FdoError A
  login : LoginState
  did : List Effect

/-- A method that refuses. -/
def refuse {A : Type} (st : LoginState) (message : String) : Outcome A :=
  { result := .error (.failed message), login := st, did := [] }

-- ==== CreateSession

/-- The arguments of `CreateSession`. -/
structure CreateCall where
  uid : Nat
  pid : Nat
  service : String
  sessionType : String
  sessionClass : String
  desktop : String
  seatId : String
  vtnr : Nat
  tty : String
  display : String
  remote : Bool
  remoteUser : String
  remoteHost : String

/-- What `CreateSession` reads from outside. -/
structure CreateAnswers where
  /-- The id `next_session_id` drew. -/
  id : SessionId
  nowUsec : Nat
  nowMonotonic : Nat
  /-- Name and group from the passwd entry. -/
  userInfo : Option (String × Nat)
  runtimeDirectorySize : String

/-- The answer of `CreateSession`, without the object path. -/
structure SessionReply where
  id : SessionId
  runtimePath : String
  seatId : String
  vtnr : Nat
  existing : Bool
  deriving DecidableEq

/-- `None` for an empty string. -/
def nonEmpty (s : String) : Option String :=
  if s = "" then none else some s

/-- The seat of the new session: the one asked for, or `seat0`. -/
def chooseSeat (st : LoginState) (seatId : String) : Except FdoError (Option SeatId) :=
  if seatId = "" then
    .ok (if "seat0" ∈ st.seats then some "seat0" else none)
  else if seatId ∈ st.seats then .ok (some seatId)
  else .error (.invalidArgs s!"seat '{seatId}' does not exist")

/-- Name and group of a user, made up if there is no passwd entry. -/
def userInfoOr (uid : Nat) (found : Option (String × Nat)) : String × Nat :=
  found.getD (s!"uid{uid}", uid)

/-- What `CreateSession` hands to `LoginState::create_session`. -/
def CreateCall.request (call : CreateCall) (userName : String)
    (seat : Option SeatId) : SessionRequest :=
  { uid := call.uid
    userName := userName
    leaderPid := call.pid
    service := call.service
    sessionType := (nonEmpty call.sessionType).getD "tty"
    sessionClass := (nonEmpty call.sessionClass).getD "user"
    desktop := call.desktop
    seatId := seat
    vtnr := call.vtnr
    tty := nonEmpty call.tty
    display := nonEmpty call.display
    remote := call.remote
    remoteUser := call.remoteUser
    remoteHost := call.remoteHost }

/-- What the critical section of `CreateSession` leaves behind. -/
structure Created where
  login : LoginState
  seat : Option SeatId
  /-- The calls that are made once the lock is dropped. -/
  after : List Effect

/-- The new session is entered, on the chosen seat. -/
def createOn (st : LoginState) (call : CreateCall) (a : CreateAnswers)
    (seat : Option SeatId) : Created :=
  let user := userInfoOr call.uid a.userInfo
  let login := st.createSession a.id (call.request user.1 seat)
    a.nowUsec a.nowMonotonic
  let isActive := ((login.sessions.lookup a.id).map (·.active)).getD false
  { login := login
    seat := seat
    after :=
      [.ensure call.uid user.2 a.runtimeDirectorySize, .placeLeader call.uid a.id call.pid]
      ++ if isActive then seat.toList.map fun s => .acl (.apply s call.uid)
        else [] }

/-- The critical section of `CreateSession`. A pending cleanup of the
user is cancelled in it as well; see `Dynamod.Logind.Tasks`. -/
def createLocked (st : LoginState) (call : CreateCall) (a : CreateAnswers) :
    Except FdoError Created :=
  match chooseSeat st call.seatId with
  | .error e => .error e
  | .ok seat => .ok (createOn st call a seat)

def createSession (st : LoginState) (call : CreateCall) (a : CreateAnswers) :
    Outcome SessionReply :=
  match createLocked st call a with
  | .error e => { result := .error e, login := st, did := [] }
  | .ok created =>
    let uid := call.uid
    { result := .ok
        { id := a.id
          runtimePath := s!"/run/user/{uid}"
          seatId := created.seat.getD ""
          vtnr := call.vtnr
          existing := false }
      login := created.login
      did := created.after }

-- ==== activation

structure AclHandover where
  seat : Option SeatId := none
  oldUid : Option Nat := none
  newUid : Option Nat := none
  deriving DecidableEq

def activateWithAclHandover (st : LoginState) (sessionId : SessionId) : LoginState × AclHandover :=
  match st.sessions.lookup sessionId with
  | none => (st, {})
  | some s =>
    let oldUid := ((s.seat.bind fun sid => st.outgoing sid sessionId).bind
      st.sessions.lookup).map (·.uid)
    (st.activateSession sessionId,
      { seat := s.seat, oldUid := oldUid, newUid := some s.uid })

def runAclHandover (handover : AclHandover) : List AclStep :=
  match handover.seat with
  | none => []
  | some seat =>
    (match handover.oldUid with
      | some old => if handover.newUid ≠ some old then [.revert seat] else []
      | none => [])
    ++ match handover.newUid with
      | some new => [.apply seat new]
      | none => []

/-- The critical section of the two activations of `manager.rs` and the
calls after it. -/
def activateWithHandover (st : LoginState) (sessionId : SessionId) : Outcome Unit :=
  { result := .ok ()
    login := (activateWithAclHandover st sessionId).1
    did := (runAclHandover (activateWithAclHandover st sessionId).2).map .acl }

def activateSession (st : LoginState) (sessionId : SessionId) : Outcome Unit :=
  if sessionId ∈ st.sessions then activateWithHandover st sessionId
  else refuse st s!"no session '{sessionId}'"

def activateSessionOnSeat (st : LoginState) (sessionId seatId : String) : Outcome Unit :=
  match st.sessions.lookup sessionId with
  | none => refuse st s!"no session '{sessionId}'"
  | some session =>
    if session.seat ≠ some seatId then
      refuse st s!"session '{sessionId}' is not on seat '{seatId}'"
    else activateWithHandover st sessionId

-- ==== removal

/-- What the critical section of `finalize_session_removal` leaves
behind. -/
structure Finalized where
  login : LoginState
  uid : Nat
  /-- It was the last session of the user, and a cleanup is started. -/
  userGone : Bool
  /-- The ownership steps that are made once the lock is dropped. -/
  after : List AclStep

/-- The ownership steps after a removal. -/
def removalSteps (wasActive : Bool) (seat : Option SeatId) (uid : Nat)
    (newActiveUid : Option Nat) : List AclStep :=
  if wasActive then
    match seat with
    | none => []
    | some s =>
      (if some uid ≠ newActiveUid then [.revert s] else [])
      ++ match newActiveUid with
        | some new => if new ≠ uid then [.apply s new] else []
        | none => []
  else []

/-- The user in the foreground of a seat. -/
def activeUid (st : LoginState) (seat : Option SeatId) : Option Nat :=
  (((seat.bind st.seats.lookup).bind (·.activeSession)).bind st.sessions.lookup).map (·.uid)

/-- The critical section of `finalize_session_removal`; `none` if the
session is not there. -/
def finalizeLocked (st : LoginState) (sessionId : SessionId) : Option Finalized :=
  (st.sessions.lookup sessionId).map fun session =>
    let login := st.removeSession sessionId
    { login := login
      uid := session.uid
      userGone := session.uid ∉ login.users
      after := removalSteps session.active session.seat session.uid
        (activeUid login session.seat) }

/-- `finalize_session_removal`, but for the cleanup it starts. -/
def finalizeSessionRemoval (st : LoginState) (sessionId : SessionId) : LoginState × List Effect :=
  match finalizeLocked st sessionId with
  | none => (st, [])
  | some f => (f.login, .releaseScope f.uid sessionId :: f.after.map .acl)

def releaseSession (st : LoginState) (sessionId : SessionId) : Outcome Unit :=
  if sessionId ∈ st.sessions then
    let (login, did) := finalizeSessionRemoval st sessionId
    { result := .ok (), login := login, did := did }
  else refuse st s!"no session '{sessionId}'"

/-- The signal to the leader of a session that is there. -/
def terminateLeader (st : LoginState) (sessionId : SessionId) : List Effect :=
  ((st.sessions.lookup sessionId).map fun s => .terminate s.leaderPid).toList

/-- One call after the other. -/
def forEach (f : LoginState → SessionId → LoginState × List Effect) :
    LoginState → List SessionId → LoginState × List Effect
  | st, [] => (st, [])
  | st, id :: ids =>
    let (next, did) := f st id
    let (last, rest) := forEach f next ids
    (last, did ++ rest)

def terminateSession (st : LoginState) (sessionId : SessionId) : Outcome Unit :=
  if sessionId ∈ st.sessions then
    let (login, did) := finalizeSessionRemoval st sessionId
    { result := .ok (), login := login, did := terminateLeader st sessionId ++ did }
  else refuse st s!"no session '{sessionId}'"

def sessionsOfUser (st : LoginState) (uid : Nat) : List SessionId :=
  ((st.users.lookup uid).map (·.sessions)).getD []

/-- `terminate_user`: all signals first. -/
def terminateUser (st : LoginState) (uid : Nat) : Outcome Unit :=
  let sessionIds := sessionsOfUser st uid
  let (login, did) := forEach finalizeSessionRemoval st sessionIds
  { result := .ok ()
    login := login
    did := sessionIds.flatMap (terminateLeader st) ++ did }

/-- `terminate_seat`: each session gets its signal before it is
removed. -/
def terminateSeat (st : LoginState) (seatId : SeatId) : Outcome Unit :=
  match st.seats.lookup seatId with
  | none => refuse st s!"no seat '{seatId}'"
  | some seat =>
    let (login, did) := forEach
      (fun st sid =>
        let (login, did) := finalizeSessionRemoval st sid
        (login, terminateLeader st sid ++ did))
      st seat.sessions
    { result := .ok (), login := login, did := did }

-- ==== the session, seat and user objects

namespace SessionInterface

def activate (st : LoginState) (sessionId : SessionId) : Outcome Unit :=
  { result := .ok (), login := st.activateSession sessionId, did := [] }

def terminate (st : LoginState) (sessionId : SessionId) : Outcome Unit :=
  if sessionId ∈ st.sessions then
    { result := .ok ()
      login := st.removeSession sessionId
      did := terminateLeader st sessionId }
  else refuse st "session not found"

end SessionInterface

namespace SeatInterface

def activateSession (st : LoginState) (seatId : SeatId) (sessionId : SessionId) : Outcome Unit :=
  match st.seats.lookup seatId with
  | none => refuse st "seat not found"
  | some seat =>
    if sessionId ∈ seat.sessions then
      { result := .ok (), login := st.activateSession sessionId, did := [] }
    else refuse st s!"session '{sessionId}' is not on seat '{seatId}'"

def terminate (st : LoginState) (seatId : SeatId) : Outcome Unit :=
  match st.seats.lookup seatId with
  | none => refuse st "seat not found"
  | some seat =>
    let (login, did) := forEach
      (fun st sid => (st.removeSession sid, terminateLeader st sid))
      st seat.sessions
    { result := .ok (), login := login, did := did }

end SeatInterface

namespace UserInterface

def terminate (st : LoginState) (uid : Nat) : Outcome Unit :=
  let sessionIds := sessionsOfUser st uid
  { result := .ok ()
    login := (forEach (fun st sid => (st.removeSession sid, [])) st sessionIds).1
    did := sessionIds.flatMap (terminateLeader st) }

end UserInterface

end Dynamod.Logind
