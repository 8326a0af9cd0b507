/-
The login state (`dynamod-logind/src/state.rs`): the table of live
sessions and the four indexes kept beside it (the session list and the
foreground session of each seat, the session list and the display
session of each user, the sessions by leader pid).

What the three operations read from outside is passed in: the id that
`next_session_id` drew and the two clock readings. The fields of
`LoginState` that none of them touches (inhibitors, configuration,
pending cleanups) are left out.
-/
import Mathlib.Data.String.Basic
import Dynamod.Lib.Maps

namespace Dynamod.Logind

open Lib

abbrev SessionId := String

abbrev SeatId := String

inductive SessionState
  /-- Registered but not in the foreground. -/
  | online
  /-- The foreground session of its seat. -/
  | active
  /-- Being torn down. -/
  | closing
  deriving DecidableEq

structure Session where
  id : SessionId
  uid : Nat
  userName : String
  seat : Option SeatId
  tty : Option String
  display : Option String
  sessionType : String
  sessionClass : String
  desktop : String
  state : SessionState
  active : Bool
  leaderPid : Nat
  vtnr : Nat
  remote : Bool
  remoteHost : String
  remoteUser : String
  service : String
  /-- D-Bus unique name of the session controller. -/
  controller : Option String
  /-- Open device descriptors by major and minor number. -/
  devices : HashMap (Nat × Nat) Nat
  idleHint : Bool
  idleSinceUsec : Nat
  idleSinceMonotonic : Nat
  lockedHint : Bool
  createdRealtimeUsec : Nat
  createdMonotonic : Nat

structure Seat where
  id : SeatId
  sessions : List SessionId
  activeSession : Option SessionId
  canGraphical : Bool
  canTty : Bool
  idleHint : Bool
  idleSinceUsec : Nat
  idleSinceMonotonic : Nat
  deriving DecidableEq

inductive UserState
  | online
  | active
  | lingering
  | closing
  deriving DecidableEq

structure User where
  uid : Nat
  name : String
  sessions : List SessionId
  /-- The primary graphical session. -/
  displaySession : Option SessionId
  state : UserState
  idleHint : Bool
  idleSinceUsec : Nat
  idleSinceMonotonic : Nat
  deriving DecidableEq

structure LoginState where
  sessions : HashMap SessionId Session
  seats : HashMap SeatId Seat
  users : HashMap Nat User
  pidToSession : HashMap Nat SessionId

/-- The arguments of `create_session`. -/
structure SessionRequest where
  uid : Nat
  userName : String
  leaderPid : Nat
  service : String
  sessionType : String
  sessionClass : String
  desktop : String
  seatId : Option SeatId
  vtnr : Nat
  tty : Option String
  display : Option String
  remote : Bool
  remoteUser : String
  remoteHost : String

-- ==== joining and leaving an index

/-- A seat after the session joined it. -/
def Seat.join (seat : Seat) (id : SessionId) (first : Bool) : Seat :=
  { seat with
    sessions := seat.sessions ++ [id]
    activeSession := if first then some id else seat.activeSession }

/-- A user after the session joined them. -/
def User.join (user : User) (id : SessionId) (first : Bool) : User :=
  { user with
    sessions := user.sessions ++ [id]
    state := if first then .active else user.state
    displaySession := if first then some id else user.displaySession }

/-- Put a session in the foreground. -/
def Session.raise (s : Session) : Session :=
  { s with active := true, state := .active }

/-- Take a session out of the foreground. -/
def Session.lower (s : Session) : Session :=
  { s with active := false, state := .online }

/-- A seat after the session left it; the first remaining session takes
over the foreground. -/
def Seat.leave (seat : Seat) (id : SessionId) : Seat :=
  let remaining := seat.sessions.filter fun s => s ≠ id
  { seat with
    sessions := remaining
    activeSession :=
      if seat.activeSession = some id then remaining.head?
      else seat.activeSession }

/-- The session that takes over when `id` leaves the seat. -/
def Seat.successor (seat : Seat) (id : SessionId) : Option SessionId :=
  if seat.activeSession = some id then (seat.leave id).activeSession
  else none

/-- The user's lists after the session left. -/
def User.leave (user : User) (id : SessionId) (sessions : HashMap SessionId Session) : User :=
  let remaining := user.sessions.filter fun s => s ≠ id
  { user with
    sessions := remaining
    displaySession :=
      if user.displaySession = some id then remaining.head?
      else user.displaySession
    state :=
      if remaining.any fun sid =>
          ((sessions.lookup sid).map (·.state)) = some .active
      then .active else .online }

namespace LoginState

def new : LoginState :=
  { sessions := ∅, seats := ∅, users := ∅, pidToSession := ∅ }

def createSeat0 (st : LoginState) : LoginState :=
  { st with
    seats := st.seats.insert "seat0"
      { id := "seat0", sessions := [], activeSession := none,
        canGraphical := true, canTty := true, idleHint := false,
        idleSinceUsec := 0, idleSinceMonotonic := 0 } }

-- ==== create_session

/-- No session is in the foreground of the requested seat; a request
without a seat, or for a seat that does not exist, counts as first. -/
def isFirstOnSeat (st : LoginState) (seatId : Option SeatId) : Bool :=
  match seatId.bind st.seats.lookup with
  | some seat => seat.activeSession.isNone
  | none => true

/-- The session `create_session` enters. -/
def newSession (id : SessionId) (r : SessionRequest) (first : Bool)
    (nowUsec nowMonotonic : Nat) : Session :=
  { id := id
    uid := r.uid
    userName := r.userName
    seat := r.seatId
    tty := r.tty
    display := r.display
    sessionType := r.sessionType
    sessionClass := r.sessionClass
    desktop := r.desktop
    state := if first then .active else .online
    active := first
    leaderPid := r.leaderPid
    vtnr := r.vtnr
    remote := r.remote
    remoteHost := r.remoteHost
    remoteUser := r.remoteUser
    service := r.service
    controller := none
    devices := ∅
    idleHint := false
    idleSinceUsec := 0
    idleSinceMonotonic := 0
    lockedHint := false
    createdRealtimeUsec := nowUsec
    createdMonotonic := nowMonotonic }

/-- The user `create_session` starts from when the uid has none yet. -/
def newUser (r : SessionRequest) : User :=
  { uid := r.uid, name := r.userName, sessions := [], displaySession := none,
    state := .online, idleHint := false, idleSinceUsec := 0,
    idleSinceMonotonic := 0 }

/-- `create_session`, for the id drawn by `next_session_id`. -/
def createSession (st : LoginState) (id : SessionId) (r : SessionRequest)
    (nowUsec nowMonotonic : Nat) : LoginState :=
  let first := st.isFirstOnSeat r.seatId
  { pidToSession := st.pidToSession.insert r.leaderPid id
    seats := st.seats.modifyAt r.seatId fun seat => seat.join id first
    users := st.users.insert r.uid
      (((st.users.lookup r.uid).getD (newUser r)).join id first)
    sessions := st.sessions.insert id
      (newSession id r first nowUsec nowMonotonic) }

-- ==== remove_session

/-- The user table after the session left: a user without sessions is
dropped. -/
def leaveUser (users : HashMap Nat User) (uid : Nat) (id : SessionId)
    (sessions : HashMap SessionId Session) : HashMap Nat User :=
  match users.lookup uid with
  | some user =>
    if (user.leave id sessions).sessions = [] then users.erase uid
    else users.insert uid (user.leave id sessions)
  | none => users

def removeSession (st : LoginState) (sessionId : SessionId) : LoginState :=
  match st.sessions.lookup sessionId with
  | none => st
  | some session =>
    let left := session.seat.bind st.seats.lookup
    let sessions := HashMap.modifyAt (st.sessions.erase sessionId)
      (left.bind fun seat => seat.successor sessionId) Session.raise
    { sessions := sessions
      seats := st.seats.modifyAt session.seat
        fun seat => seat.leave sessionId
      users := leaveUser st.users session.uid sessionId sessions
      pidToSession := st.pidToSession.erase session.leaderPid }

def sessionForPid (st : LoginState) (pid : Nat) : Option SessionId :=
  st.pidToSession.lookup pid

-- ==== activate_session

/-- The session that has to leave the foreground for `id`. -/
def outgoing (st : LoginState) (seatId : SeatId) (id : SessionId) : Option SessionId :=
  ((st.seats.lookup seatId).bind (·.activeSession)).filter fun old => old ≠ id

def activateSession (st : LoginState) (sessionId : SessionId) : LoginState :=
  match st.sessions.lookup sessionId with
  | none => st
  | some session =>
    match session.seat with
    | none => st
    | some seatId =>
      { st with
        sessions := (st.sessions.modifyAt (st.outgoing seatId sessionId) Session.lower).modify
          sessionId Session.raise
        seats := st.seats.modify seatId fun seat =>
          { seat with activeSession := some sessionId } }

-- ==== what the operations do

section Cases

variable {st : LoginState} {id : SessionId} {s : Session}

/-- The session that `remove_session` raises when `s`, of the id `id`,
is removed. -/
def heir (st : LoginState) (s : Session) (id : SessionId) : Option SessionId :=
  (s.seat.bind st.seats.lookup).bind fun seat => seat.successor id

/-- The sessions left behind. -/
def remaining (st : LoginState) (s : Session) (id : SessionId) : HashMap SessionId Session :=
  HashMap.modifyAt (st.sessions.erase id) (st.heir s id) Session.raise

theorem removeSession_none (hs : st.sessions.lookup id = none) : st.removeSession id = st := by
  rw [removeSession, hs]

theorem removeSession_some (hs : st.sessions.lookup id = some s) : st.removeSession id =
    { sessions := st.remaining s id
      seats := st.seats.modifyAt s.seat fun seat => seat.leave id
      users := leaveUser st.users s.uid id (st.remaining s id)
      pidToSession := st.pidToSession.erase s.leaderPid } := by
  rw [removeSession, hs]
  rfl

/-- The session is in the foreground of its seat. -/
def activated (st : LoginState) (seatId : SeatId) (id : SessionId) : LoginState :=
  { st with
    sessions := (st.sessions.modifyAt (st.outgoing seatId id) Session.lower).modifyAt (some id)
      Session.raise
    seats := st.seats.modify seatId fun seat => { seat with activeSession := some id } }

/-- Only a session on a seat is activated. -/
theorem activateSession_cases (st : LoginState) (id : SessionId) :
    (st.activateSession id = st ∧ ∀ s, st.sessions.lookup id = some s → s.seat = none)
      ∨ ∃ s seatId, st.sessions.lookup id = some s ∧ s.seat = some seatId
        ∧ st.activateSession id = st.activated seatId id := by
  unfold activateSession
  cases hs : st.sessions.lookup id with
  | none => exact Or.inl ⟨rfl, fun s h => absurd h.symm (Option.some_ne_none s)⟩
  | some s =>
    dsimp only
    cases hseat : s.seat with
    | none => exact Or.inl ⟨rfl, fun t ht => Option.some.inj ht ▸ hseat⟩
    | some seatId => exact Or.inr ⟨s, seatId, rfl, hseat, rfl⟩

theorem activateSession_some {seatId : SeatId} (hs : st.sessions.lookup id = some s)
    (hseat : s.seat = some seatId) : st.activateSession id = st.activated seatId id := by
  rw [activateSession, hs]
  dsimp only
  rw [hseat]
  rfl

end Cases

end LoginState

end Dynamod.Logind
