/-
The methods of a session object (`dynamod-logind/src/session.rs`).

Each of them takes the state lock, looks the session up and works on
its entry. The bus names the caller of every call; `take_control` is
the only method of the source that asks for the name. What the kernel
answers to `TakeDevice` is passed in, except to `drm_set_master`, whose
failure is only logged. The signals and the properties are left out; `activate` and
`terminate` are in `Dynamod.Logind.Manager`.
-/
import Dynamod.Logind.Manager

namespace Dynamod.Logind

open Lib

/-- What the kernel answers to `TakeDevice`: to the open, and to the dup
of the descriptor for the caller. -/
structure TakeAnswers where
  opened : OpenAnswers
  dup : Except String Nat

/-- The answer of a method of a session. -/
inductive SessionAnswer
  | done
  /-- The descriptor, and whether the session is in the background. -/
  | device (fd : Nat) (inactive : Bool)
  deriving DecidableEq

/-- What a method makes of the entry of its session: its answer, the
entry, and the calls it made. -/
structure Handled where
  result : Except FdoError SessionAnswer
  session : Session
  did : List Effect := []

namespace SessionInterface

/-- A method that succeeds. -/
def succeed (s : Session) : Handled := { result := .ok .done, session := s }

/-- A method that fails leaves the entry as it is. -/
def fail (message : String) (s : Session) : Handled :=
  { result := .error (.failed message), session := s }

def takeControl (force : Bool) (sender : Option String) (s : Session) : Handled :=
  if s.controller.isSome ∧ ¬ force then fail "session already has a controller" s
  else succeed { s with controller := some (sender.getD "") }

def releaseControl (s : Session) : Handled :=
  succeed { s with controller := none, devices := ∅ }

def takeDevice (major minor : Nat) (a : TakeAnswers) (s : Session) : Handled :=
  if s.controller.isNone then fail "caller is not the session controller" s
  else if (major, minor) ∈ s.devices then fail s!"device {major}:{minor} already taken" s
  else
    match openDevice major minor a.opened with
    | .error e => fail e s
    | .ok fd =>
      -- the ioctl comes before the dup, and is not undone when that fails
      let did := if isDrmDevice major && s.active then [Effect.setMaster fd] else []
      match a.dup with
      | .error e => { fail s!"dup failed: {e}" s with did := did }
      | .ok callerFd =>
        { result := .ok (.device callerFd (!s.active))
          session := { s with devices := s.devices.insert (major, minor) fd }
          did := did }

def releaseDevice (major minor : Nat) (s : Session) : Handled :=
  if (major, minor) ∈ s.devices then
    succeed { s with devices := s.devices.erase (major, minor) }
  else fail s!"device {major}:{minor} not taken" s

def setType (sessionType : String) (s : Session) : Handled :=
  if sessionType ∈ ["tty", "x11", "wayland", "mir", "unspecified"] then
    succeed { s with sessionType := sessionType }
  else
    { result := .error (.invalidArgs s!"unknown session type '{sessionType}'")
      session := s }

def setIdleHint (idle : Bool) (nowUsec : Nat) (s : Session) : Handled :=
  succeed { s with idleHint := idle, idleSinceUsec := if idle then nowUsec else 0 }

/-- A method on the session of the object. -/
def onSession (st : LoginState) (sessionId : SessionId) (action : Session → Handled) :
    Outcome SessionAnswer :=
  match st.sessions.lookup sessionId with
  | none => refuse st "session not found"
  | some s =>
    { result := (action s).result
      login := { st with sessions := st.sessions.insert sessionId (action s).session }
      did := (action s).did }

end SessionInterface

/-- The methods of a session object. -/
inductive SessionMethod
  | takeControl (force : Bool)
  | releaseControl
  | takeDevice (major minor : Nat) (answers : TakeAnswers)
  | releaseDevice (major minor : Nat)
  | pauseDeviceComplete (major minor : Nat)
  | setType (sessionType : String)
  | activate
  | setIdleHint (idle : Bool) (nowUsec : Nat)
  | terminate

/-- A call of a method, with the name of its sender. -/
structure SessionCall where
  sessionId : SessionId
  sender : Option String
  method : SessionMethod

namespace SessionCall

/-- What the answer of `activate` or `terminate` comes to. -/
def plain (o : Outcome Unit) : Outcome SessionAnswer :=
  { result := o.result.map fun _ => .done, login := o.login, did := o.did }

def perform (c : SessionCall) (st : LoginState) : Outcome SessionAnswer :=
  match c.method with
  | .takeControl force =>
    SessionInterface.onSession st c.sessionId
      (SessionInterface.takeControl force c.sender)
  | .releaseControl =>
    SessionInterface.onSession st c.sessionId SessionInterface.releaseControl
  | .takeDevice major minor a =>
    SessionInterface.onSession st c.sessionId
      (SessionInterface.takeDevice major minor a)
  | .releaseDevice major minor =>
    SessionInterface.onSession st c.sessionId
      (SessionInterface.releaseDevice major minor)
  | .pauseDeviceComplete _ _ => { result := .ok .done, login := st, did := [] }
  | .setType sessionType =>
    SessionInterface.onSession st c.sessionId (SessionInterface.setType sessionType)
  | .activate => plain (SessionInterface.activate st c.sessionId)
  | .setIdleHint idle nowUsec =>
    SessionInterface.onSession st c.sessionId
      (SessionInterface.setIdleHint idle nowUsec)
  | .terminate => plain (SessionInterface.terminate st c.sessionId)

end SessionCall

end Dynamod.Logind
