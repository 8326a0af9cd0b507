/-
Readiness checks (`process/readiness.rs`). The probe itself, a
connection, a command, a datagram or a byte on a pipe, is an answer of
the environment; what is modelled is what each type of check makes of
it.
-/
import Dynamod.Svmgr.World

namespace Dynamod.Svmgr

structure ReadinessTracker where
  readinessType : ReadinessType
  port : Option Nat
  checkExec : Option (List String)
  timeout : Duration
  startedAt : Instant
  /-- Whether the notify socket could be bound. -/
  boundNotify : Bool
  readyFd : Option Fd := none
  deriving DecidableEq

namespace ReadinessTracker

def new (config : ReadinessSection) (w : World) : ReadinessTracker × World :=
  let timeout :=
    ((parseDurationSecs config.timeout).map fromSecs).getD (fromSecs 30)
  let (boundNotify, w) :=
    if config.readinessType = .notify then w.bind else (false, w)
  let (startedAt, w) := w.readClock
  ({ readinessType := config.readinessType, port := config.port
     checkExec := config.checkExec, timeout, startedAt, boundNotify }, w)

def setReadyFd (t : ReadinessTracker) (fd : Fd) : ReadinessTracker :=
  { t with readyFd := some fd }

/-- Wire in the descriptor if the spawn returned one. -/
def wire (t : ReadinessTracker) : Option Fd → ReadinessTracker
  | some fd => t.setReadyFd fd
  | none => t

def isImmediate (t : ReadinessTracker) : Bool :=
  t.readinessType = .none

def checkTcpPort (t : ReadinessTracker) (w : World) : ReadinessResult × World :=
  match t.port with
  | none => (.failed "no port configured", w)
  | some _ =>
    match w.probe with
    | (.answered, w) => (.ready, w)
    | (_, w) => (.notReady, w)

def runCheckExec (t : ReadinessTracker) (w : World) : ReadinessResult × World :=
  match t.checkExec with
  | some (_ :: _) =>
    match w.probe with
    | (.answered, w) => (.ready, w)
    | (.error msg, w) => (.failed ("check-exec error: " ++ msg), w)
    | (_, w) => (.notReady, w)
  | _ => (.failed "no check-exec configured", w)

def checkNotify (t : ReadinessTracker) (w : World) : ReadinessResult × World :=
  if t.boundNotify then
    match w.probe with
    | (.answered, w) => (.ready, w)
    | (_, w) => (.notReady, w)
  else (.failed "no notify socket", w)

def checkFd (t : ReadinessTracker) (w : World) : ReadinessResult × World :=
  match t.readyFd with
  | none => (.failed "no ready fd configured", w)
  | some _ =>
    match w.probe with
    | (.answered, w) => (.ready, w)
    | (.silent, w) => (.notReady, w)
    | (.closed, w) => (.failed "ready fd closed without signal", w)
    | (.error msg, w) => (.failed ("ready fd read error: " ++ msg), w)

def check (t : ReadinessTracker) (w : World) : ReadinessResult × World :=
  let (now, w) := w.readClock
  if now - t.startedAt > t.timeout then (.timedOut, w)
  else
    match t.readinessType with
    | .none => (.ready, w)
    | .tcpPort => t.checkTcpPort w
    | .exec => t.runCheckExec w
    | .notify => t.checkNotify w
    | .fd => t.checkFd w

end ReadinessTracker

end Dynamod.Svmgr
