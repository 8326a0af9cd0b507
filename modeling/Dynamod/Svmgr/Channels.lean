/-
The sockets and pipes on which the manager talks to other processes, byte
by byte.

# The log relay (`relay_logs` in `process/spawn.rs`)

A thread per service reads the pipe on the service's output until it
returns. The model takes the whole stream, from the first byte to the
closing of the pipe, and what each call of `send_to` answers, which the
code does not look at.

# The channel to init (`ipc/init_channel.rs`)

svmgr's end, and the messages that the main loop takes from it. The
kernel decides what a `read` of the nonblocking socket answers. What the
other parts of the main loop do between two calls of `try_recv` does not
touch the channel, so its rounds are left out here.

# The notify socket (`check_notify` in `process/readiness.rs`)

With the order in which the manager forks the service, makes the socket
and reads it (the startup loop of `main.rs`). The child has the path of
the socket from the fork on, in `NOTIFY_SOCKET`. It runs beside the
manager, so that it may send between any two steps of `start_worker`,
`ReadinessTracker::new` and `check`.
-/
import Dynamod.Common.Protocol
import Dynamod.Lib.Bytes
import Dynamod.Lib.Datagrams
import Dynamod.Lib.Lines
import Dynamod.Lib.Runs
import Dynamod.Svmgr.Readiness

namespace Dynamod.Svmgr

open Lib

-- ==== the log relay

/-- `reader.lines()`: the lines of the stream, with `none` for the error of
one that is not UTF-8. A line is validated with its end, which is ASCII. -/
def readLines (stream : List UInt8) : List (Option String) :=
  (lines 0x0a 0x0d stream).map fromUtf8

/-- The loop of `relay_logs`, with the datagrams that arrive; `sock` says
whether `unbound` gave a socket, and `sendTo` which of the calls succeed. -/
def relayLoop (sock : Bool) (sendTo : Nat → Bool) (serviceName : String) :
    Nat → List (Option String) → List (List UInt8)
  | _, [] => []
  | _, none :: _ => []  -- `break`
  | n, some line :: rest =>
    if line.isEmpty then relayLoop sock sendTo serviceName n rest
    else if sock then
      let msg := utf8 (serviceName ++ "\t" ++ line)
      let later := relayLoop sock sendTo serviceName (n + 1) rest
      if sendTo n then msg :: later else later
    else relayLoop sock sendTo serviceName n rest

/-- `relay_logs`: what arrives at `LOG_SOCKET_PATH`. -/
def relayLogs (sock : Bool) (sendTo : Nat → Bool) (serviceName : String)
    (stream : List UInt8) : List (List UInt8) :=
  relayLoop sock sendTo serviceName 0 (readLines stream)

-- ==== the channel to init

section InitChannel

open Common

variable {E D : Type} (rmp : RmpSerde E D)

/-- `InitChannel`, without the stream. -/
structure InitChannel where
  readBuf : List UInt8

namespace InitChannel

/-- Why a `read` failed. -/
inductive ReadError
  | wouldBlock
  | other

/-- The second half of `try_recv`. -/
def tryDecode (ch : InitChannel) : InitChannel × Option Message :=
  match decode rmp ch.readBuf with
  | .ok (msg, consumed) => (⟨ch.readBuf.drop consumed⟩, some msg)
  | .error .incomplete => (ch, none)
  | .error _ => (⟨[]⟩, none)

def tryRecv (ch : InitChannel) : Except ReadError (List UInt8) → InitChannel × Option Message
  | .ok [] => (ch, none)
  | .ok bytes => tryDecode rmp ⟨ch.readBuf ++ bytes⟩
  | .error .wouldBlock => tryDecode rmp ch
  | .error .other => (ch, none)

/-- The switch of the main loop on a message: the signal of a shutdown
is the last that it handles, since svmgr then stops its services and
exits. -/
def handled (msg : Message) (later : List Message) : List Message :=
  match msg.body with
  | .shutdownSignal _ => [msg]
  | _ => msg :: later

/-- The messages that the main loop handles, over all its rounds. -/
def serve (ch : InitChannel) : List (Except ReadError (List UInt8)) → List Message
  | [] => []
  | answer :: answers =>
    match tryRecv rmp ch answer with
    | (ch, none) => ch.serve answers
    | (ch, some msg) => handled msg (ch.serve answers)

end InitChannel

end InitChannel

-- ==== one notification

/-- What `check_notify` makes of a datagram: `recv` cuts it to the buffer of
256 bytes, and what is not UTF-8 is taken for an empty text. -/
def isReady (payload : List UInt8) : Bool :=
  let msg := (fromUtf8 (payload.take 256)).getD ""
  decide (utf8 "READY=1" <:+: utf8 msg)

/-- `check_notify` up to the removal of the path: what `recv` brings on the
bound socket, and what it is taken for. -/
def recvNotify (sock : Nat) (k : Sockets (List UInt8)) : ReadinessResult × Sockets (List UInt8) :=
  match k.recv sock with
  | (some payload, k) => (if isReady payload then .ready else .notReady, k)
  | (none, k) => (.notReady, k)

/-- `check_notify` on the sockets behind `notify_socket`. -/
def checkNotify (boundNotify : Option Nat) (k : Sockets (List UInt8)) :
    ReadinessResult × Sockets (List UInt8) :=
  match boundNotify with
  | none => (.failed "no notify socket", k)
  | some sock =>
    match recvNotify sock k with
    | (.ready, k) => (.ready, k.unlink)
    | result => result

-- ==== the startup of a notify service

/-- How far the manager is with a service of type `notify`. -/
inductive NotifyStage
  | pending
  /-- `start_worker` has returned. -/
  | started
  /-- `ReadinessTracker::new` has removed the path. -/
  | unlinked
  /-- `ReadinessTracker::new` has returned; the tracker is checked in turn. -/
  | tracked (boundNotify : Option Nat)
  /-- `check_notify` has taken a `READY=1` and is about to remove the path. -/
  | notified (sock : Nat)
  /-- The tracker is gone, and its socket is closed. -/
  | settled (result : ReadinessResult)
  deriving DecidableEq

/-- A service of type `notify`, with what its child has sent and what the
manager has received. -/
structure NotifyService where
  sockets : Sockets (List UInt8)
  stage : NotifyStage
  sent : List (List UInt8)
  taken : List (List UInt8)

/-- The steps of the manager and of the child. -/
inductive NotifyAct
  | startWorker
  /-- `remove_file`, in `new` and behind a `READY=1`. -/
  | removeFile
  /-- `UnixDatagram::bind`; `false` where it fails for a reason of its own. -/
  | bind (ok : Bool)
  /-- `check`, with whether the timeout has not passed. -/
  | check (inTime : Bool)
  | send (payload : List UInt8)
  deriving DecidableEq

namespace NotifyService

/-- The tracker is removed from `readiness_trackers`. -/
def settle (s : NotifyService) (boundNotify : Option Nat) (result : ReadinessResult) :
    NotifyService :=
  { s with
    sockets := boundNotify.elim s.sockets s.sockets.close, stage := .settled result }

/-- `check` up to the removal of the path. -/
def check (s : NotifyService) (boundNotify : Option Nat) (inTime : Bool) : NotifyService :=
  if inTime then
    match boundNotify with
    | none => s.settle none (.failed "no notify socket")
    | some sock =>
      let (result, sockets) := recvNotify sock s.sockets
      { s with
        sockets, taken := s.taken ++ (s.sockets.recv sock).1.toList
        stage := if result = .ready then .notified sock else .tracked (some sock) }
  else s.settle boundNotify .timedOut

/-- One step; `none` where it is not the turn of the step. The child is
there to send once it is forked. -/
def step (s : NotifyService) : NotifyAct → Option NotifyService
  | .startWorker =>
    match s.stage with
    | .pending => some { s with stage := .started }
    | _ => none
  | .removeFile =>
    match s.stage with
    | .started => some { s with sockets := s.sockets.unlink, stage := .unlinked }
    | .notified sock =>
      some ({ s with sockets := s.sockets.unlink }.settle (some sock) .ready)
    | _ => none
  | .bind ok =>
    match s.stage with
    | .unlinked =>
      let (boundNotify, sockets) := if ok then s.sockets.bind else (none, s.sockets)
      some { s with sockets, stage := .tracked boundNotify }
    | _ => none
  | .check inTime =>
    match s.stage with
    | .tracked boundNotify => some (s.check boundNotify inTime)
    | _ => none
  | .send payload =>
    match s.stage with
    | .pending => none
    | _ => some { s with sockets := s.sockets.send payload, sent := s.sent ++ [payload] }

/-- Before the start, whatever is left behind the path. -/
def start (k : Sockets (List UInt8)) : NotifyService :=
  { sockets := k, stage := .pending, sent := [], taken := [] }

/-- The acts lead from one state to the other. -/
abbrev Run : NotifyService → List NotifyAct → NotifyService → Prop :=
  Path fun s act s' => s.step act = some s'

/-- The socket that `check` reads. -/
def reads (s : NotifyService) : Option Nat :=
  match s.stage with
  | .tracked boundNotify => boundNotify
  | .notified sock => some sock
  | _ => none

end NotifyService

end Dynamod.Svmgr
