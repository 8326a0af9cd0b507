/-
Graceful shutdown (`shutdown.rs`): stop the services of the dependency
graph one by one, dependents first, each with its own signal, timeout
and `SIGKILL` escalation.

`Instant::now() + stop_timeout` panics when the sum does not fit the
clock, so the shutdown of a service is an `Option`: `none` is a panic.
-/
import Dynamod.Lib.Poll
import Dynamod.Svmgr.StopOrder
import Dynamod.Svmgr.World

namespace Dynamod.Svmgr

open Lib

def parseSignal (name : String) : Signal :=
  if name = "SIGTERM" ∨ name = "sigterm" then .sigterm
  else if name = "SIGINT" ∨ name = "sigint" then .sigint
  else if name = "SIGQUIT" ∨ name = "sigquit" then .sigquit
  else if name = "SIGHUP" ∨ name = "sighup" then .sighup
  else if name = "SIGUSR1" ∨ name = "sigusr1" then .sigusr1
  else if name = "SIGUSR2" ∨ name = "sigusr2" then .sigusr2
  else .sigterm

/-- `Instant + Duration`; `none` is the overflow panic. -/
def addDuration (now : Instant) (d : Duration) : Option Instant :=
  if now + d < 2 ^ 63 * 1000000000 then some (now + d) else none

namespace World

def finalizeStop (w : World) (name : NodeId) (pid : Pid) : World :=
  { w with
    tree := (w.tree.unregisterPid pid).modifyWorker name fun wk =>
      { wk with pid := none, state := .stopped } }

/-- One round of the wait for a stopped service: `some true` once it is
gone, `some false` at the deadline. -/
def stopPoll (pid : Pid) (deadline : Instant) (w : World) : Option Bool × World :=
  match w.waitpidFor pid with
  | (.exited _ _, w) => (some true, w)
  | (.signaled _ _, w) => (some true, w)
  | (.echild, w) => (some true, w)
  | (_, w) =>
    let (now, w) := w.readClock
    (if now ≥ deadline then some false else none, w)

/-- One round of the wait after `SIGKILL`. -/
def killPoll (pid : Pid) (deadline : Instant) (w : World) : Option Unit × World :=
  match w.waitpidFor pid with
  | (.stillAlive, w) =>
    let (now, w) := w.readClock
    (if now ≥ deadline then some () else none, w)
  | (_, w) => (some (), w)

/-- The pause between two rounds. -/
def pollPause (w : World) : World := w.sleep (fromMillis 50)

/-- Rounds of a poll every 50 ms that lasts `d`. -/
def pollRounds (d : Duration) : Nat := d / fromMillis 50 + 2

/-- `stop-exec`, whose outcome is only logged. The manager waits for the command
without a limit: the model assumes that it ends. What time it takes passes
before the next reading of the clock. -/
def runStopExec (w : World) (name : NodeId) (cmd : Option (List String)) :
    World :=
  match cmd with
  | some (c :: cs) => w.note (.stopExec name (c :: cs))
  | _ => w

/-- The part of `stop_service_graceful` after the deadline is known:
wait, escalate to `SIGKILL`, wait again, clean up. -/
def awaitStop (w : World) (name : NodeId) (pid : Pid)
    (timeout : Duration) (deadline : Instant) : World :=
  match poll (stopPoll pid deadline) pollPause (pollRounds timeout) w with
  | (some true, w) => w.finalizeStop name pid
  | (_, w) =>
    let w := w.note (.kill pid .sigkill)
    let (now, w) := w.readClock
    let w := (poll (killPoll pid (now + fromSecs 3)) pollPause (pollRounds (fromSecs 3)) w).2
    w.finalizeStop name pid

def stopServiceGraceful (w : World) (name : NodeId) : Option World :=
  match w.tree.getWorker name with
  | none => some w
  | some wk =>
    match wk.pid with
    | none => some w
    | some pid => do
        let shutdown := wk.svcDef.shutdown
        let timeout :=
          ((parseDurationSecs shutdown.stopTimeout).map fromSecs).getD
            (fromSecs 10)
        let w := w.runStopExec name shutdown.stopExec
        let w := w.note (.kill pid (parseSignal shutdown.stopSignal))
        let (now, w) := w.readClock
        let stateDeadline ← addDuration now timeout
        let w := { w with
          tree := w.tree.modifyWorker name fun wk =>
            { wk with state := .stopping (some stateDeadline) } }
        let (now, w) := w.readClock
        let deadline ← addDuration now timeout
        return w.awaitStop name pid timeout deadline

def reapRemaining : Nat → World → World
  | 0, w => w
  | fuel + 1, w =>
    match w.waitpid with
    | (.stillAlive, w) => w
    | (.echild, w) => w
    | (_, w) => reapRemaining fuel w

/-- The stop order, under the environment's iteration orders. -/
def stopOrder (w : World) (g : DependencyGraph) : List String :=
  computeReverseTopoOrder g (w.env.iter .services g.allServices)
    (w.env.iter .degrees g.allServices)
    (fun s => w.env.iter .dependents (g.dependentsOf s))

def executeShutdown (w : World) (g : DependencyGraph) : Option World := do
  let w ← (w.stopOrder g).foldlM stopServiceGraceful w
  return reapRemaining w.env.waits.length w

end World

end Dynamod.Svmgr
