/-
The world the service manager runs in: the supervisor tree it owns,
the child processes the kernel holds for it, the clock, and what its
system calls will answer.

# The environment

`Env` scripts every answer from outside: which children `waitpid` will
report and in which order, what `fork` and `pipe` return, how readiness
probes come out, what the configuration directory holds on a reload,
how long a step takes. A statement quantified over `Env` is a statement
about every timing. Two answers no kernel gives are filtered out here:
`waitpid` never reports a process that is not a child waiting to be
reaped, and `fork` never returns the id of one that is.

# The log

`log` is not part of the program. It records what the manager did, in
order, so that a property can speak about the whole history. Nor is
`history`, which dates the decisions of the supervisors and the restarts
that follow from them.
-/
import Mathlib.Data.Finset.Basic
import Dynamod.Lib.Iter
import Dynamod.Svmgr.Frontier
import Dynamod.Svmgr.Strategy

namespace Dynamod.Svmgr

open Lib

-- ==== the environment

/-- An answer of `waitpid(-1, WNOHANG)`. -/
inductive WaitStatus
  | exited (pid : Pid) (code : Int)
  | signaled (pid : Pid) (sig : Int)
  | stillAlive
  | echild
  | eintr
  /-- Any other status or error. -/
  | other
  deriving DecidableEq

/-- The signals the manager sends. -/
inductive Signal
  | sigterm | sigint | sigquit | sighup | sigusr1 | sigusr2 | sigkill
  deriving DecidableEq

abbrev Fd := Int

/-- How the probe of one readiness check comes out: a connection, a
zero exit, a `READY=1` message or a byte; nothing yet; the pipe closed
at the other end; an error. -/
inductive Probe
  | answered
  | silent
  | closed
  | error (msg : String)
  deriving DecidableEq

/-- The hash collections walked with an order of their own. -/
inductive Walk
  | services | degrees | dependents | existing | trackers
  deriving DecidableEq

/-- What the outside will answer. An exhausted script reads as
`stillAlive`, a failed `fork`, `pipe` or `bind`, a silent probe, no
delay. -/
structure Env where
  waits : List WaitStatus := []
  forks : List (Option Pid) := []
  pipes : List (Option Fd) := []
  probes : List Probe := []
  /-- Whether binding a notify socket succeeds. -/
  binds : List Bool := []
  /-- Time that passes before a reading of the clock. -/
  jitter : List Nat := []
  /-- `load_services_dir` on a reload; `none` is an error. -/
  disk : Option (List ServiceDef) := none
  iter : Walk → (s : Finset String) → IterOrder s :=
    fun _ s => IterOrder.sorted s

-- ==== effects

inductive ReadinessResult
  | ready
  | notReady
  | timedOut
  | failed (msg : String)
  deriving DecidableEq

/-- The loop that reaped a child. -/
inductive Reaper
  /-- `handle_child_exit`. -/
  | supervisor
  /-- The oneshot arm of `reap_oneshots_during_startup`. -/
  | startup
  deriving DecidableEq

/-- What the manager did. -/
inductive Effect
  /-- `start_worker` was called for a worker whose `pid` was `held`. -/
  | start (worker : NodeId) (held : Option Pid)
  | spawned (worker : NodeId) (pid : Pid)
  | spawnFailed (worker : NodeId)
  | kill (pid : Pid) (sig : Signal)
  /-- The `stop-exec` command of a worker was run. -/
  | stopExec (worker : NodeId) (cmd : List String)
  | exited (worker : NodeId) (pid : Pid) (exit : ExitInfo) (by_ : Reaper)
  /-- A restart was recorded in the intensity of a supervisor. -/
  | recorded (supervisor : NodeId)
  /-- A supervisor exceeded its intensity. -/
  | gaveUp (supervisor : NodeId)
  /-- A reload added a worker to the tree. -/
  | joined (worker : NodeId)
  | frontier (event : FrontierEvent)
  /-- The startup loop has started a service of a batch; `failed` if
  its `spawn_service` call returned an error. -/
  | launch (service : NodeId) (failed : Bool)
  /-- A readiness check of the startup loop came out. -/
  | checked (service : NodeId) (result : ReadinessResult)
  /-- A name was added to `pending_oneshots`. -/
  | awaiting (oneshot : NodeId)
  deriving DecidableEq

-- ==== decisions and restarts

/-- What one `apply_strategy` call came to. -/
structure Decision where
  now : Instant
  /-- The supervisor whose strategy was asked. -/
  supervisor : NodeId
  /-- It recorded a restart. -/
  recorded : Bool
  /-- The action that is executed. -/
  action : StrategyAction
  deriving DecidableEq

/-- What `handle_child_exit` executes of an action: nothing of that of a
supervisor that gave up. -/
def StrategyAction.executed (action : StrategyAction) : StrategyAction :=
  if action.supervisorFailed then {} else action

/-- The decision about `child` in a tree. -/
def SupervisorTree.decision (t : SupervisorTree) (sup child : NodeId)
    (exit : ExitInfo) (now : Instant) : Decision where
  now := now
  supervisor := sup
  recorded := (t.getSupervisor sup).isSome && t.shouldRestartChild child exit
  action := (t.applyStrategy sup child exit now).1.executed

/-- A worker was restarted by its supervisor. -/
structure Restart where
  worker : NodeId
  /-- The decision it follows from, by its place among all decisions. -/
  decision : Nat
  /-- When `start_worker` was called. -/
  performed : Instant
  deriving DecidableEq

/-- The decisions made and the restarts performed, in order. -/
structure History where
  decisions : List Decision := []
  restarts : List Restart := []

-- ==== the world

structure World where
  tree : SupervisorTree
  /-- Children spawned by `start_worker` and not reaped. -/
  live : Finset Pid := ∅
  now : Instant := 0
  env : Env := {}
  log : List Effect := []
  history : History := {}

namespace World

/-- A supervisor has decided about the exit of a child. -/
def noteDecision (w : World) (d : Decision) : World :=
  { w with history.decisions := w.history.decisions ++ [d] }

/-- `start_worker` is about to be called for an entry of `to_start`. -/
def noteRestart (w : World) (worker : NodeId) (decision : Nat) : World :=
  { w with history.restarts := w.history.restarts ++ [⟨worker, decision, w.now⟩] }

def note (w : World) (e : Effect) : World := { w with log := w.log ++ [e] }

def sleep (w : World) (d : Duration) : World := { w with now := w.now + d }

/-- `Instant::now()`. -/
def readClock (w : World) : Instant × World :=
  match w.env.jitter with
  | [] => (w.now, w)
  | d :: rest =>
    (w.now + d,
      { w with now := w.now + d, env := { w.env with jitter := rest } })

/-- Drop a reaped child. -/
def reap (w : World) (pid : Pid) : World :=
  { w with live := w.live.erase pid }

/-- `waitpid(None, WNOHANG)`. -/
def waitpid (w : World) : WaitStatus × World :=
  match w.env.waits with
  | [] => (.stillAlive, w)
  | status :: rest =>
    let w := { w with env := { w.env with waits := rest } }
    match status with
    | .exited pid code =>
      if pid ∈ w.live then (.exited pid code, w.reap pid)
      else (.stillAlive, w)
    | .signaled pid sig =>
      if pid ∈ w.live then (.signaled pid sig, w.reap pid)
      else (.stillAlive, w)
    | status => (status, w)

/-- `waitpid(Some(pid), WNOHANG)`: about one child only, and `ECHILD`
once it is gone. -/
def waitpidFor (w : World) (pid : Pid) : WaitStatus × World :=
  let quiet (w : World) : WaitStatus × World :=
    (if pid ∈ w.live then .stillAlive else .echild, w)
  match w.env.waits with
  | [] => quiet w
  | status :: rest =>
    let w := { w with env := { w.env with waits := rest } }
    if pid ∉ w.live then (.echild, w)
    else
      match status with
      | .exited p code =>
        if p = pid then (.exited p code, w.reap pid) else quiet w
      | .signaled p sig =>
        if p = pid then (.signaled p sig, w.reap pid) else quiet w
      | .echild => quiet w
      | status => (status, w)

/-- `fork()` in the parent. -/
def fork (w : World) : Option Pid × World :=
  match w.env.forks with
  | [] => (none, w)
  | none :: rest => (none, { w with env := { w.env with forks := rest } })
  | some pid :: rest =>
    let w := { w with env := { w.env with forks := rest } }
    if pid ∈ w.live then (none, w)
    else (some pid, { w with live := insert pid w.live })

/-- `create_pipe`: the read end. -/
def createPipe (w : World) : Option Fd × World :=
  match w.env.pipes with
  | [] => (none, w)
  | fd :: rest => (fd, { w with env := { w.env with pipes := rest } })

/-- Binding a notify socket. -/
def bind (w : World) : Bool × World :=
  match w.env.binds with
  | [] => (false, w)
  | b :: rest => (b, { w with env := { w.env with binds := rest } })

/-- The outcome of the probe of a readiness check. -/
def probe (w : World) : Probe × World :=
  match w.env.probes with
  | [] => (.silent, w)
  | p :: rest => (p, { w with env := { w.env with probes := rest } })

end World

-- ==== spawning

/-- The errors `spawn_service` returns. -/
inductive SpawnError
  | emptyExec
  | fork
  | invalidPath (path : String)
  deriving DecidableEq

structure SpawnedProcess where
  pid : Pid
  readyFd : Option Fd
  deriving DecidableEq

/-- `CString::new` accepts the text. -/
def isCString (s : String) : Bool := s.toList.all (· ≠ '\x00')

/-- `spawn_service`: the checks before the fork, the readiness pipe and
the fork. The environment, log pipe and pidfd never make it fail. -/
def World.spawnService (w : World) (svcDef : ServiceDef) :
    Except SpawnError SpawnedProcess × World :=
  if svcDef.service.exec = [] then (.error .emptyExec, w)
  else
    match svcDef.service.exec.find? (fun a => !isCString a) with
    | some a => (.error (.invalidPath a), w)
    | none =>
      let (readyFd, w) :=
        if svcDef.readiness.readinessType = .fd then w.createPipe
        else (none, w)
      match w.fork with
      | (none, w) => (.error .fork, w)
      | (some pid, w) => (.ok ⟨pid, readyFd⟩, w)

end Dynamod.Svmgr
