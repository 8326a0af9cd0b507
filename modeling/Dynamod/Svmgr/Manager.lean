/-
The service manager's own functions in `main.rs`: starting and
stopping a worker, reaping children and applying the supervisors'
strategies, and the actions of the control socket. Cgroup bookkeeping
never decides what these functions do and is left out.

# The recursion through reaping

`handle_child_exit` runs a strategy action, and a strategy action reaps
again: `reap_and_handle_exits` calls itself through them. Here the two
inner functions take the reaper as an argument, and
`reapAndHandleExits` closes the loop on fuel. Every round takes one
answer off the `waitpid` script, so the length of the script is fuel
enough.
-/
import Dynamod.Svmgr.Shutdown

namespace Dynamod.Svmgr

open Lib

namespace World

-- ==== starting and stopping

/-- `start_worker`: the readiness descriptor of the new process. There
is no check that the worker has no process yet. -/
def startWorker (w : World) (id : NodeId) : Option Fd × World :=
  match w.tree.getWorker id with
  | none => (none, w)
  | some wk =>
    match (w.note (.start id wk.pid)).spawnService wk.svcDef with
    | (.ok spawned, w) =>
      let tree := (w.tree.registerPid id spawned.pid).modifyWorker id
        fun wk => { wk with state := .running }
      (spawned.readyFd,
        { w with tree := tree }.note (.spawned id spawned.pid))
    | (.error _, w) =>
      let tree := w.tree.modifyWorker id fun wk =>
        { wk with state := .failed none none }
      (none, { w with tree := tree }.note (.spawnFailed id))

/-- The `spawn_service` call inside `start_worker` returns an error;
only the history asks. -/
def spawnFails (w : World) (id : NodeId) : Bool :=
  match w.tree.getWorker id with
  | none => false
  | some wk =>
    match ((w.note (.start id wk.pid)).spawnService wk.svcDef).1 with
    | .ok _ => false
    | .error _ => true

def stopWorker (w : World) (id : NodeId) : World :=
  match w.tree.getWorker id with
  | none => w
  | some wk =>
    match wk.pid with
    | none => w
    | some pid =>
      let tree := w.tree.modifyWorker id fun wk =>
        { wk with state := .stopping none }
      { w.note (.kill pid .sigterm) with tree := tree }

-- ==== exits of children

/-- Unregister a reaped child and set the state of its worker. -/
def exitWorker (w : World) (id : NodeId) (pid : Pid) (exit : ExitInfo) (by_ : Reaper) : World :=
  let tree := (w.tree.unregisterPid pid).modifyWorker id fun wk =>
    { wk with pid := none, state := exit.state }
  { w with tree := tree }.note (.exited id pid exit by_)

/-- `apply_strategy` would record a restart. -/
def restartDue (w : World) (supervisorId childId : NodeId) (exit : ExitInfo) : Bool :=
  (w.tree.getSupervisor supervisorId).isSome
    && w.tree.shouldRestartChild childId exit

/-- `apply_strategy` on the world's tree and clock. -/
def applyStrategy (w : World) (supervisorId childId : NodeId)
    (exit : ExitInfo) : StrategyAction × World :=
  let due := w.restartDue supervisorId childId exit
  let (now, w) := w.readClock
  let decision := w.tree.decision supervisorId childId exit now
  let (action, tree) := w.tree.applyStrategy supervisorId childId exit now
  let w := { w with tree := tree }.noteDecision decision
  (action, if due then w.note (.recorded supervisorId) else w)

/-- `escalate_failure` on the world's tree and clock. -/
def escalateFailure (w : World) (supervisorId : NodeId) :
    Option (NodeId × StrategyAction) × World :=
  match w.tree.parentOf supervisorId with
  | none => (none, w)
  | some parentId =>
    let (action, w) := w.applyStrategy parentId supervisorId ⟨none, none⟩
    (some (parentId, action), w)

/-- One entry of `to_stop`. -/
def stopChild (w : World) (id : NodeId) : World :=
  match w.tree.getWorker id with
  | some wk => if wk.state.isRunning then w.stopWorker id else w
  | none => w

/-- One entry of `to_start`, after its restart delay. -/
def restartChild (decision : Nat) (w : World) (id : NodeId) : World :=
  let w := match w.tree.getWorker id with
    | some wk => (w.sleep (fromSecs
        ((parseDurationSecs wk.svcDef.restart.delay).getD 1))).noteRestart id decision
    | none => w
  (w.startWorker id).2

/-- The place of the last decision made; only the history asks. -/
def lastDecision (w : World) : Nat := w.history.decisions.length - 1

def executeStrategyAction (reap : World → World) (w : World) (action : StrategyAction) : World :=
  let decision := w.lastDecision
  let w := action.toStop.foldl stopChild w
  let w := if action.toStop = [] then w else reap (w.sleep (fromMillis 100))
  action.toStart.foldl (restartChild decision) w

/-- The second half of `handle_child_exit`: ask the parent supervisor's
strategy. When the supervisor gives up, only its parent's action is
run: its own stop list is dropped. -/
def superviseExit (reap : World → World) (w : World) (id : NodeId) (exit : ExitInfo) : World :=
  match w.tree.parentOf id with
  | none => w
  | some supervisorId =>
    let (action, w) := w.applyStrategy supervisorId id exit
    if action.supervisorFailed then
      match (w.note (.gaveUp supervisorId)).escalateFailure
          supervisorId with
      | (some (_, parentAction), w) =>
        executeStrategyAction reap w parentAction
      | (none, w) => w
    else executeStrategyAction reap w action

def handleChildExit (reap : World → World) (w : World) (pid : Pid) (exit : ExitInfo) : World :=
  match w.tree.workerForPid pid with
  | none => w
  | some id =>
    superviseExit reap (w.exitWorker id pid exit .supervisor) id exit

def reapAndHandleExits : Nat → World → World
  | 0, w => w
  | fuel + 1, w =>
    match w.waitpid with
    | (.exited pid code, w) =>
      reapAndHandleExits fuel
        (handleChildExit (reapAndHandleExits fuel) w pid ⟨some code, none⟩)
    | (.signaled pid sig, w) =>
      reapAndHandleExits fuel
        (handleChildExit (reapAndHandleExits fuel) w pid ⟨none, some sig⟩)
    | (.eintr, w) => reapAndHandleExits fuel w
    | (_, w) => w

/-- `reap_and_handle_exits`, with fuel for the whole script. -/
def reapChildren (w : World) : World :=
  reapAndHandleExits w.env.waits.length w

-- ==== control actions

/-- `still_running`: the worker still holds the old process. -/
def stillRunning (w : World) (name : NodeId) (pid : Pid) : Bool :=
  match w.tree.getWorker name with
  | some wk => wk.pid = some pid
  | none => false

/-- One round of the wait in `RestartService`. -/
def restartPoll (name : NodeId) (pid : Pid) (deadline : Instant)
    (w : World) : Option Unit × World :=
  let w := w.reapChildren
  if w.stillRunning name pid then
    let (now, w) := w.readClock
    (if now ≥ deadline then some () else none, w)
  else (some (), w)

/-- The wait of `RestartService` for the old process. -/
def awaitExit (w : World) (name : NodeId) (pid : Pid) : World :=
  let (now, w) := w.readClock
  (poll (restartPoll name pid (now + fromSecs 5)) pollPause (pollRounds (fromSecs 5)) w).2

def restartService (w : World) (name : NodeId) : World :=
  let oldPid := (w.tree.getWorker name).bind WorkerNode.pid
  let w := w.stopWorker name
  let w := match oldPid with
    | some pid => w.awaitExit name pid
    | none => w
  (w.startWorker name).2

/-- A definition found by a reload: added under its supervisor, or
under the root when there is none, and started. -/
def reloadAdd (existing : Finset NodeId) (w : World) (svcDef : ServiceDef) : World :=
  if svcDef.service.name ∈ existing then w
  else
    let parentId :=
      if (w.tree.get svcDef.service.supervisor).isSome
      then svcDef.service.supervisor else "root"
    match w.tree.addWorker svcDef parentId with
    | .error _ => w
    | .ok tree =>
      let w := { w with tree := tree }.note (.joined svcDef.service.name)
      (w.startWorker svcDef.service.name).2

/-- `reload_services`. A removed service is stopped; its node stays. -/
def reloadServices (w : World) : World :=
  match w.env.disk with
  | none => w
  | some newDefs =>
    let existing := w.tree.allWorkers
    let loaded := newDefs.map fun d => d.service.name
    let order := w.env.iter .existing existing
    let w := newDefs.foldl (reloadAdd existing) w
    order.list.foldl
      (fun w name => if name ∈ loaded then w else w.stopWorker name) w

end World

/-- `ControlAction`, without the kind of shutdown passed on to init. -/
inductive ControlAction
  | startService (name : NodeId)
  | stopService (name : NodeId)
  | restartService (name : NodeId)
  | reload
  | shutdown
  deriving DecidableEq

/-- `handle_request`, for the requests that cause an action: a service
is acted on only if the tree knows it. -/
def ControlAction.accepted (tree : SupervisorTree) : ControlAction → Bool
  | startService name | stopService name | restartService name =>
    (tree.getWorker name).isSome
  | reload | shutdown => true

/-- One action of `dispatch_control_actions` that does not end the
manager; `none` for a shutdown. -/
def World.dispatchControlAction (w : World) : ControlAction → Option World
  | .startService name => some (w.startWorker name).2
  | .stopService name => some (w.stopWorker name)
  | .restartService name => some (w.restartService name)
  | .reload => some w.reloadServices
  | .shutdown => none

end Dynamod.Svmgr
