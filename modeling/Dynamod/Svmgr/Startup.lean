/-
`main`: building the supervisor tree, the startup loop and the main
loop.

# Runs

`Manager` is the manager between two statements of its loops, with the
statement it is about to execute as its `phase`. A `Step` executes one
of them under an environment of its own, so every run meets every
order of exits, every outcome of `fork` and every request. The loops'
heartbeats and cgroup events change nothing modelled here.
-/
import Dynamod.Svmgr.Manager
import Dynamod.Svmgr.Readiness

namespace Dynamod.Svmgr

open Lib

-- ==== building the tree

/-- The root supervisor before any configuration. -/
def rootTree : SupervisorTree :=
  .new "root" .oneForOne (.new 20 (fromSecs 600))

/-- One configured supervisor; a definition of `root` reconfigures it. -/
def addSupervisorDef (t : SupervisorTree) (d : SupervisorDef) :
    SupervisorTree :=
  let window := parseDurationSecs d.restart.maxRestartWindow
  if d.supervisor.name = "root" then
    t.modifySupervisor "root" fun root =>
      { root with
        strategy := d.supervisor.strategy
        intensity :=
          .new d.restart.maxRestarts (fromSecs (window.getD 600)) }
  else
    match t.addSupervisor d.supervisor.name
        (d.supervisor.parent.getD "root") d.supervisor.strategy
        (.new d.restart.maxRestarts (fromSecs (window.getD 300))) with
    | .ok t => t
    | .error _ => t

/-- One configured service, under the root if its supervisor is
unknown. -/
def addServiceDef (t : SupervisorTree) (d : ServiceDef) : SupervisorTree :=
  let parentId :=
    if (t.get d.service.supervisor).isSome then d.service.supervisor
    else "root"
  match t.addWorker d parentId with
  | .ok t => t
  | .error _ => t

/-- The supervisor tree of a configuration. -/
def buildTree (supervisors : List SupervisorDef) (services : List ServiceDef) : SupervisorTree :=
  services.foldl addServiceDef (supervisors.foldl addSupervisorDef rootTree)

-- ==== the startup loop

/-- The variables of the startup loop. -/
structure Startup where
  world : World
  frontier : StartupFrontier
  readinessTrackers : HashMap String ReadinessTracker := ∅
  pendingOneshots : Finset String := ∅

namespace Startup

/-- The same state, about to see the answers of `env`. -/
def withEnv (s : Startup) (env : Env) : Startup :=
  { s with world := { s.world with env := env } }

/-- The iteration order of every service's dependents. -/
def dependents (s : Startup) (g : DependencyGraph) : DependentsOrder g :=
  fun d => s.world.env.iter .dependents (g.dependentsOf d)

/-- `frontier.mark_ready(name, &dep_graph)`. -/
def markReady (s : Startup) (g : DependencyGraph) (name : String) :
    Startup :=
  { s with
    frontier := s.frontier.markReady name g (s.dependents g)
    world := s.world.note (.frontier (.ready name)) }

/-- `frontier.mark_failed(name, &dep_graph)`. -/
def markFailed (s : Startup) (g : DependencyGraph) (name : String) :
    Startup :=
  { s with
    frontier := s.frontier.markFailed name g (s.dependents g)
    world := s.world.note (.frontier (.failed name)) }

/-- One reaped child in `reap_oneshots_during_startup`: a pending
oneshot is settled here; any other child is registered again and
handed to `handle_child_exit`. -/
def childExit (s : Startup) (g : DependencyGraph) (pid : Pid) (exit : ExitInfo) : Startup :=
  match s.world.tree.workerForPid pid with
  | none => s
  | some name =>
    if name ∈ s.pendingOneshots then
      let s := { s with
        pendingOneshots := s.pendingOneshots.erase name
        world := s.world.exitWorker name pid exit .startup }
      if exit.isNormal then s.markReady g name else s.markFailed g name
    else
      let tree := (s.world.tree.unregisterPid pid).registerPid name pid
      { s with
        world := World.handleChildExit World.reapChildren
          { s.world with tree := tree } pid exit }

/-- `reap_oneshots_during_startup`. -/
def reapLoop (g : DependencyGraph) : Nat → Startup → Startup
  | 0, s => s
  | fuel + 1, s =>
    match s.world.waitpid with
    | (.exited pid code, w) =>
      reapLoop g fuel
        ({ s with world := w }.childExit g pid ⟨some code, none⟩)
    | (.signaled pid sig, w) =>
      reapLoop g fuel
        ({ s with world := w }.childExit g pid ⟨none, some sig⟩)
    | (.eintr, w) => reapLoop g fuel { s with world := w }
    | (_, w) => { s with world := w }

/-- `reap_oneshots_during_startup`, with fuel for the whole script. -/
def reapOneshotsDuringStartup (s : Startup) (g : DependencyGraph) :
    Startup :=
  reapLoop g s.world.env.waits.length s

/-- One service of a batch: start it and set up how it becomes ready.
What the spawn returned is not looked at. -/
def startService (g : DependencyGraph) (s : Startup) (name : String) :
    Startup :=
  let failed := s.world.spawnFails name
  let (readyFd, w) := s.world.startWorker name
  let w := w.note (.launch name failed)
  match w.tree.getWorker name with
  | none => { s with world := w }
  | some wk =>
    let (tracker, w) := ReadinessTracker.new wk.svcDef.readiness w
    let tracker := tracker.wire readyFd
    if wk.svcDef.service.serviceType = .oneshot ∧ tracker.isImmediate then
      { s with
        world := w.note (.awaiting name)
        pendingOneshots := insert name s.pendingOneshots }
    else if tracker.isImmediate then
      { s with world := w }.markReady g name
    else
      { s with
        world := w
        readinessTrackers := s.readinessTrackers.insert name tracker }

/-- Take the ready batch and start it. -/
def startBatch (s : Startup) (g : DependencyGraph) : Startup :=
  let (batch, frontier) := s.frontier.takeReady
  batch.foldl (startService g)
    { s with
      frontier := frontier
      world := s.world.note (.frontier (.took batch)) }

/-- One pending readiness check. -/
def pollTracker (g : DependencyGraph) (s : Startup) (name : String) :
    Startup :=
  match s.readinessTrackers.lookup name with
  | none => s
  | some tracker =>
    let (result, w) := tracker.check s.world
    let s := { s with world := w.note (.checked name result) }
    let settled := { s with
      readinessTrackers := s.readinessTrackers.erase name }
    match result with
    | .ready => settled.markReady g name
    | .timedOut => settled.markFailed g name
    | .failed _ => settled.markFailed g name
    | .notReady => s

/-- Poll the pending readiness checks. -/
def pollReadiness (s : Startup) (g : DependencyGraph) : Startup :=
  (s.world.env.iter .trackers s.readinessTrackers.keys).list.foldl
    (pollTracker g) s

/-- No more work to do: the loop breaks. -/
def done (s : Startup) : Prop :=
  s.frontier.hasReady = false ∧ s.readinessTrackers = ∅
    ∧ s.pendingOneshots = ∅

end Startup

-- ==== the manager

/-- The statement the manager is about to execute. -/
inductive Phase
  /-- The startup loop. -/
  | reap | start | poll | check
  /-- `dispatch_control_actions`, in the startup loop or not. -/
  | control (startup : Bool) (actions : List ControlAction)
  /-- The main loop. -/
  | mainReap | mainControl
  | exited
  deriving DecidableEq

structure Manager where
  phase : Phase
  state : Startup

namespace Manager

/-- The manager when the startup loop begins. -/
def boot (g : DependencyGraph) (tree : SupervisorTree)
    (services : IterOrder g.allServices) : Manager :=
  ⟨.reap, { world := { tree := tree }, frontier := .new g services }⟩

/-- One statement of the loops. -/
inductive Step (g : DependencyGraph) : Manager → Manager → Prop
  | reap (s : Startup) (env : Env) :
      Step g ⟨.reap, s⟩ ⟨.start, (s.withEnv env).reapOneshotsDuringStartup g⟩
  | start (s : Startup) (env : Env) :
      Step g ⟨.start, s⟩ ⟨.poll, (s.withEnv env).startBatch g⟩
  | poll (s : Startup) (env : Env) :
      Step g ⟨.poll, s⟩ ⟨.check, (s.withEnv env).pollReadiness g⟩
  | leave (s : Startup) : s.done → Step g ⟨.check, s⟩ ⟨.mainReap, s⟩
  | listen (s : Startup) (requests : List ControlAction) : ¬ s.done →
      Step g ⟨.check, s⟩
        ⟨.control true (requests.filter (ControlAction.accepted s.world.tree)), s⟩
  | act (s : Startup) (env : Env) (startup : Bool) (a : ControlAction)
      (rest : List ControlAction) (w : World) :
      (s.withEnv env).world.dispatchControlAction a = some w →
      Step g ⟨.control startup (a :: rest), s⟩
        ⟨.control startup rest, { s with world := w }⟩
  | shutdown (s : Startup) (env : Env) (startup : Bool)
      (rest : List ControlAction) (w : World) :
      (s.withEnv env).world.executeShutdown g = some w →
      Step g ⟨.control startup (.shutdown :: rest), s⟩
        ⟨.exited, { s with world := w }⟩
  | again (s : Startup) :
      Step g ⟨.control true [], s⟩
        ⟨.reap, { s with world := s.world.sleep (fromMillis 100) }⟩
  | mainReap (s : Startup) (env : Env) :
      Step g ⟨.mainReap, s⟩
        ⟨.mainControl, { s with world := (s.withEnv env).world.reapChildren }⟩
  | mainListen (s : Startup) (requests : List ControlAction) :
      Step g ⟨.mainControl, s⟩
        ⟨.control false (requests.filter (ControlAction.accepted s.world.tree)), s⟩
  | mainAgain (s : Startup) :
      Step g ⟨.control false [], s⟩
        ⟨.mainReap, { s with world := s.world.sleep (fromMillis 100) }⟩
  /-- `ShutdownSignal` from init. -/
  | signal (s : Startup) (env : Env) (w : World) :
      (s.withEnv env).world.executeShutdown g = some w →
      Step g ⟨.control false [], s⟩ ⟨.exited, { s with world := w }⟩

/-- The states of the manager booted from a configuration without
dependency cycles. -/
inductive Reachable (supervisors : List SupervisorDef)
    (services : List ServiceDef) : Manager → Prop
  | boot (order : IterOrder (DependencyGraph.build services).allServices) :
      (DependencyGraph.build services).Acyclic →
      Reachable supervisors services
        (boot (.build services) (buildTree supervisors services) order)
  | step {m m' : Manager} : Reachable supervisors services m →
      Step (.build services) m m' → Reachable supervisors services m'

end Manager

end Dynamod.Svmgr
