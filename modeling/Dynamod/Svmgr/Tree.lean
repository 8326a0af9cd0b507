/-
The supervisor tree (`supervisor/tree.rs`) and the lifecycle states of
its workers (`supervisor/lifecycle.rs`).

Nodes live in one map keyed by name, next to a second map from process
ids to worker names. `register_pid` and `unregister_pid` each write
one side of that pairing on their own: nothing in the tree itself
keeps a worker's `pid` field and the pid map in step.

# Reading an update

Every later module changes workers through `modifyWorker`,
`registerPid` and `unregisterPid`, and reads them back through
`getWorker`, `getSupervisor`, `parentOf` and `pidMap`; the lemmas of
the last sections are those reads over those writes.
-/
import Dynamod.Lib.Maps
import Dynamod.Svmgr.Config
import Dynamod.Svmgr.Intensity

namespace Dynamod.Svmgr

open Lib

-- ==== lifecycle

inductive ServiceState
  | stopped
  | starting
  | running
  | stopping (deadline : Option Instant)
  | failed (exitCode signal : Option Int)
  | abandoned
  deriving DecidableEq

def ServiceState.isRunning : ServiceState → Bool
  | running | starting => true
  | _ => false

def ServiceState.isStopped : ServiceState → Bool
  | stopped | failed _ _ | abandoned => true
  | _ => false

structure ExitInfo where
  exitCode : Option Int
  signal : Option Int
  deriving DecidableEq

def ExitInfo.isNormal (exit : ExitInfo) : Bool := exit.exitCode = some 0

/-- The state a worker is left in by an exit: clean stop or failure. -/
def ExitInfo.state (exit : ExitInfo) : ServiceState :=
  if exit.isNormal then .stopped else .failed exit.exitCode exit.signal

-- ==== nodes

abbrev NodeId := String

abbrev Pid := Int

/-- A supervisor with its children. -/
structure SupervisorNode where
  name : String
  strategy : RestartStrategy
  intensity : RestartIntensity
  /-- In start order. -/
  children : List NodeId := []
  /-- `none` for the root. -/
  parent : Option NodeId
  deriving DecidableEq

/-- `WorkerNode`; the field `def` of the source is `svcDef` here. -/
structure WorkerNode where
  name : String
  svcDef : ServiceDef
  state : ServiceState
  restartPolicy : RestartPolicy
  startIndex : Nat
  parent : NodeId
  /-- The current process, if running. -/
  pid : Option Pid
  deriving DecidableEq

inductive TreeNode
  | supervisor (s : SupervisorNode)
  | worker (w : WorkerNode)
  deriving DecidableEq

inductive TreeError
  | duplicateNode (name : String)
  | parentNotFound (name : String)
  | parentIsWorker (name : String)
  deriving DecidableEq

/-- `supervisor_tree`: the nodes, and who owns a process. -/
structure SupervisorTree where
  nodes : HashMap NodeId TreeNode
  rootId : NodeId
  pidMap : HashMap Pid NodeId

namespace SupervisorTree

-- ==== reading

def get (t : SupervisorTree) (id : NodeId) : Option TreeNode :=
  t.nodes.lookup id

def getWorker (t : SupervisorTree) (id : NodeId) : Option WorkerNode :=
  match t.nodes.lookup id with
  | some (.worker w) => some w
  | _ => none

def getSupervisor (t : SupervisorTree) (id : NodeId) : Option SupervisorNode :=
  match t.nodes.lookup id with
  | some (.supervisor s) => some s
  | _ => none

def workerForPid (t : SupervisorTree) (pid : Pid) : Option NodeId :=
  t.pidMap.lookup pid

def parentOf (t : SupervisorTree) (id : NodeId) : Option NodeId :=
  match t.nodes.lookup id with
  | some (.worker w) => some w.parent
  | some (.supervisor s) => s.parent
  | none => none

def childrenOf (t : SupervisorTree) (id : NodeId) : List NodeId :=
  match t.nodes.lookup id with
  | some (.supervisor s) => s.children
  | _ => []

/-- `all_workers`: the names of the worker nodes. -/
def allWorkers (t : SupervisorTree) : Finset NodeId :=
  t.nodes.keys.filter fun id => (t.getWorker id).isSome

-- ==== writing

def new (rootName : String) (strategy : RestartStrategy)
    (intensity : RestartIntensity) : SupervisorTree where
  nodes := Finmap.singleton rootName
    (.supervisor { name := rootName, strategy, intensity, parent := none })
  rootId := rootName
  pidMap := ∅

/-- `if let Some(TreeNode::Worker(w)) = tree.get_mut(id) { .. }`. -/
def modifyWorker (t : SupervisorTree) (id : NodeId)
    (f : WorkerNode → WorkerNode) : SupervisorTree :=
  { t with
    nodes := t.nodes.modify id fun
      | .worker w => .worker (f w)
      | .supervisor s => .supervisor s }

/-- `if let Some(TreeNode::Supervisor(s)) = tree.get_mut(id) { .. }`. -/
def modifySupervisor (t : SupervisorTree) (id : NodeId)
    (f : SupervisorNode → SupervisorNode) : SupervisorTree :=
  { t with
    nodes := t.nodes.modify id fun
      | .worker w => .worker w
      | .supervisor s => .supervisor (f s) }

/-- The check and the push that `add_supervisor` and `add_worker`
share: the name is new and the parent is a supervisor. The new node is
told the length of its parent's children list. -/
def addNode (t : SupervisorTree) (name : String) (parentId : NodeId)
    (node : Nat → TreeNode) : Except TreeError SupervisorTree :=
  if name ∈ t.nodes then .error (.duplicateNode name)
  else
    match t.nodes.lookup parentId with
    | some (.supervisor parent) =>
      .ok { t with
        nodes := (t.nodes.insert parentId (.supervisor { parent with
            children := parent.children ++ [name] })).insert name
              (node parent.children.length) }
    | some (.worker _) => .error (.parentIsWorker parentId)
    | none => .error (.parentNotFound parentId)

def addSupervisor (t : SupervisorTree) (name : String) (parentId : NodeId)
    (strategy : RestartStrategy) (intensity : RestartIntensity) :
    Except TreeError SupervisorTree :=
  t.addNode name parentId fun _ =>
    .supervisor { name, strategy, intensity, parent := some parentId }

/-- The node `add_worker` makes of a definition. -/
def newWorker (svcDef : ServiceDef) (parentId : NodeId) (startIndex : Nat) : WorkerNode where
  name := svcDef.service.name
  svcDef := svcDef
  state := .stopped
  restartPolicy := svcDef.restart.policy
  startIndex := startIndex
  parent := parentId
  pid := none

def addWorker (t : SupervisorTree) (svcDef : ServiceDef)
    (parentId : NodeId) : Except TreeError SupervisorTree :=
  t.addNode svcDef.service.name parentId fun startIndex =>
    .worker (newWorker svcDef parentId startIndex)

def registerPid (t : SupervisorTree) (id : NodeId) (pid : Pid) :
    SupervisorTree :=
  { t.modifyWorker id fun w =>
      { w with pid := some pid, state := .running } with
    pidMap := t.pidMap.insert pid id }

/-- `unregister_pid`, without the name it returns
(`workerForPid`). -/
def unregisterPid (t : SupervisorTree) (pid : Pid) : SupervisorTree :=
  { t with pidMap := t.pidMap.erase pid }

-- ==== reads over the writes

variable (t : SupervisorTree) (id n : NodeId) (pid : Pid)

/-- A write to a worker is read back, and nowhere else. -/
@[simp] theorem getWorker_modifyWorker (f : WorkerNode → WorkerNode) :
    (t.modifyWorker id f).getWorker n
      = if n = id then (t.getWorker id).map f else t.getWorker n := by
  unfold getWorker modifyWorker
  rw [HashMap.lookup_modify]
  by_cases hn : n = id
  · rw [if_pos hn, if_pos hn]
    cases t.nodes.lookup id with
    | none => rfl
    | some node => cases node <;> rfl
  · rw [if_neg hn, if_neg hn]

@[simp] theorem getSupervisor_modifyWorker (f : WorkerNode → WorkerNode) :
    (t.modifyWorker id f).getSupervisor n = t.getSupervisor n := by
  unfold getSupervisor modifyWorker
  rw [HashMap.lookup_modify]
  by_cases hn : n = id
  · rw [if_pos hn, hn]
    cases t.nodes.lookup id with
    | none => rfl
    | some node => cases node <;> rfl
  · rw [if_neg hn]

@[simp] theorem getWorker_modifySupervisor (f : SupervisorNode → SupervisorNode) :
    (t.modifySupervisor id f).getWorker n = t.getWorker n := by
  unfold getWorker modifySupervisor
  rw [HashMap.lookup_modify]
  by_cases hn : n = id
  · rw [if_pos hn, hn]
    cases t.nodes.lookup id with
    | none => rfl
    | some node => cases node <;> rfl
  · rw [if_neg hn]

@[simp] theorem getSupervisor_modifySupervisor (f : SupervisorNode → SupervisorNode) :
    (t.modifySupervisor id f).getSupervisor n
      = if n = id then (t.getSupervisor id).map f
        else t.getSupervisor n := by
  unfold getSupervisor modifySupervisor
  rw [HashMap.lookup_modify]
  by_cases hn : n = id
  · rw [if_pos hn, if_pos hn]
    cases t.nodes.lookup id with
    | none => rfl
    | some node => cases node <;> rfl
  · rw [if_neg hn, if_neg hn]

@[simp] theorem pidMap_modifySupervisor (f : SupervisorNode → SupervisorNode) :
    (t.modifySupervisor id f).pidMap = t.pidMap := rfl

@[simp] theorem getWorker_unregisterPid : (t.unregisterPid pid).getWorker n = t.getWorker n := rfl

@[simp] theorem getSupervisor_unregisterPid :
    (t.unregisterPid pid).getSupervisor n = t.getSupervisor n := rfl

@[simp] theorem getWorker_registerPid : (t.registerPid id pid).getWorker n
    = if n = id then (t.getWorker id).map fun w =>
        { w with pid := some pid, state := .running }
      else t.getWorker n :=
  t.getWorker_modifyWorker id n _

@[simp] theorem getSupervisor_registerPid :
    (t.registerPid id pid).getSupervisor n = t.getSupervisor n :=
  t.getSupervisor_modifyWorker id n _

-- ==== what a node's kind fixes

variable {t id n}

/-- A worker is such a node. -/
theorem lookup_of_getWorker {w : WorkerNode} (h : t.getWorker n = some w) :
    t.nodes.lookup n = some (.worker w) := by
  unfold getWorker at h
  split at h
  · next hn =>
    cases h
    exact hn
  · cases h

theorem lookup_of_getSupervisor {s : SupervisorNode} (h : t.getSupervisor n = some s) :
    t.nodes.lookup n = some (.supervisor s) := by
  unfold getSupervisor at h
  split at h
  · next hn =>
    cases h
    exact hn
  · cases h

theorem mem_allWorkers : n ∈ t.allWorkers ↔ ∃ w, t.getWorker n = some w := by
  unfold allWorkers
  rw [Finset.mem_filter, Option.isSome_iff_exists, Finmap.mem_keys]
  refine and_iff_right_of_imp fun ⟨w, hw⟩ => ?_
  exact Finmap.mem_of_lookup_eq_some (lookup_of_getWorker hw)

theorem parentOf_worker {w : WorkerNode} (h : t.getWorker n = some w) :
    t.parentOf n = some w.parent := by
  unfold parentOf
  rw [lookup_of_getWorker h]

theorem parentOf_supervisor {s : SupervisorNode}
    (h : t.getSupervisor n = some s) : t.parentOf n = s.parent := by
  unfold parentOf
  rw [lookup_of_getSupervisor h]

/-- A name holds a supervisor or a worker, never both. -/
theorem getWorker_of_supervisor {s : SupervisorNode}
    (h : t.getSupervisor n = some s) : t.getWorker n = none := by
  unfold getWorker
  rw [lookup_of_getSupervisor h]

/-- Writing to a worker that is not there writes nothing. -/
theorem modifyWorker_of_none {f : WorkerNode → WorkerNode}
    (h : t.getWorker n = none) : t.modifyWorker n f = t := by
  unfold modifyWorker
  congr 1
  apply Finmap.ext_lookup
  intro m
  rw [HashMap.lookup_modify]
  by_cases hm : m = n
  · rw [if_pos hm, hm]
    unfold getWorker at h
    cases hn : t.nodes.lookup n with
    | none => rfl
    | some node =>
      cases node with
      | worker w => simp [hn] at h
      | supervisor v => rfl
  · rw [if_neg hm]

end SupervisorTree

end Dynamod.Svmgr
