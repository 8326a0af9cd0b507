/-
`add_supervisor` and `add_worker` (`supervisor/tree.rs`) as they run:
on the tree in place, with the writes of one call one after another and
the error exits between them.

`SupervisorTree.addNode` says the same as one function to a new tree,
which is how the later modules use it; there a failing call has no tree
at all. Here it has one, so that what a failing call leaves can be
asked.
-/
import Dynamod.Svmgr.Tree

namespace Dynamod.Svmgr

open Lib

/-- A method on `&mut self` that can return a `TreeError`. A thrown
error keeps the writes made before it. -/
abbrev TreeM := EStateM TreeError SupervisorTree

namespace TreeM

def addSupervisor (name : String) (parentId : NodeId)
    (strategy : RestartStrategy) (intensity : RestartIntensity) : TreeM Unit := do
  if name ∈ (← get).nodes then
    throw (.duplicateNode name)
  let node : SupervisorNode :=
    { name, strategy, intensity, children := [], parent := some parentId }
  match (← get).nodes.lookup parentId with
  | some (.supervisor _) =>
    modify fun t => t.modifySupervisor parentId fun parent =>
      { parent with children := parent.children ++ [name] }
  | some (.worker _) => throw (.parentIsWorker parentId)
  | none => throw (.parentNotFound parentId)
  modify fun t => { t with nodes := t.nodes.insert name (.supervisor node) }

def addWorker (svcDef : ServiceDef) (parentId : NodeId) : TreeM Unit := do
  let name := svcDef.service.name
  if name ∈ (← get).nodes then
    throw (.duplicateNode name)
  let startIndex ←
    match (← get).nodes.lookup parentId with
    | some (.supervisor parent) => do
        let idx := parent.children.length
        modify fun t => t.modifySupervisor parentId fun parent =>
          { parent with children := parent.children ++ [name] }
        pure idx
    | some (.worker _) => throw (.parentIsWorker parentId)
    | none => throw (.parentNotFound parentId)
  let restartPolicy := svcDef.restart.policy
  let worker : WorkerNode :=
    { name, svcDef, state := .stopped, restartPolicy, startIndex
      parent := parentId, pid := none }
  modify fun t => { t with nodes := t.nodes.insert name (.worker worker) }

/-- The tree that a call leaves, whatever it returns. -/
def left (call : TreeM Unit) (t : SupervisorTree) : SupervisorTree :=
  match call.run t with
  | .ok _ t' => t'
  | .error _ t' => t'

/-- The error a call returns, if it does. -/
def error? (call : TreeM Unit) (t : SupervisorTree) : Option TreeError :=
  match call.run t with
  | .ok _ _ => none
  | .error e _ => some e

end TreeM

-- ==== any calls

/-- A call that adds a node. -/
inductive AddCall
  | addSupervisor (name : String) (parentId : NodeId)
      (strategy : RestartStrategy) (intensity : RestartIntensity)
  | addWorker (svcDef : ServiceDef) (parentId : NodeId)

/-- The method that is called. -/
def AddCall.exec : AddCall → TreeM Unit
  | addSupervisor name parentId strategy intensity =>
    .addSupervisor name parentId strategy intensity
  | addWorker svcDef parentId => .addWorker svcDef parentId

/-- The tree after a row of calls, failing ones included. -/
def SupervisorTree.execAll (t : SupervisorTree) (calls : List AddCall) :
    SupervisorTree :=
  calls.foldl (fun t call => call.exec.left t) t

-- ==== in place and as functions

/-- The call as a function to a new tree. -/
def AddCall.apply (t : SupervisorTree) : AddCall → Except TreeError SupervisorTree
  | addSupervisor name parentId strategy intensity =>
    t.addSupervisor name parentId strategy intensity
  | addWorker svcDef parentId => t.addWorker svcDef parentId

/-- What a call in place returns and leaves, given the function's
answer. -/
def inPlace (t : SupervisorTree) :
    Except TreeError SupervisorTree → EStateM.Result TreeError SupervisorTree Unit
  | .ok t' => .ok () t'
  | .error e => .error e t

/-- Pushing to the children of a node that is a supervisor. -/
private theorem modifySupervisor_insert {t : SupervisorTree} {parentId : NodeId}
    {parent : SupervisorNode} (f : SupervisorNode → SupervisorNode)
    (h : t.nodes.lookup parentId = some (.supervisor parent)) : t.modifySupervisor parentId f
      = { t with nodes := t.nodes.insert parentId (.supervisor (f parent)) } := by
  unfold SupervisorTree.modifySupervisor HashMap.modify
  rw [h]

theorem TreeM.run_addSupervisor (t : SupervisorTree) (name : String)
    (parentId : NodeId) (strategy : RestartStrategy) (intensity : RestartIntensity) :
    (TreeM.addSupervisor name parentId strategy intensity).run t
      = inPlace t (t.addSupervisor name parentId strategy intensity) := by
  unfold TreeM.addSupervisor SupervisorTree.addSupervisor SupervisorTree.addNode
  by_cases hname : name ∈ t.nodes
  · simp [hname, inPlace]
  · cases hparent : t.nodes.lookup parentId with
    | none => simp [hname, hparent, inPlace]
    | some node =>
      cases node with
      | worker w => simp [hname, hparent, inPlace]
      | supervisor s =>
        simp [hname, hparent, inPlace, modifySupervisor_insert _ hparent]

theorem TreeM.run_addWorker (t : SupervisorTree) (svcDef : ServiceDef) (parentId : NodeId) :
    (TreeM.addWorker svcDef parentId).run t
      = inPlace t (t.addWorker svcDef parentId) := by
  have hthrow : ∀ e, EStateM.run (throw e : TreeM Nat) t = .error e t :=
    fun _ => rfl
  unfold TreeM.addWorker SupervisorTree.addWorker SupervisorTree.addNode
  by_cases hname : svcDef.service.name ∈ t.nodes
  · simp [hname, inPlace]
  · cases hparent : t.nodes.lookup parentId with
    | none => simp [hname, hparent, hthrow, inPlace]
    | some node =>
      cases node with
      | worker w => simp [hname, hparent, hthrow, inPlace]
      | supervisor s =>
        simp [hname, hparent, inPlace, modifySupervisor_insert _ hparent, SupervisorTree.newWorker]

/-- A call in place does what the function says. -/
theorem AddCall.run_exec (t : SupervisorTree) (call : AddCall) :
    call.exec.run t = inPlace t (call.apply t) := by
  cases call with
  | addSupervisor name parentId strategy intensity =>
    exact TreeM.run_addSupervisor t name parentId strategy intensity
  | addWorker svcDef parentId => exact TreeM.run_addWorker t svcDef parentId

end Dynamod.Svmgr
