/-
Restart strategies (`supervisor/strategy.rs`): what a supervisor does
about the exit of a child, and what its parent does when the
supervisor itself gives up.

`record_restart` reads the clock; here the reading `now` is an
argument.
-/
import Dynamod.Svmgr.Tree

namespace Dynamod.Svmgr

structure StrategyAction where
  /-- In this order, typically reverse start order. -/
  toStop : List NodeId := []
  /-- In this order, typically start order. -/
  toStart : List NodeId := []
  /-- The supervisor itself has failed: intensity exceeded. -/
  supervisorFailed : Bool := false
  deriving DecidableEq

def shouldRestart (policy : RestartPolicy) (exit : ExitInfo) : Bool :=
  match policy with
  | .permanent => true
  | .transient => !exit.isNormal
  | .temporary => false

def applyOneForOne (failedChildId : NodeId) : StrategyAction :=
  { toStart := [failedChildId] }

def applyOneForAll (children : List NodeId) (_failedChildId : NodeId) :
    StrategyAction :=
  { toStop := children.reverse, toStart := children }

def applyRestForOne (children : List NodeId) (failedChildId : NodeId) :
    StrategyAction :=
  let failedIdx := (children.idxOf? failedChildId).getD 0
  let affected := children.drop failedIdx
  { toStop := affected.reverse, toStart := affected }

/-- The action of a supervisor that restarts a child. -/
def RestartStrategy.action (strategy : RestartStrategy)
    (children : List NodeId) (failedChildId : NodeId) : StrategyAction :=
  match strategy with
  | .oneForOne => applyOneForOne failedChildId
  | .oneForAll => applyOneForAll children failedChildId
  | .restForOne => applyRestForOne children failedChildId

namespace SupervisorTree

/-- Mark each worker among `children` as abandoned. -/
def abandon (t : SupervisorTree) (children : List NodeId) :
    SupervisorTree :=
  children.foldl
    (fun t c => t.modifyWorker c fun w => { w with state := .abandoned }) t

/-- Whether `failedChildId` is a worker its own policy restarts after
`exit`. -/
def shouldRestartChild (t : SupervisorTree) (failedChildId : NodeId) (exit : ExitInfo) : Bool :=
  match t.getWorker failedChildId with
  | some w => shouldRestart w.restartPolicy exit
  | none => false

def applyStrategy (t : SupervisorTree) (supervisorId : NodeId)
    (failedChildId : NodeId) (exit : ExitInfo) (now : Instant) :
    StrategyAction × SupervisorTree :=
  match t.getSupervisor supervisorId with
  | none => ({}, t)
  | some s =>
    if t.shouldRestartChild failedChildId exit then
      let recorded := s.intensity.recordRestartAt now
      let t := t.modifySupervisor supervisorId fun s =>
        { s with intensity := recorded.2 }
      if recorded.1 then
        -- the stop list is handed out, but see handle_child_exit
        ({ toStop := s.children, supervisorFailed := true }, t.abandon s.children)
      else (s.strategy.action s.children failedChildId, t)
    else
      ({}, t.modifyWorker failedChildId fun w =>
        { w with state := exit.state })

/-- `escalate_failure`: the parent and its action, `none` for the
root. -/
def escalateFailure (t : SupervisorTree) (failedSupervisorId : NodeId)
    (now : Instant) : Option (NodeId × StrategyAction) × SupervisorTree :=
  match t.parentOf failedSupervisorId with
  | none => (none, t)
  | some parentId =>
    let (action, t) :=
      t.applyStrategy parentId failedSupervisorId ⟨none, none⟩ now
    (some (parentId, action), t)

end SupervisorTree

end Dynamod.Svmgr
