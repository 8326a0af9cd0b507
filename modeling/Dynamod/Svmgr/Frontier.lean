/-
The startup frontier (`dependency/frontier.rs`): the counters of unmet
dependencies, the queue of startable services, and the sets a service
passes through on its way from pending to ready, failed or blocked.

Every loop over a `HashSet` takes its iteration order as an argument
(Lib/Iter.lean), so a statement about a run is a statement about every
hasher.

# Runs

`FrontierRun g tr f`: the frontier `f` is what `new`, `take_ready`,
`mark_ready` and `mark_failed` leave after the events `tr`, where each
mark is applied to a service already returned and not yet marked. The
trace is the observable history: which batches were handed out, which
services were marked, in order.
-/
import Mathlib.Data.String.Basic
import Dynamod.Lib.Iter
import Dynamod.Lib.Worklist
import Dynamod.Svmgr.Graph

namespace Dynamod.Svmgr

open Lib Relation

-- ==== the state

structure StartupFrontier where
  /-- Number of unmet dependencies for each service. -/
  unmet : HashMap String Nat
  /-- Services whose dependencies are all satisfied. -/
  readyToStart : List String
  ready : Finset String
  pending : Finset String
  blocked : Finset String
  /-- Started and ready, failed, or blocked. -/
  completed : Finset String

/-- An iteration order for the dependents of every service. -/
abbrev DependentsOrder (g : DependencyGraph) :=
  (s : String) → IterOrder (g.dependentsOf s)

/-- Every walk in ascending order, for concrete runs. -/
def sortedOrder (g : DependencyGraph) : DependentsOrder g :=
  fun s => IterOrder.sorted (g.dependentsOf s)

namespace StartupFrontier

def new (g : DependencyGraph) (services : IterOrder g.allServices) :
    StartupFrontier :=
  services.list.foldl
    (fun f service =>
      let count := (g.dependenciesOf service).card
      { f with
        unmet := f.unmet.insert service count
        readyToStart :=
          if count = 0 then f.readyToStart ++ [service]
          else f.readyToStart })
    { unmet := ∅, readyToStart := [], ready := ∅, pending := ∅,
      blocked := ∅, completed := ∅ }

/-- `take_ready`: hand out the whole queue and note it as pending. -/
def takeReady (f : StartupFrontier) : List String × StartupFrontier :=
  let batch := f.readyToStart
  (batch,
    { f with
      readyToStart := []
      pending := batch.foldl (fun p s => insert s p) f.pending })

/-- One dependency of `dependent` is settled: lower its counter, and
queue it if that was the last one and it is still `startable`. -/
def decrement (f : StartupFrontier) (startable : Bool) (dependent : String) :
    StartupFrontier :=
  match f.unmet.lookup dependent with
  | some n =>
    { f with
      unmet := f.unmet.insert dependent (n - 1)
      readyToStart :=
        if n - 1 = 0 ∧ startable = true
        then f.readyToStart ++ [dependent] else f.readyToStart }
  | none => f

def markReady (f : StartupFrontier) (service : String)
    (g : DependencyGraph) (order : DependentsOrder g) : StartupFrontier :=
  let f := { f with
    pending := f.pending.erase service
    ready := insert service f.ready
    completed := insert service f.completed }
  (order service).list.foldl
    (fun f dependent =>
      if dependent ∈ f.blocked then f
      else
        f.decrement (dependent ∉ f.completed && dependent ∉ f.pending)
          dependent)
    f

/-- The services that would be blocked because `svc` is. -/
def requirers (g : DependencyGraph) (order : DependentsOrder g) (svc : String) : List String :=
  (order svc).list.filter fun dep => svc ∈ g.requiresOf dep

/-- The breadth-first blocking loop of `mark_failed`. -/
def blockLoop (g : DependencyGraph) (order : DependentsOrder g) :
    Nat → List String → StartupFrontier → StartupFrontier
  | 0, _, f => f
  | _ + 1, [], f => f
  | fuel + 1, svc :: toBlock, f =>
    if svc ∈ f.blocked then blockLoop g order fuel toBlock f
    else
      let f := { f with
        blocked := insert svc f.blocked
        completed := insert svc f.completed }
      blockLoop g order fuel
        (toBlock ++ (requirers g order svc).filter (fun dep => dep ∉ f.blocked))
        f

/-- The first loop of `mark_failed`: a requirer is queued for
blocking, any other dependent has one dependency less to wait for. -/
def failLoop (g : DependencyGraph) (service : String)
    (st : List String × StartupFrontier) (dependent : String) : List String × StartupFrontier :=
  if service ∈ g.requiresOf dependent then (st.1 ++ [dependent], st.2)
  else
    (st.1, st.2.decrement (dependent ∉ st.2.completed && dependent ∉ st.2.pending
          && dependent ∉ st.2.blocked)
        dependent)

/-- `mark_failed`. The fuel drains the blocking queue
(`Proofs/Frontier.lean`). -/
def markFailed (f : StartupFrontier) (service : String)
    (g : DependencyGraph) (order : DependentsOrder g) : StartupFrontier :=
  let f := { f with
    pending := f.pending.erase service
    completed := insert service f.completed }
  let (toBlock, f) := (order service).list.foldl (failLoop g service) ([], f)
  blockLoop g order
    (Worklist.credit (requirers g order) g.allServices toBlock f.blocked)
    toBlock f

def isComplete (f : StartupFrontier) : Bool :=
  f.completed.card + f.blocked.card ≥ f.unmet.keys.card

def hasReady (f : StartupFrontier) : Bool := !f.readyToStart.isEmpty

end StartupFrontier

-- ==== runs

/-- What a caller of the frontier observes. -/
inductive FrontierEvent
  | took (batch : List String)
  | ready (service : String)
  | failed (service : String)
  deriving DecidableEq

/-- The history of a run, oldest event first. -/
abbrev FrontierTrace := List FrontierEvent

namespace FrontierTrace

/-- The services handed out by `take_ready`, in order. -/
def returned (tr : FrontierTrace) : List String :=
  tr.flatMap fun
    | .took batch => batch
    | _ => []

/-- The services marked ready, in order. -/
def readied (tr : FrontierTrace) : List String :=
  tr.filterMap fun
    | .ready s => some s
    | _ => none

/-- The services marked failed, in order. -/
def failed (tr : FrontierTrace) : List String :=
  tr.filterMap fun
    | .failed s => some s
    | _ => none

/-- The services marked either way. -/
def Marked (tr : FrontierTrace) (s : String) : Prop :=
  s ∈ tr.readied ∨ s ∈ tr.failed

instance (tr : FrontierTrace) (s : String) : Decidable (tr.Marked s) :=
  inferInstanceAs (Decidable (_ ∨ _))

end FrontierTrace

/-- The runs of the frontier over one graph. -/
inductive FrontierRun (g : DependencyGraph) :
    FrontierTrace → StartupFrontier → Prop
  | new (services : IterOrder g.allServices) :
      FrontierRun g [] (.new g services)
  | takeReady {tr : FrontierTrace} {f : StartupFrontier} :
      FrontierRun g tr f →
      FrontierRun g (tr ++ [.took f.takeReady.1]) f.takeReady.2
  | markReady {tr : FrontierTrace} {f : StartupFrontier} (s : String)
      (order : DependentsOrder g) :
      FrontierRun g tr f → s ∈ tr.returned → ¬ tr.Marked s →
      FrontierRun g (tr ++ [.ready s]) (f.markReady s g order)
  | markFailed {tr : FrontierTrace} {f : StartupFrontier} (s : String)
      (order : DependentsOrder g) :
      FrontierRun g tr f → s ∈ tr.returned → ¬ tr.Marked s →
      FrontierRun g (tr ++ [.failed s]) (f.markFailed s g order)

/-- Nothing is left to do: the queue is empty and every service handed
out has been marked. The startup loop of `main` exits here. -/
def Quiescent (tr : FrontierTrace) (f : StartupFrontier) : Prop :=
  f.readyToStart = [] ∧ ∀ s ∈ tr.returned, tr.Marked s

end Dynamod.Svmgr
