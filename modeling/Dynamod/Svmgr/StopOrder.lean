/-
The order in which shutdown stops services
(`compute_reverse_topo_order` in `shutdown.rs`): a forward Kahn pass,
the services it never reached appended, and the whole reversed.

The source walks three hash collections: the service set, twice and in
the same order, since it is not modified in between; the in-degree map
once, to seed the queue; and the dependents of each visited service.
Each walk takes its order as an argument.
-/
import Dynamod.Svmgr.Frontier

namespace Dynamod.Svmgr

open Lib

/-- The local variables of the Kahn pass. -/
structure KahnState where
  /-- `forward_in_degree`. -/
  degree : HashMap String Nat
  queue : List String
  /-- `forward_order`. -/
  order : List String
  visited : Finset String

namespace KahnState

/-- The in-degree map, and the queue seeded with the services without
dependencies. -/
def init (g : DependencyGraph) (services degrees : IterOrder g.allServices) :
    KahnState :=
  let degree := services.list.foldl
    (fun m svc => m.insert svc (g.dependenciesOf svc).card)
    (∅ : HashMap String Nat)
  { degree := degree
    queue := degrees.list.filter fun svc => degree.lookup svc = some 0
    order := []
    visited := ∅ }

/-- One dependent of the service just visited. -/
def relax (st : KahnState) (dependent : String) : KahnState :=
  match st.degree.lookup dependent with
  | some deg =>
    { st with
      degree := st.degree.insert dependent (deg - 1)
      queue :=
        if deg - 1 = 0 ∧ dependent ∉ st.visited
        then st.queue ++ [dependent] else st.queue }
  | none => st

/-- The `while let` loop. -/
def loop (g : DependencyGraph) (order : DependentsOrder g) : Nat → KahnState → KahnState
  | 0, st => st
  | fuel + 1, st =>
    match st.queue with
    | [] => st
    | svc :: queue =>
      if svc ∈ st.visited then loop g order fuel { st with queue := queue }
      else
        loop g order fuel
          ((order svc).list.foldl relax
            { st with
              queue := queue
              visited := insert svc st.visited
              order := st.order ++ [svc] })

/-- Fuel that drains the queue (`loop_drained`). -/
def fuel (g : DependencyGraph) (order : DependentsOrder g) (st : KahnState) :
    Nat :=
  Worklist.credit (fun s => (order s).list) g.allServices st.queue st.visited

/-- The state after the loop. -/
def run (g : DependencyGraph) (services degrees : IterOrder g.allServices)
    (order : DependentsOrder g) : KahnState :=
  let st := init g services degrees
  loop g order (fuel g order st) st

end KahnState

def computeReverseTopoOrder (g : DependencyGraph)
    (services degrees : IterOrder g.allServices) (order : DependentsOrder g) : List String :=
  let st := KahnState.run g services degrees order
  let forwardOrder :=
    st.order ++ services.list.filter fun svc => svc ∉ st.visited
  forwardOrder.reverse

end Dynamod.Svmgr
