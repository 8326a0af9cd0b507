/-
Cycle detection (`dependency/cycle.rs`): the three-colour search over
the dependency graph.

The source walks the service set once, and the dependencies of each
service it visits; neither is modified, so every walk over one of them
meets its elements in the same order. The orders are arguments.
-/
import Dynamod.Lib.DepthFirst
import Dynamod.Lib.Iter
import Dynamod.Svmgr.Graph

namespace Dynamod.Svmgr

open Lib DepthFirst Relation

structure CycleError where
  cycles : List (List String)

section

variable (g : DependencyGraph) (services : IterOrder g.allServices)
  (deps : ∀ s, IterOrder (g.dependenciesOf s))

/-- `detect_cycles`, with fuel for the depth of the recursion. -/
def detectCycles (fuel : Nat) : Option (List (List String)) :=
  (searchAll (fun s => (deps s).list) fuel services.list (start services.list)).map (·.cycles)

def validateNoCycles (fuel : Nat) : Option (Except CycleError Unit) :=
  (detectCycles g services deps fuel).map fun cycles =>
    if cycles = [] then .ok () else .error { cycles }

end

-- ==== what it detects

/-- Each service of the list depends on the next, and the last on the
first. -/
structure DependencyGraph.IsCycle (g : DependencyGraph) (names : List String) :
    Prop where
  nonempty : names ≠ []
  steps : ∀ i (h : i + 1 < names.length), names[i + 1] ∈ g.dependenciesOf names[i]
  closes : names.head nonempty ∈ g.dependenciesOf (names.getLast nonempty)

section

variable {g : DependencyGraph} {deps : ∀ s, IterOrder (g.dependenciesOf s)}

theorem edge_iff {a b : String} :
    Edge (fun s => (deps s).list) a b ↔ g.DependsOn a b := (deps a).mem

theorem isCycle_of_search {c : List String}
    (h : DepthFirst.IsCycle (fun s => (deps s).list) c) : g.IsCycle c := by
  obtain ⟨first, last, hfirst, hlast, hedge⟩ := h.closes
  have hne : c ≠ [] := by
    rintro rfl
    cases hfirst
  refine ⟨hne, fun i hi => ?_, ?_⟩
  · exact edge_iff.1 (List.isChain_iff_getElem.1 h.steps i hi)
  · rw [List.head?_eq_some_head hne] at hfirst
    rw [List.getLast?_eq_some_getLast hne] at hlast
    rw [Option.some.inj hfirst, Option.some.inj hlast]
    exact edge_iff.1 hedge

theorem acyclic_iff : (∀ s, ¬ TransGen (Edge fun s => (deps s).list) s s) ↔ g.Acyclic := by
  have hrel : (Edge fun s => (deps s).list) = g.DependsOn := by
    funext a b
    exact propext edge_iff
  rw [hrel]
  exact Iff.rfl

end

/-- Whatever the iteration orders, the search returns once its recursion
may be as deep as there are services; validation fails exactly if some
chain of dependencies returns to its start, and every list reported is
a cycle of the graph. -/
theorem detectCycles_correct (g : DependencyGraph) (services : IterOrder g.allServices)
    (deps : ∀ s, IterOrder (g.dependenciesOf s)) : ∃ cycles, (∀ c ∈ cycles, g.IsCycle c)
      ∧ ∀ fuel, g.allServices.card ≤ fuel → detectCycles g services deps fuel = some cycles
          ∧ (∃ result, validateNoCycles g services deps fuel = some result)
          ∧ ((∃ e, validateNoCycles g services deps fuel = some (.error e))
            ↔ ∃ s, TransGen g.DependsOn s s) := by
  obtain ⟨t, hreturns, hcycles, hnone⟩ := searchAll_start
    (fun s => (deps s).list) services.list g.allServices
    (fun s d hd => g.closed s d ((deps s).mem.1 hd)) fun x => services.mem
  refine ⟨t.cycles, fun c hc => isCycle_of_search (hcycles c hc), fun fuel hfuel => ?_⟩
  have hdetect : detectCycles g services deps fuel = some t.cycles := by
    unfold detectCycles
    rw [hreturns fuel hfuel]
    rfl
  have hvalidate : validateNoCycles g services deps fuel
      = some (if t.cycles = [] then .ok () else .error { cycles := t.cycles }) := by
    unfold validateNoCycles
    rw [hdetect]
    rfl
  refine ⟨hdetect, ⟨_, hvalidate⟩, ?_⟩
  have herror : (∃ e, validateNoCycles g services deps fuel = some (.error e))
      ↔ t.cycles ≠ [] := by
    rw [hvalidate]
    split
    · next h => simp [h]
    · next h => simp [h]
  rw [herror, ne_eq, hnone, acyclic_iff]
  unfold DependencyGraph.Acyclic
  rw [not_forall]
  exact exists_congr fun s => not_not

end Dynamod.Svmgr
