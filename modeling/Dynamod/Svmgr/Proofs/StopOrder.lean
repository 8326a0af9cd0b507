/-
The stop order is a permutation of the services, and on an acyclic
graph a dependent stops strictly before what it depends on.

`KahnInv` is the in-degree invariant: a service's counter is the
number of its unvisited dependencies, the queue holds services whose
dependencies are all visited and every such service is queued or
visited, and the forward order lists each service after all of its
dependencies. It holds initially and across one iteration
(`visit_inv`), on any graph; with the loop drained (`loop_drained`) an
acyclic graph has nothing left to append.
-/
import Dynamod.Lib.Countdown
import Dynamod.Lib.Runs
import Dynamod.Svmgr.StopOrder

namespace Dynamod.Svmgr

open Lib

namespace KahnState

variable {g : DependencyGraph}

-- ==== the invariant

structure KahnInv (g : DependencyGraph) (st : KahnState) : Prop where
  degree_eq : ∀ x ∈ g.allServices,
    st.degree.lookup x = some (g.dependenciesOf x \ st.visited).card
  queue_ok : ∀ x ∈ st.queue,
    x ∈ g.allServices ∧ g.dependenciesOf x ⊆ st.visited
  queue_complete : ∀ x ∈ g.allServices, g.dependenciesOf x ⊆ st.visited →
    x ∈ st.visited ∨ x ∈ st.queue
  visited_deps : ∀ x ∈ st.visited, g.dependenciesOf x ⊆ st.visited
  order_nodup : st.order.Nodup
  mem_order : ∀ x, x ∈ st.order ↔ x ∈ st.visited
  visited_sub : st.visited ⊆ g.allServices
  sorted : ∀ (l₁ l₂ : List String) (s : String), st.order = l₁ ++ s :: l₂ →
    ∀ d ∈ g.dependenciesOf s, d ∈ l₁

theorem init_inv (services degrees : IterOrder g.allServices) :
    KahnInv g (init g services degrees) := by
  have hdeg : ∀ x ∈ g.allServices, (init g services degrees).degree.lookup x
      = some (g.dependenciesOf x).card := by
    intro x hx
    show Finmap.lookup x (services.list.foldl _ ∅) = _
    rw [HashMap.lookup_foldl_insert, if_pos (services.mem.2 hx)]
  have hqueue : ∀ x, x ∈ (init g services degrees).queue
      ↔ x ∈ g.allServices ∧ g.dependenciesOf x ⊆ ∅ := by
    intro x
    show x ∈ degrees.list.filter _ ↔ _
    rw [List.mem_filter, degrees.mem, decide_eq_true_eq]
    refine and_congr_right fun hx => ?_
    show (init g services degrees).degree.lookup x = some 0 ↔ _
    rw [hdeg x hx, Option.some.injEq, Finset.card_eq_zero, Finset.subset_empty]
  refine ⟨?_, ?_, ?_, ?_, ?_, ?_, ?_, ?_⟩
  · intro x hx
    rw [hdeg x hx]
    exact congrArg (fun s => some (Finset.card s)) Finset.sdiff_empty.symm
  · intro x hx
    exact (hqueue x).1 hx
  · intro x hx hd
    exact Or.inr ((hqueue x).2 ⟨hx, hd⟩)
  · intro x hx
    exact absurd hx (Finset.notMem_empty x)
  · exact List.nodup_nil
  · intro x
    simp [init]
  · exact Finset.empty_subset _
  · intro l₁ l₂ s h
    simp [init] at h

-- ==== one iteration

/-- The state in which `svc` has been visited and none of its
dependents relaxed. -/
def enter (st : KahnState) (svc : String) (queue : List String) : KahnState :=
  { st with
    queue := queue
    visited := insert svc st.visited
    order := st.order ++ [svc] }

/-- Relaxing all dependents is one countdown pass. -/
theorem foldl_relax (st : KahnState) (xs : List String) : xs.foldl relax st
    = { st with
        degree := (Countdown.decAll (fun _ => true)
          (fun x => x ∉ st.visited) xs (st.degree, st.queue)).1
        queue := (Countdown.decAll (fun _ => true)
          (fun x => x ∉ st.visited) xs (st.degree, st.queue)).2 } := by
  refine Countdown.foldl_put (fun c => { st with degree := c.1, queue := c.2 })
    relax _ _ (fun c x => ?_) xs (st.degree, st.queue)
  unfold relax Countdown.dec
  rw [if_pos rfl]
  cases c.1.lookup x with
  | none => rfl
  | some n => simp

section Visit

variable {st : KahnState} {svc : String} {queue : List String}

/-- What a visit queues: the dependents whose last unvisited
dependency it was. -/
theorem KahnInv.fires_iff (hi : KahnInv g st) (hv : svc ∉ st.visited)
    {x : String} (hx : svc ∈ g.dependenciesOf x) :
    Countdown.fires (fun _ => true) (fun x => x ∉ insert svc st.visited) st.degree x = true
      ↔ x ∉ insert svc st.visited
        ∧ g.dependenciesOf x ⊆ insert svc st.visited := by
  rw [← Finset.sdiff_eq_empty_iff_subset, ← Finset.card_eq_zero, Countdown.card_sdiff_insert hx hv]
  simp [Countdown.fires, hi.degree_eq x (DependencyGraph.dependent_mem hx)]

/-- The counters after a visit. -/
theorem KahnInv.degree_visit (hi : KahnInv g st) (hv : svc ∉ st.visited)
    (order : DependentsOrder g) {x : String} (hx : x ∈ g.allServices) :
    ((order svc).list.foldl relax (st.enter svc queue)).degree.lookup x
      = some (g.dependenciesOf x \ insert svc st.visited).card := by
  have hmem : x ∈ (order svc).list ↔ svc ∈ g.dependenciesOf x :=
    (order svc).mem.trans DependencyGraph.mem_dependentsOf
  rw [foldl_relax]
  dsimp only [enter]
  rw [Countdown.decAll_lookup _ _ (order svc).nodup, hi.degree_eq x hx]
  by_cases hd : svc ∈ g.dependenciesOf x
  · rw [if_pos ⟨hmem.2 hd, rfl⟩, Countdown.card_sdiff_insert hd hv]
    rfl
  · rw [if_neg fun h => hd (hmem.1 h.1), Countdown.sdiff_insert_of_notMem hd]

/-- The queue after a visit. -/
theorem KahnInv.mem_queue_visit (hi : KahnInv g st) (hv : svc ∉ st.visited)
    (order : DependentsOrder g) (x : String) :
    x ∈ ((order svc).list.foldl relax (st.enter svc queue)).queue
      ↔ x ∈ queue ∨ svc ∈ g.dependenciesOf x ∧ x ∉ insert svc st.visited
        ∧ g.dependenciesOf x ⊆ insert svc st.visited := by
  rw [foldl_relax]
  dsimp only [enter]
  rw [Countdown.decAll_queue _ _ (order svc).nodup, List.mem_append, List.mem_filter,
    (order svc).mem, DependencyGraph.mem_dependentsOf]
  exact or_congr_right (and_congr_right fun hd => hi.fires_iff hv hd)

/-- Visiting the first service of the queue keeps the invariant. -/
theorem visit_inv (hi : KahnInv g st) (hq : st.queue = svc :: queue)
    (hv : svc ∉ st.visited) (order : DependentsOrder g) :
    KahnInv g ((order svc).list.foldl relax (st.enter svc queue)) := by
  obtain ⟨hsvc, hdeps⟩ := hi.queue_ok svc (hq ▸ List.mem_cons_self)
  have hvisited : ((order svc).list.foldl relax (st.enter svc queue)).visited
      = insert svc st.visited := by rw [foldl_relax]; rfl
  have horder : ((order svc).list.foldl relax (st.enter svc queue)).order
      = st.order ++ [svc] := by rw [foldl_relax]; rfl
  refine ⟨?_, ?_, ?_, ?_, ?_, ?_, ?_, ?_⟩
  · intro x hx
    rw [hvisited]
    exact hi.degree_visit hv order hx
  · intro x hx
    rw [hvisited]
    rcases (hi.mem_queue_visit hv order x).1 hx with h | ⟨hd, -, hsub⟩
    · obtain ⟨h₁, h₂⟩ := hi.queue_ok x (hq ▸ List.mem_cons_of_mem _ h)
      exact ⟨h₁, h₂.trans (Finset.subset_insert _ _)⟩
    · exact ⟨DependencyGraph.dependent_mem hd, hsub⟩
  · intro x hx hsub
    rw [hvisited] at hsub ⊢
    by_cases hxv : x ∈ insert svc st.visited
    · exact Or.inl hxv
    refine Or.inr ((hi.mem_queue_visit hv order x).2 ?_)
    by_cases hd : svc ∈ g.dependenciesOf x
    · exact Or.inr ⟨hd, hxv, hsub⟩
    -- its dependencies were visited before, so it was queued before
    rcases hi.queue_complete x hx ((Finset.subset_insert_iff_of_notMem hd).1 hsub) with h | h
    · exact absurd (Finset.mem_insert_of_mem h) hxv
    · rw [hq] at h
      rcases List.mem_cons.1 h with rfl | h
      · exact absurd (Finset.mem_insert_self _ _) hxv
      · exact Or.inl h
  · intro x hx
    rw [hvisited] at hx ⊢
    rcases Finset.mem_insert.1 hx with rfl | h
    · exact hdeps.trans (Finset.subset_insert _ _)
    · exact (hi.visited_deps x h).trans (Finset.subset_insert _ _)
  · rw [horder, ← List.concat_eq_append]
    exact hi.order_nodup.concat fun h => hv ((hi.mem_order svc).1 h)
  · intro x
    rw [hvisited, horder, List.mem_append, List.mem_singleton, Finset.mem_insert, hi.mem_order,
      or_comm]
  · rw [hvisited]
    exact Finset.insert_subset hsvc hi.visited_sub
  · intro l₁ l₂ s h d hd
    rw [horder] at h
    rcases snoc_split h with ⟨rfl, rfl, -⟩ | ⟨l₂', h', -⟩
    · exact (hi.mem_order d).2 (hdeps hd)
    · exact hi.sorted l₁ l₂' s h' d hd

/-- Skipping a queue entry that was visited keeps the invariant. -/
theorem skip_inv (hi : KahnInv g st) (hq : st.queue = svc :: queue)
    (hv : svc ∈ st.visited) : KahnInv g { st with queue := queue } := by
  refine ⟨hi.degree_eq, ?_, ?_, hi.visited_deps, hi.order_nodup, hi.mem_order,
    hi.visited_sub, hi.sorted⟩
  · intro x hx
    exact hi.queue_ok x (hq ▸ List.mem_cons_of_mem _ hx)
  · intro x hx hd
    rcases hi.queue_complete x hx hd with h | h
    · exact Or.inl h
    · rw [hq] at h
      rcases List.mem_cons.1 h with rfl | h
      · exact Or.inl hv
      · exact Or.inr h

end Visit

-- ==== the loop

/-- The loop keeps the invariant and, on enough fuel, drains the
queue. -/
theorem loop_drained (order : DependentsOrder g) (n : Nat) :
    ∀ st : KahnState, KahnInv g st → fuel g order st ≤ n →
      KahnInv g (loop g order n st) ∧ (loop g order n st).queue = [] := by
  induction n with
  | zero =>
    intro st hi hn
    have hlen : st.queue.length ≤ fuel g order st := Nat.le_add_right _ _
    have hnil : st.queue = [] := List.eq_nil_of_length_eq_zero (by omega)
    exact ⟨hi, hnil⟩
  | succ n ih =>
    intro st hi hn
    rw [loop]
    split
    · next hq => exact ⟨hi, hq⟩
    · next svc queue hq =>
      unfold fuel at hn
      rw [hq] at hn
      split
      · next hv =>
        have hcr := Worklist.credit_skip (fun s => (order s).list)
          g.allServices st.visited svc queue
        exact ih _ (skip_inv hi hq hv) (by unfold fuel; dsimp only; omega)
      · next hv =>
        refine ih _ (visit_inv hi hq hv order) ?_
        have hsvc := (hi.queue_ok svc (hq ▸ List.mem_cons_self)).1
        have hcr := Worklist.credit_mark (fun s => (order s).list) queue
          ((order svc).list.filter (Countdown.fires (fun _ => true)
            (fun x => x ∉ insert svc st.visited) st.degree))
          hsvc hv (List.length_filter_le _ _)
        rw [foldl_relax]
        unfold fuel
        dsimp only [enter]
        rw [Countdown.decAll_queue _ _ (order svc).nodup]
        dsimp only
        omega

theorem run_inv (services degrees : IterOrder g.allServices) (order : DependentsOrder g) :
    KahnInv g (run g services degrees order)
      ∧ (run g services degrees order).queue = [] :=
  loop_drained order _ _ (init_inv services degrees) (Nat.le_refl _)

/-- On an acyclic graph the drained loop has visited everything. -/
theorem KahnInv.visited_all {st : KahnState} (hi : KahnInv g st)
    (hq : st.queue = []) (hac : g.Acyclic) :
    ∀ s ∈ g.allServices, s ∈ st.visited := by
  intro s
  induction s using hac.induction with
  | step s ih =>
    intro hs
    have hsub : g.dependenciesOf s ⊆ st.visited := fun d hd =>
      ih d hd (DependencyGraph.dependency_mem hd)
    rcases hi.queue_complete s hs hsub with h | h
    · exact h
    · rw [hq] at h
      cases h

end KahnState

-- ==== the stop order

/-- In a duplicate-free list, what stands behind an element comes
after it. -/
private theorem idxOf_lt_of_split {l : List String} (l₁ l₂ : List String)
    {s d : String} (hl : l = l₁ ++ s :: l₂) (hn : l.Nodup) (hd : d ∈ l₂) :
    l.idxOf s < l.idxOf d := by
  subst hl
  obtain ⟨-, hn₂, hdisj⟩ := List.nodup_append.1 hn
  have hs : s ∉ l₁ := fun h => hdisj s h s List.mem_cons_self rfl
  have hd₁ : d ∉ l₁ := fun h => hdisj d h d (List.mem_cons_of_mem _ hd) rfl
  have hne : d ≠ s := fun h => (List.nodup_cons.1 hn₂).1 (h ▸ hd)
  rw [List.idxOf_append_of_notMem hs, List.idxOf_append_of_notMem hd₁,
    List.idxOf_cons_self, List.idxOf_cons_ne _ hne.symm]
  omega

/-- The stop order lists the services of the graph. -/
theorem mem_computeReverseTopoOrder
    (services degrees : IterOrder g.allServices) (order : DependentsOrder g) (s : String) :
    s ∈ computeReverseTopoOrder g services degrees order
      ↔ s ∈ g.allServices := by
  obtain ⟨hi, -⟩ := KahnState.run_inv services degrees order
  unfold computeReverseTopoOrder
  rw [List.mem_reverse, List.mem_append, List.mem_filter, services.mem,
    hi.mem_order, decide_eq_true_eq]
  have := @hi.visited_sub s
  tauto

theorem nodup_computeReverseTopoOrder
    (services degrees : IterOrder g.allServices) (order : DependentsOrder g) :
    (computeReverseTopoOrder g services degrees order).Nodup := by
  obtain ⟨hi, -⟩ := KahnState.run_inv services degrees order
  refine List.nodup_reverse.2 (List.nodup_append.2 ⟨hi.order_nodup, services.nodup.filter _, ?_⟩)
  intro a ha b hb hab
  subst hab
  have hv := of_decide_eq_true (List.mem_filter.1 hb).2
  exact hv ((hi.mem_order a).1 ha)

/-- The stop order computation ends with its queue drained and lists
every service exactly once, on every graph and for every iteration
order; on an acyclic graph it lists a service strictly before each of
its dependencies. -/
theorem stop_order_correct (g : DependencyGraph)
    (services degrees : IterOrder g.allServices) (order : DependentsOrder g) :
    (KahnState.run g services degrees order).queue = []
      ∧ (computeReverseTopoOrder g services degrees order).Nodup
      ∧ (∀ s, s ∈ computeReverseTopoOrder g services degrees order
          ↔ s ∈ g.allServices)
      ∧ (g.Acyclic → ∀ s ∈ g.allServices, ∀ d ∈ g.dependenciesOf s,
          (computeReverseTopoOrder g services degrees order).idxOf s
            < (computeReverseTopoOrder g services degrees order).idxOf d) := by
  obtain ⟨hi, hq⟩ := KahnState.run_inv services degrees order
  have hnodup := nodup_computeReverseTopoOrder services degrees order
  refine ⟨hq, hnodup, mem_computeReverseTopoOrder services degrees order, ?_⟩
  · intro hac s hs d hd
    have hall := hi.visited_all hq hac
    -- nothing is left to append, so the forward order is the Kahn order
    have hrest : services.list.filter (fun svc =>
        svc ∉ (KahnState.run g services degrees order).visited) = [] := by
      rw [List.filter_eq_nil_iff]
      intro x hx
      simpa using hall x (services.mem.1 hx)
    have heq : computeReverseTopoOrder g services degrees order
        = (KahnState.run g services degrees order).order.reverse := by
      unfold computeReverseTopoOrder
      dsimp only
      rw [hrest, List.append_nil]
    obtain ⟨l₁, l₂, hsplit⟩ :=
      List.append_of_mem ((hi.mem_order s).2 (hall s hs))
    refine idxOf_lt_of_split l₂.reverse l₁.reverse ?_ hnodup ?_
    · rw [heq, hsplit]
      simp
    · rw [List.mem_reverse]
      exact hi.sorted l₁ l₂ s hsplit d hd

/-- Three services in a row, as in the source's own test. -/
def linearGraph : DependencyGraph :=
  .build
    [{ service := { name := "a", exec := ["/bin/true"] } },
     { service := { name := "b", exec := ["/bin/true"] },
       dependencies := { requires := ["a"] } },
     { service := { name := "c", exec := ["/bin/true"] },
       dependencies := { requires := ["b"] } }]

theorem linear_stop_order : linearGraph.Acyclic
    ∧ ∀ s ∈ linearGraph.allServices, ∀ d ∈ linearGraph.dependenciesOf s,
        (computeReverseTopoOrder linearGraph (.sorted _) (.sorted _) (sortedOrder _)).idxOf s
          < (computeReverseTopoOrder linearGraph (.sorted _) (.sorted _)
              (sortedOrder _)).idxOf d := by
  have hac : linearGraph.Acyclic :=
    DependencyGraph.acyclic_of_rank
      (fun s => if s = "a" then 0 else if s = "b" then 1 else 2) (by decide)
  exact ⟨hac, (stop_order_correct linearGraph (.sorted _) (.sorted _) (sortedOrder _)).2.2.2 hac⟩

example : computeReverseTopoOrder linearGraph (.sorted _) (.sorted _)
    (sortedOrder _) = ["c", "b", "a"] := by decide

end Dynamod.Svmgr
