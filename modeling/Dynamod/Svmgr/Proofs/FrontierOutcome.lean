/-
What the end of a startup depends on: the graph and the fate of each
service, not the order in which things happened.

# Blocking

`blocked_iff_requires_chain` reads the blocked set off the history: a
service is blocked once a `requires` chain leads from it to a service
marked failed. For a graph built from definitions the chain runs
through their `requires` lists alone (`build_requires`).

# Confluence

`Starts g fate` is the set a startup ought to start when every service
has its fate fixed in advance, defined without a queue, a counter or an
order. Every complete run hands out exactly that set
(`returned_iff_starts`), so any two runs agree.

# The check for the end

`is_complete` adds the blocked services to the completed ones, which
hold them already. Every blocked service makes up for one that is still
outstanding (`isComplete_iff`), so the check answers too early as soon
as there are as many blocked services as outstanding ones.
-/
import Dynamod.Svmgr.Proofs.Edges
import Dynamod.Svmgr.Proofs.FrontierRuns

namespace Dynamod.Svmgr

open Lib Relation

-- ==== the requires edges of definitions

/-- Some definition of `s` lists `d`, itself a defined service, under
`requires`. -/
def RequiresIn (defs : List ServiceDef) (s d : String) : Prop :=
  (∃ sd ∈ defs, sd.service.name = s ∧ d ∈ sd.dependencies.requires)
    ∧ ∃ sd ∈ defs, sd.service.name = d

-- ==== blocking

section Blocking

variable {g : DependencyGraph} {tr : FrontierTrace} {f : StartupFrontier}

/-- After every run the blocked services are those with a non-empty
chain of `requires` edges to a service marked failed; in a graph built
from definitions, edges of their `requires` lists. -/
theorem blocked_iff_requires_chain (h : FrontierRun g tr f) :
    (∀ s, s ∈ f.blocked ↔ ∃ d, .failed d ∈ tr ∧ TransGen g.Requires s d)
      ∧ ∀ defs, g = .build defs →
          ∀ s, s ∈ f.blocked
            ↔ ∃ d, .failed d ∈ tr ∧ TransGen (RequiresIn defs) s d := by
  have hblocked : ∀ s, s ∈ f.blocked
      ↔ ∃ d, .failed d ∈ tr ∧ TransGen g.Requires s d := by
    intro s
    rw [(frontierRun_inv h).blocked_iff s]
    unfold RequiresFailed
    simp only [FrontierTrace.mem_failed]
  refine ⟨hblocked, ?_⟩
  intro defs hg s
  have hedge : g.Requires = RequiresIn defs := by
    subst hg
    funext a b
    exact propext (((Edges.ofDefs_holds defs).require a b).trans and_comm)
  rw [← hedge]
  exact hblocked s

end Blocking

theorem stranded_blocked_iff :
    FrontierRun strandedGraph [.took ["a"], .failed "a"] strandedFrontier
      ∧ ("b" ∈ strandedFrontier.blocked
          ↔ ∃ d, .failed d ∈ [FrontierEvent.took ["a"], .failed "a"]
            ∧ TransGen (RequiresIn strandedDefs) "b" d) :=
  ⟨stranded_run, (blocked_iff_requires_chain stranded_run).2 strandedDefs rfl "b"⟩

-- ==== confluence

/-- What becomes of a service once it is started. -/
inductive Fate
  | ready
  | failed
  deriving DecidableEq

/-- Every mark of the run gives a service the fate assigned to it. -/
def Follows (fate : String → Fate) (tr : FrontierTrace) : Prop :=
  (∀ s ∈ tr.readied, fate s = .ready) ∧ ∀ s ∈ tr.failed, fate s = .failed

/-- What a startup ought to start under a fixed assignment of fates: a
service all of whose dependencies start, and whose required ones come
up. -/
inductive Starts (g : DependencyGraph) (fate : String → Fate) : String → Prop
  | intro {s : String} :
      s ∈ g.allServices →
      (∀ d ∈ g.dependenciesOf s, Starts g fate d) →
      (∀ d ∈ g.requiresOf s, fate d = .ready) →
      Starts g fate s

section Confluence

variable {g : DependencyGraph} {tr : FrontierTrace} {f : StartupFrontier}
  {fate : String → Fate} (hi : FrontierInv g tr f) (hac : g.Acyclic) (hq : Quiescent tr f)
  (hf : Follows fate tr)

include hi hf

/-- A service that requires only services that were handed out and are
to come up is not blocked. -/
theorem FrontierInv.not_blocked_of_requires {s : String}
    (hret : ∀ d ∈ g.requiresOf s, d ∈ tr.returned)
    (hup : ∀ d ∈ g.requiresOf s, fate d = .ready) : s ∉ f.blocked := by
  intro hb
  obtain ⟨d, hd, hc⟩ := (hi.blocked_iff s).1 hb
  -- the chain's first service failed itself or is blocked
  obtain ⟨e, he, hc⟩ := TransGen.head'_iff.1 hc
  rcases reflTransGen_iff_eq_or_transGen.1 hc with rfl | hc
  · have hup := hup _ he
    rw [hf.2 _ hd] at hup
    cases hup
  · exact hi.returned_not_blocked (hret e he) ((hi.blocked_iff e).2 ⟨d, hd, hc⟩)

include hac

/-- A service is only handed out if it ought to start. -/
theorem FrontierInv.starts_of_returned (s : String) : s ∈ tr.returned → Starts g fate s := by
  induction s using hac.induction with
  | step s ih =>
    intro hs
    obtain ⟨hall, hmet⟩ := hi.returned_met s hs
    refine .intro hall (fun d hd => ih d hd ?_) fun d hd => ?_
    · rcases settled_of_unmetDeps_eq_empty hmet hd with h | ⟨h, -⟩
      · exact hi.marked_returned d (Or.inl h)
      · exact hi.marked_returned d (Or.inr h)
    · rcases settled_of_unmetDeps_eq_empty hmet
          (DependencyGraph.requiresOf_subset hd) with h | ⟨-, hn⟩
      · exact hf.1 d h
      · exact absurd hd hn

include hq

/-- A complete run hands out exactly what ought to start. -/
theorem FrontierInv.returned_iff_starts (s : String) : s ∈ tr.returned ↔ Starts g fate s := by
  refine ⟨hi.starts_of_returned hac hf s, fun hs => ?_⟩
  induction hs with
  | @intro s hall _ hup ih =>
    have hb : s ∉ f.blocked :=
      hi.not_blocked_of_requires hf
        (fun d hd => ih d (DependencyGraph.requiresOf_subset hd)) hup
    exact hi.marked_returned s
      (hi.marked_of_deps_marked hq hall hb fun d hd => hq.2 d (ih d hd))

/-- At the end of a complete run a service is ready if it ought to start
and to come up, and failed if it ought to start and to fail. -/
theorem FrontierInv.marks_iff_starts (s : String) :
    (s ∈ tr.readied ↔ Starts g fate s ∧ fate s = .ready)
      ∧ (s ∈ tr.failed ↔ Starts g fate s ∧ fate s = .failed) := by
  rw [← hi.returned_iff_starts hac hq hf]
  refine ⟨⟨fun hs => ⟨hi.marked_returned s (Or.inl hs), hf.1 s hs⟩, ?_⟩,
    fun hs => ⟨hi.marked_returned s (Or.inr hs), hf.2 s hs⟩, ?_⟩
  · rintro ⟨hs, hr⟩
    exact (hq.2 s hs).resolve_right fun h => absurd ((hf.2 s h).symm.trans hr) (by decide)
  · rintro ⟨hs, hr⟩
    exact (hq.2 s hs).resolve_left fun h => absurd ((hf.1 s h).symm.trans hr) (by decide)

end Confluence

/-- Any two complete runs over an acyclic graph that give each service
its assigned fate start the same services and end with the same ready
and the same blocked set. -/
theorem complete_runs_agree {g : DependencyGraph} (hac : g.Acyclic)
    {fate : String → Fate} {tr₁ tr₂ : FrontierTrace}
    {f₁ f₂ : StartupFrontier} (h₁ : FrontierRun g tr₁ f₁) (hq₁ : Quiescent tr₁ f₁)
    (hf₁ : Follows fate tr₁) (h₂ : FrontierRun g tr₂ f₂) (hq₂ : Quiescent tr₂ f₂)
    (hf₂ : Follows fate tr₂) : tr₁.returned.toFinset = tr₂.returned.toFinset
      ∧ f₁.ready = f₂.ready ∧ f₁.blocked = f₂.blocked := by
  have hi₁ := frontierRun_inv h₁
  have hi₂ := frontierRun_inv h₂
  refine ⟨?_, ?_, ?_⟩
  · ext s
    rw [List.mem_toFinset, List.mem_toFinset,
      hi₁.returned_iff_starts hac hq₁ hf₁, hi₂.returned_iff_starts hac hq₂ hf₂]
  · ext s
    rw [hi₁.ready_iff, hi₂.ready_iff,
      (hi₁.marks_iff_starts hac hq₁ hf₁ s).1, (hi₂.marks_iff_starts hac hq₂ hf₂ s).1]
  · ext s
    rw [hi₁.blocked_iff, hi₂.blocked_iff]
    unfold RequiresFailed
    simp only [hi₁.marks_iff_starts hac hq₁ hf₁, hi₂.marks_iff_starts hac hq₂ hf₂]

-- ==== two orders of one startup

/-- `c` requires `a` and is ordered after `b`. -/
def forkedDefs : List ServiceDef :=
  [{ service := { name := "a", exec := ["/bin/a"] } },
   { service := { name := "b", exec := ["/bin/b"] } },
   { service := { name := "c", exec := ["/bin/c"] },
     dependencies := { requires := ["a"], after := ["b"] } }]

def forkedGraph : DependencyGraph := .build forkedDefs

/-- `a` fails, everything else comes up. -/
def forkedFate (s : String) : Fate := if s = "a" then .failed else .ready

/-- The frontier once `a` and `b` are handed out. -/
def forkedTaken : StartupFrontier :=
  (StartupFrontier.new forkedGraph (.sorted _)).takeReady.2

/-- `a` fails first, then `b` comes up. -/
def forkedFailFirst : StartupFrontier :=
  (forkedTaken.markFailed "a" forkedGraph (sortedOrder _)).markReady "b"
    forkedGraph (sortedOrder _)

/-- `b` comes up first, then `a` fails. -/
def forkedReadyFirst : StartupFrontier :=
  (forkedTaken.markReady "b" forkedGraph (sortedOrder _)).markFailed "a"
    forkedGraph (sortedOrder _)

private theorem forked_taken : FrontierRun forkedGraph [.took ["a", "b"]] forkedTaken :=
  (FrontierRun.new (.sorted _)).took (by decide)

theorem forked_failFirst_run : FrontierRun forkedGraph [.took ["a", "b"], .failed "a", .ready "b"]
    forkedFailFirst :=
  .markReady "b" (sortedOrder _)
    (.markFailed "a" (sortedOrder _) forked_taken (by decide) (by decide))
    (by decide) (by decide)

theorem forked_readyFirst_run : FrontierRun forkedGraph
    [.took ["a", "b"], .ready "b", .failed "a"]
    forkedReadyFirst :=
  .markFailed "a" (sortedOrder _)
    (.markReady "b" (sortedOrder _) forked_taken (by decide) (by decide))
    (by decide) (by decide)

theorem forked_acyclic : forkedGraph.Acyclic :=
  DependencyGraph.acyclic_of_rank (fun s => if s = "c" then 1 else 0)
    (by decide)

theorem forked_runs_agree : FrontierRun forkedGraph [.took ["a", "b"], .failed "a", .ready "b"]
      forkedFailFirst
    ∧ FrontierRun forkedGraph [.took ["a", "b"], .ready "b", .failed "a"] forkedReadyFirst
    ∧ forkedFailFirst.ready = forkedReadyFirst.ready
    ∧ forkedFailFirst.blocked = forkedReadyFirst.blocked := by
  refine ⟨forked_failFirst_run, forked_readyFirst_run, ?_⟩
  have hfail : Follows forkedFate
      [.took ["a", "b"], .failed "a", .ready "b"] := ⟨by decide, by decide⟩
  have hready : Follows forkedFate
      [.took ["a", "b"], .ready "b", .failed "a"] := ⟨by decide, by decide⟩
  exact (complete_runs_agree forked_acyclic forked_failFirst_run ⟨by decide, by decide⟩ hfail
    forked_readyFirst_run ⟨by decide, by decide⟩ hready).2

-- ==== the check for the end

open Classical in
/-- The services from which some `requires` chain leads to a service
marked failed. -/
noncomputable def requiringFailed (g : DependencyGraph) (tr : FrontierTrace) : Finset String :=
  g.allServices.filter fun s => RequiresFailed g tr s

open Classical in
/-- The services that are not marked and from which no `requires` chain
leads to a service marked failed. -/
noncomputable def outstanding (g : DependencyGraph) (tr : FrontierTrace) : Finset String :=
  g.allServices.filter fun s => ¬ tr.Marked s ∧ ¬ RequiresFailed g tr s

section Completeness

variable {g : DependencyGraph} {tr : FrontierTrace} {f : StartupFrontier}

section

variable (hi : FrontierInv g tr f)

include hi

/-- A blocked service is one of the graph. -/
theorem FrontierInv.blocked_subset : f.blocked ⊆ g.allServices := by
  intro s hs
  obtain ⟨d, -, hchain⟩ := (hi.blocked_iff s).1 hs
  obtain ⟨e, he, -⟩ := TransGen.head'_iff.1 hchain
  exact DependencyGraph.dependent_mem (DependencyGraph.requiresOf_subset he)

/-- A completed service is one of the graph. -/
theorem FrontierInv.completed_subset : f.completed ⊆ g.allServices := by
  intro s hs
  rcases (hi.completed_iff s).1 hs with hm | hb
  · exact (hi.returned_met s (hi.marked_returned s hm)).1
  · exact hi.blocked_subset hb

/-- What the frontier blocks is read off the graph and the marks. -/
theorem FrontierInv.requiringFailed_eq : requiringFailed g tr = f.blocked := by
  ext s
  simp only [requiringFailed, Finset.mem_filter, ← hi.blocked_iff]
  exact and_iff_right_of_imp fun hs => hi.blocked_subset hs

/-- What is outstanding are the services that are not completed. -/
theorem FrontierInv.outstanding_eq : outstanding g tr = g.allServices \ f.completed := by
  ext s
  simp only [outstanding, Finset.mem_filter, Finset.mem_sdiff, hi.completed_iff, not_or,
    ← hi.blocked_iff]

/-- Nothing is outstanding once every service is marked or blocked. -/
theorem FrontierInv.outstanding_eq_empty_iff : outstanding g tr = ∅ ↔ Accounted g tr f := by
  simp only [outstanding, Finset.filter_eq_empty_iff]
  refine forall₂_congr fun s _ => ?_
  rw [← hi.blocked_iff, not_and_or, not_not, not_not, FrontierTrace.Marked, or_assoc]

end

/-- The check compares what is outstanding with what is blocked. -/
theorem isComplete_iff (h : FrontierRun g tr f) : f.isComplete = true
    ↔ (outstanding g tr).card ≤ (requiringFailed g tr).card := by
  have hi := frontierRun_inv h
  have hle := Finset.card_le_card hi.completed_subset
  rw [hi.outstanding_eq, hi.requiringFailed_eq, Finset.card_sdiff_of_subset hi.completed_subset,
    StartupFrontier.isComplete, decide_eq_true_eq, frontierRun_keys h]
  omega

/-- After every run `is_complete` tells whether all services are marked
or blocked exactly if nothing is outstanding, or more services are
outstanding than require a failed one. The condition names the graph
and the marks alone. -/
theorem isComplete_exact_iff (h : FrontierRun g tr f) : (f.isComplete = true ↔ Accounted g tr f)
    ↔ outstanding g tr = ∅
      ∨ (requiringFailed g tr).card < (outstanding g tr).card := by
  rw [isComplete_iff h, ← (frontierRun_inv h).outstanding_eq_empty_iff, ← Finset.card_eq_zero]
  omega

end Completeness

theorem forkedFailFirst_complete :
    FrontierRun forkedGraph [.took ["a", "b"], .failed "a", .ready "b"] forkedFailFirst
      ∧ forkedFailFirst.isComplete = true
      ∧ Accounted forkedGraph [.took ["a", "b"], .failed "a", .ready "b"]
          forkedFailFirst := by
  have hacc : Accounted forkedGraph [.took ["a", "b"], .failed "a", .ready "b"]
      forkedFailFirst := by
    unfold Accounted
    decide
  have hnone := (frontierRun_inv forked_failFirst_run).outstanding_eq_empty_iff.2 hacc
  exact ⟨forked_failFirst_run,
    ((isComplete_exact_iff forked_failFirst_run).2 (Or.inl hnone)).2 hacc, hacc⟩

/-- `a` has failed and `c` is blocked, and the check does not wait for
`b`, which is handed out and not marked. -/
theorem forked_complete_early : forkedGraph.Acyclic
    ∧ FrontierRun forkedGraph [.took ["a", "b"], .failed "a"]
        (forkedTaken.markFailed "a" forkedGraph (sortedOrder _))
    ∧ (forkedTaken.markFailed "a" forkedGraph (sortedOrder _)).isComplete = true
    ∧ "b" ∈ (forkedTaken.markFailed "a" forkedGraph (sortedOrder _)).pending
    ∧ ¬ Accounted forkedGraph [.took ["a", "b"], .failed "a"]
        (forkedTaken.markFailed "a" forkedGraph (sortedOrder _)) := by
  refine ⟨forked_acyclic, .markFailed "a" (sortedOrder _) forked_taken (by decide) (by decide),
    by decide, by decide, ?_⟩
  unfold Accounted
  decide

end Dynamod.Svmgr
