/-
What every run of the startup frontier guarantees, and where it stops.

# Safety

What `frontier_run_safe` says is read off the invariant
(Proofs/Frontier.lean), in part at the state just before a batch was
taken, which `run_before_took` recovers from the trace. None of it
needs an acyclic graph: on a cycle the counters never reach zero.

# Quiescence

At quiescence a service is accounted for unless it waits, softly, for
a service that was blocked: `mark_failed` lowers the counters of the
soft dependents of the failed service, but blocking a service lowers
nobody's. `quiescent_accounted_iff` states exactly when that does not
matter; `stranded_quiescent` is the smallest graph on which it does.
-/
import Dynamod.Lib.Runs
import Dynamod.Svmgr.Proofs.Frontier

namespace Dynamod.Svmgr

open Lib Relation

-- ==== safety

/-- The state in which a batch of the trace was taken. -/
theorem run_before_took {g : DependencyGraph} {tr : FrontierTrace}
    {f : StartupFrontier} (h : FrontierRun g tr f)
    {tr₁ tr₂ : FrontierTrace} {batch : List String} (htr : tr = tr₁ ++ .took batch :: tr₂) :
    ∃ f₁, FrontierRun g tr₁ f₁ ∧ batch = f₁.readyToStart := by
  induction h generalizing tr₂ with
  | new services => simp at htr
  | @takeReady tr₀ f₀ hrun ih =>
    rcases snoc_split htr with ⟨rfl, he, -⟩ | ⟨tr₂', h', -⟩
    · injection he with he
      exact ⟨f₀, hrun, he.symm⟩
    · exact ih h'
  | markReady s order _ _ _ ih =>
    rcases snoc_split htr with ⟨-, he, -⟩ | ⟨tr₂', h', -⟩
    · cases he
    · exact ih h'
  | markFailed s order _ _ _ ih =>
    rcases snoc_split htr with ⟨-, he, -⟩ | ⟨tr₂', h', -⟩
    · cases he
    · exact ih h'

/-- Every run of the frontier hands each service out at most once,
hands it out only after each dependency was marked ready, or marked
failed without being required, and never has a service blocked that it
handed out. -/
theorem frontier_run_safe {g : DependencyGraph} {tr : FrontierTrace}
    {f : StartupFrontier} (h : FrontierRun g tr f) : tr.returned.Nodup
      ∧ (∀ (tr₁ tr₂ : FrontierTrace) (batch : List String), tr = tr₁ ++ .took batch :: tr₂ →
          ∀ s ∈ batch, ∀ d ∈ g.dependenciesOf s,
            .ready d ∈ tr₁ ∨ (.failed d ∈ tr₁ ∧ d ∉ g.requiresOf s))
      ∧ (∀ s ∈ tr.returned, s ∉ f.blocked) := by
  have hi := frontierRun_inv h
  refine ⟨hi.returned_nodup, ?_, fun s hs => hi.returned_not_blocked hs⟩
  intro tr₁ tr₂ batch htr s hs d hd
  obtain ⟨f₁, hrun, rfl⟩ := run_before_took h htr
  obtain ⟨-, -, -, hmet⟩ := ((frontierRun_inv hrun).queue_iff s).1 hs
  rcases settled_of_unmetDeps_eq_empty hmet hd with hr | ⟨hf, hn⟩
  · exact Or.inl (FrontierTrace.mem_readied.1 hr)
  · exact Or.inr ⟨FrontierTrace.mem_failed.1 hf, hn⟩

-- ==== a concrete run

/-- A run goes on with the batch that the frontier has ready. -/
theorem FrontierRun.took {g : DependencyGraph} {tr : FrontierTrace} {f : StartupFrontier}
    (h : FrontierRun g tr f) {batch : List String} (hbatch : f.takeReady.1 = batch) :
    FrontierRun g (tr ++ [.took batch]) f.takeReady.2 :=
  hbatch ▸ h.takeReady

/-- `b` requires `a`, and `c` is ordered after `b`. -/
def strandedDefs : List ServiceDef :=
  [{ service := { name := "a", exec := ["/bin/a"] } },
   { service := { name := "b", exec := ["/bin/b"] },
     dependencies := { requires := ["a"] } },
   { service := { name := "c", exec := ["/bin/c"] },
     dependencies := { after := ["b"] } }]

/-- The graph of `strandedDefs`. -/
def strandedGraph : DependencyGraph := .build strandedDefs

/-- The frontier after `a` was handed out and failed. -/
def strandedFrontier : StartupFrontier :=
  (StartupFrontier.new strandedGraph (.sorted _)).takeReady.2.markFailed "a"
    strandedGraph (sortedOrder strandedGraph)

/-- The first batch is `a` alone. -/
private theorem stranded_took : FrontierRun strandedGraph [.took ["a"]]
    (StartupFrontier.new strandedGraph (.sorted _)).takeReady.2 :=
  (FrontierRun.new (.sorted _)).took (by decide)

/-- The run that hands out `a` and marks it failed. -/
theorem stranded_run : FrontierRun strandedGraph [.took ["a"], .failed "a"] strandedFrontier :=
  .markFailed "a" (sortedOrder strandedGraph) stranded_took (by decide) (by decide)

/-- The frontier after `a` came up and `b` was handed out. -/
def followedFrontier : StartupFrontier :=
  ((StartupFrontier.new strandedGraph (.sorted _)).takeReady.2.markReady "a"
    strandedGraph (sortedOrder strandedGraph)).takeReady.2

/-- The run that hands out `a`, marks it ready and hands out `b`. -/
theorem followed_run : FrontierRun strandedGraph [.took ["a"], .ready "a", .took ["b"]]
    followedFrontier :=
  (stranded_took.markReady "a" (sortedOrder strandedGraph) (by decide) (by decide)).took
    (by decide)

theorem followed_run_safe :
    FrontierRun strandedGraph [.took ["a"], .ready "a", .took ["b"]] followedFrontier
      ∧ "a" ∈ strandedGraph.requiresOf "b"
      ∧ (FrontierTrace.returned [.took ["a"], .ready "a", .took ["b"]]).Nodup
      ∧ .ready "a" ∈ ([.took ["a"], .ready "a"] : FrontierTrace)
      ∧ "b" ∉ followedFrontier.blocked := by
  obtain ⟨hnodup, hdeps, hblocked⟩ := frontier_run_safe followed_run
  refine ⟨followed_run, by decide, hnodup, ?_, hblocked "b" (by decide)⟩
  -- `b` requires `a`, so of the two answers only the first is left
  rcases hdeps [.took ["a"], .ready "a"] [] ["b"] rfl "b" (by decide) "a" (by decide)
    with hready | ⟨-, hnot⟩
  · exact hready
  · exact absurd (by decide) hnot

-- ==== quiescence

/-- Every service was marked or is blocked. -/
def Accounted (g : DependencyGraph) (tr : FrontierTrace) (f : StartupFrontier) : Prop :=
  ∀ s ∈ g.allServices, s ∈ tr.readied ∨ s ∈ tr.failed ∨ s ∈ f.blocked

/-- A service none of whose required services failed or is blocked was
started: what it has to do with failed or blocked services, it has
through after, wants or before alone. -/
def SoftStarted (g : DependencyGraph) (tr : FrontierTrace) (f : StartupFrontier) : Prop :=
  ∀ s ∈ g.allServices,
    (∀ d ∈ g.requiresOf s, d ∉ tr.failed ∧ d ∉ f.blocked) → s ∈ tr.returned

section Quiescence

variable {g : DependencyGraph} {tr : FrontierTrace} {f : StartupFrontier}
  (hi : FrontierInv g tr f)

include hi

/-- An accounted service that is not blocked was handed out. -/
theorem FrontierInv.returned_of_accounted (hacc : Accounted g tr f) {s : String}
    (hs : s ∈ g.allServices) (hb : s ∉ f.blocked) : s ∈ tr.returned := by
  rcases hacc s hs with h | h | h
  · exact hi.marked_returned s (Or.inl h)
  · exact hi.marked_returned s (Or.inr h)
  · exact absurd h hb

/-- Only what requires a failed or blocked service is blocked. -/
theorem FrontierInv.softStarted_of_accounted (hacc : Accounted g tr f) :
    SoftStarted g tr f := by
  intro s hs hreq
  refine hi.returned_of_accounted hacc hs fun hb => ?_
  obtain ⟨d, hd, hc⟩ := (hi.blocked_iff s).1 hb
  -- the first service of the chain failed itself or is blocked
  obtain ⟨e, he, hc⟩ := TransGen.head'_iff.1 hc
  rcases reflTransGen_iff_eq_or_transGen.1 hc with rfl | hc
  · exact (hreq _ he).1 hd
  · exact (hreq e he).2 ((hi.blocked_iff e).2 ⟨d, hd, hc⟩)

/-- At quiescence a service that is not blocked and whose dependencies
are all marked is marked itself. -/
theorem FrontierInv.marked_of_deps_marked (hq : Quiescent tr f) {s : String}
    (hs : s ∈ g.allServices) (hb : s ∉ f.blocked) (hdeps : ∀ d ∈ g.dependenciesOf s, tr.Marked d) :
    tr.Marked s := by
  have hmet : unmetDeps g tr s = ∅ := by
    refine Finset.eq_empty_of_forall_notMem fun d hd => ?_
    obtain ⟨hd, hn⟩ := mem_unmetDeps.1 hd
    rcases hdeps d hd with h | h
    · exact hn (Or.inl h)
    · by_cases hr : d ∈ g.requiresOf s
      · exact hb ((hi.blocked_iff s).2 ⟨d, h, TransGen.single hr⟩)
      · exact hn (Or.inr ⟨h, hr⟩)
  by_contra hm
  have hqueue : s ∈ f.readyToStart :=
    (hi.queue_iff s).2 ⟨hs, hb, fun hr => hm (hq.2 s hr), hmet⟩
  rw [hq.1] at hqueue
  cases hqueue

omit hi in
/-- At quiescence, over an acyclic graph, every service is accounted
for, and every service that requires no failed or blocked one was
started, if and only if no service depends on one that requires a
failed service without requiring a failed service itself. -/
theorem quiescent_accounted_iff (hac : g.Acyclic) (h : FrontierRun g tr f)
    (hq : Quiescent tr f) : (Accounted g tr f ∧ SoftStarted g tr f)
      ↔ ∀ s, ∀ d ∈ g.dependenciesOf s, RequiresFailed g tr d → RequiresFailed g tr s := by
  have hi := frontierRun_inv h
  constructor
  · rintro ⟨hacc, -⟩ s d hd hdf
    by_contra hsf
    have hret := hi.returned_of_accounted hacc
      (DependencyGraph.dependent_mem hd) (fun hb => hsf ((hi.blocked_iff s).1 hb))
    -- `s` was handed out, so `d` was marked and is not blocked
    have hmd : tr.Marked d := by
      rcases settled_of_unmetDeps_eq_empty (hi.returned_met s hret).2 hd with
        h' | ⟨h', -⟩
      · exact Or.inl h'
      · exact Or.inr h'
    exact hi.returned_not_blocked (hi.marked_returned d hmd)
      ((hi.blocked_iff d).2 hdf)
  · intro hsoft
    have hacc : ∀ s, s ∈ g.allServices → tr.Marked s ∨ s ∈ f.blocked := by
      intro s
      induction s using hac.induction with
      | step s ih =>
        intro hs
        by_cases hb : s ∈ f.blocked
        · exact Or.inr hb
        · refine Or.inl (hi.marked_of_deps_marked hq hs hb fun d hd => ?_)
          refine (ih d hd (DependencyGraph.dependency_mem hd)).resolve_right ?_
          intro hdb
          exact hb ((hi.blocked_iff s).2 (hsoft s d hd ((hi.blocked_iff d).1 hdb)))
    have hacc' : Accounted g tr f := fun s hs => or_assoc.1 (hacc s hs)
    exact ⟨hacc', hi.softStarted_of_accounted hacc'⟩

end Quiescence

theorem stranded_acyclic : strandedGraph.Acyclic :=
  DependencyGraph.acyclic_of_rank
    (fun s => if s = "a" then 0 else if s = "b" then 1 else 2) (by decide)

theorem stranded_run_quiescent : Quiescent [.took ["a"], .failed "a"] strandedFrontier := by
  unfold Quiescent
  decide

theorem stranded_accounted_iff : strandedGraph.Acyclic
    ∧ FrontierRun strandedGraph [.took ["a"], .failed "a"] strandedFrontier
    ∧ Quiescent [.took ["a"], .failed "a"] strandedFrontier
    ∧ ((Accounted strandedGraph [.took ["a"], .failed "a"] strandedFrontier
          ∧ SoftStarted strandedGraph [.took ["a"], .failed "a"] strandedFrontier)
        ↔ ∀ s, ∀ d ∈ strandedGraph.dependenciesOf s,
            RequiresFailed strandedGraph [.took ["a"], .failed "a"] d →
            RequiresFailed strandedGraph [.took ["a"], .failed "a"] s) :=
  ⟨stranded_acyclic, stranded_run, stranded_run_quiescent,
    quiescent_accounted_iff stranded_acyclic stranded_run stranded_run_quiescent⟩

/-- `a` fails, `b` is blocked, and `c`, which is only ordered after
`b`, is neither started nor blocked. -/
theorem stranded_quiescent : ¬ ∀ (g : DependencyGraph) (tr : FrontierTrace) (f : StartupFrontier),
    g.Acyclic → FrontierRun g tr f → Quiescent tr f → Accounted g tr f := by
  intro h
  have hc := h _ _ _ stranded_acyclic stranded_run stranded_run_quiescent "c"
    (by decide)
  revert hc
  decide

end Dynamod.Svmgr
