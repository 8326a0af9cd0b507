/-
The frontier's invariant, kept by every operation and so by every run.

# The counting argument

`unmetDeps g tr s` is the set of dependencies of `s` that the history
`tr` has not settled: a dependency is settled for `s` once it is
marked ready, or marked failed without being required by `s`. The
invariant (`FrontierInv`) says that outside the blocked set each
counter is the size of that set, that the queue holds exactly the
services with nothing left to wait for, and that blocked is the set
of services with a `requires` chain to a failed one.

Both marks settle one dependency for some dependents and lower exactly
those counters (`markReady_eq`, `markFailed_eq`). That a queued or
returned service is never blocked afterwards needs no field of its own:
everything it requires is ready, and a service that is ready is never
marked failed (`settled_requires`).
-/
import Dynamod.Lib.Countdown
import Dynamod.Svmgr.Frontier

namespace Dynamod.Svmgr

open Lib Relation

variable {s x d : String} {g : DependencyGraph} {tr : FrontierTrace}
  {f : StartupFrontier}

-- ==== trace algebra

namespace FrontierTrace

variable (tr : FrontierTrace)

@[simp] theorem returned_nil : returned [] = [] := rfl

@[simp] theorem readied_nil : readied [] = [] := rfl

@[simp] theorem failed_nil : failed [] = [] := rfl

@[simp] theorem returned_took (b : List String) :
    returned (tr ++ [.took b]) = tr.returned ++ b := by
  simp [returned]

@[simp] theorem returned_ready (s : String) : returned (tr ++ [.ready s]) = tr.returned := by
  simp [returned]

@[simp] theorem returned_failed (s : String) : returned (tr ++ [.failed s]) = tr.returned := by
  simp [returned]

@[simp] theorem readied_took (b : List String) : readied (tr ++ [.took b]) = tr.readied := by
  simp [readied]

@[simp] theorem readied_ready (s : String) : readied (tr ++ [.ready s]) = tr.readied ++ [s] := by
  simp [readied]

@[simp] theorem readied_failed (s : String) : readied (tr ++ [.failed s]) = tr.readied := by
  simp [readied]

@[simp] theorem failed_took (b : List String) : failed (tr ++ [.took b]) = tr.failed := by
  simp [failed]

@[simp] theorem failed_ready (s : String) : failed (tr ++ [.ready s]) = tr.failed := by
  simp [failed]

@[simp] theorem failed_failed (s : String) : failed (tr ++ [.failed s]) = tr.failed ++ [s] := by
  simp [failed]

variable {tr}

/-- A service that was marked ready. -/
theorem mem_readied : s ∈ tr.readied ↔ .ready s ∈ tr := by
  unfold readied
  rw [List.mem_filterMap]
  refine ⟨?_, fun h => ⟨_, h, rfl⟩⟩
  rintro ⟨e, he, hs⟩
  split at hs
  · cases hs
    exact he
  · cases hs

theorem mem_failed : s ∈ tr.failed ↔ .failed s ∈ tr := by
  unfold failed
  rw [List.mem_filterMap]
  refine ⟨?_, fun h => ⟨_, h, rfl⟩⟩
  rintro ⟨e, he, hs⟩
  split at hs
  · cases hs
    exact he
  · cases hs

/-- A batch marks nothing. -/
theorem marked_took {b : List String} : Marked (tr ++ [.took b]) s ↔ tr.Marked s := by
  unfold Marked
  rw [readied_took, failed_took]

theorem marked_ready : Marked (tr ++ [.ready s]) x ↔ tr.Marked x ∨ x = s := by
  unfold Marked
  rw [readied_ready, failed_ready, List.mem_append, List.mem_singleton, or_right_comm]

theorem marked_failed : Marked (tr ++ [.failed s]) x ↔ tr.Marked x ∨ x = s := by
  unfold Marked
  rw [readied_failed, failed_failed, List.mem_append, List.mem_singleton, or_assoc]

end FrontierTrace

-- ==== what each mark does

namespace StartupFrontier

/-- The frontier with other counters and another queue. -/
def withCounters (f : StartupFrontier) (c : HashMap String Nat × List String) :
    StartupFrontier :=
  { f with unmet := c.1, readyToStart := c.2 }

/-- The decrement of the source is the general one. -/
theorem withCounters_decrement (f : StartupFrontier)
    (c : HashMap String Nat × List String) (push : String → Bool) (x : String) :
    (f.withCounters c).decrement (push x) x
      = f.withCounters (Countdown.dec push c x) := by
  unfold decrement Countdown.dec withCounters
  cases c.1.lookup x <;> rfl

/-- `mark_ready` is one pass over the dependents that are not
blocked. -/
theorem markReady_eq (f : StartupFrontier) (s : String) (order : DependentsOrder g) :
    f.markReady s g order
      = withCounters
          { f with
            pending := f.pending.erase s
            ready := insert s f.ready
            completed := insert s f.completed }
          (Countdown.decAll (fun x => x ∉ f.blocked)
            (fun x => x ∉ insert s f.completed && x ∉ f.pending.erase s)
            (order s).list (f.unmet, f.readyToStart)) := by
  refine Countdown.foldl_put
    (withCounters
      { f with
        pending := f.pending.erase s
        ready := insert s f.ready
        completed := insert s f.completed })
    (fun f dependent =>
      if dependent ∈ f.blocked then f
      else
        f.decrement (dependent ∉ f.completed && dependent ∉ f.pending)
          dependent)
    (fun x => x ∉ f.blocked)
    (fun x => x ∉ insert s f.completed && x ∉ f.pending.erase s)
    (fun c x => ?_) (order s).list (f.unmet, f.readyToStart)
  rw [← withCounters_decrement]
  by_cases hx : x ∈ f.blocked <;> simp [withCounters, hx]

/-- The first loop of `mark_failed`: the requirers in walking order,
and one pass over the other dependents. -/
theorem foldl_failLoop (f : StartupFrontier) (s : String) (xs : List String) :
    ∀ (q : List String) (c : HashMap String Nat × List String),
      xs.foldl (failLoop g s) (q, f.withCounters c)
        = (q ++ xs.filter (fun x => s ∈ g.requiresOf x), f.withCounters
              (Countdown.decAll (fun x => s ∉ g.requiresOf x)
                (fun x => x ∉ f.completed && x ∉ f.pending && x ∉ f.blocked) xs c)) := by
  induction xs with
  | nil => intro q c; simp [Countdown.decAll]
  | cons x xs ih =>
    intro q c
    rw [List.foldl_cons]
    by_cases hx : s ∈ g.requiresOf x
    · rw [show failLoop g s (q, f.withCounters c) x
          = (q ++ [x], f.withCounters c) from if_pos hx, ih]
      simp [Countdown.decAll, hx]
    · rw [show failLoop g s (q, f.withCounters c) x
          = (q, f.withCounters (Countdown.dec
              (fun x => x ∉ f.completed && x ∉ f.pending && x ∉ f.blocked)
              c x)) from by
            rw [← withCounters_decrement]
            exact if_neg hx, ih]
      simp [Countdown.decAll, hx]

/-- The blocking loop marks the worklist closure, and completes what
it newly marks. -/
theorem blockLoop_eq (order : DependentsOrder g) (fuel : Nat) :
    ∀ (toBlock : List String) (f : StartupFrontier), blockLoop g order fuel toBlock f
        = { f with
            blocked := Worklist.loop (requirers g order) fuel toBlock f.blocked
            completed := f.completed
              ∪ (Worklist.loop (requirers g order) fuel toBlock f.blocked \ f.blocked) } := by
  induction fuel with
  | zero => intro toBlock f; simp [blockLoop, Worklist.loop]
  | succ fuel ih =>
    intro toBlock f
    cases toBlock with
    | nil => simp [blockLoop, Worklist.loop]
    | cons svc toBlock =>
      rw [blockLoop, Worklist.loop]
      by_cases hs : svc ∈ f.blocked
      · rw [if_pos hs, if_pos hs, ih]
      · rw [if_neg hs, if_neg hs]
        rw [ih]
        have hsub := Worklist.subset_loop (requirers g order) fuel
          (toBlock ++ (requirers g order svc).filter (fun dep => dep ∉ insert svc f.blocked))
          (insert svc f.blocked) (Finset.mem_insert_self _ _)
        -- `svc` is newly marked either way the books are kept
        generalize Worklist.loop (requirers g order) fuel
          (toBlock ++ (requirers g order svc).filter (fun dep => dep ∉ insert svc f.blocked))
          (insert svc f.blocked) = marked at hsub ⊢
        congr 1
        ext x
        simp only [Finset.mem_union, Finset.mem_sdiff, Finset.mem_insert]
        by_cases hx : x = svc
        · subst hx
          simp [hs, hsub]
        · simp [hx]

/-- The services `mark_failed` leaves blocked. -/
def blockedBy (f : StartupFrontier) (s : String) (g : DependencyGraph)
    (order : DependentsOrder g) : Finset String :=
  Worklist.loop (requirers g order)
    (Worklist.credit (requirers g order) g.allServices (requirers g order s) f.blocked)
    (requirers g order s) f.blocked

/-- `mark_failed` is one pass over the dependents that do not require
the service, then the blocking closure of those that do. -/
theorem markFailed_eq (f : StartupFrontier) (s : String) (order : DependentsOrder g) :
    f.markFailed s g order
      = withCounters
          { f with
            pending := f.pending.erase s
            blocked := f.blockedBy s g order
            completed := insert s f.completed
              ∪ (f.blockedBy s g order \ f.blocked) }
          (Countdown.decAll (fun x => s ∉ g.requiresOf x)
            (fun x => x ∉ insert s f.completed && x ∉ f.pending.erase s && x ∉ f.blocked)
            (order s).list (f.unmet, f.readyToStart)) := by
  have h := foldl_failLoop (g := g)
    { f with
      pending := f.pending.erase s
      completed := insert s f.completed } s (order s).list []
    (f.unmet, f.readyToStart)
  rw [List.nil_append] at h
  unfold markFailed
  dsimp only
  rw [show (order s).list.foldl (failLoop g s) ([], { f with
        pending := f.pending.erase s
        completed := insert s f.completed }) = _ from h]
  rw [blockLoop_eq]
  rfl

end StartupFrontier

-- ==== what the history has settled

/-- The history has settled the dependency `d` of `s`: `d` is ready,
or it failed and `s` only ordered itself after it. -/
def Settled (g : DependencyGraph) (tr : FrontierTrace) (s d : String) : Prop :=
  d ∈ tr.readied ∨ (d ∈ tr.failed ∧ d ∉ g.requiresOf s)

instance (g : DependencyGraph) (tr : FrontierTrace) (s d : String) :
    Decidable (Settled g tr s d) :=
  inferInstanceAs (Decidable (_ ∨ _))

/-- The dependencies of `s` that are not settled yet. -/
def unmetDeps (g : DependencyGraph) (tr : FrontierTrace) (s : String) : Finset String :=
  (g.dependenciesOf s).filter fun d => ¬ Settled g tr s d

/-- Some `requires` chain leads from `s` to a service marked failed. -/
def RequiresFailed (g : DependencyGraph) (tr : FrontierTrace) (s : String) :
    Prop :=
  ∃ d ∈ tr.failed, TransGen g.Requires s d

/-- A dependency is unmet as long as it is not settled. -/
theorem mem_unmetDeps : d ∈ unmetDeps g tr x ↔ d ∈ g.dependenciesOf x ∧ ¬ Settled g tr x d :=
  Finset.mem_filter

theorem settled_of_unmetDeps_eq_empty (h : unmetDeps g tr x = ∅)
    (hd : d ∈ g.dependenciesOf x) : Settled g tr x d := by
  by_contra hn
  have : d ∈ unmetDeps g tr x := mem_unmetDeps.2 ⟨hd, hn⟩
  rw [h] at this
  simp at this

/-- Nothing settles what is not marked. -/
theorem mem_unmetDeps_of_not_marked (hd : s ∈ g.dependenciesOf x)
    (hs : ¬ tr.Marked s) : s ∈ unmetDeps g tr x := by
  refine mem_unmetDeps.2 ⟨hd, ?_⟩
  rintro (h | ⟨h, -⟩)
  · exact hs (Or.inl h)
  · exact hs (Or.inr h)

/-- At first every dependency is unmet. -/
theorem unmetDeps_nil : unmetDeps g [] s = g.dependenciesOf s := by
  unfold unmetDeps
  refine Finset.filter_true_of_mem fun d _ => ?_
  simp [Settled]

@[simp] theorem unmetDeps_took (b : List String) :
    unmetDeps g (tr ++ [.took b]) x = unmetDeps g tr x := by
  simp [unmetDeps, Settled]

/-- A ready service is a dependency less. -/
theorem unmetDeps_ready : unmetDeps g (tr ++ [.ready s]) x = (unmetDeps g tr x).erase s := by
  ext d
  rw [Finset.mem_erase, mem_unmetDeps, mem_unmetDeps]
  simp only [Settled, FrontierTrace.readied_ready,
    FrontierTrace.failed_ready, List.mem_append, List.mem_singleton]
  tauto

/-- So is a failed one, for those that only want it. -/
theorem unmetDeps_failed_soft (hr : s ∉ g.requiresOf x) :
    unmetDeps g (tr ++ [.failed s]) x = (unmetDeps g tr x).erase s := by
  ext d
  rw [Finset.mem_erase, mem_unmetDeps, mem_unmetDeps]
  simp only [Settled, FrontierTrace.readied_failed,
    FrontierTrace.failed_failed, List.mem_append, List.mem_singleton]
  by_cases hd : d = s
  · subst hd
    simp [hr]
  · simp [hd]

/-- For those that require it nothing is settled. -/
theorem unmetDeps_failed_hard (hr : s ∈ g.requiresOf x) :
    unmetDeps g (tr ++ [.failed s]) x = unmetDeps g tr x := by
  ext d
  rw [mem_unmetDeps, mem_unmetDeps]
  simp only [Settled, FrontierTrace.readied_failed,
    FrontierTrace.failed_failed, List.mem_append, List.mem_singleton]
  by_cases hd : d = s
  · subst hd
    simp [hr]
  · simp [hd]

/-- A service that is no dependency of `x` settles nothing for it. -/
theorem erase_unmetDeps_of_not_dependency (h : s ∉ g.dependenciesOf x) :
    (unmetDeps g tr x).erase s = unmetDeps g tr x :=
  Finset.erase_eq_of_notMem fun hm => h (mem_unmetDeps.1 hm).1

/-- Everything on a `requires` chain from a service with nothing left
to wait for is ready. -/
theorem settled_requires (hready : ∀ y ∈ tr.readied, unmetDeps g tr y = ∅)
    (hx : unmetDeps g tr x = ∅) (hchain : TransGen g.Requires x d) : d ∈ tr.readied := by
  have hstep : ∀ y e, unmetDeps g tr y = ∅ → g.Requires y e → e ∈ tr.readied := by
    intro y e hy he
    rcases settled_of_unmetDeps_eq_empty hy
        (DependencyGraph.requiresOf_subset he) with h | ⟨-, hn⟩
    · exact h
    · exact absurd he hn
  induction hchain with
  | single h => exact hstep x _ hx h
  | tail _ h ih => exact hstep _ _ (hready _ ih) h

-- ==== the invariant

/-- What holds of the frontier after the history `tr`. -/
structure FrontierInv (g : DependencyGraph) (tr : FrontierTrace)
    (f : StartupFrontier) : Prop where
  ready_iff : ∀ s, s ∈ f.ready ↔ s ∈ tr.readied
  pending_iff : ∀ s, s ∈ f.pending ↔ s ∈ tr.returned ∧ ¬ tr.Marked s
  completed_iff : ∀ s, s ∈ f.completed ↔ tr.Marked s ∨ s ∈ f.blocked
  blocked_iff : ∀ s, s ∈ f.blocked ↔ RequiresFailed g tr s
  unmet_eq : ∀ s ∈ g.allServices, s ∉ f.blocked →
    f.unmet.lookup s = some (unmetDeps g tr s).card
  queue_nodup : f.readyToStart.Nodup
  queue_iff : ∀ s, s ∈ f.readyToStart
    ↔ s ∈ g.allServices ∧ s ∉ f.blocked ∧ s ∉ tr.returned
      ∧ unmetDeps g tr s = ∅
  returned_nodup : tr.returned.Nodup
  returned_met : ∀ s ∈ tr.returned,
    s ∈ g.allServices ∧ unmetDeps g tr s = ∅
  marked_returned : ∀ s, tr.Marked s → s ∈ tr.returned
  marks_disjoint : ∀ s ∈ tr.readied, s ∉ tr.failed

namespace FrontierInv

theorem readied_met (hi : FrontierInv g tr f) :
    ∀ y ∈ tr.readied, unmetDeps g tr y = ∅ := fun y hy =>
  (hi.returned_met y (hi.marked_returned y (Or.inl hy))).2

/-- A service with nothing left to wait for requires no failed one. -/
theorem not_requiresFailed (hi : FrontierInv g tr f)
    (hs : unmetDeps g tr s = ∅) : ¬ RequiresFailed g tr s := by
  rintro ⟨d, hd, hchain⟩
  exact hi.marks_disjoint d (settled_requires hi.readied_met hs hchain) hd

/-- A service that was handed out is not blocked. -/
theorem returned_not_blocked (hi : FrontierInv g tr f) (hs : s ∈ tr.returned) :
    s ∉ f.blocked := by
  rw [hi.blocked_iff]
  exact hi.not_requiresFailed (hi.returned_met s hs).2

end FrontierInv

-- ==== the initial frontier

/-- The loop of `new`, from any frontier on. -/
private theorem foldl_new (g : DependencyGraph) (xs : List String) :
    ∀ f : StartupFrontier, xs.foldl (fun f service =>
          { f with
            unmet := f.unmet.insert service (g.dependenciesOf service).card
            readyToStart :=
              if (g.dependenciesOf service).card = 0
              then f.readyToStart ++ [service] else f.readyToStart }) f
        = f.withCounters
            (xs.foldl (fun m s => m.insert s (g.dependenciesOf s).card) f.unmet, f.readyToStart
                ++ xs.filter (fun s => (g.dependenciesOf s).card = 0)) := by
  induction xs with
  | nil => intro f; simp [StartupFrontier.withCounters]
  | cons x xs ih =>
    intro f
    rw [List.foldl_cons, ih, List.filter_cons]
    by_cases hx : (g.dependenciesOf x).card = 0
    · rw [if_pos hx, if_pos (decide_eq_true hx), List.append_assoc]
      rfl
    · rw [if_neg hx, if_neg (by simpa using hx)]
      rfl

/-- The invariant holds before the first batch. -/
theorem new_inv (g : DependencyGraph) (services : IterOrder g.allServices) :
    FrontierInv g [] (.new g services) := by
  have hnew := foldl_new g services.list
    { unmet := ∅, readyToStart := [], ready := ∅, pending := ∅,
      blocked := ∅, completed := ∅ }
  rw [List.nil_append] at hnew
  rw [show StartupFrontier.new g services = _ from hnew]
  refine ⟨?_, ?_, ?_, ?_, ?_, ?_, ?_, ?_, ?_, ?_, ?_⟩
  · intro s; simp [StartupFrontier.withCounters]
  · intro s; simp [StartupFrontier.withCounters]
  · intro s; simp [StartupFrontier.withCounters, FrontierTrace.Marked]
  · intro s; simp [StartupFrontier.withCounters, RequiresFailed]
  · intro s hs _
    show Finmap.lookup s (services.list.foldl _ ∅) = _
    rw [HashMap.lookup_foldl_insert, if_pos (services.mem.2 hs), unmetDeps_nil]
  · exact services.nodup.filter _
  · intro s
    show s ∈ services.list.filter _ ↔ _
    rw [List.mem_filter, services.mem, unmetDeps_nil]
    simp [StartupFrontier.withCounters]
  · exact List.nodup_nil
  · intro s hs; cases hs
  · rintro s (hs | hs) <;> cases hs
  · intro s hs; cases hs

theorem new_keys (g : DependencyGraph) (services : IterOrder g.allServices) :
    (StartupFrontier.new g services).unmet.keys = g.allServices := by
  have hnew := foldl_new g services.list
    { unmet := ∅, readyToStart := [], ready := ∅, pending := ∅,
      blocked := ∅, completed := ∅ }
  rw [show StartupFrontier.new g services = _ from hnew]
  ext s
  show s ∈ (services.list.foldl _ ∅ : HashMap String Nat).keys ↔ _
  rw [Finmap.mem_keys, ← Finmap.lookup_isSome, HashMap.lookup_foldl_insert, ← services.mem]
  split
  · next hs => exact iff_of_true rfl hs
  · next hs => exact iff_of_false Bool.false_ne_true hs

-- ==== take_ready

private theorem mem_foldl_insert (batch : List String) :
    ∀ (p : Finset String) (s : String),
      s ∈ batch.foldl (fun p s => insert s p) p ↔ s ∈ batch ∨ s ∈ p := by
  induction batch with
  | nil => intro p s; simp
  | cons b batch ih =>
    intro p s
    rw [List.foldl_cons, ih, Finset.mem_insert, List.mem_cons]
    tauto

/-- A batch moves from the queue to the pending services. -/
theorem takeReady_inv (hi : FrontierInv g tr f) :
    FrontierInv g (tr ++ [.took f.takeReady.1]) f.takeReady.2 := by
  have hfresh : ∀ s ∈ f.readyToStart, s ∉ tr.returned := fun s hs =>
    ((hi.queue_iff s).1 hs).2.2.1
  -- a batch changes `returned` alone
  refine ⟨?_, ?_, ?_, ?_, ?_, ?_, ?_, ?_, ?_, ?_, ?_⟩
  · intro s
    rw [FrontierTrace.readied_took]
    exact hi.ready_iff s
  · intro s
    rw [FrontierTrace.marked_took, FrontierTrace.returned_took, List.mem_append]
    show s ∈ f.readyToStart.foldl _ f.pending ↔ _
    rw [mem_foldl_insert, hi.pending_iff]
    constructor
    · rintro (hs | ⟨hs, hm⟩)
      · exact ⟨Or.inr hs, fun hm => hfresh s hs (hi.marked_returned s hm)⟩
      · exact ⟨Or.inl hs, hm⟩
    · rintro ⟨hs | hs, hm⟩
      · exact Or.inr ⟨hs, hm⟩
      · exact Or.inl hs
  · intro s
    rw [FrontierTrace.marked_took]
    exact hi.completed_iff s
  · intro s
    unfold RequiresFailed
    rw [FrontierTrace.failed_took]
    exact hi.blocked_iff s
  · intro s hs hb
    rw [unmetDeps_took]
    exact hi.unmet_eq s hs hb
  · exact List.nodup_nil
  · intro s
    rw [unmetDeps_took, FrontierTrace.returned_took, List.mem_append]
    refine iff_of_false List.not_mem_nil ?_
    rintro ⟨hs, hb, hn, hmet⟩
    rw [not_or] at hn
    exact hn.2 ((hi.queue_iff s).2 ⟨hs, hb, hn.1, hmet⟩)
  · rw [FrontierTrace.returned_took]
    refine hi.returned_nodup.append hi.queue_nodup ?_
    intro s hs hs'
    exact hfresh s hs' hs
  · intro s hs
    rw [unmetDeps_took]
    rw [FrontierTrace.returned_took, List.mem_append] at hs
    rcases hs with hs | hs
    · exact hi.returned_met s hs
    · obtain ⟨h₁, -, -, h₂⟩ := (hi.queue_iff s).1 hs
      exact ⟨h₁, h₂⟩
  · intro s hs
    rw [FrontierTrace.returned_took, List.mem_append]
    exact Or.inl (hi.marked_returned s (FrontierTrace.marked_took.1 hs))
  · intro s hs
    rw [FrontierTrace.readied_took] at hs
    rw [FrontierTrace.failed_took]
    exact hi.marks_disjoint s hs

-- ==== settling one dependency

section Pass

variable {touch push : String → Bool} (hi : FrontierInv g tr f) (hm : ¬ tr.Marked s)

include hi

/-- Pending is what was returned and not yet marked. -/
theorem FrontierInv.mem_pending_erase (x : String) :
    x ∈ f.pending.erase s ↔ x ∈ tr.returned ∧ ¬ (tr.Marked x ∨ x = s) := by
  rw [Finset.mem_erase, hi.pending_iff, not_or]
  exact ⟨fun h => ⟨h.2.1, h.2.2, h.1⟩, fun h => ⟨h.2.2, h.1, h.2.1⟩⟩

theorem FrontierInv.returned_of_marked (hr : s ∈ tr.returned) (h : tr.Marked x ∨ x = s) :
    x ∈ tr.returned := by
  rcases h with h | rfl
  · exact hi.marked_returned x h
  · exact hr

include hm

/-- A dependent of an unmarked service still waits, so it is neither
handed out nor queued. -/
theorem FrontierInv.dependent_waits (hx : x ∈ g.dependentsOf s) :
    x ∈ g.allServices ∧ x ∉ tr.returned ∧ x ∉ f.readyToStart := by
  have hwaits : unmetDeps g tr x ≠ ∅ := Finset.ne_empty_of_mem
    (mem_unmetDeps_of_not_marked (DependencyGraph.mem_dependentsOf.1 hx) hm)
  refine ⟨DependencyGraph.dependent_mem (DependencyGraph.mem_dependentsOf.1 hx), ?_, ?_⟩
  · exact fun hr => hwaits (hi.returned_met x hr).2
  · exact fun hq => hwaits ((hi.queue_iff x).1 hq).2.2.2

/-- Marking `s` leaves a dependent that is not blocked startable. -/
theorem FrontierInv.dependent_startable (hr : s ∈ tr.returned) (hx : x ∈ g.dependentsOf s)
    (hb : x ∉ f.blocked) :
    x ∉ insert s f.completed ∧ x ∉ f.pending.erase s := by
  have hn := (hi.dependent_waits hm hx).2.1
  constructor
  · rw [Finset.mem_insert, hi.completed_iff]
    rintro (rfl | h | h)
    · exact hn hr
    · exact hn (hi.marked_returned x h)
    · exact hb h
  · rw [Finset.mem_erase, hi.pending_iff]
    exact fun h => hn h.2.1

/-- The counters after a pass over the dependents of `s`: a touched
service outside the blocked set has `s` off its list. -/
theorem FrontierInv.lookup_pass (order : DependentsOrder g)
    (hx : x ∈ g.allServices) (hb : x ∉ f.blocked) (ht : touch x = true) :
    (Countdown.decAll touch push (order s).list (f.unmet, f.readyToStart)).1.lookup x
      = some ((unmetDeps g tr x).erase s).card := by
  rw [Countdown.decAll_lookup touch push (order s).nodup, hi.unmet_eq x hx hb]
  by_cases hd : x ∈ g.dependentsOf s
  · have hmem := mem_unmetDeps_of_not_marked
      (DependencyGraph.mem_dependentsOf.1 hd) hm
    rw [if_pos ⟨(order s).mem.2 hd, ht⟩, Finset.card_erase_of_mem hmem]
    rfl
  · rw [if_neg fun h => hd ((order s).mem.1 h.1), erase_unmetDeps_of_not_dependency]
    exact fun h => hd (DependencyGraph.mem_dependentsOf.2 h)

section Queue

variable (hblk : ∀ x ∈ f.blocked, (touch x && push x) = false)
  (hpush : ∀ x ∈ g.dependentsOf s, x ∉ f.blocked → push x = true)

include hblk hpush

/-- A dependent fires that waited for `s` alone. -/
theorem FrontierInv.fires_pass (hd : x ∈ g.dependentsOf s) :
    Countdown.fires touch push f.unmet x = true
      ↔ x ∉ f.blocked ∧ touch x = true ∧ (unmetDeps g tr x).erase s = ∅ := by
  by_cases hb : x ∈ f.blocked
  · simp [Countdown.fires, hblk x hb, hb]
  · have hmem := mem_unmetDeps_of_not_marked
      (DependencyGraph.mem_dependentsOf.1 hd) hm
    have hx := DependencyGraph.dependent_mem
      (DependencyGraph.mem_dependentsOf.1 hd)
    rw [← Finset.card_eq_zero, Finset.card_erase_of_mem hmem]
    simp [Countdown.fires, hpush x hd hb, hi.unmet_eq x hx hb, hb]

variable (touch push) in
/-- The queue after a pass: the old one, and who fired. -/
theorem FrontierInv.mem_queue_pass (order : DependentsOrder g) (x : String) :
    x ∈ (Countdown.decAll touch push (order s).list (f.unmet, f.readyToStart)).2
      ↔ x ∈ f.readyToStart
        ∨ (x ∈ g.dependentsOf s ∧ x ∉ f.blocked ∧ touch x = true
            ∧ (unmetDeps g tr x).erase s = ∅) := by
  rw [Countdown.decAll_queue touch push (order s).nodup, List.mem_append,
    List.mem_filter, (order s).mem]
  constructor
  · rintro (h | ⟨hd, hf⟩)
    · exact Or.inl h
    · exact Or.inr ⟨hd, (hi.fires_pass hm hblk hpush hd).1 hf⟩
  · rintro (h | ⟨hd, hf⟩)
    · exact Or.inl h
    · exact Or.inr ⟨hd, (hi.fires_pass hm hblk hpush hd).2 hf⟩

end Queue

/-- The queue has no service twice, since its counter is zero only once. -/
theorem FrontierInv.nodup_queue_pass (order : DependentsOrder g) :
    (Countdown.decAll touch push (order s).list (f.unmet, f.readyToStart)).2.Nodup := by
  rw [Countdown.decAll_queue touch push (order s).nodup]
  refine hi.queue_nodup.append ((order s).nodup.filter _) ?_
  intro x hq hx
  -- a dependent of `s` still waits for `s`, so it is not queued yet
  exact (hi.dependent_waits hm ((order s).mem.1 (List.mem_filter.1 hx).1)).2.2 hq

end Pass

-- ==== mark_ready

/-- Marking a pending service ready keeps the invariant. -/
theorem markReady_inv (hi : FrontierInv g tr f)
    (hr : s ∈ tr.returned) (hm : ¬ tr.Marked s) (order : DependentsOrder g) :
    FrontierInv g (tr ++ [.ready s]) (f.markReady s g order) := by
  rw [StartupFrontier.markReady_eq]
  have hpass := hi.mem_queue_pass (s := s) (fun x => x ∉ f.blocked)
    (fun x => x ∉ insert s f.completed && x ∉ f.pending.erase s) hm
    (fun x hx => by simp [hx])
    (fun x hx hb => by
      obtain ⟨h₁, h₂⟩ := hi.dependent_startable hm hr hx hb
      rw [decide_eq_true h₁, decide_eq_true h₂]
      rfl) order
  refine ⟨?_, ?_, ?_, ?_, ?_, ?_, ?_, ?_, ?_, ?_, ?_⟩
  · intro x
    rw [FrontierTrace.readied_ready, List.mem_append, List.mem_singleton, ← hi.ready_iff, or_comm]
    exact Finset.mem_insert
  · intro x
    rw [FrontierTrace.marked_ready, FrontierTrace.returned_ready]
    exact hi.mem_pending_erase x
  · intro x
    rw [FrontierTrace.marked_ready]
    show x ∈ insert s f.completed ↔ _ ∨ x ∈ f.blocked
    rw [or_right_comm, ← hi.completed_iff, or_comm]
    exact Finset.mem_insert
  · intro x
    unfold RequiresFailed
    rw [FrontierTrace.failed_ready]
    exact hi.blocked_iff x
  · intro x hx hb
    rw [unmetDeps_ready]
    exact hi.lookup_pass hm order hx hb (decide_eq_true hb)
  · exact hi.nodup_queue_pass hm order
  · intro x
    rw [unmetDeps_ready, FrontierTrace.returned_ready]
    refine (hpass x).trans ?_
    show _ ↔ x ∈ g.allServices ∧ x ∉ f.blocked ∧ x ∉ tr.returned ∧ _
    by_cases hd : x ∈ g.dependentsOf s
    · obtain ⟨hx, hnr, hnq⟩ := hi.dependent_waits hm hd
      simp [hx, hnr, hnq, hd]
    · rw [hi.queue_iff, erase_unmetDeps_of_not_dependency
        fun h => hd (DependencyGraph.mem_dependentsOf.2 h)]
      simp [hd]
  · rw [FrontierTrace.returned_ready]
    exact hi.returned_nodup
  · intro x hx
    rw [FrontierTrace.returned_ready] at hx
    obtain ⟨h₁, h₂⟩ := hi.returned_met x hx
    rw [unmetDeps_ready, h₂]
    exact ⟨h₁, rfl⟩
  · intro x hx
    rw [FrontierTrace.returned_ready]
    exact hi.returned_of_marked hr (FrontierTrace.marked_ready.1 hx)
  · intro x hx
    rw [FrontierTrace.failed_ready]
    rw [FrontierTrace.readied_ready, List.mem_append, List.mem_singleton] at hx
    rcases hx with hx | rfl
    · exact hi.marks_disjoint x hx
    · exact fun h => hm (Or.inr h)

-- ==== mark_failed

/-- The neighbours along which a failure spreads. -/
theorem mem_requirers {order : DependentsOrder g} {y : String} :
    x ∈ StartupFrontier.requirers g order y ↔ g.Requires x y := by
  unfold StartupFrontier.requirers
  rw [List.mem_filter, (order y).mem, decide_eq_true_eq]
  exact ⟨fun h => h.2, fun h =>
    ⟨DependencyGraph.mem_dependentsOf.2 (DependencyGraph.requiresOf_subset h), h⟩⟩

/-- A walk along requirers is a `requires` chain read backwards. -/
private theorem requires_of_walk {order : DependentsOrder g} {z : String}
    (h : ReflTransGen (fun a b => b ∈ StartupFrontier.requirers g order a) z x) :
    ReflTransGen g.Requires x z := by
  induction h with
  | refl => exact ReflTransGen.refl
  | tail _ hstep ih => exact ReflTransGen.head (mem_requirers.1 hstep) ih

theorem subset_blockedBy (order : DependentsOrder g) : f.blocked ⊆ f.blockedBy s g order :=
  Worklist.subset_loop _ _ _ _

/-- `mark_failed` blocks exactly the services with a `requires` chain
to the failed one, on top of those blocked before. -/
theorem FrontierInv.mem_blockedBy (hi : FrontierInv g tr f)
    (order : DependentsOrder g) (x : String) : x ∈ f.blockedBy s g order
      ↔ RequiresFailed g (tr ++ [.failed s]) x := by
  have hqueue : ∀ a, ∀ b ∈ StartupFrontier.requirers g order a, b ∈ g.allServices :=
    fun a b hb => DependencyGraph.dependent_mem
      (DependencyGraph.requiresOf_subset (mem_requirers.1 hb))
  have hold := subset_blockedBy (f := f) (s := s) order
  unfold RequiresFailed
  rw [FrontierTrace.failed_failed]
  constructor
  · intro hx
    rcases Worklist.loop_sound _ _ _ _ x hx with h | ⟨z, hz, hwalk⟩
    · obtain ⟨d, hd, hc⟩ := (hi.blocked_iff x).1 h
      exact ⟨d, List.mem_append_left _ hd, hc⟩
    · exact ⟨s, by simp, TransGen.tail' (requires_of_walk hwalk) (mem_requirers.1 hz)⟩
  · rintro ⟨d, hd, hc⟩
    rcases List.mem_append.1 hd with hd | hd
    · exact hold ((hi.blocked_iff x).2 ⟨d, hd, hc⟩)
    · rw [List.mem_singleton] at hd
      subst hd
      obtain ⟨hmarked, hclosed⟩ := Worklist.loop_closed (fun a _ => hqueue a) _ _ f.blocked
        (hqueue _) (Nat.le_refl _)
      -- along the chain, nearest requirer first
      induction hc using TransGen.head_induction_on with
      | single h => exact hmarked _ (mem_requirers.2 h)
      | @head a c h _ ih =>
        by_cases hcb : c ∈ f.blocked
        · obtain ⟨d', hd', hc'⟩ := (hi.blocked_iff c).1 hcb
          exact hold ((hi.blocked_iff a).2 ⟨d', hd', TransGen.head h hc'⟩)
        · exact hclosed c (ih hmarked hclosed) hcb a (mem_requirers.2 h)

/-- A failure takes no dependency back. -/
theorem unmetDeps_failed_eq_empty (h : unmetDeps g tr x = ∅) :
    unmetDeps g (tr ++ [.failed s]) x = ∅ := by
  by_cases hq : s ∈ g.requiresOf x
  · rw [unmetDeps_failed_hard hq, h]
  · rw [unmetDeps_failed_soft hq, h]
    rfl

theorem FrontierInv.marks_disjoint_failed (hi : FrontierInv g tr f) (hm : ¬ tr.Marked s) :
    ∀ x ∈ (tr ++ [.failed s] : FrontierTrace).readied,
      x ∉ (tr ++ [.failed s] : FrontierTrace).failed := by
  intro x hx
  rw [FrontierTrace.readied_failed] at hx
  rw [FrontierTrace.failed_failed, List.mem_append, List.mem_singleton]
  rintro (h | rfl)
  · exact hi.marks_disjoint x hx h
  · exact hm (Or.inl hx)

/-- Who requires the failed service is blocked. -/
theorem FrontierInv.blockedBy_of_requires (hi : FrontierInv g tr f)
    (order : DependentsOrder g) (h : s ∈ g.requiresOf x) : x ∈ f.blockedBy s g order :=
  (hi.mem_blockedBy order x).2 ⟨s, by simp, TransGen.single h⟩

/-- A service with nothing left to wait for escapes the blocking. -/
theorem FrontierInv.notMem_blockedBy (hi : FrontierInv g tr f)
    (hm : ¬ tr.Marked s) (order : DependentsOrder g)
    (hx : unmetDeps g (tr ++ [.failed s]) x = ∅) : x ∉ f.blockedBy s g order := by
  intro hb
  obtain ⟨d, hd, hc⟩ := (hi.mem_blockedBy order x).1 hb
  refine hi.marks_disjoint_failed hm d (settled_requires (fun y hy => ?_) hx hc) hd
  rw [FrontierTrace.readied_failed] at hy
  exact unmetDeps_failed_eq_empty (hi.readied_met y hy)

/-- The queue behind `mark_failed`: the old one, and the dependents that
do not require the failed service and wait for nothing else. -/
theorem FrontierInv.mem_queue_failed (hi : FrontierInv g tr f)
    (hm : ¬ tr.Marked s) (order : DependentsOrder g) (x : String) :
    (x ∈ f.readyToStart ∨ (x ∈ g.dependentsOf s ∧ x ∉ f.blocked
        ∧ decide (s ∉ g.requiresOf x) = true ∧ (unmetDeps g tr x).erase s = ∅))
      ↔ x ∈ g.allServices ∧ x ∉ f.blockedBy s g order ∧ x ∉ tr.returned
        ∧ unmetDeps g (tr ++ [.failed s]) x = ∅ := by
  rw [decide_eq_true_iff]
  constructor
  · rintro (hq | ⟨hd, -, hq, hmet⟩)
    · obtain ⟨hx, -, hnr, hmet⟩ := (hi.queue_iff x).1 hq
      have hmet' := unmetDeps_failed_eq_empty (s := s) hmet
      exact ⟨hx, hi.notMem_blockedBy hm order hmet', hnr, hmet'⟩
    · obtain ⟨hx, hnr, -⟩ := hi.dependent_waits hm hd
      rw [← unmetDeps_failed_soft hq] at hmet
      exact ⟨hx, hi.notMem_blockedBy hm order hmet, hnr, hmet⟩
  · rintro ⟨hx, hnb, hnr, hmet⟩
    have hb : x ∉ f.blocked := fun h => hnb (subset_blockedBy order h)
    have hq : s ∉ g.requiresOf x := fun h => hnb (hi.blockedBy_of_requires order h)
    rw [unmetDeps_failed_soft hq] at hmet
    by_cases hd : x ∈ g.dependentsOf s
    · exact Or.inr ⟨hd, hb, hq, hmet⟩
    · rw [erase_unmetDeps_of_not_dependency
        fun h => hd (DependencyGraph.mem_dependentsOf.2 h)] at hmet
      exact Or.inl ((hi.queue_iff x).2 ⟨hx, hb, hnr, hmet⟩)

/-- Marking a pending service failed keeps the invariant. -/
theorem markFailed_inv (hi : FrontierInv g tr f)
    (hr : s ∈ tr.returned) (hm : ¬ tr.Marked s) (order : DependentsOrder g) :
    FrontierInv g (tr ++ [.failed s]) (f.markFailed s g order) := by
  have hblocked := hi.mem_blockedBy (s := s) order
  have hold : f.blocked ⊆ f.blockedBy s g order := subset_blockedBy order
  rw [StartupFrontier.markFailed_eq]
  have hpass := hi.mem_queue_pass (s := s) (fun x => s ∉ g.requiresOf x)
    (fun x => x ∉ insert s f.completed && x ∉ f.pending.erase s && x ∉ f.blocked) hm
    (fun x hx => by simp [hx])
    (fun x hx hb => by
      obtain ⟨h₁, h₂⟩ := hi.dependent_startable hm hr hx hb
      rw [decide_eq_true h₁, decide_eq_true h₂, decide_eq_true hb]
      rfl) order
  refine ⟨?_, ?_, ?_, hblocked, ?_, ?_, ?_, ?_, ?_, ?_, hi.marks_disjoint_failed hm⟩
  · intro x
    rw [FrontierTrace.readied_failed]
    exact hi.ready_iff x
  · intro x
    rw [FrontierTrace.marked_failed, FrontierTrace.returned_failed]
    exact hi.mem_pending_erase x
  · intro x
    rw [FrontierTrace.marked_failed]
    show x ∈ insert s f.completed ∪ (f.blockedBy s g order \ f.blocked)
      ↔ _ ∨ x ∈ f.blockedBy s g order
    rw [Finset.mem_union, Finset.mem_insert, hi.completed_iff, Finset.mem_sdiff]
    have := @hold x
    tauto
  · intro x hx hb
    have hb' : x ∉ f.blocked := fun h => hb (hold h)
    have hq : s ∉ g.requiresOf x := fun h => hb (hi.blockedBy_of_requires order h)
    rw [unmetDeps_failed_soft hq]
    exact hi.lookup_pass hm order hx hb' (decide_eq_true hq)
  · exact hi.nodup_queue_pass hm order
  · intro x
    rw [FrontierTrace.returned_failed]
    exact (hpass x).trans (hi.mem_queue_failed hm order x)
  · rw [FrontierTrace.returned_failed]
    exact hi.returned_nodup
  · intro x hx
    rw [FrontierTrace.returned_failed] at hx
    obtain ⟨h₁, h₂⟩ := hi.returned_met x hx
    exact ⟨h₁, unmetDeps_failed_eq_empty h₂⟩
  · intro x hx
    rw [FrontierTrace.returned_failed]
    exact hi.returned_of_marked hr (FrontierTrace.marked_failed.1 hx)

-- ==== runs

/-- The invariant holds in every run. -/
theorem frontierRun_inv (h : FrontierRun g tr f) : FrontierInv g tr f := by
  induction h with
  | new services => exact new_inv g services
  | takeReady _ ih => exact takeReady_inv ih
  | markReady s order _ hr hm ih => exact markReady_inv ih hr hm order
  | markFailed s order _ hr hm ih => exact markFailed_inv ih hr hm order

/-- Along every run there is a counter for every service, and for
nothing else. -/
theorem frontierRun_keys (h : FrontierRun g tr f) : f.unmet.keys = g.allServices := by
  induction h with
  | new services => exact new_keys g services
  | takeReady _ ih => exact ih
  | markReady s order _ _ _ ih =>
    rw [StartupFrontier.markReady_eq]
    exact (Countdown.decAll_keys _ _ (order s).nodup _).trans ih
  | markFailed s order _ _ _ ih =>
    rw [StartupFrontier.markFailed_eq]
    exact (Countdown.decAll_keys _ _ (order s).nodup _).trans ih

end Dynamod.Svmgr
