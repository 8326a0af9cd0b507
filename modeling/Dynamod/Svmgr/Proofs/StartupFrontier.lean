/-
The startup loop drives the frontier as the frontier expects: it is a
`FrontierRun` over the events in the loop's history.

A frontier run marks a service only after it was handed out, and only
once. The loop owes that to its own bookkeeping: a service handed out
and not yet marked is in exactly one place (still in the batch, a
pending oneshot, or a readiness tracker), each place is left when the
mark is made (`Placed`).
-/
import Dynamod.Svmgr.Proofs.Frontier
import Dynamod.Svmgr.Proofs.StartupMoves

namespace Dynamod.Svmgr

open Lib

variable {a b : Startup × List String} {es : List Effect} {n : String}

-- ==== the trace

/-- The frontier events of a history. -/
def traceOf (log : List Effect) : FrontierTrace :=
  log.filterMap fun
    | .frontier e => some e
    | _ => none

theorem traceOf_append (log es : List Effect) : traceOf (log ++ es) = traceOf log ++ traceOf es :=
  List.filterMap_append

theorem traceOf_ownLog (log : List Effect) : traceOf (ownLog log) = traceOf log := by
  unfold traceOf ownLog
  rw [List.filterMap_filter]
  congr 1
  funext e
  cases e with
  | exited n p exit by_ => cases by_ <;> rfl
  | _ => rfl

theorem mem_traceOf {log : List Effect} {e : FrontierEvent} :
    e ∈ traceOf log ↔ .frontier e ∈ log := by
  unfold traceOf
  rw [List.mem_filterMap]
  constructor
  · intro h
    obtain ⟨x, hx, hex⟩ := h
    cases x with
    | frontier e' =>
      cases hex
      exact hx
    | _ => cases hex
  · exact fun h => ⟨_, h, rfl⟩

variable {g : DependencyGraph}

theorem StartupMove.trace (h : StartupMove World.Moves g a es b) :
    traceOf b.1.world.log = traceOf a.1.world.log ++ traceOf es := by
  rw [← traceOf_ownLog, h.own, traceOf_append, traceOf_ownLog]

-- ==== handed out and not marked

/-- Handed out and not yet marked. -/
def FrontierTrace.Open (tr : FrontierTrace) (n : String) : Prop :=
  n ∈ tr.returned ∧ ¬ tr.Marked n

def markEvent (ok : Bool) (n : String) : FrontierEvent :=
  if ok then .ready n else .failed n

theorem FrontierTrace.Open.mark {tr : FrontierTrace} {x : String}
    (h : tr.Open x) (hx : x ≠ n) (ok : Bool) : (tr ++ [markEvent ok n]).Open x := by
  obtain ⟨hret, hmark⟩ := h
  unfold FrontierTrace.Marked at hmark
  cases ok with
  | true =>
    refine ⟨?_, ?_⟩
    · rw [markEvent, if_pos rfl, returned_ready]
      exact hret
    · unfold FrontierTrace.Marked
      rw [markEvent, if_pos rfl, readied_ready, failed_ready, List.mem_append, List.mem_singleton]
      tauto
  | false =>
    have hf : markEvent false n = .failed n := rfl
    refine ⟨?_, ?_⟩
    · rw [hf, returned_failed]
      exact hret
    · unfold FrontierTrace.Marked
      rw [hf, readied_failed, failed_failed, List.mem_append, List.mem_singleton]
      tauto

/-- Where the loop keeps the services that are handed out and not
marked: the rest of the batch, the pending oneshots, the readiness
trackers. -/
structure Placed (tr : FrontierTrace) (todo : List String)
    (pending tracked : Finset String) : Prop where
  todo_nodup : todo.Nodup
  todo_open : ∀ n ∈ todo, tr.Open n ∧ n ∉ pending ∧ n ∉ tracked
  pending_open : ∀ n ∈ pending, tr.Open n ∧ n ∉ tracked
  tracked_open : ∀ n ∈ tracked, tr.Open n

section Placed

variable {tr : FrontierTrace} {todo : List String} {pending tracked : Finset String}

/-- A mark takes the service out of its place. -/
theorem Placed.mark (h : Placed tr todo pending tracked) (hn : n ∉ todo) (ok : Bool) :
    Placed (tr ++ [markEvent ok n]) todo (pending.erase n) (tracked.erase n) := by
  refine ⟨h.todo_nodup, ?_, ?_, ?_⟩
  · intro x hx
    obtain ⟨hopen, hp, ht⟩ := h.todo_open x hx
    have hne : x ≠ n := fun heq => hn (heq ▸ hx)
    exact ⟨hopen.mark hne ok, fun hm => hp (Finset.mem_of_mem_erase hm),
      fun hm => ht (Finset.mem_of_mem_erase hm)⟩
  · intro x hx
    obtain ⟨hne, hx⟩ := Finset.mem_erase.1 hx
    obtain ⟨hopen, ht⟩ := h.pending_open x hx
    exact ⟨hopen.mark hne ok, fun hm => ht (Finset.mem_of_mem_erase hm)⟩
  · intro x hx
    obtain ⟨hne, hx⟩ := Finset.mem_erase.1 hx
    exact (h.tracked_open x hx).mark hne ok

theorem Placed.head (h : Placed tr (n :: todo) pending tracked) :
    tr.Open n ∧ n ∉ todo ∧ n ∉ pending ∧ n ∉ tracked := by
  obtain ⟨hopen, hp, ht⟩ := h.todo_open n (List.mem_cons_self ..)
  exact ⟨hopen, (List.nodup_cons.1 h.todo_nodup).1, hp, ht⟩

theorem Placed.tail (h : Placed tr (n :: todo) pending tracked) :
    Placed tr todo pending tracked :=
  ⟨(List.nodup_cons.1 h.todo_nodup).2, fun x hx => h.todo_open x (List.mem_cons_of_mem n hx),
    h.pending_open, h.tracked_open⟩

theorem Placed.toPending (h : Placed tr (n :: todo) pending tracked) :
    Placed tr todo (insert n pending) tracked := by
  obtain ⟨hopen, hn, -, ht⟩ := h.head
  refine ⟨h.tail.todo_nodup, ?_, ?_, h.tracked_open⟩
  · intro x hx
    obtain ⟨hx', hp', ht'⟩ := h.tail.todo_open x hx
    refine ⟨hx', ?_, ht'⟩
    intro hp
    rcases Finset.mem_insert.1 hp with rfl | hp
    · exact hn hx
    · exact hp' hp
  · intro x hx
    rcases Finset.mem_insert.1 hx with rfl | hx
    · exact ⟨hopen, ht⟩
    · exact h.pending_open x hx

theorem Placed.toTracked (h : Placed tr (n :: todo) pending tracked) :
    Placed tr todo pending (insert n tracked) := by
  obtain ⟨hopen, hn, hp, -⟩ := h.head
  refine ⟨h.tail.todo_nodup, ?_, ?_, ?_⟩
  · intro x hx
    obtain ⟨hx', hp', ht'⟩ := h.tail.todo_open x hx
    refine ⟨hx', hp', ?_⟩
    intro ht
    rcases Finset.mem_insert.1 ht with rfl | ht
    · exact hn hx
    · exact ht' ht
  · intro x hx
    obtain ⟨hx', ht'⟩ := h.pending_open x hx
    refine ⟨hx', ?_⟩
    intro ht
    rcases Finset.mem_insert.1 ht with rfl | ht
    · exact hp hx
    · exact ht' ht
  · intro x hx
    rcases Finset.mem_insert.1 hx with rfl | hx
    · exact hopen
    · exact h.tracked_open x hx

theorem Placed.untrack (h : Placed tr todo pending tracked) (hn : n ∈ tracked) (ok : Bool) :
    tr.Open n ∧ Placed (tr ++ [markEvent ok n]) todo pending (tracked.erase n) := by
  have hp : n ∉ pending := fun hp => (h.pending_open n hp).2 hn
  have htodo : n ∉ todo := fun ht => (h.todo_open n ht).2.2 hn
  have hmark := h.mark htodo ok
  rw [Finset.erase_eq_of_notMem hp] at hmark
  exact ⟨h.tracked_open n hn, hmark⟩

/-- A batch that was just handed out is in no other place. -/
theorem Placed.took {f : StartupFrontier} (hi : FrontierInv g tr f)
    (h : Placed tr [] pending tracked) :
    Placed (tr ++ [.took f.readyToStart]) f.readyToStart pending tracked := by
  have hopen : ∀ x, tr.Open x →
      FrontierTrace.Open (tr ++ [.took f.readyToStart]) x := by
    intro x hx
    refine ⟨?_, ?_⟩
    · rw [FrontierTrace.returned_took]
      exact List.mem_append_left _ hx.1
    · unfold FrontierTrace.Marked
      rw [FrontierTrace.readied_took, FrontierTrace.failed_took]
      exact hx.2
  refine ⟨hi.queue_nodup, ?_, ?_, ?_⟩
  · intro x hx
    obtain ⟨-, -, hfresh, -⟩ := (hi.queue_iff x).1 hx
    refine ⟨⟨?_, ?_⟩, ?_, ?_⟩
    · rw [FrontierTrace.returned_took]
      exact List.mem_append_right _ hx
    · unfold FrontierTrace.Marked
      rw [FrontierTrace.readied_took, FrontierTrace.failed_took]
      exact fun hm => hfresh (hi.marked_returned x hm)
    · exact fun hp => hfresh (h.pending_open x hp).1.1
    · exact fun ht => hfresh (h.tracked_open x ht).1
  · exact fun x hx => ⟨hopen x (h.pending_open x hx).1, (h.pending_open x hx).2⟩
  · exact fun x hx => hopen x (h.tracked_open x hx)

end Placed

-- ==== the loop's runs

/-- The loop's history is a run of its frontier, and the services
between hand-out and mark are in their places. -/
structure Booked (g : DependencyGraph) (a : Startup × List String) :
    Prop where
  run : FrontierRun g (traceOf a.1.world.log) a.1.frontier
  placed : Placed (traceOf a.1.world.log) a.2 a.1.pendingOneshots
    a.1.readinessTrackers.keys
  launched : ∀ n failed, .launch n failed ∈ a.1.world.log →
    n ∈ (traceOf a.1.world.log).returned

theorem FrontierRun.mark {tr : FrontierTrace} {f : StartupFrontier}
    (h : FrontierRun g tr f) (hopen : tr.Open n)
    (order : DependentsOrder g) (ok : Bool) : FrontierRun g (tr ++ [markEvent ok n])
      (if ok then f.markReady n g order else f.markFailed n g order) := by
  cases ok with
  | true => exact h.markReady n order hopen.1 hopen.2
  | false => exact h.markFailed n order hopen.1 hopen.2

/-- A launch comes from the batch, so it was handed out. -/
theorem StartupMove.launched (hm : StartupMove World.Moves g a es b) (h : Booked g a) :
    ∀ n failed, .launch n failed ∈ b.1.world.log → n ∈ (traceOf b.1.world.log).returned := by
  intro n failed hn
  rw [← mem_ownLog rfl, hm.own, List.mem_append, mem_ownLog rfl] at hn
  have hret : n ∈ (traceOf a.1.world.log).returned := by
    rcases hn with hn | hn
    · exact h.launched n failed hn
    · have htodo := h.placed.todo_open
      cases hm with
      | skipped name hnone =>
        obtain ⟨rfl, -⟩ := Effect.launch.inj (List.mem_singleton.1 hn)
        exact (htodo n (List.mem_cons_self ..)).1.1
      | tracked name wk w tracker hl hr =>
        obtain ⟨rfl, -⟩ := Effect.launch.inj (List.mem_singleton.1 hn)
        exact (htodo n (List.mem_cons_self ..)).1.1
      | oneshot name wk w hl ht hr =>
        obtain ⟨rfl, -⟩ : n = name ∧ _ := by simpa using hn
        exact (htodo n (List.mem_cons_self ..)).1.1
      | immediate name wk w hl ht hr =>
        obtain ⟨rfl, -⟩ : n = name ∧ _ := by simpa using hn
        exact (htodo n (List.mem_cons_self ..)).1.1
      | settled name pid exit v hmem hv howner => exact absurd hn (by simp)
      | _ => exact absurd hn (by simp)
  rw [hm.trace]
  unfold FrontierTrace.returned
  rw [List.flatMap_append]
  exact List.mem_append_left _ hret

theorem StartupMove.booked (hm : StartupMove World.Moves g a es b) (h : Booked g a) :
    Booked g b := by
  have htrace := hm.trace
  have hlaunched := hm.launched h
  obtain ⟨hrun, hplaced, -⟩ := h
  suffices hsuff : FrontierRun g (traceOf a.1.world.log ++ traceOf es)
        b.1.frontier
      ∧ Placed (traceOf a.1.world.log ++ traceOf es) b.2
          b.1.pendingOneshots b.1.readinessTrackers.keys by
    rw [← htrace] at hsuff
    exact ⟨hsuff.1, hsuff.2, hlaunched⟩
  clear htrace hlaunched
  -- the loop's own effects are all that the frontier's history grows by
  cases hm with
  | env env =>
    show FrontierRun g (_ ++ []) _ ∧ Placed (_ ++ []) _ _ _
    rw [List.append_nil]
    exact ⟨hrun, hplaced⟩
  | world w hw =>
    show FrontierRun g (_ ++ []) _ ∧ Placed (_ ++ []) _ _ _
    rw [List.append_nil]
    exact ⟨hrun, hplaced⟩
  | @settled s todo name pid exit v hmem hv howner =>
    obtain ⟨hopen, ht⟩ := hplaced.pending_open name hmem
    have hn : name ∉ todo := fun h => (hplaced.todo_open name h).2.1 hmem
    have hp := hplaced.mark hn exit.isNormal
    have hr := hrun.mark hopen
      (fun d => v.env.iter .dependents (g.dependentsOf d)) exit.isNormal
    rw [Finset.erase_eq_of_notMem ht] at hp
    cases hexit : exit.isNormal with
    | true =>
      rw [hexit] at hp hr
      exact ⟨hr, hp⟩
    | false =>
      rw [hexit] at hp hr
      exact ⟨hr, hp⟩
  | took => exact ⟨hrun.takeReady, hplaced.took (frontierRun_inv hrun)⟩
  | skipped name hnone =>
    show FrontierRun g (_ ++ []) _ ∧ Placed (_ ++ []) _ _ _
    rw [List.append_nil]
    exact ⟨hrun, hplaced.tail⟩
  | oneshot name wk w hl ht hr =>
    show FrontierRun g (_ ++ []) _ ∧ Placed (_ ++ []) _ _ _
    rw [List.append_nil]
    exact ⟨hrun, hplaced.toPending⟩
  | immediate name wk w hl ht hr =>
    obtain ⟨hopen, hn, hp, ht⟩ := hplaced.head
    have hmark := hplaced.tail.mark hn true
    rw [Finset.erase_eq_of_notMem hp, Finset.erase_eq_of_notMem ht] at hmark
    exact ⟨hrun.mark hopen _ true, hmark⟩
  | tracked name wk w tracker hl hr =>
    show FrontierRun g (_ ++ []) _ ∧ Placed (_ ++ []) _ _ (Finmap.keys _)
    rw [List.append_nil, HashMap.keys_insert]
    exact ⟨hrun, hplaced.toTracked⟩
  | waiting name w hi =>
    show FrontierRun g (_ ++ []) _ ∧ Placed (_ ++ []) _ _ _
    rw [List.append_nil]
    exact ⟨hrun, hplaced⟩
  | checkedReady name w hmem hi =>
    obtain ⟨hopen, hmark⟩ := hplaced.untrack (Finmap.mem_keys.2 hmem) true
    rw [← Finmap.keys_erase] at hmark
    exact ⟨hrun.mark hopen _ true, hmark⟩
  | checkedFailed name w result hmem hi hr =>
    obtain ⟨hopen, hmark⟩ := hplaced.untrack (Finmap.mem_keys.2 hmem) false
    rw [← Finmap.keys_erase] at hmark
    exact ⟨hrun.mark hopen _ false, hmark⟩

theorem boot_booked (g : DependencyGraph) (tree : SupervisorTree)
    (services : IterOrder g.allServices) :
    Booked g ((Manager.boot g tree services).state, []) := by
  refine ⟨.new services, ⟨List.nodup_nil, ?_, ?_, ?_⟩, ?_⟩
  · exact fun n hn => absurd hn (List.not_mem_nil)
  · exact fun n hn => absurd hn (Finset.notMem_empty n)
  · exact fun n hn => absurd hn (Finset.notMem_empty n)
  · exact fun n failed hn => absurd hn (List.not_mem_nil)

/-- The startup loop is a run of its frontier. -/
theorem Manager.Reachable.booked {supervisors : List SupervisorDef}
    {services : List ServiceDef} {m : Manager} (h : Manager.Reachable supervisors services m)
    (hphase : m.phase ≠ .exited) : Booked (.build services) (m.state, []) :=
  h.invariant World.Moves.closed World.Moves.added (fun order => boot_booked _ _ order)
    (fun _ _ _ hm => hm.booked) hphase

/-- What the startup loop launches requires only what it marked ready,
along every chain. -/
theorem Booked.launched_requires
    (h : Booked g a) {d : String} {failed : Bool} (hn : .launch n failed ∈ a.1.world.log)
    (hchain : Relation.TransGen g.Requires n d) : .frontier (.ready d) ∈ a.1.world.log := by
  have hinv := frontierRun_inv h.run
  have hmet := (hinv.returned_met n (h.launched n failed hn)).2
  exact mem_traceOf.1 (FrontierTrace.mem_readied.1 (settled_requires hinv.readied_met hmet hchain))

end Dynamod.Svmgr
