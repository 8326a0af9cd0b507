/-
Which process belongs to which worker, over whole runs.

`Tracked` is the bookkeeping the manager needs to find its children
again: the pid map and the workers' `pid` fields are inverse to each
other, and the pid map lists exactly the live children. Every move
keeps it except one: starting a worker that already holds a process.
`register_pid` overwrites the old pid, and the old process keeps
running with nobody's `pid` naming it.

So the invariant is proved under a guard on the history: no call of
`start_worker` found a process in place.
-/
import Dynamod.Svmgr.Proofs.Build
import Dynamod.Svmgr.Proofs.StartupMoves

namespace Dynamod.Svmgr

open Lib SupervisorTree

variable {w w' : World} {id n : NodeId} {p : Pid} {exit : ExitInfo} {by_ : Reaper}

namespace World

/-- The process a worker holds. -/
def pidOf (w : World) (n : NodeId) : Option Pid :=
  (w.tree.getWorker n).bind WorkerNode.pid

/-- The process of a worker is part of its core. -/
theorem pidOf_eq_core (w : World) (n : NodeId) :
    w.pidOf n = (w.tree.coreOf n).bind WorkerNode.pid := by
  unfold pidOf coreOf
  cases w.tree.getWorker n <;> rfl

/-- The definition a worker was added with. -/
def defOf (w : World) (n : NodeId) : Option ServiceDef :=
  (w.tree.getWorker n).map WorkerNode.svcDef

theorem defOf_eq_core (w : World) (n : NodeId) :
    w.defOf n = (w.tree.coreOf n).map WorkerNode.svcDef := by
  unfold defOf coreOf
  cases w.tree.getWorker n <;> rfl

/-- The pid map and the `pid` fields are inverse to each other, and
list exactly the live children. -/
structure Tracked (w : World) : Prop where
  live_iff : ∀ p, p ∈ w.live ↔ ∃ n, w.tree.pidMap.lookup p = some n
  pid_iff : ∀ n p, w.pidOf n = some p ↔ w.tree.pidMap.lookup p = some n

/-- Every child has one worker that names it, every name is that of a
child, and no worker has two. -/
structure OneProcessEach (w : World) : Prop where
  owned : ∀ p ∈ w.live,
    ∃! n, w.tree.pidMap.lookup p = some n ∧ w.pidOf n = some p
  held : ∀ n p, w.pidOf n = some p →
    p ∈ w.live ∧ w.tree.pidMap.lookup p = some n
  mapped : ∀ p n, w.tree.pidMap.lookup p = some n →
    p ∈ w.live ∧ w.pidOf n = some p
  single : ∀ n p q, p ∈ w.live → q ∈ w.live →
    w.tree.pidMap.lookup p = some n → w.tree.pidMap.lookup q = some n → p = q

/-- Inverse maps: a worker has one process, a process one worker. -/
theorem Tracked.oneProcessEach (h : Tracked w) : OneProcessEach w := by
  refine ⟨?_, ?_, ?_, ?_⟩
  · intro p hp
    obtain ⟨n, hn⟩ := (h.live_iff p).1 hp
    refine ⟨n, ⟨hn, (h.pid_iff n p).2 hn⟩, ?_⟩
    intro m hm
    exact Option.some.inj (hm.1.symm.trans hn)
  · intro n p hp
    have hn := (h.pid_iff n p).1 hp
    exact ⟨(h.live_iff p).2 ⟨n, hn⟩, hn⟩
  · intro p n hn
    exact ⟨(h.live_iff p).2 ⟨n, hn⟩, (h.pid_iff n p).2 hn⟩
  · intro n p q _ _ hp hq
    have hp' := (h.pid_iff n p).2 hp
    rw [(h.pid_iff n q).2 hq] at hp'
    exact (Option.some.inj hp').symm

-- ==== what a move does to it

/-- It is about the live processes, the map and the workers. -/
theorem Tracked.congr (h : Tracked w)
    (hlive : w'.live = w.live) (hmap : w'.tree.pidMap = w.tree.pidMap)
    (hpid : ∀ n, w'.pidOf n = w.pidOf n) : Tracked w' := by
  refine ⟨?_, ?_⟩
  · intro p
    rw [hlive, hmap]
    exact h.live_iff p
  · intro n p
    rw [hpid, hmap]
    exact h.pid_iff n p

theorem Quiet.pidOf (h : Quiet w w') (n : NodeId) : w'.pidOf n = w.pidOf n := by
  rw [pidOf_eq_core, pidOf_eq_core, h.tree.worker]

theorem Quiet.defOf (h : Quiet w w') (n : NodeId) : w'.defOf n = w.defOf n := by
  rw [defOf_eq_core, defOf_eq_core, h.tree.worker]

theorem Started.pidOf {held : Option Pid} (h : Started w w' id held p) (n : NodeId) :
    w'.pidOf n = if n = id then some p else w.pidOf n := by
  obtain ⟨wk, hwk, -⟩ := h.worker
  rw [pidOf_eq_core, pidOf_eq_core, h.core]
  by_cases hn : n = id
  · rw [if_pos hn, if_pos hn]
    unfold coreOf
    rw [hwk]
    rfl
  · rw [if_neg hn, if_neg hn]

theorem Exited.pidOf (h : Exited w w' id p exit by_) (n : NodeId) :
    w'.pidOf n = if n = id then none else w.pidOf n := by
  rw [pidOf_eq_core, pidOf_eq_core, h.core]
  by_cases hn : n = id
  · rw [if_pos hn, if_pos hn]
    cases w.tree.coreOf id <;> rfl
  · rw [if_neg hn, if_neg hn]

theorem Added.pidOf {wk : WorkerNode}
    (h : Added w w' id wk) (n : NodeId) : w'.pidOf n = w.pidOf n := by
  rw [pidOf_eq_core, pidOf_eq_core, h.core]
  by_cases hn : n = id
  · rw [if_pos hn, hn, coreOf_eq_none.2 h.absent]
    exact h.idle
  · rw [if_neg hn]

/-- A fresh process is entered on both sides, if the worker held none. -/
theorem Tracked.started (ht : Tracked w) (h : Started w w' id none p) : Tracked w' := by
  have hidle : w.pidOf id = none := by
    obtain ⟨wk, hwk, hpid⟩ := h.worker
    unfold World.pidOf
    rw [hwk]
    exact hpid
  refine ⟨?_, ?_⟩
  · intro q
    rw [h.live, h.pidMap, HashMap.lookup_insert_ite, Finset.mem_insert]
    by_cases hq : q = p
    · simp [hq]
    · simp only [hq, false_or, if_false]
      exact ht.live_iff q
  · intro n q
    rw [h.pidOf, h.pidMap, HashMap.lookup_insert_ite]
    by_cases hn : n = id
    · rw [if_pos hn, Option.some.injEq]
      by_cases hq : q = p
      · simp [hq, hn]
      · rw [if_neg hq]
        refine iff_of_false (fun h => hq h.symm) ?_
        intro hlookup
        rw [hn, ← ht.pid_iff, hidle] at hlookup
        cases hlookup
    · rw [if_neg hn]
      by_cases hq : q = p
      · rw [if_pos hq, Option.some.injEq]
        refine iff_of_false ?_ (fun h => hn h.symm)
        intro hpid
        have hlive := (ht.live_iff q).2 ⟨n, (ht.pid_iff n q).1 hpid⟩
        exact h.fresh (hq ▸ hlive)
      · rw [if_neg hq]
        exact ht.pid_iff n q

/-- An exit is taken off on both sides. -/
theorem Tracked.exited (ht : Tracked w) (h : Exited w w' id p exit by_) : Tracked w' := by
  have hheld : w.pidOf id = some p := (ht.pid_iff id p).2 h.owner
  refine ⟨?_, ?_⟩
  · intro q
    rw [h.live, h.pidMap, HashMap.lookup_erase_ite, Finset.mem_erase]
    by_cases hq : q = p
    · simp [hq]
    · rw [if_neg hq]
      simp only [ne_eq, hq, not_false_iff, true_and]
      exact ht.live_iff q
  · intro n q
    rw [h.pidOf, h.pidMap, HashMap.lookup_erase_ite]
    by_cases hn : n = id
    · rw [if_pos hn]
      refine iff_of_false (by simp) ?_
      by_cases hq : q = p
      · simp [hq]
      · rw [if_neg hq, hn, ← ht.pid_iff, hheld]
        exact fun h => hq (Option.some.inj h).symm
    · rw [if_neg hn]
      by_cases hq : q = p
      · rw [if_pos hq]
        refine iff_of_false ?_ (by simp)
        rw [ht.pid_iff, hq, h.owner]
        exact fun h => hn (Option.some.inj h).symm
      · rw [if_neg hq]
        exact ht.pid_iff n q

-- ==== under a guarded history

/-- No call of `start_worker` found a process in place. -/
def Guarded (log : List Effect) : Prop := ∀ n p, .start n (some p) ∉ log

theorem Guarded.of_prefix {l l' : List Effect} (h : Guarded l') (hl : l <+: l') : Guarded l :=
  fun n p hmem => h n p (hl.subset hmem)

/-- Tracked, as long as the history is guarded. -/
def TrackedIfGuarded (w : World) : Prop := Guarded w.log → Tracked w

/-- A move breaks it only by a start that is not guarded. -/
theorem TrackedIfGuarded.move (h : TrackedIfGuarded w) (hm : Move w w') :
    TrackedIfGuarded w' := by
  intro hg
  have ht := h (hg.of_prefix hm.later.log)
  cases hm with
  | quiet hq => exact ht.congr hq.live hq.tree.pidMap hq.pidOf
  | started id held p hs =>
    cases held with
    | none => exact ht.started hs
    | some q =>
      refine absurd ?_ (hg id q)
      rw [hs.log]
      simp
  | exited id p exit he => exact ht.exited he
  | lost p hl =>
    -- every live child is in the pid map
    obtain ⟨n, hn⟩ := (ht.live_iff p).1 hl.mem
    rw [hl.owner] at hn
    cases hn
  | added id wk ha => exact ht.congr ha.live ha.pidMap ha.pidOf

theorem TrackedIfGuarded.moves (h : TrackedIfGuarded w)
    (hm : Moves w w') : TrackedIfGuarded w' := by
  induction hm with
  | refl => exact h
  | tail _ hm ih => exact ih.move hm

end World

open World

theorem StartupMove.keepsTracked {g : DependencyGraph}
    {a b : Startup × List String} {es : List Effect} (hm : StartupMove World.Moves g a es b) :
    TrackedIfGuarded a.1.world → TrackedIfGuarded b.1.world := by
  refine StartupMove.world_rel
    (R := fun w w' => TrackedIfGuarded w → TrackedIfGuarded w')
    Moves.closed (fun hm h => h.moves hm) (fun h h' ht => h' (h ht)) ?_ ?_ ?_ hm
  · intro w v p id exit hv hid h hg
    have he := exitWorker_exited hv hid exit .startup
    exact (h (hg.of_prefix ⟨_, he.log.symm⟩)).exited he
  · intro w e h hg
    exact (h (hg.of_prefix (List.prefix_append w.log [e]))).congr
      rfl rfl fun _ => rfl
  · intro w env h hg
    exact (h hg).congr rfl rfl fun _ => rfl

-- ==== definitions stay as they are

namespace World

/-- The definition of `n` is what it was, or a reload has added `n`. -/
def KeepsDef (n : NodeId) (w w' : World) : Prop :=
  w.log <+: w'.log ∧ (w'.defOf n = w.defOf n
    ∨ w.defOf n = none ∧ .joined n ∈ w'.log)

theorem KeepsDef.of_eq (hl : w.log <+: w'.log)
    (h : w'.defOf n = w.defOf n) : KeepsDef n w w' := ⟨hl, .inl h⟩

/-- Two changes in a row. -/
theorem KeepsDef.trans {u v : World} (h : KeepsDef n u v)
    (h' : KeepsDef n v w) : KeepsDef n u w := by
  obtain ⟨hl, hd⟩ := h
  obtain ⟨hl', hd'⟩ := h'
  refine ⟨hl.trans hl', ?_⟩
  rcases hd with hd | ⟨hnone, hj⟩
  · rw [← hd]
    exact hd'
  · exact .inr ⟨hnone, hl'.subset hj⟩

theorem Exited.defOf (h : Exited w w' id p exit by_) (n : NodeId) : w'.defOf n = w.defOf n := by
  rw [defOf_eq_core, defOf_eq_core, h.core]
  by_cases hn : n = id
  · rw [if_pos hn, hn]
    cases w.tree.coreOf id <;> rfl
  · rw [if_neg hn]

/-- A move writes no definition; at most a worker joins. -/
theorem Move.keepsDef (h : Move w w') (n : NodeId) : KeepsDef n w w' := by
  have hlog := h.later.log
  cases h with
  | quiet hq => exact .of_eq hlog (hq.defOf n)
  | started id held p hs =>
    refine .of_eq hlog ?_
    rw [defOf_eq_core, defOf_eq_core, hs.core]
    by_cases hn : n = id
    · rw [if_pos hn, hn]
      cases w.tree.coreOf id <;> rfl
    · rw [if_neg hn]
  | exited id p exit he => exact .of_eq hlog (he.defOf n)
  | lost p hl =>
    refine .of_eq hlog ?_
    unfold World.defOf
    rw [hl.tree]
  | added id wk ha =>
    by_cases hn : n = id
    · refine ⟨hlog, .inr ⟨?_, ?_⟩⟩
      · unfold World.defOf
        rw [hn, ha.absent]
        rfl
      · rw [ha.log, hn]
        simp
    · refine .of_eq hlog ?_
      rw [defOf_eq_core, defOf_eq_core, ha.core, if_neg hn]

theorem Moves.keepsDef (h : Moves w w') (n : NodeId) : KeepsDef n w w' := by
  induction h with
  | refl => exact .of_eq (List.prefix_refl _) rfl
  | tail _ hm ih => exact ih.trans (hm.keepsDef n)

end World

theorem StartupMove.keepsDef {g : DependencyGraph}
    {a b : Startup × List String} {es : List Effect} (hm : StartupMove World.Moves g a es b)
    (n : NodeId) : KeepsDef n a.1.world b.1.world :=
  hm.world_rel Moves.closed (fun hm => hm.keepsDef n) (fun h h' => h.trans h')
    (fun exit hv hid =>
      have he := exitWorker_exited hv hid exit .startup
      .of_eq ⟨_, he.log.symm⟩ (he.defOf n))
    (fun w e => .of_eq (List.prefix_append w.log [e]) rfl)
    (fun _ _ => .of_eq (List.prefix_refl _) rfl)

-- ==== the boot tree

/-- A tree in which nothing runs and every worker comes from a
definition under its own name. -/
structure SupervisorTree.Booted (services : List ServiceDef)
    (t : SupervisorTree) : Prop where
  pidMap : t.pidMap = ∅
  worker : ∀ n wk, t.getWorker n = some wk →
    wk.pid = none ∧ wk.svcDef ∈ services ∧ wk.svcDef.service.name = n

theorem SupervisorTree.Booted.inserted {services : List ServiceDef}
    {t t' : SupervisorTree} {name parentId : NodeId} {parent : SupervisorNode}
    {node : TreeNode} (h : t.Booted services) (hi : Inserted t t' name parentId parent node)
    (hnode : ∀ wk, node.worker? = some wk →
      wk.pid = none ∧ wk.svcDef ∈ services ∧ wk.svcDef.service.name = name) :
    t'.Booted services := by
  refine ⟨hi.pidMap.trans h.pidMap, ?_⟩
  intro n wk hwk
  rw [hi.getWorker] at hwk
  split at hwk
  · next hn =>
    rw [hn]
    exact hnode wk hwk
  · exact h.worker n wk hwk

/-- The boot tree, insertion by insertion. -/
theorem buildTree_booted (supervisors : List SupervisorDef) (services : List ServiceDef) :
    (buildTree supervisors services).Booted services := by
  apply buildTree_insertions
  · refine ⟨rfl, ?_⟩
    intro n wk hwk
    rw [getWorker_eq, rootTree, lookup_new] at hwk
    split at hwk
    · cases hwk
    · cases hwk
  · intro t f _ ht
    refine ⟨ht.pidMap, ?_⟩
    intro n wk hwk
    rw [getWorker_modifySupervisor] at hwk
    exact ht.worker n wk hwk
  · intro t t' d parent hi ht
    apply ht.inserted hi
    intro wk hwk
    cases hwk
  · intro t t' d hd parentId parent i hi ht
    apply ht.inserted hi
    intro wk hwk
    cases hwk
    exact ⟨rfl, hd, rfl⟩

/-- Nothing runs yet. -/
theorem boot_tracked (supervisors : List SupervisorDef) (services : List ServiceDef) :
    Tracked { tree := buildTree supervisors services } := by
  have hidle := buildTree_booted supervisors services
  have hpid : ∀ n, World.pidOf { tree := buildTree supervisors services } n
      = none := by
    intro n
    unfold World.pidOf
    cases hwk : (buildTree supervisors services).getWorker n with
    | none => rfl
    | some wk => exact (hidle.worker n wk hwk).1
  refine ⟨?_, ?_⟩
  · intro p
    rw [hidle.pidMap]
    simp
  · intro n p
    rw [hpid]
    rw [hidle.pidMap]
    simp

/-- Every worker comes from a boot-time definition under its own name,
or a reload has added it. -/
theorem reachable_defOf {supervisors : List SupervisorDef}
    {services : List ServiceDef} {m : Manager} (h : Manager.Reachable supervisors services m)
    (hphase : m.phase ≠ .exited) {d : ServiceDef} (hd : m.state.world.defOf n = some d) :
    (d ∈ services ∧ d.service.name = n) ∨ .joined n ∈ m.state.world.log := by
  have hinv := Manager.Reachable.invariant
    (I := fun a => ∀ d, a.1.world.defOf n = some d →
      (d ∈ services ∧ d.service.name = n) ∨ .joined n ∈ a.1.world.log)
    Moves.closed Moves.added ?_ ?_ h hphase
  · exact hinv d hd
  · intro order d hd
    obtain ⟨wk, hwk, rfl⟩ := Option.map_eq_some_iff.1 hd
    exact .inl ((buildTree_booted supervisors services).worker n wk hwk).2
  · intro a es b hm ih d hd
    obtain ⟨hlog, heq | ⟨-, hj⟩⟩ := hm.keepsDef n
    · rcases ih d (heq.symm.trans hd) with hboot | hj
      · exact .inl hboot
      · exact .inr (hlog.subset hj)
    · exact .inr hj

-- ==== the runs

/-- As long as every `start_worker` call is made for a worker without
a process, every state of the startup loop and the main loop has one
process for each worker that names one and one worker for each
process. -/
theorem guarded_run_tracked {supervisors : List SupervisorDef}
    {services : List ServiceDef} {m : Manager} (h : Manager.Reachable supervisors services m)
    (hphase : m.phase ≠ .exited) (hguard : Guarded m.state.world.log) :
    OneProcessEach m.state.world := by
  have hinv := Manager.Reachable.invariant
    (I := fun a => TrackedIfGuarded a.1.world) Moves.closed Moves.added
    (fun _ _ => boot_tracked supervisors services)
    (fun _ _ _ hm => hm.keepsTracked) h hphase
  exact (hinv hguard).oneProcessEach

-- ==== a service started twice

/-- One long-running service. -/
def soloDef : ServiceDef :=
  { service := { name := "a", exec := ["/bin/a"] } }

def soloGraph : DependencyGraph := .build [soloDef]

theorem solo_acyclic : soloGraph.Acyclic :=
  DependencyGraph.acyclic_of_rank (fun _ => 0) (by decide)

/-- The startup loop has reaped nothing yet. -/
def soloBooted : Startup :=
  ((Manager.boot soloGraph (buildTree [] [soloDef])
    (IterOrder.sorted _)).state.withEnv {}).reapOneshotsDuringStartup soloGraph

/-- `a` runs as process 100 and startup is complete. -/
def soloRunning : Startup :=
  (((soloBooted.withEnv { forks := [some 100] }).startBatch
    soloGraph).withEnv {}).pollReadiness soloGraph

theorem solo_reachable : Manager.Reachable [] [soloDef] ⟨.mainReap, soloRunning⟩ := by
  have hdone : soloRunning.done := by
    unfold Startup.done
    decide
  exact Manager.oneBatch_reachable solo_acyclic hdone

theorem solo_log : soloRunning.world.log
    = [.frontier (.took ["a"]), .start "a" none, .spawned "a" 100,
        .launch "a" false, .frontier (.ready "a")] := by
  decide

/-- A run within the guard. -/
theorem solo_run_tracked : Manager.Reachable [] [soloDef] ⟨.mainReap, soloRunning⟩
    ∧ Guarded soloRunning.world.log ∧ OneProcessEach soloRunning.world := by
  have hguard : Guarded soloRunning.world.log := by
    intro n p
    rw [solo_log]
    simp
  exact ⟨solo_reachable, hguard, guarded_run_tracked solo_reachable (by simp) hguard⟩

/-- The manager after a `StartService` request for `a`, which already
runs: a second fork answers 101. -/
def soloDoubled : World :=
  (({ soloRunning with
      world := (soloRunning.withEnv {}).world.reapChildren }.withEnv
    { forks := [some 101] }).world.startWorker "a").2

/-- Both processes of `a` are alive and registered, and `a` names only
the second. -/
theorem solo_started_twice : (∃ m, Manager.Reachable [] [soloDef] m ∧ m.phase ≠ .exited
      ∧ m.state.world = soloDoubled)
    ∧ 100 ∈ soloDoubled.live ∧ 101 ∈ soloDoubled.live
    ∧ soloDoubled.tree.pidMap.lookup 100 = some "a"
    ∧ soloDoubled.tree.pidMap.lookup 101 = some "a"
    ∧ soloDoubled.pidOf "a" = some 101
    ∧ ¬ OneProcessEach soloDoubled := by
  have hlive : (100 : Pid) ∈ soloDoubled.live := by decide
  have hlive' : (101 : Pid) ∈ soloDoubled.live := by decide
  have hmap : soloDoubled.tree.pidMap.lookup 100 = some "a" := by decide
  have hmap' : soloDoubled.tree.pidMap.lookup 101 = some "a" := by decide
  refine ⟨?_, hlive, hlive', hmap, hmap', by decide, ?_⟩
  · have hreap := solo_reachable.step (.mainReap _ {})
    have hlisten := hreap.step (.mainListen _ [.startService "a"])
    refine ⟨_, hlisten.step (.act _ { forks := [some 101] } false (.startService "a") []
        soloDoubled rfl), by simp, rfl⟩
  · intro h
    exact absurd (h.single "a" 100 101 hlive hlive' hmap hmap') (by decide)

end Dynamod.Svmgr
