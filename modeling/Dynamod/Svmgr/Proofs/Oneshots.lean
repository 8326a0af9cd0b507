/-
What the startup loop waits for.

A name in `pending_oneshots` leaves it only when the startup reaper
sees the exit of its process. `HeldMapped` holds in every run: a
process a worker names is alive and registered for it. So the loop
waits in vain exactly for a pending worker without a process, and there
are two ways to get there:

  - the name is inserted although its spawn failed;
  - a nested reaper, in a group restart or in the wait of
    `RestartService`, reaps the exit and knows nothing of
    `pending_oneshots`.

`Watched` excludes both on the history, and `pending_held` is the
invariant under it.
-/
import Dynamod.Svmgr.Proofs.Tracking

namespace Dynamod.Svmgr

open Lib SupervisorTree

variable {w w' : World} {id : NodeId} {g : DependencyGraph}
  {a b : Startup × List String} {es : List Effect}

-- ==== the history

/-- What one effect does to the oneshots waited for. -/
def awaitedStep (waiting : Finset NodeId) : Effect → Finset NodeId
  | .awaiting n => insert n waiting
  | .exited n _ _ .startup => waiting.erase n
  | _ => waiting

/-- The oneshots a history leaves waited for. -/
def awaited (log : List Effect) : Finset NodeId := log.foldl awaitedStep ∅

theorem awaited_append (log es : List Effect) :
    awaited (log ++ es) = es.foldl awaitedStep (awaited log) :=
  List.foldl_append

/-- The startup loop's own part of a history says what is waited for. -/
theorem awaited_ownLog (log : List Effect) : awaited (ownLog log) = awaited log := by
  unfold awaited ownLog
  generalize (∅ : Finset NodeId) = waiting
  induction log generalizing waiting with
  | nil => rfl
  | cons e log ih =>
    cases he : e.ofMove with
    | false =>
      rw [List.filter_cons_of_pos (by rw [he]; rfl)]
      exact ih _
    | true =>
      rw [List.filter_cons_of_neg (by rw [he]; decide), ih, List.foldl_cons]
      congr 1
      cases e with
      | awaiting n => cases he
      | exited n p exit by_ =>
        cases by_ with
        | supervisor => rfl
        | startup => cases he
      | _ => rfl

theorem awaited_congr (h : ownLog w'.log = ownLog w.log) : awaited w'.log = awaited w.log := by
  rw [← awaited_ownLog, h, awaited_ownLog]

/-- The history never waits for a oneshot whose spawn failed, and no
nested reaper takes the exit of one that is waited for. -/
structure Watched (log : List Effect) : Prop where
  spawned : ∀ n,
    ¬ [.start n none, .spawnFailed n, .launch n true, .awaiting n] <:+: log
  reaped : ∀ pre n p exit, pre ++ [.exited n p exit .supervisor] <+: log →
    n ∉ awaited pre

theorem Watched.of_prefix {l l' : List Effect} (h : Watched l') (hl : l <+: l') : Watched l := by
  refine ⟨?_, ?_⟩
  · exact fun n hn => h.spawned n (hn.trans hl.isInfix)
  · exact fun pre n p exit hpre => h.reaped pre n p exit (hpre.trans hl)

-- ==== processes are mapped

namespace World

/-- A process a worker names is alive and registered for it. -/
def HeldMapped (w : World) : Prop :=
  ∀ n p, w.pidOf n = some p → w.tree.pidMap.lookup p = some n ∧ p ∈ w.live

theorem HeldMapped.congr (h : HeldMapped w)
    (hlive : w'.live = w.live) (hmap : w'.tree.pidMap = w.tree.pidMap)
    (hpid : ∀ n, w'.pidOf n = w.pidOf n) : HeldMapped w' := by
  intro n p hp
  rw [hpid] at hp
  rw [hlive, hmap]
  exact h n p hp

/-- A fresh process takes nothing away from the others. -/
theorem HeldMapped.started {held : Option Pid} {q : Pid} (h : HeldMapped w)
    (hs : Started w w' id held q) : HeldMapped w' := by
  intro n p hp
  rw [hs.pidOf] at hp
  rw [hs.live, hs.pidMap, HashMap.lookup_insert_ite, Finset.mem_insert]
  by_cases hn : n = id
  · rw [if_pos hn] at hp
    cases hp
    exact ⟨by rw [if_pos rfl, hn], .inl rfl⟩
  · rw [if_neg hn] at hp
    obtain ⟨hmap, hlive⟩ := h n p hp
    have hne : p ≠ q := by
      intro heq
      exact hs.fresh (heq ▸ hlive)
    exact ⟨by rw [if_neg hne]; exact hmap, .inr hlive⟩

/-- An exit takes only the process it reports. -/
theorem HeldMapped.exited {q : Pid}
    {exit : ExitInfo} {by_ : Reaper} (h : HeldMapped w)
    (he : Exited w w' id q exit by_) : HeldMapped w' := by
  intro n p hp
  rw [he.pidOf] at hp
  rw [he.live, he.pidMap, HashMap.lookup_erase_ite, Finset.mem_erase]
  by_cases hn : n = id
  · rw [if_pos hn] at hp
    cases hp
  · rw [if_neg hn] at hp
    obtain ⟨hmap, hlive⟩ := h n p hp
    have hne : p ≠ q := by
      intro heq
      rw [heq, he.owner] at hmap
      exact hn (Option.some.inj hmap).symm
    exact ⟨by rw [if_neg hne]; exact hmap, hne, hlive⟩

theorem HeldMapped.move (h : HeldMapped w) (hm : Move w w') : HeldMapped w' := by
  cases hm with
  | quiet hq => exact h.congr hq.live hq.tree.pidMap hq.pidOf
  | started id held p hs => exact h.started hs
  | exited id p exit he => exact h.exited he
  | lost q hl =>
    intro n p hp
    have hpid : w'.pidOf n = w.pidOf n := by
      unfold World.pidOf
      rw [hl.tree]
    rw [hpid] at hp
    obtain ⟨hmap, hlive⟩ := h n p hp
    have hne : p ≠ q := by
      intro heq
      rw [heq, hl.owner] at hmap
      cases hmap
    rw [hl.tree, hl.live]
    exact ⟨hmap, Finset.mem_erase.2 ⟨hne, hlive⟩⟩
  | added id wk ha => exact h.congr ha.live ha.pidMap ha.pidOf

theorem HeldMapped.moves (h : HeldMapped w) (hm : Moves w w') : HeldMapped w' := by
  induction hm with
  | refl => exact h
  | tail _ hm ih => exact ih.move hm

-- ==== what is waited for is held

/-- In a watched history, what is waited for has a process. -/
def AwaitedHeld (w : World) : Prop :=
  Watched w.log → ∀ n ∈ awaited w.log, (w.pidOf n).isSome = true

theorem AwaitedHeld.congr (h : AwaitedHeld w)
    (hlog : w.log <+: w'.log) (hwait : awaited w'.log = awaited w.log)
    (hpid : ∀ n, w'.pidOf n = w.pidOf n) : AwaitedHeld w' := by
  intro hw n hn
  rw [hwait] at hn
  rw [hpid]
  exact h (hw.of_prefix hlog) n hn

theorem AwaitedHeld.move (h : AwaitedHeld w) (hm : Move w w') : AwaitedHeld w' := by
  have hlog := hm.later.log
  have hwait := awaited_congr (Moves.own (.single hm))
  cases hm with
  | quiet hq => exact h.congr hlog hwait hq.pidOf
  | started id held p hs =>
    intro hw n hn
    rw [hwait] at hn
    rw [hs.pidOf]
    split
    · rfl
    · exact h (hw.of_prefix hlog) n hn
  | exited id p exit he =>
    intro hw n hn
    rw [hwait] at hn
    have hne : n ≠ id := by
      intro heq
      refine hw.reaped w.log id p exit ?_ (heq ▸ hn)
      rw [he.log]
    rw [he.pidOf, if_neg hne]
    exact h (hw.of_prefix hlog) n hn
  | lost p hl =>
    refine h.congr hlog hwait ?_
    intro n
    unfold World.pidOf
    rw [hl.tree]
  | added id wk ha => exact h.congr hlog hwait ha.pidOf

theorem AwaitedHeld.moves (h : AwaitedHeld w) (hm : Moves w w') : AwaitedHeld w' := by
  induction hm with
  | refl => exact h
  | tail _ hm ih => exact ih.move hm

/-- The startup reaper stops waiting for the oneshot it settles. -/
theorem AwaitedHeld.settled {p : Pid}
    {exit : ExitInfo} (h : AwaitedHeld w)
    (he : Exited w w' id p exit .startup) : AwaitedHeld w' := by
  intro hw n hn
  rw [he.log, awaited_append] at hn
  obtain ⟨hne, hn⟩ := Finset.mem_erase.1 hn
  rw [he.pidOf, if_neg hne]
  exact h (hw.of_prefix ⟨_, he.log.symm⟩) n hn

end World

open World

-- ==== the startup loop

theorem World.AwaitedHeld.note (h : AwaitedHeld w) {e : Effect}
    (he : ∀ s, awaitedStep s e = s) : AwaitedHeld (w.note e) := by
  refine h.congr (List.prefix_append w.log [e]) ?_ fun _ => rfl
  exact (awaited_append w.log [e]).trans (he _)

theorem Launched.awaitedHeld {s : Startup} {name : String}
    {wk : WorkerNode} (hl : Launched s name wk w) (h : AwaitedHeld s.world) : AwaitedHeld w :=
  ((h.moves (Moves.closed.startWorker s.world name)).note fun _ => rfl).moves
    hl.idle.quiet.moves

/-- A oneshot that was launched and is now waited for has a process,
unless the spawn failed. -/
theorem Launched.held {s : Startup} {name : String} {wk : WorkerNode}
    (hl : Launched s name wk w) (hw : Watched (w.note (.awaiting name)).log) :
    (w.pidOf name).isSome = true := by
  have hpid : w.pidOf name = (s.world.startWorker name).2.pidOf name :=
    hl.idle.quiet.pidOf name
  rw [hpid]
  rcases s.world.startWorker_cases name with
    ⟨hnone, heq, -⟩ | ⟨v, hv, hq, hlog, hfails⟩ | ⟨held, p, hs, -⟩
  · have hsome := hl.worker
    rw [heq, hnone] at hsome
    cases hsome
  · -- the spawn failed: the process, if there is one, is an older one
    rw [hq.pidOf]
    have hheld : s.world.pidOf name = v.pid := by
      unfold World.pidOf
      rw [hv]
      rfl
    rw [hheld]
    cases hvp : v.pid with
    | some p => rfl
    | none =>
      refine absurd ?_ (hw.spawned name)
      refine ⟨s.world.log, [], ?_⟩
      show _ = w.log ++ [_]
      rw [hl.idle.log]
      show _ = (s.world.startWorker name).2.log ++ [_] ++ [_]
      rw [hlog, hvp, hfails]
      simp
  · rw [hs.pidOf, if_pos rfl]
    rfl

/-- The bookkeeping of the oneshots. -/
structure OneshotInv (s : Startup) : Prop where
  pending : s.pendingOneshots = awaited s.world.log
  held : AwaitedHeld s.world
  mapped : HeldMapped s.world

theorem StartupMove.mapped (hm : StartupMove World.Moves g a es b) :
    HeldMapped a.1.world → HeldMapped b.1.world :=
  StartupMove.world_rel (R := fun w w' => HeldMapped w → HeldMapped w')
    Moves.closed (fun hm h => HeldMapped.moves h hm) (fun h h' hw => h' (h hw))
    (fun exit hv hid h => HeldMapped.exited h (exitWorker_exited hv hid exit .startup))
    (fun _ _ h => h) (fun _ _ h => h) hm

theorem StartupMove.pending (hm : StartupMove World.Moves g a es b) :
    b.1.pendingOneshots = es.foldl awaitedStep a.1.pendingOneshots := by
  cases hm with
  | settled name pid exit v hmem hv howner =>
    split <;> rfl
  | _ => rfl

theorem StartupMove.awaitedHeld (hm : StartupMove World.Moves g a es b)
    (h : AwaitedHeld a.1.world) : AwaitedHeld b.1.world := by
  cases hm with
  | env env => exact h
  | world w hw => exact h.moves hw
  | settled name pid exit v hmem hv howner =>
    have hheld := h.settled (exitWorker_exited hv howner exit .startup)
    split
    · exact hheld.note fun _ => rfl
    · exact hheld.note fun _ => rfl
  | took => exact h.note fun _ => rfl
  | skipped name hnone => exact h.note fun _ => rfl
  | oneshot name wk w hl ht hr =>
    intro hw n hn
    rcases Finset.mem_insert.1
      ((awaited_append w.log [.awaiting name]) ▸ hn) with rfl | hn
    · exact hl.held hw
    · exact hl.awaitedHeld h (hw.of_prefix (List.prefix_append _ _)) n hn
  | immediate name wk w hl ht hr => exact (hl.awaitedHeld h).note fun _ => rfl
  | tracked name wk w tracker hl hr => exact hl.awaitedHeld h
  | waiting name w hi => exact (h.moves hi.quiet.moves).note fun _ => rfl
  | checkedReady name w hmem hi =>
    exact ((h.moves hi.quiet.moves).note fun _ => rfl).note fun _ => rfl
  | checkedFailed name w result hmem hi hr =>
    exact ((h.moves hi.quiet.moves).note fun _ => rfl).note fun _ => rfl

theorem StartupMove.oneshotInv
    (hm : StartupMove World.Moves g a es b) (h : OneshotInv a.1) : OneshotInv b.1 := by
  refine ⟨?_, hm.awaitedHeld h.held, hm.mapped h.mapped⟩
  rw [hm.pending, h.pending, ← awaited_ownLog b.1.world.log, hm.own,
    awaited_append, awaited_ownLog]

-- ==== the runs

/-- In every state of a run whose history is watched, a pending oneshot
has a process, registered for it and not yet reaped. -/
theorem pending_held {supervisors : List SupervisorDef}
    {services : List ServiceDef} {m : Manager} (h : Manager.Reachable supervisors services m)
    (hphase : m.phase ≠ .exited) (hwatched : Watched m.state.world.log) :
    ∀ n ∈ m.state.pendingOneshots, ∃ p, m.state.world.pidOf n = some p
      ∧ m.state.world.tree.pidMap.lookup p = some n
      ∧ p ∈ m.state.world.live := by
  have hinv := Manager.Reachable.invariant (I := fun a => OneshotInv a.1)
    Moves.closed Moves.added ?_ (fun _ _ _ hm => hm.oneshotInv) h hphase
  · intro n hn
    rw [hinv.pending] at hn
    obtain ⟨p, hp⟩ := Option.isSome_iff_exists.1 (hinv.held hwatched n hn)
    exact ⟨p, hp, hinv.mapped n p hp⟩
  · intro order
    have htracked := boot_tracked supervisors services
    refine ⟨rfl, fun _ n hn => absurd hn (Finset.notMem_empty n), ?_⟩
    intro n p hp
    exact (htracked.oneProcessEach.held n p hp).symm

-- ==== waiting for nothing

/-- The startup loop after its first batch, with these answers of
`fork`. -/
def firstBatch (services : List ServiceDef) (forks : List (Option Pid)) :
    Startup :=
  ((((Manager.boot (.build services) (buildTree [] services)
    (IterOrder.sorted _)).state.withEnv {}).reapOneshotsDuringStartup
      (.build services)).withEnv { forks := forks }).startBatch
        (.build services)

theorem firstBatch_reachable {services : List ServiceDef}
    (h : (DependencyGraph.build services).Acyclic) (forks : List (Option Pid)) :
    Manager.Reachable [] services ⟨.poll, firstBatch services forks⟩ := by
  have hboot : Manager.Reachable [] services _ :=
    .boot (IterOrder.sorted _) h
  have hreap := hboot.step (.reap _ {})
  exact hreap.step (.start _ { forks := forks })

/-- A oneshot that is not restarted. -/
def setupDef : ServiceDef :=
  { service :=
      { name := "setup", exec := ["/bin/setup"], serviceType := .oneshot }
    restart := { policy := .temporary } }

theorem setup_acyclic : (DependencyGraph.build [soloDef, setupDef]).Acyclic :=
  DependencyGraph.acyclic_of_rank (fun _ => 0) (by decide)

/-- `a` runs as process 100 and `setup` as 101. -/
def setupPending : Startup := firstBatch [soloDef, setupDef] [some 100, some 101]

theorem setup_pending_log : setupPending.world.log
    = [.frontier (.took ["a", "setup"]), .start "a" none, .spawned "a" 100,
        .launch "a" false, .frontier (.ready "a"), .start "setup" none,
        .spawned "setup" 101, .launch "setup" false, .awaiting "setup"] := by
  decide

theorem setup_pending_watched : Watched setupPending.world.log := by
  rw [setup_pending_log]
  refine ⟨?_, ?_⟩
  · intro n hn
    have hmem := hn.subset (show Effect.spawnFailed n ∈ _ by simp)
    exact absurd hmem (by simp)
  · intro pre n p exit hpre
    have hmem := hpre.subset
      (show Effect.exited n p exit .supervisor ∈ _ by simp)
    exact absurd hmem (by simp)

/-- A watched run with a pending oneshot. -/
theorem setup_pending_held : Manager.Reachable [] [soloDef, setupDef] ⟨.poll, setupPending⟩
    ∧ Watched setupPending.world.log ∧ "setup" ∈ setupPending.pendingOneshots
    ∧ ∃ p, setupPending.world.pidOf "setup" = some p
        ∧ setupPending.world.tree.pidMap.lookup p = some "setup"
        ∧ p ∈ setupPending.world.live := by
  have hreach := firstBatch_reachable setup_acyclic [some 100, some 101]
  have hmem : "setup" ∈ setupPending.pendingOneshots := by decide
  exact ⟨hreach, setup_pending_watched, hmem,
    pending_held hreach (by simp) setup_pending_watched "setup" hmem⟩

/-- `RestartService` of `a` while `setup` is pending: the wait for `a`
reaps both exits, and `a` is restarted by its supervisor and again by
the request. -/
def setupTaken : World :=
  ((setupPending.withEnv {}).pollReadiness (.build [soloDef, setupDef])).withEnv
      { waits := [.exited 101 0, .exited 100 0]
        forks := [some 102, some 103] } |>.world.restartService "a"

/-- Two runs whose startup loop waits for `setup`, which has no process:
its spawn failed, or its exit was taken by the reaper of a
`RestartService`. -/
theorem setup_waited_in_vain : (∃ m, Manager.Reachable [] [soloDef, setupDef] m ∧ m.phase = .poll
      ∧ "setup" ∈ m.state.pendingOneshots
      ∧ m.state.world.pidOf "setup" = none)
    ∧ ∃ m, Manager.Reachable [] [soloDef, setupDef] m
      ∧ m.phase = .control true [] ∧ "setup" ∈ m.state.pendingOneshots
      ∧ m.state.world.pidOf "setup" = none := by
  refine ⟨?_, ?_⟩
  · exact ⟨_, firstBatch_reachable setup_acyclic [some 100, none], rfl, by decide, by decide⟩
  · have hpoll := (firstBatch_reachable setup_acyclic [some 100, some 101]).step (.poll _ {})
    have hlisten := hpoll.step (.listen _ [.restartService "a"] ?_)
    have hact := hlisten.step (.act _
      { waits := [.exited 101 0, .exited 100 0]
        forks := [some 102, some 103] } true (.restartService "a") []
      setupTaken rfl)
    · exact ⟨_, hact, rfl, by decide, by decide⟩
    · intro hdone
      have hnone : setupPending.pendingOneshots = ∅ := hdone.2.2
      exact absurd hnone (by decide)

end Dynamod.Svmgr
