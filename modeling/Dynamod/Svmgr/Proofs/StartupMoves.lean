/-
What the startup loop can do, said once: its own bookkeeping (the
frontier, the readiness trackers, the pending oneshots) moves together
with the world. A move is over a `Startup` and the services of the
current batch still to be launched.

`Step.moves` reduces every step of the manager that does not end it to
these moves, so the run-level results are case analyses over
`StartupMove`. They hold for any relation `Q` that is closed under what the
rest of the manager does.
-/
import Dynamod.Svmgr.Proofs.Moves
import Dynamod.Svmgr.Startup

namespace Dynamod.Svmgr

open Lib Relation SupervisorTree

variable {a b : Startup × List String} {es : List Effect} {w : World} {p : Pid}
  {s : Startup}

-- ==== checks are idle

namespace World

theorem Idle.bind (w : World) : Idle w w.bind.2 := by
  unfold World.bind
  cases w.env.binds with
  | nil => exact .refl w
  | cons b rest => exact ⟨rfl, rfl, le_refl _, List.suffix_refl _, rfl, rfl⟩

theorem Idle.probe (w : World) : Idle w w.probe.2 := by
  unfold World.probe
  cases w.env.probes with
  | nil => exact .refl w
  | cons p rest => exact ⟨rfl, rfl, le_refl _, List.suffix_refl _, rfl, rfl⟩

end World

namespace ReadinessTracker

open World

theorem new_idle (config : ReadinessSection) (w : World) : Idle w (new config w).2 := by
  unfold new
  dsimp only
  split
  · exact (Idle.bind w).trans (Idle.readClock _)
  · exact Idle.readClock w

theorem wire_isImmediate (config : ReadinessSection) (w : World) (fd : Option Fd) :
    ((new config w).1.wire fd).isImmediate = true
      ↔ config.readinessType = .none := by
  unfold isImmediate
  rw [decide_eq_true_iff]
  cases fd <;> rfl

theorem check_idle (t : ReadinessTracker) (w : World) : Idle w (t.check w).2 := by
  have hclock := Idle.readClock w
  have hprobe := hclock.trans (Idle.probe w.readClock.2)
  unfold check
  dsimp only
  split
  · exact hclock
  · split
    · exact hclock
    · unfold checkTcpPort
      split
      · exact hclock
      · split <;> next heq => rw [heq] at hprobe; exact hprobe
    · unfold runCheckExec
      split
      · split <;> next heq => rw [heq] at hprobe; exact hprobe
      · exact hclock
    · unfold checkNotify
      split
      · split <;> next heq => rw [heq] at hprobe; exact hprobe
      · exact hclock
    · unfold checkFd
      split
      · exact hclock
      · split <;> next heq => rw [heq] at hprobe; exact hprobe

end ReadinessTracker

-- ==== the moves

/-- Service `name` was launched and its tracker set up, leaving the
world `w` and the worker `wk`. -/
structure Launched (s : Startup) (name : String) (wk : WorkerNode)
    (w : World) : Prop where
  worker : (s.world.startWorker name).2.tree.getWorker name = some wk
  idle : World.Idle ((s.world.startWorker name).2.note (.launch name (s.world.spawnFails name))) w

/-- One move of the startup loop; the pair is the state and what remains
of the batch being launched, the effects are the loop's own part of the
history. What the rest of the manager does to the world in between is `Q`. -/
inductive StartupMove (Q : World → World → Prop) (g : DependencyGraph) :
    Startup × List String → List Effect → Startup × List String → Prop
  | env {s : Startup} {todo : List String} (env : Env) :
      StartupMove Q g (s, todo) [] (s.withEnv env, todo)
  | world {s : Startup} {todo : List String} (w : World) :
      Q s.world w →
      StartupMove Q g (s, todo) [] ({ s with world := w }, todo)
  | settled {s : Startup} {todo : List String} (name : String) (pid : Pid)
      (exit : ExitInfo) (v : World) : name ∈ s.pendingOneshots →
      World.Reaped s.world v pid → s.world.tree.pidMap.lookup pid = some name →
      StartupMove Q g (s, todo)
        [.exited name pid exit .startup,
          .frontier (if exit.isNormal then .ready name else .failed name)]
        (let s := { s with
          pendingOneshots := s.pendingOneshots.erase name
          world := v.exitWorker name pid exit .startup }
        if exit.isNormal then s.markReady g name else s.markFailed g name,
        todo)
  | took {s : Startup} :
      StartupMove Q g (s, []) [.frontier (.took s.frontier.takeReady.1)]
        ({ s with
          frontier := s.frontier.takeReady.2
          world := s.world.note (.frontier (.took s.frontier.takeReady.1)) },
        s.frontier.takeReady.1)
  | skipped {s : Startup} {todo : List String} (name : String) :
      s.world.tree.getWorker name = none →
      StartupMove Q g (s, name :: todo) [.launch name false]
        ({ s with world := s.world.note (.launch name false) }, todo)
  | oneshot {s : Startup} {todo : List String} (name : String)
      (wk : WorkerNode) (w : World) : Launched s name wk w →
      wk.svcDef.service.serviceType = .oneshot →
      wk.svcDef.readiness.readinessType = .none →
      StartupMove Q g (s, name :: todo)
        [.launch name (s.world.spawnFails name), .awaiting name]
        ({ s with
          world := w.note (.awaiting name)
          pendingOneshots := insert name s.pendingOneshots }, todo)
  | immediate {s : Startup} {todo : List String} (name : String)
      (wk : WorkerNode) (w : World) : Launched s name wk w →
      wk.svcDef.service.serviceType ≠ .oneshot →
      wk.svcDef.readiness.readinessType = .none →
      StartupMove Q g (s, name :: todo)
        [.launch name (s.world.spawnFails name), .frontier (.ready name)]
        ({ s with world := w }.markReady g name, todo)
  | tracked {s : Startup} {todo : List String} (name : String)
      (wk : WorkerNode) (w : World) (tracker : ReadinessTracker) :
      Launched s name wk w →
      wk.svcDef.readiness.readinessType ≠ .none →
      StartupMove Q g (s, name :: todo)
        [.launch name (s.world.spawnFails name)]
        ({ s with
          world := w
          readinessTrackers := s.readinessTrackers.insert name tracker }, todo)
  | waiting {s : Startup} {todo : List String} (name : String) (w : World) :
      World.Idle s.world w →
      StartupMove Q g (s, todo) [.checked name .notReady]
        ({ s with world := w.note (.checked name .notReady) }, todo)
  | checkedReady {s : Startup} {todo : List String} (name : String)
      (w : World) : name ∈ s.readinessTrackers → World.Idle s.world w →
      StartupMove Q g (s, todo)
        [.checked name .ready, .frontier (.ready name)]
        ({ s with
          world := w.note (.checked name .ready)
          readinessTrackers := s.readinessTrackers.erase name }.markReady
            g name, todo)
  | checkedFailed {s : Startup} {todo : List String} (name : String)
      (w : World) (result : ReadinessResult) : name ∈ s.readinessTrackers →
      World.Idle s.world w → result ≠ .ready →
      StartupMove Q g (s, todo)
        [.checked name result, .frontier (.failed name)]
        ({ s with
          world := w.note (.checked name result)
          readinessTrackers := s.readinessTrackers.erase name }.markFailed
            g name, todo)

/-- A sequence of moves of the startup loop. -/
abbrev StartupMoves (Q : World → World → Prop) (g : DependencyGraph) :
    Startup × List String → Startup × List String → Prop :=
  ReflTransGen fun a b => ∃ es, StartupMove Q g a es b

variable {g : DependencyGraph} {Q : World → World → Prop}

theorem StartupMoves.invariant {I : Startup × List String → Prop}
    (hmove : ∀ a es b, StartupMove Q g a es b → I a → I b)
    (h : StartupMoves Q g a b) (ha : I a) : I b := by
  induction h with
  | refl => exact ha
  | tail _ hm ih =>
    obtain ⟨es, hm⟩ := hm
    exact hmove _ es _ hm ih

/-- What a move of the startup loop does to the world is made of what `Q`
allows, exits of oneshots, and notes in the history. -/
theorem StartupMove.world_rel {R : World → World → Prop} (hQ : World.Closed Q)
    (hR : ∀ {w w'}, Q w w' → R w w') (htrans : ∀ {u v w}, R u v → R v w → R u w)
    (hexit : ∀ {w v p id} (exit : ExitInfo), World.Reaped w v p →
      w.tree.pidMap.lookup p = some id → R w (v.exitWorker id p exit .startup))
    (hnote : ∀ w e, R w (World.note w e)) (henv : ∀ (w : World) env, R w { w with env := env })
    (h : StartupMove Q g a es b) : R a.1.world b.1.world := by
  have hidle : ∀ {w w'}, World.Idle w w' → R w w' := fun h => hR (hQ.idle h)
  have hlaunch : ∀ {s : Startup} {name wk w}, Launched s name wk w → R s.world w := by
    intro s name wk w hl
    exact htrans (hR (hQ.startWorker s.world name)) (htrans (hnote _ _) (hidle hl.idle))
  cases h with
  | env env => exact henv _ env
  | world w hw => exact hR hw
  | settled name pid exit v hmem hv howner =>
    split
    · exact htrans (hexit exit hv howner) (hnote _ _)
    · exact htrans (hexit exit hv howner) (hnote _ _)
  | took => exact hnote _ _
  | skipped name hnone => exact hnote _ _
  | oneshot name wk w hl ht hr => exact htrans (hlaunch hl) (hnote w _)
  | immediate name wk w hl ht hr => exact htrans (hlaunch hl) (hnote w _)
  | tracked name wk w tracker hl hr => exact hlaunch hl
  | waiting name w hi => exact htrans (hidle hi) (hnote w _)
  | checkedReady name w hmem hi => exact htrans (hidle hi) (htrans (hnote w _) (hnote _ _))
  | checkedFailed name w result hmem hi hr =>
    exact htrans (hidle hi) (htrans (hnote w _) (hnote _ _))

-- ==== the loop's history

/-- The startup loop's own part of a history. -/
def ownLog (log : List Effect) : List Effect :=
  log.filter fun e => !e.ofMove

theorem mem_ownLog {log : List Effect} {e : Effect}
    (he : e.ofMove = false) : e ∈ ownLog log ↔ e ∈ log := by
  unfold ownLog
  rw [List.mem_filter, he]
  exact and_iff_left rfl

theorem ownLog_append (log es : List Effect) : ownLog (log ++ es) = ownLog log ++ ownLog es :=
  List.filter_append ..

theorem ownLog_of_moves (h : ∀ e ∈ es, e.ofMove = true) : ownLog es = [] := by
  unfold ownLog
  rw [List.filter_eq_nil_iff]
  intro e he
  rw [h e he]
  decide

theorem World.Moves.own {w' : World} (h : World.Moves w w') : ownLog w'.log = ownLog w.log := by
  induction h with
  | refl => rfl
  | tail _ hm ih =>
    obtain ⟨es, hes, hmove⟩ := hm.appends
    rw [hes, ownLog_append, ownLog_of_moves hmove, List.append_nil, ih]

theorem own_note (w : World) {e : Effect} (he : e.ofMove = false) :
    ownLog (w.note e).log = ownLog w.log ++ [e] := by
  show ownLog (w.log ++ [e]) = _
  rw [ownLog_append]
  congr 1
  unfold ownLog
  rw [List.filter_cons, he]
  rfl

theorem World.Exited.own {w' : World} {id : NodeId}
    {exit : ExitInfo} (h : World.Exited w w' id p exit .startup) :
    ownLog w'.log = ownLog w.log ++ [.exited id p exit .startup] := by
  rw [h.log]
  exact ownLog_append ..

theorem Launched.own {name : String} {wk : WorkerNode} (h : Launched s name wk w) : ownLog w.log
    = ownLog s.world.log ++ [.launch name (s.world.spawnFails name)] := by
  rw [h.idle.log, own_note _ rfl, World.Moves.own (World.Moves.closed.startWorker s.world name)]

theorem StartupMove.own (h : StartupMove World.Moves g a es b) :
    ownLog b.1.world.log = ownLog a.1.world.log ++ es := by
  cases h with
  | env env => exact (List.append_nil _).symm
  | world w hw => exact (World.Moves.own hw).trans (List.append_nil _).symm
  | settled name pid exit v hmem hv howner =>
    have he := World.exitWorker_exited hv howner exit .startup
    split
    · refine (own_note _ rfl).trans ?_
      rw [he.own, List.append_assoc]
      rfl
    · refine (own_note _ rfl).trans ?_
      rw [he.own, List.append_assoc]
      rfl
  | took => exact own_note _ rfl
  | skipped name hnone => exact own_note _ rfl
  | oneshot name wk w hl ht hr =>
    refine (own_note w rfl).trans ?_
    rw [hl.own, List.append_assoc]
    rfl
  | immediate name wk w hl ht hr =>
    refine (own_note w rfl).trans ?_
    rw [hl.own, List.append_assoc]
    rfl
  | tracked name wk w tracker hl hr => exact hl.own
  | waiting name w hi =>
    refine (own_note w rfl).trans ?_
    rw [hi.log]
  | checkedReady name w hmem hi =>
    refine (own_note _ rfl).trans ?_
    rw [own_note w rfl, hi.log, List.append_assoc]
    rfl
  | checkedFailed name w result hmem hi hr =>
    refine (own_note _ rfl).trans ?_
    rw [own_note w rfl, hi.log, List.append_assoc]
    rfl

-- ==== the startup reaper

/-- Registering a reaped process again only to unregister it changes
nothing: handing it to `handle_child_exit` directly is the same. -/
theorem handleChildExit_registered (reap : World → World) (w : World)
    {name : NodeId} (exit : ExitInfo) (h : w.tree.workerForPid p = some name) :
    World.handleChildExit reap
        { w with tree := (w.tree.unregisterPid p).registerPid name p } p exit
      = World.handleChildExit reap w p exit := by
  have hreg : ((w.tree.unregisterPid p).registerPid name p).workerForPid p
      = some name := by
    show ((w.tree.pidMap.erase p).insert p name).lookup p = some name
    rw [HashMap.lookup_insert_ite, if_pos rfl]
  have htree : (((w.tree.unregisterPid p).registerPid name p).unregisterPid
        p).modifyWorker name (fun wk =>
          { wk with pid := none, state := exit.state })
      = (w.tree.unregisterPid p).modifyWorker name (fun wk =>
          { wk with pid := none, state := exit.state }) := by
    unfold modifyWorker registerPid unregisterPid modifyWorker
    rw [HashMap.modify_modify, HashMap.erase_insert_erase]
    congr 2
    funext node
    cases node <;> rfl
  unfold World.handleChildExit
  rw [hreg, h]
  unfold World.exitWorker
  dsimp only
  rw [htree]

theorem childExit_moves (hQ : World.Closed Q) {v : World} (h : World.Reaped s.world v p)
    (exit : ExitInfo) :
    StartupMoves Q g (s, []) ({ s with world := v }.childExit g p exit, []) := by
  unfold Startup.childExit
  cases hid : v.tree.workerForPid p with
  | none =>
    have hlost : s.world.tree.pidMap.lookup p = none := by
      rw [← h.tree]
      exact hid
    exact .single ⟨_, .world v (hQ.lost h hlost)⟩
  | some name =>
    dsimp only
    split
    · next hmem =>
      have howner : s.world.tree.pidMap.lookup p = some name := by
        rw [← h.tree]
        exact hid
      exact .single ⟨_, .settled name p exit v hmem h howner⟩
    · rw [handleChildExit_registered _ v exit hid]
      exact .single ⟨_, .world _ (hQ.handleChildExit hQ.reapChildren h exit)⟩

/-- One round of the startup reaper that reaps a child. -/
theorem reapLoop_exit {v : World} {st : WaitStatus}
    {exit : ExitInfo} (hw : s.world.waitpid = (st, v))
    (hst : st.exitOf = some (p, exit)) (fuel : Nat) : s.reapLoop g (fuel + 1)
      = Startup.reapLoop g fuel ({ s with world := v }.childExit g p exit) := by
  rw [Startup.reapLoop, hw]
  cases st with
  | exited q code =>
    obtain ⟨rfl, rfl⟩ := Prod.mk.inj (Option.some.inj hst)
    rfl
  | signaled q sig =>
    obtain ⟨rfl, rfl⟩ := Prod.mk.inj (Option.some.inj hst)
    rfl
  | _ => cases hst

theorem reapLoop_moves (hQ : World.Closed Q) (fuel : Nat) :
    ∀ s : Startup, StartupMoves Q g (s, []) (s.reapLoop g fuel, []) := by
  induction fuel with
  | zero => exact fun _ => .refl
  | succ fuel ih =>
    intro s
    rcases s.world.waitpid_cases with ⟨st, p, exit, v, hw, hst, hv⟩ |
      ⟨st, v, hw, hst, hv, -⟩
    · rw [reapLoop_exit hw hst]
      exact (childExit_moves hQ hv exit).trans (ih _)
    · have hidle : StartupMoves Q g (s, []) ({ s with world := v }, []) :=
        .single ⟨_, .world v (hQ.idle hv)⟩
      rw [Startup.reapLoop, hw]
      cases st with
      | exited q code => cases hst
      | signaled q sig => cases hst
      | eintr => exact hidle.trans (ih _)
      | _ => exact hidle

theorem childExit_waits (s : Startup) (p : Pid) (exit : ExitInfo) :
    (s.childExit g p exit).world.env.waits <:+ s.world.env.waits := by
  unfold Startup.childExit
  cases s.world.tree.workerForPid p with
  | none => exact List.suffix_refl _
  | some name =>
    dsimp only
    split
    · split
      · exact List.suffix_refl _
      · exact List.suffix_refl _
    · exact World.handleChildExit_waits World.Moves.closed.reapChildren _ p exit

/-- Fuel for the whole script is enough for the startup reaper: more of
it changes nothing. -/
theorem reapLoop_fuel (fuel : Nat) :
    ∀ s : Startup, s.world.env.waits.length ≤ fuel →
      s.reapLoop g (fuel + 1) = s.reapLoop g fuel := by
  induction fuel with
  | zero =>
    intro s hs
    have hnil : s.world.env.waits = [] :=
      List.eq_nil_of_length_eq_zero (Nat.le_zero.1 hs)
    have hwait : s.world.waitpid = (.stillAlive, s.world) := by
      unfold World.waitpid
      rw [hnil]
    unfold Startup.reapLoop
    rw [hwait]
  | succ fuel ih =>
    intro s hs
    rcases s.world.waitpid_cases with ⟨st, p, exit, v, hw, hst, hv⟩ |
      ⟨st, v, hw, hst, -, hend⟩
    · have hlen := hv.waits
      have hrest := (childExit_waits (g := g) { s with world := v } p exit).length_le
      rw [reapLoop_exit hw hst, reapLoop_exit hw hst]
      apply ih
      dsimp only at hrest
      omega
    · rw [Startup.reapLoop, Startup.reapLoop, hw]
      cases st with
      | exited q code => cases hst
      | signaled q sig => cases hst
      | eintr =>
        rcases hend with hlt | ⟨-, heq, -⟩
        · apply ih
          show v.env.waits.length ≤ fuel
          omega
        · cases heq
      | _ => rfl

-- ==== batches

theorem startService_move (s : Startup) (name : String) (todo : List String) :
    ∃ es, StartupMove Q g (s, name :: todo) es (s.startService g name, todo) := by
  unfold Startup.startService
  dsimp only
  cases hwk : (s.world.startWorker name).2.tree.getWorker name with
  | none =>
    -- a worker never disappears, so the name was unknown before too
    rcases s.world.startWorker_cases name with
      ⟨hnone, heq, hfails⟩ | ⟨wk, hsome, hq, -⟩ | ⟨held, p, hst, -⟩
    · rw [show ((s.world.startWorker name).2.note _).tree
        = (s.world.startWorker name).2.tree from rfl, hwk]
      rw [heq, hfails]
      exact ⟨_, .skipped name hnone⟩
    · have hcore := hq.tree.worker name
      rw [coreOf_eq_none.2 hwk] at hcore
      rw [coreOf_eq_none.1 hcore.symm] at hsome
      cases hsome
    · obtain ⟨wk, hsome, -⟩ := hst.worker
      have hcore := hst.core name
      rw [coreOf_eq_none.2 hwk, if_pos rfl] at hcore
      rw [coreOf_eq_none.1 (Option.map_eq_none_iff.1 hcore.symm)] at hsome
      cases hsome
  | some wk =>
    rw [show ((s.world.startWorker name).2.note _).tree
      = (s.world.startWorker name).2.tree from rfl, hwk]
    dsimp only
    generalize hv : (s.world.startWorker name).2.note
      (.launch name (s.world.spawnFails name)) = v
    have hlaunch : Launched s name wk
        (ReadinessTracker.new wk.svcDef.readiness v).2 :=
      ⟨hwk, hv ▸ ReadinessTracker.new_idle _ _⟩
    have himm := ReadinessTracker.wire_isImmediate wk.svcDef.readiness v
      (s.world.startWorker name).1
    split
    · next h => exact ⟨_, .oneshot name wk _ hlaunch h.1 (himm.1 h.2)⟩
    · next h =>
      split
      · next hi =>
        exact ⟨_, .immediate name wk _ hlaunch (fun ho => h ⟨ho, hi⟩) (himm.1 hi)⟩
      · next hi =>
        exact ⟨_, .tracked name wk _ _ hlaunch (fun hn => hi (himm.2 hn))⟩

theorem startBatch_moves (s : Startup) : StartupMoves Q g (s, []) (s.startBatch g, []) := by
  have hfold : ∀ (batch : List String) (s : Startup),
      StartupMoves Q g (s, batch) (batch.foldl (Startup.startService g) s, []) := by
    intro batch
    induction batch with
    | nil => exact fun _ => .refl
    | cons name batch ih =>
      intro s
      exact .head (startService_move s name batch) (ih _)
  exact .head ⟨_, .took⟩ (hfold _ _)

-- ==== polling

theorem pollTracker_moves (s : Startup) (name : String) :
    StartupMoves Q g (s, []) (s.pollTracker g name, []) := by
  unfold Startup.pollTracker
  cases hl : s.readinessTrackers.lookup name with
  | none => exact .refl
  | some tracker =>
    have hmem : name ∈ s.readinessTrackers :=
      Finmap.mem_of_lookup_eq_some hl
    have hidle := tracker.check_idle s.world
    dsimp only
    cases hr : (tracker.check s.world).1 with
    | ready => exact .single ⟨_, .checkedReady name _ hmem hidle⟩
    | notReady => exact .single ⟨_, .waiting name _ hidle⟩
    | timedOut =>
      exact .single ⟨_, .checkedFailed name _ .timedOut hmem hidle (by simp)⟩
    | failed msg =>
      exact .single ⟨_, .checkedFailed name _ (.failed msg) hmem hidle (by simp)⟩

theorem pollReadiness_moves (s : Startup) : StartupMoves Q g (s, []) (s.pollReadiness g, []) := by
  exact List.foldlRecOn _ _ (motive := fun s' : Startup => StartupMoves Q g (s, []) (s', [])) .refl
    fun s' h name _ => h.trans (pollTracker_moves s' name)

-- ==== steps of the manager

/-- Every step that does not end the manager is a sequence of moves. -/
theorem Manager.Step.moves (hQ : World.Closed Q) (hadded : World.Adds Q) {m m' : Manager}
    (h : Manager.Step g m m') (hexit : m'.phase ≠ .exited) :
    StartupMoves Q g (m.state, []) (m'.state, []) := by
  cases h with
  | reap s env => exact .head ⟨_, .env env⟩ (reapLoop_moves hQ _ _)
  | start s env => exact .head ⟨_, .env env⟩ (startBatch_moves _)
  | poll s env => exact .head ⟨_, .env env⟩ (pollReadiness_moves _)
  | leave s hdone => exact .refl
  | listen s requests hdone => exact .refl
  | act s env startup a rest w hw =>
    exact .head ⟨_, .env env⟩ (.single ⟨_, .world w (hQ.dispatch hadded hw)⟩)
  | shutdown s env startup rest w hw => exact absurd rfl hexit
  | again s => exact .single ⟨_, .world _ (hQ.idle (World.Idle.sleep s.world _))⟩
  | mainReap s env =>
    exact .head ⟨_, .env env⟩ (.single ⟨_, .world _ (hQ.reapChildren _)⟩)
  | mainListen s requests => exact .refl
  | mainAgain s => exact .single ⟨_, .world _ (hQ.idle (World.Idle.sleep s.world _))⟩
  | signal s env w hw => exact absurd rfl hexit

/-- The invariant rule of a run: what holds at boot and survives every
move holds in every state before the manager ends. -/
theorem Manager.Reachable.invariant {supervisors : List SupervisorDef}
    {services : List ServiceDef}
    {I : Startup × List String → Prop} (hQ : World.Closed Q) (hadded : World.Adds Q)
    (hboot : ∀ order : IterOrder (DependencyGraph.build services).allServices,
      I ((Manager.boot (.build services) (buildTree supervisors services) order).state, []))
    (hmove : ∀ a es b, StartupMove Q (.build services) a es b → I a → I b)
    {m : Manager} (h : Manager.Reachable supervisors services m)
    (hexit : m.phase ≠ .exited) : I (m.state, []) := by
  induction h with
  | boot order hacyclic => exact hboot order
  | @step m m' hreach hstep ih =>
    have hrun : m.phase ≠ .exited := by
      intro hphase
      cases hstep <;> cases hphase
    exact StartupMoves.invariant hmove (hstep.moves hQ hadded hexit) (ih hrun)

-- ==== runs of one batch

/-- The manager after one round of the startup loop in which no exit is
reported and the services are started as the given processes. -/
def Manager.oneBatch (supervisors : List SupervisorDef) (services : List ServiceDef)
    (forks : List (Option Pid)) : Startup :=
  let g := DependencyGraph.build services
  let booted := ((Manager.boot g (buildTree supervisors services)
    (IterOrder.sorted _)).state.withEnv {}).reapOneshotsDuringStartup g
  (((booted.withEnv { forks }).startBatch g).withEnv {}).pollReadiness g

/-- If that completes the startup, the main loop begins. -/
theorem Manager.oneBatch_reachable {supervisors : List SupervisorDef}
    {services : List ServiceDef} {forks : List (Option Pid)}
    (hacyclic : (DependencyGraph.build services).Acyclic)
    (hdone : (Manager.oneBatch supervisors services forks).done) :
    Manager.Reachable supervisors services
      ⟨.mainReap, Manager.oneBatch supervisors services forks⟩ := by
  have hboot : Manager.Reachable supervisors services _ :=
    .boot (IterOrder.sorted _) hacyclic
  have hreap := hboot.step (.reap _ {})
  have hstart := hreap.step (.start _ { forks })
  exact (hstart.step (.poll _ {})).step (.leave _ hdone)

end Dynamod.Svmgr
