/-
A crash in a tree of supervisors: what a one-for-all or rest-for-one
supervisor restarts when some of its children are supervisors.

The strategy names children, and the executor looks each of them up as
a worker: a child that is a supervisor is neither stopped nor started,
and nothing below it is. So the subtrees of the affected children are
restarted if and only if they have no workers but the affected children
themselves.

The execution of an action has two phases with a reap between them, in
which other exits are handled. What the action itself does are the
effects of the two phases.
-/
import Dynamod.Svmgr.Proofs.Group
import Dynamod.Svmgr.Proofs.Lifecycle

namespace Dynamod.Svmgr

open Lib SupervisorTree

variable {w w' : World}

namespace World

-- ==== phases

/-- The first loop of `execute_strategy_action`. -/
def stopPhase (w : World) (action : StrategyAction) : World :=
  action.toStop.foldl stopChild w

/-- The world when the second loop begins. -/
def settled (reap : World → World) (w : World) (action : StrategyAction) : World :=
  if action.toStop = [] then w.stopPhase action
  else reap ((w.stopPhase action).sleep (fromMillis 100))

/-- The second loop of `execute_strategy_action`. -/
def startPhase (decision : Nat) (w : World) (action : StrategyAction) : World :=
  action.toStart.foldl (restartChild decision) w

/-- The worker `n`, which is `wk`, is sent SIGTERM and marked as
stopping. -/
def AskedToStop (w : World) (action : StrategyAction) (n : NodeId) (wk : WorkerNode) :
    Prop :=
  ∃ p, wk.pid = some p ∧ .kill p .sigterm ∈ effects w (w.stopPhase action)
    ∧ (w.stopPhase action).tree.getWorker n = some { wk with state := .stopping none }

/-- `start_worker` is called for `n`. -/
def StartedAgain (reap : World → World) (w : World) (action : StrategyAction)
    (n : NodeId) : Prop :=
  ∃ held, .start n held
    ∈ effects (settled reap w action)
      ((settled reap w action).startPhase w.lastDecision action)

/-- `n` is an affected child or lies below one. -/
def InAffected (t : SupervisorTree) (s : SupervisorNode) (child n : NodeId) : Prop :=
  ∃ c ∈ s.affected child, t.Below n c

/-- The action stops and starts the workers of the affected children's
subtrees, and nothing else. -/
structure RestartsSubtrees (reap : World → World) (w : World) (s : SupervisorNode)
    (child : NodeId) (action : StrategyAction) : Prop where
  stopped : ∀ n wk, w.tree.getWorker n = some wk → InAffected w.tree s child n →
    wk.state.isRunning = true → AskedToStop w action n wk
  started : ∀ n wk, w.tree.getWorker n = some wk → InAffected w.tree s child n →
    StartedAgain reap w action n
  spared : ∀ n wk, w.tree.getWorker n = some wk → ¬ InAffected w.tree s child n →
    (w.stopPhase action).tree.getWorker n = some wk ∧ ¬ StartedAgain reap w action n
  /-- No other process is sent a signal. -/
  aimed : ∀ p sig, .kill p sig ∈ effects w (w.stopPhase action) →
    ∃ n wk, w.tree.getWorker n = some wk ∧ InAffected w.tree s child n
      ∧ wk.pid = some p

-- ==== the stop phase

/-- One entry of the stop list: its worker is sent SIGTERM if it runs as
a process, and no other worker changes. -/
theorem stopChild_entry (w : World) (id : NodeId) :
    (∃ wk p, w.tree.getWorker id = some wk ∧ wk.state.isRunning = true
      ∧ wk.pid = some p ∧ (w.stopChild id).log = w.log ++ [.kill p .sigterm]
      ∧ ∀ n, (w.stopChild id).tree.getWorker n = if n = id then
          some { wk with state := .stopping none } else w.tree.getWorker n)
    ∨ w.stopChild id = w ∧ ∀ wk, w.tree.getWorker id = some wk →
        wk.state.isRunning = true → wk.pid = none := by
  unfold World.stopChild
  cases hwk : w.tree.getWorker id with
  | none => exact Or.inr ⟨rfl, fun wk h => by cases h⟩
  | some wk =>
    dsimp only
    by_cases hrun : wk.state.isRunning = true
    · rw [if_pos hrun]
      unfold World.stopWorker
      rw [hwk]
      dsimp only
      cases hpid : wk.pid with
      | none =>
        refine Or.inr ⟨rfl, ?_⟩
        intro wk' h _
        cases h
        exact hpid
      | some p =>
        refine Or.inl ⟨wk, p, rfl, hrun, hpid, rfl, ?_⟩
        intro n
        rw [getWorker_modifyWorker, hwk]
        rfl
    · rw [if_neg hrun]
      refine Or.inr ⟨rfl, ?_⟩
      intro wk' h hrun'
      cases h
      exact absurd hrun' hrun

/-- What the stop list does, entry by entry. -/
structure Stops (w w' : World) (xs : List NodeId) (es : List Effect) : Prop where
  log : w'.log = w.log ++ es
  listed : ∀ n ∈ xs, ∀ wk p, w.tree.getWorker n = some wk →
    wk.state.isRunning = true → wk.pid = some p →
    .kill p .sigterm ∈ es
      ∧ w'.tree.getWorker n = some { wk with state := .stopping none }
  other : ∀ n, n ∉ xs → w'.tree.getWorker n = w.tree.getWorker n
  aimed : ∀ e ∈ es, ∃ n ∈ xs, ∃ wk p, w.tree.getWorker n = some wk ∧ wk.pid = some p
    ∧ e = .kill p .sigterm

namespace Stops

theorem single (w : World) (x : NodeId) : ∃ es, Stops w (w.stopChild x) [x] es := by
  rcases w.stopChild_entry x with ⟨wk, p, hwk, hrun, hpid, hlog, hget⟩ | ⟨heq, hidle⟩
  · refine ⟨_, hlog, ?_, ?_, ?_⟩
    · intro n hn wk' p' hwk' _ hpid'
      obtain rfl := List.mem_singleton.1 hn
      obtain rfl := Option.some.inj (hwk.symm.trans hwk')
      obtain rfl := Option.some.inj (hpid.symm.trans hpid')
      exact ⟨List.mem_singleton_self _, (hget n).trans (if_pos rfl)⟩
    · intro n hn
      exact (hget n).trans (if_neg fun e => hn (List.mem_singleton.2 e))
    · intro e he
      exact ⟨x, List.mem_singleton_self x, wk, p, hwk, hpid, List.mem_singleton.1 he⟩
  · rw [heq]
    refine ⟨[], (List.append_nil _).symm, ?_, fun _ _ => rfl,
      fun e he => absurd he List.not_mem_nil⟩
    intro n hn wk p hwk hrun hpid
    obtain rfl := List.mem_singleton.1 hn
    rw [hidle wk hwk hrun] at hpid
    cases hpid

/-- Two lists without a common entry, one after the other. -/
theorem append {w'' : World} {xs ys : List NodeId} {es es' : List Effect}
    (h : Stops w w' xs es) (h' : Stops w' w'' ys es') (hdisj : List.Disjoint xs ys) :
    Stops w w'' (xs ++ ys) (es ++ es') := by
  have hbefore : ∀ n ∈ ys, w'.tree.getWorker n = w.tree.getWorker n :=
    fun n hn => h.other n fun hx => hdisj hx hn
  refine ⟨?_, ?_, ?_, ?_⟩
  · rw [h'.log, h.log, List.append_assoc]
  · intro n hn wk p hwk hrun hpid
    rcases List.mem_append.1 hn with hn | hn
    · obtain ⟨hkill, hget⟩ := h.listed n hn wk p hwk hrun hpid
      exact ⟨List.mem_append_left _ hkill, (h'.other n (hdisj hn)).trans hget⟩
    · rw [← hbefore n hn] at hwk
      obtain ⟨hkill, hget⟩ := h'.listed n hn wk p hwk hrun hpid
      exact ⟨List.mem_append_right _ hkill, hget⟩
  · intro n hn
    rw [List.mem_append, not_or] at hn
    exact (h'.other n hn.2).trans (h.other n hn.1)
  · intro e he
    rcases List.mem_append.1 he with he | he
    · obtain ⟨n, hn, hrest⟩ := h.aimed e he
      exact ⟨n, List.mem_append_left _ hn, hrest⟩
    · obtain ⟨n, hn, wk, p, hwk, hpid, heq⟩ := h'.aimed e he
      rw [hbefore n hn] at hwk
      exact ⟨n, List.mem_append_right _ hn, wk, p, hwk, hpid, heq⟩

theorem foldl (xs : List NodeId) (hnodup : xs.Nodup) :
    ∀ w : World, ∃ es, Stops w (xs.foldl stopChild w) xs es := by
  induction xs with
  | nil =>
    intro w
    exact ⟨[], (List.append_nil _).symm, fun n hn => absurd hn List.not_mem_nil,
      fun n _ => rfl, fun e he => absurd he List.not_mem_nil⟩
  | cons x xs ih =>
    intro w
    obtain ⟨hx, hxs⟩ := List.nodup_cons.1 hnodup
    obtain ⟨es, hes⟩ := Stops.single w x
    obtain ⟨es', hes'⟩ := ih hxs (w.stopChild x)
    exact ⟨_, hes.append hes' (List.singleton_disjoint.2 hx)⟩

end Stops

-- ==== the start phase

/-- What the start list does: `start_worker` is called for the workers
in it, and for no other. -/
structure Starts (w w' : World) (xs : List NodeId) (es : List Effect) : Prop where
  log : w'.log = w.log ++ es
  listed : ∀ n ∈ xs, n ∈ w.tree.allWorkers → ∃ held, .start n held ∈ es
  only : ∀ n held, .start n held ∈ es → n ∈ xs
  kept : w'.tree.allWorkers = w.tree.allWorkers

namespace Starts

theorem startWorker (w : World) (id : NodeId) : ∃ es, Starts w (w.startWorker id).2 [id] es := by
  have hkept : (w.startWorker id).2.tree.allWorkers = w.tree.allWorkers :=
    (Rewrites.steps.startWorker w id).sameShape.allWorkers
  -- a write logs the call, and after it how the call came out
  have hcall : ∀ held e, (∀ n h, e ≠ .start n h) →
      (w.startWorker id).2.log = w.log ++ [.start id held, e] →
      ∃ es, Starts w (w.startWorker id).2 [id] es := by
    intro held e he hlog
    refine ⟨_, hlog, ?_, ?_, hkept⟩
    · intro n hn _
      rw [List.mem_singleton.1 hn]
      exact ⟨held, List.mem_cons_self⟩
    · intro n h hmem
      rcases List.mem_cons.1 hmem with hmem | hmem
      · exact List.mem_singleton.2 (Effect.start.inj hmem).1
      · exact absurd (List.mem_singleton.1 hmem).symm (he n h)
  rcases w.startWorker_write id with ⟨hnone, heq, -⟩ | ⟨hwrite, -⟩ | ⟨p, hwrite, -⟩
  · refine ⟨[], ?_, ?_, ?_, hkept⟩
    · rw [heq, List.append_nil]
    · intro n hn hworker
      obtain ⟨wk, hwk⟩ := mem_allWorkers.1 hworker
      rw [List.mem_singleton.1 hn, hnone] at hwk
      cases hwk
    · intro n held hmem
      cases hmem
  · cases hwrite with
    | failed _ wk _ hw => exact hcall wk.pid _ (fun _ _ h => by cases h) hw.log
  · cases hwrite with
    | started _ wk _ _ _ hw => exact hcall wk.pid _ (fun _ _ h => by cases h) hw.log

theorem single (decision : Nat) (w : World) (id : NodeId) :
    ∃ es, Starts w (w.restartChild decision id) [id] es := by
  unfold World.restartChild
  cases w.tree.getWorker id with
  | none => exact startWorker w id
  | some wk =>
    obtain ⟨es, h⟩ := startWorker ((w.sleep (fromSecs
      ((parseDurationSecs wk.svcDef.restart.delay).getD 1))).noteRestart id decision) id
    exact ⟨es, h.log, h.listed, h.only, h.kept⟩

theorem append {w'' : World} {xs ys : List NodeId} {es es' : List Effect}
    (h : Starts w w' xs es) (h' : Starts w' w'' ys es') : Starts w w'' (xs ++ ys)
    (es ++ es') := by
  refine ⟨?_, ?_, ?_, h'.kept.trans h.kept⟩
  · rw [h'.log, h.log, List.append_assoc]
  · intro n hn hworker
    rcases List.mem_append.1 hn with hn | hn
    · obtain ⟨held, hmem⟩ := h.listed n hn hworker
      exact ⟨held, List.mem_append_left _ hmem⟩
    · obtain ⟨held, hmem⟩ := h'.listed n hn (h.kept ▸ hworker)
      exact ⟨held, List.mem_append_right _ hmem⟩
  · intro n held hmem
    rcases List.mem_append.1 hmem with hmem | hmem
    · exact List.mem_append_left _ (h.only n held hmem)
    · exact List.mem_append_right _ (h'.only n held hmem)

theorem foldl (decision : Nat) (xs : List NodeId) :
    ∀ w : World, ∃ es, Starts w (xs.foldl (restartChild decision) w) xs es := by
  induction xs with
  | nil =>
    intro w
    exact ⟨[], (List.append_nil _).symm, fun n hn => absurd hn List.not_mem_nil,
      fun n held he => absurd he List.not_mem_nil, rfl⟩
  | cons x xs ih =>
    intro w
    obtain ⟨es, hes⟩ := Starts.single decision w x
    obtain ⟨es', hes'⟩ := ih (w.restartChild decision x)
    exact ⟨_, hes.append hes'⟩

end Starts

-- ==== the whole action

/-- The tree is well formed and its running workers hold processes. -/
structure Sound (t : SupervisorTree) : Prop where
  wellFormed : t.WellFormed
  held : RunsHeld t

theorem Sound.turn (h : Sound w.tree) {o : Option WriteOp}
    (hturn : Turn w o w') : Sound w'.tree := by
  refine ⟨?_, h.held.turn hturn⟩
  cases hturn with
  | aside htree => exact htree ▸ h.wellFormed
  | write hwrite =>
    rcases hwrite.shape with hshape | ⟨svcDef, parentId, hadd⟩
    · exact hshape.wellFormed h.wellFormed
    · exact wellFormed_addWorker h.wellFormed hadd

theorem Turns.sound {supervisors : List SupervisorDef} {services : List ServiceDef}
    (h : Turns { tree := buildTree supervisors services } w) :
    Sound w.tree := by
  obtain ⟨os, hos⟩ := h
  refine hos.invariant (I := fun v => Sound v.tree) ?_ fun _ _ _ hv hturn => hv.turn hturn
  exact ⟨buildTree_wellFormed supervisors services,
    EachWorker.buildTree (fun _ _ _ hrun => by cases hrun) supervisors services⟩

theorem Rewrites.settled (fuel : Nat) (w : World) (action : StrategyAction) :
    Rewrites w (World.settled (World.reapAndHandleExits fuel) w action) := by
  have hstop : Rewrites w (w.stopPhase action) :=
    Rewrites.closed.foldl Rewrites.closed.stopChild action.toStop w
  unfold World.settled
  split
  · exact hstop
  · exact hstop.trans ((Rewrites.closed.idle (Idle.sleep _ _)).trans
      (Rewrites.closed.reapAndHandleExits fuel _))

/-- An action over the affected children restarts the workers among
them. -/
theorem restartsSubtrees_iff (fuel : Nat) {s : SupervisorNode}
    {child : NodeId} {action : StrategyAction} (hheld : RunsHeld w.tree)
    (hnodup : (s.affected child).Nodup) (htoStop : action.toStop = (s.affected child).reverse)
    (htoStart : action.toStart = s.affected child) :
    RestartsSubtrees (reapAndHandleExits fuel) w s child action ↔
      ∀ n wk, w.tree.getWorker n = some wk → InAffected w.tree s child n →
        n ∈ s.affected child := by
  have hreach : ∀ n ∈ s.affected child, InAffected w.tree s child n :=
    fun n hn => ⟨n, hn, .refl⟩
  obtain ⟨es, hstops⟩ : ∃ es, Stops w (w.stopPhase action) action.toStop es :=
    Stops.foldl _ (htoStop ▸ List.nodup_reverse.2 hnodup) w
  obtain ⟨fs, hstarts⟩ : ∃ fs, Starts (settled (reapAndHandleExits fuel) w action)
      ((settled (reapAndHandleExits fuel) w action).startPhase w.lastDecision action)
      action.toStart fs := Starts.foldl _ _ _
  have hstop := effects_eq hstops.log
  have hstart := effects_eq hstarts.log
  have hkept := (Rewrites.settled fuel w action).sameShape.allWorkers
  rw [htoStop] at hstops
  rw [htoStart] at hstarts
  constructor
  -- only what the action lists is started
  · intro h n wk hwk hin
    obtain ⟨held, hmem⟩ := h.started n wk hwk hin
    exact hstarts.only n held (hstart ▸ hmem)
  · intro h
    refine ⟨?_, ?_, ?_, ?_⟩
    · intro n wk hwk hin hrun
      obtain ⟨p, hpid⟩ := Option.isSome_iff_exists.1 (hheld n wk hwk hrun)
      obtain ⟨hkill, hget⟩ := hstops.listed n (List.mem_reverse.2 (h n wk hwk hin)) wk p
        hwk hrun hpid
      exact ⟨p, hpid, hstop ▸ hkill, hget⟩
    · intro n wk hwk hin
      obtain ⟨held, hmem⟩ := hstarts.listed n (h n wk hwk hin)
        (hkept ▸ mem_allWorkers.2 ⟨wk, hwk⟩)
      exact ⟨held, hstart ▸ hmem⟩
    · intro n wk hwk hout
      have hn : n ∉ s.affected child := fun hn => hout (hreach n hn)
      refine ⟨(hstops.other n fun hmem => hn (List.mem_reverse.1 hmem)).trans hwk, ?_⟩
      intro hagain
      obtain ⟨held, hmem⟩ := hagain
      exact hn (hstarts.only n held (hstart ▸ hmem))
    · intro p sig hmem
      rw [hstop] at hmem
      obtain ⟨n, hn, wk, q, hwk, hpid, heq⟩ := hstops.aimed _ hmem
      obtain ⟨rfl, -⟩ := Effect.kill.inj heq
      exact ⟨n, wk, hwk, hreach n (List.mem_reverse.1 hn), hpid⟩

end World

open World

/-- A worker fails under a one-for-all or rest-for-one supervisor, and
the supervisor restarts it. The workers of the affected children's
subtrees are stopped and started, and no others, if and only if none of
them lies strictly below an affected child. -/
theorem subtrees_restarted_iff (fuel : Nat) {w : World} {sup child : NodeId}
    {s : SupervisorNode} {exit : ExitInfo} (hsound : Sound w.tree)
    (hs : w.tree.getSupervisor sup = some s)
    (hgroup : s.strategy = .oneForAll ∨ s.strategy = .restForOne)
    (hparent : w.tree.parentOf child = some sup)
    (hdue : w.tree.shouldRestartChild child exit = true)
    (hkeep : (s.intensity.recordRestartAt w.readClock.1).1 = false) :
    let reap := reapAndHandleExits fuel
    let decided := (w.applyStrategy sup child exit).2
    let action := s.strategy.action s.children child
    superviseExit reap w child exit = executeStrategyAction reap decided action ∧
      (RestartsSubtrees reap decided s child action ↔
        ∀ n wk, w.tree.getWorker n = some wk → InAffected w.tree s child n →
          n ∈ s.affected child) := by
  intro reap decided action
  have haction : (w.applyStrategy sup child exit).1 = action := by
    rw [World.applyStrategy_fst, applyStrategy_action hs hdue, hkeep]
    rfl
  have hrow : action = { toStop := (s.affected child).reverse
                         toStart := s.affected child } := action_grouped hgroup
  have htree : decided.tree = w.tree.modifySupervisor sup fun s' =>
      { s' with intensity := (s.intensity.recordRestartAt w.readClock.1).2 } := by
    rw [World.applyStrategy_tree, applyStrategy_kept hs hdue hkeep]
  have hmember : child ∈ s.children := by
    rw [← childrenOf_supervisor hs]
    apply List.count_pos_iff.1
    rw [hsound.wellFormed.count_childrenOf hparent]
    exact Nat.one_pos
  have hnodup : (s.affected child).Nodup :=
    (affected_subset hgroup hmember).2.2
      (childrenOf_supervisor hs ▸ hsound.wellFormed.nodup_childrenOf sup)
  refine ⟨?_, ?_⟩
  · rw [superviseExit_kept reap hparent (by rw [haction, hrow]), haction]
  -- the decision itself only writes the supervisor's record
  · have hworker : ∀ n, decided.tree.getWorker n = w.tree.getWorker n := by
      intro n
      rw [htree, getWorker_modifySupervisor]
    have hbelow : ∀ n, InAffected decided.tree s child n ↔ InAffected w.tree s child n := by
      intro n
      have hshape : SameShape w.tree decided.tree := by
        rw [htree]
        exact .modifySupervisor w.tree sup fun _ => ⟨rfl, rfl⟩
      unfold InAffected
      simp only [hshape.below]
    have hheld : RunsHeld decided.tree := by
      rw [htree]
      exact EachWorker.modifySupervisor hsound.held sup _
    rw [restartsSubtrees_iff fuel hheld hnodup (by rw [hrow]) (by rw [hrow])]
    simp only [hworker, hbelow]

/-- A group of two in which `a` has just crashed. -/
def pairCrashed : World :=
  (pairReaped .oneForAll 100 {}).exitWorker "a" 100 ⟨some 1, none⟩ .supervisor

theorem pairCrashed_sound : Sound pairCrashed.tree := by
  let forked : World :=
    { tree := pairTree .oneForAll, env := { forks := [some 100, some 101] } }
  have hforked : Turns { tree := pairTree .oneForAll } forked :=
    .aside rfl rfl (le_refl _)
  have hstart : Turns forked (pairRunning .oneForAll) :=
    (Turns.steps.startWorker forked "a").trans (Turns.steps.startWorker _ "b")
  have hcrash : Turn (pairRunning .oneForAll)
      (some (.exited "a" 100 ⟨some 1, none⟩ .supervisor)) pairCrashed :=
    .write (.exited "a" 100 _ _ (by decide) (by decide)
      ⟨rfl, rfl, le_refl _, List.nil_suffix, rfl⟩)
  exact (hforked.trans hstart).sound.turn hcrash

/-- Both members are workers, and both are restarted. -/
theorem pair_subtrees_restarted : RestartsSubtrees (reapAndHandleExits 3)
    (pairCrashed.applyStrategy "g" "a" ⟨some 1, none⟩).2 (pairNode .oneForAll) "a"
    ((pairNode .oneForAll).strategy.action (pairNode .oneForAll).children "a") := by
  have hworkers : pairCrashed.tree.allWorkers = {"a", "b"} := by decide
  apply (subtrees_restarted_iff 3 pairCrashed_sound (s := pairNode .oneForAll)
    (by decide) (.inl rfl) (by decide) (by decide) (by decide)).2.2
  intro n wk hwk _
  have hn : n ∈ pairCrashed.tree.allWorkers := mem_allWorkers.2 ⟨wk, hwk⟩
  rw [hworkers, Finset.mem_insert, Finset.mem_singleton] at hn
  rcases hn with rfl | rfl
  · decide
  · decide

-- ==== a nested group

/-- A one-for-all supervisor whose children are another supervisor and
the worker `a`; the other supervisor has the worker `web`. -/
def nestedDefs : List SupervisorDef :=
  [{ supervisor := { name := "top", strategy := .oneForAll } },
    { supervisor := { name := "app", parent := "top" } }]

def nestedServices : List ServiceDef :=
  [("a", "top"), ("web", "app")].map fun (name, supervisor) =>
    { service := { name, exec := ["/bin/" ++ name], supervisor } }

def nestedRunning : Startup :=
  Manager.oneBatch nestedDefs nestedServices [some 100, some 101]

/-- After `a` has crashed and been started again. -/
def nestedCrashed : World :=
  (nestedRunning.withEnv
    { waits := [.exited 100 1], forks := [some 102] }).world.reapChildren

/-- `web` is below an affected child and running, but of the whole group
only `a` is restarted. -/
theorem nested_worker_not_restarted : ∃ m s wk, Manager.Reachable nestedDefs nestedServices m
    ∧ m.state.world = nestedCrashed
    ∧ nestedRunning.world.tree.getSupervisor "top" = some s
    ∧ s.strategy = .oneForAll
    ∧ InAffected nestedRunning.world.tree s "a" "web"
    ∧ nestedRunning.world.tree.getWorker "web" = some wk
    ∧ wk.state = .running ∧ wk.pid = some 101
    ∧ effects nestedRunning.world nestedCrashed
      = [.exited "a" 100 ⟨some 1, none⟩ .supervisor, .recorded "top",
        .start "a" none, .spawned "a" 102]
    ∧ nestedCrashed.tree.getWorker "web" = some wk := by
  have hacyclic : (DependencyGraph.build nestedServices).Acyclic :=
    DependencyGraph.acyclic_of_rank (fun _ => 0) (by decide)
  have hdone : nestedRunning.done := by
    unfold Startup.done
    decide
  have hcrash := (Manager.oneBatch_reachable hacyclic hdone).step
    (.mainReap _ { waits := [.exited 100 1], forks := [some 102] })
  let s : SupervisorNode :=
    { name := "top", strategy := .oneForAll, intensity := .new 10 (fromSecs 300)
      children := ["app", "a"], parent := some "root" }
  have hs : nestedRunning.world.tree.getSupervisor "top" = some s := by decide
  have hweb : nestedRunning.world.tree.getWorker "web"
      = (nestedServices[1]?).map fun d =>
        { newWorker d "app" 0 with pid := some 101, state := .running } := by
    decide
  have hbelow : nestedRunning.world.tree.Below "web" "app" :=
    .single (show nestedRunning.world.tree.parentOf "web" = some "app" by decide)
  exact ⟨_, s, _, hcrash, rfl, hs, rfl, ⟨"app", by decide, hbelow⟩, hweb, rfl, rfl,
    by decide, by decide⟩

end Dynamod.Svmgr
