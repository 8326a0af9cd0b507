/-
A crash in a group: one-for-all and rest-for-one supervisors.

`handle_child_exit` stops the affected siblings, waits 100 ms, reaps,
and starts every affected child. A sibling that has exited by then is
reaped inside the action, and its exit is a crash of its own: a second
restart is recorded and the strategy runs again. A sibling that has
not exited is started next to its old process. Either way a group of
two or more is not restarted once: the crash is handled as documented
exactly when the failed child is the only one affected.
-/
import Dynamod.Svmgr.Proofs.Stopping

namespace Dynamod.Svmgr

open Lib SupervisorTree

variable {w : World} {q : Pid} {n c : NodeId} {s : SupervisorNode}

/-- The children a supervisor restarts when `c` fails. -/
def SupervisorNode.affected (s : SupervisorNode) (c : NodeId) : List NodeId :=
  (s.strategy.action s.children c).toStart

/-- `c` is the only child its supervisor would restart: the only one
of a one-for-all group, or the last of a rest-for-one group. -/
def SupervisorNode.AloneAffected (s : SupervisorNode) (c : NodeId) :
    Prop :=
  (s.strategy = .oneForAll ∧ s.children = [c])
    ∨ (s.strategy = .restForOne ∧ s.children.getLast? = some c)

/-- The command line of a service passes the checks of
`spawn_service`. -/
def ServiceDef.Execs (d : ServiceDef) : Prop :=
  d.service.exec ≠ [] ∧ ∀ a ∈ d.service.exec, isCString a = true

namespace World

-- ==== functions that leave the scripts

/-- What `waitpid` and `fork` will answer. -/
def scripts (w : World) : List WaitStatus × List (Option Pid) :=
  (w.env.waits, w.env.forks)

theorem readClock_scripts (w : World) : w.readClock.2.scripts = w.scripts := by
  unfold readClock
  cases w.env.jitter with
  | nil => rfl
  | cons d rest => rfl

theorem applyStrategy_scripts (w : World) (sup child : NodeId) (exit : ExitInfo) :
    (w.applyStrategy sup child exit).2.scripts = w.scripts := by
  rw [← readClock_scripts w, applyStrategy_snd]
  rfl

/-- Stopping sends signals and sets states; it reads no script and
changes no supervisor. -/
structure OnlyKills (w w' : World) : Prop where
  scripts : w'.scripts = w.scripts
  supervisors : ∀ s, w'.tree.getSupervisor s = w.tree.getSupervisor s
  log : ∀ e : Effect, (∀ p sig, e ≠ .kill p sig) →
    w'.log.count e = w.log.count e

theorem OnlyKills.refl (w : World) : OnlyKills w w :=
  ⟨rfl, fun _ => rfl, fun _ _ => rfl⟩

theorem OnlyKills.trans {w' w'' : World} (h : OnlyKills w w') (h' : OnlyKills w' w'') :
    OnlyKills w w'' :=
  ⟨h'.scripts.trans h.scripts, fun s => (h'.supervisors s).trans (h.supervisors s),
    fun e he => (h'.log e he).trans (h.log e he)⟩

theorem OnlyKills.stopWorker (w : World) (id : NodeId) : OnlyKills w (w.stopWorker id) := by
  unfold World.stopWorker
  split
  · exact .refl w
  · split
    · exact .refl w
    · next p hp =>
      refine ⟨rfl, ?_, ?_⟩
      · intro s
        exact w.tree.getSupervisor_modifyWorker id s _
      · intro e he
        show (w.log ++ [_]).count e = _
        rw [List.count_append, List.count_singleton]
        simp [(he p .sigterm).symm]

theorem OnlyKills.stopChild (w : World) (id : NodeId) : OnlyKills w (w.stopChild id) := by
  rcases w.stopChild_cases id with h | h
  · rw [h]
    exact .refl w
  · rw [h]
    exact .stopWorker w id

theorem OnlyKills.foldl_stopChild (xs : List NodeId) (w : World) :
    OnlyKills w (xs.foldl World.stopChild w) :=
  List.foldlRecOn xs _ (.refl w) fun v hv x _ => hv.trans (.stopChild v x)

-- ==== successful restarts

/-- A fork that answers a new pid starts the service. -/
theorem spawnService_ok {d : ServiceDef}
    {rest : List (Option Pid)} (hd : d.Execs)
    (hf : w.env.forks = some q :: rest) (hq : q ∉ w.live) : ∃ fd v, w.spawnService d
        = (.ok ⟨q, fd⟩, { v with live := insert q v.live })
      ∧ Idle w v ∧ v.env.forks = rest := by
  have hargs : d.service.exec.find? (fun a => !isCString a) = none := by
    rw [List.find?_eq_none]
    intro a ha
    rw [hd.2 a ha]
    simp
  obtain ⟨fd, v, hv, hidle, hforks⟩ : ∃ fd v,
      (if d.readiness.readinessType = .fd then w.createPipe else (none, w))
        = (fd, v) ∧ Idle w v ∧ v.env.forks = w.env.forks := by
    split
    · refine ⟨_, _, rfl, .createPipe w, ?_⟩
      cases w.env.pipes <;> rfl
    · exact ⟨_, _, rfl, .refl w, rfl⟩
  refine ⟨fd, { v with env := { v.env with forks := rest } }, ?_, ?_, rfl⟩
  · unfold spawnService
    rw [if_neg hd.1, hargs]
    rw [hv]
    unfold fork
    dsimp only
    rw [hforks, hf]
    dsimp only
    rw [hidle.live, if_neg hq]
  · exact hidle.trans ⟨rfl, rfl, le_refl _, List.suffix_refl _, rfl, rfl⟩

/-- One successful entry of `to_start`. -/
theorem restartChild_started {wk : WorkerNode}
    {decision : Nat} {rest : List (Option Pid)}
    (hwk : w.tree.getWorker n = some wk) (hd : wk.svcDef.Execs)
    (hf : w.env.forks = some q :: rest) (hq : q ∉ w.live) :
    Started w (w.restartChild decision n) n wk.pid q
      ∧ (w.restartChild decision n).env.forks = rest := by
  -- the delay and the note change neither the tree nor what `fork` answers
  let z := (w.sleep (fromSecs
    ((parseDurationSecs wk.svcDef.restart.delay).getD 1))).noteRestart n decision
  have hz : w.restartChild decision n = (z.startWorker n).2 := by
    unfold restartChild
    rw [hwk]
  obtain ⟨fd, v, hs, hv, hrest⟩ := spawnService_ok (w := z.note (.start n wk.pid)) hd hf hq
  obtain ⟨hwrote, henv⟩ := startWorker_spawned (w := z) hwk hs hv
  have hst := Wrote.started (w := z) hwk hq hwrote
  rw [hz, henv]
  exact ⟨⟨hst.worker, hq, hst.live, hst.pidMap, hst.core,
    le_trans (Idle.sleep w _).now hst.now, hst.waits, hst.log⟩, hrest⟩

/-- The workers `xs` can all be started: each has something to execute
and a successful fork of its own to come. -/
structure Startable (w : World) (xs : List NodeId) : Prop where
  fresh : ∀ f ∈ w.env.forks, ∃ q, f = some q ∧ q ∉ w.live
  nodup : w.env.forks.Nodup
  enough : xs.length ≤ w.env.forks.length
  execs : ∀ n ∈ xs, ∃ wk, w.tree.coreOf n = some wk ∧ wk.svcDef.Execs

/-- Starting the first one leaves the others startable. -/
theorem Startable.step {x : NodeId} {xs : List NodeId}
    (h : Startable w (x :: xs)) (decision : Nat) :
    ∃ held q, Started w (w.restartChild decision x) x held q
      ∧ Startable (w.restartChild decision x) xs := by
  have henough := h.enough
  cases hf : w.env.forks with
  | nil =>
    rw [hf] at henough
    cases henough
  | cons f rest =>
    obtain ⟨q, rfl, hq⟩ := h.fresh f (by rw [hf]; simp)
    obtain ⟨core, hcore, hd⟩ := h.execs x (by simp)
    obtain ⟨wk, hwk, rfl⟩ := Option.map_eq_some_iff.1 hcore
    obtain ⟨hst, hrest⟩ := restartChild_started hwk hd hf hq
    have hnodup := h.nodup
    rw [hf, List.nodup_cons] at hnodup
    refine ⟨wk.pid, q, hst, ?_, ?_, ?_, ?_⟩
    · intro f hmem
      rw [hrest] at hmem
      obtain ⟨r, rfl, hr⟩ := h.fresh f (by rw [hf]; simp [hmem])
      refine ⟨r, rfl, ?_⟩
      rw [hst.live, Finset.mem_insert]
      intro h
      rcases h with rfl | h
      · exact hnodup.1 hmem
      · exact hr h
    · rw [hrest]
      exact hnodup.2
    · rw [hf] at henough
      rw [hrest]
      exact Nat.le_of_succ_le_succ henough
    · intro n hn
      obtain ⟨c, hc, hcd⟩ := h.execs n (List.mem_cons_of_mem x hn)
      rw [hst.core]
      by_cases hnx : n = x
      · rw [if_pos hnx, ← hnx, hc]
        exact ⟨_, rfl, hcd⟩
      · rw [if_neg hnx]
        exact ⟨c, hc, hcd⟩

/-- Every entry of `to_start` gets a process of its own, and every
process that was there stays registered. -/
theorem foldl_restartChild (decision : Nat) (xs : List NodeId) :
    ∀ w : World, Startable w xs → (∀ q ∈ w.live, q ∈ (xs.foldl (restartChild decision) w).live
        ∧ (xs.foldl (restartChild decision) w).tree.pidMap.lookup q
            = w.tree.pidMap.lookup q)
      ∧ ∀ n ∈ xs, ∃ q, q ∉ w.live ∧ q ∈ (xs.foldl (restartChild decision) w).live
          ∧ (xs.foldl (restartChild decision) w).tree.pidMap.lookup q = some n := by
  induction xs with
  | nil =>
    intro w _
    exact ⟨fun q hq => ⟨hq, rfl⟩, fun n hn => absurd hn (by simp)⟩
  | cons x xs ih =>
    intro w h
    obtain ⟨held, q, hst, hrest⟩ := h.step decision
    obtain ⟨hold, hnew⟩ := ih _ hrest
    rw [List.foldl_cons]
    refine ⟨?_, ?_⟩
    · intro r hr
      have hne : r ≠ q := fun h => hst.fresh (h ▸ hr)
      obtain ⟨hlive, hmap⟩ :=
        hold r (by rw [hst.live]; exact Finset.mem_insert_of_mem hr)
      refine ⟨hlive, ?_⟩
      rw [hmap, hst.pidMap, HashMap.lookup_insert_ite, if_neg hne]
    · intro n hn
      rcases List.mem_cons.1 hn with rfl | hn
      · obtain ⟨hlive, hmap⟩ :=
          hold q (by rw [hst.live]; exact Finset.mem_insert_self _ _)
        refine ⟨q, hst.fresh, hlive, ?_⟩
        rw [hmap, hst.pidMap, HashMap.lookup_insert_ite, if_pos rfl]
      · obtain ⟨r, hr, hlive, hmap⟩ := hnew n hn
        refine ⟨r, ?_, hlive, hmap⟩
        intro h
        apply hr
        rw [hst.live]
        exact Finset.mem_insert_of_mem h

/-- A script that begins with the exit of a child. -/
theorem waitpid_reports {st : WaitStatus}
    {rest : List WaitStatus} {p : Pid} {exit : ExitInfo}
    (hwaits : w.env.waits = st :: rest) (hst : st.exitOf = some (p, exit))
    (hp : p ∈ w.live) : ∃ v, w.waitpid = (st, v) ∧ Reaped w v p := by
  have hreaped : Reaped w
      ({ w with env := { w.env with waits := rest } }.reap p) p := by
    refine ⟨hp, rfl, rfl, le_refl _, ?_, ?_, rfl, rfl⟩
    · show rest.length < w.env.waits.length
      rw [hwaits]
      simp
    · rw [hwaits]
      exact List.suffix_cons st rest
  refine ⟨_, ?_, hreaped⟩
  unfold waitpid
  rw [hwaits]
  cases st with
  | exited q code =>
    obtain ⟨rfl, rfl⟩ := Prod.mk.inj (Option.some.inj hst)
    dsimp only
    rw [if_pos hp]
  | signaled q sig =>
    obtain ⟨rfl, rfl⟩ := Prod.mk.inj (Option.some.inj hst)
    dsimp only
    rw [if_pos hp]
  | _ => cases hst

theorem reapChildren_nil (h : w.env.waits = []) : w.reapChildren = w := by
  unfold reapChildren
  rw [h]
  rfl

-- ==== the situation

/-- Process `p` of `c` has just been reaped, leaving `v`. `c` is one
of a group of running permanent workers; what `waitpid` reports next
are exits of siblings that are about to be stopped, and every fork
succeeds. -/
structure GroupCrash (w v : World) (sup : NodeId) (s : SupervisorNode)
    (c : NodeId) (p : Pid) : Prop where
  tracked : Tracked w
  reaped : Reaped w v p
  owner : w.pidOf c = some p
  supervisor : w.tree.getSupervisor sup = some s
  grouped : s.strategy = .oneForAll ∨ s.strategy = .restForOne
  nodup : s.children.Nodup
  member : c ∈ s.children
  running : ∀ n ∈ s.children, ∃ wk q, w.tree.getWorker n = some wk
    ∧ wk.parent = sup ∧ wk.restartPolicy = .permanent
    ∧ wk.state = .running ∧ wk.pid = some q ∧ wk.svcDef.Execs
  exits : ∀ st ∈ v.env.waits, ∃ n q e, st.exitOf = some (q, e)
    ∧ n ∈ s.affected c ∧ n ≠ c ∧ w.pidOf n = some q
  forks : ∀ f ∈ v.env.forks, ∃ q, f = some q ∧ q ∉ w.live
  forks_nodup : v.env.forks.Nodup
  forks_enough : (s.affected c).length ≤ v.env.forks.length

/-- The crash was handled as one restart of the group. -/
structure RestartedOnce (v w' : World) (sup : NodeId)
    (s : SupervisorNode) (c : NodeId) : Prop where
  recorded : w'.log.count (.recorded sup)
    = v.log.count (.recorded sup) + 1
  keepsGoing : 1 ≤ s.intensity.maxRestarts →
    s.intensity.timestamps = [] →
    w'.log.count (.gaveUp sup) = v.log.count (.gaveUp sup)
  processes : ∀ n ∈ s.affected c, ∃ q ∈ w'.live,
    w'.tree.pidMap.lookup q = some n ∧ w'.pidOf n = some q
      ∧ ∀ r ∈ w'.live, w'.tree.pidMap.lookup r = some n → r = q

-- ==== who is affected

private theorem idxOf?_split {post : List NodeId} :
    ∀ {pre : List NodeId}, c ∉ pre → (pre ++ c :: post).idxOf? c = some pre.length := by
  intro pre
  induction pre with
  | nil =>
    intro _
    simp [List.idxOf?_cons]
  | cons x pre ih =>
    intro h
    have hx : x ≠ c := fun hx => h (by simp [hx])
    have hpre : c ∉ pre := fun hmem => h (by simp [hmem])
    rw [List.cons_append, List.idxOf?_cons, ih hpre]
    simp [hx]

section Affected

variable (hg : s.strategy = .oneForAll ∨ s.strategy = .restForOne)

include hg

/-- A group is stopped backwards and started again. -/
theorem action_grouped :
    s.strategy.action s.children c
      = { toStop := (s.affected c).reverse, toStart := s.affected c } := by
  unfold SupervisorNode.affected
  rcases hg with hg | hg
  · rw [hg]
    rfl
  · rw [hg]
    rfl

variable (hc : c ∈ s.children)

include hc

/-- The affected children are the failed one and those after it, or
the whole group. -/
theorem affected_split : s.affected c = s.children ∧ s.strategy = .oneForAll
      ∨ s.strategy = .restForOne
        ∧ ∃ pre post, s.children = pre ++ c :: post
          ∧ s.affected c = c :: post := by
  unfold SupervisorNode.affected
  rcases hg with hg | hg
  · left
    rw [hg]
    exact ⟨rfl, rfl⟩
  · right
    refine ⟨hg, ?_⟩
    obtain ⟨pre, post, hsplit, hpre⟩ := List.eq_append_cons_of_mem hc
    refine ⟨pre, post, hsplit, ?_⟩
    rw [hg]
    show s.children.drop ((s.children.idxOf? c).getD 0) = _
    rw [hsplit, idxOf?_split hpre]
    simp

/-- The worker is restarted alone exactly if it stands so in its group. -/
theorem affected_eq_singleton_iff (hnodup : s.children.Nodup) :
    s.affected c = [c] ↔ s.AloneAffected c := by
  unfold SupervisorNode.AloneAffected
  rcases affected_split hg hc with ⟨haff, hs⟩ | ⟨hs, pre, post, hsplit, haff⟩
  · rw [haff, hs]
    simp
  · rw [haff, hs, hsplit]
    rw [hsplit] at hnodup
    cases post with
    | nil => simp
    | cons x xs =>
      -- the last child is one after `c`, and no child is listed twice
      have hlast : (pre ++ c :: x :: xs).getLast? = (x :: xs).getLast? := by
        rw [List.getLast?_append, List.getLast?_cons_cons]
        simp [List.getLast?_cons]
      have hnotin : c ∉ x :: xs :=
        (List.nodup_cons.1 (List.nodup_append.1 hnodup).2.1).1
      rw [hlast]
      refine iff_of_false (by simp) ?_
      intro h
      rcases h with ⟨h, -⟩ | ⟨-, h⟩
      · cases h
      · exact hnotin (List.mem_of_getLast? h)

/-- The affected are children, the failed one among them, each once. -/
theorem affected_subset : c ∈ s.affected c ∧ (∀ n ∈ s.affected c, n ∈ s.children)
      ∧ (s.children.Nodup → (s.affected c).Nodup) := by
  rcases affected_split hg hc with ⟨haff, -⟩ | ⟨-, pre, post, hsplit, haff⟩
  · rw [haff]
    exact ⟨hc, fun _ h => h, fun h => h⟩
  · rw [haff, hsplit]
    refine ⟨by simp, ?_, ?_⟩
    · intro n hn
      exact List.mem_append_right _ hn
    · intro h
      exact (List.nodup_append.1 h).2.1

/-- Somebody else is affected, unless `c` is alone. -/
theorem exists_other (hnodup : s.children.Nodup) (h : ¬ s.AloneAffected c) :
    ∃ n ∈ s.affected c, n ≠ c := by
  obtain ⟨hmem, -, hnd⟩ := affected_subset hg hc
  rw [← affected_eq_singleton_iff hg hc hnodup] at h
  by_contra hall
  apply h
  have heq : ∀ n ∈ s.affected c, n = c := by
    intro n hn
    by_contra hne
    exact hall ⟨n, hn, hne⟩
  have hrep := List.eq_replicate_of_mem heq
  have hlen : (s.affected c).length ≤ 1 := by
    have hn := hnd hnodup
    rw [hrep, List.nodup_replicate] at hn
    exact hn
  have hpos : 0 < (s.affected c).length := List.length_pos_of_mem hmem
  rw [hrep, show (s.affected c).length = 1 from by omega]
  rfl

end Affected

-- ==== up to the decision

namespace GroupCrash

variable {v : World} {sup : NodeId} {p : Pid} (h : GroupCrash w v sup s c p) (exit : ExitInfo)

/-- Right after the bookkeeping of the exit. -/
abbrev booked (v : World) (c : NodeId) (p : Pid) (exit : ExitInfo) : World :=
  v.exitWorker c p exit .supervisor

/-- Right after the supervisor's decision. -/
abbrev decided (v : World) (sup c : NodeId) (p : Pid) (exit : ExitInfo) :
    World :=
  ((booked v c p exit).applyStrategy sup c exit).2

include h

theorem exited :
    Exited w (booked v c p exit) c p exit .supervisor :=
  exitWorker_exited h.reaped ((h.tracked.pid_iff c p).1 h.owner) exit _

/-- The exit is handed to the supervisor once it is booked. -/
theorem handle_eq :
    handleChildExit reapChildren v p exit
      = superviseExit reapChildren (booked v c p exit) c exit := by
  have howner : v.tree.workerForPid p = some c := by
    rw [h.reaped.tree]
    exact (h.tracked.pid_iff c p).1 h.owner
  unfold handleChildExit
  rw [howner]

theorem getSupervisor_booked :
    (booked v c p exit).tree.getSupervisor sup = some s := by
  show ((v.tree.unregisterPid p).modifyWorker c _).getSupervisor sup = _
  rw [getSupervisor_modifyWorker, getSupervisor_unregisterPid, h.reaped.tree, h.supervisor]

/-- The core of a child after the bookkeeping. -/
theorem core_booked (hn : n ∈ s.children) : ∃ core, (booked v c p exit).tree.coreOf n = some core
      ∧ core.parent = sup ∧ core.restartPolicy = .permanent
      ∧ core.svcDef.Execs := by
  obtain ⟨wk, q, hwk, hparent, hpolicy, -, -, hexecs⟩ := h.running n hn
  rw [(h.exited exit).core]
  unfold coreOf
  by_cases hc : n = c
  · rw [if_pos hc, ← hc, hwk]
    exact ⟨_, rfl, hparent, hpolicy, hexecs⟩
  · rw [if_neg hc, hwk]
    exact ⟨_, rfl, hparent, hpolicy, hexecs⟩

omit h in
/-- A worker with the core of a child is due for a restart by `sup`. -/
theorem due_of_core {x : World} {core : WorkerNode}
    {node : SupervisorNode} (hcore : x.tree.coreOf n = some core)
    (hparent : core.parent = sup) (hpolicy : core.restartPolicy = .permanent)
    (hsup : x.tree.getSupervisor sup = some node) (exit : ExitInfo) :
    x.tree.parentOf n = some sup ∧ x.restartDue sup n exit = true := by
  obtain ⟨wk, hwk, rfl⟩ := Option.map_eq_some_iff.1 hcore
  refine ⟨?_, ?_⟩
  · rw [parentOf_worker hwk]
    exact congrArg some hparent
  · have hwkp : wk.restartPolicy = .permanent := hpolicy
    unfold restartDue shouldRestartChild
    rw [hsup, hwk]
    dsimp only
    rw [hwkp]
    rfl

/-- The exit of a permanent worker calls for a restart. -/
theorem due :
    (booked v c p exit).tree.parentOf c = some sup
      ∧ (booked v c p exit).restartDue sup c exit = true := by
  obtain ⟨core, hcore, hparent, hpolicy, -⟩ := h.core_booked exit h.member
  exact due_of_core hcore hparent hpolicy (h.getSupervisor_booked exit) exit

/-- Up to the decision the log holds the exit and the record. -/
theorem decided_log : (decided v sup c p exit).log
    = v.log ++ [.exited c p exit .supervisor, .recorded sup] := by
  rw [restartDue_true_log (h.due exit).2, (h.exited exit).log, h.reaped.log, List.append_assoc]
  rfl

omit h in
theorem booked_clock (v : World) (c : NodeId) (p : Pid) (exit : ExitInfo) :
    (booked v c p exit).readClock.1 = v.readClock.1 := by
  have henv : (booked v c p exit).env = v.env := rfl
  have hnow : (booked v c p exit).now = v.now := rfl
  unfold readClock
  rw [henv, hnow]
  cases v.env.jitter <;> rfl

/-- The decision: give up when the restart exceeds the intensity,
restart the affected children otherwise. -/
theorem decision :
    ((booked v c p exit).applyStrategy sup c exit).1
        = (if (s.intensity.recordRestartAt v.readClock.1).1 then
            { toStop := s.children, supervisorFailed := true }
          else s.strategy.action s.children c)
      ∧ (decided v sup c p exit).tree.getSupervisor sup
        = some { s with
            intensity := (s.intensity.recordRestartAt v.readClock.1).2 } := by
  have hdue := (h.due exit).2
  have hchild : (booked v c p exit).tree.shouldRestartChild c exit = true :=
    (Bool.and_eq_true_iff.1 hdue).2
  have hsup := h.getSupervisor_booked exit
  constructor
  · rw [applyStrategy_fst, booked_clock]
    exact applyStrategy_action hsup hchild
  · show (World.applyStrategy _ _ _ _).2.tree.getSupervisor sup = _
    rw [applyStrategy_tree, booked_clock]
    exact (applyStrategy_due hsup hchild).trans (if_pos rfl)

-- ==== processes at the decision

/-- No live process belongs to the failed child. -/
theorem orphan :
    ∀ r ∈ (booked v c p exit).live, (booked v c p exit).tree.pidMap.lookup r ≠ some c := by
  intro r hr hmap
  rw [(h.exited exit).live, Finset.mem_erase] at hr
  rw [(h.exited exit).pidMap, HashMap.lookup_erase_ite, if_neg hr.1,
    ← h.tracked.pid_iff, h.owner] at hmap
  exact hr.1 (Option.some.inj hmap).symm

/-- A sibling still has the process it had. -/
theorem sibling (hn : n ≠ c) (hq : w.pidOf n = some q) : q ∈ (booked v c p exit).live
      ∧ (booked v c p exit).tree.pidMap.lookup q = some n := by
  have hmap := (h.tracked.pid_iff n q).1 hq
  have hne : q ≠ p := by
    intro heq
    rw [heq, ← h.tracked.pid_iff] at hmap
    rw [heq] at hq
    have := (h.tracked.pid_iff n p).1 hq
    rw [(h.tracked.pid_iff c p).1 h.owner] at this
    exact hn (Option.some.inj this).symm
  refine ⟨?_, ?_⟩
  · rw [(h.exited exit).live, Finset.mem_erase]
    exact ⟨hne, (h.tracked.live_iff q).2 ⟨n, hmap⟩⟩
  · rw [(h.exited exit).pidMap, HashMap.lookup_erase_ite, if_neg hne]
    exact hmap

/-- Every affected child has a process. -/
theorem sibling_pid (hn : n ∈ s.affected c) : ∃ q, w.pidOf n = some q := by
  obtain ⟨wk, q, hwk, -, -, -, hpid, -⟩ := h.running n
    ((affected_subset h.grouped h.member).2.1 n hn)
  refine ⟨q, ?_⟩
  unfold World.pidOf
  rw [hwk]
  exact hpid

-- ==== the supervisor gives up

/-- A supervisor that gives up restarts nobody. -/
theorem gaveUp_not_once (hexc : (s.intensity.recordRestartAt v.readClock.1).1 = true) :
    ¬ RestartedOnce v (handleChildExit reapChildren v p exit) sup s c := by
  intro honce
  have haction := (h.decision exit).1
  have hfail : ((booked v c p exit).applyStrategy sup c exit ).1.supervisorFailed = true := by
    rw [haction, hexc]
    rfl
  have hgaveUp := Quiet.note ((booked v c p exit).applyStrategy sup c exit).2
    (e := .gaveUp sup) rfl
  have hquiet := ((Quiet.applyStrategy (booked v c p exit) sup c exit).trans hgaveUp).trans
    (.escalateFailure _ sup)
  -- the parent of a supervisor that gives up has an empty action
  rw [h.handle_eq exit, superviseExit_failed reapChildren (h.due exit).1 hfail] at honce
  obtain ⟨q, hq, hmap, -⟩ := honce.processes c
    (affected_subset h.grouped h.member).1
  rw [hquiet.live] at hq
  rw [hquiet.tree.pidMap] at hmap
  exact h.orphan exit q hq hmap

-- ==== the group is restarted

/-- The world after the grace period, before reaping. -/
abbrev stopped (v : World) (sup : NodeId) (s : SupervisorNode) (c : NodeId)
    (p : Pid) (exit : ExitInfo) : World :=
  ((s.affected c).reverse.foldl stopChild (decided v sup c p exit)).sleep
    (fromMillis 100)

/-- The group is stopped, reaped and started again. -/
theorem restart_eq (hexc : (s.intensity.recordRestartAt v.readClock.1).1 = false) :
    handleChildExit reapChildren v p exit
      = (s.affected c).foldl (restartChild (decided v sup c p exit).lastDecision)
          (stopped v sup s c p exit).reapChildren := by
  have haction := (h.decision exit).1
  rw [hexc, if_neg Bool.false_ne_true] at haction
  have hne : (s.affected c).reverse ≠ [] := by
    intro hnil
    have hmem := (affected_subset h.grouped h.member).1
    rw [List.reverse_eq_nil_iff.1 hnil] at hmem
    cases hmem
  have haction' := haction.trans (action_grouped h.grouped)
  rw [h.handle_eq exit, superviseExit_kept _ (h.due exit).1 (by rw [haction']), haction']
  unfold executeStrategyAction
  dsimp only
  rw [if_neg hne]

omit h in
theorem stopped_quiet (v : World) (sup : NodeId) (s : SupervisorNode)
    (c : NodeId) (p : Pid) (exit : ExitInfo) :
    Quiet (booked v c p exit) (stopped v sup s c p exit) :=
  (Quiet.applyStrategy _ sup c exit).trans
    ((Quiet.stopChildren _ _).trans (Idle.sleep _ _).quiet)

omit h in
theorem stopped_scripts (v : World) (sup : NodeId) (s : SupervisorNode)
    (c : NodeId) (p : Pid) (exit : ExitInfo) :
    (stopped v sup s c p exit).scripts = v.scripts := by
  show ((s.affected c).reverse.foldl stopChild (decided v sup c p exit)).scripts = _
  rw [(OnlyKills.foldl_stopChild _ _).scripts, applyStrategy_scripts]
  rfl

/-- The supervisor is still there after the grace period. -/
theorem stopped_supervisor :
    ∃ node, (stopped v sup s c p exit).tree.getSupervisor sup = some node := by
  refine ⟨{ s with
    intensity := (s.intensity.recordRestartAt v.readClock.1).2 }, ?_⟩
  show ((s.affected c).reverse.foldl stopChild (decided v sup c p exit)).tree.getSupervisor sup = _
  rw [(OnlyKills.foldl_stopChild _ _).supervisors]
  exact (h.decision exit).2

omit h in
/-- The exit of a child is recorded by `handle_child_exit`, whatever
else follows. -/
theorem exit_recorded {reap : World → World}
    (hreap : ∀ x, Moves x (reap x)) {z y : World} {core : WorkerNode} {node : SupervisorNode}
    (hy : Reaped z y q) (howner : z.tree.pidMap.lookup q = some n)
    (hcore : z.tree.coreOf n = some core) (hparent : core.parent = sup)
    (hpolicy : core.restartPolicy = .permanent)
    (hsup : z.tree.getSupervisor sup = some node) (e : ExitInfo) :
    z.log ++ [.exited n q e .supervisor, .recorded sup]
      <+: (handleChildExit reap y q e).log := by
  have hexited := exitWorker_exited hy howner e .supervisor
  have hcore' : (y.exitWorker n q e .supervisor).tree.coreOf n
      = some { core with pid := none } := by
    rw [hexited.core, if_pos rfl, hcore]
    rfl
  have hsup' : (y.exitWorker n q e .supervisor).tree.getSupervisor sup
      = some node := by
    show ((y.tree.unregisterPid q).modifyWorker n _).getSupervisor sup = _
    rw [getSupervisor_modifyWorker, getSupervisor_unregisterPid, hy.tree]
    exact hsup
  obtain ⟨hparentOf, hdue⟩ := due_of_core hcore' hparent hpolicy hsup' e
  have hgrow := (Moves.steps.afterStrategy hreap hparentOf e).later.log
  rw [restartDue_true_log hdue, hexited.log, List.append_assoc] at hgrow
  have howner' : y.tree.workerForPid q = some n := by
    rw [hy.tree]
    exact howner
  unfold handleChildExit
  rw [howner']
  exact hgrow

/-- When the grace period begins, all affected children can be
started. -/
theorem startable :
    Startable (stopped v sup s c p exit) (s.affected c) := by
  have hquiet := stopped_quiet v sup s c p exit
  have hforks : (stopped v sup s c p exit).env.forks = v.env.forks :=
    congrArg Prod.snd (stopped_scripts v sup s c p exit)
  have hsub := (affected_subset h.grouped h.member).2.1
  refine ⟨?_, ?_, ?_, ?_⟩
  · intro f hf
    rw [hforks] at hf
    obtain ⟨r, hr, hnew⟩ := h.forks f hf
    refine ⟨r, hr, ?_⟩
    rw [hquiet.live, (h.exited exit).live]
    exact fun hmem => hnew (Finset.mem_of_mem_erase hmem)
  · rw [hforks]
    exact h.forks_nodup
  · rw [hforks]
    exact h.forks_enough
  · intro m hm
    obtain ⟨core, hcore, -, -, hexecs⟩ := h.core_booked exit (hsub m hm)
    refine ⟨core, ?_, hexecs⟩
    rw [hquiet.tree.worker]
    exact hcore

/-- A sibling that exits in the grace period is one more restart. -/
theorem reaped_twice (hexc : (s.intensity.recordRestartAt v.readClock.1).1 = false)
    {st : WaitStatus} {rest : List WaitStatus} (hwaits : v.env.waits = st :: rest) :
    v.log.count (.recorded sup) + 2
      ≤ (handleChildExit reapChildren v p exit).log.count (.recorded sup) := by
  obtain ⟨n, q, e, hst, hn, hnc, hq⟩ := h.exits st (by rw [hwaits]; simp)
  obtain ⟨hlive, hmap⟩ := h.sibling exit hnc hq
  obtain ⟨core, hcore, hparent, hpolicy, -⟩ := h.core_booked exit
    ((affected_subset h.grouped h.member).2.1 n hn)
  obtain ⟨node, hsup⟩ := h.stopped_supervisor exit
  have hquiet := stopped_quiet v sup s c p exit
  have hzwaits : (stopped v sup s c p exit).env.waits = st :: rest :=
    (congrArg Prod.fst (stopped_scripts v sup s c p exit)).trans hwaits
  have hzlog : (decided v sup c p exit).log
      <+: (stopped v sup s c p exit).log :=
    (Moves.later ((Quiet.stopChildren (decided v sup c p exit) (s.affected c).reverse).trans
      (Idle.sleep _ (fromMillis 100)).quiet).moves).log
  rw [h.decided_log exit] at hzlog
  rw [h.restart_eq exit hexc]
  generalize stopped v sup s c p exit = z at *
  -- the first round of the nested reaper reaps the sibling
  obtain ⟨y, hwait, hy⟩ := waitpid_reports hzwaits hst
    (by rw [hquiet.live]; exact hlive)
  have hround : z.reapChildren = reapAndHandleExits rest.length
      (handleChildExit (reapAndHandleExits rest.length) y q e) := by
    unfold reapChildren
    rw [hzwaits]
    exact reapAndHandleExits_exit hwait hst rest.length
  have hsecond := exit_recorded (Moves.closed.reapAndHandleExits rest.length) hy
    (by rw [hquiet.tree.pidMap]; exact hmap)
    (by rw [hquiet.tree.worker]; exact hcore) hparent hpolicy hsup e
  have hrest := (Moves.later ((Moves.closed.reapAndHandleExits rest.length
    (handleChildExit (reapAndHandleExits rest.length) y q e)).trans
      (Moves.closed.foldl (Moves.steps.restartChild (decided v sup c p exit).lastDecision)
        (s.affected c) _))).log
  rw [hround]
  have hcount := (hsecond.trans hrest).sublist.count_le (.recorded sup)
  have hfirst := hzlog.sublist.count_le (.recorded sup)
  simp only [List.count_append, List.count_cons, List.count_nil] at *
  simp at *
  omega

/-- A sibling that does not exit in the grace period is started next
to its old process. -/
theorem doubled (hexc : (s.intensity.recordRestartAt v.readClock.1).1 = false)
    (hwaits : v.env.waits = []) (hn : n ∈ s.affected c) (hnc : n ≠ c) : ∃ q r, q ≠ r
      ∧ q ∈ (handleChildExit reapChildren v p exit).live
      ∧ r ∈ (handleChildExit reapChildren v p exit).live
      ∧ (handleChildExit reapChildren v p exit).tree.pidMap.lookup q = some n
      ∧ (handleChildExit reapChildren v p exit).tree.pidMap.lookup r
          = some n := by
  obtain ⟨q, hq⟩ := h.sibling_pid hn
  obtain ⟨hlive, hmap⟩ := h.sibling exit hnc hq
  have hquiet := stopped_quiet v sup s c p exit
  have hscripts := stopped_scripts v sup s c p exit
  have hstartable := h.startable exit
  rw [h.restart_eq exit hexc]
  generalize stopped v sup s c p exit = z at *
  obtain ⟨hold, hnew⟩ := foldl_restartChild (decided v sup c p exit).lastDecision
    (s.affected c) z hstartable
  rw [reapChildren_nil ((congrArg Prod.fst hscripts).trans hwaits)]
  have hqz : q ∈ z.live := by
    rw [hquiet.live]
    exact hlive
  obtain ⟨hqlive, hqmap⟩ := hold q hqz
  obtain ⟨r, hr, hrlive, hrmap⟩ := hnew n hn
  refine ⟨q, r, fun heq => hr (heq ▸ hqz), hqlive, hrlive, ?_, hrmap⟩
  rw [hqmap, hquiet.tree.pidMap]
  exact hmap

/-- A worker that is affected alone is restarted once. -/
theorem alone_once (hexc : (s.intensity.recordRestartAt v.readClock.1).1 = false)
    (halone : s.AloneAffected c) :
    RestartedOnce v (handleChildExit reapChildren v p exit) sup s c := by
  have haff : s.affected c = [c] :=
    (affected_eq_singleton_iff h.grouped h.member h.nodup).2 halone
  -- nobody else is stopped, so nobody exits in the grace period
  have hwaits : v.env.waits = [] := by
    rw [List.eq_nil_iff_forall_not_mem]
    intro st hst
    obtain ⟨n, -, -, -, hn, hnc, -⟩ := h.exits st hst
    rw [haff] at hn
    exact hnc (List.mem_singleton.1 hn)
  have hstartable := h.startable exit
  have hquiet := stopped_quiet v sup s c p exit
  have hscripts := stopped_scripts v sup s c p exit
  -- the signals of the stop list count as no restart
  have hcount : ∀ e : Effect, (∀ p sig, e ≠ .kill p sig) →
      (stopped v sup s c p exit).log.count e
        = v.log.count e
          + [.exited c p exit .supervisor, .recorded sup].count e := by
    intro e he
    show (((s.affected c).reverse.foldl stopChild (decided v sup c p exit)).log).count e = _
    rw [(OnlyKills.foldl_stopChild _ _).log e he, h.decided_log exit, List.count_append]
  rw [h.restart_eq exit hexc, haff]
  rw [haff] at hstartable
  generalize stopped v sup s c p exit = z at *
  rw [reapChildren_nil ((congrArg Prod.fst hscripts).trans hwaits)]
  obtain ⟨held, q, hst, -⟩ := hstartable.step (decided v sup c p exit).lastDecision
  show RestartedOnce v (z.restartChild _ c) sup s c
  refine ⟨?_, ?_, ?_⟩
  · rw [hst.log, List.count_append, hcount _ (by simp)]
    simp
  · intro _ _
    rw [hst.log, List.count_append, hcount _ (by simp)]
    simp
  · intro n hn
    rw [haff] at hn
    obtain rfl := List.mem_singleton.1 hn
    refine ⟨q, ?_, ?_, ?_, ?_⟩
    · rw [hst.live]
      exact Finset.mem_insert_self _ _
    · rw [hst.pidMap, HashMap.lookup_insert_ite, if_pos rfl]
    · rw [hst.pidOf, if_pos rfl]
    · intro r hr hmap
      rw [hst.live, Finset.mem_insert] at hr
      rcases hr with rfl | hr
      · rfl
      · rw [hst.pidMap, HashMap.lookup_insert_ite,
          if_neg (fun heq : r = q => hst.fresh (heq ▸ hr)),
          hquiet.tree.pidMap] at hmap
        rw [hquiet.live] at hr
        exact absurd hmap (h.orphan exit r hr)

end GroupCrash

/-- One crash in a group of running permanent workers is handled as
one restart, with one process for every affected child, exactly when
the failed child is the only one affected and the restart is within
the supervisor's intensity. -/
theorem group_crash_iff {w v : World} {sup c : NodeId}
    {s : SupervisorNode} {p : Pid} (h : GroupCrash w v sup s c p) (exit : ExitInfo) :
    RestartedOnce v (handleChildExit reapChildren v p exit) sup s c
      ↔ s.AloneAffected c
        ∧ (s.intensity.recordRestartAt v.readClock.1).1 = false := by
  cases hexc : (s.intensity.recordRestartAt v.readClock.1).1 with
  | true =>
    refine iff_of_false (h.gaveUp_not_once exit hexc) ?_
    exact fun hboth => absurd hboth.2 (by simp)
  | false =>
    refine ⟨?_, fun hboth => h.alone_once exit hexc hboth.1⟩
    intro honce
    refine ⟨?_, rfl⟩
    by_contra halone
    obtain ⟨n, hn, hnc⟩ :=
      exists_other h.grouped h.member h.nodup halone
    cases hwaits : v.env.waits with
    | nil =>
      obtain ⟨q, r, hqr, hq, hr, hqmap, hrmap⟩ :=
        h.doubled exit hexc hwaits hn hnc
      obtain ⟨t, -, -, -, hunique⟩ := honce.processes n hn
      exact hqr ((hunique q hq hqmap).trans (hunique r hr hrmap).symm)
    | cons st rest =>
      have htwice := h.reaped_twice exit hexc hwaits
      have hrec := honce.recorded
      omega

end World

-- ==== a group of two

open World

/-- A long-running service under the supervisor `g`. -/
def memberDef (name : String) : ServiceDef :=
  { service := { name := name, supervisor := "g", exec := ["/bin/x"] } }

/-- The supervisor `g` with two members, `a` and `b`. -/
def pairTree (strategy : RestartStrategy) : SupervisorTree :=
  buildTree [{ supervisor := { name := "g", strategy := strategy } }]
    [memberDef "a", memberDef "b"]

/-- `a` runs as process 100 and `b` as 101. -/
def pairRunning (strategy : RestartStrategy) : World :=
  (({ tree := pairTree strategy
      env := { forks := [some 100, some 101] } : World }.startWorker
    "a").2.startWorker "b").2

/-- Process `p` has been reaped, with `env` still to come. -/
def pairReaped (strategy : RestartStrategy) (p : Pid) (env : Env) : World :=
  { pairRunning strategy with
    live := (pairRunning strategy).live.erase p, env := env }

theorem pair_tracked (strategy : RestartStrategy) : Tracked (pairRunning strategy) := by
  have hboot : TrackedIfGuarded { tree := pairTree strategy
                                  env := { forks := [some 100, some 101] } } :=
    fun _ => (boot_tracked _ _).congr rfl rfl fun _ => rfl
  have hrun : TrackedIfGuarded (pairRunning strategy) :=
    (hboot.moves (Moves.closed.startWorker _ "a")).moves (Moves.closed.startWorker _ "b")
  have hlog : (pairRunning strategy).log
      = [.start "a" none, .spawned "a" 100, .start "b" none, .spawned "b" 101] := by
    cases strategy <;> decide
  refine hrun fun n p => ?_
  rw [hlog]
  simp

/-- `g` as configured above. -/
def pairNode (strategy : RestartStrategy) : SupervisorNode where
  name := "g"
  strategy := strategy
  intensity := .new 10 (fromSecs 300)
  children := ["a", "b"]
  parent := some "root"

/-- The last member of a rest-for-one group crashes. -/
theorem pair_last_crash : GroupCrash
    { pairRunning .restForOne with
      env := { waits := [.exited 101 1], forks := [some 102] } }
    (pairReaped .restForOne 101 { forks := [some 102] })
    "g" (pairNode .restForOne) "b" 101 where
  tracked := (pair_tracked .restForOne).congr rfl rfl fun _ => rfl
  reaped :=
    { mem := by decide, tree := rfl, live := rfl, now := le_refl _
      waits := by decide, waits_suffix := List.nil_suffix, log := rfl, history := rfl }
  owner := by decide
  supervisor := by decide
  grouped := .inr rfl
  nodup := by decide
  member := by decide
  running := by
    have hexecs : ∀ name, (memberDef name).Execs := by
      intro name
      refine ⟨by simp [memberDef], ?_⟩
      intro a ha
      rw [List.mem_singleton.1 ha]
      decide
    intro n hn
    rcases List.mem_cons.1 hn with rfl | hn
    · exact ⟨{ newWorker (memberDef "a") "g" 0 with
        state := .running, pid := some 100 }, 100, by decide, rfl, rfl, rfl,
        rfl, hexecs "a"⟩
    · obtain rfl := List.mem_singleton.1 hn
      exact ⟨{ newWorker (memberDef "b") "g" 1 with
        state := .running, pid := some 101 }, 101, by decide, rfl, rfl, rfl,
        rfl, hexecs "b"⟩
  exits := by
    intro st hst
    cases hst
  forks := by
    intro f hf
    rw [List.mem_singleton.1 hf]
    exact ⟨102, rfl, by decide⟩
  forks_nodup := by decide
  forks_enough := by decide

/-- Nothing stands after `b`, so it alone is affected, and the group is
within its limit. -/
theorem pair_last_crash_once : RestartedOnce (pairReaped .restForOne 101 { forks := [some 102] })
    (handleChildExit reapChildren (pairReaped .restForOne 101 { forks := [some 102] }) 101
      ⟨some 1, none⟩) "g" (pairNode .restForOne) "b" := by
  refine (group_crash_iff pair_last_crash ⟨some 1, none⟩).2 ⟨?_, by decide⟩
  unfold SupervisorNode.AloneAffected
  decide

/-- `a` crashes in a one-for-all group, and `b` is still shutting down
when the grace period is over. -/
def pairSlow : World :=
  handleChildExit reapChildren
    (pairReaped .oneForAll 100 { forks := [some 102, some 103] }) 100
    ⟨some 1, none⟩

/-- The same crash, but `b` exits on the signal in time. -/
def pairQuick : World :=
  handleChildExit reapChildren
    (pairReaped .oneForAll 100
      { waits := [.signaled 101 15]
        forks := [some 102, some 103, some 104, some 105] }) 100
    ⟨some 1, none⟩

/-- Too slow, `b` ends up with two live processes; in time, the one
crash is recorded twice, and both members are started twice. -/
theorem pair_crash_not_once : (101 ∈ pairSlow.live ∧ 103 ∈ pairSlow.live
      ∧ pairSlow.tree.pidMap.lookup 101 = some "b"
      ∧ pairSlow.tree.pidMap.lookup 103 = some "b")
    ∧ pairQuick.log.count (.recorded "g") = 2
    ∧ pairQuick.live = {102, 103, 104, 105} := by
  decide

end Dynamod.Svmgr
