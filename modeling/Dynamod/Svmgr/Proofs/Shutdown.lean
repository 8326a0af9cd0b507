/-
What a shutdown stops.

The stop order comes from the dependency graph built at boot; the
workers live in the supervisor tree, which a reload extends. A
shutdown that returns has stopped every worker of the graph and no
other, so it leaves nothing running exactly when every worker with a
process is a service of the boot-time graph.

Whether it returns is a question of the clock: a deadline that does not
fit it panics. `horizon` is what the clock can still reach without
anybody sleeping; each service stopped moves it by its timeout and
`stopOverhead` at most, so there is room for all of them if there is
room for their sum (`Room`).
-/
import Mathlib.Algebra.GroupWithZero.Nat
import Dynamod.Svmgr.Proofs.StopOrder
import Dynamod.Svmgr.Proofs.Tracking

namespace Dynamod.Svmgr

open Lib SupervisorTree

variable {w w' : World} {pid : Pid} {deadline : Instant} {timeout : Nat} {name : NodeId}
  {g : DependencyGraph}

namespace World

-- ==== waiting is idle

/-- The tree and the log are untouched, and time does not go back. -/
structure Waits (w w' : World) : Prop where
  tree : w'.tree = w.tree
  log : w'.log = w.log
  now : w.now ≤ w'.now

theorem Waits.refl (w : World) : Waits w w := ⟨rfl, rfl, le_refl _⟩

theorem Waits.trans {w'' : World} (h : Waits w w') (h' : Waits w' w'') : Waits w w'' :=
  ⟨h'.tree.trans h.tree, h'.log.trans h.log, le_trans h.now h'.now⟩

theorem Idle.toWaits (h : Idle w w') : Waits w w' :=
  ⟨h.tree, h.log, h.now⟩

/-- The latest the clock can read without anybody sleeping. -/
def horizon (w : World) : Int := w.now + (w.env.jitter.sum : Nat)

theorem readClock_horizon (w : World) :
    w.readClock.2.horizon = w.horizon ∧ w.readClock.1 ≤ w.horizon := by
  unfold World.readClock horizon
  cases hj : w.env.jitter with
  | nil => exact ⟨by rw [hj], le_of_eq (Int.add_zero _).symm⟩
  | cons d rest =>
    have hsum : (d :: rest).sum = d + rest.sum := rfl
    rw [hsum, Int.natCast_add, ← Int.add_assoc]
    exact ⟨rfl, Int.le_add_of_nonneg_right (Int.natCast_nonneg _)⟩

/-- A round of a wait, in which nobody sleeps. -/
structure Polls (w w' : World) : Prop extends Waits w w' where
  horizon : w'.horizon = w.horizon

theorem Polls.readClock {v : World} (h : Polls w v) : Polls w v.readClock.2 :=
  ⟨h.toWaits.trans (Idle.readClock v).toWaits, (readClock_horizon v).1.trans h.horizon⟩

theorem Polls.waitpidFor (w : World) (pid : Pid) : Polls w (w.waitpidFor pid).2 := by
  -- only the script and the set of children change, in every arm
  have hpolls (v : World) (ht : v.tree = w.tree) (hl : v.log = w.log) (hn : v.now = w.now)
      (hj : v.env.jitter = w.env.jitter) : Polls w v :=
    ⟨⟨ht, hl, le_of_eq hn.symm⟩, by rw [World.horizon, hn, hj]; rfl⟩
  unfold World.waitpidFor
  dsimp only
  split
  · exact hpolls _ rfl rfl rfl rfl
  · split
    · exact hpolls _ rfl rfl rfl rfl
    · split
      · split <;> exact hpolls _ rfl rfl rfl rfl
      · split <;> exact hpolls _ rfl rfl rfl rfl
      · exact hpolls _ rfl rfl rfl rfl
      · exact hpolls _ rfl rfl rfl rfl

theorem Polls.stopPoll (pid : Pid) (deadline : Instant) (w : World) :
    Polls w (stopPoll pid deadline w).2 := by
  have hwait := Polls.waitpidFor w pid
  unfold World.stopPoll
  split
  · next heq => rw [heq] at hwait; exact hwait
  · next heq => rw [heq] at hwait; exact hwait
  · next heq => rw [heq] at hwait; exact hwait
  · next heq => rw [heq] at hwait; exact hwait.readClock

theorem Polls.killPoll (pid : Pid) (deadline : Instant) (w : World) :
    Polls w (killPoll pid deadline w).2 := by
  have hwait := Polls.waitpidFor w pid
  unfold World.killPoll
  split
  · next heq => rw [heq] at hwait; exact hwait.readClock
  · next heq => rw [heq] at hwait; exact hwait

theorem Waits.pollPause (w : World) : Waits w w.pollPause :=
  (Idle.sleep w _).toWaits

theorem pollPause_horizon (w : World) :
    w.pollPause.horizon ≤ w.horizon + (fromMillis 50 : Nat) := by
  show w.now + (fromMillis 50 : Nat) + (w.env.jitter.sum : Nat)
    ≤ w.now + (w.env.jitter.sum : Nat) + (fromMillis 50 : Nat)
  rw [Int.add_right_comm]

theorem pollRounds_cost (d : Nat) : pollRounds d * fromMillis 50 ≤ d + 2 * fromMillis 50 := by
  unfold pollRounds
  rw [Nat.add_mul]
  exact Nat.add_le_add_right (Nat.div_mul_le_self d _) _

-- ==== the waits end by themselves

/-- A child that `waitpid` reports, or no longer knows, is gone. -/
theorem waitpidFor_gone {v : World} {st : WaitStatus}
    (h : w.waitpidFor pid = (st, v)) (hst : st.exitOf.isSome ∨ st = .echild) : pid ∉ v.live := by
  -- without a report the answer says whether the child is there
  have hquiet : ∀ {u : World},
      (if pid ∈ w.live then WaitStatus.stillAlive else .echild, u) = (st, v) →
        u.live = w.live → pid ∉ v.live := by
    intro u hu hlive hmem
    obtain ⟨rfl, rfl⟩ := Prod.mk.inj hu
    rw [if_pos (hlive ▸ hmem)] at hst
    rcases hst with hst | hst <;> cases hst
  have hreap : ∀ {u : World} {st' : WaitStatus}, (st', u.reap pid) = (st, v) → pid ∉ v.live := by
    intro u st' hu
    obtain ⟨-, rfl⟩ := Prod.mk.inj hu
    exact Finset.notMem_erase pid _
  unfold World.waitpidFor at h
  cases hwaits : w.env.waits with
  | nil =>
    rw [hwaits] at h
    exact hquiet h rfl
  | cons status rest =>
    rw [hwaits] at h
    dsimp only at h
    split at h
    · next hgone =>
      obtain ⟨-, rfl⟩ := Prod.mk.inj h
      exact hgone
    cases status with
    | exited p code =>
      dsimp only at h
      split at h
      · exact hreap h
      · exact hquiet h rfl
    | signaled p sig =>
      dsimp only at h
      split at h
      · exact hreap h
      · exact hquiet h rfl
    | echild => exact hquiet h rfl
    | _ =>
      obtain ⟨rfl, -⟩ := Prod.mk.inj h
      rcases hst with hst | hst <;> cases hst

/-- A round of the wait that answers: the process is gone, or the deadline has
come. -/
theorem stopPoll_answer {v : World} {gone : Bool}
    (h : World.stopPoll pid deadline w = (some gone, v)) :
    if gone then pid ∉ v.live else deadline ≤ v.now := by
  unfold World.stopPoll at h
  split at h
  · next heq =>
    obtain ⟨hgone, rfl⟩ := Prod.mk.inj h
    rw [← Option.some.inj hgone]
    exact waitpidFor_gone heq (.inl rfl)
  · next heq =>
    obtain ⟨hgone, rfl⟩ := Prod.mk.inj h
    rw [← Option.some.inj hgone]
    exact waitpidFor_gone heq (.inl rfl)
  · next heq =>
    obtain ⟨hgone, rfl⟩ := Prod.mk.inj h
    rw [← Option.some.inj hgone]
    exact waitpidFor_gone heq (.inr rfl)
  · next u _ _ _ _ =>
    change (if u.readClock.1 ≥ deadline then some false else none, u.readClock.2) = _ at h
    obtain ⟨hgone, rfl⟩ := Prod.mk.inj h
    rw [readClock_now]
    split at hgone
    · next hlate =>
      rw [← Option.some.inj hgone]
      exact hlate
    · cases hgone

/-- The wait after the stop signal ends because the service is gone or
its timeout is over. -/
theorem stopPoll_ends (w : World) (pid : Pid) {timeout : Duration}
    (h : deadline ≤ w.now + timeout) :
    let ended := poll (stopPoll pid deadline) pollPause (pollRounds timeout) w
    (ended.1 = some true ∧ pid ∉ ended.2.live)
      ∨ (ended.1 = some false ∧ deadline ≤ ended.2.now) := by
  intro ended
  have hends : ended.1.isSome = true := by
    refine poll_deadline ?_ h
    intro v v' hv
    have hpolls := Polls.stopPoll pid deadline v
    rw [hv] at hpolls
    refine ⟨hpolls.now, ?_⟩
    unfold stopPoll at hv
    split at hv
    · exact absurd (Prod.mk.inj hv).1 (by simp)
    · exact absurd (Prod.mk.inj hv).1 (by simp)
    · exact absurd (Prod.mk.inj hv).1 (by simp)
    · exact silent_before_deadline hv
  obtain ⟨gone, hgone⟩ := Option.isSome_iff_exists.1 hends
  obtain ⟨v, hv⟩ := poll_answer _ _ (Prod.ext hgone rfl)
  have hanswer := stopPoll_answer hv
  cases gone with
  | true => exact .inl ⟨hgone, hanswer⟩
  | false => exact .inr ⟨hgone, hanswer⟩

/-- The wait after `SIGKILL` ends likewise; any answer but that the child is
alive ends it. -/
theorem killPoll_ends (w : World) (pid : Pid) {d : Duration} (h : deadline ≤ w.now + d) :
    (poll (killPoll pid deadline) pollPause (pollRounds d) w).1.isSome = true := by
  refine poll_deadline ?_ h
  intro v v' hv
  have hpolls := Polls.killPoll pid deadline v
  rw [hv] at hpolls
  refine ⟨hpolls.now, ?_⟩
  unfold killPoll at hv
  split at hv
  · exact silent_before_deadline hv
  · exact absurd (Prod.mk.inj hv).1 (by simp)

-- ==== one service

theorem finalizeStop_log (w : World) (name : NodeId) (pid : Pid) :
    (w.finalizeStop name pid).log = w.log := rfl

/-- The pid of the stopped worker is gone, and no other. -/
theorem finalizeStop_pidOf (w : World) (name n : NodeId) (pid : Pid) :
    (w.finalizeStop name pid).pidOf n
      = if n = name then none else w.pidOf n := by
  unfold World.pidOf finalizeStop
  rw [getWorker_modifyWorker]
  by_cases hn : n = name
  · rw [if_pos hn, if_pos hn, getWorker_unregisterPid]
    cases w.tree.getWorker name <;> rfl
  · rw [if_neg hn, if_neg hn, getWorker_unregisterPid]

theorem finalizeStop_defOf (w : World) (name n : NodeId) (pid : Pid) :
    (w.finalizeStop name pid).defOf n = w.defOf n := by
  unfold World.defOf finalizeStop
  rw [getWorker_modifyWorker]
  by_cases hn : n = name
  · rw [if_pos hn, getWorker_unregisterPid, hn]
    cases w.tree.getWorker name <;> rfl
  · rw [if_neg hn, getWorker_unregisterPid]

/-- What stopping a service takes beyond its timeout: the wait after
`SIGKILL`, and the rounding of two waits. -/
def stopOverhead : Nat := fromSecs 3 + 4 * fromMillis 50

/-- However the wait ends, the worker is cleaned up; until then only
time has passed and `SIGKILL` may have been sent. -/
theorem awaitStop_cases (w : World) (name : NodeId) (pid : Pid)
    (timeout : Nat) (deadline : Instant) : ∃ v : World, w.awaitStop name pid timeout deadline
        = v.finalizeStop name pid
      ∧ v.tree = w.tree ∧ w.log <+: v.log
      ∧ v.horizon ≤ w.horizon + (timeout + stopOverhead : Nat) := by
  have hstop : Waits w (poll (World.stopPoll pid deadline) World.pollPause
      (pollRounds timeout) w).2 :=
    poll_rel Waits.refl Waits.trans (fun v => (Polls.stopPoll pid deadline v).toWaits)
      Waits.pollPause _ w
  have htime := poll_cost
    (fun v => le_of_eq (Polls.stopPoll pid deadline v).horizon)
    pollPause_horizon (pollRounds timeout) w
  have hrounds := pollRounds_cost timeout
  have hkrounds := pollRounds_cost (fromSecs 3)
  unfold awaitStop stopOverhead
  split
  -- the process ended before the deadline
  · next v heq =>
    rw [heq] at hstop htime
    refine ⟨v, rfl, hstop.tree, ?_, ?_⟩
    · rw [hstop.log]
    · dsimp only at htime
      omega
  -- it is killed, and waited for once more
  · next v _ heq =>
    rw [heq] at hstop htime
    dsimp only at htime ⊢
    generalize hu : v.note (.kill pid .sigkill) = u
    have hlog : u.log = w.log ++ [.kill pid .sigkill] := by
      rw [← hu]
      show v.log ++ _ = _
      rw [hstop.log]
    have htree : u.tree = w.tree := by
      rw [← hu]
      exact hstop.tree
    have huv : u.horizon = v.horizon := by
      rw [← hu]
      rfl
    have hclock := (readClock_horizon u).1
    have hkill : Waits u (poll (World.killPoll pid (u.readClock.1 + fromSecs 3)) World.pollPause
        (pollRounds (fromSecs 3)) u.readClock.2).2 :=
      (Idle.readClock u).toWaits.trans
        (poll_rel Waits.refl Waits.trans (fun v => (Polls.killPoll pid _ v).toWaits)
          Waits.pollPause _ _)
    have hktime := poll_cost
      (fun v => le_of_eq (Polls.killPoll pid (u.readClock.1 + fromSecs 3) v).horizon)
      pollPause_horizon (pollRounds (fromSecs 3)) u.readClock.2
    refine ⟨_, rfl, hkill.tree.trans htree, ?_, ?_⟩
    · rw [hkill.log, hlog]
      exact List.prefix_append _ _
    · omega

theorem Quiet.runStopExec (w : World) (name : NodeId)
    (cmd : Option (List String)) : Quiet w (w.runStopExec name cmd) := by
  unfold World.runStopExec
  split
  · exact .note w rfl
  · exact .refl w

/-- How long a service is given to stop. -/
def stopTimeoutOf (d : ServiceDef) : Duration :=
  ((parseDurationSecs d.shutdown.stopTimeout).map fromSecs).getD
    (fromSecs 10)

/-- The world after the stop signal, with the worker marked. -/
def signalled (w : World) (name : NodeId) (pid : Pid) (sig : Signal)
    (deadline : Instant) : World :=
  { (w.note (.kill pid sig)).readClock.2 with
    tree := (w.note (.kill pid sig)).readClock.2.tree.modifyWorker name
      fun wk => { wk with state := .stopping (some deadline) } }

/-- The signal is the only effect of it, and the workers keep their pids. -/
theorem signalled_cases (w : World) (name : NodeId) (pid : Pid)
    (sig : Signal) (deadline : Instant) : Quiet w (w.signalled name pid sig deadline)
      ∧ (w.signalled name pid sig deadline).log
          = w.log ++ [.kill pid sig] := by
  have hclock := Idle.readClock (w.note (.kill pid sig))
  have htree := Quiet.withTree (w.note (.kill pid sig)).readClock.2
    (SameCore.modifyWorker (w.note (.kill pid sig)).readClock.2.tree name
      (f := fun wk => { wk with state := .stopping (some deadline) })
      fun _ => rfl)
  exact ⟨((Quiet.note w rfl).trans hclock.quiet).trans htree, hclock.log⟩

/-- A service without a process is left as it is. -/
theorem stopServiceGraceful_idle (h : w.pidOf name = none) :
    w.stopServiceGraceful name = some w := by
  unfold World.pidOf at h
  unfold stopServiceGraceful
  cases hwk : w.tree.getWorker name with
  | none => rfl
  | some wk =>
    rw [hwk] at h
    have hpid : wk.pid = none := h
    dsimp only
    rw [hpid]

/-- A service with a process: two deadlines are computed, and the wait
is for the second. -/
theorem stopServiceGraceful_held {wk : WorkerNode} (hwk : w.tree.getWorker name = some wk)
    (hpid : wk.pid = some pid) : let v := w.runStopExec name wk.svcDef.shutdown.stopExec
    let sig := parseSignal wk.svcDef.shutdown.stopSignal
    w.stopServiceGraceful name
      = (addDuration (v.note (.kill pid sig)).readClock.1 (stopTimeoutOf wk.svcDef)).bind fun d =>
        (addDuration (v.signalled name pid sig d).readClock.1
          (stopTimeoutOf wk.svcDef)).bind fun deadline =>
        some ((v.signalled name pid sig d).readClock.2.awaitStop name pid
          (stopTimeoutOf wk.svcDef) deadline) := by
  unfold stopServiceGraceful
  rw [hwk]
  dsimp only
  rw [hpid]
  rfl

/-- What stopping one service leaves behind. -/
theorem stopServiceGraceful_cases (h : w.stopServiceGraceful name = some w') :
    (w.pidOf name = none ∧ w' = w) ∨ ∃ pid sig, w.pidOf name = some pid
      ∧ (∃ es, w'.log = w.log ++ es ∧ .kill pid sig ∈ es)
      ∧ ∀ n, w'.pidOf n = if n = name then none else w.pidOf n := by
  cases hp : w.pidOf name with
  | none =>
    rw [stopServiceGraceful_idle hp] at h
    exact .inl ⟨rfl, (Option.some.inj h).symm⟩
  | some pid =>
    right
    obtain ⟨wk, hwk, hpid⟩ := Option.bind_eq_some_iff.1 hp
    rw [stopServiceGraceful_held hwk hpid] at h
    obtain ⟨d, -, h⟩ := Option.bind_eq_some_iff.1 h
    obtain ⟨deadline, -, h⟩ := Option.bind_eq_some_iff.1 h
    cases h
    generalize parseSignal wk.svcDef.shutdown.stopSignal = sig
    have hexec := Quiet.runStopExec w name wk.svcDef.shutdown.stopExec
    generalize w.runStopExec name wk.svcDef.shutdown.stopExec = v at hexec
    obtain ⟨hquiet, hlog⟩ := signalled_cases v name pid sig d
    have hclock := Idle.readClock (v.signalled name pid sig d)
    obtain ⟨u, hu, htree, ⟨es', hes'⟩, -⟩ := awaitStop_cases
      (v.signalled name pid sig d).readClock.2 name pid
      (stopTimeoutOf wk.svcDef) deadline
    obtain ⟨es, hes, -⟩ := hexec.log
    rw [hu]
    refine ⟨pid, sig, rfl, ⟨es ++ [.kill pid sig] ++ es', ?_, by simp⟩, ?_⟩
    · rw [finalizeStop_log, ← hes', hclock.log, hlog, hes]
      simp only [List.append_assoc]
    · intro n
      have hun : u.pidOf n = w.pidOf n := by
        unfold World.pidOf
        rw [htree, hclock.tree]
        exact (hquiet.pidOf n).trans (hexec.pidOf n)
      rw [finalizeStop_pidOf, hun]

-- ==== the whole order

/-- What stopping a list of services leaves behind. -/
theorem foldlM_stop_cases (order : List NodeId) :
    ∀ {w w' : World}, order.foldlM stopServiceGraceful w = some w' →
      (∀ n, w'.pidOf n = if n ∈ order then none else w.pidOf n)
      ∧ ∃ es, w'.log = w.log ++ es
          ∧ ∀ n ∈ order, ∀ p, w.pidOf n = some p → ∃ sig, .kill p sig ∈ es := by
  induction order with
  | nil =>
    intro w w' h
    cases h
    exact ⟨fun n => by simp, [], by simp, by simp⟩
  | cons name order ih =>
    intro w w' h
    rw [List.foldlM_cons] at h
    obtain ⟨v, hv, hrest⟩ := Option.bind_eq_some_iff.1 h
    obtain ⟨hpids, es', hlog', hkills'⟩ := ih hrest
    rcases stopServiceGraceful_cases hv with ⟨hnone, rfl⟩ |
      ⟨pid, sig, hpid, ⟨es, hlog, hkill⟩, hclear⟩
    -- nothing to stop
    · refine ⟨?_, es', hlog', ?_⟩
      · intro n
        rw [hpids]
        by_cases hn : n = name
        · rw [hn, hnone]
          simp
        · simp [hn]
      · intro n hn p hp
        rcases List.mem_cons.1 hn with rfl | hn
        · rw [hnone] at hp
          cases hp
        · exact hkills' n hn p hp
    · refine ⟨?_, es ++ es', ?_, ?_⟩
      · intro n
        rw [hpids, hclear]
        by_cases hn : n = name
        · simp [hn]
        · simp [hn]
      · rw [hlog', hlog, List.append_assoc]
      · intro n hn p hp
        by_cases hname : n = name
        · rw [hname, hpid] at hp
          cases hp
          exact ⟨sig, List.mem_append_left _ hkill⟩
        · rcases List.mem_cons.1 hn with hn | hn
          · exact absurd hn hname
          · obtain ⟨sig', hsig'⟩ := hkills' n hn p
              (by rw [hclear, if_neg hname]; exact hp)
            exact ⟨sig', List.mem_append_right _ hsig'⟩

/-- The final reap looks at neither the tree nor the log. -/
theorem reapRemaining_cases (fuel : Nat) :
    ∀ w : World, (reapRemaining fuel w).tree = w.tree
      ∧ (reapRemaining fuel w).log = w.log := by
  induction fuel with
  | zero => exact fun w => ⟨rfl, rfl⟩
  | succ fuel ih =>
    intro w
    have hwait : w.waitpid.2.tree = w.tree ∧ w.waitpid.2.log = w.log := by
      rcases w.waitpid_cases with ⟨st, p, exit, v, hv, -, hr⟩ |
        ⟨st, v, hv, -, hi, -⟩
      · rw [hv]
        exact ⟨hr.tree, hr.log⟩
      · rw [hv]
        exact ⟨hi.tree, hi.log⟩
    unfold reapRemaining
    split
    · next heq => rw [heq] at hwait; exact hwait
    · next heq => rw [heq] at hwait; exact hwait
    · next v _ _ heq =>
      rw [heq] at hwait
      exact ⟨(ih v).1.trans hwait.1, (ih v).2.trans hwait.2⟩

/-- The reaping ends with the children, so more fuel changes nothing. -/
theorem reapRemaining_fuel (fuel : Nat) :
    ∀ w : World, w.env.waits.length ≤ fuel →
      reapRemaining (fuel + 1) w = reapRemaining fuel w := by
  induction fuel with
  | zero =>
    intro w hw
    have hnil : w.env.waits = [] :=
      List.eq_nil_of_length_eq_zero (Nat.le_zero.1 hw)
    have hwait : w.waitpid = (.stillAlive, w) := by
      unfold World.waitpid
      rw [hnil]
    unfold reapRemaining
    rw [hwait]
  | succ fuel ih =>
    intro w hw
    have hfewer : w.waitpid.1 ≠ .stillAlive →
        w.waitpid.2.env.waits.length ≤ fuel := by
      intro hne
      rcases w.waitpid_cases with ⟨st, p, exit, v, hv, -, hr⟩ |
        ⟨st, v, hv, -, -, hend⟩
      · have := hr.waits
        rw [hv]
        show v.env.waits.length ≤ fuel
        omega
      · rw [hv] at hne ⊢
        rcases hend with hlt | ⟨-, hst, -⟩
        · show v.env.waits.length ≤ fuel
          omega
        · exact absurd hst hne
    unfold reapRemaining
    split
    · rfl
    · rfl
    · next st v halive _ heq =>
      rw [heq] at hfewer
      exact ih v (hfewer halive)

/-- Where one more unit of fuel changes nothing, no amount does. -/
private theorem fuel_enough {α : Type} (loop : Nat → α) {n : Nat}
    (h : ∀ k, n ≤ k → loop (k + 1) = loop k) {k : Nat} (hk : n ≤ k) : loop k = loop n := by
  induction k, hk using Nat.le_induction with
  | base => rfl
  | succ k hk ih => exact (h k hk).trans ih

/-- The loops that wait and the loops that reap end by themselves, in every
world. The wait of `RestartService` ends with the old process gone or after
five seconds, and the wait for a stopped service with its process gone or at
the deadline; the wait after `SIGKILL` ends as well. The loops that reap
children go on until `waitpid` has nothing more to report: more rounds would
change nothing. -/
theorem loops_end (w : World) : (∀ name pid, let deadline := w.readClock.1 + fromSecs 5
      (poll (restartPoll name pid deadline) pollPause (pollRounds (fromSecs 5))
          w.readClock.2).1 = some ()
        ∧ ((w.awaitExit name pid).stillRunning name pid = false
          ∨ deadline ≤ (w.awaitExit name pid).now))
    ∧ (∀ pid (timeout : Duration) (deadline : Instant), deadline ≤ w.now + timeout →
      let ended := poll (stopPoll pid deadline) pollPause (pollRounds timeout) w
      ((ended.1 = some true ∧ pid ∉ ended.2.live)
          ∨ (ended.1 = some false ∧ deadline ≤ ended.2.now))
        ∧ (poll (killPoll pid deadline) pollPause (pollRounds timeout) w).1 = some ())
    ∧ ∀ fuel, w.env.waits.length ≤ fuel →
      reapAndHandleExits fuel w = w.reapChildren
        ∧ reapRemaining fuel w = reapRemaining w.env.waits.length w
        ∧ ∀ (g : DependencyGraph) (s : Startup), s.world = w →
          s.reapLoop g fuel = s.reapOneshotsDuringStartup g := by
  refine ⟨w.awaitExit_ends, fun pid timeout deadline h => ⟨stopPoll_ends w pid h, ?_⟩,
    fun fuel hfuel => ⟨?_, ?_, ?_⟩⟩
  · obtain ⟨answer, hanswer⟩ := Option.isSome_iff_exists.1 (killPoll_ends w pid h)
    exact hanswer
  · exact fuel_enough (reapAndHandleExits · w) (reapAndHandleExits_fuel · w) hfuel
  · exact fuel_enough (reapRemaining · w) (reapRemaining_fuel · w) hfuel
  · rintro g s rfl
    exact fuel_enough (s.reapLoop g ·) (reapLoop_fuel · s) hfuel

/-- A shutdown stops exactly the services of the graph. -/
theorem executeShutdown_cases (h : w.executeShutdown g = some w') :
    (∀ n, w'.pidOf n = if n ∈ g.allServices then none else w.pidOf n)
      ∧ ∃ es, w'.log = w.log ++ es
          ∧ ∀ n ∈ g.allServices, ∀ p, w.pidOf n = some p → ∃ sig, .kill p sig ∈ es := by
  unfold executeShutdown at h
  obtain ⟨v, hv, hw'⟩ := Option.bind_eq_some_iff.1 h
  obtain rfl := Option.some.inj hw'
  obtain ⟨hpids, es, hlog, hkills⟩ := foldlM_stop_cases _ hv
  obtain ⟨htree, hrlog⟩ := reapRemaining_cases v.env.waits.length v
  have hmem : ∀ n, n ∈ w.stopOrder g ↔ n ∈ g.allServices :=
    mem_computeReverseTopoOrder _ _ _
  refine ⟨?_, es, hrlog.trans hlog, ?_⟩
  · intro n
    have hn : (reapRemaining v.env.waits.length v).pidOf n = v.pidOf n := by
      unfold World.pidOf
      rw [htree]
    rw [hn, hpids]
    by_cases hg : n ∈ g.allServices
    · rw [if_pos hg, if_pos ((hmem n).2 hg)]
    · rw [if_neg hg, if_neg (fun h => hg ((hmem n).1 h))]
  · exact fun n hn p hp => hkills n ((hmem n).2 hn) p hp

-- ==== the shutdown returns

/-- The clock has room for stopping `count` services that take
`timeout` at most. -/
def Room (w : World) (timeout count : Nat) : Prop :=
  w.horizon + (count * (timeout + stopOverhead) + timeout : Nat)
    < 2 ^ 63 * 1000000000

/-- Within the horizon a deadline can be computed. -/
theorem addDuration_isSome {now : Instant} {h : Int} {d : Nat}
    (hnow : now ≤ h) (hd : d ≤ timeout) (hroom : h + (timeout : Nat) < 2 ^ 63 * 1000000000) :
    addDuration now d = some (now + d) := by
  have hd' : (d : Int) ≤ (timeout : Int) := Int.ofNat_le.2 hd
  exact if_pos (lt_of_le_of_lt (Int.add_le_add hnow hd') hroom)

theorem runStopExec_horizon (w : World) (name : NodeId) (cmd : Option (List String)) :
    (w.runStopExec name cmd).horizon = w.horizon := by
  unfold World.runStopExec
  split <;> rfl

/-- A service that fits the clock is stopped, and only its own share of
the time is gone. -/
theorem stopServiceGraceful_returns {count : Nat}
    (htimeout : ∀ n d, w.defOf n = some d → stopTimeoutOf d ≤ timeout)
    (hroom : w.Room timeout (count + 1)) (name : NodeId) :
    ∃ w', w.stopServiceGraceful name = some w' ∧ w'.Room timeout count
      ∧ ∀ n, w'.defOf n = w.defOf n := by
  cases hp : w.pidOf name with
  | none =>
    refine ⟨w, stopServiceGraceful_idle hp, ?_, fun _ => rfl⟩
    unfold Room at hroom ⊢
    rw [Nat.succ_mul] at hroom
    omega
  | some pid =>
    obtain ⟨wk, hwk, hpid⟩ := Option.bind_eq_some_iff.1 hp
    have hd : stopTimeoutOf wk.svcDef ≤ timeout :=
      htimeout name wk.svcDef (by unfold World.defOf; rw [hwk]; rfl)
    have hexec := Quiet.runStopExec w name wk.svcDef.shutdown.stopExec
    have hexecTime := runStopExec_horizon w name
      wk.svcDef.shutdown.stopExec
    rw [stopServiceGraceful_held hwk hpid]
    generalize parseSignal wk.svcDef.shutdown.stopSignal = sig
    generalize w.runStopExec name wk.svcDef.shutdown.stopExec = v at *
    unfold Room at hroom
    rw [Nat.succ_mul] at hroom
    -- both deadlines are computed from readings within the horizon
    have hnote : (v.note (.kill pid sig)).horizon = w.horizon := hexecTime
    obtain ⟨htime, hread⟩ := readClock_horizon (v.note (.kill pid sig))
    rw [addDuration_isSome (h := w.horizon) (hnote ▸ hread) hd (by omega)]
    dsimp only [Option.bind_some]
    generalize (v.note (.kill pid sig)).readClock.1
      + (stopTimeoutOf wk.svcDef : Int) = d
    have hsig : (v.signalled name pid sig d).horizon = w.horizon :=
      htime.trans hnote
    obtain ⟨htime', hread'⟩ := readClock_horizon (v.signalled name pid sig d)
    rw [addDuration_isSome (h := w.horizon) (hsig ▸ hread') hd (by omega)]
    obtain ⟨u, hu, htree, -, hspent⟩ := awaitStop_cases
      (v.signalled name pid sig d).readClock.2 name pid
      (stopTimeoutOf wk.svcDef)
      ((v.signalled name pid sig d).readClock.1 + stopTimeoutOf wk.svcDef)
    refine ⟨_, rfl, ?_, ?_⟩
    · have hd' := Int.ofNat_le.2 hd
      rw [hu]
      unfold Room
      show u.horizon + _ < _
      omega
    · intro n
      have hquiet := (signalled_cases v name pid sig d).1
      rw [hu, finalizeStop_defOf, ← hexec.defOf, ← hquiet.defOf]
      unfold World.defOf
      rw [htree, (Idle.readClock _).tree]

/-- With room for every timeout the whole order is worked off. -/
theorem foldlM_stop_returns (order : List NodeId) :
    ∀ w : World, (∀ n d, w.defOf n = some d → stopTimeoutOf d ≤ timeout) →
      w.Room timeout order.length → ∃ w', order.foldlM stopServiceGraceful w = some w' := by
  induction order with
  | nil => exact fun w _ _ => ⟨w, rfl⟩
  | cons name order ih =>
    intro w htimeout hroom
    obtain ⟨v, hv, hroom', hdef⟩ :=
      stopServiceGraceful_returns htimeout hroom name
    obtain ⟨w', hw'⟩ := ih v
      (fun n d hd => htimeout n d ((hdef n).symm.trans hd)) hroom'
    refine ⟨w', ?_⟩
    rw [List.foldlM_cons, hv]
    exact hw'

/-- A shutdown whose stop timeouts fit the clock returns. -/
theorem executeShutdown_returns (htimeout : ∀ n d, w.defOf n = some d → stopTimeoutOf d ≤ timeout)
    (hroom : w.Room timeout g.allServices.card) : ∃ w', w.executeShutdown g = some w' := by
  have hlen : (w.stopOrder g).length = g.allServices.card := by
    have hset : (w.stopOrder g).toFinset = g.allServices := by
      ext s
      rw [List.mem_toFinset]
      exact mem_computeReverseTopoOrder _ _ _ s
    rw [← hset, List.toFinset_card_of_nodup]
    exact nodup_computeReverseTopoOrder _ _ _
  rw [← hlen] at hroom
  obtain ⟨v, hv⟩ := foldlM_stop_returns (w.stopOrder g) w htimeout hroom
  refine ⟨reapRemaining v.env.waits.length v, ?_⟩
  unfold executeShutdown
  rw [hv]
  rfl

-- ==== what is stopped

/-- Every worker with a process was sent a signal, and no worker has a
process any more. -/
structure AllStopped (w w' : World) : Prop where
  attempted : ∀ n p, w.pidOf n = some p →
    ∃ es sig, w'.log = w.log ++ es ∧ .kill p sig ∈ es
  none_left : ∀ n, w'.pidOf n = none

/-- All are stopped exactly if every running service is in the graph. -/
theorem allStopped_iff (h : w.executeShutdown g = some w') : AllStopped w w'
    ↔ ∀ n p, w.pidOf n = some p → n ∈ g.allServices := by
  obtain ⟨hpids, es, hlog, hkills⟩ := executeShutdown_cases h
  refine ⟨?_, ?_⟩
  · intro hall n p hp
    by_contra hn
    have hleft := hall.none_left n
    rw [hpids, if_neg hn, hp] at hleft
    cases hleft
  · intro hgraph
    refine ⟨?_, ?_⟩
    · intro n p hp
      obtain ⟨sig, hsig⟩ := hkills n (hgraph n p hp) p hp
      exact ⟨es, sig, hlog, hsig⟩
    · intro n
      rw [hpids]
      split
      · rfl
      · next hn =>
        cases hp : w.pidOf n with
        | none => rfl
        | some p => exact absurd (hgraph n p hp) hn

end World

open World

/-- From every state of the manager, a shutdown that returns has stopped
everything exactly when every worker with a process is a service of the
boot-time graph. That is so as long as no reload has added a worker,
and the shutdown does return whenever the stop timeouts fit the clock, on
the assumption of `runStopExec` that a `stop-exec` command ends. -/
theorem reachable_shutdown_iff {supervisors : List SupervisorDef}
    {services : List ServiceDef} {m : Manager} (h : Manager.Reachable supervisors services m)
    (hphase : m.phase ≠ .exited) (env : Env) : let g := DependencyGraph.build services
    let w := (m.state.withEnv env).world
    (∀ w', w.executeShutdown g = some w' →
      (AllStopped w w' ↔ ∀ n p, w.pidOf n = some p → n ∈ g.allServices))
    ∧ ((∀ n, .joined n ∉ w.log) →
        ∀ n p, w.pidOf n = some p → n ∈ g.allServices)
    ∧ ∀ timeout : Nat,
        (∀ n d, w.defOf n = some d → stopTimeoutOf d ≤ timeout) →
        w.Room timeout g.allServices.card →
        ∃ w', w.executeShutdown g = some w' := by
  refine ⟨fun _ => allStopped_iff, ?_, fun _ => executeShutdown_returns⟩
  intro hjoined n p hp
  obtain ⟨wk, hwk, -⟩ := Option.bind_eq_some_iff.1 hp
  have hdef : m.state.world.defOf n = some wk.svcDef := by
    unfold World.defOf
    exact Option.map_eq_some_iff.2 ⟨wk, hwk, rfl⟩
  rcases reachable_defOf h hphase hdef with ⟨hmem, hname⟩ | hj
  · rw [DependencyGraph.build_allServices, List.mem_toFinset, ← hname]
    exact List.mem_map_of_mem hmem
  · exact absurd hj (hjoined n)

-- ==== a shutdown after a reload

/-- `a` runs and is about to exit with 0. -/
def soloLeaving : World :=
  (soloRunning.withEnv { waits := [.exited 100 0] }).world

/-- The wait for `a` ends with its exit, and two rounds of reaping are as good
as any number. -/
theorem solo_loops_end :
    (poll (stopPoll 100 (fromSecs 10 : Nat)) pollPause (pollRounds (fromSecs 10))
        soloLeaving).1 = some true
      ∧ reapAndHandleExits 2 soloLeaving = soloLeaving.reapChildren := by
  obtain ⟨-, hwait, hreap⟩ := loops_end soloLeaving
  refine ⟨?_, (hreap 2 (by decide)).1⟩
  rcases (hwait 100 (fromSecs 10) (fromSecs 10 : Nat) (by decide)).1 with hgone | ⟨hlate, -⟩
  · exact hgone.1
  · cases hlate

/-- Without a reload everything is stopped. -/
theorem solo_shutdown_allStopped : Manager.Reachable [] [soloDef] ⟨.mainReap, soloRunning⟩
    ∧ ∃ w', soloLeaving.executeShutdown soloGraph = some w'
        ∧ AllStopped soloLeaving w' := by
  obtain ⟨hiff, hgraph, hreturns⟩ := reachable_shutdown_iff
    solo_reachable (by simp) { waits := [.exited 100 0] }
  have hdef : ∀ n d, soloLeaving.defOf n = some d → d = soloDef := by
    intro n d hd
    have hall : soloLeaving.tree.allWorkers = {"a"} := by decide
    have ha : soloLeaving.defOf "a" = some soloDef := by decide
    obtain ⟨wk, hwk, -⟩ := Option.map_eq_some_iff.1 hd
    have hn : n ∈ soloLeaving.tree.allWorkers := mem_allWorkers.2 ⟨wk, hwk⟩
    rw [hall, Finset.mem_singleton] at hn
    rw [hn, ha] at hd
    exact (Option.some.inj hd).symm
  have htimeout : stopTimeoutOf soloDef ≤ fromSecs 10 := by decide
  obtain ⟨w', hw'⟩ := hreturns (fromSecs 10)
    (fun n d hd => by rw [hdef n d hd]; exact htimeout)
    (by unfold Room; decide)
  refine ⟨solo_reachable, w', hw', (hiff w' hw').2 (hgraph ?_)⟩
  intro n
  show _ ∉ soloRunning.world.log
  rw [solo_log]
  simp

/-- A service that is not on the disk at boot. -/
def lateDef : ServiceDef :=
  { service := { name := "late", exec := ["/bin/late"] } }

/-- `a` runs as process 100; a reload has added `late` and started it as
process 101. -/
def soloReloaded : World :=
  ({ (soloRunning.withEnv {}).world.reapChildren with
    env := { forks := [some 101]
             disk := some [soloDef, lateDef] } }).reloadServices

/-- A reload starts `late`; the shutdown that follows returns without
having sent a signal to its process. -/
theorem late_survives_shutdown : ∃ m, Manager.Reachable [] [soloDef] m ∧ m.phase = .exited
    ∧ m.state.world.pidOf "late" = some 101
    ∧ ∀ sig, .kill 101 sig ∉ m.state.world.log := by
  have hleft : (({ soloReloaded with
      env := { waits := [.exited 100 0] } }).executeShutdown soloGraph).bind
        (fun w => (w.pidOf "late").map fun p => (p, w.log))
      = some (101, soloReloaded.log ++ [.kill 100 .sigterm]) := by decide
  obtain ⟨w, hw, hp⟩ := Option.bind_eq_some_iff.1 hleft
  obtain ⟨p, hp, heq⟩ := Option.map_eq_some_iff.1 hp
  obtain ⟨rfl, hlog⟩ := Prod.mk.inj heq
  have hreap := solo_reachable.step (.mainReap _ {})
  have hlisten := hreap.step (.mainListen _ [.reload, .shutdown])
  have hreload := hlisten.step (.act _
    { forks := [some 101], disk := some [soloDef, lateDef] } false .reload
    [.shutdown] soloReloaded rfl)
  have hdown := hreload.step
    (.shutdown _ { waits := [.exited 100 0] } false [] w hw)
  refine ⟨_, hdown, rfl, hp, ?_⟩
  intro sig
  have hbefore : soloReloaded.log = soloRunning.world.log
      ++ [.joined "late", .start "late" none, .spawned "late" 101] := by
    decide
  show _ ∉ w.log
  rw [hlog, hbefore, solo_log]
  simp

end Dynamod.Svmgr
