/-
The exit of a worker the manager itself asked to stop.

`stop_worker` writes `Stopping`; `handle_child_exit` overwrites that
state before it asks the strategy, and the strategy looks only at the
restart policy and the exit. So a requested stop is left alone exactly
when the policy would not restart the worker after a crash with the
same exit: the state plays no part.
-/
import Dynamod.Svmgr.Proofs.Tracking

namespace Dynamod.Svmgr

open Lib SupervisorTree

namespace World

-- ==== strategies that do nothing

theorem restartDue_false_action {w : World} {sup child : NodeId}
    {exit : ExitInfo} (h : w.restartDue sup child exit = false) :
    (w.applyStrategy sup child exit).1 = {}
      ∧ (w.applyStrategy sup child exit).2.log = w.log
      ∧ (∀ s, (w.applyStrategy sup child exit).2.tree.getSupervisor s
          = w.tree.getSupervisor s) := by
  obtain ⟨haction, hsups⟩ := applyStrategy_unrecorded w.readClock.1 h
  rw [applyStrategy_fst, applyStrategy_snd, h]
  exact ⟨haction, List.append_nil _, hsups⟩

theorem restartDue_true_log {w : World} {sup child : NodeId}
    {exit : ExitInfo} (h : w.restartDue sup child exit = true) :
    (w.applyStrategy sup child exit).2.log = w.log ++ [.recorded sup] := by
  rw [applyStrategy_snd, h]
  rfl

-- ==== the exit of one worker

/-- The exit of `n` was only booked: nothing was stopped, started or
recorded, no supervisor changed, and `n` is down. -/
structure LeftAlone (w w' : World) (n : NodeId) (p : Pid)
    (exit : ExitInfo) : Prop where
  log : w'.log = w.log ++ [.exited n p exit .supervisor]
  supervisors : ∀ s, w'.tree.getSupervisor s = w.tree.getSupervisor s
  down : w'.pidOf n = none

section Exit

variable {w : World} {n : NodeId} {wk : WorkerNode} {p : Pid}
  (exit : ExitInfo)

/-- The worker after the bookkeeping of its exit. -/
theorem exitWorker_getWorker (hwk : w.tree.getWorker n = some wk) :
    (w.exitWorker n p exit .supervisor).tree.getWorker n
      = some { wk with pid := none, state := exit.state } := by
  show ((w.tree.unregisterPid p).modifyWorker n _).getWorker n = _
  rw [getWorker_modifyWorker, if_pos rfl, getWorker_unregisterPid, hwk]
  rfl

theorem exitWorker_restartDue (hwk : w.tree.getWorker n = some wk) :
    (w.exitWorker n p exit .supervisor).restartDue wk.parent n exit
      = ((w.tree.getSupervisor wk.parent).isSome && shouldRestart wk.restartPolicy exit) := by
  have hsup : (w.exitWorker n p exit .supervisor).tree.getSupervisor wk.parent
      = w.tree.getSupervisor wk.parent := by
    show ((w.tree.unregisterPid p).modifyWorker n _).getSupervisor _ = _
    rw [getSupervisor_modifyWorker, getSupervisor_unregisterPid]
  unfold restartDue shouldRestartChild
  rw [hsup, exitWorker_getWorker exit hwk]

/-- Whatever the worker's state was before, Stopping or not: its exit
is left alone exactly when its policy asks for no restart, or nobody
supervises it. -/
theorem handleChildExit_leftAlone_iff {reap : World → World}
    (hreap : ∀ v, Moves v (reap v)) (hwk : w.tree.getWorker n = some wk)
    (hp : w.tree.workerForPid p = some n) : LeftAlone w (handleChildExit reap w p exit) n p exit
      ↔ shouldRestart wk.restartPolicy exit = false
        ∨ w.tree.getSupervisor wk.parent = none := by
  have hget := exitWorker_getWorker (p := p) exit hwk
  have hparent := parentOf_worker hget
  have hdue := exitWorker_restartDue (p := p) exit hwk
  have heq : handleChildExit reap w p exit
      = superviseExit reap (w.exitWorker n p exit .supervisor) n exit := by
    unfold handleChildExit
    rw [hp]
  rw [heq]
  generalize hu : w.exitWorker n p exit .supervisor = u at *
  have hlog : u.log = w.log ++ [.exited n p exit .supervisor] := by
    rw [← hu]
    rfl
  cases hd : u.restartDue wk.parent n exit with
  | true =>
    -- the restart is recorded, so the log holds more than the exit
    rw [hd] at hdue
    have hboth := Bool.and_eq_true_iff.1 hdue.symm
    refine iff_of_false ?_ ?_
    · intro h
      have hgrow := (Moves.steps.afterStrategy hreap hparent exit).later.log
      rw [restartDue_true_log hd, h.log, hlog] at hgrow
      have := hgrow.length_le
      simp at this
    · intro h
      rcases h with h | h
      · rw [h] at hboth
        exact absurd hboth.2 (by simp)
      · rw [h] at hboth
        exact absurd hboth.1 (by simp)
  | false =>
    obtain ⟨haction, hlog', hsups⟩ := restartDue_false_action hd
    have hquiet := Quiet.applyStrategy u wk.parent n exit
    have hresult : superviseExit reap u n exit
        = (u.applyStrategy wk.parent n exit).2 := by
      rw [superviseExit_kept reap hparent (by rw [haction]), haction]
      rfl
    refine iff_of_true ?_ ?_
    · rw [hresult]
      refine ⟨hlog'.trans hlog, ?_, ?_⟩
      · intro s
        rw [hsups, ← hu]
        show ((w.tree.unregisterPid p).modifyWorker n _).getSupervisor s = _
        rw [getSupervisor_modifyWorker, getSupervisor_unregisterPid]
      · rw [hquiet.pidOf]
        unfold World.pidOf
        rw [hget]
        rfl
    · rw [hd] at hdue
      rcases Bool.and_eq_false_iff.1 hdue.symm with h | h
      · exact .inr (Option.not_isSome_iff_eq_none.1 (by simp [h]))
      · exact .inl h

end Exit

/-- A worker in state `Stopping`: what `stop_worker` asked for is left
alone exactly when the worker's restart policy does not restart it
after this exit, or nobody supervises it. -/
theorem stopping_exit_iff {w : World} {n : NodeId} {wk : WorkerNode}
    {p : Pid} {exit : ExitInfo} {reap : World → World}
    (hreap : ∀ v, Moves v (reap v)) (hwk : w.tree.getWorker n = some wk)
    (_hstopping : ∃ deadline, wk.state = .stopping deadline)
    (hp : w.tree.workerForPid p = some n) : LeftAlone w (handleChildExit reap w p exit) n p exit
      ↔ shouldRestart wk.restartPolicy exit = false
        ∨ w.tree.getSupervisor wk.parent = none :=
  handleChildExit_leftAlone_iff exit hreap hwk hp

end World

-- ==== a stopped service comes back

open World

/-- `a` runs, and a `StopService` request was carried out. -/
def soloStopping : World :=
  ((soloRunning.withEnv {}).world.reapChildren).stopWorker "a"

/-- The process of the stopped service exits with code 0, and the next
fork answers 101. -/
def soloStopped : World :=
  { soloStopping with
    env := { waits := [.exited 100 0], forks := [some 101] } }.reapChildren

/-- The reaper has just been told of the exit of process 100. -/
def soloReaped : World := { soloStopping with live := ∅ }

/-- `a` is permanent and the root supervises it, so its exit is not left
alone. -/
theorem solo_stopping_exit : (∃ deadline, (soloReaped.tree.getWorker "a").map WorkerNode.state
      = some (.stopping deadline))
    ∧ ¬ LeftAlone soloReaped (handleChildExit World.reapChildren soloReaped 100 ⟨some 0, none⟩)
        "a" 100 ⟨some 0, none⟩ := by
  refine ⟨⟨none, by decide⟩, ?_⟩
  rw [@stopping_exit_iff soloReaped "a"
    { newWorker soloDef "root" 0 with
      state := .stopping none, pid := some 100 }
    100 ⟨some 0, none⟩ World.reapChildren Moves.closed.reapChildren
    (by decide) ⟨none, rfl⟩ (by decide)]
  decide

/-- `a` is stopped on request and exits with code 0. The root records
a restart and `a` runs again as process 101. -/
theorem solo_stop_restarts : (soloStopping.tree.getWorker "a").map WorkerNode.state
      = some (.stopping none)
    ∧ soloStopped.log = soloStopping.log
        ++ [.exited "a" 100 ⟨some 0, none⟩ .supervisor, .recorded "root",
            .start "a" none, .spawned "a" 101]
    ∧ soloStopped.pidOf "a" = some 101 := by
  decide

end Dynamod.Svmgr
