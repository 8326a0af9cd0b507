/-
The delay before svmgr is restarted.

`onExit` hands out the current delay and doubles it for the next time;
`spawn` sets it back to its initial value whenever it succeeds. A
restart is a successful spawn, so the doubled delay is gone before the
next exit reads it: whoever runs has been spawned, and their exit waits
500 ms (`Unraised`). What the documentation asks for instead is
`DocumentedDelay`, read off the log.
-/
import Mathlib.Data.List.Induction
import Dynamod.Init.Proofs.Supervision

namespace Dynamod.Init

open Lib

namespace EventLoop

variable {l l' : EventLoop}

-- ==== the documented delay

/-- The delay of the restart behind the last exit, if there was one and
no emergency shell has run since. -/
def previousDelay (log : List Note) : Option Nat :=
  log.foldl (fun delay n => match n with
    | .slept ms => some ms
    | .exited _ => none
    | .shell => none
    | _ => delay) none

/-- An exit at `now` is unrequested and within 30 s of the spawn. -/
def RapidAt (log : List Note) (now : Int) : Prop :=
  (tally log).asked = false ∧ ∃ since, (tally log).spawnedAt = some since ∧ now - since < 30000

/-- There has been no restart yet. -/
def Unrestarted (log : List Note) : Prop := ∀ ms, .slept ms ∉ log

/-- The restart behind an exit at `now` may wait for `ms`: 500 ms the
first time, and twice the previous delay behind a rapid failure, up to
30 s. -/
def DocumentedDelay (log : List Note) (now : Int) (ms : Nat) : Prop :=
  (Unrestarted log → ms = 500)
    ∧ (RapidAt log now → ∀ d, previousDelay log = some d → ms = min (2 * d) 30000)

/-- The delays that the handling of an exit waits for are the documented
ones. -/
def RestartsAsDocumented (l : EventLoop) (a : ExitAnswers) : Prop :=
  ∀ ms, .slept ms ∈ (l.handleSvmgrExit a).log.drop l.log.length →
    DocumentedDelay l.log a.exitNow ms

-- ==== the delay in use

/-- A running svmgr has been spawned, which has set the delay back, and
no restart has ever waited longer. -/
structure Unraised (l : EventLoop) : Prop where
  running : l.svmgr.pid ≠ none → l.svmgr.backoffMs = 500
  slept : ∀ ms, .slept ms ∈ l.log → ms = 500

theorem slept_append {log notes : List Note} (h : ∀ ms, .slept ms ∈ log → ms = 500)
    (hnotes : ∀ ms, .slept ms ∈ notes → ms = 500) :
    ∀ ms, .slept ms ∈ log ++ notes → ms = 500 := by
  intro ms hmem
  exact (List.mem_append.1 hmem).elim (h ms) (hnotes ms)

-- ==== respawns

/-- Behind a successful spawn the delay is the initial one. -/
theorem Respawned.unraised {r : RespawnAnswers} (h : Respawned l r l')
    (hl : ∀ ms, .slept ms ∈ l.log → ms = 500) : l'.Unraised := by
  obtain ⟨pid, initFd, pidfd, now, -, rfl⟩ := h
  exact ⟨fun _ => rfl, slept_append hl (by simp)⟩

theorem Unraised.enterEmergencyMode (hl : ∀ ms, .slept ms ∈ l.log → ms = 500)
    (r : RespawnAnswers) : (l.enterEmergencyMode r).Unraised := by
  have hshell : ∀ ms, .slept ms ∈ l.afterShell.log → ms = 500 :=
    slept_append hl (by simp)
  rcases l.enterEmergencyMode_cases r with ⟨-, heq⟩ | hrespawned
  · rw [heq]
    exact ⟨fun _ => rfl, hshell⟩
  · exact hrespawned.unraised hshell

/-- The exit of a running svmgr: the restart waits for 500 ms. -/
theorem Unraised.handleSvmgrExit (h : l.Unraised) (hpid : l.svmgr.pid ≠ none)
    (a : ExitAnswers) : (l.handleSvmgrExit a).Unraised := by
  obtain ⟨fds, htear⟩ := l.tearDown_eq a.exitNow
  have hslept : ∀ ms, .slept ms ∈ (l.torn a.exitNow).log → ms = 500 := by
    rw [torn, htear]
    exact slept_append h.slept (by simp)
  have htorn : (l.torn a.exitNow).svmgr.pid = none := by
    rw [torn, htear]
    rfl
  rw [handleSvmgrExit_eq]
  cases l.exitPath a with
  | emergency =>
    exact Unraised.enterEmergencyMode
      (l := { l.torn a.exitNow with pendingEmergency := false }) hslept a.respawn
  | reboot => exact ⟨fun hrunning => absurd htorn hrunning, hslept⟩
  | restart =>
    rw [h.running hpid]
    have hslept' : ∀ ms, .slept ms ∈ (l.torn a.exitNow).log ++ [.slept 500] → ms = 500 :=
      slept_append hslept (by simp)
    rcases restart_cases { l.torn a.exitNow with postEmergencyArmed := false } 500 a.respawn
      with ⟨-, heq⟩ | hrespawned
    · rw [heq]
      exact ⟨fun hrunning => absurd htorn hrunning, hslept'⟩
    · exact hrespawned.unraised hslept'

-- ==== runs

theorem Unraised.step {e : Step} (hl : l.Unraised)
    (hok : l.exitOf e ≠ none → l.svmgr.pid ≠ none) (h : l.step e = .ok l') : l'.Unraised := by
  cases step_move h with
  | quiet _ hquiet =>
    obtain ⟨notes, hlog, hsilent⟩ := hquiet.log
    refine ⟨hquiet.svmgr ▸ hl.running, hlog ▸ slept_append hl.slept fun ms hmem => ?_⟩
    cases hsilent _ hmem
  | stop _ => exact ⟨hl.running, slept_append (slept_append hl.slept (by simp)) (by simp)⟩
  | shell _ => exact Unraised.enterEmergencyMode (slept_append hl.slept (by simp)) _
  | exit hexit => exact hl.handleSvmgrExit (hok (by rw [hexit]; nofun)) _

theorem boot_unraised {undef : Mem} {sigFd : Fd} {a : BootAnswers}
    (h : boot undef sigFd a = some l) : l.Unraised := by
  have hempty : ∀ ms, .slept ms ∈ (init undef sigFd .create).log → ms = 500 :=
    fun ms hmem => absurd hmem List.not_mem_nil
  rcases boot_cases h with ⟨-, rfl⟩ | ⟨-, hrespawned⟩
  · exact Unraised.enterEmergencyMode hempty a.respawn
  · exact hrespawned.unraised hempty

theorem Reaches.unraised {want : RespawnAnswers → Prop} (h : ReachesSpawning want l) :
    l.Unraised := by
  induction h with
  | boot _ hboot => exact boot_unraised hboot
  | step _ hok hstep ih => exact ih.step hok.1 hstep

/-- An exit that restarts svmgr waits for the delay of the record, once;
no other exit waits. -/
theorem slept_handleSvmgrExit (l : EventLoop) (a : ExitAnswers) (ms : Nat) :
    .slept ms ∈ (l.handleSvmgrExit a).log.drop l.log.length
      ↔ l.exitPath a = .restart ∧ ms = l.svmgr.backoffMs := by
  refine (mem_exit_log (n := .slept ms) nofun nofun).trans ?_
  simp

/-- The previous delay is one that was waited for. -/
theorem slept_of_previousDelay {log : List Note} {d : Nat} (h : previousDelay log = some d) :
    .slept d ∈ log := by
  induction log using List.reverseRecOn with
  | nil => cases h
  | append_singleton log n ih =>
    unfold previousDelay at h
    rw [List.foldl_append, List.foldl_cons, List.foldl_nil] at h
    have hold : previousDelay log = some d → .slept d ∈ log ++ [n] :=
      fun h => List.mem_append_left _ (ih h)
    cases n with
    | slept ms =>
      cases h
      exact List.mem_append_right _ List.mem_cons_self
    | exited now => cases h
    | shell => cases h
    | spawned pid now => exact hold h
    | user2 => exact hold h
    | terminated pid => exact hold h
    | shutdownSignal sock name => exact hold h
    | heartbeatAck sock => exact hold h
    | svmgrRequested kind => exact hold h
    | kmsg level text => exact hold h

/-- Every restart waits for 500 ms. So the delays are the documented ones
exactly at the exits that are not rapid failures behind a restart. -/
theorem restarts_documented_iff (h : ReachesSpawning (fun _ => True) l)
    (hpid : l.svmgr.pid ≠ none) (a : ExitAnswers) : l.RestartsAsDocumented a
      ↔ ¬ (l.exitPath a = .restart ∧ RapidAt l.log a.exitNow
        ∧ previousDelay l.log ≠ none) := by
  have hl := Reaches.unraised h
  have hdelay := hl.running hpid
  constructor
  · rintro hdoc ⟨hpath, hrapid, hprevious⟩
    obtain ⟨d, hd⟩ := Option.ne_none_iff_exists'.1 hprevious
    have hms := (hdoc _ ((slept_handleSvmgrExit l a _).2 ⟨hpath, rfl⟩)).2 hrapid d hd
    rw [hdelay, hl.slept d (slept_of_previousDelay hd)] at hms
    omega
  · intro hfirst ms hms
    obtain ⟨hpath, rfl⟩ := (slept_handleSvmgrExit l a ms).1 hms
    refine ⟨fun _ => hdelay, fun hrapid d hd => ?_⟩
    exact absurd ⟨hpath, hrapid, by rw [hd]; nofun⟩ hfirst

/-- A first exit behind 49 s. -/
theorem first_restart_documented :
    (booted 1000).RestartsAsDocumented (restartAt 50000 (.forked 101 5 (some 6) 51000) true)
      ∧ .slept 500 ∈ ((booted 1000).handleSvmgrExit
        (restartAt 50000 (.forked 101 5 (some 6) 51000) true)).log := by
  refine ⟨(restarts_documented_iff (.boot True.intro (boot_booted 1000)) nofun _).2 ?_, by decide⟩
  rintro ⟨-, -, hprevious⟩
  exact hprevious rfl

/-- The second of two rapid failures waits for 500 ms again, and not for
a second. -/
theorem second_restart_undoubled : ReachesSpawning (fun r => ¬ r.Fails) (flapping 1000 1)
    ∧ RapidAt (flapping 1000 1).log 4000
    ∧ previousDelay (flapping 1000 1).log = some 500
    ∧ .slept 500 ∈ ((flapping 1000 1).handleSvmgrExit (rapidExit 1000 1)).log.drop
      (flapping 1000 1).log.length
    ∧ ¬ (flapping 1000 1).RestartsAsDocumented (rapidExit 1000 1) := by
  have hrapid : RapidAt (flapping 1000 1).log 4000 := ⟨by decide, 3000, by decide, by decide⟩
  have hslept : .slept 500 ∈ ((flapping 1000 1).handleSvmgrExit (rapidExit 1000 1)).log.drop
      (flapping 1000 1).log.length := by decide
  have hprevious : previousDelay (flapping 1000 1).log = some 500 := by decide
  refine ⟨reaches_flapping ?_ (fun k => ?_) 1 (by decide), hrapid, hprevious, hslept,
    fun hdoc => ?_⟩
  · rintro (h | h) <;> cases h
  · rintro (h | h) <;> cases h
  · exact absurd ((hdoc 500 hslept).2 hrapid 500 hprevious) (by decide)

end EventLoop

end Dynamod.Init
