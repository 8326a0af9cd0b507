/-
The supervision of svmgr over whole runs of the event loop.

# Never without svmgr

`supervised_of_respawns`: as long as every restart finds a process and
every pidfd gets into the epoll set. The two conditions are the two
places where the source only prints an error.

# Rapid failures

`Tally` reads the history of svmgr off the log, in its own terms: when
the running instance was spawned, whether `SIGUSR2` came while it ran,
and how many exits in a row were unrequested and rapid. `Counted` is the
invariant that ties the counter and the three flags of the source to
it. It holds as long as no instance is spawned at clock 0, which
`onExit` takes for no spawn at all: `uncounted` has that run.
-/
import Dynamod.Init.Proofs.Loop

namespace Dynamod.Init

open Lib

variable {r : RespawnAnswers} {e : Step} {a : ExitAnswers}

-- ==== never without svmgr

/-- A pidfd, where there is one, gets into the epoll set. -/
def RespawnAnswers.Registers (r : RespawnAnswers) : Prop :=
  ∀ pid initFd pidfd now, r.spawn = .forked pid initFd (some pidfd) now →
    r.addPidfd = true

/-- The spawn succeeds, at another time than 0. -/
def RespawnAnswers.Dated (r : RespawnAnswers) : Prop :=
  ∃ pid initFd pidfd now, r.spawn = .forked pid initFd pidfd now ∧ now ≠ 0

theorem RespawnAnswers.Dated.not_fails (h : r.Dated) : ¬ r.Fails := by
  obtain ⟨pid, initFd, pidfd, now, hspawn, -⟩ := h
  rw [Fails, hspawn]
  rintro (h | h) <;> cases h

namespace EventLoop

variable {l l' : EventLoop}

/-- Init has an svmgr, and its exit will be noticed: through the pidfd,
or through `SIGCHLD` where there is no pidfd. -/
def Noticing (l : EventLoop) : Prop :=
  l.svmgr.pid ≠ none ∧ (l.svmgr.pidfd = none
    ∨ ∃ fd, l.svmgr.pidfd = some fd ∧ (fd, .svmgrPidfd) ∈ l.registered)

/-- Init shuts down or looks after svmgr. -/
def Supervised (l : EventLoop) : Prop :=
  l.shutdownRequested ≠ none ∨ l.Noticing

/-- What the step ends in, and the answers with which it spawns, where
it handles an exit or runs the shell. -/
def attempt (l : EventLoop) (e : Step) : Option (ExitPath × RespawnAnswers) :=
  match l.exitOf e, e with
  | some a, _ => some (l.exitPath a, a.respawn)
  | none, .signal (.user2 r) =>
    if l.svmgr.pid = none then some (.emergency, r) else none
  | none, _ => none

theorem attempt_exit (h : l.exitOf e = some a) : l.attempt e = some
    (l.exitPath a, a.respawn) := by
  unfold attempt
  rw [h]

theorem attempt_shell (h : l.svmgr.pid = none) :
    l.attempt (.signal (.user2 r)) = some (.emergency, r) :=
  if_pos h

/-- The kernel answers that keep svmgr supervised. Behind the shell a
failed spawn is a reboot. -/
def Sound : ExitPath → RespawnAnswers → Prop
  | .emergency, r => r.Registers
  | .reboot, _ => True
  | .restart, r => ¬ r.Fails ∧ r.Registers

/-- The invariant behind `Supervised`. -/
structure Watched (l : EventLoop) : Prop where
  supervised : l.Supervised
  pidfd : l.svmgr.pid = none → l.svmgr.pidfd = none

/-- A child that was registered is watched. -/
theorem Respawned.watched (h : Respawned l r l')
    (hr : r.Registers) (hpidfd : l.svmgr.pidfd = none) : l'.Watched := by
  obtain ⟨pid, initFd, pidfd, now, hspawn, rfl⟩ := h
  refine ⟨.inr ⟨nofun, ?_⟩, nofun⟩
  cases pidfd with
  | none => exact .inl hpidfd
  | some fd =>
    have hmem := pidfd_mem_svmgrFds (c := spawnedChild l.svmgr pid initFd (some fd) now) rfl
      (hr pid initFd fd now hspawn)
    exact .inr ⟨fd, rfl, List.mem_append_right _ hmem⟩

theorem enterEmergencyMode_watched (hr : r.Registers)
    (hpidfd : l.svmgr.pidfd = none) : (l.enterEmergencyMode r).Watched := by
  rcases l.enterEmergencyMode_cases r with ⟨-, heq⟩ | hrespawned
  · rw [heq]
    exact ⟨.inl nofun, fun _ => hpidfd⟩
  · exact hrespawned.watched hr hpidfd

theorem handleSvmgrExit_watched
    (h : Sound (l.exitPath a) a.respawn) : (l.handleSvmgrExit a).Watched := by
  obtain ⟨fds, htear⟩ := l.tearDown_eq a.exitNow
  have hpidfd : (l.torn a.exitNow).svmgr.pidfd = none := by
    rw [torn, htear]
    rfl
  rw [handleSvmgrExit_eq]
  cases hpath : l.exitPath a with
  | emergency =>
    rw [hpath] at h
    exact enterEmergencyMode_watched h hpidfd
  | reboot => exact ⟨.inl nofun, fun _ => hpidfd⟩
  | restart =>
    rw [hpath] at h
    rcases restart_cases _ l.svmgr.backoffMs a.respawn with
      ⟨hfails, -⟩ | hrespawned
    · exact absurd hfails h.1
    · exact hrespawned.watched h.2 hpidfd

/-- A step ends the child only to try the next one. -/
theorem Watched.step (hl : l.Watched)
    (hok : ∀ p ∈ l.attempt e, Sound p.1 p.2) (h : l.step e = .ok l') : l'.Watched := by
  cases step_move h with
  | quiet _ hquiet =>
    refine ⟨?_, fun hpid => ?_⟩
    · refine hl.supervised.imp hquiet.kept fun hnoticing => ?_
      rw [Noticing, hquiet.svmgr, hquiet.registered]
      exact hnoticing
    · rw [hquiet.svmgr] at hpid ⊢
      exact hl.pidfd hpid
  | stop hpid => exact ⟨hl.supervised, hl.pidfd⟩
  | shell hpid =>
    exact enterEmergencyMode_watched (hok _ (attempt_shell hpid)) (hl.pidfd hpid)
  | exit hexit => exact handleSvmgrExit_watched (hok _ (attempt_exit hexit))

theorem boot_watched {undef : Mem} {sigFd : Fd} {a : BootAnswers}
    (ha : a.respawn.Registers) (h : boot undef sigFd a = some l) : l.Watched := by
  rcases boot_cases h with ⟨-, rfl⟩ | ⟨-, hrespawned⟩
  · exact enterEmergencyMode_watched ha rfl
  · exact hrespawned.watched ha rfl

/-- In every run in which the restarts find a process and the pidfds get
into the epoll set, init is never without a supervised svmgr. -/
theorem supervised_of_respawns (h : Reaches (fun a => a.respawn.Registers)
    (fun l e => ∀ p ∈ l.attempt e, Sound p.1 p.2) l) : l.Supervised := by
  have hwatched : l.Watched := by
    induction h with
    | boot ha hboot => exact boot_watched ha hboot
    | step _ hok hstep ih => exact ih.step hok hstep
  exact hwatched.supervised

/-- A boot with a pidfd, everything registered. -/
def bootAnswers (now : Int) : BootAnswers where
  emergency := false
  initLoop := true
  respawn := { spawn := .forked 100 5 (some 6) now, addPidfd := true, addSock := true }

/-- The loop behind it. -/
def booted (now : Int) : EventLoop where
  svmgr := { Child.create with
    pid := some 100, initSockFd := some 5, pidfd := some 6, spawnTimeMs := now }
  shutdownRequested := none
  ipcBuf := .new fun _ => 0
  postEmergencyArmed := false
  pendingEmergency := false
  registered := [(4, .signalFd), (6, .svmgrPidfd), (5, .initSock)]
  log := [.spawned 100 now]

theorem boot_booted (now : Int) : boot (fun _ => 0) 4 (bootAnswers now) = some (booted now) := rfl

/-- An exit at some time, and a restart. -/
def restartAt (now : Int) (spawn : SpawnAnswer) (addPidfd : Bool) : ExitAnswers where
  exitNow := now
  graceNow := now
  respawn := { spawn := spawn, addPidfd := addPidfd, addSock := true }

theorem supervised_restart : ((booted 1000).handleSvmgrExit
    (restartAt 50000 (.forked 101 5 (some 6) 51000) true)).Supervised := by
  refine supervised_of_respawns (.step (e := .exit _) (.boot ?_ (boot_booted 1000)) ?_ rfl)
  · intro _ _ _ _ _
    rfl
  · intro p hp
    cases hp
    exact ⟨nofun, fun _ _ _ _ _ => rfl⟩

/-- Any run: whatever the kernel answers. -/
abbrev ReachesAny : EventLoop → Prop := Reaches (fun _ => True) fun _ _ => True

theorem reachesAny_exit (now : Int) (a : ExitAnswers) :
    ReachesAny ((booted now).handleSvmgrExit a) :=
  .step (e := .exit a) (.boot True.intro (boot_booted now)) True.intro rfl

/-- A restart whose `fork` fails leaves init without svmgr, and one
whose pidfd is not registered leaves it with an svmgr whose exit it
will not notice. -/
theorem stranded : ReachesAny ((booted 1000).handleSvmgrExit (restartAt 50000 .forkFailed true))
    ∧ ¬ ((booted 1000).handleSvmgrExit (restartAt 50000 .forkFailed true)).Supervised
    ∧ ReachesAny ((booted 1000).handleSvmgrExit
      (restartAt 50000 (.forked 101 5 (some 6) 51000) false))
    ∧ ¬ ((booted 1000).handleSvmgrExit
      (restartAt 50000 (.forked 101 5 (some 6) 51000) false)).Supervised := by
  refine ⟨reachesAny_exit _ _, ?_, reachesAny_exit _ _, ?_⟩
  · rintro (h | h)
    · exact h rfl
    · exact h.1 rfl
  · rintro (h | ⟨-, h | ⟨fd, hfd, hmem⟩⟩)
    · exact h rfl
    · cases h
    · cases hfd
      revert hmem
      decide

-- ==== rapid failures

/-- The history of svmgr: when the running instance was spawned, whether
`SIGUSR2` came while it ran, and how many exits in a row were unrequested
and within 30 s of the spawn, since the last instance that lived longer
and the last emergency shell. -/
structure Tally where
  spawnedAt : Option Int
  asked : Bool
  rapid : Nat
  deriving DecidableEq

/-- What an observer of the log counts. -/
def Tally.add (t : Tally) : Note → Tally
  | .spawned _ now => { t with spawnedAt := some now, asked := false }
  | .user2 => { t with asked := t.asked || t.spawnedAt.isSome }
  | .exited now =>
    match t.spawnedAt with
    | none => t
    | some since =>
      { spawnedAt := none
        asked := false
        rapid :=
          if t.asked then t.rapid
          else if now - since < 30000 then t.rapid + 1
          else 0 }
  | .shell => { t with rapid := 0 }
  | _ => t

def tally (log : List Note) : Tally := log.foldl Tally.add ⟨none, false, 0⟩

theorem tally_append (log notes : List Note) :
    tally (log ++ notes) = notes.foldl Tally.add (tally log) :=
  List.foldl_append

theorem tally_silent {log notes : List Note} (h : ∀ n ∈ notes, n.Silent) :
    tally (log ++ notes) = tally log := by
  rw [tally_append]
  generalize tally log = t
  induction notes generalizing t with
  | nil => rfl
  | cons n notes ih =>
    have hn : t.add n = t := by
      have hsilent := h n List.mem_cons_self
      cases n with
      | shutdownSignal sock name => rfl
      | heartbeatAck sock => rfl
      | svmgrRequested kind => rfl
      | kmsg level text => rfl
      | _ => cases hsilent
    rw [List.foldl_cons, hn]
    exact ih (fun m hm => h m (List.mem_cons_of_mem _ hm)) t

/-- The counter and the flags of the source, read off the history. -/
structure Counted (l : EventLoop) : Prop where
  running : l.svmgr.pid ≠ none →
    (tally l.log).spawnedAt = some l.svmgr.spawnTimeMs ∧ l.svmgr.spawnTimeMs ≠ 0
  idle : l.svmgr.pid = none → (tally l.log).spawnedAt = none
    ∧ (tally l.log).asked = false
  asked : (tally l.log).asked = l.pendingEmergency
  stopping : l.svmgr.intentionalStop = l.pendingEmergency
  rapid : (tally l.log).rapid = l.svmgr.rapidFailureCount
  below : l.svmgr.rapidFailureCount < svmgrRapidFailureThreshold
  armed : l.postEmergencyArmed = true → l.svmgr.pid ≠ none →
    l.svmgr.rapidFailureCount = 0

theorem rapid_onExit {c : Child} (h : c.spawnTimeMs ≠ 0) (now : Int) :
    (c.onExit now).2.rapidFailureCount = if c.intentionalStop then c.rapidFailureCount
      else if now - c.spawnTimeMs < 30000 then c.rapidFailureCount + 1 else 0 := by
  have hlimit : svmgrRapidFailureUptimeMs = 30000 := rfl
  unfold Child.onExit Child.countExit
  rw [if_pos h, hlimit]
  split_ifs <;> rfl

theorem stopping_onExit (c : Child) (now : Int) : (c.onExit now).2.intentionalStop = false := by
  unfold Child.onExit Child.countExit
  split_ifs with hstop
  · rfl
  all_goals exact Bool.eq_false_iff.2 hstop

/-- There is no instance, and none has been asked to stop. -/
structure Waiting (l : EventLoop) : Prop where
  pid : l.svmgr.pid = none
  spawnedAt : (tally l.log).spawnedAt = none
  asked : (tally l.log).asked = false
  stopping : l.svmgr.intentionalStop = false
  pending : l.pendingEmergency = false

/-- The observer counts an exit as `on_exit` does. -/
theorem Counted.tally_exited (hl : l.Counted) (hpid : l.svmgr.pid ≠ none) (now : Int) :
    tally (l.log ++ [.exited now])
      = ⟨none, false, (l.svmgr.onExit now).2.rapidFailureCount⟩ := by
  obtain ⟨hspawned, hzero⟩ := hl.running hpid
  rw [tally_append, rapid_onExit hzero, hl.stopping, ← hl.asked, ← hl.rapid]
  show (tally l.log).add (.exited now) = _
  rw [Tally.add, hspawned]

theorem Counted.torn_waiting (hl : l.Counted) (hpid : l.svmgr.pid ≠ none) (now : Int) :
    { l.torn now with pendingEmergency := false }.Waiting := by
  obtain ⟨fds, htear⟩ := l.tearDown_eq now
  have htally := hl.tally_exited hpid now
  rw [torn, htear]
  exact ⟨rfl, congrArg Tally.spawnedAt htally, congrArg Tally.asked htally,
    stopping_onExit _ _, rfl⟩

/-- Behind a successful spawn the loop is counted again. -/
theorem Respawned.counted (h : Respawned l r l') (hr : r.Dated)
    (hl : l.Counted) (hpid : l.svmgr.pid = none)
    (harmed : l.postEmergencyArmed = true → l.svmgr.rapidFailureCount = 0) : l'.Counted := by
  obtain ⟨pid, initFd, pidfd, now, hspawn, rfl⟩ := h
  obtain ⟨pid', initFd', pidfd', now', hspawn', hnow⟩ := hr
  cases hspawn.symm.trans hspawn'
  have htally : tally (l.log ++ [.spawned pid now])
      = { tally l.log with spawnedAt := some now, asked := false } :=
    tally_append _ _
  have hasked : l.pendingEmergency = false := hl.asked ▸ (hl.idle hpid).2
  constructor
  · exact fun _ => ⟨congrArg Tally.spawnedAt htally, hnow⟩
  · exact nofun
  · exact (congrArg Tally.asked htally).trans hasked.symm
  · exact hl.stopping
  · exact (congrArg Tally.rapid htally).trans hl.rapid
  · exact hl.below
  · exact fun h _ => harmed h

/-- Behind the shell the count starts again. -/
theorem Waiting.afterShell (hl : l.Waiting) : l.afterShell.Counted := by
  have htally : tally (l.log ++ [.shell]) = { tally l.log with rapid := 0 } :=
    tally_append _ _
  constructor
  · exact fun h => absurd hl.pid h
  · exact fun _ => ⟨(congrArg Tally.spawnedAt htally).trans hl.spawnedAt,
      (congrArg Tally.asked htally).trans hl.asked⟩
  · exact ((congrArg Tally.asked htally).trans hl.asked).trans hl.pending.symm
  · exact hl.stopping.trans hl.pending.symm
  · exact congrArg Tally.rapid htally
  · exact Nat.succ_pos 4
  · exact fun _ _ => rfl

theorem Waiting.enterEmergencyMode (hl : l.Waiting)
    (hr : r.Dated) : (l.enterEmergencyMode r).Counted := by
  rcases l.enterEmergencyMode_cases r with ⟨hfails, -⟩ | hrespawned
  · exact absurd hfails hr.not_fails
  · exact hrespawned.counted hr hl.afterShell hl.pid fun _ => rfl

/-- Only the history that the log holds matters, not the log. -/
theorem Counted.congr (hl : l.Counted) (htally : tally l'.log = tally l.log)
    (hsvmgr : l'.svmgr = l.svmgr) (hpending : l'.pendingEmergency = l.pendingEmergency)
    (harmed : l'.postEmergencyArmed = l.postEmergencyArmed) : l'.Counted := by
  constructor
  · rw [htally, hsvmgr]
    exact hl.running
  · rw [htally, hsvmgr]
    exact hl.idle
  · rw [htally, hpending]
    exact hl.asked
  · rw [hsvmgr, hpending]
    exact hl.stopping
  · rw [htally, hsvmgr]
    exact hl.rapid
  · rw [hsvmgr]
    exact hl.below
  · rw [harmed, hsvmgr]
    exact hl.armed

theorem Quiet.counted {asks : Option ShutdownKind} (h : Quiet asks l l') (hl : l.Counted) :
    l'.Counted := by
  obtain ⟨notes, hlog, hsilent⟩ := h.log
  exact hl.congr (hlog ▸ tally_silent hsilent) h.svmgr h.pending h.armed

/-- The four ways through `handleSvmgrExit`. -/
theorem exitPath_cases (l : EventLoop) (a : ExitAnswers) :
    (l.pendingEmergency = true ∧ l.exitPath a = .emergency)
      ∨ l.pendingEmergency = false
        ∧ ((l.postEmergencyArmed = true
            ∧ a.graceNow - l.svmgr.spawnTimeMs < svmgrPostEmergencyGraceMs
            ∧ l.exitPath a = .reboot)
          ∨ (l.postEmergencyArmed = true →
              svmgrPostEmergencyGraceMs ≤ a.graceNow - l.svmgr.spawnTimeMs)
            ∧ (((l.svmgr.onExit a.exitNow).2.isInCrashLoop = true
                ∧ l.exitPath a = .emergency)
              ∨ ((l.svmgr.onExit a.exitNow).2.isInCrashLoop = false
                ∧ l.exitPath a = .restart))) := by
  have hcrash : (l.svmgr.onExit a.exitNow).2.isInCrashLoop
      = (l.svmgr.countExit a.exitNow).isInCrashLoop := rfl
  unfold exitPath
  by_cases hpending : l.pendingEmergency
  · exact .inl ⟨hpending, if_pos hpending⟩
  rw [if_neg hpending]
  refine .inr ⟨Bool.eq_false_iff.2 hpending, ?_⟩
  by_cases hgrace : l.postEmergencyArmed
      ∧ a.graceNow - l.svmgr.spawnTimeMs < svmgrPostEmergencyGraceMs
  · exact .inl ⟨hgrace.1, hgrace.2, if_pos hgrace⟩
  rw [if_neg hgrace, hcrash]
  refine .inr ⟨fun harmed => Int.not_lt.1 fun h => hgrace ⟨harmed, h⟩, ?_⟩
  cases (l.svmgr.countExit a.exitNow).isInCrashLoop
  · exact .inr ⟨rfl, rfl⟩
  · exact .inl ⟨rfl, rfl⟩

/-- An exit raises the count by one at most. -/
theorem Counted.rapid_le (hl : l.Counted) (hpid : l.svmgr.pid ≠ none) (now : Int) :
    (l.svmgr.onExit now).2.rapidFailureCount ≤ l.svmgr.rapidFailureCount + 1 := by
  rw [rapid_onExit (hl.running hpid).2]
  split_ifs <;> omega

theorem Counted.torn (hl : l.Counted) (hpid : l.svmgr.pid ≠ none) {now : Int}
    (hpending : l.pendingEmergency = false)
    (hbelow : (l.svmgr.onExit now).2.rapidFailureCount < svmgrRapidFailureThreshold) :
    (l.torn now).Counted := by
  obtain ⟨fds, htear⟩ := l.tearDown_eq now
  have htally := hl.tally_exited hpid now
  rw [EventLoop.torn, htear]
  constructor
  · exact fun h => absurd rfl h
  · exact fun _ => ⟨congrArg Tally.spawnedAt htally, congrArg Tally.asked htally⟩
  · exact (congrArg Tally.asked htally).trans hpending.symm
  · exact (stopping_onExit _ _).trans hpending.symm
  · exact congrArg Tally.rapid htally
  · exact hbelow
  · exact fun _ h => absurd rfl h

theorem Counted.disarm (hl : l.Counted) :
    { l with postEmergencyArmed := false }.Counted :=
  ⟨hl.running, hl.idle, hl.asked, hl.stopping, hl.rapid, hl.below, nofun⟩

theorem isInCrashLoop_iff (c : Child) :
    c.isInCrashLoop = true ↔ svmgrRapidFailureThreshold ≤ c.rapidFailureCount :=
  decide_eq_true_iff

/-- An exit: into the shell, or on to the next child. -/
theorem Counted.handleSvmgrExit (hl : l.Counted)
    (hpid : l.svmgr.pid ≠ none) (hr : l.exitPath a ≠ .reboot → a.respawn.Dated) :
    (l.handleSvmgrExit a).Counted := by
  rw [handleSvmgrExit_eq]
  rcases l.exitPath_cases a with ⟨-, hpath⟩ | ⟨hpending, ⟨harmed, -, hpath⟩ |
    ⟨-, ⟨-, hpath⟩ | ⟨hcrash, hpath⟩⟩⟩
  all_goals rw [hpath] at hr ⊢
  · exact (hl.torn_waiting hpid _).enterEmergencyMode (hr nofun)
  · have hle := hl.rapid_le hpid a.exitNow
    rw [hl.armed harmed hpid] at hle
    exact (quiet_request _ _).counted
      (hl.torn hpid hpending (Nat.lt_of_le_of_lt hle (by decide)))
  · exact (hl.torn_waiting hpid _).enterEmergencyMode (hr nofun)
  · have hbelow : (l.svmgr.onExit a.exitNow).2.rapidFailureCount
        < svmgrRapidFailureThreshold := by
      rw [← Nat.not_le, ← isInCrashLoop_iff, hcrash]
      nofun
    have hcounted := (hl.torn hpid hpending hbelow).disarm
    rcases restart_cases _ l.svmgr.backoffMs a.respawn with ⟨hfails, -⟩ | hrespawned
    · exact absurd hfails (hr nofun).not_fails
    · refine hrespawned.counted (hr nofun) ?_ ?_ nofun
      · exact hcounted.congr (tally_append _ [.slept _]) rfl rfl rfl
      · exact (hl.torn_waiting hpid a.exitNow).pid

/-- An exit is the exit of a running svmgr, and the answers to a spawn
are as wanted. -/
def Spawning (want : RespawnAnswers → Prop) (l : EventLoop) (e : Step) : Prop :=
  (l.exitOf e ≠ none → l.svmgr.pid ≠ none)
    ∧ ∀ p ∈ l.attempt e, p.1 ≠ .reboot → want p.2

/-- The loops reached while the answers to all spawns are as wanted. -/
abbrev ReachesSpawning (want : RespawnAnswers → Prop) : EventLoop → Prop :=
  Reaches (fun a => want a.respawn) (Spawning want)

theorem Counted.stopForEmergency {pid : Pid} (hl : l.Counted) (hpid : l.svmgr.pid = some pid) :
    ((l.note .user2).stopForEmergency pid).Counted := by
  have hne : l.svmgr.pid ≠ none := by rw [hpid]; nofun
  have htally : tally (l.log ++ [.user2] ++ [.terminated pid])
      = { tally l.log with asked := true } := by
    rw [List.append_assoc, tally_append]
    show { tally l.log with
      asked := (tally l.log).asked || (tally l.log).spawnedAt.isSome } = _
    rw [(hl.running hne).1, Option.isSome_some, Bool.or_true]
  constructor
  · exact fun _ => ⟨(congrArg Tally.spawnedAt htally).trans (hl.running hne).1, (hl.running hne).2⟩
  · exact fun h => absurd h hne
  · exact congrArg Tally.asked htally
  · rfl
  · exact (congrArg Tally.rapid htally).trans hl.rapid
  · exact hl.below
  · exact hl.armed

/-- Every step keeps the two counts equal. -/
theorem Counted.step (hl : l.Counted) (hok : Spawning RespawnAnswers.Dated l e)
    (h : l.step e = .ok l') : l'.Counted := by
  cases step_move h with
  | quiet _ hquiet => exact hquiet.counted hl
  | stop hpid => exact hl.stopForEmergency hpid
  | shell hpid =>
    obtain ⟨hspawnedAt, hasked⟩ := hl.idle hpid
    have hpending : l.pendingEmergency = false := hl.asked ▸ hasked
    have htally : tally (l.log ++ [.user2]) = tally l.log := by
      rw [tally_append]
      show { tally l.log with
        asked := (tally l.log).asked || (tally l.log).spawnedAt.isSome } = _
      rw [hspawnedAt, Option.isSome_none, Bool.or_false]
    refine Waiting.enterEmergencyMode ⟨hpid, ?_, ?_, ?_, hpending⟩
      (hok.2 _ (attempt_shell hpid) nofun)
    · exact (congrArg Tally.spawnedAt htally).trans hspawnedAt
    · exact (congrArg Tally.asked htally).trans hasked
    · exact hl.stopping.trans hpending
  | exit hexit =>
    exact hl.handleSvmgrExit (hok.1 (by rw [hexit]; nofun))
      (hok.2 _ (attempt_exit hexit))

theorem boot_counted {undef : Mem} {sigFd : Fd} {a : BootAnswers}
    (ha : a.respawn.Dated) (h : boot undef sigFd a = some l) : l.Counted := by
  rcases boot_cases h with ⟨-, rfl⟩ | ⟨-, hrespawned⟩
  · exact Waiting.enterEmergencyMode ⟨rfl, rfl, rfl, rfl, rfl⟩ ha
  · refine hrespawned.counted ha ?_ rfl nofun
    exact ⟨fun h => absurd rfl h, fun _ => ⟨rfl, rfl⟩, rfl, rfl, rfl, Nat.succ_pos 4, nofun⟩

/-- The handling of the exit runs the emergency shell. -/
def RunsShell (l : EventLoop) (a : ExitAnswers) : Prop :=
  .shell ∈ (l.handleSvmgrExit a).log.drop l.log.length

/-- The handling of the exit spawns an instance. -/
def Spawns (l : EventLoop) (a : ExitAnswers) : Prop :=
  ∃ pid now, .spawned pid now ∈ (l.handleSvmgrExit a).log.drop l.log.length

/-- Notes of spawns only. -/
def Spawnings (notes : List Note) : Prop :=
  ∀ n ∈ notes, ∃ pid now, n = .spawned pid now

/-- A spawn, whether it fails or not, logs nothing else. -/
theorem respawn_log {failed : EventLoop} (h : (r.Fails ∧ l' = failed) ∨ Respawned l r l')
    (hfailed : failed.log = l.log) : ∃ tail, l'.log = l.log ++ tail ∧ Spawnings tail := by
  rcases h with ⟨-, rfl⟩ | ⟨pid, initFd, pidfd, now, -, rfl⟩
  · exact ⟨[], hfailed.trans (List.append_nil _).symm, nofun⟩
  · exact ⟨[.spawned pid now], rfl, fun n hn => ⟨pid, now, List.mem_singleton.1 hn⟩⟩

/-- What the handling of an exit adds to the log. -/
theorem handleSvmgrExit_log (l : EventLoop) (a : ExitAnswers) :
    ∃ rest tail, (l.handleSvmgrExit a).log.drop l.log.length = .exited a.exitNow :: rest
      ∧ Spawnings tail
      ∧ match l.exitPath a with
        | .emergency => rest = .shell :: tail
        | .reboot => rest = []
        | .restart => rest = .slept l.svmgr.backoffMs :: tail := by
  obtain ⟨fds, htear⟩ := l.tearDown_eq a.exitNow
  have htorn : (l.torn a.exitNow).log = l.log ++ [.exited a.exitNow] := by
    rw [torn, htear]
  have hdrop : ∀ {log rest : List Note}, log = (l.torn a.exitNow).log ++ rest →
      log.drop l.log.length = .exited a.exitNow :: rest := by
    intro log rest h
    rw [h, htorn, List.append_assoc]
    exact List.drop_left
  rw [handleSvmgrExit_eq]
  cases l.exitPath a with
  | emergency =>
    obtain ⟨tail, hlog, htail⟩ := respawn_log (enterEmergencyMode_cases
      { l.torn a.exitNow with pendingEmergency := false } a.respawn) rfl
    exact ⟨_, tail, hdrop (hlog.trans (List.append_assoc ..)), htail, rfl⟩
  | reboot => exact ⟨[], [], hdrop (List.append_nil _).symm, nofun, rfl⟩
  | restart =>
    obtain ⟨tail, hlog, htail⟩ := respawn_log (restart_cases
      { l.torn a.exitNow with postEmergencyArmed := false } l.svmgr.backoffMs a.respawn) rfl
    exact ⟨_, tail, hdrop (hlog.trans (List.append_assoc ..)), htail, rfl⟩

/-- Beside the exit and the spawn an emergency logs the shell, and a
restart its delay. -/
theorem mem_exit_log {n : Note} (hexited : ∀ now, n ≠ .exited now)
    (hspawned : ∀ pid now, n ≠ .spawned pid now) :
    n ∈ (l.handleSvmgrExit a).log.drop l.log.length
      ↔ (l.exitPath a = .emergency ∧ n = .shell)
        ∨ (l.exitPath a = .restart ∧ n = .slept l.svmgr.backoffMs) := by
  obtain ⟨rest, tail, hdrop, htail, hrest⟩ := l.handleSvmgrExit_log a
  have hnone : n ∉ tail := fun hmem => by
    obtain ⟨pid, now, h⟩ := htail _ hmem
    exact hspawned pid now h
  rw [hdrop]
  cases hpath : l.exitPath a with
  | emergency =>
    rw [hpath] at hrest
    simp [hrest, hnone, hexited]
  | reboot =>
    rw [hpath] at hrest
    simp [hrest, hexited]
  | restart =>
    rw [hpath] at hrest
    simp [hrest, hnone, hexited]

/-- The shell is run exactly on the path of the emergency. -/
theorem runsShell_iff (l : EventLoop) (a : ExitAnswers) :
    l.RunsShell a ↔ l.exitPath a = .emergency := by
  refine (mem_exit_log (n := .shell) nofun nofun).trans ?_
  simp

/-- Where the shell runs, in terms of the history. -/
theorem Counted.runsShell_iff (hl : l.Counted) (hpid : l.svmgr.pid ≠ none) (a : ExitAnswers) :
    l.RunsShell a ↔ (tally l.log).asked = true
      ∨ ((tally l.log).asked = false
        ∧ (tally (l.log ++ [.exited a.exitNow])).rapid = 5
        ∧ l.postEmergencyArmed = false) := by
  have hle := hl.rapid_le hpid a.exitNow
  have hbelow := hl.below
  have hthreshold : svmgrRapidFailureThreshold = 5 := rfl
  have hcrash := isInCrashLoop_iff (l.svmgr.onExit a.exitNow).2
  rw [EventLoop.runsShell_iff, hl.asked, hl.tally_exited hpid]
  rcases l.exitPath_cases a with ⟨hpending, hpath⟩ | ⟨hpending, ⟨harmed, -, hpath⟩ |
    ⟨hgrace, ⟨hloop, hpath⟩ | ⟨hloop, hpath⟩⟩⟩
  · exact iff_of_true hpath (.inl hpending)
  · refine iff_of_false (by rw [hpath]; nofun) ?_
    rw [hpending, harmed]
    rintro (h | ⟨-, -, h⟩) <;> cases h
  · have hfive := hcrash.1 hloop
    refine iff_of_true hpath (.inr ⟨hpending, ?_, ?_⟩)
    · show (l.svmgr.onExit a.exitNow).2.rapidFailureCount = 5
      omega
    · refine Bool.eq_false_iff.2 fun harmed => ?_
      rw [hl.armed harmed hpid] at hle
      omega
  · rw [hloop] at hcrash
    refine iff_of_false (by rw [hpath]; nofun) ?_
    rw [hpending]
    rintro (h | ⟨-, h, -⟩)
    · cases h
    · exact absurd (hcrash.2 (Nat.le_of_eq (hthreshold.trans h.symm))) nofun

/-- The end of the grace window, in terms of the history. -/
theorem Counted.armed_exit (hl : l.Counted) (hpid : l.svmgr.pid ≠ none)
    (harmed : l.postEmergencyArmed = true)
    (hasked : (tally l.log).asked = false) : (a.graceNow - l.svmgr.spawnTimeMs < 60000 →
      (l.handleSvmgrExit a).shutdownRequested = some .reboot ∧ ¬ l.Spawns a)
    ∧ (60000 ≤ a.graceNow - l.svmgr.spawnTimeMs →
      (l.handleSvmgrExit a).postEmergencyArmed = false) := by
  have hlimit : svmgrPostEmergencyGraceMs = 60000 := rfl
  have heq := l.handleSvmgrExit_eq a
  obtain ⟨rest, tail, hdrop, -, hrest⟩ := l.handleSvmgrExit_log a
  have hle := hl.rapid_le hpid a.exitNow
  rw [hl.armed harmed hpid] at hle
  rw [hl.asked] at hasked
  rcases l.exitPath_cases a with ⟨hpending, -⟩ | ⟨-, ⟨-, hgrace, hpath⟩ |
    ⟨hgrace, ⟨hloop, -⟩ | ⟨-, hpath⟩⟩⟩
  · rw [hasked] at hpending
    cases hpending
  · rw [hpath] at heq hrest
    refine ⟨fun _ => ⟨by rw [heq], ?_⟩, fun h => by omega⟩
    rintro ⟨pid, now, hmem⟩
    rw [hdrop, hrest] at hmem
    simp at hmem
  · have hfive := (isInCrashLoop_iff _).1 hloop
    unfold svmgrRapidFailureThreshold at hfive
    omega
  · have hlate := hgrace harmed
    refine ⟨fun h => by omega, fun _ => ?_⟩
    rw [hpath] at heq
    rw [heq]
    rcases restart_cases _ l.svmgr.backoffMs a.respawn with ⟨-, h⟩ | ⟨_, _, _, _, -, h⟩
    all_goals rw [h]; rfl

/-- In every run in which the spawns succeed, none of them at clock 0:
the count of rapid failures stays below five; an exit runs the emergency
shell exactly when it was asked for or is the fifth rapid failure in a
row outside the grace window; and an exit in the grace window is a
reboot, one behind it the end of the window. -/
theorem emergency_iff_of_dated (h : ReachesSpawning RespawnAnswers.Dated l) :
    (l.svmgr.rapidFailureCount < 5 ∨ l.shutdownRequested ≠ none)
      ∧ ∀ (a : ExitAnswers) (since : Int), (tally l.log).spawnedAt = some since →
        (l.RunsShell a ↔ (tally l.log).asked = true
          ∨ ((tally l.log).asked = false
            ∧ (tally (l.log ++ [.exited a.exitNow])).rapid = 5
            ∧ l.postEmergencyArmed = false))
        ∧ (l.postEmergencyArmed = true → (tally l.log).asked = false →
          (a.graceNow - since < 60000 →
            (l.handleSvmgrExit a).shutdownRequested = some .reboot ∧ ¬ l.Spawns a)
          ∧ (60000 ≤ a.graceNow - since → (l.handleSvmgrExit a).postEmergencyArmed = false)) := by
  have hcounted : l.Counted := by
    induction h with
    | boot ha hboot => exact boot_counted ha hboot
    | step _ hok hstep ih => exact ih.step hok hstep
  refine ⟨.inl hcounted.below, fun a since hsince => ?_⟩
  have hpid : l.svmgr.pid ≠ none := by
    intro hpid
    rw [(hcounted.idle hpid).1] at hsince
    cases hsince
  have hspawned := (hcounted.running hpid).1
  rw [hsince] at hspawned
  cases hspawned
  exact ⟨hcounted.runsShell_iff hpid a, fun harmed hasked =>
    hcounted.armed_exit hpid harmed hasked⟩

/-- The readings of the clock during an exit, in order. -/
def readings (a : ExitAnswers) : List Int :=
  match a.respawn.spawn with
  | .forked _ _ _ now => [a.exitNow, a.graceNow, now]
  | _ => [a.exitNow, a.graceNow]

/-- The `k`th of a row of rapid failures from some time on: an instance
lives for a second, the next one comes a second later. -/
def rapidExit (start : Int) (k : Nat) : ExitAnswers :=
  restartAt (start + 2000 * k + 1000) (.forked (101 + k) 5 (some 6) (start + 2000 * k + 2000))
    true

/-- So many rapid failures behind a boot. -/
def flapping (start : Int) : Nat → EventLoop
  | 0 => booted start
  | k + 1 => (flapping start k).handleSvmgrExit (rapidExit start k)

theorem reaches_flapping {want : RespawnAnswers → Prop} {start : Int}
    (hboot : want (bootAnswers start).respawn)
    (hexit : ∀ k, want (rapidExit start k).respawn) (n : Nat)
    (hpid : ∀ k < n, (flapping start k).svmgr.pid ≠ none) :
    ReachesSpawning want (flapping start n) := by
  induction n with
  | zero => exact .boot hboot (boot_booted start)
  | succ n ih =>
    refine .step (e := .exit (rapidExit start n))
      (ih fun k hk => hpid k (Nat.lt_succ_of_lt hk)) ⟨?_, ?_⟩ rfl
    · exact fun _ => hpid n n.lt_succ_self
    · intro p hp _
      cases hp
      exact hexit n

/-- The fifth rapid failure in a row runs the shell. -/
theorem flapping_runsShell : (flapping 1000 4).RunsShell (rapidExit 1000 4) := by
  have hreaches : ReachesSpawning RespawnAnswers.Dated (flapping 1000 4) := by
    refine reaches_flapping ⟨_, _, _, _, rfl, by decide⟩ (fun k => ?_) 4 (by decide)
    exact ⟨_, _, _, _, rfl, by omega⟩
  exact (((emergency_iff_of_dated hreaches).2 (rapidExit 1000 4) 9000
    (by decide)).1).2 (.inr (by decide))

/-- An instance spawned at clock 0 is not counted: the fifth rapid
failure in a row, at a clock that never goes back and with spawns that
succeed, does not run the shell. -/
theorem uncounted : ReachesSpawning (fun r => ¬ r.Fails) (flapping 0 4)
    ∧ (0 :: ([0, 1, 2, 3, 4].map (rapidExit 0)).flatMap readings).Pairwise (· ≤ ·)
    ∧ (tally (flapping 0 4).log).spawnedAt = some 8000
    ∧ (tally (flapping 0 4).log).asked = false
    ∧ (tally ((flapping 0 4).log ++ [.exited 9000])).rapid = 5
    ∧ (flapping 0 4).postEmergencyArmed = false
    ∧ ¬ (flapping 0 4).RunsShell (rapidExit 0 4) := by
  refine ⟨reaches_flapping ?_ (fun k => ?_) 4 (by decide), by decide, by decide, by decide,
    by decide, by decide, ?_⟩
  · rintro (h | h) <;> cases h
  · rintro (h | h) <;> cases h
  · unfold RunsShell
    decide

end EventLoop

end Dynamod.Init
