/-
Why PID 1 shuts the machine down.

A `Cause` of a kind of shutdown is a request of svmgr, a signal that
asks for that kind, or, for a reboot only, an emergency shell that has
run. `Justified` keeps one for every request the loop holds, together
with the reason for the only flag that leads to a request later. A run
adds the failed waits. Beside the causes it keeps the names of the
signals that init has told svmgr of.
-/
import Dynamod.Init.Proofs.Supervision

namespace Dynamod.Init

open Lib

-- ==== causes

def Event.signals : Event → List SignalEvent
  | .signalFd signals => signals
  | _ => []

def WaitAnswer.signals : WaitAnswer → List SignalEvent
  | .ready events => events.flatMap Event.signals
  | _ => []

/-- A signal that svmgr is told of is one of the three that end the
machine. -/
def Note.Named : Note → Prop
  | .shutdownSignal _ name => name ∈ ["SIGTERM", "SIGINT", "SIGUSR1"]
  | _ => True

theorem Note.Silent.named {n : Note} (h : n.Silent) : n.Named := by
  cases n with
  | shutdownSignal sock name => exact h
  | _ => exact True.intro

/-- The waits that failed behind the last one that succeeded. -/
def failedWaits (past : List WaitAnswer) : Nat :=
  past.foldl (fun n w => match w with
    | .interrupted => n
    | .failed => n + 1
    | .ready _ => 0) 0

inductive Cause (signals : List SignalEvent) (log : List Note) : ShutdownKind → Prop
  | svmgr {kind : ShutdownKind} : .svmgrRequested kind ∈ log → Cause signals log kind
  | signal {kind : ShutdownKind} {s : SignalEvent} : s ∈ signals →
      s.shutdownKind = some kind → Cause signals log kind
  | shell : .shell ∈ log → Cause signals log .reboot

variable {signals : List SignalEvent} {log : List Note} {kind : ShutdownKind}

/-- A cause stays one. -/
theorem Cause.mono {signals' : List SignalEvent} {log' : List Note}
    (h : Cause signals log kind) (hsignals : signals ⊆ signals') (hlog : log ⊆ log') :
    Cause signals' log' kind := by
  cases h with
  | svmgr h => exact .svmgr (hlog h)
  | signal h hkind => exact .signal (hsignals h) hkind
  | shell h => exact .shell (hlog h)

namespace EventLoop

variable {l l' : EventLoop}

structure Justified (signals : List SignalEvent) (l : EventLoop) : Prop where
  request {kind : ShutdownKind} : l.shutdownRequested = some kind →
    Cause signals l.log kind
  armed : l.postEmergencyArmed = true → .shell ∈ l.log
  named {n : Note} : n ∈ l.log → n.Named

namespace Justified

variable (h : Justified signals l)

include h

/-- Nothing is requested or armed, and the log grows. -/
theorem kept {notes : List Note}
    (hlog : l'.log = l.log ++ notes) (hnotes : ∀ n ∈ notes, n.Named)
    (hrequest : l'.shutdownRequested = l.shutdownRequested)
    (harmed : l'.postEmergencyArmed = true → l.postEmergencyArmed = true) :
    Justified signals l' where
  request hkind := (h.request (hrequest ▸ hkind)).mono (fun _ => id)
    (hlog ▸ List.subset_append_left _ _)
  armed ha := hlog ▸ List.mem_append_left _ (h.armed (harmed ha))
  named hn := (List.mem_append.1 (hlog ▸ hn)).elim h.named (hnotes _)

theorem same (hlog : l'.log = l.log)
    (hrequest : l'.shutdownRequested = l.shutdownRequested)
    (harmed : l'.postEmergencyArmed = true → l.postEmergencyArmed = true) :
    Justified signals l' :=
  h.kept (hlog.trans (List.append_nil _).symm) nofun hrequest harmed

theorem more {signals' : List SignalEvent} (hsignals : signals ⊆ signals') :
    Justified signals' l where
  request hkind := (h.request hkind).mono hsignals fun _ => id
  armed := h.armed
  named := h.named

theorem note {n : Note} (hn : n.Named) : Justified signals (l.note n) :=
  h.kept rfl (List.forall_mem_singleton.2 hn) rfl id

theorem requesting (hkind : Cause signals l.log kind) :
    Justified signals { l with shutdownRequested := some kind } where
  request hk := by
    cases hk
    exact hkind
  armed := h.armed
  named := h.named

theorem respawned {r : RespawnAnswers} (hr : Respawned l r l') : Justified signals l' := by
  obtain ⟨pid, initFd, pidfd, now, -, rfl⟩ := hr
  exact (h.note (n := .spawned pid now) True.intro).same rfl rfl id

theorem afterShell : Justified signals l.afterShell where
  request hkind := (h.note (n := .shell) True.intro).request hkind
  armed _ := List.mem_append_right _ List.mem_cons_self
  named hn := (h.note (n := .shell) True.intro).named hn

theorem enterEmergencyMode (r : RespawnAnswers) :
    Justified signals (l.enterEmergencyMode r) := by
  rcases l.enterEmergencyMode_cases r with ⟨-, heq⟩ | hrespawned
  · rw [heq]
    exact h.afterShell.requesting (.shell (h.afterShell.armed rfl))
  · exact h.afterShell.respawned hrespawned

theorem restart (delayMs : Nat) (r : RespawnAnswers) :
    Justified signals (l.restart delayMs r) := by
  have hslept := h.note (n := .slept delayMs) True.intro
  rcases l.restart_cases delayMs r with ⟨-, heq⟩ | hrespawned
  · rw [heq]
    exact hslept
  · exact hslept.respawned hrespawned

theorem torn (now : Int) : Justified signals (l.torn now) := by
  obtain ⟨fds, htear⟩ := l.tearDown_eq now
  rw [EventLoop.torn, htear]
  exact (h.note (n := .exited now) True.intro).same rfl rfl id

theorem handleSvmgrExit (a : ExitAnswers) :
    Justified signals (l.handleSvmgrExit a) := by
  have htorn := h.torn a.exitNow
  rw [handleSvmgrExit_eq]
  cases hpath : l.exitPath a with
  | emergency =>
    apply Justified.enterEmergencyMode
    exact htorn.same rfl rfl id
  | reboot =>
    -- The exit is in the grace window only behind a shell.
    have harmed : l.postEmergencyArmed = true := by
      unfold exitPath at hpath
      split_ifs at hpath with hpending hgrace
      exact hgrace.1
    obtain ⟨fds, htear⟩ := l.tearDown_eq a.exitNow
    refine htorn.requesting (.shell (htorn.armed ?_))
    rw [EventLoop.torn, htear]
    exact harmed
  | restart =>
    apply Justified.restart
    exact htorn.same rfl rfl fun h => absurd h Bool.false_ne_true

/-- What a quiet step requests, it asks for itself or svmgr asked for. -/
theorem quiet {asks : Option ShutdownKind} (hquiet : Quiet asks l l')
    (hasks : ∀ kind, asks = some kind → Cause signals l.log kind) : Justified signals l' := by
  obtain ⟨notes, hlog, hsilent⟩ := hquiet.log
  have hsub : l.log ⊆ l'.log := hlog ▸ List.subset_append_left _ _
  refine ⟨fun hkind => ?_, fun harmed => hsub (h.armed (hquiet.armed ▸ harmed)), fun hn => ?_⟩
  · rcases hquiet.request _ hkind with hkind | hkind | hlogged
    · exact (h.request hkind).mono (fun _ => id) hsub
    · exact (hasks _ hkind).mono (fun _ => id) hsub
    · exact .svmgr hlogged
  · exact (List.mem_append.1 (hlog ▸ hn)).elim h.named fun hn => (hsilent _ hn).named

/-- A step leaves a request only with its cause. -/
theorem step {e : Step} (hs : ∀ s, e = .signal s → s ∈ signals) (hstep : l.step e = .ok l') :
    Justified signals l' := by
  have huser2 : Justified signals (l.note .user2) := h.note True.intro
  cases step_move hstep with
  | quiet _ hquiet =>
    refine h.quiet hquiet fun kind hkind => ?_
    cases e with
    | signal s => exact .signal (hs s rfl) hkind
    | exit a => cases hkind
    | message answer => cases hkind
  | stop _ => exact (huser2.note (n := .terminated _) True.intro).same rfl rfl id
  | shell _ => exact huser2.enterEmergencyMode _
  | exit _ => exact h.handleSvmgrExit _

theorem handle {e : Event} (he : e.signals ⊆ signals)
    (hhandle : l.handle e = .ok l') : Justified signals l' := by
  rw [handle_eq_steps] at hhandle
  refine Checked.foldlM_inv_mem (fun x hx _ _ h hstep => h.step ?_ hstep) h hhandle
  rintro s rfl
  cases e with
  | signalFd received =>
    obtain ⟨s', hs', heq⟩ := List.mem_map.1 hx
    cases heq
    exact he hs'
  | svmgrPidfd a => cases List.mem_singleton.1 hx
  | initSock answer => cases List.mem_singleton.1 hx

end Justified

theorem boot_justified {undef : Mem} {sigFd : Fd} {a : BootAnswers}
    (h : boot undef sigFd a = some l) : Justified signals l := by
  have hinit : Justified signals (init undef sigFd .create) := ⟨nofun, nofun, nofun⟩
  rcases boot_cases h with ⟨-, rfl⟩ | ⟨-, hrespawned⟩
  · exact hinit.enterEmergencyMode _
  · exact hinit.respawned hrespawned

end EventLoop

-- ==== runs

namespace Machine

variable {m m' : Machine} {past : List WaitAnswer}

/-- A machine behind the waits in `past`. -/
structure Justified (past : List WaitAnswer) (m : Machine) : Prop where
  loop : m.loop.Justified (past.flatMap WaitAnswer.signals)
  errors : m.consecutiveErrors = failedWaits past
  executed {kind : ShutdownKind} : m.executed = some kind →
    Cause (past.flatMap WaitAnswer.signals) m.loop.log kind
      ∨ kind = .poweroff ∧ 100 ≤ failedWaits past

/-- One round of the loop: the signals it read are among those of its answer. -/
theorem Justified.iterate {w : WaitAnswer} (h : m.Justified past)
    (hrunning : m.executed = none) (hround : m.iterate w = .ok m') :
    m'.Justified (past ++ [w]) := by
  have hpast : past.flatMap WaitAnswer.signals
      ⊆ (past ++ [w]).flatMap WaitAnswer.signals := by
    rw [List.flatMap_append]
    exact List.subset_append_left _ _
  have hloop := h.loop.more hpast
  have herrors := h.errors
  cases w with
  | interrupted =>
    cases hround
    refine ⟨hloop, ?_, fun hkind => ?_⟩
    · rw [herrors, failedWaits, failedWaits, List.foldl_append]
      rfl
    · rw [hrunning] at hkind
      cases hkind
  | failed =>
    have hcount : failedWaits (past ++ [.failed]) = m.consecutiveErrors + 1 := by
      rw [herrors, failedWaits, failedWaits, List.foldl_append]
      rfl
    simp only [Machine.iterate] at hround
    split_ifs at hround with hlimit
    · cases hround
      refine ⟨hloop, hcount.symm, fun hkind => ?_⟩
      cases hkind
      exact .inr ⟨rfl, hcount ▸ hlimit⟩
    · cases hround
      refine ⟨hloop, hcount.symm, fun hkind => ?_⟩
      rw [show m.executed = none from hrunning] at hkind
      cases hkind
  | ready events =>
    obtain ⟨l, hbatch, hl⟩ := Checked.bind_ok hround
    cases hl
    -- the signals of a batch are among those of its answer
    have hbelow (e : Event) (he : e ∈ events) :
        e.signals ⊆ (past ++ [WaitAnswer.ready events]).flatMap WaitAnswer.signals := by
      intro s hs
      rw [List.flatMap_append, List.flatMap_singleton]
      exact List.mem_append_right _ (List.mem_flatMap.2 ⟨e, he, hs⟩)
    have hl := Checked.foldlM_inv_mem (fun e he _ _ h => h.handle (hbelow e he))
      hloop hbatch
    refine ⟨hl, ?_, fun hkind => .inl (hl.request hkind)⟩
    rw [failedWaits, List.foldl_append]
    rfl

/-- Every run, by induction on the answers of the poll. -/
theorem Justified.run (ws : List WaitAnswer) :
    ∀ {past : List WaitAnswer} {m : Machine}, m.Justified past → m.run ws = .ok m' →
      ∃ used, used <+: ws ∧ m'.Justified (past ++ used) := by
  induction ws with
  | nil =>
    intro past m h hrun
    cases hrun
    exact ⟨[], List.prefix_rfl, by rwa [List.append_nil]⟩
  | cons w ws ih =>
    intro past m h hrun
    rw [Machine.run] at hrun
    split at hrun
    · cases hrun
      exact ⟨[], List.nil_prefix, by rwa [List.append_nil]⟩
    · next hrunning =>
      obtain ⟨m₁, hround, hrest⟩ := Checked.bind_ok hrun
      obtain ⟨used, hused, h'⟩ := ih (h.iterate hrunning hround) hrest
      exact ⟨w :: used, List.cons_prefix_cons.2 ⟨rfl, hused⟩, by simpa using h'⟩

theorem boot_justified {undef : Mem} {sigFd : Fd} {a : BootAnswers} {l : EventLoop}
    (h : boot undef sigFd a = some l) : Justified [] ⟨l, 0, none⟩ :=
  ⟨EventLoop.boot_justified h, rfl, nofun⟩

/-- A shutdown that PID 1 executes has a cause of its kind among what
happened before: svmgr asked for it, a signal asked for it, it is a
reboot behind an emergency shell, or it is a poweroff behind a hundred
failed waits. Only svmgr can halt the machine. -/
theorem executed_has_cause {undef : Mem} {sigFd : Fd} {a : BootAnswers} {l : EventLoop}
    {ws : List WaitAnswer} {kind : ShutdownKind} (hboot : boot undef sigFd a = some l)
    (hrun : Machine.run ⟨l, 0, none⟩ ws = .ok m) (hexecuted : m.executed = some kind) :
    ∃ past, past <+: ws
      ∧ (Cause (past.flatMap WaitAnswer.signals) m.loop.log kind
        ∨ kind = .poweroff ∧ 100 ≤ failedWaits past)
      ∧ (kind = .halt → .svmgrRequested .halt ∈ m.loop.log) := by
  obtain ⟨past, hpast, h⟩ := (boot_justified hboot).run ws hrun
  have hcause := h.executed hexecuted
  refine ⟨past, hpast, hcause, ?_⟩
  rintro rfl
  rcases hcause with hcause | ⟨hkind, -⟩
  · cases hcause with
    | svmgr h => exact h
    | signal hs hkind =>
      unfold SignalEvent.shutdownKind at hkind
      split at hkind <;> cases hkind
  · cases hkind

theorem terminated_has_cause :
    ∃ m, Machine.run ⟨.booted 1000, 0, none⟩ [.ready [.signalFd [.shutdownTerm]]] = .ok m
      ∧ m.executed = some .poweroff
      ∧ ∃ past, past <+: [.ready [.signalFd [.shutdownTerm]]]
        ∧ (Cause (past.flatMap WaitAnswer.signals) m.loop.log .poweroff
          ∨ ShutdownKind.poweroff = .poweroff ∧ 100 ≤ failedWaits past)
        ∧ (ShutdownKind.poweroff = .halt → .svmgrRequested .halt ∈ m.loop.log) :=
  ⟨_, rfl, rfl, executed_has_cause (EventLoop.boot_booted 1000) rfl rfl⟩

end Machine

end Dynamod.Init
