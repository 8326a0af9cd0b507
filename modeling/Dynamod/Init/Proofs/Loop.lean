/-
Runs of the event loop.

# Steps

A `Step` is the handling of one event, or of one signal of an event of
the signalfd: the states between two events are among the states
between two steps. A batch goes on behind a shutdown request, so no
step is excluded there. `Reaches` is relative to a condition on the
boot and on the steps, which may read the state the step is made in.

# Moves

`step_move` says once what a step can do: nothing to the supervision of
svmgr, ask svmgr to stop, run the shell for a missing svmgr, or handle
an exit. `handleSvmgrExit_eq` has the decision of the exit as a function
of the state before it. Every invariant of runs is proved from these.
-/
import Dynamod.Init.EventLoop
import Dynamod.Init.Proofs.Buffer

namespace Dynamod.Init

open Lib

/-- `socketpair` or `fork` failed. -/
def RespawnAnswers.Fails (r : RespawnAnswers) : Prop :=
  r.spawn = .socketpairFailed ∨ r.spawn = .forkFailed

/-- Beside the life of svmgr: an acknowledgement, a request, a text, or
one of the three signals that end the machine. -/
def Note.Silent : Note → Prop
  | .shutdownSignal _ name => name ∈ ["SIGTERM", "SIGINT", "SIGUSR1"]
  | .heartbeatAck _ => True
  | .svmgrRequested _ => True
  | .kmsg _ _ => True
  | _ => False

/-- The kind of shutdown that a signal asks for. -/
def SignalEvent.shutdownKind : SignalEvent → Option ShutdownKind
  | .shutdownTerm => some .poweroff
  | .shutdownInt => some .poweroff
  | .user1 => some .reboot
  | _ => none

namespace EventLoop

variable {l l' : EventLoop}

-- ==== steps

/-- What the loop handles at a time. -/
inductive Step
  | exit (a : ExitAnswers)
  | signal (s : SignalEvent)
  | message (answer : ReadAnswer)

/-- The kind of shutdown that a step asks for by itself. -/
def Step.asks : Step → Option ShutdownKind
  | .signal s => s.shutdownKind
  | _ => none

def step (l : EventLoop) : Step → Checked EventLoop
  | .exit a => .ok (l.handleSvmgrExit a)
  | .signal s => .ok (l.handleSignal s)
  | .message answer => l.handleSvmgrMessage answer

/-- The loops reached from a boot with admitted answers by admitted
steps. -/
inductive Reaches (okBoot : BootAnswers → Prop) (ok : EventLoop → Step → Prop) :
    EventLoop → Prop
  | boot {undef : Mem} {sigFd : Fd} {a : BootAnswers} {l : EventLoop} :
      okBoot a → boot undef sigFd a = some l → Reaches okBoot ok l
  | step {l l' : EventLoop} {e : Step} :
      Reaches okBoot ok l → ok l e → l.step e = .ok l' → Reaches okBoot ok l'

/-- An event, as the steps it takes. -/
def stepsOf : Event → List Step
  | .signalFd signals => signals.map .signal
  | .svmgrPidfd a => [.exit a]
  | .initSock answer => [.message answer]

theorem handle_eq_steps (l : EventLoop) (e : Event) : l.handle e = (stepsOf e).foldlM step l := by
  cases e with
  | signalFd signals =>
    rw [handle, handleSignals, stepsOf]
    induction signals generalizing l with
    | nil => rfl
    | cons s signals ih => exact ih (l.handleSignal s)
  | svmgrPidfd a => rfl
  | initSock answer => exact (bind_pure _).symm

variable {okBoot : BootAnswers → Prop}

theorem Reaches.handle {ok : EventLoop → Step → Prop} {e : Event}
    (hok : ∀ {l s}, Reaches okBoot ok l → s ∈ stepsOf e → ok l s) (hl : Reaches okBoot ok l)
    (h : l.handle e = .ok l') : Reaches okBoot ok l' := by
  rw [handle_eq_steps] at h
  refine Checked.foldlM_inv_mem (fun s hs {l l'} hl hstep => ?_) hl h
  exact hl.step (hok hl hs) hstep

-- ==== exits

/-- What `handleSvmgrExit` ends in. -/
inductive ExitPath
  | emergency
  | reboot
  | restart
  deriving DecidableEq

/-- The decision of `handleSvmgrExit`, in the state before it. -/
def exitPath (l : EventLoop) (a : ExitAnswers) : ExitPath :=
  if l.pendingEmergency then .emergency
  else if l.postEmergencyArmed
      ∧ a.graceNow - l.svmgr.spawnTimeMs < svmgrPostEmergencyGraceMs then .reboot
  else if (l.svmgr.countExit a.exitNow).isInCrashLoop then .emergency
  else .restart

/-- The loop without its child. -/
def torn (l : EventLoop) (now : Int) : EventLoop := (l.tearDown now).2

/-- Taking descriptors out changes the epoll set only. -/
theorem removeFd?_eq (l : EventLoop) (fd : Option Fd) :
    ∃ fds, l.removeFd? fd = { l with registered := fds } := by
  cases fd with
  | none => exact ⟨_, rfl⟩
  | some fd => exact ⟨_, rfl⟩

/-- The loop without its child: the record after `onExit`, an empty
buffer, and other descriptors in the epoll set. -/
theorem tearDown_eq (l : EventLoop) (now : Int) :
    ∃ fds, l.tearDown now = (l.svmgr.backoffMs, { l with
      svmgr := (l.svmgr.onExit now).2
      ipcBuf := l.ipcBuf.clear
      registered := fds
      log := l.log ++ [.exited now] }) := by
  obtain ⟨fds, hfds⟩ := l.removeFd?_eq l.svmgr.pidfd
  obtain ⟨fds', hfds'⟩ := (l.removeFd? l.svmgr.pidfd).removeFd?_eq l.svmgr.initSockFd
  rw [hfds] at hfds'
  refine ⟨fds', ?_⟩
  rw [tearDown, unregisterSvmgr, hfds, hfds']
  rfl

theorem spawnTimeMs_onExit (c : Child) (now : Int) :
    (c.onExit now).2.spawnTimeMs = c.spawnTimeMs := by
  unfold Child.onExit Child.countExit
  split_ifs <;> rfl

/-- Both flags are down where the crash loop is looked for. -/
theorem restartOrEmergency_eq (hpending : l.pendingEmergency = false)
    (harmed : l.postEmergencyArmed = false) (delayMs : Nat) (r : RespawnAnswers) :
    l.restartOrEmergency delayMs r = if l.svmgr.isInCrashLoop
      then { l with pendingEmergency := false }.enterEmergencyMode r
      else { l with postEmergencyArmed := false }.restart delayMs r := by
  obtain ⟨svmgr, request, buf, armed, pending, fds, log⟩ := l
  cases hpending
  cases harmed
  rfl

/-- An exit, by the path it takes. -/
theorem handleSvmgrExit_eq (l : EventLoop) (a : ExitAnswers) :
    l.handleSvmgrExit a = match l.exitPath a with
      | .emergency =>
        { l.torn a.exitNow with pendingEmergency := false }.enterEmergencyMode
          a.respawn
      | .reboot => { l.torn a.exitNow with shutdownRequested := some .reboot }
      | .restart =>
        { l.torn a.exitNow with postEmergencyArmed := false }.restart
          l.svmgr.backoffMs a.respawn := by
  obtain ⟨fds, htear⟩ := l.tearDown_eq a.exitNow
  have htime := spawnTimeMs_onExit l.svmgr a.exitNow
  have hcrash : (l.svmgr.onExit a.exitNow).2.isInCrashLoop
      = (l.svmgr.countExit a.exitNow).isInCrashLoop := rfl
  unfold handleSvmgrExit exitPath torn
  rw [htear]
  simp only [htime]
  by_cases hpending : l.pendingEmergency
  · rw [if_pos hpending, if_pos hpending]
  rw [if_neg hpending, if_neg hpending]
  have hpending : l.pendingEmergency = false := Bool.eq_false_iff.2 hpending
  by_cases harmed : l.postEmergencyArmed
  · rw [if_pos harmed]
    by_cases hgrace : a.graceNow - l.svmgr.spawnTimeMs < svmgrPostEmergencyGraceMs
    · rw [if_pos hgrace, if_pos ⟨harmed, hgrace⟩]
    · rw [if_neg hgrace, if_neg fun h => hgrace h.2, restartOrEmergency_eq, hcrash]
      · cases (l.svmgr.countExit a.exitNow).isInCrashLoop <;> rfl
      · exact hpending
      · rfl
  · rw [if_neg harmed, if_neg fun h => harmed h.1, restartOrEmergency_eq, hcrash]
    · cases (l.svmgr.countExit a.exitNow).isInCrashLoop <;> rfl
    · exact hpending
    · exact Bool.eq_false_iff.2 harmed

-- ==== respawns

/-- The entry that `registerSvmgr` makes for the socket. -/
def sockFds (c : Child) (r : RespawnAnswers) : List (Fd × EventSource) :=
  match c.initSockFd with
  | some sock => if r.addSock then [(sock, .initSock)] else []
  | none => []

/-- The entries that `registerSvmgr` makes. The pidfd comes first, and
without it there is no other. -/
def svmgrFds (c : Child) (r : RespawnAnswers) : List (Fd × EventSource) :=
  match c.pidfd with
  | some pidfd => if r.addPidfd then (pidfd, .svmgrPidfd) :: sockFds c r else []
  | none => sockFds c r

theorem registerSock_eq (l : EventLoop) (r : RespawnAnswers) :
    l.registerSock r = { l with registered := l.registered ++ sockFds l.svmgr r } := by
  unfold registerSock sockFds
  cases l.svmgr.initSockFd with
  | none => rw [List.append_nil]
  | some sock =>
    dsimp only
    split_ifs
    · rfl
    · rw [List.append_nil]

/-- Registering changes the epoll set only. -/
theorem registerSvmgr_eq (l : EventLoop) (r : RespawnAnswers) :
    l.registerSvmgr r = { l with registered := l.registered ++ svmgrFds l.svmgr r } := by
  unfold registerSvmgr svmgrFds
  cases l.svmgr.pidfd with
  | none => exact registerSock_eq l r
  | some pidfd =>
    dsimp only
    split_ifs
    · rw [registerSock_eq, List.append_cons]
      rfl
    · rw [List.append_nil]

/-- The pidfd is in the epoll set if `epoll_ctl` took it. -/
theorem pidfd_mem_svmgrFds {c : Child} {r : RespawnAnswers} {fd : Fd} (hpidfd : c.pidfd = some fd)
    (hadd : r.addPidfd = true) : (fd, .svmgrPidfd) ∈ svmgrFds c r := by
  rw [svmgrFds, hpidfd]
  dsimp only
  rw [if_pos hadd]
  exact List.mem_cons_self

/-- The child of a spawn that succeeds. -/
def spawnedChild (c : Child) (pid : Pid) (initFd : Fd) (pidfd : Option Fd) (now : Int) : Child :=
  { c with
    pid := some pid
    initSockFd := some initFd
    pidfd := pidfd.or c.pidfd
    backoffMs := svmgrRestartInitialMs
    spawnTimeMs := now }

/-- The loop once a spawn has succeeded and svmgr is registered. -/
def Respawned (l : EventLoop) (r : RespawnAnswers) (l' : EventLoop) : Prop :=
  ∃ pid initFd pidfd now, r.spawn = .forked pid initFd pidfd now
    ∧ l' = { l with
        svmgr := spawnedChild l.svmgr pid initFd pidfd now
        registered := l.registered ++ svmgrFds (spawnedChild l.svmgr pid initFd pidfd now) r
        log := l.log ++ [.spawned pid now] }

/-- A spawn fails, or there is a child with its descriptors. -/
theorem spawn_cases (l : EventLoop) (r : RespawnAnswers) :
    (r.Fails ∧ ∃ e, l.spawn r.spawn = .error e)
      ∨ ∃ l₁, l.spawn r.spawn = .ok l₁ ∧ Respawned l r (l₁.registerSvmgr r) := by
  cases hspawn : r.spawn with
  | socketpairFailed => exact .inl ⟨.inl hspawn, _, rfl⟩
  | forkFailed => exact .inl ⟨.inr hspawn, _, rfl⟩
  | forked pid initFd pidfd now =>
    refine .inr ⟨_, rfl, ?_⟩
    exact ⟨pid, initFd, pidfd, now, hspawn, registerSvmgr_eq _ r⟩

/-- A spawn and the registration behind it, as both callers write it. -/
theorem respawn_cases {failed : EventLoop} {r : RespawnAnswers}
    (h : l' = match l.spawn r.spawn with
      | .error _ => failed
      | .ok l => l.registerSvmgr r) :
    (r.Fails ∧ l' = failed) ∨ Respawned l r l' := by
  rcases l.spawn_cases r with ⟨hfails, e, he⟩ | ⟨l₁, hl₁, hrespawned⟩
  · rw [he] at h
    exact .inl ⟨hfails, h⟩
  · rw [hl₁] at h
    exact .inr (h ▸ hrespawned)

/-- The loop behind the emergency shell. -/
def afterShell (l : EventLoop) : EventLoop :=
  { l.note .shell with
    svmgr := l.svmgr.resetFailureCounter
    postEmergencyArmed := true }

theorem enterEmergencyMode_cases (l : EventLoop) (r : RespawnAnswers) :
    (r.Fails ∧ l.enterEmergencyMode r
        = { l.afterShell with shutdownRequested := some .reboot })
      ∨ Respawned l.afterShell r (l.enterEmergencyMode r) :=
  respawn_cases rfl

theorem restart_cases (l : EventLoop) (delayMs : Nat) (r : RespawnAnswers) :
    (r.Fails ∧ l.restart delayMs r = l.note (.slept delayMs))
      ∨ Respawned (l.note (.slept delayMs)) r (l.restart delayMs r) :=
  respawn_cases rfl

theorem boot_cases {undef : Mem} {sigFd : Fd} {a : BootAnswers}
    (h : boot undef sigFd a = some l) :
    (a.emergency = true ∧ l = (init undef sigFd .create).enterEmergencyMode a.respawn)
      ∨ a.emergency = false ∧ Respawned (init undef sigFd .create) a.respawn l := by
  unfold boot at h
  by_cases hemergency : a.emergency
  · rw [if_pos hemergency] at h
    split_ifs at h
    cases h
    exact .inl ⟨hemergency, rfl⟩
  · rw [if_neg hemergency] at h
    refine .inr ⟨Bool.eq_false_iff.2 hemergency, ?_⟩
    rcases (init undef sigFd .create).spawn_cases a.respawn with
      ⟨-, e, he⟩ | ⟨l₁, hl₁, hrespawned⟩
    · rw [he] at h
      cases h
    · rw [hl₁] at h
      simp only at h
      split_ifs at h
      cases h
      exact hrespawned

-- ==== moves

/-- The exit that a step handles. -/
def exitOf (l : EventLoop) : Step → Option ExitAnswers
  | .exit a => some a
  | .signal (.childExited gone a) =>
    if l.svmgr.pidfd = none ∧ l.svmgr.pid ≠ none ∧ gone then some a else none
  | _ => none

/-- The supervision of svmgr is left as it is: the step touches the
buffer, may request a shutdown, its own or one that svmgr asked for, and
logs nothing about the life of svmgr. -/
structure Quiet (asks : Option ShutdownKind) (l l' : EventLoop) : Prop where
  svmgr : l'.svmgr = l.svmgr
  pending : l'.pendingEmergency = l.pendingEmergency
  armed : l'.postEmergencyArmed = l.postEmergencyArmed
  registered : l'.registered = l.registered
  kept : l.shutdownRequested ≠ none → l'.shutdownRequested ≠ none
  request : ∀ kind, l'.shutdownRequested = some kind →
    l.shutdownRequested = some kind ∨ asks = some kind ∨ .svmgrRequested kind ∈ l'.log
  log : ∃ notes, l'.log = l.log ++ notes ∧ ∀ n ∈ notes, n.Silent

variable {asks : Option ShutdownKind}

theorem Quiet.refl (l : EventLoop) : Quiet asks l l :=
  ⟨rfl, rfl, rfl, rfl, id, fun _ => .inl, [], (List.append_nil _).symm, nofun⟩

/-- Quiet changes compose. -/
theorem Quiet.trans {l₁ l₂ l₃ : EventLoop} (h : Quiet asks l₁ l₂) (h' : Quiet asks l₂ l₃) :
    Quiet asks l₁ l₃ := by
  obtain ⟨notes, hlog, hsilent⟩ := h.log
  obtain ⟨notes', hlog', hsilent'⟩ := h'.log
  refine ⟨h'.svmgr.trans h.svmgr, h'.pending.trans h.pending, h'.armed.trans h.armed,
    h'.registered.trans h.registered, fun hr => h'.kept (h.kept hr), fun kind hkind => ?_,
    notes ++ notes', ?_, fun n hn => ?_⟩
  · rcases h'.request kind hkind with hkind | hnew
    · refine (h.request kind hkind).imp_right (Or.imp_right fun hmem => ?_)
      exact hlog' ▸ List.mem_append_left _ hmem
    · exact .inr hnew
  · rw [hlog', hlog, List.append_assoc]
  · exact (List.mem_append.1 hn).elim (hsilent n) (hsilent' n)

theorem Quiet.note {n : Note} (l : EventLoop) (hn : n.Silent) : Quiet asks l (l.note n) :=
  ⟨rfl, rfl, rfl, rfl, id, fun _ => .inl, [n], rfl, fun _ hm => List.mem_singleton.1 hm ▸ hn⟩

theorem quiet_request (l : EventLoop) (kind : ShutdownKind) :
    Quiet (some kind) l { l with shutdownRequested := some kind } :=
  ⟨rfl, rfl, rfl, rfl, fun _ => nofun, fun _ h => .inr (.inl h), [], (List.append_nil _).symm,
    nofun⟩

theorem quiet_notify (l : EventLoop) {name : String}
    (hname : name ∈ ["SIGTERM", "SIGINT", "SIGUSR1"]) : Quiet asks l (l.notify name) := by
  unfold notify
  split
  · exact Quiet.note l hname
  · exact Quiet.refl l

/-- A message is noted, and may ask for a shutdown. -/
theorem quiet_handleMessage (l : EventLoop) (mem : Mem) (msg : InitMessage) :
    Quiet asks l (l.handleMessage mem msg) := by
  cases msg with
  | heartbeat =>
    rw [handleMessage]
    split
    · exact Quiet.note l True.intro
    · exact Quiet.refl l
  | requestShutdown kind =>
    refine ⟨rfl, rfl, rfl, rfl, fun _ => nofun, fun kind' hkind => .inr (.inr ?_),
      [.svmgrRequested kind], rfl, fun _ hn => List.mem_singleton.1 hn ▸ True.intro⟩
    cases hkind
    exact List.mem_append_right _ List.mem_cons_self
  | logToKmsg level message => exact Quiet.note l True.intro
  | unknown => exact Quiet.refl l

theorem quiet_receive {b b' : ReadBuffer} {answer : ReadAnswer}
    (h : b.receive handleMessage l answer = .ok (l', b')) :
    Quiet asks l { l' with ipcBuf := b' } := by
  have hquiet : Quiet asks l l' := ReadBuffer.receive_inv handleMessage
    (fun hs => hs.trans (quiet_handleMessage _ _ _)) (Quiet.refl l) h
  exact ⟨hquiet.svmgr, hquiet.pending, hquiet.armed, hquiet.registered, hquiet.kept,
    hquiet.request, hquiet.log⟩

theorem quiet_handleSvmgrMessage {answer : ReadAnswer}
    (h : l.handleSvmgrMessage answer = .ok l') : Quiet asks l l' := by
  unfold handleSvmgrMessage at h
  split at h
  · cases h
    exact Quiet.refl l
  · obtain ⟨⟨l₁, b⟩, hreceive, hl'⟩ := Checked.bind_ok h
    cases hl'
    exact quiet_receive hreceive

/-- What a step can do. -/
inductive Move (l : EventLoop) : Step → EventLoop → Prop
  | quiet {e : Step} {l' : EventLoop} : l.exitOf e = none → Quiet e.asks l l' → Move l e l'
  | stop {r : RespawnAnswers} {pid : Pid} : l.svmgr.pid = some pid →
      Move l (.signal (.user2 r)) ((l.note .user2).stopForEmergency pid)
  | shell {r : RespawnAnswers} : l.svmgr.pid = none →
      Move l (.signal (.user2 r)) ((l.note .user2).enterEmergencyMode r)
  | exit {e : Step} {a : ExitAnswers} : l.exitOf e = some a →
      Move l e (l.handleSvmgrExit a)

/-- SIGCHLD is for a child without a pidfd, and only once it is gone. -/
theorem childExited_ignored {gone : Bool} {a : ExitAnswers}
    (h : ¬ (l.svmgr.pidfd = none ∧ l.svmgr.pid ≠ none ∧ gone)) :
    l.handleSignal (.childExited gone a) = l := by
  rw [handleSignal]
  split
  · next hpidfd hpid =>
    exact if_neg fun hgone => h ⟨hpidfd, by rw [hpid]; nofun, hgone⟩
  · rfl

theorem childExited_move (l : EventLoop) (gone : Bool) (a : ExitAnswers) :
    l.Move (.signal (.childExited gone a)) (l.handleSignal (.childExited gone a)) := by
  by_cases hexit : l.svmgr.pidfd = none ∧ l.svmgr.pid ≠ none ∧ gone
  · obtain ⟨pid, hpid⟩ := Option.ne_none_iff_exists'.1 hexit.2.1
    have hout : l.handleSignal (.childExited gone a) = l.handleSvmgrExit a := by
      rw [handleSignal, hexit.1, hpid]
      exact if_pos hexit.2.2
    rw [hout]
    exact .exit (if_pos hexit)
  · rw [childExited_ignored hexit]
    exact .quiet (if_neg hexit) (Quiet.refl l)

/-- Every step is a move. -/
theorem step_move {e : Step} (h : l.step e = .ok l') : l.Move e l' := by
  cases e with
  | exit a =>
    cases h
    exact .exit rfl
  | message answer => exact .quiet rfl (quiet_handleSvmgrMessage h)
  | signal s =>
    cases h
    cases s with
    | childExited gone a => exact l.childExited_move gone a
    | shutdownTerm => exact .quiet rfl ((l.quiet_notify (by decide)).trans (quiet_request _ _))
    | shutdownInt => exact .quiet rfl ((l.quiet_notify (by decide)).trans (quiet_request _ _))
    | user1 => exact .quiet rfl ((l.quiet_notify (by decide)).trans (quiet_request _ _))
    | user2 r =>
      cases hpid : l.svmgr.pid with
      | some pid =>
        have hout : l.handleSignal (.user2 r)
            = (l.note .user2).stopForEmergency pid := by
          have hpid' : (l.note .user2).svmgr.pid = some pid := hpid
          simp only [handleSignal, hpid']
        exact hout ▸ .stop hpid
      | none =>
        have hout : l.handleSignal (.user2 r)
            = (l.note .user2).enterEmergencyMode r := by
          have hpid' : (l.note .user2).svmgr.pid = none := hpid
          simp only [handleSignal, hpid']
        exact hout ▸ .shell hpid
    | unknown => exact .quiet rfl (Quiet.refl l)

end EventLoop

/-- The steps that the answers of `epoll_pwait` hold. -/
def WaitAnswer.steps : WaitAnswer → List EventLoop.Step
  | .ready events => events.flatMap EventLoop.stepsOf
  | _ => []

/-- The loop of a machine is always one that steps reach, and by steps that
meet any condition met by the steps of the answers. -/
theorem Machine.run_reaches {okBoot : BootAnswers → Prop}
    {ok : EventLoop → EventLoop.Step → Prop} (ws : List WaitAnswer) :
    ∀ {m m' : Machine}, (∀ w ∈ ws, ∀ s ∈ w.steps, ∀ l, EventLoop.Reaches okBoot ok l → ok l s) →
      EventLoop.Reaches okBoot ok m.loop → m.run ws = .ok m' →
        EventLoop.Reaches okBoot ok m'.loop := by
  induction ws with
  | nil =>
    intro m m' _ hm h
    cases h
    exact hm
  | cons w ws ih =>
    intro m m' hok hm h
    rw [run] at h
    split at h
    · cases h
      exact hm
    · obtain ⟨m₁, hround, hrest⟩ := Checked.bind_ok h
      refine ih (fun w hw => hok w (List.mem_cons_of_mem _ hw)) ?_ hrest
      cases w with
      | interrupted =>
        cases hround
        exact hm
      | failed =>
        have hloop : m₁.loop = m.loop := by
          simp only [iterate] at hround
          split at hround
          all_goals cases hround; rfl
        exact hloop ▸ hm
      | ready events =>
        obtain ⟨l, hbatch, hl⟩ := Checked.bind_ok hround
        cases hl
        refine Checked.foldlM_inv_mem (fun e he {l l'} hl hhandle => ?_) hm hbatch
        refine hl.handle (fun {l s} hl hs => ?_) hhandle
        exact hok _ List.mem_cons_self s (List.mem_flatMap.2 ⟨e, he, hs⟩) l hl

/-- A machine that only hears a signal is reached by signals. -/
theorem Machine.terminated_reaches :
    ∃ l m, boot (fun _ => 0) 4 ⟨false, true, .forked 100 5 none 0, true, true⟩ = some l
      ∧ Machine.run ⟨l, 0, none⟩ [.ready [.signalFd [.shutdownTerm]]] = .ok m
      ∧ EventLoop.Reaches (fun _ => True) (fun _ s => ∃ signal, s = .signal signal) m.loop := by
  obtain ⟨l, m, hboot, hrun⟩ : ∃ l m,
      boot (fun _ => 0) 4 ⟨false, true, .forked 100 5 none 0, true, true⟩ = some l
        ∧ Machine.run ⟨l, 0, none⟩ [.ready [.signalFd [.shutdownTerm]]] = .ok m :=
    ⟨_, _, rfl, rfl⟩
  refine ⟨l, m, hboot, hrun, run_reaches _ (fun w hw s hs _ _ => ?_) (.boot True.intro hboot) hrun⟩
  rw [List.mem_singleton.1 hw] at hs
  exact ⟨.shutdownTerm, List.mem_singleton.1 hs⟩

end Dynamod.Init
