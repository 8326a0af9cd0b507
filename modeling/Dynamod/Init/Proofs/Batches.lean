/-
The events of one wait, against the instances of svmgr.

An entry of a batch names a kind of descriptor and not the instance of
svmgr it was recorded for. The handler of an exit starts a new instance in
the middle of the batch, so what stands behind it in the batch is handled
on the new instance.

The epoll set holds the descriptors of the current instance alone
(`Fits`), and the pidfd once, so an exit is never taken for that of the
next instance. The entry of the socket has no such protection.
-/
import Mathlib.Data.List.Perm.Subperm
import Dynamod.Init.Proofs.Supervision

namespace Dynamod.Init

open Lib

variable {fd : Fd} {l₁ : EventLoop} {e : Step}

/-- The entry is about svmgr as init knows it, or about no instance. -/
def Child.Owns (c : Child) : Fd × EventSource → Prop
  | (_, .signalFd) => True
  | (fd, .svmgrPidfd) => c.pidfd = some fd
  | (fd, .initSock) => c.initSockFd = some fd

/-- What an entry of a batch says of its event. -/
def Event.source : Event → EventSource
  | .signalFd _ => .signalFd
  | .svmgrPidfd _ => .svmgrPidfd
  | .initSock _ => .initSock

/-- A new instance of svmgr. -/
def Note.isSpawn : Note → Bool
  | .spawned _ _ => true
  | _ => false

theorem Note.Silent.isSpawn {n : Note} (h : n.Silent) : n.isSpawn = false := by
  cases n with
  | spawned pid now => cases h
  | _ => rfl

namespace EventLoop

variable {l l' : EventLoop}

-- ==== the epoll set

/-- No descriptor of svmgr is in the epoll set. -/
def Vacant (l : EventLoop) : Prop := ∀ entry ∈ l.registered, entry.2 = .signalFd

/-- The epoll set has descriptors of the current instance only, and its
pidfd once; without an instance there are none. -/
structure Fits (l : EventLoop) : Prop where
  owned : ∀ entry ∈ l.registered, l.svmgr.Owns entry
  once : (l.registered.map Prod.snd).count .svmgrPidfd ≤ 1
  gone : l.svmgr.pid = none → l.svmgr.pidfd = none ∧ l.svmgr.initSockFd = none

/-- What is there belongs to no instance. -/
theorem Vacant.owned (h : l.Vacant) (c : Child) : ∀ entry ∈ l.registered, c.Owns entry := by
  rintro ⟨fd, source⟩ hentry
  cases h _ hentry
  exact True.intro

theorem Vacant.count (h : l.Vacant) : (l.registered.map Prod.snd).count .svmgrPidfd = 0 := by
  rw [List.count_eq_zero]
  intro hmem
  obtain ⟨entry, hentry, hsource⟩ := List.mem_map.1 hmem
  rw [h entry hentry] at hsource
  cases hsource

/-- Without a child nothing of one is watched. -/
theorem Vacant.fits (h : l.Vacant)
    (hgone : l.svmgr.pid = none → l.svmgr.pidfd = none ∧ l.svmgr.initSockFd = none) : l.Fits := by
  exact ⟨h.owned _, by rw [h.count]; exact Nat.zero_le 1, hgone⟩

theorem Fits.vacant (h : l.Fits) (hpid : l.svmgr.pid = none) : l.Vacant := by
  obtain ⟨hpidfd, hsock⟩ := h.gone hpid
  rintro ⟨fd, source⟩ hentry
  have howned := h.owned _ hentry
  cases source with
  | signalFd => rfl
  | svmgrPidfd => cases hpidfd.symm.trans howned
  | initSock => cases hsock.symm.trans howned

theorem Fits.congr (h : l.Fits) (hpid : l'.svmgr.pid = l.svmgr.pid)
    (hpidfd : l'.svmgr.pidfd = l.svmgr.pidfd) (hsock : l'.svmgr.initSockFd = l.svmgr.initSockFd)
    (hregistered : l'.registered = l.registered) : l'.Fits := by
  refine ⟨fun entry hentry => ?_, hregistered ▸ h.once, ?_⟩
  · have howned := h.owned entry (hregistered ▸ hentry)
    obtain ⟨fd, source⟩ := entry
    cases source with
    | signalFd => exact True.intro
    | svmgrPidfd => exact hpidfd.trans howned
    | initSock => exact hsock.trans howned
  · rw [hpid, hpidfd, hsock]
    exact h.gone

/-- What is registered for an instance belongs to it. -/
theorem owns_svmgrFds {c : Child} {r : RespawnAnswers} {entry : Fd × EventSource}
    (h : entry ∈ svmgrFds c r) : c.Owns entry := by
  have howns : entry ∈ sockFds c r → c.Owns entry := by
    intro h
    unfold sockFds at h
    split at h
    · next sock hsock =>
      split_ifs at h
      · cases List.mem_singleton.1 h
        exact hsock
      · cases h
    · cases h
  unfold svmgrFds at h
  split at h
  · next pidfd hpidfd =>
    split_ifs at h
    · rcases List.mem_cons.1 h with rfl | h
      · exact hpidfd
      · exact howns h
    · cases h
  · exact howns h

theorem count_svmgrFds_le (c : Child) (r : RespawnAnswers) :
    ((svmgrFds c r).map Prod.snd).count .svmgrPidfd ≤ 1 := by
  unfold svmgrFds sockFds
  cases c.pidfd <;> cases c.initSockFd <;> cases r.addPidfd <;> cases r.addSock <;> simp

-- ==== every run

/-- A new child brings its own descriptors. -/
theorem Vacant.respawned {r : RespawnAnswers} (h : l.Vacant) (hr : Respawned l r l') : l'.Fits := by
  obtain ⟨pid, initFd, pidfd, now, -, rfl⟩ := hr
  refine ⟨fun entry hentry => ?_, ?_, nofun⟩
  · rcases List.mem_append.1 hentry with hentry | hentry
    · exact h.owned _ entry hentry
    · exact owns_svmgrFds hentry
  · rw [List.map_append, List.count_append, h.count, Nat.zero_add]
    exact count_svmgrFds_le _ r

/-- A spawn that fails leaves the epoll set as it is. -/
theorem Fits.respawn {r : RespawnAnswers} {failed : EventLoop}
    (hcases : (r.Fails ∧ l' = failed) ∨ Respawned l r l') (h : l.Vacant) (hfailed : failed.Vacant)
    (hgone : failed.svmgr.pidfd = none ∧ failed.svmgr.initSockFd = none) : l'.Fits := by
  rcases hcases with ⟨-, rfl⟩ | hr
  · exact hfailed.fits fun _ => hgone
  · exact h.respawned hr

theorem Vacant.enterEmergencyMode (h : l.Vacant)
    (hgone : l.svmgr.pidfd = none ∧ l.svmgr.initSockFd = none) (r : RespawnAnswers) :
    (l.enterEmergencyMode r).Fits :=
  .respawn (l.enterEmergencyMode_cases r) h h hgone

theorem mem_removeFd? {fd : Option Fd} {entry : Fd × EventSource}
    (h : entry ∈ (l.removeFd? fd).registered) : entry ∈ l.registered ∧ fd ≠ some entry.1 := by
  cases fd with
  | none => exact ⟨h, nofun⟩
  | some fd =>
    obtain ⟨hmem, hne⟩ := List.mem_filter.1 h
    refine ⟨hmem, fun e => ?_⟩
    cases e
    exact of_decide_eq_true hne rfl

/-- `unregisterSvmgr` takes out all that is there of the instance. -/
theorem Fits.torn_vacant (h : l.Fits) (now : Int) : (l.torn now).Vacant := by
  rintro ⟨fd, source⟩ hentry
  obtain ⟨hentry, hsock⟩ := mem_removeFd? hentry
  obtain ⟨hentry, hpidfd⟩ := mem_removeFd? hentry
  have howned := h.owned _ hentry
  cases source with
  | signalFd => rfl
  | svmgrPidfd => exact absurd howned hpidfd
  | initSock => exact absurd howned hsock

theorem Fits.handleSvmgrExit (h : l.Fits) (a : ExitAnswers) : (l.handleSvmgrExit a).Fits := by
  have hvacant := h.torn_vacant a.exitNow
  have hgone : (l.torn a.exitNow).svmgr.pidfd = none
      ∧ (l.torn a.exitNow).svmgr.initSockFd = none := ⟨rfl, rfl⟩
  rw [handleSvmgrExit_eq]
  cases l.exitPath a with
  | emergency =>
    apply Vacant.enterEmergencyMode
    · exact hvacant
    · exact hgone
  | reboot =>
    apply Vacant.fits
    · exact hvacant
    · exact fun _ => hgone
  | restart => exact .respawn (restart_cases _ _ _) hvacant hvacant hgone

/-- Every step keeps the epoll set in step with the child. -/
theorem Fits.step (h : l.Fits) (hstep : l.step e = .ok l') : l'.Fits := by
  cases step_move hstep with
  | quiet _ hquiet =>
    have hsvmgr := hquiet.svmgr
    exact h.congr (hsvmgr ▸ rfl) (hsvmgr ▸ rfl) (hsvmgr ▸ rfl) hquiet.registered
  | stop _ => exact h.congr rfl rfl rfl rfl
  | shell hpid =>
    apply Vacant.enterEmergencyMode
    · exact h.vacant hpid
    · exact h.gone hpid
  | exit _ => exact h.handleSvmgrExit _

/-- The first child is registered like any other. -/
theorem boot_fits {undef : Mem} {sigFd : Fd} {a : BootAnswers}
    (h : boot undef sigFd a = some l) : l.Fits := by
  have hvacant : (init undef sigFd .create).Vacant := fun entry hentry =>
    congrArg Prod.snd (List.mem_singleton.1 hentry)
  rcases boot_cases h with ⟨-, rfl⟩ | ⟨-, hrespawned⟩
  · exact hvacant.enterEmergencyMode ⟨rfl, rfl⟩ _
  · exact hvacant.respawned hrespawned

theorem ReachesAny.fits (h : ReachesAny l) : l.Fits := by
  induction h with
  | boot _ hboot => exact boot_fits hboot
  | step _ _ hstep ih => exact ih.step hstep

-- ==== instances

/-- How many instances of svmgr init has spawned. -/
def instances (l : EventLoop) : Nat := l.log.countP Note.isSpawn

/-- The instance is still the one of `l`. -/
structure Same (l l' : EventLoop) : Prop where
  pid : l'.svmgr.pid = l.svmgr.pid
  pidfd : l'.svmgr.pidfd = l.svmgr.pidfd
  sock : l'.svmgr.initSockFd = l.svmgr.initSockFd
  instances : l'.instances = l.instances

/-- The instance of `l` is gone, and what there is came after it. -/
def Replaced (l l' : EventLoop) : Prop :=
  l.instances < l'.instances
    ∨ l'.instances = l.instances ∧ l'.svmgr.pid = none ∧ l'.svmgr.initSockFd = none

theorem Same.refl (l : EventLoop) : Same l l := ⟨rfl, rfl, rfl, rfl⟩

/-- The same child has the same ways to end. -/
theorem Same.exitOf (h : Same l l') (e : Step) : l'.exitOf e = l.exitOf e := by
  unfold EventLoop.exitOf
  rw [h.pid, h.pidfd]

/-- The children are counted in the log. -/
theorem instances_append (notes : List Note) (hlog : l'.log = l.log ++ notes) :
    l'.instances = l.instances + notes.countP Note.isSpawn := by
  unfold instances
  rw [hlog, List.countP_append]

theorem instances_eq (notes : List Note) (hlog : l'.log = l.log ++ notes)
    (h : notes.countP Note.isSpawn = 0) : l'.instances = l.instances := by
  rw [instances_append notes hlog, h, Nat.add_zero]

theorem Quiet.same {asks : Option ShutdownKind} (h : Quiet asks l l') : Same l l' := by
  obtain ⟨notes, hlog, hsilent⟩ := h.log
  refine ⟨h.svmgr ▸ rfl, h.svmgr ▸ rfl, h.svmgr ▸ rfl, ?_⟩
  refine instances_eq notes hlog (List.countP_eq_zero.2 fun n hn => ?_)
  rw [(hsilent n hn).isSpawn]
  exact Bool.false_ne_true

theorem same_stopForEmergency (l : EventLoop) (pid : Pid) :
    Same l ((l.note .user2).stopForEmergency pid) := by
  refine ⟨rfl, rfl, rfl, ?_⟩
  exact instances_eq [.user2, .terminated pid] (List.append_assoc ..) rfl

/-- The instance of `l` has gone: the next one is there, or none. -/
def Renewed (l l' : EventLoop) : Prop :=
  l'.instances = l.instances + 1
    ∨ l'.instances = l.instances ∧ l'.svmgr.pid = none ∧ l'.svmgr.initSockFd = none

/-- A spawn that succeeds makes an instance, and one that fails none. -/
theorem renewed_respawn {r : RespawnAnswers} {failed : EventLoop}
    (hcases : (r.Fails ∧ l' = failed) ∨ Respawned l₁ r l') (h₁ : l₁.instances = l.instances)
    (hfailed : failed.instances = l.instances) (hpid : failed.svmgr.pid = none)
    (hsock : failed.svmgr.initSockFd = none) : Renewed l l' := by
  rcases hcases with ⟨-, rfl⟩ | ⟨pid, initFd, pidfd, now, -, rfl⟩
  · exact .inr ⟨hfailed, hpid, hsock⟩
  · rw [Renewed, ← h₁]
    exact .inl (instances_append [.spawned pid now] rfl)

theorem renewed_enterEmergencyMode (hpid : l.svmgr.pid = none)
    (hsock : l.svmgr.initSockFd = none) (r : RespawnAnswers) :
    Renewed l (l.enterEmergencyMode r) := by
  have hshell : l.afterShell.instances = l.instances := instances_eq [.shell] rfl rfl
  exact renewed_respawn (l.enterEmergencyMode_cases r) hshell hshell hpid hsock

theorem renewed_restart (hpid : l.svmgr.pid = none) (hsock : l.svmgr.initSockFd = none)
    (delayMs : Nat) (r : RespawnAnswers) : Renewed l (l.restart delayMs r) := by
  have hslept : (l.note (.slept delayMs)).instances = l.instances :=
    instances_eq [.slept delayMs] rfl rfl
  exact renewed_respawn (l.restart_cases delayMs r) hslept hslept hpid hsock

/-- An exit leaves no child or a new one. -/
theorem renewed_handleSvmgrExit (l : EventLoop) (a : ExitAnswers) :
    Renewed l (l.handleSvmgrExit a) := by
  have htorn : (l.torn a.exitNow).instances = l.instances := by
    obtain ⟨fds, htear⟩ := l.tearDown_eq a.exitNow
    rw [torn, htear]
    exact instances_eq [.exited a.exitNow] rfl rfl
  unfold Renewed
  rw [handleSvmgrExit_eq, ← htorn]
  cases l.exitPath a with
  | emergency =>
    apply renewed_enterEmergencyMode
    · rfl
    · rfl
  | reboot => exact .inr ⟨rfl, rfl, rfl⟩
  | restart =>
    apply renewed_restart
    · rfl
    · rfl

theorem Renewed.replaced (h : Renewed l₁ l')
    (hle : l.instances ≤ l₁.instances) : Replaced l l' := by
  rcases h with h | ⟨h, hpid, hsock⟩
  · exact .inl (by omega)
  · rcases Nat.lt_or_eq_of_le hle with hlt | heq
    · exact .inl (h ▸ hlt)
    · exact .inr ⟨h.trans heq.symm, hpid, hsock⟩

theorem Replaced.le (h : Replaced l l') : l.instances ≤ l'.instances := by
  rcases h with h | h
  · exact Nat.le_of_lt h
  · exact Nat.le_of_eq h.1.symm

/-- What follows without an exit does not change that. -/
theorem Replaced.same (h : Replaced l l₁) (hsame : Same l₁ l') : Replaced l l' := by
  rcases h with h | ⟨h, hpid, hsock⟩
  · exact .inl (hsame.instances ▸ h)
  · exact .inr ⟨hsame.instances.trans h, hsame.pid.trans hpid, hsame.sock.trans hsock⟩

/-- What has replaced an instance may be replaced in its turn. -/
theorem Replaced.step (h : Replaced l l₁)
    (hl₁ : l₁.Fits) (hstep : l₁.step e = .ok l') : Replaced l l' := by
  cases step_move hstep with
  | quiet _ hquiet => exact h.same hquiet.same
  | stop _ => exact h.same (l₁.same_stopForEmergency _)
  | shell hpid =>
    have hnote : (l₁.note .user2).instances = l₁.instances :=
      instances_eq [.user2] rfl rfl
    refine (renewed_enterEmergencyMode ?_ ?_ _).replaced (hnote ▸ h.le)
    · exact hpid
    · exact (hl₁.gone hpid).2
  | exit _ => exact (renewed_handleSvmgrExit l₁ _).replaced h.le

/-- A step that handles no exit leaves the instance as it is. -/
theorem Same.step (h : Same l l₁) (hpid : l.svmgr.pid ≠ none)
    (hexit : l.exitOf e = none) (hstep : l₁.step e = .ok l') : Same l l' := by
  have htrans {l₂ : EventLoop} (h₂ : Same l₁ l₂) : Same l l₂ :=
    ⟨h₂.pid.trans h.pid, h₂.pidfd.trans h.pidfd, h₂.sock.trans h.sock,
      h₂.instances.trans h.instances⟩
  cases step_move hstep with
  | quiet _ hquiet => exact htrans hquiet.same
  | stop _ => exact htrans (l₁.same_stopForEmergency _)
  | shell hnone => exact absurd (h.pid.symm.trans hnone) hpid
  | exit hsome =>
    rw [h.exitOf, hexit] at hsome
    cases hsome

/-- A step that handles an exit replaces the instance. -/
theorem Same.exit (h : Same l l₁)
    (hexit : l.exitOf e ≠ none) (hstep : l₁.step e = .ok l') : Replaced l l' := by
  rw [← h.exitOf] at hexit
  have hle : l.instances ≤ l₁.instances := Nat.le_of_eq h.instances.symm
  cases step_move hstep with
  | quiet hnone _ => exact absurd hnone hexit
  | stop _ => exact absurd rfl hexit
  | shell _ => exact absurd rfl hexit
  | exit _ => exact (renewed_handleSvmgrExit l₁ _).replaced hle

-- ==== rows

/-- The handling of the event includes that of an exit of the instance. -/
def Ends (l : EventLoop) (e : Event) : Prop := ∃ st ∈ stepsOf e, l.exitOf st ≠ none

/-- A row without an exit leaves the child there is. -/
theorem same_row (hpid : l.svmgr.pid ≠ none) (row : List Step)
    (hrow : ∀ e ∈ row, l.exitOf e = none) :
    ∀ {l₁ : EventLoop}, Same l l₁ → row.foldlM step l₁ = .ok l' → Same l l' := by
  induction row with
  | nil =>
    intro l₁ h hfold
    cases hfold
    exact h
  | cons e row ih =>
    intro l₁ h hfold
    obtain ⟨l₂, hstep, hrest⟩ := Checked.bind_ok hfold
    have h₂ := h.step hpid (hrow e List.mem_cons_self) hstep
    exact ih (fun e he => hrow e (List.mem_cons_of_mem _ he)) h₂ hrest

/-- Once a child is replaced it stays so. -/
theorem replaced_row (row : List Step) (h : Replaced l l₁)
    (hl₁ : l₁.Fits) (hfold : row.foldlM step l₁ = .ok l') : Replaced l l' := by
  have hkept : ∀ {l₂ e l₃}, (Replaced l l₂ ∧ l₂.Fits) → step l₂ e = .ok l₃ →
      Replaced l l₃ ∧ l₃.Fits :=
    fun h hstep => ⟨h.1.step h.2 hstep, h.2.step hstep⟩
  exact (Checked.foldlM_inv hkept row ⟨h, hl₁⟩ hfold).1

/-- A row with an exit ends in a replacement. -/
theorem ended_row (hpid : l.svmgr.pid ≠ none) (row : List Step)
    (hrow : ∃ e ∈ row, l.exitOf e ≠ none) :
    ∀ {l₁ : EventLoop}, Same l l₁ → l₁.Fits → row.foldlM step l₁ = .ok l' → Replaced l l' := by
  induction row with
  | nil =>
    obtain ⟨e, he, -⟩ := hrow
    cases he
  | cons e row ih =>
    intro l₁ h hl₁ hfold
    obtain ⟨l₂, hstep, hrest⟩ := Checked.bind_ok hfold
    have hl₂ := hl₁.step hstep
    by_cases hexit : l.exitOf e = none
    · obtain ⟨e', he', hexit'⟩ := hrow
      rcases List.mem_cons.1 he' with rfl | he'
      · exact absurd hexit hexit'
      · exact ih ⟨e', he', hexit'⟩ (h.step hpid hexit hstep) hl₂ hrest
    · exact replaced_row row (h.exit hexit hstep) hl₂ hrest

/-- A batch is the row of the steps of its events. -/
theorem batch_eq_steps (es : List Event) (l : EventLoop) :
    es.foldlM handle l = (es.flatMap stepsOf).foldlM step l := by
  induction es generalizing l with
  | nil => rfl
  | cons e es ih =>
    rw [List.flatMap_cons, List.foldlM_append, List.foldlM_cons, handle_eq_steps]
    exact congrArg _ (funext ih)

/-- The events that handle no exit leave the instance as it is. -/
theorem same_batch {es : List Event} (hpid : l.svmgr.pid ≠ none)
    (hes : ∀ e ∈ es, ¬ l.Ends e) (h : es.foldlM handle l = .ok l') : Same l l' := by
  rw [batch_eq_steps] at h
  refine same_row hpid _ (fun st hst => ?_) (Same.refl l) h
  obtain ⟨e, he, hst⟩ := List.mem_flatMap.1 hst
  by_contra hexit
  exact hes e he ⟨st, hst, hexit⟩

/-- Behind an event that handles an exit the instance is another. -/
theorem replaced_batch {es : List Event} {e : Event} (hl : l.Fits)
    (hpid : l.svmgr.pid ≠ none) (he : e ∈ es) (hends : l.Ends e)
    (h : es.foldlM handle l = .ok l') : Replaced l l' := by
  rw [batch_eq_steps] at h
  obtain ⟨st, hst, hexit⟩ := hends
  have hrow : ∃ st ∈ es.flatMap stepsOf, l.exitOf st ≠ none :=
    ⟨st, List.mem_flatMap.2 ⟨e, he, hst⟩, hexit⟩
  exact ended_row hpid _ hrow (Same.refl l) hl h

-- ==== batches

/-- A batch that a wait returns: some of the descriptors in the epoll set,
each once, in any order. -/
def Ready (l : EventLoop) (es : List Event) : Prop :=
  (es.map Event.source).Subperm (l.registered.map Prod.snd)

instance (l : EventLoop) (es : List Event) : Decidable (l.Ready es) :=
  inferInstanceAs (Decidable (List.Subperm _ _))

/-- The event is one of an instance of svmgr, and its handler acts on the
instance that is there. -/
def Acts (l : EventLoop) : Event → Prop
  | .signalFd _ => False
  | .svmgrPidfd _ => True
  | .initSock _ => l.svmgr.initSockFd ≠ none

/-- In `l'` the event is about the instance it was recorded for in `l`, and
the socket of that instance is the one that was ready. -/
structure Recorded (l l' : EventLoop) (e : Event) : Prop where
  instances : l'.instances = l.instances
  socket : e.source = .initSock →
    ∃ sock, l'.svmgr.initSockFd = some sock ∧ (sock, .initSock) ∈ l.registered

/-- No event of the batch is acted on once its instance is replaced. -/
def CrossFree (l : EventLoop) (es : List Event) : Prop :=
  ∀ pre e post, es = pre ++ e :: post → ∀ l', pre.foldlM handle l = .ok l' →
    l'.Acts e → Recorded l l' e

/-- No entry of the socket that still finds one stands behind an event in
which an exit is handled. -/
def SocketsFirst (l : EventLoop) (es : List Event) : Prop :=
  ∀ pre answer post, es = pre ++ .initSock answer :: post →
    ∀ l', pre.foldlM handle l = .ok l' → l'.svmgr.initSockFd ≠ none →
      ∀ e ∈ pre, ¬ l.Ends e

variable {es pre post : List Event} {e : Event}

theorem Ready.registered (h : l.Ready es) (he : e ∈ es) : ∃ fd,
    (fd, e.source) ∈ l.registered := by
  have hmem := h.subset (List.mem_map_of_mem he)
  obtain ⟨⟨fd, source⟩, hentry, rfl⟩ := List.mem_map.1 hmem
  exact ⟨fd, hentry⟩

/-- An entry of svmgr is there only while it runs. -/
theorem Fits.pid_of_owned {source : EventSource} (h : l.Fits)
    (hentry : (fd, source) ∈ l.registered) (hsource : source ≠ .signalFd) :
    l.svmgr.pid ≠ none := by
  intro hpid
  exact hsource (h.vacant hpid _ hentry)

theorem not_ends_of_pidfd {e : Event} (hpidfd : l.svmgr.pidfd ≠ none)
    (he : e.source ≠ .svmgrPidfd) : ¬ l.Ends e := by
  rintro ⟨st, hst, hexit⟩
  cases e with
  | svmgrPidfd a => exact he rfl
  | initSock answer =>
    cases List.mem_singleton.1 hst
    exact hexit rfl
  | signalFd signals =>
    obtain ⟨s, -, rfl⟩ := List.mem_map.1 hst
    cases s with
    | childExited gone a => exact hexit (if_neg fun h => hpidfd h.1)
    | _ => exact hexit rfl

/-- The entry of the pidfd is the only one of its kind. -/
theorem Ready.not_pidfd {a : ExitAnswers} (h : l.Ready es) (hl : l.Fits)
    (hes : es = pre ++ .svmgrPidfd a :: post) (he : e ∈ pre) : e.source ≠ .svmgrPidfd := by
  intro hsource
  have hcount := Nat.le_trans (h.count_le .svmgrPidfd) hl.once
  have hmem : EventSource.svmgrPidfd ∈ pre.map Event.source :=
    hsource ▸ List.mem_map_of_mem he
  have hpos := List.count_pos_iff.2 hmem
  rw [hes, List.map_append, List.count_append, List.map_cons,
    show Event.source (.svmgrPidfd a) = .svmgrPidfd from rfl, List.count_cons_self] at hcount
  omega

/-- In no reachable state, for no batch and in no order, is an event acted
on for another instance than its own, but for the entry of the socket
behind an exit. -/
theorem crossFree_iff_socketsFirst (hl : ReachesAny l) (hes : l.Ready es) :
    l.CrossFree es ↔ l.SocketsFirst es := by
  have hfits := hl.fits
  constructor
  · intro h pre answer post hsplit l' hpre hsock e he hends
    have hmem : Event.initSock answer ∈ es := hsplit ▸ List.mem_append_cons_self
    obtain ⟨fd, hentry⟩ := hes.registered hmem
    have hpid := hfits.pid_of_owned hentry nofun
    have hsame := (h pre _ post hsplit l' hpre hsock).instances
    rcases replaced_batch hfits hpid he hends hpre with hlt | ⟨-, -, hnone⟩
    · exact absurd hsame.symm (Nat.ne_of_lt hlt)
    · exact hsock hnone
  · intro h pre e post hsplit l' hpre hacts
    have hmem : e ∈ es := hsplit ▸ List.mem_append_cons_self
    obtain ⟨fd, hentry⟩ := hes.registered hmem
    cases e with
    | signalFd signals => cases hacts
    | svmgrPidfd a =>
      have hpidfd : l.svmgr.pidfd = some fd := hfits.owned _ hentry
      have hnone : ∀ e ∈ pre, ¬ l.Ends e := fun e he =>
        not_ends_of_pidfd (by rw [hpidfd]; nofun) (hes.not_pidfd hfits hsplit he)
      have hsame := same_batch (hfits.pid_of_owned hentry nofun) hnone hpre
      exact ⟨hsame.instances, nofun⟩
    | initSock answer =>
      have hnone := h pre answer post hsplit l' hpre hacts
      have hsame := same_batch (hfits.pid_of_owned hentry nofun) hnone hpre
      have hsock : l.svmgr.initSockFd = some fd := hfits.owned _ hentry
      exact ⟨hsame.instances, fun _ => ⟨fd, hsame.sock.trans hsock, hentry⟩⟩

/-- An exit that the restart answers with another instance. -/
def relieved : ExitAnswers := restartAt 50000 (.forked 101 7 (some 8) 51000) true

theorem booted_reaches (now : Int) : ReachesAny (booted now) :=
  .boot True.intro (boot_booted now)

/-- The messages of an instance, and then its exit. -/
theorem messages_before_exit_crossFree :
    (booted 1000).CrossFree [.initSock (.data []), .svmgrPidfd relieved] := by
  refine (crossFree_iff_socketsFirst (booted_reaches 1000) (by decide)).2 ?_
  intro pre answer post hsplit
  rcases pre with _ | ⟨e, _ | ⟨e', pre⟩⟩
  · intro l' _ _ e he
    cases he
  · cases hsplit
  · have hlength := congrArg List.length hsplit
    simp at hlength

/-- The exit first: the entry of the old socket makes init read the socket
of the new instance, which no wait has reported. -/
theorem exit_before_messages_crosses : ReachesAny (booted 1000)
    ∧ (booted 1000).Ready [.svmgrPidfd relieved, .initSock (.data [])]
    ∧ ¬ (booted 1000).CrossFree [.svmgrPidfd relieved, .initSock (.data [])] := by
  refine ⟨booted_reaches 1000, by decide, fun h => ?_⟩
  have hrecorded := h [.svmgrPidfd relieved] (.initSock (.data [])) [] rfl _ rfl nofun
  cases hrecorded.instances

end EventLoop

end Dynamod.Init
