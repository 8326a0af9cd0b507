/-
The readiness notifications of a service.

# What a datagram says

It is a row of assignments, one a line, and the service is ready if one of
them is `READY=1`. The check looks for this text anywhere in the first 256
bytes, if these are UTF-8 (`isReady_iff`), so that it is right about a
payload exactly where the two agree.

# Whether a datagram arrives

The manager makes the socket after the fork. Up to then the datagrams of
the child go to no socket, or to one of an earlier service, and the check
never sees them. What is sent later waits for the check, in order
(`accounted_run`).
-/
import Dynamod.Svmgr.Channels

namespace Dynamod.Svmgr

open Lib

variable {sock : Nat}

-- ==== one datagram

variable {payload : List UInt8}

/-- The assignment a service sends when it is ready. -/
def readyLine : List UInt8 := utf8 "READY=1"

/-- The assignments of a payload, one a line. -/
def assignments (payload : List UInt8) : List (List UInt8) := payload.splitOn 0x0a

/-- A datagram is taken for ready by its first 256 bytes: they are UTF-8
and have the text somewhere. -/
theorem isReady_iff : isReady payload = true
    ↔ (fromUtf8 (payload.take 256)).isSome = true ∧ readyLine <:+: payload.take 256 := by
  unfold isReady
  rw [decide_eq_true_iff]
  cases htext : fromUtf8 (payload.take 256) with
  | none =>
    refine iff_of_false (show ¬ utf8 "READY=1" <:+: utf8 "" by decide) ?_
    rintro ⟨h, -⟩
    cases h
  | some msg =>
    rw [← fromUtf8_eq_some.1 htext]
    exact (and_iff_right rfl).symm

variable {k : Sockets (List UInt8)} {rest : List (List UInt8)}

theorem recvNotify_eq (sock : Nat) (k : Sockets (List UInt8)) : recvNotify sock k
    = (if (k.recv sock).1.any isReady then .ready else .notReady, (k.recv sock).2) := by
  unfold recvNotify
  split <;> next heq => rw [heq]; rfl

theorem checkNotify_fst (sock : Nat) (k : Sockets (List UInt8)) :
    (checkNotify (some sock) k).1 = (recvNotify sock k).1 := by
  unfold checkNotify
  dsimp only
  split
  · next heq => rw [heq]
  · rfl

theorem recv_fst_of_queue (hq : k.queue sock = some (payload :: rest)) :
    (k.recv sock).1 = some payload := by
  unfold Sockets.recv
  rw [hq]
  rfl

/-- The check answers by the datagram at the front of the queue. -/
theorem checkNotify_ready (hq : k.queue sock = some (payload :: rest)) :
    (checkNotify (some sock) k).1 = .ready ↔ isReady payload = true := by
  rw [checkNotify_fst, recvNotify_eq, recv_fst_of_queue hq]
  simp

/-- The startup model leaves the outcome of a check to the environment; this
is the one that the sockets give. -/
theorem checkNotify_eq_tracker (t : ReadinessTracker) (w : World)
    {boundNotify : Option Nat} (hbound : t.boundNotify = boundNotify.isSome)
    (hprobe : ∀ sock ∈ boundNotify,
      w.probe.1 = if (k.recv sock).1.any isReady then .answered else .silent) :
    (t.checkNotify w).1 = (checkNotify boundNotify k).1 := by
  unfold ReadinessTracker.checkNotify
  rw [hbound]
  cases boundNotify with
  | none => rfl
  | some sock =>
    rw [checkNotify_fst, recvNotify_eq, if_pos Option.isSome_some]
    have hprobe := hprobe sock rfl
    generalize w.probe = answer at hprobe ⊢
    obtain ⟨probe, w'⟩ := answer
    subst hprobe
    by_cases hready : (k.recv sock).1.any isReady = true
    · rw [if_pos hready, if_pos hready]
    · rw [if_neg hready, if_neg hready]

/-- The check reports a service ready by the assignment `READY=1` exactly
if the assignment is in the payload just where the first 256 bytes are
UTF-8 and have the text. It is the check of the startup model, where its
environment answers as the socket does. -/
theorem checkNotify_ready_iff_assigned (hq : k.queue sock = some (payload :: rest)) :
    (((checkNotify (some sock) k).1 = .ready ↔ readyLine ∈ assignments payload)
      ↔ (readyLine ∈ assignments payload
        ↔ (fromUtf8 (payload.take 256)).isSome = true ∧ readyLine <:+: payload.take 256))
    ∧ ∀ (t : ReadinessTracker) (w : World), t.boundNotify = true →
        w.probe.1 = (if isReady payload then .answered else .silent) →
        (t.checkNotify w).1 = (checkNotify (some sock) k).1 := by
  refine ⟨?_, fun t w hbound hprobe => ?_⟩
  · rw [checkNotify_ready hq, isReady_iff]
    exact iff_comm
  · refine checkNotify_eq_tracker t w hbound fun sock' hsock => ?_
    cases hsock
    rw [hprobe, recv_fst_of_queue hq]
    rfl

/-- A socket with one datagram in it. -/
def holding (payload : List UInt8) : Sockets (List UInt8) :=
  { name := some 0, queue := fun s => if s = 0 then some [payload] else none, next := 1 }

/-- A status that fills the buffer of the check. -/
def longStatus : List UInt8 := utf8 "STATUS=" ++ List.replicate 256 0x2e

/-- Two assignments, one of them `READY=1`, with a status behind it that
is cut off. -/
theorem ready_with_status :
    (checkNotify (some 0) (holding (utf8 "READY=1\n" ++ longStatus))).1 = .ready :=
  ((checkNotify_ready_iff_assigned (k := holding (utf8 "READY=1\n" ++ longStatus)) rfl).1.2
    (by decide +kernel)).2 (by decide +kernel)

/-- A status that mentions the text and another value of the variable are
taken for the assignment; a status that is not UTF-8 or fills the buffer
hides it. -/
theorem notifications_misread : (∀ payload ∈ [utf8 "STATUS=not yet READY=1", utf8 "READY=10"],
      (checkNotify (some 0) (holding payload)).1 = .ready
        ∧ readyLine ∉ assignments payload)
    ∧ ∀ payload ∈ [utf8 "STATUS=" ++ 0xff :: utf8 "\nREADY=1",
        longStatus ++ utf8 "\nREADY=1"], (checkNotify (some 0) (holding payload)).1 ≠ .ready
        ∧ readyLine ∈ assignments payload := by
  refine ⟨by decide, List.forall_mem_cons.2 ⟨by decide, ?_⟩⟩
  rw [List.forall_mem_singleton]
  refine ⟨?_, by decide +kernel⟩
  have hcut : ¬ readyLine <:+: (longStatus ++ utf8 "\nREADY=1").take 256 := by
    decide +kernel
  intro hready
  exact hcut (isReady_iff.1 ((checkNotify_ready rfl).1 hready)).2

-- ==== the startup

/-- The manager has called `bind`. -/
def Bound (acts : List NotifyAct) : Prop := ∃ ok, NotifyAct.bind ok ∈ acts

/-- What the child sends before that. -/
def earlySends : List NotifyAct → List (List UInt8)
  | [] => []
  | .bind _ :: _ => []
  | .send payload :: acts => payload :: earlySends acts
  | _ :: acts => earlySends acts

variable {acts : List NotifyAct}

theorem Bound.append (h : Bound acts) (more : List NotifyAct) : Bound (acts ++ more) := by
  obtain ⟨ok, hmem⟩ := h
  exact ⟨ok, List.mem_append_left _ hmem⟩

theorem earlySends_append_bound (h : Bound acts) (more : List NotifyAct) :
    earlySends (acts ++ more) = earlySends acts := by
  induction acts with
  | nil =>
    obtain ⟨ok, hmem⟩ := h
    cases hmem
  | cons act acts ih =>
    have hrest (hact : ∀ ok, act ≠ .bind ok) : Bound acts := by
      obtain ⟨ok, hmem⟩ := h
      rcases List.mem_cons.1 hmem with rfl | hmem
      · exact absurd rfl (hact ok)
      · exact ⟨ok, hmem⟩
    cases act with
    | bind ok => rfl
    | send payload => exact congrArg (payload :: ·) (ih (hrest fun _ => nofun))
    | startWorker => exact ih (hrest fun _ => nofun)
    | removeFile => exact ih (hrest fun _ => nofun)
    | check inTime => exact ih (hrest fun _ => nofun)

theorem earlySends_append (h : ¬ Bound acts) (more : List NotifyAct) :
    earlySends (acts ++ more) = earlySends acts ++ earlySends more := by
  induction acts with
  | nil => rfl
  | cons act acts ih =>
    have hrest : ¬ Bound acts := fun ⟨ok, hmem⟩ => h ⟨ok, List.mem_cons_of_mem _ hmem⟩
    cases act with
    | bind ok => exact absurd ⟨ok, List.mem_cons_self⟩ h
    | send payload => exact congrArg (payload :: ·) (ih hrest)
    | startWorker => exact ih hrest
    | removeFile => exact ih hrest
    | check inTime => exact ih hrest

namespace NotifyService

variable {s s' : NotifyService} {act : NotifyAct}

/-- Before `bind` the manager has received nothing. -/
structure Early (acts : List NotifyAct) (s : NotifyService) : Prop where
  unbound : ¬ Bound acts
  taken : s.taken = []
  sent : s.sent = earlySends acts

/-- Behind `bind` what was sent is lost, received or in the queue. -/
structure Late (acts : List NotifyAct) (s : NotifyService) (sock : Nat) : Prop where
  bound : Bound acts
  queue : ∃ q, s.sockets.Listens sock q ∧ s.sent = earlySends acts ++ (s.taken ++ q)

/-- Where the datagrams of the child are, while the manager goes for them. -/
def Accounted (acts : List NotifyAct) (s : NotifyService) : Prop :=
  match s.stage with
  | .pending | .started => Early acts s
  | .unlinked => Early acts s ∧ s.sockets.name = none
  | .tracked boundNotify => ∀ sock ∈ boundNotify, Late acts s sock
  | .notified sock => Late acts s sock ∧ s.taken ≠ []
  | .settled result =>
    result = .ready → Bound acts ∧ (earlySends acts).length < s.sent.length

theorem Early.snoc (h : Early acts s) (hact : ∀ ok, act ≠ .bind ok)
    (hsent : s'.sent = s.sent ++ earlySends [act]) (htaken : s'.taken = s.taken) :
    Early (acts ++ [act]) s' := by
  refine ⟨?_, htaken.trans h.taken, ?_⟩
  · rintro ⟨ok, hmem⟩
    rcases List.mem_append.1 hmem with hmem | hmem
    · exact h.unbound ⟨ok, hmem⟩
    · exact hact ok (List.mem_singleton.1 hmem).symm
  · rw [hsent, h.sent, earlySends_append h.unbound]

theorem Late.snoc {q : List (List UInt8)} (hbound : Bound acts)
    (hq : s'.sockets.Listens sock q) (hsent : s'.sent = earlySends acts ++ (s'.taken ++ q)) :
    Late (acts ++ [act]) s' sock := by
  refine ⟨hbound.append _, q, hq, ?_⟩
  rw [hsent, earlySends_append_bound hbound]

theorem Late.send (h : Late acts s sock) (payload : List UInt8)
    (hsockets : s'.sockets = s.sockets.send payload)
    (hsent : s'.sent = s.sent ++ [payload]) (htaken : s'.taken = s.taken) :
    Late (acts ++ [act]) s' sock := by
  obtain ⟨q, hq, hall⟩ := h.queue
  refine Late.snoc h.bound (hsockets ▸ hq.send payload) ?_
  rw [hsent, hall, htaken, List.append_assoc, List.append_assoc]

/-- A check moves what it receives from the queue to what is received. -/
theorem Late.check (h : Late acts s sock)
    (hsockets : s'.sockets = (s.sockets.recv sock).2) (hsent : s'.sent = s.sent)
    (htaken : s'.taken = s.taken ++ (s.sockets.recv sock).1.toList) :
    Late (acts ++ [act]) s' sock := by
  obtain ⟨q, hq, hall⟩ := h.queue
  refine Late.snoc h.bound (hsockets ▸ hq.recv_snd) ?_
  rw [hsent, hall, htaken, hq.recv_fst, List.append_assoc]
  cases q with
  | nil => rfl
  | cons payload q => rfl

theorem accounted_bind (ok : Bool) (h : Early acts s) (hname : s.sockets.name = none) :
    Accounted (acts ++ [.bind ok])
      (let (boundNotify, sockets) := if ok then s.sockets.bind else (none, s.sockets)
       { s with sockets, stage := .tracked boundNotify }) := by
  intro sock hsock
  cases ok with
  | false => cases hsock
  | true =>
    refine ⟨⟨true, List.mem_append_right _ List.mem_cons_self⟩, [], ?_, ?_⟩
    · exact Sockets.listens_bind hname hsock
    · dsimp only
      rw [earlySends_append h.unbound, h.taken, h.sent]
      simp [earlySends]

theorem accounted_check {boundNotify : Option Nat} (inTime : Bool)
    (h : ∀ sock ∈ boundNotify, Late acts s sock) :
    Accounted (acts ++ [.check inTime]) (s.check boundNotify inTime) := by
  cases inTime with
  | false => exact nofun
  | true =>
    cases boundNotify with
    | none => exact nofun
    | some sock =>
      have hlate := h sock rfl
      dsimp only [check]
      rw [recvNotify_eq]
      by_cases hready : (s.sockets.recv sock).1.any isReady = true
      · rw [if_pos hready]
        refine ⟨hlate.check rfl rfl rfl, ?_⟩
        cases hgot : (s.sockets.recv sock).1 with
        | none =>
          rw [hgot] at hready
          cases hready
        | some payload => exact List.append_ne_nil_of_right_ne_nil _ nofun
      · rw [if_neg hready]
        intro sock' hsock'
        cases hsock'
        exact hlate.check rfl rfl rfl

/-- A datagram goes to the queue of the socket, if there is one. -/
theorem accounted_send (payload : List UInt8) (h : Accounted acts s) (hnot : s.stage ≠ .pending) :
    Accounted (acts ++ [.send payload])
      { s with sockets := s.sockets.send payload, sent := s.sent ++ [payload] } := by
  unfold Accounted at h
  dsimp only [Accounted]
  cases hstage : s.stage with
  | pending => exact absurd hstage hnot
  | started =>
    rw [hstage] at h
    exact h.snoc nofun rfl rfl
  | unlinked =>
    rw [hstage] at h
    exact ⟨h.1.snoc nofun rfl rfl, (Sockets.send_name payload).trans h.2⟩
  | tracked boundNotify =>
    rw [hstage] at h
    exact fun sock hsock => (h sock hsock).send payload rfl rfl rfl
  | notified sock =>
    rw [hstage] at h
    exact ⟨h.1.send payload rfl rfl rfl, h.2⟩
  | settled result =>
    rw [hstage] at h
    intro hresult
    obtain ⟨hbound, hlt⟩ := h hresult
    refine ⟨hbound.append _, ?_⟩
    rw [earlySends_append_bound hbound, List.length_append]
    omega

/-- A datagram that was received was not an early one. -/
theorem Late.sent_more (h : Late acts s sock) (htaken : s.taken ≠ []) :
    (earlySends acts).length < s.sent.length := by
  obtain ⟨q, -, hsent⟩ := h.queue
  have hpos : 0 < s.taken.length := List.length_pos_iff.2 htaken
  rw [hsent, List.length_append, List.length_append]
  omega

theorem accounted_step (h : Accounted acts s) (hstep : s.step act = some s') :
    Accounted (acts ++ [act]) s' := by
  cases act with
  | startWorker =>
    dsimp only [step] at hstep
    unfold Accounted at h
    split at hstep
    · next hstage =>
      cases hstep
      rw [hstage] at h
      exact h.snoc nofun (List.append_nil _).symm rfl
    · cases hstep
  | removeFile =>
    dsimp only [step] at hstep
    unfold Accounted at h
    split at hstep
    · next hstage =>
      cases hstep
      rw [hstage] at h
      exact ⟨h.snoc nofun (List.append_nil _).symm rfl, rfl⟩
    · next hstage =>
      cases hstep
      rw [hstage] at h
      intro _
      refine ⟨h.1.bound.append _, ?_⟩
      rw [earlySends_append_bound h.1.bound]
      exact h.1.sent_more h.2
    · cases hstep
  | bind ok =>
    dsimp only [step] at hstep
    unfold Accounted at h
    split at hstep
    · next hstage =>
      rw [hstage] at h
      exact Option.some_inj.1 hstep ▸ accounted_bind ok h.1 h.2
    · cases hstep
  | check inTime =>
    dsimp only [step] at hstep
    unfold Accounted at h
    split at hstep
    · next hstage =>
      rw [hstage] at h
      exact Option.some_inj.1 hstep ▸ accounted_check inTime h
    · cases hstep
  | send payload =>
    dsimp only [step] at hstep
    split at hstep
    · cases hstep
    · next hnot =>
      cases hstep
      exact accounted_send payload h hnot

variable {k : Sockets (List UInt8)}

theorem accounted_run (hrun : Run (start k) acts s) : Accounted acts s := by
  induction hrun with
  | nil => exact ⟨fun ⟨_, hmem⟩ => List.not_mem_nil hmem, rfl, rfl⟩
  | snoc _ hstep ih => exact accounted_step ih hstep

theorem Accounted.late (h : Accounted acts s) (hreads : s.reads = some sock) :
    Late acts s sock := by
  unfold Accounted at h
  unfold reads at hreads
  split at hreads
  · next hstage =>
    rw [hstage] at h
    exact h sock hreads
  · next hstage =>
    rw [hstage] at h
    cases hreads
    exact h.1
  · cases hreads

/-- A child that is done with its notifications when the socket is bound
is never found ready. -/
theorem early_never_ready (hrun : Run (start k) acts s) (hsent : s.sent = earlySends acts) :
    s.stage ≠ .settled .ready := by
  intro hstage
  have h := accounted_run hrun
  unfold Accounted at h
  rw [hstage] at h
  obtain ⟨-, hlt⟩ := h rfl
  rw [hsent] at hlt
  exact lt_irrefl _ hlt

/-- What the child has sent is received, or in the queue of the socket. -/
def Delivered (s : NotifyService) (sock : Nat) : Prop :=
  ∃ q, s.sockets.queue sock = some q ∧ s.sent = s.taken ++ q

/-- Whatever was behind the path, and however the steps of the child and of
the manager come between each other: the datagrams of the child are in the
socket that `check` reads exactly if none was sent before `bind`. -/
theorem delivered_iff_none_early {sock : Nat} (hrun : Run (start k) acts s)
    (hreads : s.reads = some sock) : s.Delivered sock ↔ earlySends acts = [] := by
  obtain ⟨q, hq, hsent⟩ := ((accounted_run hrun).late hreads).queue
  constructor
  · rintro ⟨q', hq', hall⟩
    cases hq.queue.symm.trans hq'
    rw [hsent] at hall
    exact List.append_left_eq_self.1 hall
  · intro hearly
    rw [hearly] at hsent
    exact ⟨q, hq.queue, hsent⟩

/-- Nothing behind the path. -/
def noSocket : Sockets (List UInt8) := { name := none, queue := fun _ => none, next := 0 }

/-- A child that sends right behind `bind`. -/
theorem late_notification_delivered :
    ∃ s, Run (start noSocket) [.startWorker, .removeFile, .bind true, .send readyLine] s
      ∧ s.reads = some 0 ∧ s.Delivered 0 := by
  have hrun : ∃ s, Run (start noSocket)
      [.startWorker, .removeFile, .bind true, .send readyLine] s ∧ s.reads = some 0 :=
    ⟨_, (((Path.nil.snoc rfl).snoc rfl).snoc rfl).snoc rfl, rfl⟩
  obtain ⟨s, hrun, hreads⟩ := hrun
  exact ⟨s, hrun, hreads, (delivered_iff_none_early hrun hreads).2 rfl⟩

/-- A child that sends right behind the fork: the datagram goes nowhere, and
the check finds an empty queue. -/
theorem notification_lost_before_bind : ∃ s, Run (start noSocket)
      [.startWorker, .send readyLine, .removeFile, .bind true, .check true] s
    ∧ s.reads = some 0 ∧ s.sent = [readyLine] ∧ s.sockets.queue 0 = some []
    ∧ ¬ s.Delivered 0 := by
  refine ⟨_, ((((Path.nil.snoc rfl).snoc rfl).snoc rfl).snoc rfl).snoc rfl, rfl, rfl, rfl, ?_⟩
  rintro ⟨q, hq, hall⟩
  cases hq
  cases hall

theorem hasty_never_ready : ∃ s, Run (start noSocket)
      [.startWorker, .send readyLine, .removeFile, .bind true, .check true] s
    ∧ s.stage ≠ .settled .ready := by
  obtain ⟨s, hrun, hsent⟩ : ∃ s, Run (start noSocket)
      [.startWorker, .send readyLine, .removeFile, .bind true, .check true] s
        ∧ s.sent = [readyLine] :=
    ⟨_, ((((Path.nil.snoc rfl).snoc rfl).snoc rfl).snoc rfl).snoc rfl, rfl⟩
  exact ⟨s, hrun, early_never_ready hrun hsent⟩

end NotifyService

end Dynamod.Svmgr
