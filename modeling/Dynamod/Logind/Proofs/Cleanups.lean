/-
Runtime directories and their cleanups.

Methods run one after the other, each to completion, and between them the
cleanups that they left behind go on. A directory is held from the login
that ensured it to the `runtime_dir::release` of a cleanup. It is not
leaked as long as everybody who holds one is logged in or has a cleanup
pending (`Covered`).

The methods of `manager.rs` remove a session with
`finalize_session_removal`, which starts a cleanup for the last one. The
methods of the session, seat and user objects remove it alone. A cleanup
that has done its work erases the entry of its user, whoever's it is by
then. `Sound.step` says that there is nothing else to look at.
-/
import Dynamod.Lib.Runs
import Dynamod.Logind.Proofs.Ownership
import Dynamod.Logind.Proofs.Tasks
import Dynamod.Logind.Proofs.UserStates

namespace Dynamod.Logind

open Lib LoginState

variable {id : SessionId} {st : LoginState} {uid : Nat} {w : World} {op : Operation}

-- ==== completed methods

namespace World

/-- Calls that are made one after the other. -/
def performAll (fs : Devfs) (w : World) (effects : List Effect) : World :=
  effects.foldl (perform fs) w

/-- `finalize_session_removal`, run to completion. -/
def finalizeRemoval (fs : Devfs) (w : World) (sessionId : SessionId) : World :=
  match finalizeLocked w.login sessionId with
  | none => w
  | some f =>
    let removed := { w with
      login := f.login
      log := w.log ++ [Effect.releaseScope f.uid sessionId] }
    (if f.userGone then removed.spawnCleanup f.uid else removed).performAll fs
      (f.after.map .acl)

/-- The critical section of `create_session`, and the calls after it. -/
def createCompletely (fs : Devfs) (w : World) (call : CreateCall) (created : Created) :
    World :=
  ({ w with
      login := created.login
      pendingUserCleanups := w.pendingUserCleanups.erase call.uid }.abort
    (w.pendingUserCleanups.lookup call.uid)).performAll fs created.after

/-- A method, run to completion. -/
def complete (fs : Devfs) (w : World) : Operation → World
  | .createSession call a =>
    match createLocked w.login call a with
    | .error _ => w
    | .ok created => w.createCompletely fs call created
  | .releaseSession id => if id ∈ w.login.sessions then w.finalizeRemoval fs id else w
  | .terminateSession id =>
    if id ∈ w.login.sessions then
      (w.performAll fs (terminateLeader w.login id)).finalizeRemoval fs id
    else w
  | .terminateUser uid =>
    (sessionsOfUser w.login uid).foldl (finalizeRemoval fs)
      (w.performAll fs ((sessionsOfUser w.login uid).flatMap (terminateLeader w.login)))
  | .terminateSeat sid =>
    match w.login.seats.lookup sid with
    | none => w
    | some seat =>
      seat.sessions.foldl
        (fun w id => (w.performAll fs (terminateLeader w.login id)).finalizeRemoval fs id) w
  -- the others start no cleanup
  | op => { w with login := (op.run w.login).1 }.performAll fs (op.run w.login).2

/-- The worlds agree on the sessions and on the cleanups. -/
structure Agrees (w w' : World) : Prop where
  login : w'.login = w.login
  pending : w'.pendingUserCleanups = w.pendingUserCleanups
  tasks : w'.tasks = w.tasks

section Frame

variable (fs : Devfs) (w : World) (effects : List Effect)

/-- Calls outside of the lock leave the state and the tasks alone. -/
theorem performAll_agrees : Agrees w (w.performAll fs effects) := by
  unfold performAll
  induction effects generalizing w with
  | nil => exact ⟨rfl, rfl, rfl⟩
  | cons effect effects ih =>
    obtain ⟨hlogin, hpending, htasks⟩ := ih (w.perform fs effect)
    exact ⟨hlogin, hpending, htasks⟩

omit fs effects in
theorem abort_getElem? {o : Option Nat} {j : Nat} (hj : o ≠ some j) :
    (w.abort o).tasks[j]? = w.tasks[j]? := by
  cases o with
  | none => rfl
  | some i =>
    unfold abort
    rw [List.getElem?_modify_ne]
    exact fun e => hj (congrArg some e)

omit fs effects in
theorem abort_stages {o : Option Nat} {task : Task} (htask : task ∈ (w.abort o).tasks) :
    ∃ task' ∈ w.tasks, task'.stage = task.stage := by
  obtain ⟨j, hj⟩ := List.mem_iff_getElem?.1 htask
  by_cases ho : o = some j
  · subst ho
    unfold abort at hj
    rw [List.getElem?_modify_eq] at hj
    obtain ⟨task', htask', rfl⟩ := Option.map_eq_some_iff.1 hj
    exact ⟨task', List.mem_of_getElem? htask', rfl⟩
  · rw [abort_getElem? w ho] at hj
    exact ⟨task, List.mem_of_getElem? hj, rfl⟩

/-- A session that is there is removed, and a cleanup is started if it was
the last one of its user. -/
theorem finalizeRemoval_some {s : Session} (hs : w.login.sessions.lookup id = some s) :
    Agrees (if s.uid ∈ (w.login.removeSession id).users
        then { w with login := w.login.removeSession id }
        else { w with login := w.login.removeSession id }.spawnCleanup s.uid)
      (w.finalizeRemoval fs id) := by
  unfold finalizeRemoval finalizeLocked
  rw [hs]
  dsimp only [Option.map_some]
  by_cases hin : s.uid ∈ (w.login.removeSession id).users
  · rw [if_pos hin, if_neg (by simpa using hin)]
    obtain ⟨hlogin, hpending, htasks⟩ := performAll_agrees fs
      { w with login := w.login.removeSession id
               log := w.log ++ [Effect.releaseScope s.uid id] } _
    exact ⟨hlogin, hpending, htasks⟩
  · rw [if_neg hin, if_pos (by simpa using hin)]
    obtain ⟨hlogin, hpending, htasks⟩ := performAll_agrees fs
      ({ w with login := w.login.removeSession id
                log := w.log ++ [Effect.releaseScope s.uid id] }.spawnCleanup s.uid) _
    exact ⟨hlogin, hpending, htasks⟩

theorem finalizeRemoval_none (hs : w.login.sessions.lookup id = none) :
    w.finalizeRemoval fs id = w := by
  unfold finalizeRemoval finalizeLocked
  rw [hs]
  rfl

end Frame

end World

/-- Only the owner of the session can be gone by its removal. -/
theorem LoginState.Seated.gone_by_remove (h : st.Seated)
    {s : Session} (hs : st.sessions.lookup id = some s) (hin : uid ∈ st.users)
    (hout : uid ∉ (st.removeSession id).users) : uid = s.uid := by
  obtain ⟨k, hk⟩ := (h.mem_users_iff uid).1 hin
  by_cases hkid : k = id
  · subst hkid
    rw [uidOf_eq hs] at hk
    exact (Option.some.inj hk).symm
  · refine absurd ((h.remove id).mem_users_iff uid |>.2 ⟨k, ?_⟩) hout
    rw [uidOf_remove, if_neg hkid, hk]

-- ==== runs

/-- The daemon, and who holds a runtime directory: whose was ensured and
not released since. -/
structure Tracked where
  world : World
  held : Finset Nat

variable {t : Tracked}

/-- What happens next. -/
inductive Happening
  | operation (op : Operation)
  /-- A cleanup does its next piece. -/
  | cleanup (i : Nat) (a : Answers)
  /-- An aborted cleanup is dropped. -/
  | drop (i : Nat)

/-- The user whose runtime directory a method ensures. -/
def Operation.ensures (st : LoginState) : Operation → Option Nat
  | .createSession call a =>
    match createLocked st call a with
    | .error _ => none
    | .ok _ => some call.uid
  | _ => none

/-- The user whose runtime directory is released with the next piece. -/
def World.releases (w : World) (i : Nat) (a : Answers) : Option Nat :=
  match w.stage i with
  | .releasing uid => if a.dirExists then none else some uid
  | .removing uid => some uid
  | _ => none

/-- The user whom a cleanup takes off the pending ones next. -/
def Stage.forgets : Stage → Option Nat
  | .forgetting uid => some uid
  | _ => none

namespace Tracked

def start (nodes : Nodes) : Tracked := { world := World.start nodes, held := ∅ }

/-- One thing happens, and the runtime directories with it. -/
def step (fs : Devfs) (t : Tracked) : Happening → Tracked
  | .operation op =>
    { world := t.world.complete fs op
      held := t.held ∪ (op.ensures t.world.login).toFinset }
  | .cleanup i a =>
    { world := t.world.run fs i a
      held := t.held \ (t.world.releases i a).toFinset }
  | .drop i => { t with world := t.world.drop i }

/-- Everybody who holds a runtime directory has a live session, or a
pending cleanup that is not finished. -/
def Covered (t : Tracked) : Prop :=
  ∀ uid ∈ t.held, (∀ id, t.world.login.uidOf id ≠ some uid) →
    ∃ i, t.world.pendingUserCleanups.lookup uid = some i ∧ t.world.stage i ≠ .finished

/-- Session ids are drawn once. -/
def Fresh (t : Tracked) : Happening → Prop
  | .operation op => op.Fresh t.world.login
  | _ => True

/-- Who holds a runtime directory and is logged in has a session beside
these. -/
def HoldersStay (t : Tracked) (ids : List SessionId) : Prop :=
  ∀ uid ∈ t.held, uid ∈ t.world.login.users → ∃ k ∉ ids, t.world.login.uidOf k = some uid

/-- Nobody who holds a runtime directory loses their last session to a
method that starts no cleanup, and no cleanup erases the entry of a later
one. -/
def KeepsCovered (t : Tracked) : Happening → Prop
  | .operation (.sessionTerminate id) => t.HoldersStay [id]
  | .operation (.seatTerminate sid) =>
    t.HoldersStay (((t.world.login.seats.lookup sid).map Seat.sessions).getD [])
  | .operation (.userTerminate uid) =>
    t.HoldersStay (((t.world.login.users.lookup uid).map User.sessions).getD [])
  | .cleanup i _ => ∀ uid ∈ t.held, (t.world.stage i).forgets = some uid →
      uid ∈ t.world.login.users
  | _ => True

end Tracked

-- ==== the invariant

/-- The user a cleanup is for. -/
def Stage.cleans : Stage → Option Nat
  | .sleeping uid | .checking uid | .releasing uid | .removing uid | .releasingSlice uid
  | .forgetting uid => some uid
  | _ => none

/-- The cleanup has released the runtime directory. -/
def Stage.hasReleased : Stage → Bool
  | .releasingSlice _ | .forgetting _ => true
  | _ => false

namespace Tracked

/-- All tasks are cleanups. The pending ones are for users who are gone,
and will release what is held. -/
structure Sound (t : Tracked) : Prop where
  seated : t.world.login.Seated
  tasks : ∀ task ∈ t.world.tasks, task.stage.cleans ≠ none ∨ task.stage = .finished
  gone : ∀ uid ∈ t.world.pendingUserCleanups, uid ∉ t.world.login.users
  pending : ∀ uid i, t.world.pendingUserCleanups.lookup uid = some i →
    ∃ task, t.world.tasks[i]? = some task ∧ task.stage.cleans = some uid
      ∧ task.aborted = false ∧ (task.stage.hasReleased = true → uid ∉ t.held)

theorem start_sound (nodes : Nodes) : (start nodes).Sound where
  seated := seated_init
  tasks := fun _ htask => absurd htask List.not_mem_nil
  gone := fun _ huid => absurd huid Finmap.notMem_empty
  pending := fun _ i hi => absurd hi (Option.some_ne_none i).symm

/-- An entry is there for a cleanup that is not finished. -/
theorem Sound.covered_iff (h : t.Sound) : t.Covered ↔ ∀ uid ∈ t.held, uid ∉ t.world.login.users →
    uid ∈ t.world.pendingUserCleanups := by
  refine forall₂_congr fun uid _ => ?_
  have hgone : uid ∉ t.world.login.users ↔ ∀ id, t.world.login.uidOf id ≠ some uid := by
    rw [h.seated.mem_users_iff, not_exists]
  rw [hgone]
  refine imp_congr_right fun _ => ?_
  rw [Finmap.mem_iff]
  refine exists_congr fun i => and_iff_left_of_imp fun hi => ?_
  obtain ⟨task, htask, hcleans, -⟩ := h.pending uid i hi
  unfold World.stage
  rw [htask]
  rintro hfin
  change task.stage = .finished at hfin
  rw [hfin] at hcleans
  cases hcleans

-- ==== methods

section Methods

variable {fs : Devfs}

/-- What keeps the invariant, and leaves nobody uncovered. -/
def Covers (t t' : Tracked) : Prop := t'.Sound ∧ (t.Covered → t'.Covered)

theorem Sound.covers_self (h : t.Sound) : t.Covers t := ⟨h, fun hcov => hcov⟩

/-- What a happening does to the invariant, and when it leaves nobody
uncovered. -/
def Decides (t t' : Tracked) (ok : Prop) : Prop := t'.Sound ∧ (t.Covered → (t'.Covered ↔ ok))

theorem Covers.decides {t' : Tracked} (h : t.Covers t') {ok : Prop} (hok : ok) : t.Decides t' ok :=
  ⟨h.1, fun hcov => iff_of_true (h.2 hcov) hok⟩

theorem Decides.congr {t' : Tracked} {ok ok' : Prop} (h : t.Decides t' ok) (hok : ok ↔ ok') :
    t.Decides t' ok' :=
  ⟨h.1, fun hcov => (h.2 hcov).trans hok⟩

section Agrees

variable {t' t'' : Tracked}

/-- The devices and the log are not looked at. -/
theorem Sound.agrees (h : t'.Sound) (hw : t'.world.Agrees t''.world)
    (hheld : t''.held = t'.held) : t''.Sound := by
  refine ⟨hw.login ▸ h.seated, hw.tasks ▸ h.tasks, ?_, ?_⟩
  · rw [hw.pending, hw.login]
    exact h.gone
  · rw [hw.pending, hw.tasks, hheld]
    exact h.pending

theorem covered_agrees (hw : t'.world.Agrees t''.world) (hheld : t''.held = t'.held) :
    t''.Covered ↔ t'.Covered := by
  unfold Covered World.stage
  rw [hw.login, hw.pending, hw.tasks, hheld]

theorem Covers.agrees (h : t.Covers t') (hw : t'.world.Agrees t''.world)
    (hheld : t''.held = t'.held) : t.Covers t'' :=
  ⟨h.1.agrees hw hheld, fun hcov => (covered_agrees hw hheld).2 (h.2 hcov)⟩

theorem Decides.agrees {ok : Prop} (h : t.Decides t' ok) (hw : t'.world.Agrees t''.world)
    (hheld : t''.held = t'.held) : t.Decides t'' ok :=
  ⟨h.1.agrees hw hheld, fun hcov => (covered_agrees hw hheld).trans (h.2 hcov)⟩

end Agrees

/-- The login state changes, and nobody logs in. -/
theorem Sound.relogin (h : t.Sound) (hst : st.Seated)
    (husers : ∀ uid ∈ st.users, uid ∈ t.world.login.users) :
    ({ t with world := { t.world with login := st } } : Tracked).Sound where
  seated := hst
  tasks := h.tasks
  gone uid huid hin := h.gone uid huid (husers uid hin)
  pending := h.pending

/-- A cleanup is started for a user who is gone. -/
theorem Sound.spawn (h : t.Sound) (hout : uid ∉ t.world.login.users) :
    ({ t with world := t.world.spawnCleanup uid } : Tracked).Sound where
  seated := h.seated
  tasks := by
    intro task htask
    rcases List.mem_append.1 htask with htask | htask
    · exact h.tasks task htask
    · rw [List.mem_singleton.1 htask]
      exact Or.inl (Option.some_ne_none uid)
  gone := by
    intro uid' huid'
    rcases Finmap.mem_insert.1 huid' with rfl | huid'
    · exact hout
    · exact h.gone uid' huid'
  pending := by
    intro uid' i hi
    unfold World.spawnCleanup at hi ⊢
    rw [HashMap.lookup_insert_ite] at hi
    split at hi
    · next heq =>
      subst heq
      cases hi
      exact ⟨_, List.getElem?_concat_length, rfl, rfl, fun hrel => absurd hrel Bool.false_ne_true⟩
    · obtain ⟨task, htask, hrest⟩ := h.pending uid' i hi
      refine ⟨task, ?_, hrest⟩
      rw [List.getElem?_append_left (List.getElem?_eq_some_iff.1 htask).1]
      exact htask

/-- The removal of a session, with a cleanup for the last one. -/
theorem Sound.finalizeRemoval (h : t.Sound) (id : SessionId) :
    t.Covers { t with world := t.world.finalizeRemoval fs id } := by
  cases hs : t.world.login.sessions.lookup id with
  | none =>
    rw [World.finalizeRemoval_none fs _ hs]
    exact h.covers_self
  | some s =>
    have hagrees := World.finalizeRemoval_some fs _ hs
    have hremoved := h.relogin (h.seated.remove id) fun uid => h.seated.users_remove
    split at hagrees
    · next hin =>
      have hcovers : t.Covers _ := ⟨hremoved, fun hcov =>
        hremoved.covered_iff.2 fun uid huid hout => ?_⟩
      · exact hcovers.agrees hagrees rfl
      refine h.covered_iff.1 hcov uid huid fun hbefore => hout ?_
      rw [h.seated.gone_by_remove hs hbefore hout]
      exact hin
    · next hin =>
      have hsound := hremoved.spawn hin
      have hcovers : t.Covers _ := ⟨hsound, fun hcov =>
        hsound.covered_iff.2 fun uid huid hout => Finmap.mem_insert.2 ?_⟩
      · exact hcovers.agrees hagrees rfl
      by_cases hbefore : uid ∈ t.world.login.users
      · exact Or.inl (h.seated.gone_by_remove hs hbefore hout)
      · exact Or.inr (h.covered_iff.1 hcov uid huid hbefore)

/-- Calls outside of the lock change nothing here. -/
theorem Sound.performAll (h : t.Sound) (effects : List Effect) :
    t.Covers { t with world := t.world.performAll fs effects } :=
  h.covers_self.agrees (World.performAll_agrees fs t.world effects) rfl

theorem Covers.trans {t' t'' : Tracked} (h : t.Covers t') (h' : t'.Sound → t'.Covers t'') :
    t.Covers t'' :=
  ⟨(h' h.1).1, fun hcov => (h' h.1).2 (h.2 hcov)⟩

/-- What covers for one session covers for a row of them. -/
theorem Sound.foldl {f : World → SessionId → World}
    (hf : ∀ {t : Tracked} id, t.Sound → t.Covers { t with world := f t.world id })
    (h : t.Sound) (ids : List SessionId) :
    t.Covers { t with world := ids.foldl f t.world } := by
  induction ids generalizing t with
  | nil => exact h.covers_self
  | cons id ids ih => exact (hf id h).trans fun hsound => ih hsound

/-- Behind a login, before the calls that follow it. -/
def loggedIn (t : Tracked) (st : LoginState) (uid : Nat) : Tracked where
  world := { t.world with
    login := st
    pendingUserCleanups := t.world.pendingUserCleanups.erase uid
    tasks := (t.world.abort (t.world.pendingUserCleanups.lookup uid)).tasks }
  held := insert uid t.held

/-- A login takes its user off the pending cleanups. -/
theorem Sound.login (h : t.Sound) (hst : st.Seated)
    (hnew : ∀ u ∈ st.users, u ∈ t.world.login.users ∨ u = uid) : (t.loggedIn st uid).Sound where
  seated := hst
  tasks := by
    intro task htask
    obtain ⟨task', htask', hstage⟩ := World.abort_stages _ htask
    exact hstage ▸ h.tasks task' htask'
  gone := by
    intro u hu hin
    obtain ⟨hne, hu⟩ := Finmap.mem_erase.1 hu
    exact h.gone u hu ((hnew u hin).resolve_right hne)
  pending := by
    intro u i hi
    obtain ⟨hne, hi⟩ := HashMap.lookup_erase_eq_some.1 hi
    obtain ⟨task, htask, hcleans, hlive, hheld⟩ := h.pending u i hi
    refine ⟨task, (World.abort_getElem? _ fun hi' => ?_).trans htask, hcleans, hlive,
      fun hrel hin => ?_⟩
    · -- the task that was aborted is a cleanup for somebody else
      obtain ⟨task', htask', hcleans', -⟩ := h.pending uid i hi'
      cases htask.symm.trans htask'
      exact hne (Option.some.inj (hcleans.symm.trans hcleans'))
    · exact hheld hrel ((Finset.mem_insert.1 hin).resolve_left hne)

/-- Who logs in is covered by the session. -/
theorem Sound.login_covers (h : t.Sound) (hst : st.Seated)
    (hin : uid ∈ st.users) (hstay : ∀ u ∈ t.world.login.users, u ∈ st.users)
    (hnew : ∀ u ∈ st.users, u ∈ t.world.login.users ∨ u = uid) :
    t.Covers (t.loggedIn st uid) := by
  have hsound := h.login hst hnew
  refine ⟨hsound, fun hcov => hsound.covered_iff.2 fun u hu hout => ?_⟩
  have hne : u ≠ uid := fun e => hout (e ▸ hin)
  have hheld := (Finset.mem_insert.1 hu).resolve_left hne
  exact Finmap.mem_erase.2 ⟨hne, h.covered_iff.1 hcov u hheld fun hu' => hout (hstay u hu')⟩

/-- A login cancels the pending cleanup of its user. -/
theorem Sound.createCompletely (h : t.Sound) {call : CreateCall} {a : CreateAnswers}
    {created : Created} (hfresh : a.id ∉ t.world.login.sessions)
    (hcreated : createLocked t.world.login call a = .ok created) :
    t.Covers { world := t.world.createCompletely fs call created
               held := insert call.uid t.held } := by
  have hseated := (createLocked_handsOver h.seated hfresh hcreated).seated
  have hnone : t.world.login.uidOf a.id = none := by
    rw [uidOf, Finmap.lookup_eq_none.2 hfresh, Option.map_none]
  rw [createLocked_eq h.seated hcreated] at hseated ⊢
  have huid : ∀ k, (createOn t.world.login call a (some "seat0")).login.uidOf k
      = if k = a.id then some call.uid else t.world.login.uidOf k :=
    fun k => uidOf_create _ _ _
  refine (h.login_covers hseated ?_ (fun u hu => ?_) fun u hu => ?_).agrees ⟨?_, ?_, ?_⟩ rfl
  · exact (hseated.mem_users_iff _).2 ⟨a.id, (huid a.id).trans (if_pos rfl)⟩
  · obtain ⟨k, hk⟩ := (h.seated.mem_users_iff u).1 hu
    refine (hseated.mem_users_iff u).2 ⟨k, (huid k).trans ?_⟩
    rw [if_neg, hk]
    rintro rfl
    exact Option.some_ne_none u (hk.symm.trans hnone)
  · obtain ⟨k, hk⟩ := (hseated.mem_users_iff u).1 hu
    rw [huid] at hk
    split at hk
    · exact Or.inr (Option.some.inj hk).symm
    · exact Or.inl ((h.seated.mem_users_iff u).2 ⟨k, hk⟩)
  · exact (World.performAll_agrees ..).login.trans (World.abort_frame ..).1
  · exact (World.performAll_agrees ..).pending.trans (World.abort_frame ..).2.2.2
  · refine (World.performAll_agrees ..).tasks.trans ?_
    unfold World.abort loggedIn
    cases t.world.pendingUserCleanups.lookup call.uid with
    | none => rfl
    | some i => rfl

/-- A method that starts no cleanup leaves nobody uncovered if the holders
stay logged in. -/
theorem Sound.bare (fs : Devfs) (h : t.Sound) (hst : st.Seated)
    (husers : ∀ uid ∈ st.users, uid ∈ t.world.login.users) (effects : List Effect) :
    t.Decides { t with world := { t.world with login := st }.performAll fs effects }
      (∀ uid ∈ t.held, uid ∈ t.world.login.users → uid ∈ st.users) := by
  have hsound := h.relogin hst husers
  have hdecides : t.Decides _ (∀ uid ∈ t.held, uid ∈ t.world.login.users → uid ∈ st.users) :=
    ⟨hsound, fun hcov => hsound.covered_iff.trans (forall₂_congr fun uid huid => ?_)⟩
  · exact hdecides.agrees (World.performAll_agrees fs _ effects) rfl
  constructor
  · -- who is logged in has no entry
    intro hcov' hin
    by_contra hout
    exact h.gone uid (hcov' hout) hin
  · intro hstay hout
    exact h.covered_iff.1 hcov uid huid fun hin => hout (hstay hin)

/-- An activation logs nobody in or out. -/
theorem run_activation (h : st.Seated)
    (hop : (∃ id, (op.run st).1 = st.activateSession id) ∨ (op.run st).1 = st) :
    (op.run st).1.Seated ∧ ∀ uid, uid ∈ (op.run st).1.users ↔ uid ∈ st.users := by
  rcases hop with ⟨id, hid⟩ | hid
  · rw [hid, users_activateSession]
    exact ⟨h.activate id, fun uid => Iff.rfl⟩
  · rw [hid]
    exact ⟨h, fun uid => Iff.rfl⟩

/-- Who is logged in behind a row of removals has a session beside them. -/
theorem users_removeAll (h : st.Seated) (ids : List SessionId) (uid : Nat) :
    uid ∈ (ids.foldl LoginState.removeSession st).users
      ↔ ∃ k ∉ ids, st.uidOf k = some uid := by
  rw [(seated_removeAll h ids).mem_users_iff]
  refine exists_congr fun k => ?_
  rw [uidOf_removeAll]
  split
  · next hk => exact iff_of_false nofun fun h => h.1 hk
  · next hk => exact (and_iff_right hk).symm

theorem activateSessionOnSeat_login (st : LoginState) (id sid : String) :
    (∃ k, (activateSessionOnSeat st id sid).login = st.activateSession k)
      ∨ (activateSessionOnSeat st id sid).login = st := by
  unfold activateSessionOnSeat
  split
  · exact Or.inr rfl
  · next s hs =>
    split
    · exact Or.inr rfl
    · refine Or.inl ⟨id, ?_⟩
      unfold activateWithHandover activateWithAclHandover
      rw [hs]

theorem seatActivateSession_login (st : LoginState) (sid : SeatId) (id : SessionId) :
    (∃ k, (SeatInterface.activateSession st sid id).login = st.activateSession k)
      ∨ (SeatInterface.activateSession st sid id).login = st := by
  unfold SeatInterface.activateSession
  split
  · exact Or.inr rfl
  · split
    · exact Or.inl ⟨id, rfl⟩
    · exact Or.inr rfl

theorem sessionTerminate_login (st : LoginState) (id : SessionId) :
    (SessionInterface.terminate st id).login = st.removeSession id := by
  unfold SessionInterface.terminate
  split
  · rfl
  · next hout =>
    rw [LoginState.removeSession, Finmap.lookup_eq_none.2 hout]
    rfl

theorem seatTerminate_login (st : LoginState) (sid : SeatId) :
    (SeatInterface.terminate st sid).login
      = (((st.seats.lookup sid).map Seat.sessions).getD []).foldl LoginState.removeSession st := by
  unfold SeatInterface.terminate
  split
  · next hnone => rw [hnone]; rfl
  · next seat hseat =>
    rw [hseat]
    exact (forEach_remove st (fun _ _ => aclSteps_terminateLeader _) _).1

/-- Whoever is in the foreground, the users stay. -/
theorem Sound.activation (h : t.Sound)
    (hop : (∃ id, (op.run t.world.login).1 = t.world.login.activateSession id)
      ∨ (op.run t.world.login).1 = t.world.login) :
    t.Decides { t with world :=
      { t.world with login := (op.run t.world.login).1 }.performAll fs (op.run t.world.login).2 }
      True := by
  obtain ⟨hseated, husers⟩ := run_activation h.seated hop
  exact (h.bare fs hseated (fun uid => (husers uid).1) _).congr
    (iff_of_true (fun uid _ => (husers uid).2) True.intro)

/-- A method that removes sessions and starts no cleanup. -/
theorem Sound.removals (h : t.Sound) {ids : List SessionId}
    (hop : (op.run t.world.login).1 = ids.foldl LoginState.removeSession t.world.login) :
    t.Decides { t with world :=
      { t.world with login := (op.run t.world.login).1 }.performAll fs (op.run t.world.login).2 }
      (t.HoldersStay ids) := by
  have husers := users_removeAll h.seated ids
  rw [hop]
  refine (h.bare fs (seated_removeAll h.seated ids) (fun uid huid => ?_) _).congr
    (forall₃_congr fun uid _ _ => husers uid)
  obtain ⟨k, -, hk⟩ := (husers uid).1 huid
  exact (h.seated.mem_users_iff uid).2 ⟨k, hk⟩

/-- A method, by what it does to the sessions. -/
theorem Sound.operation (h : t.Sound) (hfresh : op.Fresh t.world.login) :
    t.Decides (t.step fs (.operation op)) (t.KeepsCovered (.operation op)) := by
  have hnone : op.ensures t.world.login = none →
      t.step fs (.operation op) = { t with world := t.world.complete fs op } := by
    intro hensures
    rw [step, hensures]
    simp
  -- only a login makes a runtime directory
  cases op with
  | createSession call a =>
    cases hcreated : createLocked t.world.login call a with
    | error e =>
      rw [hnone (by simp [Operation.ensures, hcreated])]
      simp only [World.complete, hcreated]
      exact h.covers_self.decides True.intro
    | ok created =>
      have hstep : t.step fs (.operation (.createSession call a))
          = { world := t.world.createCompletely fs call created
              held := insert call.uid t.held } := by
        simp [step, World.complete, Operation.ensures, hcreated]
      rw [hstep]
      exact (h.createCompletely hfresh hcreated).decides True.intro
  | releaseSession id =>
    rw [hnone rfl, World.complete]
    split
    · exact (h.finalizeRemoval id).decides True.intro
    · exact h.covers_self.decides True.intro
  | activateSession id =>
    rw [hnone rfl]
    exact h.activation (Or.inl ⟨id, activateSession_login id⟩)
  | activateSessionOnSeat id sid =>
    rw [hnone rfl]
    exact h.activation (activateSessionOnSeat_login _ id sid)
  | terminateSession id =>
    rw [hnone rfl, World.complete]
    split
    · exact ((h.performAll _).trans fun hsound => hsound.finalizeRemoval id).decides True.intro
    · exact h.covers_self.decides True.intro
  | terminateUser uid =>
    rw [hnone rfl, World.complete]
    exact ((h.performAll _).trans fun hsound =>
      hsound.foldl (fun id hs => hs.finalizeRemoval id) _).decides True.intro
  | terminateSeat sid =>
    rw [hnone rfl, World.complete]
    split
    · exact h.covers_self.decides True.intro
    · exact (h.foldl (fun id hs => (hs.performAll _).trans fun hsound =>
        hsound.finalizeRemoval id) _).decides True.intro
  | sessionActivate id =>
    rw [hnone rfl]
    exact h.activation (Or.inl ⟨id, rfl⟩)
  | sessionTerminate id =>
    rw [hnone rfl]
    exact h.removals (sessionTerminate_login _ id)
  | seatActivateSession sid id =>
    rw [hnone rfl]
    exact h.activation (seatActivateSession_login _ sid id)
  | seatTerminate sid =>
    rw [hnone rfl]
    exact h.removals (seatTerminate_login _ sid)
  | userTerminate uid =>
    rw [hnone rfl]
    exact h.removals (forEach_remove _ (fun _ _ => rfl) _).1

end Methods

-- ==== cleanups

section Cleanups

variable {fs : Devfs} {i : Nat}

omit t uid in
theorem task_of_stage {stage : Stage} (h : w.stage i = stage)
    (hstage : stage ≠ .finished) : ∃ task, w.tasks[i]? = some task ∧ task.stage = stage := by
  unfold World.stage at h
  cases htask : w.tasks[i]? with
  | none =>
    rw [htask] at h
    exact absurd h.symm hstage
  | some task =>
    rw [htask] at h
    exact ⟨task, rfl, h⟩

/-- No task is in the middle of a method. -/
theorem Sound.no_call (h : t.Sound) {stage : Stage} (hstage : t.world.stage i = stage)
    (hcleans : stage.cleans = none) : stage = .finished := by
  by_contra hne
  obtain ⟨task, htask, rfl⟩ := task_of_stage hstage hne
  exact (h.tasks task (List.mem_of_getElem? htask)).elim (fun hc => hc hcleans) hne

section Next

variable {now next : Stage} {held : Finset Nat}

/-- A cleanup goes on, and entries of the pending ones may be erased. -/
theorem Sound.goto (h : t.Sound) (hi : t.world.stage i = now) (hcleans : now.cleans = some uid)
    (hheld : held ⊆ t.held) {p : HashMap Nat Nat}
    (hpending : ∀ u j, p.lookup u = some j → t.world.pendingUserCleanups.lookup u = some j)
    (hnext : next.cleans = some uid ∨ next = .finished ∧ p.lookup uid ≠ some i)
    (hrel : next.hasReleased = true → p.lookup uid = some i → uid ∉ held) :
    ({ world := { t.world.goto i next with pendingUserCleanups := p }, held } : Tracked).Sound := by
  have hunfinished : now ≠ .finished := by
    rintro rfl
    cases hcleans
  obtain ⟨task, htask, rfl⟩ := task_of_stage hi hunfinished
  have hself : (t.world.goto i next).tasks[i]? = some { task with stage := next } := by
    rw [World.goto, List.getElem?_modify_eq, htask]
    rfl
  have hother : ∀ {j}, j ≠ i → (t.world.goto i next).tasks[j]? = t.world.tasks[j]? :=
    fun hj => List.getElem?_modify_ne _ _ (Ne.symm hj)
  refine ⟨h.seated, fun task' htask' => ?_, fun u hu => ?_, fun u j hj => ?_⟩
  · obtain ⟨j, hj⟩ := List.mem_iff_getElem?.1 htask'
    by_cases hji : j = i
    · subst hji
      cases hself.symm.trans hj
      refine hnext.imp (fun hc => ?_) And.left
      rw [hc]
      exact Option.some_ne_none uid
    · exact h.tasks task' (List.mem_of_getElem? ((hother hji).symm.trans hj))
  · obtain ⟨j, hj⟩ := Finmap.mem_iff.1 hu
    exact h.gone u (Finmap.mem_of_lookup_eq_some (hpending u j hj))
  · obtain ⟨task', htask', hcleans', hlive, hrel'⟩ := h.pending u j (hpending u j hj)
    by_cases hji : j = i
    · subst hji
      cases htask.symm.trans htask'
      obtain rfl := Option.some.inj (hcleans.symm.trans hcleans')
      refine ⟨_, hself, ?_, hlive, fun hr => hrel hr hj⟩
      exact hnext.resolve_right fun hfin => hfin.2 hj
    · exact ⟨task', (hother hji).trans htask', hcleans', hlive, fun hr hin =>
        hrel' hr (hheld hin)⟩

/-- As long as no entry is erased, a cleanup leaves nobody uncovered. -/
theorem Sound.goto_covers (h : t.Sound) (hi : t.world.stage i = now)
    (hcleans : now.cleans = some uid) (hheld : held ⊆ t.held)
    (hw : (t.world.goto i next).Agrees w) (hnext : next.cleans = some uid
      ∨ next = .finished ∧ t.world.pendingUserCleanups.lookup uid ≠ some i)
    (hrel : next.hasReleased = true → t.world.pendingUserCleanups.lookup uid = some i →
      uid ∉ held) : t.Covers { world := w, held } := by
  have hsound := h.goto hi hcleans hheld (fun _ _ hj => hj) hnext hrel
  have hcovers : t.Covers { world := t.world.goto i next, held } :=
    ⟨hsound, fun hcov => hsound.covered_iff.2 fun u hu hout =>
      h.covered_iff.1 hcov u (hheld hu) hout⟩
  exact hcovers.agrees hw rfl

/-- A cleanup goes on, and has not released the directory yet. -/
theorem Sound.goto_next (h : t.Sound) (hi : t.world.stage i = now)
    (hcleans : now.cleans = some uid) (hheld : held ⊆ t.held)
    (hw : (t.world.goto i next).Agrees w)
    (hnext : next.cleans = some uid ∧ next.hasReleased = false) : t.Covers { world := w, held } :=
  h.goto_covers hi hcleans hheld hw (Or.inl hnext.1)
    fun hr => absurd (hnext.2.symm.trans hr) Bool.false_ne_true

end Next

/-- A cleanup that does not take itself off the pending ones. -/
theorem Sound.cleanup_covers (h : t.Sound) (a : Answers)
    (hstage : ∀ uid, t.world.stage i ≠ .forgetting uid) : t.Covers
    (t.step fs (.cleanup i a)) := by
  rw [step]
  unfold World.run World.releases
  cases hi : t.world.stage i with
  | create call => cases h.no_call hi rfl
  | activate id => cases h.no_call hi rfl
  | release id => cases h.no_call hi rfl
  | finalize id => cases h.no_call hi rfl
  | calls todo => cases h.no_call hi rfl
  | finished => simpa using h.covers_self
  | forgetting uid => exact absurd hi (hstage uid)
  | sleeping uid =>
    dsimp only
    split
    · simpa using h.covers_self
    · exact h.goto_next hi rfl Finset.sdiff_subset ⟨rfl, rfl, rfl⟩ ⟨rfl, rfl⟩
  | checking uid =>
    dsimp only
    split
    · next hin =>
      refine h.goto_covers hi rfl Finset.sdiff_subset ⟨rfl, rfl, rfl⟩
        (Or.inr ⟨rfl, fun hentry => ?_⟩) (fun hr => absurd hr Bool.false_ne_true)
      exact h.gone uid (Finmap.mem_of_lookup_eq_some hentry) hin
    · exact h.goto_next hi rfl Finset.sdiff_subset ⟨rfl, rfl, rfl⟩ ⟨rfl, rfl⟩
  | releasing uid =>
    dsimp only
    split
    · exact h.goto_next hi rfl Finset.sdiff_subset ⟨rfl, rfl, rfl⟩ ⟨rfl, rfl⟩
    · exact h.goto_covers hi rfl Finset.sdiff_subset ⟨rfl, rfl, rfl⟩ (Or.inl rfl)
        (fun _ _ => by simp)
  | removing uid =>
    exact h.goto_covers hi rfl Finset.sdiff_subset ⟨rfl, rfl, rfl⟩ (Or.inl rfl)
      (fun _ _ => by simp)
  | releasingSlice uid =>
    refine h.goto_covers hi rfl Finset.sdiff_subset ⟨rfl, rfl, rfl⟩ (Or.inl rfl)
      (fun _ hentry hheld => ?_)
    obtain ⟨task, htask, -, -, hrel⟩ := h.pending uid i hentry
    obtain ⟨task', htask', hslice⟩ := task_of_stage hi (by simp)
    cases htask.symm.trans htask'
    exact hrel (by rw [hslice]; rfl) (Finset.sdiff_subset hheld)

/-- A cleanup, by the stage it is in. -/
theorem Sound.cleanup (h : t.Sound) (i : Nat) (a : Answers) :
    t.Decides (t.step fs (.cleanup i a)) (t.KeepsCovered (.cleanup i a)) := by
  by_cases hforget : ∃ uid, t.world.stage i = .forgetting uid
  · obtain ⟨uid, hi⟩ := hforget
    have hstep : t.step fs (.cleanup i a) = { t with world := { t.world with
        pendingUserCleanups := t.world.pendingUserCleanups.erase uid }.goto i .finished } := by
      rw [step, World.run, World.releases, hi]
      simp
    rw [hstep]
    have hsound : ({ t with world := { t.world with
        pendingUserCleanups := t.world.pendingUserCleanups.erase uid }.goto i .finished } :
          Tracked).Sound := by
      refine h.goto hi rfl (Finset.Subset.refl _) (fun u j hj => ?_)
        (Or.inr ⟨rfl, fun hentry => ?_⟩) (fun hr => absurd hr Bool.false_ne_true)
      · exact (HashMap.lookup_erase_eq_some.1 hj).2
      · exact (HashMap.lookup_erase_eq_some.1 hentry).1 rfl
    refine ⟨hsound, fun hcov => hsound.covered_iff.trans ?_⟩
    change (∀ u ∈ t.held, u ∉ t.world.login.users → u ∈ t.world.pendingUserCleanups.erase uid)
      ↔ ∀ u ∈ t.held, (t.world.stage i).forgets = some u → u ∈ t.world.login.users
    refine forall₂_congr fun u hu => ?_
    rw [Finmap.mem_erase, hi, Stage.forgets, Option.some.injEq]
    constructor
    · rintro hcov' rfl
      by_contra hout
      exact (hcov' hout).1 rfl
    · intro hin hout
      exact ⟨fun e => hout (hin e.symm), h.covered_iff.1 hcov u hu hout⟩
  · refine (h.cleanup_covers a fun uid hi => hforget ⟨uid, hi⟩).decides fun uid _ hi => ?_
    refine absurd ⟨uid, ?_⟩ hforget
    unfold Stage.forgets at hi
    split at hi
    · next hstage =>
      cases hi
      exact hstage
    · cases hi

/-- A cleanup that is dropped was aborted, and is not pending any more. -/
theorem Sound.drop (h : t.Sound) (i : Nat) : t.Covers (t.step fs (.drop i)) := by
  have hdrop : ∀ task uid, t.world.tasks[i]? = some task → task.stage.cleans = some uid →
      task.aborted = true → t.Covers { t with world := t.world.goto i .finished } := by
    intro task uid htask hcleans haborted
    have hi : t.world.stage i = task.stage := by
      rw [World.stage, htask]
      rfl
    refine h.goto_covers hi hcleans (Finset.Subset.refl _) ⟨rfl, rfl, rfl⟩
      (Or.inr ⟨rfl, fun hentry => ?_⟩) (fun hr => absurd hr Bool.false_ne_true)
    obtain ⟨task', htask', -, hlive, -⟩ := h.pending uid i hentry
    cases htask.symm.trans htask'
    rw [haborted] at hlive
    cases hlive
  rw [step, World.drop]
  split
  · next uid htask => exact hdrop _ uid htask rfl rfl
  · next uid htask => exact hdrop _ uid htask rfl rfl
  · next uid htask => exact hdrop _ uid htask rfl rfl
  · exact h.covers_self

end Cleanups

-- ==== the runs

/-- Each step keeps the invariant, and keeps the users covered exactly if it
may. -/
theorem Sound.step {fs : Devfs} (h : t.Sound) {e : Happening}
    (hfresh : t.Fresh e) : t.Decides (t.step fs e) (t.KeepsCovered e) := by
  cases e with
  | operation op => exact h.operation hfresh
  | cleanup i a => exact h.cleanup i a
  | drop i => exact (h.drop i).decides True.intro

/-- In every run of methods, with the cleanups going on between them,
everybody who holds a runtime directory is logged in or has a pending
cleanup all along exactly if nobody loses their last session to a method
that starts none, and no cleanup erases the entry of a later one. -/
theorem directories_covered_iff (fs : Devfs) (nodes : Nodes) (events : List Happening)
    (hfresh : Allowed (step fs) Fresh (start nodes) events) :
    (∀ pre, pre <+: events → (pre.foldl (step fs) (start nodes)).Covered)
      ↔ Allowed (step fs) KeepsCovered (start nodes) events := by
  refine (allowed_iff_kept (fun _ _ h hfresh => (Sound.step h hfresh).1)
    (fun _ _ h hfresh hcov => (Sound.step h hfresh).2 hcov) events _ (start_sound nodes) ?_
    hfresh).symm
  intro uid huid
  exact absurd huid (Finset.notMem_empty uid)

instance (t : Tracked) (i : Nat) (a : Answers) : Decidable (t.KeepsCovered (.cleanup i a)) :=
  inferInstanceAs (Decidable (∀ uid ∈ t.held, _ → _))

/-- The next piece of a cleanup. -/
abbrev piece (i : Nat) : Happening := .cleanup i { create := answersFor "", dirExists := true }

theorem login_fresh : (start rootNodes).Fresh (.operation (login "1" 1000 50)) := by
  unfold login Fresh Operation.Fresh
  decide

/-- A user logs in and out, and their runtime directory is released. -/
def loggedOut : List Happening :=
  [.operation (login "1" 1000 50), .operation (.releaseSession "1"), piece 0, piece 0, piece 0,
    piece 0, piece 0, piece 0]

theorem loggedOut_covered : Allowed (step oneCard) Fresh (start rootNodes) loggedOut
    ∧ ∀ pre, pre <+: loggedOut → (pre.foldl (step oneCard) (start rootNodes)).Covered := by
  have hfresh : Allowed (step oneCard) Fresh (start rootNodes) loggedOut :=
    ⟨login_fresh, True.intro, True.intro, True.intro, True.intro, True.intro, True.intro,
      True.intro, True.intro⟩
  refine ⟨hfresh, (directories_covered_iff oneCard rootNodes loggedOut hfresh).2 ?_⟩
  exact ⟨True.intro, True.intro, by decide, by decide, by decide, by decide, by decide,
    by decide, True.intro⟩

/-- Somebody who is gone holds a directory, and nobody will release it. -/
structure Leaked (t : Tracked) (uid : Nat) : Prop where
  held : uid ∈ t.held
  gone : uid ∉ t.world.login.users
  unlisted : uid ∉ t.world.pendingUserCleanups
  idle : t.world.tasks.length = 0

theorem Sound.leaked_uncovered (h : t.Sound) (hleaked : t.Leaked uid) :
    t.Leaked uid ∧ ¬ t.Covered :=
  ⟨hleaked, fun hcov => hleaked.unlisted (h.covered_iff.1 hcov uid hleaked.held hleaked.gone)⟩

/-- A user logs in, and the session is removed. -/
def loggedInThen (op : Operation) : Tracked :=
  [.operation (login "1" 1000 50), .operation op].foldl (step oneCard) (start rootNodes)

theorem loggedInThen_sound (op : Operation) (hfresh : op.Fresh (step oneCard (start rootNodes)
    (.operation (login "1" 1000 50))).world.login) : (loggedInThen op).Sound :=
  (((start_sound rootNodes).step login_fresh).1.operation hfresh).1

/-- Whichever object the session is terminated with, nobody will release
the directory. -/
theorem terminated_uncovered : ((loggedInThen (.sessionTerminate "1")).Leaked 1000
      ∧ ¬ (loggedInThen (.sessionTerminate "1")).Covered)
    ∧ ((loggedInThen (.seatTerminate "seat0")).Leaked 1000
      ∧ ¬ (loggedInThen (.seatTerminate "seat0")).Covered)
    ∧ (loggedInThen (.userTerminate 1000)).Leaked 1000
      ∧ ¬ (loggedInThen (.userTerminate 1000)).Covered := by
  refine ⟨?_, ?_, ?_⟩
  · exact (loggedInThen_sound (.sessionTerminate "1") True.intro).leaked_uncovered
      ⟨by decide, by decide, by decide, by decide⟩
  · exact (loggedInThen_sound (.seatTerminate "seat0") True.intro).leaked_uncovered
      ⟨by decide, by decide, by decide, by decide⟩
  · exact (loggedInThen_sound (.userTerminate 1000) True.intro).leaked_uncovered
      ⟨by decide, by decide, by decide, by decide⟩

end Tracked

end Dynamod.Logind
