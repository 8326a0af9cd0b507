/-
What interleaved calls can do to the devices and to the runtime
directories.

Of a task only two things matter here: the ownership steps it has left
(`aclLeft`), and whether it is about to take a runtime directory away
(`clearing`). `Move` says what one event can do in these terms, and
everything else is derived from it.

# The devices

Only the last of the critical sections counts: as long as its task has
steps left, they lead to the user in the foreground (`Owed.promised`),
and once it has none, that user holds the devices (`Owed.settled`),
provided that no task with an older section makes a step after it was
done (`Orderly`).

# The runtime directories

A cleanup that found its user gone releases the directory without
looking again. Nothing but a login can bring the user back, so the user
is still gone as long as no login of theirs comes in between
(`NotRevived`).
-/
import Dynamod.Logind.Proofs.Ownership
import Dynamod.Logind.Tasks

namespace Dynamod.Logind

open Lib LoginState

variable {a : Answers}

-- ==== the stages

/-- The ownership steps that are left. -/
def Stage.aclLeft : Stage → List AclStep
  | .calls todo => aclSteps todo
  | _ => []

/-- The user whose runtime directory is taken away next. -/
def Stage.clearing : Stage → Option Nat
  | .releasing uid => some uid
  | .removing uid => some uid
  | _ => none

/-- The next call is an ownership step. -/
def Stage.givesNext : Stage → Bool
  | .calls (.acl _ :: _) => true
  | _ => false

/-- A call that has returned, or a cleanup. -/
def Stage.returned : Stage → Bool
  | .calls todo => todo.isEmpty
  | .create _ | .activate _ | .release _ | .finalize _ => false
  | _ => true

theorem aclLeft_of_returned {stage : Stage} (h : stage.returned = true) : stage.aclLeft = [] := by
  cases stage
  case calls todo =>
    rw [List.isEmpty_iff.1 h]
    rfl
  all_goals rfl

/-- The login whose critical section comes next. -/
def Stage.creating : Stage → Option CreateCall
  | .create call => some call
  | _ => none

namespace World

/-- The ownership steps a task has left. -/
def aclLeft (w : World) (i : Nat) : List AclStep := (w.stage i).aclLeft

/-- The user whose runtime directory a task takes away next. -/
def clearing (w : World) (i : Nat) : Option Nat := (w.stage i).clearing

section Stages

variable {w : World} {i j : Nat}

theorem stage_goto_ne (hj : j ≠ i) (stage : Stage) : (w.goto i stage).stage j = w.stage j := by
  simp [World.stage, goto, hj.symm]

/-- A task that is not finished gets where it goes. -/
theorem stage_goto_self (hi : w.stage i ≠ .finished) (stage : Stage) :
    (w.goto i stage).stage i = stage := by
  unfold World.stage at hi
  cases h : w.tasks[i]? with
  | none => simp [h] at hi
  | some t => simp [World.stage, goto, h]

theorem stage_abort (o : Option Nat) : (w.abort o).stage j = w.stage j := by
  cases o with
  | none => rfl
  | some i =>
    cases h : w.tasks[j]? with
    | none => simp [World.stage, abort, List.getElem?_modify, h]
    | some t =>
      by_cases hj : i = j
      · simp [World.stage, abort, h, hj]
      · simp [World.stage, abort, h, hj]

theorem stage_append (w : World) (t : Task) (j : Nat) :
    ({ w with tasks := w.tasks ++ [t] } : World).stage j
      = if j = w.tasks.length then t.stage else w.stage j := by
  unfold World.stage
  by_cases hj : j = w.tasks.length
  · subst hj
    simp
  · rw [if_neg hj]
    by_cases hlt : j < w.tasks.length
    · rw [List.getElem?_append_left hlt]
    · have hout : w.tasks.length < j := by omega
      rw [List.getElem?_eq_none (by simp; omega), List.getElem?_eq_none (by omega)]

theorem clearing_mem {uid : Nat} (h : w.clearing i = some uid) :
    ∃ t ∈ w.tasks, t.stage.clearing = some uid := by
  unfold clearing World.stage at h
  cases ht : w.tasks[i]? with
  | none => simp [ht, Stage.clearing] at h
  | some t =>
    rw [ht] at h
    exact ⟨t, List.mem_of_getElem? ht, h⟩

/-- A new task that looks finished changes nothing. -/
theorem read_append {A : Type} {f : Stage → A} {t : Task} (ht : f t.stage = f .finished)
    (j : Nat) : f (({ w with tasks := w.tasks ++ [t] } : World).stage j) = f (w.stage j) := by
  rw [stage_append]
  split
  · next hj =>
    have hnone : w.stage j = .finished := by simp [hj, World.stage]
    rw [hnone, ht]
  · rfl

end Stages

-- ==== the moves

/-- The id a login draws is not in use. -/
def FreshId (w : World) : Event → Prop
  | .run i a => (w.stage i).creating.isSome → a.create.id ∉ w.login.sessions
  | _ => True

instance (w : World) : (e : Event) → Decidable (FreshId w e)
  | .run i a =>
    inferInstanceAs (Decidable ((w.stage i).creating.isSome → a.create.id ∉ w.login.sessions))
  | .call _ => .isTrue True.intro
  | .drop _ => .isTrue True.intro

/-- What an event can do. -/
inductive Move (fs : Devfs) (w : World) (e : Event) (w' : World) : Prop
  /-- Nothing about the sessions or the devices; a cleanup may have found
  its user gone. -/
  | quiet (hlogin : w'.login = w.login) (hnodes : w'.nodes = w.nodes)
      (hlatest : w'.latest = w.latest) (hleft : ∀ j, w'.aclLeft j = w.aclLeft j)
      (hclear : ∀ j uid, w'.clearing j = some uid → w.clearing j = some uid ∨ uid ∉ w.login.users)
  /-- A critical section. -/
  | locked (i : Nat) (a : Answers) (he : e = .run i a) (hbefore : w.aclLeft i = [])
      (hhands : HandsOver w.login w'.login (w'.aclLeft i))
      (husers : ∀ uid ∈ w'.login.users, uid ∈ w.login.users
        ∨ ∃ call, w.stage i = .create call ∧ call.uid = uid)
      (hnodes : w'.nodes = w.nodes)
      (hlatest : w'.latest = if w'.aclLeft i = [] then w.latest else some i)
      (hleft : ∀ j, j ≠ i → w'.aclLeft j = w.aclLeft j)
      (hclear : ∀ j uid, w'.clearing j = some uid → w.clearing j = some uid)
  /-- An ownership step. -/
  | gave (i : Nat) (a : Answers) (step : AclStep) (todo : List Effect)
      (he : e = .run i a) (hstage : w.stage i = .calls (.acl step :: todo))
      (hafter : w'.aclLeft i = aclSteps todo) (hlogin : w'.login = w.login)
      (hnodes : w'.nodes = step.run fs w.nodes) (hlatest : w'.latest = w.latest)
      (hleft : ∀ j, j ≠ i → w'.aclLeft j = w.aclLeft j)
      (hclear : ∀ j uid, w'.clearing j = some uid → w.clearing j = some uid)

theorem Move.refl {fs : Devfs} (w : World) (e : Event) : Move fs w e w :=
  .quiet rfl rfl rfl (fun _ => rfl) (fun _ _ h => Or.inl h)

section Moves

variable {fs : Devfs} {w u : World} {e : Event} {i : Nat}

theorem aclLeft_goto_ne {j : Nat} (hj : j ≠ i) (stage : Stage) :
    (w.goto i stage).aclLeft j = w.aclLeft j := by
  unfold aclLeft
  rw [stage_goto_ne hj]

theorem aclLeft_goto_self (hi : w.stage i ≠ .finished) (stage : Stage) :
    (w.goto i stage).aclLeft i = stage.aclLeft := by
  unfold aclLeft
  rw [stage_goto_self hi]

theorem clearing_goto (hi : w.stage i ≠ .finished) {stage : Stage} {j uid : Nat}
    (h : (w.goto i stage).clearing j = some uid) :
    w.clearing j = some uid ∨ j = i ∧ stage.clearing = some uid := by
  unfold clearing at h ⊢
  by_cases hj : j = i
  · subst hj
    rw [stage_goto_self hi] at h
    exact Or.inr ⟨rfl, h⟩
  · rw [stage_goto_ne hj] at h
    exact Or.inl h

/-- A task goes on to a stage with the same ownership steps. -/
theorem quiet_goto {before after : Stage} (hlogin : u.login = w.login)
    (hnodes : u.nodes = w.nodes) (hlatest : u.latest = w.latest)
    (htasks : u.tasks = w.tasks) (hbefore : w.stage i = before)
    (hne : before ≠ .finished) (hleft : after.aclLeft = before.aclLeft)
    (hclear : ∀ uid, after.clearing = some uid →
      before.clearing = some uid ∨ uid ∉ w.login.users) : Move fs w e (u.goto i after) := by
  subst hbefore
  have hstage : ∀ j, u.stage j = w.stage j := by
    intro j
    unfold World.stage
    rw [htasks]
  have hi : u.stage i ≠ .finished := hstage i ▸ hne
  refine .quiet hlogin hnodes hlatest (fun j => ?_) fun j uid h => ?_
  · by_cases hj : j = i
    · subst hj
      rw [aclLeft_goto_self hi, hleft]
      rfl
    · rw [aclLeft_goto_ne hj]
      exact congrArg Stage.aclLeft (hstage j)
  · rcases clearing_goto hi h with h' | ⟨rfl, h'⟩
    · unfold clearing at h'
      rw [hstage] at h'
      exact Or.inl h'
    · exact hclear uid h'

theorem locked_leave {todo : List Effect} (hhands : HandsOver w.login u.login (aclSteps todo))
    (husers : ∀ uid ∈ u.login.users, uid ∈ w.login.users
      ∨ ∃ call, w.stage i = .create call ∧ call.uid = uid)
    (hnodes : u.nodes = w.nodes) (hlatest : u.latest = w.latest)
    (hi : u.stage i ≠ .finished) (hbefore : w.aclLeft i = [])
    (hleft : ∀ j, u.aclLeft j = w.aclLeft j) (hclear : ∀ j, u.clearing j = w.clearing j) :
    Move fs w (.run i a) (u.leave i todo) := by
  have hafter : (u.leave i todo).aclLeft i = aclSteps todo :=
    aclLeft_goto_self hi (.calls todo)
  refine .locked i a rfl hbefore (hafter ▸ hhands) husers hnodes ?_
    (fun j hj => (aclLeft_goto_ne hj _).trans (hleft j)) fun j uid h => ?_
  · rw [hafter, ← hlatest]
    rfl
  · rcases clearing_goto hi h with h | h
    · rwa [hclear] at h
    · cases h.2

-- ---- one move a piece

theorem abort_frame (w : World) (o : Option Nat) : (w.abort o).login = w.login
    ∧ (w.abort o).nodes = w.nodes ∧ (w.abort o).latest = w.latest
    ∧ (w.abort o).pendingUserCleanups = w.pendingUserCleanups := by
  cases o with
  | none => exact ⟨rfl, rfl, rfl, rfl⟩
  | some i => exact ⟨rfl, rfl, rfl, rfl⟩

theorem create_move (hseated : w.login.Seated) {call : CreateCall}
    (hstage : w.stage i = .create call) (hfresh : a.create.id ∉ w.login.sessions) :
    Move fs w (.run i a) (w.create i call a.create) := by
  unfold World.create
  cases hcreated : createLocked w.login call a.create with
  | error e => exact quiet_goto rfl rfl rfl rfl hstage nofun rfl nofun
  | ok created =>
    have heq := createLocked_eq hseated hcreated
    refine locked_leave (w := w) ?_ (fun uid huid => ?_) (abort_frame _ _).2.1
      (abort_frame _ _).2.2.1 ?_ (congrArg Stage.aclLeft hstage)
      (fun j => congrArg Stage.aclLeft (stage_abort _))
      (fun j => congrArg Stage.clearing (stage_abort _))
    · rw [(abort_frame _ _).1]
      exact createLocked_handsOver hseated hfresh hcreated
    · rw [(abort_frame _ _).1, heq] at huid
      exact (hseated.users_create hfresh rfl huid).imp_right fun h => ⟨call, hstage, h⟩
    · rw [stage_abort]
      exact hstage.trans_ne nofun

theorem activate_move (hseated : w.login.Seated) {id : SessionId}
    (hstage : w.stage i = .activate id) : Move fs w (.run i a) (w.activate i id) := by
  refine locked_leave (activateSession_settled hseated id) (fun uid huid => Or.inl ?_)
    rfl rfl (hstage.trans_ne nofun) (congrArg Stage.aclLeft hstage) (fun _ => rfl)
    (fun _ => rfl)
  rw [show (_ : World).login = _ from activateSession_login id] at huid
  exact hseated.users_activate huid

theorem finalize_move (hseated : w.login.Seated) {id : SessionId}
    (hstage : w.stage i = .finalize id) : Move fs w (.run i a) (w.finalize i id) := by
  have hbefore : w.aclLeft i = [] := congrArg Stage.aclLeft hstage
  unfold World.finalize
  cases hf : finalizeLocked w.login id with
  | none => exact quiet_goto rfl rfl rfl rfl hstage nofun rfl nofun
  | some f =>
    have hhands := finalizeLocked_handsOver hseated hf
    rw [← aclSteps_map_acl f.after] at hhands
    have husers : ∀ uid ∈ f.login.users, uid ∈ w.login.users
        ∨ ∃ call, w.stage i = .create call ∧ call.uid = uid := by
      obtain ⟨s, -, rfl⟩ := Option.map_eq_some_iff.1 hf
      exact fun uid huid => Or.inl (hseated.users_remove huid)
    dsimp only
    split
    · -- the cleanup that is started sleeps
      refine locked_leave hhands husers rfl rfl ?_ hbefore
        (read_append (w := w) (f := Stage.aclLeft) (t := { stage := .sleeping f.uid }) rfl)
        (read_append (w := w) (f := Stage.clearing) (t := { stage := .sleeping f.uid }) rfl)
      have hnew := stage_append w { stage := .sleeping f.uid } i
      refine hnew.trans_ne ?_
      split
      · nofun
      · exact hstage.trans_ne nofun
    · exact locked_leave hhands husers rfl rfl (hstage.trans_ne nofun) hbefore
        (fun _ => rfl) (fun _ => rfl)

theorem perform_move {effect : Effect} {todo : List Effect}
    (hstage : w.stage i = .calls (effect :: todo)) :
    Move fs w (.run i a) ((w.perform fs effect).goto i (.calls todo)) := by
  cases effect
  case acl step =>
    have hi : (w.perform fs (.acl step)).stage i ≠ .finished := hstage.trans_ne nofun
    refine .gave i a step todo rfl hstage (aclLeft_goto_self hi _) rfl rfl rfl
      (fun j hj => aclLeft_goto_ne hj _) fun j uid h => ?_
    rcases clearing_goto hi h with h | ⟨-, h⟩
    · exact h
    · cases h
  all_goals exact quiet_goto rfl rfl rfl rfl hstage nofun rfl nofun

theorem run_move (hseated : w.login.Seated)
    (hfresh : FreshId w (.run i a)) : Move fs w (.run i a) (w.run fs i a) := by
  unfold World.run
  cases hstage : w.stage i with
  | create call =>
    refine create_move hseated hstage (hfresh ?_)
    rw [hstage]
    rfl
  | activate id => exact activate_move hseated hstage
  | release id =>
    dsimp only
    unfold World.release
    split
    · exact quiet_goto rfl rfl rfl rfl hstage nofun rfl nofun
    · exact quiet_goto rfl rfl rfl rfl hstage nofun rfl nofun
  | finalize id => exact finalize_move hseated hstage
  | calls todo =>
    cases todo with
    | nil => exact quiet_goto rfl rfl rfl rfl hstage nofun rfl nofun
    | cons effect todo => exact perform_move hstage
  | sleeping uid =>
    dsimp only
    split
    · exact .refl w _
    · exact quiet_goto rfl rfl rfl rfl hstage nofun rfl nofun
  | checking uid =>
    dsimp only
    split
    · exact quiet_goto rfl rfl rfl rfl hstage nofun rfl nofun
    · next huid =>
      refine quiet_goto rfl rfl rfl rfl hstage nofun rfl fun uid' h => Or.inr ?_
      injection h with h
      exact h ▸ huid
  | releasing uid =>
    dsimp only
    split
    · exact quiet_goto rfl rfl rfl rfl hstage nofun rfl fun uid' h => Or.inl h
    · exact quiet_goto rfl rfl rfl rfl hstage nofun rfl nofun
  | removing uid => exact quiet_goto rfl rfl rfl rfl hstage nofun rfl nofun
  | releasingSlice uid => exact quiet_goto rfl rfl rfl rfl hstage nofun rfl nofun
  | forgetting uid => exact quiet_goto rfl rfl rfl rfl hstage nofun rfl nofun
  | finished => exact .refl w _

theorem drop_move (i : Nat) : Move fs w e (w.drop i) := by
  have hstage : ∀ t, w.tasks[i]? = some t → w.stage i = t.stage := by
    intro t ht
    simp [World.stage, ht]
  unfold World.drop
  split
  · next ht => exact quiet_goto rfl rfl rfl rfl (hstage _ ht) nofun rfl nofun
  · next ht => exact quiet_goto rfl rfl rfl rfl (hstage _ ht) nofun rfl nofun
  · next ht => exact quiet_goto rfl rfl rfl rfl (hstage _ ht) nofun rfl nofun
  · exact .refl w e

theorem step_move (hseated : w.login.Seated) (hfresh : FreshId w e) :
    Move fs w e (w.step fs e) := by
  cases e with
  | call c =>
    refine .quiet rfl rfl rfl (read_append (f := Stage.aclLeft) ?_) fun j uid h => Or.inl ?_
    · cases c <;> rfl
    · rwa [World.step, clearing, read_append (f := Stage.clearing)] at h
      cases c <;> rfl
  | run i a => exact run_move hseated hfresh
  | drop i => exact drop_move i

end Moves

-- ==== the runs

/-- The daemon at its start, the devices being root's. -/
def Initial (fs : Devfs) (w : World) : Prop :=
  ∃ nodes, fs.HeldBy nodes 0 ∧ w = start nodes

/-- The states reached by events that all meet a condition. -/
abbrev Reaches (fs : Devfs) (ok : World → Event → Prop) : World → Prop :=
  Lib.Reaches (Initial fs) (World.step fs) fun w e => FreshId w e ∧ ok w e

-- ---- the devices

/-- An ownership step is made by the task whose critical section was the
last to leave such steps, or while that task has some left. -/
def Orderly (w : World) : Event → Prop
  | .run i _ => (w.stage i).givesNext →
      ∃ j ∈ w.latest, j = i ∨ w.aclLeft j ≠ []
  | _ => True

instance (w : World) : (e : Event) → Decidable (Orderly w e)
  | .run i _ =>
    inferInstanceAs (Decidable ((w.stage i).givesNext → ∃ j ∈ w.latest, j = i ∨ w.aclLeft j ≠ []))
  | .call _ => .isTrue True.intro
  | .drop _ => .isTrue True.intro

/-- What is owed to the user in the foreground. -/
structure Owed (fs : Devfs) (w : World) : Prop where
  seated : w.login.Seated
  held : ∃ uid, fs.HeldBy w.nodes uid
  settled : (∀ i, w.latest = some i → w.aclLeft i = []) →
    fs.HeldBy w.nodes w.login.foregroundUid
  promised : ∀ i, w.latest = some i → w.aclLeft i ≠ [] →
    lastUid 0 (w.aclLeft i) = w.login.foregroundUid

section Devices

variable {fs : Devfs} (hchown : fs.ChownSucceeds) {w w' : World} {e : Event}

include hchown in
theorem Owed.move (h : Owed fs w) (hmove : Move fs w e w') (hok : Orderly w e) : Owed fs w' := by
  cases hmove with
  | quiet hlogin hnodes hlatest hleft hclear =>
    refine ⟨hlogin ▸ h.seated, hnodes ▸ h.held, fun hidle => ?_, fun i hi hne => ?_⟩
    · rw [hlogin, hnodes]
      exact h.settled fun i hi => hleft i ▸ hidle i (hlatest.trans hi)
    · rw [hlogin, hleft]
      exact h.promised i (hlatest.symm.trans hi) (hleft i ▸ hne)
  | locked i a he hbefore hhands husers hnodes hlatest hleft hclear =>
    refine ⟨hhands.seated, hnodes ▸ h.held, fun hidle => ?_, fun j hj hne => ?_⟩
    · by_cases hsteps : w'.aclLeft i = []
      · -- the section changed nothing for the devices
        rw [if_pos hsteps] at hlatest
        rw [hsteps] at hhands
        rw [hnodes, ← hhands.owner]
        refine h.settled fun j hj => ?_
        by_cases hji : j = i
        · rw [hji, hbefore]
        · rw [← hleft j hji]
          exact hidle j (hlatest.trans hj)
      · rw [if_neg hsteps] at hlatest
        exact absurd (hidle i hlatest) hsteps
    · by_cases hsteps : w'.aclLeft i = []
      · rw [if_pos hsteps] at hlatest
        have hji : j ≠ i := fun e => hne (e ▸ hsteps)
        rw [hsteps] at hhands
        rw [hleft j hji, ← hhands.owner]
        exact h.promised j (hlatest.symm.trans hj) (hleft j hji ▸ hne)
      · rw [if_neg hsteps] at hlatest
        obtain rfl := Option.some.inj (hlatest.symm.trans hj)
        rw [lastUid_of_ne_nil hne 0 w.login.foregroundUid, hhands.owner]
  | gave i a step todo he hstage hafter hlogin hnodes hlatest hleft hclear =>
    obtain ⟨uid, hheld⟩ := h.held
    have hleft_i : w.aclLeft i = step :: aclSteps todo :=
      congrArg Stage.aclLeft hstage
    refine ⟨hlogin ▸ h.seated, ⟨_, hnodes ▸ hheld.step hchown step⟩,
      fun hidle => ?_, fun j hj hne => ?_⟩
    · subst he
      obtain ⟨j, hj, hturn⟩ := hok (by rw [hstage]; rfl)
      have hdone := hidle j (hlatest.trans hj)
      have hji : j = i := by
        by_contra hji
        exact hturn.resolve_left hji (hleft j hji ▸ hdone)
      subst hji
      rw [hafter] at hdone
      have hlast := h.promised j hj (hleft_i ▸ List.cons_ne_nil _ _)
      rw [hleft_i, hdone] at hlast
      rw [hlogin, hnodes, ← hlast]
      exact hheld.step hchown step
    · by_cases hji : j = i
      · subst hji
        rw [hafter] at hne ⊢
        have hlast := h.promised j (hlatest.symm.trans hj)
          (hleft_i ▸ List.cons_ne_nil _ _)
        rw [hleft_i] at hlast
        rw [hlogin, ← hlast]
        exact lastUid_of_ne_nil hne 0 step.uid
      · rw [hlogin, hleft j hji]
        exact h.promised j (hlatest.symm.trans hj) (hleft j hji ▸ hne)

/-- Every call has returned; cleanups may still wait. -/
def Returned (w : World) : Prop :=
  ∀ t ∈ w.tasks, t.stage.returned = true

include hchown in
/-- However calls interleave: if the ownership steps come in an order that
leaves the last word to the last critical section, then once every call
has returned, the user in the foreground holds the devices, or root if
there is none. -/
theorem devices_settle (h : Reaches fs Orderly w) (hdone : w.Returned) :
    fs.HeldBy w.nodes w.login.foregroundUid := by
  have howed : Owed fs w := by
    refine h.invariant (I := Owed fs) ?_ ?_
    · rintro w ⟨nodes, hroot, rfl⟩
      exact ⟨seated_init, ⟨0, hroot⟩, fun _ => hroot, fun _ hi => nomatch hi⟩
    · rintro w e howed ⟨hfresh, hok⟩
      exact howed.move hchown (step_move howed.seated hfresh) hok
  refine howed.settled fun i _ => ?_
  unfold aclLeft World.stage
  cases ht : w.tasks[i]? with
  | none => rfl
  | some t => exact aclLeft_of_returned (hdone t (List.mem_of_getElem? ht))

end Devices

-- ---- two activations

/-- A task goes on; a login would draw the id. -/
def go (i : Nat) (id : SessionId := "") : Event :=
  .run i { create := answersFor id, dirExists := true }

theorem start_reaches (ok : World → Event → Prop) : Reaches oneCard ok (start rootNodes) :=
  .init ⟨rootNodes, rootNodes_heldBy, rfl⟩

/-- Two users log in, one after the other. -/
def twoLogins : List Event :=
  [.call (.createSession (consoleCall 1000 50)), go 0 "1", go 0, go 0, go 0, go 0,
    .call (.createSession (consoleCall 1001 60)), go 1 "2", go 1, go 1, go 1]

/-- Both sessions are activated at the same time: the second one first,
the first one after it. -/
def twoActivations : List Event :=
  twoLogins ++ [.call (.activateSession "2"), .call (.activateSession "1"), go 2, go 3]

/-- The ownership steps of the second critical section come first. -/
def overtaken : World :=
  (twoActivations ++ [go 3, go 3, go 3, go 2, go 2, go 2]).foldl (step oneCard)
    (start rootNodes)

/-- All calls have returned, the session of user 1000 is in the
foreground, and user 1001 has the card. -/
theorem overtaken_unsettled : Reaches oneCard (fun _ _ => True) overtaken ∧ overtaken.Returned
    ∧ overtaken.login.activeOf "seat0" = some "1"
    ∧ overtaken.login.uidOf "1" = some 1000
    ∧ ownerOf overtaken.nodes "/dev/dri/card0" = some 1001 := by
  refine ⟨(start_reaches _).run _ (by decide), ?_, by decide, by decide, by decide⟩
  unfold Returned
  decide

/-- In the order of the critical sections, the steps of the two calls
still mixed. -/
theorem in_order_settled : oneCard.HeldBy
    ((twoActivations ++ [go 2, go 3, go 2, go 2, go 3, go 3]).foldl (step oneCard)
      (start rootNodes)).nodes 1000 := by
  refine devices_settle oneCard_chownSucceeds
    ((start_reaches Orderly).run _ (by decide)) ?_
  unfold Returned
  decide

-- ---- the runtime directories

/-- No login has its critical section while a cleanup of the same user is
between its look at the users and the end of the release. -/
def NotRevived (w : World) : Event → Prop
  | .run i _ => ∀ call ∈ (w.stage i).creating,
      ∀ t ∈ w.tasks, t.stage.clearing ≠ some call.uid
  | _ => True

instance (w : World) : (e : Event) → Decidable (NotRevived w e)
  | .run i _ =>
    inferInstanceAs (Decidable (∀ call ∈ (w.stage i).creating,
      ∀ t ∈ w.tasks, t.stage.clearing ≠ some call.uid))
  | .call _ => .isTrue True.intro
  | .drop _ => .isTrue True.intro

/-- The users whose directories are taken away are gone. -/
structure Gone (w : World) : Prop where
  seated : w.login.Seated
  users : ∀ i uid, w.clearing i = some uid → uid ∉ w.login.users

theorem Gone.move {fs : Devfs} {w w' : World} {e : Event} (h : Gone w)
    (hmove : Move fs w e w') (hok : NotRevived w e) : Gone w' := by
  cases hmove with
  | quiet hlogin hnodes hlatest hleft hclear =>
    refine ⟨hlogin ▸ h.seated, fun i uid hi => ?_⟩
    rw [hlogin]
    exact (hclear i uid hi).elim (h.users i uid) id
  | locked i a he hbefore hhands husers hnodes hlatest hleft hclear =>
    refine ⟨hhands.seated, fun j uid hj hin => ?_⟩
    have hj := hclear j uid hj
    rcases husers uid hin with hold | ⟨call, hstage, rfl⟩
    · exact h.users j uid hj hold
    · subst he
      obtain ⟨t, ht, hclearing⟩ := clearing_mem hj
      exact hok call (by rw [hstage]; rfl) t ht hclearing
  | gave i a step todo he hstage hafter hlogin hnodes hlatest hleft hclear =>
    refine ⟨hlogin ▸ h.seated, fun j uid hj => ?_⟩
    rw [hlogin]
    exact h.users j uid (hclear j uid hj)

/-- The event is a part of `runtime_dir::release` for the user. -/
def Releases (w : World) (e : Event) (uid : Nat) : Prop :=
  ∃ i a, e = .run i a ∧ w.clearing i = some uid

/-- However cleanups and logins interleave: if no login of a user gets
between the check and the release of a cleanup, the runtime directory of
a user is not released while they have a session. -/
theorem released_when_gone {fs : Devfs} {w : World} (h : Reaches fs NotRevived w)
    {e : Event} {uid : Nat} (hrelease : Releases w e uid) {id : SessionId}
    {s : Session} (hs : w.login.sessions.lookup id = some s) : s.uid ≠ uid := by
  have hgone : Gone w := by
    refine h.invariant (I := Gone) ?_ ?_
    · rintro w ⟨nodes, -, rfl⟩
      exact ⟨seated_init, fun i uid hi => nomatch hi⟩
    · rintro w e hgone ⟨hfresh, hok⟩
      have hmove : Move fs w e (w.step fs e) := step_move hgone.seated hfresh
      exact hgone.move hmove hok
  obtain ⟨i, a, -, hi⟩ := hrelease
  rintro rfl
  exact hgone.users i s.uid hi ((hgone.seated.mem_users_iff _).2 ⟨id, uidOf_eq hs⟩)

-- ---- a login during the cleanup

/-- A user logs in and out, and the cleanup finds them gone. -/
def goneAgain : List Event :=
  [.call (.createSession (consoleCall 1000 50)), go 0 "1", go 0, go 0, go 0, go 0,
    .call (.releaseSession "1"), go 1, go 1, go 1, go 1, go 2, go 2]

/-- The user logs in again, and gets their runtime directory. -/
def backAgain : World :=
  (goneAgain ++ [.call (.createSession (consoleCall 1000 51)), go 3 "2", go 3]).foldl
    (step oneCard) (start rootNodes)

/-- The next piece of the cleanup is the umount of the directory that was
made for the live session. -/
theorem released_under_session : Reaches oneCard (fun _ _ => True) backAgain
    ∧ Releases backAgain (go 2) 1000
    ∧ backAgain.login.uidOf "2" = some 1000
    ∧ backAgain.log.getLast? = some (.ensure 1000 1000 "10%")
    ∧ (backAgain.step oneCard (go 2)).log.getLast? = some (.unmount 1000) := by
  refine ⟨(start_reaches _).run _ (by decide), ⟨2, _, rfl, by decide⟩,
    by decide, by decide, by decide⟩

/-- Somebody else logs in instead. -/
def otherUser : World :=
  (goneAgain ++ [.call (.createSession (consoleCall 1001 60)), go 3 "2"]).foldl
    (step oneCard) (start rootNodes)

theorem released_beside_session :
    Releases otherUser (go 2) 1000 ∧ otherUser.login.uidOf "2" = some 1001
      ∧ ∀ id s, otherUser.login.sessions.lookup id = some s → s.uid ≠ 1000 := by
  have hrun : Reaches oneCard NotRevived otherUser :=
    (start_reaches NotRevived).run _ (by decide)
  have hrelease : Releases otherUser (go 2) 1000 := ⟨2, _, rfl, by decide⟩
  exact ⟨hrelease, by decide, fun id s hs => released_when_gone hrun hrelease hs⟩

end World

end Dynamod.Logind
