/-
The devices follow the foreground, one method at a time.

Twelve methods in four interfaces change who is in the foreground. The
seven of `manager.rs` pair the change with ownership steps, and the
pairing is right (`HandsOver`, from the critical sections). The five
of the session, seat and user objects change the login state and leave
the devices alone, so they are right exactly as far as the user in the
foreground stays the same: `OwnerKept` says so in terms of the state
before the call. For a row of removals that needs its closed form: the
foreground goes to the first session of the seat that stays
(`Seat.heir`).
-/
import Dynamod.Lib.Runs
import Dynamod.Logind.Proofs.Foreground

namespace Dynamod.Logind

open Lib LoginState

variable {id : SessionId}

-- ==== the methods

/-- A call of a method, with what it reads from outside. -/
inductive Operation
  | createSession (call : CreateCall) (answers : CreateAnswers)
  | releaseSession (sessionId : SessionId)
  | activateSession (sessionId : SessionId)
  | activateSessionOnSeat (sessionId seatId : String)
  | terminateSession (sessionId : SessionId)
  | terminateUser (uid : Nat)
  | terminateSeat (seatId : SeatId)
  | sessionActivate (sessionId : SessionId)
  | sessionTerminate (sessionId : SessionId)
  | seatActivateSession (seatId : SeatId) (sessionId : SessionId)
  | seatTerminate (seatId : SeatId)
  | userTerminate (uid : Nat)

/-- The login state after a method, and the calls it made. -/
def Outcome.change {A : Type} (o : Outcome A) : LoginState × List Effect :=
  (o.login, o.did)

/-- A method after which the devices are with the foreground. -/
def Outcome.Settled {A : Type} (o : Outcome A) (st : LoginState) : Prop :=
  HandsOver st o.login (aclSteps o.did)

namespace Operation

/-- The method, run to completion. -/
def run (st : LoginState) : Operation → LoginState × List Effect
  | .createSession call a => (Logind.createSession st call a).change
  | .releaseSession id => (Logind.releaseSession st id).change
  | .activateSession id => (Logind.activateSession st id).change
  | .activateSessionOnSeat id sid => (Logind.activateSessionOnSeat st id sid).change
  | .terminateSession id => (Logind.terminateSession st id).change
  | .terminateUser uid => (Logind.terminateUser st uid).change
  | .terminateSeat sid => (Logind.terminateSeat st sid).change
  | .sessionActivate id => (SessionInterface.activate st id).change
  | .sessionTerminate id => (SessionInterface.terminate st id).change
  | .seatActivateSession sid id => (SeatInterface.activateSession st sid id).change
  | .seatTerminate sid => (SeatInterface.terminate st sid).change
  | .userTerminate uid => (UserInterface.terminate st uid).change

/-- Session ids are drawn once. -/
def Fresh (st : LoginState) : Operation → Prop
  | .createSession _ a => a.id ∉ st.sessions
  | _ => True

end Operation

/-- The login state and the device nodes. -/
structure Daemon where
  login : LoginState
  nodes : Nodes

/-- A method with all the calls it makes. -/
def Daemon.perform (fs : Devfs) (d : Daemon) (op : Operation) : Daemon where
  login := (op.run d.login).1
  nodes := (aclSteps (op.run d.login).2).foldl (AclStep.run fs) d.nodes

/-- The daemon at its start, the devices being root's. -/
def Daemon.Initial (fs : Devfs) (d : Daemon) : Prop :=
  d.login = new.createSeat0 ∧ fs.HeldBy d.nodes 0

/-- The states reached by methods that run one after the other, each
meeting a condition on the login state it finds. -/
abbrev Daemon.Reaches (fs : Devfs) (ok : LoginState → Operation → Prop) : Daemon → Prop :=
  Lib.Reaches (Daemon.Initial fs) (Daemon.perform fs)
    fun d op => op.Fresh d.login ∧ ok d.login op

-- ==== rows of removals

section Heir

/-- Who is in the foreground of the seat once some sessions are gone. -/
def Seat.heir (seat : Seat) (ids : List SessionId) : Option SessionId :=
  match seat.activeSession with
  | none => none
  | some a =>
    if a ∈ ids then (seat.sessions.filter fun s => s ∉ ids).head? else some a

theorem Seat.heir_nil (seat : Seat) : seat.heir [] = seat.activeSession := by
  unfold heir
  cases seat.activeSession with
  | none => rfl
  | some a => exact if_neg List.not_mem_nil

/-- Who inherits the foreground is not removed. -/
theorem Seat.heir_notMem {seat : Seat} {ids : List SessionId} {a : SessionId}
    (h : seat.heir ids = some a) : a ∉ ids := by
  unfold heir at h
  split at h
  · cases h
  · split at h
    · have hmem := List.mem_filter.1 (List.mem_of_mem_head? h)
      exact of_decide_eq_true hmem.2
    · next hb =>
      injection h with h
      exact h ▸ hb

/-- Removing the first session of a row leaves the rest of the row. -/
theorem Seat.heir_leave (seat : Seat) (id : SessionId) (ids : List SessionId) :
    (seat.leave id).heir ids = seat.heir (id :: ids) := by
  have hrest : (seat.sessions.filter fun s => s ∉ id :: ids)
      = (seat.sessions.filter fun s => s ≠ id).filter fun s => s ∉ ids := by
    rw [List.filter_filter]
    refine List.filter_congr fun s _ => ?_
    simp [Bool.and_comm]
  unfold heir
  rw [hrest]
  unfold Seat.leave
  cases ha : seat.activeSession with
  | none => rfl
  | some a =>
    dsimp only
    by_cases hid : a = id
    · subst hid
      rw [if_pos rfl, if_pos List.mem_cons_self]
      -- the next one in the list, unless it goes as well
      cases seat.sessions.filter fun s => s ≠ a with
      | nil => rfl
      | cons b rest =>
        dsimp only [List.head?_cons]
        split
        · rfl
        · next hb => rw [List.filter_cons, if_pos (decide_eq_true hb)]; rfl
    · rw [if_neg fun e => hid (Option.some.inj e)]
      simp only [List.mem_cons, hid, false_or]

/-- The user who gets the foreground once some sessions are gone. -/
def LoginState.heirUid (st : LoginState) (ids : List SessionId) : Nat :=
  (((st.seats.lookup "seat0").bind fun seat => seat.heir ids).bind st.uidOf).getD 0

variable {st : LoginState}

theorem seated_removeAll (h : st.Seated) (ids : List SessionId) :
    (ids.foldl LoginState.removeSession st).Seated := by
  induction ids generalizing st with
  | nil => exact h
  | cons id ids ih => exact ih (h.remove id)

/-- The sessions that stay keep their users. -/
theorem uidOf_removeAll (ids : List SessionId) (k : SessionId) :
    (ids.foldl LoginState.removeSession st).uidOf k
      = if k ∈ ids then none else st.uidOf k := by
  induction ids generalizing st with
  | nil => rw [List.foldl_nil, if_neg List.not_mem_nil]
  | cons id ids ih =>
    rw [List.foldl_cons, ih, uidOf_remove]
    by_cases hk : k = id
    · rw [if_pos hk, if_pos (List.mem_cons.2 (Or.inl hk))]
      exact ite_self _
    · rw [if_neg hk]
      simp only [List.mem_cons, hk, false_or]

/-- Behind a row of removals the heir is in the foreground. -/
theorem activeOf_removeAll (h : st.Seated) {seat : Seat}
    (hseat : st.seats.lookup "seat0" = some seat) (ids : List SessionId) :
    (ids.foldl LoginState.removeSession st).activeOf "seat0" = seat.heir ids := by
  induction ids generalizing st seat with
  | nil => exact (activeOf_eq hseat).trans seat.heir_nil.symm
  | cons id ids ih =>
    rw [List.foldl_cons, ih (h.remove id) (h.lookup_remove hseat id), Seat.heir_leave]

/-- The foreground then belongs to the heir's user. -/
theorem foregroundUid_removeAll (h : st.Seated) (ids : List SessionId) :
    (ids.foldl LoginState.removeSession st).foregroundUid = st.heirUid ids := by
  obtain ⟨seat, hseat, -⟩ := h.seat
  unfold foregroundUid heirUid
  rw [activeOf_removeAll h hseat, hseat, Option.bind_some]
  cases hheir : seat.heir ids with
  | none => rfl
  | some a =>
    rw [Option.bind_some, Option.bind_some, uidOf_removeAll,
      if_neg (Seat.heir_notMem hheir)]

end Heir

-- ==== the methods of `manager.rs`

section Methods

variable {st : LoginState}

theorem aclSteps_terminateLeader (id : SessionId) : aclSteps (terminateLeader st id) = [] := by
  unfold terminateLeader
  cases st.sessions.lookup id with
  | none => rfl
  | some s => rfl

theorem aclSteps_flatMap_terminateLeader (ids : List SessionId) :
    aclSteps (ids.flatMap (terminateLeader st)) = [] := by
  induction ids with
  | nil => rfl
  | cons id ids ih =>
    rw [List.flatMap_cons, aclSteps_append, aclSteps_terminateLeader, ih]
    rfl

/-- A removal hands the devices to the next user. -/
theorem finalizeSessionRemoval_handsOver (h : st.Seated) (id : SessionId) :
    HandsOver st (finalizeSessionRemoval st id).1 (aclSteps (finalizeSessionRemoval st id).2) := by
  unfold finalizeSessionRemoval
  cases hf : finalizeLocked st id with
  | none => exact .refl h
  | some f =>
    show HandsOver st f.login (aclSteps (f.after.map .acl))
    rw [aclSteps_map_acl]
    exact finalizeLocked_handsOver h hf

/-- What hands over one session at a time hands over a row of them. -/
theorem forEach_handsOver {f : LoginState → SessionId → LoginState × List Effect}
    (hf : ∀ st id, st.Seated → HandsOver st (f st id).1 (aclSteps (f st id).2))
    (h : st.Seated) (ids : List SessionId) :
    HandsOver st (forEach f st ids).1 (aclSteps (forEach f st ids).2) := by
  induction ids generalizing st with
  | nil => exact .refl h
  | cons id ids ih =>
    have hone := hf st id h
    show HandsOver st (forEach f (f st id).1 ids).1
      (aclSteps ((f st id).2 ++ (forEach f (f st id).1 ids).2))
    rw [aclSteps_append]
    exact hone.trans (ih hone.seated)

theorem refuse_settled {A : Type} (h : st.Seated) (message : String) :
    (refuse st message : Outcome A).Settled st :=
  HandsOver.refl h

theorem createSession_settled (h : st.Seated) {call : CreateCall} {a : CreateAnswers}
    (hfresh : a.id ∉ st.sessions) : (createSession st call a).Settled st := by
  unfold createSession
  cases hcreated : createLocked st call a with
  | error e => exact HandsOver.refl h
  | ok created => exact createLocked_handsOver h hfresh hcreated

theorem activateWithHandover_settled (h : st.Seated) (id : SessionId) :
    (activateWithHandover st id).Settled st := by
  show HandsOver st _ (aclSteps (List.map .acl _))
  rw [aclSteps_map_acl]
  exact activate_handsOver h id

theorem activateSession_settled (h : st.Seated) (id : SessionId) :
    (activateSession st id).Settled st := by
  unfold activateSession
  split
  · exact activateWithHandover_settled h id
  · exact refuse_settled h _

/-- The login state is activated in, or refused for, as it is. -/
theorem activateSession_login (id : SessionId) :
    (activateSession st id).login = st.activateSession id := by
  unfold activateSession activateWithHandover activateWithAclHandover
  cases hs : st.sessions.lookup id with
  | none =>
    have hout : id ∉ st.sessions := Finmap.lookup_eq_none.1 hs
    rw [if_neg hout, LoginState.activateSession, hs]
    rfl
  | some s =>
    have hin : id ∈ st.sessions := Finmap.mem_of_lookup_eq_some hs
    rw [if_pos hin]

theorem activateSessionOnSeat_settled (h : st.Seated) (id sid : String) :
    (activateSessionOnSeat st id sid).Settled st := by
  unfold activateSessionOnSeat
  split
  · exact refuse_settled h _
  · split
    · exact refuse_settled h _
    · exact activateWithHandover_settled h id

theorem releaseSession_settled (h : st.Seated) (id : SessionId) :
    (releaseSession st id).Settled st := by
  unfold releaseSession
  split
  · exact finalizeSessionRemoval_handsOver h id
  · exact refuse_settled h _

/-- The signal to the leader does not matter here. -/
theorem terminateLeader_handsOver {st' : LoginState}
    {did : List Effect} (h : HandsOver st st' (aclSteps did)) :
    HandsOver st st' (aclSteps (terminateLeader st id ++ did)) := by
  rw [aclSteps_append, aclSteps_terminateLeader]
  exact h

theorem terminateSession_settled (h : st.Seated) (id : SessionId) :
    (terminateSession st id).Settled st := by
  unfold terminateSession
  split
  · exact terminateLeader_handsOver (finalizeSessionRemoval_handsOver h id)
  · exact refuse_settled h _

theorem terminateUser_settled (h : st.Seated) (uid : Nat) :
    (terminateUser st uid).Settled st := by
  show HandsOver st _
    (aclSteps ((sessionsOfUser st uid).flatMap (terminateLeader st) ++ _))
  rw [aclSteps_append, aclSteps_flatMap_terminateLeader]
  exact forEach_handsOver (fun st id h => finalizeSessionRemoval_handsOver h id) h _

theorem terminateSeat_settled (h : st.Seated) (sid : SeatId) :
    (terminateSeat st sid).Settled st := by
  unfold terminateSeat
  split
  · exact refuse_settled h _
  · exact forEach_handsOver (fun st id h =>
      terminateLeader_handsOver (finalizeSessionRemoval_handsOver h id)) h _

-- ==== the methods that leave the devices alone

/-- Only sessions of the user in the foreground, or without a seat, are
activated. -/
def ActivationKept (st : LoginState) (id : SessionId) : Prop :=
  ∀ s, st.sessions.lookup id = some s → s.seat ≠ none → s.uid = st.foregroundUid

/-- An activation alone is enough if the owner stays. -/
theorem bare_activate_handsOver (h : st.Seated)
    (hkept : ActivationKept st id) : HandsOver st (st.activateSession id) [] := by
  refine ⟨h.activate id, ?_⟩
  show st.foregroundUid = _
  rcases st.activateSession_cases id with ⟨hidle, -⟩ | ⟨s, sid, hs, hsid, -⟩
  · rw [hidle]
  · have hne : s.seat ≠ none := by
      rw [hsid]
      exact Option.some_ne_none sid
    rw [foregroundUid_eq (h.activeOf_activate hs hsid) (uidOf_activate.trans (uidOf_eq hs))]
    exact (hkept s hs hne).symm

/-- So are removals alone. -/
theorem bare_removeAll_handsOver (h : st.Seated) {ids : List SessionId}
    (hkept : st.heirUid ids = st.foregroundUid) :
    HandsOver st (ids.foldl LoginState.removeSession st) [] :=
  ⟨seated_removeAll h ids, (hkept.symm.trans (foregroundUid_removeAll h ids).symm)⟩

/-- A row of removals with nothing but signals beside them. -/
theorem forEach_remove (st : LoginState) {e : LoginState → SessionId → List Effect}
    (he : ∀ st id, aclSteps (e st id) = []) (ids : List SessionId) :
    (forEach (fun st id => (st.removeSession id, e st id)) st ids).1
        = ids.foldl LoginState.removeSession st
      ∧ aclSteps (forEach (fun st id => (st.removeSession id, e st id)) st ids).2
        = [] := by
  induction ids generalizing st with
  | nil => exact ⟨rfl, rfl⟩
  | cons id ids ih =>
    obtain ⟨hlogin, hsteps⟩ := ih (st.removeSession id)
    refine ⟨hlogin, ?_⟩
    show aclSteps (e st id ++ _) = []
    rw [aclSteps_append, he, hsteps]
    rfl

theorem sessionTerminate_settled (h : st.Seated) (hkept : st.heirUid [id] = st.foregroundUid) :
    (SessionInterface.terminate st id).Settled st := by
  unfold SessionInterface.terminate
  split
  · show HandsOver st (st.removeSession id) (aclSteps (terminateLeader st id))
    rw [aclSteps_terminateLeader]
    exact bare_removeAll_handsOver h hkept
  · exact refuse_settled h _

theorem seatActivateSession_settled (h : st.Seated) {sid : SeatId}
    (hkept : ∀ seat, st.seats.lookup sid = some seat → id ∈ seat.sessions →
      ActivationKept st id) : (SeatInterface.activateSession st sid id).Settled st := by
  unfold SeatInterface.activateSession
  split
  · exact refuse_settled h _
  · next seat hseat =>
    split
    · next hid => exact bare_activate_handsOver h (hkept seat hseat hid)
    · exact refuse_settled h _

theorem seatTerminate_settled (h : st.Seated) {sid : SeatId}
    (hkept : ∀ seat, st.seats.lookup sid = some seat →
      st.heirUid seat.sessions = st.foregroundUid) :
    (SeatInterface.terminate st sid).Settled st := by
  unfold SeatInterface.terminate
  split
  · exact refuse_settled h _
  · next seat hseat =>
    obtain ⟨hlogin, hsteps⟩ := forEach_remove st
      (fun st id => aclSteps_terminateLeader id) seat.sessions
    show HandsOver st (forEach _ st seat.sessions).1
      (aclSteps (forEach _ st seat.sessions).2)
    rw [hlogin, hsteps]
    exact bare_removeAll_handsOver h (hkept seat hseat)

theorem userTerminate_settled (h : st.Seated) {uid : Nat}
    (hkept : st.heirUid (sessionsOfUser st uid) = st.foregroundUid) :
    (UserInterface.terminate st uid).Settled st := by
  obtain ⟨hlogin, -⟩ := forEach_remove st (e := fun _ _ => [])
    (fun _ _ => rfl) (sessionsOfUser st uid)
  show HandsOver st (forEach _ st (sessionsOfUser st uid)).1
    (aclSteps ((sessionsOfUser st uid).flatMap (terminateLeader st)))
  rw [hlogin, aclSteps_flatMap_terminateLeader]
  exact bare_removeAll_handsOver h hkept

/-- A method of the session, seat and user objects is called only when
the user in the foreground stays the same. -/
def OwnerKept (st : LoginState) : Operation → Prop
  | .sessionActivate id => ActivationKept st id
  | .seatActivateSession sid id =>
    ∀ seat, st.seats.lookup sid = some seat → id ∈ seat.sessions →
      ActivationKept st id
  | .sessionTerminate id => st.heirUid [id] = st.foregroundUid
  | .seatTerminate sid =>
    ∀ seat, st.seats.lookup sid = some seat →
      st.heirUid seat.sessions = st.foregroundUid
  | .userTerminate uid => st.heirUid (sessionsOfUser st uid) = st.foregroundUid
  | _ => True

-- ==== the run

/-- Every method hands the devices over, or the owner stays. -/
theorem Operation.run_handsOver (h : st.Seated) {op : Operation}
    (hfresh : op.Fresh st) (hkept : OwnerKept st op) :
    HandsOver st (op.run st).1 (aclSteps (op.run st).2) := by
  cases op with
  | createSession call a => exact createSession_settled h hfresh
  | releaseSession id => exact releaseSession_settled h id
  | activateSession id => exact activateSession_settled h id
  | activateSessionOnSeat id sid => exact activateSessionOnSeat_settled h id sid
  | terminateSession id => exact terminateSession_settled h id
  | terminateUser uid => exact terminateUser_settled h uid
  | terminateSeat sid => exact terminateSeat_settled h sid
  | sessionActivate id => exact bare_activate_handsOver h hkept
  | sessionTerminate id => exact sessionTerminate_settled h hkept
  | seatActivateSession sid id => exact seatActivateSession_settled h hkept
  | seatTerminate sid => exact seatTerminate_settled h hkept
  | userTerminate uid => exact userTerminate_settled h hkept

end Methods

/-- After every method of a run in which the methods without ownership
steps keep the user in the foreground, that user holds the devices, or
root if there is none. -/
theorem devices_follow_foreground {fs : Devfs} (hchown : fs.ChownSucceeds)
    {d : Daemon} (h : Daemon.Reaches fs OwnerKept d) :
    fs.HeldBy d.nodes d.login.foregroundUid := by
  have hinv : d.login.Seated ∧ fs.HeldBy d.nodes d.login.foregroundUid := by
    refine h.invariant (I := fun d => d.login.Seated
      ∧ fs.HeldBy d.nodes d.login.foregroundUid) ?_ ?_
    · rintro ⟨login, nodes⟩ ⟨rfl, hroot⟩
      exact ⟨seated_init, hroot⟩
    · rintro d op ⟨hseated, hheld⟩ ⟨hfresh, hkept⟩
      have hstep := Operation.run_handsOver hseated hfresh hkept
      exact ⟨hstep.seated, hstep.owner ▸ hheld.steps hchown _⟩
  exact hinv.2

-- ==== two users

/-- A login on the console, as an operation. -/
def login (id : SessionId) (uid pid : Nat) : Operation :=
  .createSession (consoleCall uid pid) (answersFor id)

/-- Two users have logged in on the seat, the first in the
foreground. -/
def twoUsers : Daemon :=
  (Daemon.perform oneCard { login := new.createSeat0, nodes := rootNodes }
    (login "1" 1000 50)).perform oneCard (login "2" 1001 60)

theorem twoUsers_reaches (ok : LoginState → Operation → Prop)
    (hok : ∀ st id uid pid, ok st (login id uid pid)) : Daemon.Reaches oneCard ok twoUsers := by
  have hstart : Daemon.Reaches oneCard ok
      { login := new.createSeat0, nodes := rootNodes } := .init ⟨rfl, rootNodes_heldBy⟩
  refine hstart.run [login "1" 1000 50, login "2" 1001 60]
    ⟨⟨?_, hok _ _ _ _⟩, ⟨?_, hok _ _ _ _⟩, True.intro⟩
  · unfold login Operation.Fresh
    decide
  · unfold login Operation.Fresh
    decide

/-- The second session is activated through its own object: it is in the
foreground, and the card stays with the first user. -/
theorem activated_without_devices : Daemon.Reaches oneCard (fun _ _ => True)
      (twoUsers.perform oneCard (.sessionActivate "2"))
    ∧ (twoUsers.perform oneCard (.sessionActivate "2")).login.activeOf "seat0"
      = some "2"
    ∧ (twoUsers.perform oneCard (.sessionActivate "2")).login.uidOf "2" = some 1001
    ∧ oneCard.enumerateSessionDevices "seat0" = [("/dev/dri/card0", 0o660)]
    ∧ ownerOf (twoUsers.perform oneCard (.sessionActivate "2")).nodes
        "/dev/dri/card0" = some 1000 := by
  have hrun := twoUsers_reaches (fun _ _ => True) fun _ _ _ _ => True.intro
  exact ⟨hrun.step (Operation.sessionActivate "2") ⟨True.intro, True.intro⟩,
    by decide, by decide, by decide, by decide⟩

/-- Activated by the manager, and then once more through its own
object. -/
theorem activated_with_devices : oneCard.HeldBy
    (((twoUsers.perform oneCard (.activateSession "2")).perform oneCard
      (.sessionActivate "2")).nodes) 1001 := by
  have hrun := (twoUsers_reaches OwnerKept fun _ _ _ _ => True.intro).step
    (Operation.activateSession "2") ⟨True.intro, True.intro⟩
  have hkept : OwnerKept (twoUsers.perform oneCard (.activateSession "2")).login
      (.sessionActivate "2") := by
    intro s hs _
    have huid : (twoUsers.perform oneCard (.activateSession "2")).login.uidOf "2"
        = some 1001 := by
      decide
    have hs' := (uidOf_eq hs).symm.trans huid
    exact (Option.some.inj hs').trans (by decide)
  exact devices_follow_foreground oneCard_chownSucceeds
    (hrun.step (Operation.sessionActivate "2") ⟨True.intro, hkept⟩)

end Dynamod.Logind
