/-
A remote login and the seat.

The PAM module sends an empty seat for a login from another machine.
The manager takes an empty seat for one that was left out, and puts
`seat0` in its place wherever there is one. So the login stays off the
seat exactly in a state that has no `seat0`, which is none the daemon
serves calls in.
-/
import Dynamod.Logind.Proofs.Foreground
import Dynamod.Pam.OpenSession

namespace Dynamod.Pam

open Lib Logind

/-- The login leaves the seats and the devices alone. -/
structure Seatless (st : LoginState) (call : CreateCall) (a : CreateAnswers) :
    Prop where
  /-- The new session has no seat. -/
  session : ∃ s, (createSession st call a).login.sessions.lookup a.id = some s
    ∧ s.seat = none
  /-- No seat has another list of sessions, or another foreground. -/
  seats : ∀ sid, (createSession st call a).login.seats.lookup sid
    = st.seats.lookup sid
  /-- No devices are given to the user. -/
  devices : ∀ sid, Effect.acl (.apply sid call.uid) ∉ (createSession st call a).did

theorem openCall_remote {items : Items} {args : ModuleArgs}
    {passwd : String → Option Nat} {pid : Nat} {call : CreateCall}
    (hcall : openCall items args passwd pid = .ok call)
    (hremote : call.remote = true) : call.seatId = "" := by
  unfold openCall at hcall
  split at hcall
  · cases hcall
  · next login hlogin =>
    split at hcall
    · cases hcall
    · cases hcall
      exact if_pos (Or.inl hremote)

section Manager

variable {st : LoginState} {call : CreateCall} {a : CreateAnswers}

/-- What the manager does when it is asked for no seat. -/
theorem createSession_noSeat (st : LoginState) (a : CreateAnswers) (hseat : call.seatId = "") :
    (createSession st call a).login
        = (createOn st call a (if "seat0" ∈ st.seats then some "seat0" else none)).login
      ∧ (createSession st call a).did
        = (createOn st call a (if "seat0" ∈ st.seats then some "seat0" else none)).after := by
  have hchoose : chooseSeat st call.seatId
      = .ok (if "seat0" ∈ st.seats then some "seat0" else none) := if_pos hseat
  unfold createSession createLocked
  rw [hchoose]
  exact ⟨rfl, rfl⟩

/-- The session that was created, with the seat it got. -/
theorem createOn_seat (st : LoginState) (call : CreateCall) (a : CreateAnswers)
    (seat : Option SeatId) : ((createOn st call a seat).login.sessions.lookup a.id).map (·.seat)
      = some seat := by
  show ((st.sessions.insert a.id _).lookup a.id).map _ = _
  rw [Finmap.lookup_insert]
  rfl

/-- Without a seat nothing else is touched. -/
theorem createOn_none_seatless : (createOn st call a none).login.seats = st.seats
    ∧ aclSteps (createOn st call a none).after = [] := by
  refine ⟨rfl, ?_⟩
  unfold createOn
  dsimp only
  split
  · rfl
  · rfl

end Manager

/-- A remote login gets no seat and no devices exactly if the login
state has no `seat0`. -/
theorem remote_seatless_iff {items : Items} {args : ModuleArgs}
    {passwd : String → Option Nat} {pid : Nat} {call : CreateCall}
    (hcall : openCall items args passwd pid = .ok call) (hremote : call.remote = true)
    (st : LoginState) (a : CreateAnswers) : Seatless st call a ↔ "seat0" ∉ st.seats := by
  obtain ⟨hlogin, hdid⟩ := createSession_noSeat st a
    (openCall_remote hcall hremote)
  constructor
  · rintro ⟨⟨s, hs, hnone⟩, -, -⟩ hmem
    rw [hlogin, if_pos hmem] at hs
    have hseat := createOn_seat st call a (some "seat0")
    rw [hs, Option.map_some, hnone] at hseat
    cases hseat
  · intro hmem
    rw [if_neg hmem] at hlogin hdid
    refine ⟨?_, fun sid => ?_, fun sid hin => ?_⟩
    · rw [hlogin]
      exact Option.map_eq_some_iff.1 (createOn_seat st call a none)
    · rw [hlogin, createOn_none_seatless.1]
    · rw [hdid] at hin
      have hstep : AclStep.apply sid call.uid ∈ aclSteps (createOn st call a none).after :=
        List.mem_filterMap.2 ⟨_, hin, rfl⟩
      rw [createOn_none_seatless.2] at hstep
      cases hstep

-- ==== a login through ssh

/-- What sshd sets for a login from another machine. -/
def sshItems : Items
  | .user => .ok (some "guest")
  | .service => .ok (some "sshd")
  | .tty => .ok (some "ssh")
  | .rhost => .ok (some "192.0.2.7")
  | _ => .ok none

/-- The call it is turned into. -/
def sshCall : CreateCall :=
  { uid := 1001, pid := 70, service := "sshd", sessionType := "tty",
    sessionClass := "user", desktop := "", seatId := "", vtnr := 0, tty := "ssh",
    display := "", remote := true, remoteUser := "", remoteHost := "192.0.2.7" }

theorem sshCall_eq :
    openCall sshItems {} (fun user => if user = "guest" then some 1001 else none) 70
      = .ok sshCall := by
  rfl

/-- The login on a machine where nobody else is. -/
def remoteLogin : Outcome SessionReply :=
  createSession LoginState.new.createSeat0 sshCall (answersFor "1")

/-- On a machine where nobody is logged in, the remote user gets the
seat, the foreground and the devices. -/
theorem remote_takes_seat :
    openCall sshItems {} (fun user => if user = "guest" then some 1001 else none) 70
        = .ok sshCall
      ∧ (remoteLogin.login.sessions.lookup "1").map (·.seat) = some (some "seat0")
      ∧ remoteLogin.login.activeOf "seat0" = some "1"
      ∧ Effect.acl (.apply "seat0" 1001) ∈ remoteLogin.did :=
  ⟨sshCall_eq, by decide, by decide, by decide⟩

/-- Before the seat is created. -/
theorem remote_without_seat : Seatless LoginState.new sshCall (answersFor "1") :=
  (remote_seatless_iff sshCall_eq rfl LoginState.new (answersFor "1")).2 (by decide)

end Dynamod.Pam
