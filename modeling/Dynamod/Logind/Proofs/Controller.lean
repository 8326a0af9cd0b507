/-
Who may use the devices of a session (`dynamod-logind/src/session.rs`).

# The rule

A session has at most one controller. `TakeDevice` is for the
controller; the other methods on the controller and the device table
are for the controller too, or for anyone while there is none
(`SessionCall.Respects`). Only `TakeControl` with force may take the
session from its controller.

# What the methods look at

`take_device` asks whether there is a controller, not whether it is the
caller, and `release_control` and `release_device` ask for neither. The
rule therefore holds of exactly the calls of `SessionCall.Entitled`, in
every login state, and of a row of calls if and only if it holds of each.
-/
import Dynamod.Lib.Runs
import Dynamod.Logind.Proofs.Foreground
import Dynamod.Logind.Session

namespace Dynamod.Logind

open Lib

namespace SessionCall

/-- The controller and the device table of the session. -/
def claimed (c : SessionCall) (st : LoginState) :
    Option (Option String × HashMap (Nat × Nat) Nat) :=
  (st.sessions.lookup c.sessionId).map fun s => (s.controller, s.devices)

/-- The recorded controller of the session. -/
def controller (c : SessionCall) (st : LoginState) : Option String :=
  (st.sessions.lookup c.sessionId).bind Session.controller

/-- The call comes from the recorded controller. -/
def FromController (c : SessionCall) (st : LoginState) : Prop :=
  ∃ name, c.sender = some name ∧ c.controller st = some name

/-- The call leaves the controller and the device table alone, unless
there is no controller or it comes from the controller. -/
def LeavesClaimed (c : SessionCall) (st : LoginState) : Prop :=
  c.claimed (c.perform st).login ≠ c.claimed st →
    c.controller st = none ∨ c.FromController st

/-- The rule for one call. -/
def Respects (c : SessionCall) (st : LoginState) : Prop :=
  match c.method with
  | .takeDevice _ _ _ =>
    (∃ fd inactive, (c.perform st).result = .ok (.device fd inactive)) →
      c.FromController st
  | .takeControl force => force = false → c.LeavesClaimed st
  | .releaseControl => c.LeavesClaimed st
  | .releaseDevice _ _ => c.LeavesClaimed st
  | _ => True

/-- The table has an entry for the device. -/
def Taken (c : SessionCall) (st : LoginState) (major minor : Nat) : Prop :=
  ∃ s, st.sessions.lookup c.sessionId = some s ∧ (major, minor) ∈ s.devices

/-- The kernel opens the device and gives a second descriptor. -/
def Granted (major minor : Nat) (a : TakeAnswers) : Prop :=
  ∃ fd callerFd, openDevice major minor a.opened = .ok fd ∧ a.dup = .ok callerFd

/-- The calls that obey the rule, by the state they find. -/
def Entitled (c : SessionCall) (st : LoginState) : Prop :=
  c.controller st = none ∨ c.FromController st ∨
    match c.method with
    | .takeDevice major minor a => c.Taken st major minor ∨ ¬ Granted major minor a
    | .releaseControl => False
    | .releaseDevice major minor => ¬ c.Taken st major minor
    | _ => True

-- ==== one call

variable {st : LoginState} {c : SessionCall} {s : Session}

theorem controller_eq (hs : st.sessions.lookup c.sessionId = some s) :
    c.controller st = s.controller := by
  rw [controller, hs]
  rfl

theorem taken_iff (hs : st.sessions.lookup c.sessionId = some s) (major minor : Nat) :
    c.Taken st major minor ↔ (major, minor) ∈ s.devices := by
  simp [Taken, hs]

/-- What is left of the session after a method on its entry. -/
theorem claimed_onSession (hs : st.sessions.lookup c.sessionId = some s)
    (action : Session → Handled) :
    c.claimed (SessionInterface.onSession st c.sessionId action).login
      = some ((action s).session.controller, (action s).session.devices) := by
  simp [SessionInterface.onSession, hs, claimed]

theorem result_onSession (hs : st.sessions.lookup c.sessionId = some s)
    (action : Session → Handled) :
    (SessionInterface.onSession st c.sessionId action).result = (action s).result := by
  simp [SessionInterface.onSession, hs]

/-- A descriptor is given exactly when there is a controller, the device
is free and the kernel agrees. -/
theorem takeDevice_grants_iff (major minor : Nat) (a : TakeAnswers) (s : Session) :
    (∃ fd inactive, (SessionInterface.takeDevice major minor a s).result
        = .ok (.device fd inactive)) ↔
      s.controller ≠ none ∧ (major, minor) ∉ s.devices ∧ Granted major minor a := by
  unfold SessionInterface.takeDevice Granted
  cases hcontroller : s.controller with
  | none => simp [SessionInterface.fail]
  | some name =>
    by_cases htaken : (major, minor) ∈ s.devices
    · simp [SessionInterface.fail, htaken]
    · cases hopen : openDevice major minor a.opened with
      | error e => simp [SessionInterface.fail, htaken]
      | ok fd =>
        cases hdup : a.dup with
        | error e => simp [SessionInterface.fail, htaken]
        | ok callerFd => simp [htaken]

/-- A method on the entry obeys the rule when it leaves the two fields
as they are, and otherwise only for those who may change them. -/
theorem leavesClaimed_iff {action : Session → Handled}
    (hs : st.sessions.lookup c.sessionId = some s)
    (hperform : c.perform st = SessionInterface.onSession st c.sessionId action) :
    c.LeavesClaimed st ↔ ((action s).session.controller = s.controller
          ∧ (action s).session.devices = s.devices)
        ∨ c.controller st = none ∨ c.FromController st := by
  have hbefore : c.claimed st = some (s.controller, s.devices) := by
    simp [claimed, hs]
  unfold LeavesClaimed
  rw [hperform, claimed_onSession hs, hbefore, ← or_iff_not_imp_left]
  simp

/-- Without a controller nothing is refused by the rule. -/
theorem leavesClaimed_of_none (hnone : c.controller st = none) : c.LeavesClaimed st :=
  fun _ => Or.inl hnone

theorem takeDevice_respects_iff {major minor : Nat} {a : TakeAnswers}
    (hmethod : c.method = .takeDevice major minor a)
    (hs : st.sessions.lookup c.sessionId = some s) : c.Respects st ↔ c.Entitled st := by
  have hperform : c.perform st = SessionInterface.onSession st c.sessionId
      (SessionInterface.takeDevice major minor a) := by
    rw [perform, hmethod]
  rw [Respects, Entitled, hmethod]
  dsimp only
  rw [hperform, result_onSession hs, takeDevice_grants_iff, taken_iff hs, controller_eq hs]
  tauto

theorem releaseControl_respects_iff (hmethod : c.method = .releaseControl)
    (hs : st.sessions.lookup c.sessionId = some s) : c.Respects st ↔ c.Entitled st := by
  have hperform : c.perform st
      = SessionInterface.onSession st c.sessionId SessionInterface.releaseControl := by
    rw [perform, hmethod]
  rw [Respects, Entitled, hmethod]
  rw [leavesClaimed_iff hs hperform, or_false]
  refine or_iff_right_of_imp fun hsame => Or.inl ?_
  -- the controller after the call is none
  rw [controller_eq hs, ← hsame.1]
  rfl

theorem releaseDevice_respects_iff {major minor : Nat}
    (hmethod : c.method = .releaseDevice major minor)
    (hs : st.sessions.lookup c.sessionId = some s) : c.Respects st ↔ c.Entitled st := by
  have hperform : c.perform st = SessionInterface.onSession st c.sessionId
      (SessionInterface.releaseDevice major minor) := by
    rw [perform, hmethod]
  have hsame : ((SessionInterface.releaseDevice major minor s).session.controller
        = s.controller
      ∧ (SessionInterface.releaseDevice major minor s).session.devices = s.devices)
        ↔ (major, minor) ∉ s.devices := by
    unfold SessionInterface.releaseDevice
    split
    · rename_i htaken
      refine iff_of_false (fun h => ?_) (not_not_intro htaken)
      have hgone : (major, minor) ∉ s.devices.erase (major, minor) :=
        Finmap.notMem_erase_self
      rw [show s.devices.erase (major, minor) = s.devices from h.2] at hgone
      exact hgone htaken
    · rename_i hfree
      exact iff_of_true ⟨rfl, rfl⟩ hfree
  rw [Respects, Entitled, hmethod]
  dsimp only
  rw [leavesClaimed_iff hs hperform, hsame, taken_iff hs]
  tauto

/-- Without force the controller stays, whoever asks. -/
theorem takeControl_leavesClaimed (hmethod : c.method = .takeControl false)
    (hs : st.sessions.lookup c.sessionId = some s) : c.LeavesClaimed st := by
  have hperform : c.perform st = SessionInterface.onSession st c.sessionId
      (SessionInterface.takeControl false c.sender) := by
    rw [perform, hmethod]
  rw [leavesClaimed_iff hs hperform, controller_eq hs]
  cases hcontroller : s.controller with
  | none => exact Or.inr (Or.inl rfl)
  | some name =>
    refine Or.inl ?_
    simp [SessionInterface.takeControl, SessionInterface.fail, hcontroller]

/-- The step lemma: a call obeys the rule exactly when it is entitled. -/
theorem respects_iff_entitled (st : LoginState) (c : SessionCall) :
    c.Respects st ↔ c.Entitled st := by
  cases hs : st.sessions.lookup c.sessionId with
  | none =>
    -- the call fails with "session not found", or is not under the rule
    have hnone : c.controller st = none := by simp [controller, hs]
    refine iff_of_true ?_ (Or.inl hnone)
    unfold Respects
    cases hmethod : c.method with
    | takeDevice major minor a =>
      rintro ⟨fd, inactive, hresult⟩
      simp [perform, hmethod, SessionInterface.onSession, hs, refuse] at hresult
    | takeControl force => exact fun _ => leavesClaimed_of_none hnone
    | releaseControl => exact leavesClaimed_of_none hnone
    | releaseDevice major minor => exact leavesClaimed_of_none hnone
    | _ => trivial
  | some s =>
    cases hmethod : c.method with
    | takeDevice major minor a => exact takeDevice_respects_iff hmethod hs
    | releaseControl => exact releaseControl_respects_iff hmethod hs
    | releaseDevice major minor => exact releaseDevice_respects_iff hmethod hs
    | takeControl force =>
      refine iff_of_true ?_ (by simp [Entitled, hmethod])
      rw [Respects, hmethod]
      rintro rfl
      exact takeControl_leavesClaimed hmethod hs
    | _ => simp [Respects, Entitled, hmethod]

/-- The login state after a call. -/
def next (st : LoginState) (c : SessionCall) : LoginState := (c.perform st).login

end SessionCall

-- ==== runs

/-- In a row of calls of any clients, from any login state, every call
obeys the rule if and only if every call is entitled in the state it
finds. -/
theorem controller_respected_iff (st : LoginState) (calls : List SessionCall) :
    Allowed SessionCall.next (fun st c => c.Respects st) st calls ↔
      Allowed SessionCall.next (fun st c => c.Entitled st) st calls :=
  allowed_congr (fun st c => SessionCall.respects_iff_entitled st c) st calls

/-- One session on the console. -/
def oneSession : LoginState :=
  (createSession LoginState.new.createSeat0 (consoleCall 1000 70) (answersFor "1")).login

/-- The compositor takes control. -/
def compositorTakes : SessionCall :=
  { sessionId := "1", sender := some ":1.1", method := .takeControl false }

/-- Another client takes the card. -/
def strangerTakes : SessionCall :=
  { sessionId := "1", sender := some ":1.2"
    method := .takeDevice 226 0
      { opened := { linked := true, uevent := none, unterminated := none, opened := .ok 7 }
        dup := .ok 8 } }

/-- The client that is not the controller gets a descriptor of the card. -/
theorem stranger_gets_device :
    strangerTakes.controller (SessionCall.next oneSession compositorTakes) = some ":1.1"
      ∧ strangerTakes.sender = some ":1.2"
      ∧ (strangerTakes.perform (SessionCall.next oneSession compositorTakes)).result
        = .ok (.device 8 false)
      ∧ ¬ Allowed SessionCall.next (fun st c => c.Respects st) oneSession
          [compositorTakes, strangerTakes] := by
  have hcontroller : strangerTakes.controller (SessionCall.next oneSession compositorTakes)
      = some ":1.1" := by
    decide
  have hresult : (strangerTakes.perform (SessionCall.next oneSession compositorTakes)).result
      = .ok (.device 8 false) := by
    rfl
  refine ⟨hcontroller, rfl, hresult, fun hall => ?_⟩
  obtain ⟨name, hsender, hname⟩ := hall.2.1 ⟨8, false, hresult⟩
  have hone : name = ":1.1" := Option.some.inj (hname.symm.trans hcontroller)
  rw [hone] at hsender
  exact absurd hsender (by decide)

end Dynamod.Logind
