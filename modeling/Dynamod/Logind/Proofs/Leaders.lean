/-
The table of leaders against the live sessions.

`pid_to_session` has one entry for a process, though nothing keeps a
process from leading several sessions: the last one created takes the
entry over, and the removal of any of them erases it. So an entry always
names a live session of its process (`PidsLive`), but the process of a
session may have lost its entry; `pidsFollow_step` says exactly which
removals take it away.
-/
import Dynamod.Lib.Runs
import Dynamod.Logind.Proofs.UserStates

namespace Dynamod.Logind

open Lib

namespace LoginState

/-- The session is live, and the process leads it. -/
def Leads (st : LoginState) (pid : Nat) (id : SessionId) : Prop :=
  Owned st.sessions (fun s => s.leaderPid = pid) id

/-- Every entry names a live session that the process leads. -/
def PidsLive (st : LoginState) : Prop :=
  ∀ pid id, st.sessionForPid pid = some id → st.Leads pid id

/-- `session_for_pid` finds a session of every process that leads one,
and none for the others. -/
def PidsFollow (st : LoginState) : Prop :=
  ∀ pid, ((∃ id, st.Leads pid id) → ∃ id, st.sessionForPid pid = some id ∧ st.Leads pid id)
    ∧ ((¬ ∃ id, st.Leads pid id) → st.sessionForPid pid = none)

-- ==== what a step changes

section Steps

variable {st : LoginState} {id : SessionId} {r : SessionRequest} {s : Session}

theorem leads_createSession (hfresh : id ∉ st.sessions) (nowUsec nowMonotonic pid : Nat)
    (k : SessionId) : (st.createSession id r nowUsec nowMonotonic).Leads pid k
      ↔ st.Leads pid k ∨ (k = id ∧ r.leaderPid = pid) :=
  owned_insert hfresh

theorem sessionForPid_createSession (nowUsec nowMonotonic pid : Nat) :
    (st.createSession id r nowUsec nowMonotonic).sessionForPid pid
      = if pid = r.leaderPid then some id else st.sessionForPid pid :=
  HashMap.lookup_insert_ite ..

theorem leads_removeSession (hs : st.sessions.lookup id = some s) (pid : Nat) (k : SessionId) :
    (st.removeSession id).Leads pid k ↔ st.Leads pid k ∧ k ≠ id := by
  unfold Leads
  rw [removeSession_some hs, remaining, owned_modifyAt (f := Session.raise) fun _ => Iff.rfl,
    owned_erase]

theorem sessionForPid_removeSession (hs : st.sessions.lookup id = some s) (pid : Nat) :
    (st.removeSession id).sessionForPid pid
      = if pid = s.leaderPid then none else st.sessionForPid pid := by
  rw [removeSession_some hs]
  exact HashMap.lookup_erase_ite ..

theorem leads_activateSession (pid : Nat) (k : SessionId) :
    (st.activateSession id).Leads pid k ↔ st.Leads pid k := by
  rcases st.activateSession_cases id with ⟨hidle, -⟩ | ⟨s, seatId, -, -, hrun⟩
  · rw [hidle]
  · rw [hrun]
    refine (owned_modifyAt (o := some id) (f := Session.raise) fun _ => Iff.rfl).trans ?_
    exact owned_modifyAt fun _ => Iff.rfl

theorem sessionForPid_activateSession (pid : Nat) :
    (st.activateSession id).sessionForPid pid = st.sessionForPid pid := by
  rcases st.activateSession_cases id with ⟨hidle, -⟩ | ⟨s, seatId, -, -, hrun⟩
  · rw [hidle]
  · rw [hrun]
    rfl

end Steps

-- ==== entries name the live

theorem PidsLive.apply {st : LoginState} (h : st.PidsLive) {op : Op}
    (hfresh : st.Fresh op) : (st.apply op).PidsLive := by
  intro pid k hk
  cases op with
  | create id r nowUsec nowMonotonic =>
    refine (leads_createSession hfresh nowUsec nowMonotonic pid k).2 ?_
    rw [LoginState.apply, sessionForPid_createSession] at hk
    split at hk
    · next hpid =>
      injection hk with hk
      exact Or.inr ⟨hk.symm, hpid.symm⟩
    · exact Or.inl (h pid k hk)
  | remove id =>
    rw [LoginState.apply] at hk ⊢
    cases hs : st.sessions.lookup id with
    | none =>
      rw [removeSession_none hs] at hk ⊢
      exact h pid k hk
    | some s =>
      rw [sessionForPid_removeSession hs] at hk
      rw [leads_removeSession hs]
      split at hk
      · cases hk
      · next hpid =>
        refine ⟨h pid k hk, ?_⟩
        -- the removed session is of another process
        rintro rfl
        exact hpid ((h pid k hk).holds hs).symm
  | activate id =>
    rw [LoginState.apply, sessionForPid_activateSession] at hk
    exact (leads_activateSession pid k).2 (h pid k hk)

theorem init_pidsLive : new.createSeat0.PidsLive := by
  intro pid id hid
  cases hid

/-- Where the entries name the live, only a missing entry is wrong. -/
theorem PidsLive.follow_iff {st : LoginState} (h : st.PidsLive) :
    st.PidsFollow ↔ ∀ pid id, st.Leads pid id → st.sessionForPid pid ≠ none := by
  constructor
  · intro hfollow pid id hid hnone
    obtain ⟨k, hk, -⟩ := (hfollow pid).1 ⟨id, hid⟩
    rw [hnone] at hk
    cases hk
  · intro hall pid
    constructor
    · rintro ⟨id, hid⟩
      obtain ⟨k, hk⟩ := Option.ne_none_iff_exists'.1 (hall pid id hid)
      exact ⟨k, hk, h pid k hk⟩
    · intro hnobody
      cases hk : st.sessionForPid pid with
      | none => rfl
      | some k => exact absurd ⟨k, h pid k hk⟩ hnobody

-- ==== entries that last

/-- No session is removed while its leader leads another one. -/
def LastOfLeader (st : LoginState) : Op → Prop
  | .remove id => ∀ s, st.sessions.lookup id = some s →
      ∀ k, st.Leads s.leaderPid k → k = id
  | _ => True

theorem pidsFollow_step (st : LoginState) (op : Op) (hlive : st.PidsLive)
    (hfresh : st.Fresh op) (h : st.PidsFollow) :
    (st.apply op).PidsFollow ↔ st.LastOfLeader op := by
  rw [(hlive.apply hfresh).follow_iff]
  rw [hlive.follow_iff] at h
  cases op with
  | create id r nowUsec nowMonotonic =>
    refine iff_of_true (fun pid k hk => ?_) True.intro
    rw [LoginState.apply, sessionForPid_createSession]
    split
    · exact Option.some_ne_none id
    · next hpid =>
      have hold := (leads_createSession hfresh nowUsec nowMonotonic pid k).1 hk
      exact h pid k (hold.resolve_right fun hnew => hpid hnew.2.symm)
  | remove id =>
    rw [LoginState.apply]
    cases hs : st.sessions.lookup id with
    | none =>
      rw [removeSession_none hs]
      exact iff_of_true h fun s hs' => absurd (hs.symm.trans hs') (Option.some_ne_none s).symm
    | some s =>
      constructor
      · intro hall s' hs' k hk
        cases hs.symm.trans hs'
        by_contra hne
        refine hall s.leaderPid k ((leads_removeSession hs _ k).2 ⟨hk, hne⟩) ?_
        rw [sessionForPid_removeSession hs, if_pos rfl]
      · intro hlast pid k hk
        obtain ⟨hk, hne⟩ := (leads_removeSession hs pid k).1 hk
        rw [sessionForPid_removeSession hs, if_neg]
        · exact h pid k hk
        · rintro rfl
          exact hne (hlast s hs k hk)
  | activate id =>
    refine iff_of_true (fun pid k hk => ?_) True.intro
    rw [LoginState.apply, sessionForPid_activateSession]
    exact h pid k ((leads_activateSession pid k).1 hk)

theorem init_pidsFollow : new.createSeat0.PidsFollow := by
  refine init_pidsLive.follow_iff.2 fun pid id hid => ?_
  obtain ⟨s, hs, -⟩ := hid
  cases hs

/-- In every run an entry names a live session of its process. The
answers of `session_for_pid` are complete all along exactly if no session
is removed while its leader leads another one. -/
theorem sessionForPid_exact (ops : List Op) (hfresh : Allowed apply Fresh new.createSeat0 ops) :
    (ops.foldl apply new.createSeat0).PidsLive
      ∧ ((∀ pre, pre <+: ops → (pre.foldl apply new.createSeat0).PidsFollow)
        ↔ Allowed apply LastOfLeader new.createSeat0 ops) := by
  constructor
  · have hstart : Reaches (· = new.createSeat0) apply Fresh new.createSeat0 := .init rfl
    refine (hstart.run ops hfresh).invariant ?_ fun st op h hfresh => h.apply hfresh
    rintro st rfl
    exact init_pidsLive
  · exact (allowed_iff_kept (fun _ _ h hfresh => h.apply hfresh) pidsFollow_step ops _
      init_pidsLive init_pidsFollow hfresh).symm

/-- Two sessions of one user, led by two processes; the first one is
closed, and its process opens another one. -/
def leaderReturns : List Op :=
  [.create "1" (seat0Request 1000 50) 0 0, .create "2" (seat0Request 1000 60) 1 1,
    .remove "1", .create "3" (seat0Request 1000 50) 2 2]

theorem leaderReturns_follow : Allowed apply Fresh new.createSeat0 leaderReturns
    ∧ ∀ pre, pre <+: leaderReturns → (pre.foldl apply new.createSeat0).PidsFollow := by
  have hfresh : Allowed apply Fresh new.createSeat0 leaderReturns := by decide
  refine ⟨hfresh, (sessionForPid_exact leaderReturns hfresh).2.2
    ⟨True.intro, True.intro, ?_, True.intro, True.intro⟩⟩
  intro s hs k hk
  cases hs
  rcases (leads_createSession (by decide) _ _ _ k).1 hk with hk | ⟨-, hpid⟩
  · rcases (leads_createSession (by decide) _ _ _ k).1 hk with hk | ⟨rfl, -⟩
    · obtain ⟨t, ht, -⟩ := hk
      cases ht
    · rfl
  · cases hpid

/-- One process leads two sessions, and the one created last, or the
other one, is removed. -/
def sharedLeader (removed : SessionId) : List Op :=
  [.create "1" (seat0Request 1000 50) 0 0, .create "2" (seat0Request 1000 50) 1 1, .remove removed]

/-- Whichever session of the process is removed, the other one is not
found any more. -/
theorem sharedLeader_lost : (Allowed apply Fresh new.createSeat0 (sharedLeader "1")
      ∧ ((sharedLeader "1").foldl apply new.createSeat0).sessionForPid 50 = none
      ∧ ((sharedLeader "1").foldl apply new.createSeat0).Leads 50 "2")
    ∧ Allowed apply Fresh new.createSeat0 (sharedLeader "2")
      ∧ ((sharedLeader "2").foldl apply new.createSeat0).sessionForPid 50 = none
      ∧ ((sharedLeader "2").foldl apply new.createSeat0).Leads 50 "1" :=
  ⟨⟨by decide, by decide, _, rfl, rfl⟩, by decide, by decide, _, rfl, rfl⟩

end LoginState

end Dynamod.Logind
