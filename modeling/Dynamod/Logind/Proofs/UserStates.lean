/-
The state of a user against the states of their sessions.

`create_session` and `remove_session` write the state of the user whose
session comes or goes. The foreground of a seat also changes hands
between two users, and then nobody's state is written:
`activate_session` touches no user at all, and `remove_session` raises
the next session of the seat without a look at its owner. `statesFollow_step`
says exactly which steps keep the states right.
-/
import Dynamod.Lib.Runs
import Dynamod.Logind.Proofs.Sessions

namespace Dynamod.Logind

open Lib

variable {st : LoginState} {m : HashMap SessionId Session} {uid : Nat} {user : User}
  {id : SessionId}

namespace LoginState

-- ==== runs

/-- A call of one of the three operations. -/
inductive Op
  | create (id : SessionId) (r : SessionRequest) (nowUsec nowMonotonic : Nat)
  | remove (id : SessionId)
  | activate (id : SessionId)

def apply (st : LoginState) : Op → LoginState
  | .create id r nowUsec nowMonotonic => st.createSession id r nowUsec nowMonotonic
  | .remove id => st.removeSession id
  | .activate id => st.activateSession id

/-- `next_session_id` never draws the id of a live session. -/
def Fresh (st : LoginState) : Op → Prop
  | .create id _ _ _ => id ∉ st.sessions
  | _ => True

instance Fresh.decidable (st : LoginState) : (op : Op) → Decidable (st.Fresh op)
  | .create id _ _ _ => inferInstanceAs (Decidable (id ∉ st.sessions))
  | .remove _ => .isTrue True.intro
  | .activate _ => .isTrue True.intro

/-- Each operation keeps the indexes right. -/
theorem Consistent.apply (hc : st.Consistent) {op : Op}
    (hfresh : st.Fresh op) : (st.apply op).Consistent := by
  cases op with
  | create id r nowUsec nowMonotonic => exact hc.createSession hfresh nowUsec nowMonotonic
  | remove id => exact hc.removeSession id
  | activate id => exact hc.activateSession id

-- ==== states

/-- The user has an active session. -/
def HasActive (m : HashMap SessionId Session) (uid : Nat) : Prop :=
  ∃ id, Owned m (fun s => s.uid = uid ∧ s.state = .active) id

/-- The state that the documentation of `UserState` defines. -/
def Follows (m : HashMap SessionId Session) (uid : Nat) (user : User) : Prop :=
  (HasActive m uid → user.state = .active) ∧ (¬ HasActive m uid → user.state = .online)

/-- The state of every user is the one their sessions give them. -/
def StatesFollow (st : LoginState) : Prop :=
  ∀ uid user, st.users.lookup uid = some user → Follows st.sessions uid user

theorem Follows.active_iff (h : Follows m uid user) : user.state = .active ↔ HasActive m uid := by
  constructor
  · intro hstate
    by_contra hnone
    rw [h.2 hnone] at hstate
    cases hstate
  · exact h.1

/-- A user who is left alone is right again exactly if they have an
active session as they had before. -/
theorem Follows.congr_iff {m' : HashMap SessionId Session} (h : Follows m uid user) :
    Follows m' uid user ↔ (HasActive m' uid ↔ HasActive m uid) := by
  constructor
  · intro h'
    rw [← h'.active_iff, ← h.active_iff]
  · intro hiff
    unfold Follows
    rw [hiff]
    exact h

-- ==== the table of sessions

section Table

variable {s : Session}

/-- A new session makes its user active if it is active itself. -/
theorem hasActive_insert (hid : id ∉ m) : HasActive (m.insert id s) uid
    ↔ HasActive m uid ∨ (s.uid = uid ∧ s.state = .active) := by
  unfold HasActive
  simp only [owned_insert hid, exists_or, exists_eq_left]

/-- The removal of a session is nothing to other users. -/
theorem hasActive_erase_other (hs : m.lookup id = some s) (huid : s.uid ≠ uid) :
    HasActive (m.erase id) uid ↔ HasActive m uid := by
  refine exists_congr fun k => ?_
  rw [owned_erase]
  refine and_iff_left_of_imp ?_
  rintro hk rfl
  exact huid (hk.holds hs).1

/-- Raising a session makes its owner an active user. -/
theorem hasActive_raise (o : Option SessionId) : HasActive (m.modifyAt o Session.raise) uid
    ↔ HasActive m uid ∨ ∃ k t, o = some k ∧ m.lookup k = some t ∧ t.uid = uid := by
  unfold HasActive Owned
  constructor
  · rintro ⟨k, t, ht, huid, hactive⟩
    rw [HashMap.lookup_modifyAt] at ht
    split at ht
    · next ho =>
      obtain ⟨u, hu, rfl⟩ := Option.map_eq_some_iff.1 ht
      exact Or.inr ⟨k, u, ho, hu, huid⟩
    · exact Or.inl ⟨k, t, ht, huid, hactive⟩
  · rintro (⟨k, t, ht, huid, hactive⟩ | ⟨k, t, rfl, ht, huid⟩)
    · by_cases ho : o = some k
      · refine ⟨k, t.raise, ?_, huid, rfl⟩
        rw [HashMap.lookup_modifyAt, if_pos ho, ht]
        rfl
      · refine ⟨k, t, ?_, huid, hactive⟩
        rw [HashMap.lookup_modifyAt, if_neg ho, ht]
    · refine ⟨k, t.raise, ?_, huid, rfl⟩
      rw [HashMap.lookup_modifyAt, if_pos rfl, ht]
      rfl

/-- Lowering a session leaves the other active ones. -/
theorem hasActive_lower (o : Option SessionId) : HasActive (m.modifyAt o Session.lower) uid
    ↔ ∃ k, o ≠ some k ∧ Owned m (fun s => s.uid = uid ∧ s.state = .active) k := by
  unfold HasActive Owned
  refine exists_congr fun k => ?_
  rw [HashMap.lookup_modifyAt]
  by_cases ho : o = some k
  · rw [if_pos ho]
    refine iff_of_false ?_ fun h => h.1 ho
    rintro ⟨t, ht, -, hactive⟩
    obtain ⟨u, -, rfl⟩ := Option.map_eq_some_iff.1 ht
    cases hactive
  · rw [if_neg ho]
    exact (and_iff_right ho).symm

end Table

-- ==== create_session

/-- Their user's state is written with the session's. -/
theorem Follows.join {s : Session} {first : Bool} (h : Follows m uid user) (hid : id ∉ m)
    (huid : s.uid = uid) (hstate : s.state = if first then .active else .online) :
    Follows (m.insert id s) uid (user.join id first) := by
  unfold Follows
  rw [hasActive_insert hid, hstate]
  cases first with
  | true => simp [User.join, huid]
  | false => simpa [User.join, Follows] using h

/-- A uid without a user has no sessions, and a new user is online. -/
theorem StatesFollow.userOrNew (h : st.StatesFollow) (hc : st.Consistent) (r : SessionRequest) :
    Follows st.sessions r.uid ((st.users.lookup r.uid).getD (newUser r)) := by
  cases huser : st.users.lookup r.uid with
  | some user => exact h r.uid user huser
  | none =>
    have hnone : ¬ HasActive st.sessions r.uid := by
      rintro ⟨id, s, hs, huid, -⟩
      have hmem := (hc.users_iff r.uid).2 ⟨id, s, hs, huid⟩
      exact Finmap.lookup_eq_none.1 huser hmem
    exact ⟨fun hactive => absurd hactive hnone, fun _ => rfl⟩

/-- A login writes the one state that it changes. -/
theorem StatesFollow.createSession {r : SessionRequest}
    (h : st.StatesFollow) (hc : st.Consistent) (hfresh : id ∉ st.sessions)
    (nowUsec nowMonotonic : Nat) : (st.createSession id r nowUsec nowMonotonic).StatesFollow := by
  intro uid user huser
  change (st.users.insert r.uid _).lookup uid = _ at huser
  rw [HashMap.lookup_insert_ite] at huser
  split at huser
  · next hu =>
    subst hu
    cases huser
    exact (h.userOrNew hc r).join hfresh rfl rfl
  · next hu =>
    refine (h uid user huser).congr_iff.2 ((hasActive_insert hfresh).trans ?_)
    exact or_iff_left fun hown => hu hown.1.symm

-- ==== remove_session

/-- The state of the user whose session is removed is computed from the
sessions that are left. -/
theorem follows_leave {m' : HashMap SessionId Session} (h : UserOk m uid user)
    (hm' : ∀ k, Owned m' (fun s => s.uid = uid) k ↔ Owned (m.erase id) (fun s => s.uid = uid) k) :
    Follows m' uid (user.leave id m') := by
  have hlist := (h.lists.retain id).congr hm'
  have hany : ((user.sessions.filter fun s => s ≠ id).any fun sid =>
      ((m'.lookup sid).map (·.state)) = some .active) = true ↔ HasActive m' uid := by
    rw [List.any_eq_true]
    constructor
    · rintro ⟨k, hk, hstate⟩
      obtain ⟨t, ht, huid⟩ := (hlist.2 k).1 hk
      rw [ht] at hstate
      exact ⟨k, t, ht, huid, by simpa using hstate⟩
    · rintro ⟨k, t, ht, huid, hstate⟩
      refine ⟨k, (hlist.2 k).2 ⟨t, ht, huid⟩, ?_⟩
      rw [ht]
      simp [hstate]
  have hstate : (user.leave id m').state
      = if (user.sessions.filter fun s => s ≠ id).any fun sid =>
          ((m'.lookup sid).map (·.state)) = some .active
        then .active else .online := rfl
  refine ⟨fun hactive => ?_, fun hnone => ?_⟩
  · rw [hstate, if_pos (hany.2 hactive)]
  · rw [hstate, if_neg fun hh => hnone (hany.1 hh)]

section Remove

variable {s : Session}

/-- Who is active after a removal: others, and the heir's owner. -/
theorem hasActive_remaining (hs : st.sessions.lookup id = some s)
    (huid : s.uid ≠ uid) : HasActive (st.remaining s id) uid ↔ HasActive st.sessions uid
      ∨ ∃ k t, st.heir s id = some k ∧ st.sessions.lookup k = some t ∧ t.uid = uid := by
  unfold remaining
  rw [hasActive_raise, hasActive_erase_other hs huid]
  refine or_congr_right (exists_congr fun k => exists_congr fun t =>
    and_congr_right fun _ => ?_)
  rw [HashMap.lookup_erase_ite]
  by_cases hk : k = id
  · rw [if_pos hk, hk, hs]
    refine iff_of_false (fun h => nomatch h.1) ?_
    rintro ⟨ht, hu⟩
    injection ht with ht
    exact huid (ht ▸ hu)
  · rw [if_neg hk]

/-- The removal of a session keeps the states right exactly if the owner
of the session that is raised is the user whose state is written, or was
active already. -/
theorem statesFollow_remove (h : st.StatesFollow) (hc : st.Consistent)
    (hs : st.sessions.lookup id = some s) : (st.removeSession id).StatesFollow
      ↔ ∀ k t, st.heir s id = some k → st.sessions.lookup k = some t →
        t.uid = s.uid ∨ HasActive st.sessions t.uid := by
  rw [removeSession_some hs]
  constructor
  · intro h' k t hk ht
    by_cases hu : t.uid = s.uid
    · exact Or.inl hu
    refine Or.inr ?_
    -- the heir's owner is a user whom the removal leaves alone
    obtain ⟨user, huser⟩ := hc.user_of_session ht
    have hafter := h' t.uid user (by rw [lookup_leaveUser, if_neg hu, huser])
    refine ((h t.uid user huser).congr_iff.1 hafter).1 ?_
    exact (hasActive_remaining hs fun e => hu e.symm).2 (Or.inr ⟨k, t, hk, ht, rfl⟩)
  · intro hok uid user huser
    rw [lookup_leaveUser] at huser
    split at huser
    · next hu =>
      subst hu
      obtain ⟨old, hold, huser⟩ := Option.bind_eq_some_iff.1 huser
      split at huser
      · cases huser
      · cases huser
        exact follows_leave (hc.users _ old hold) fun k => owned_modifyAt fun _ => Iff.rfl
    · next hu =>
      refine (h uid user huser).congr_iff.2 ?_
      rw [hasActive_remaining hs fun e => hu e.symm]
      refine or_iff_left_of_imp ?_
      rintro ⟨k, t, hk, ht, rfl⟩
      exact (hok k t hk ht).resolve_left hu

end Remove

-- ==== activate_session

section Activate

variable {s : Session} {seatId : SeatId}

/-- The session that has to leave the foreground is active. -/
theorem Consistent.outgoing_active (hc : st.Consistent) {old : SessionId}
    (hold : st.outgoing seatId id = some old) :
    old ≠ id ∧ ∃ o, st.sessions.lookup old = some o ∧ o.state = .active := by
  obtain ⟨hold, hne⟩ := Option.filter_eq_some_iff.1 hold
  obtain ⟨seat, hseat, hactive⟩ := Option.bind_eq_some_iff.1 hold
  have hok := hc.seats seatId seat hseat
  obtain ⟨o, ho, hon⟩ := (hok.lists.2 old).1 (hok.active_mem old hactive)
  exact ⟨of_decide_eq_true hne, o, ho, (hok.foreground old o ho hon).2.2 hactive⟩

/-- After an activation the owner is active, and the owners of the active
sessions that are not lowered. -/
theorem hasActive_activate (hs : st.sessions.lookup id = some s)
    (hseat : s.seat = some seatId) (uid : Nat) :
    HasActive (st.activateSession id).sessions uid ↔ s.uid = uid
      ∨ ∃ k, st.outgoing seatId id ≠ some k
        ∧ Owned st.sessions (fun s => s.uid = uid ∧ s.state = .active) k := by
  have huid : ((st.sessions.modifyAt (st.outgoing seatId id) Session.lower).lookup id).map
      (·.uid) = some s.uid := by
    rw [HashMap.map_lookup_modifyAt (f := Session.lower) (g := (·.uid)) fun _ => rfl, hs]
    rfl
  obtain ⟨t, ht, htuid⟩ := Option.map_eq_some_iff.1 huid
  rw [activateSession_some hs hseat, activated, hasActive_raise, hasActive_lower, or_comm]
  refine or_congr_left ⟨?_, fun hu => ⟨id, t, rfl, ht, htuid.trans hu⟩⟩
  rintro ⟨k, t', hk, ht', hu⟩
  cases hk
  rw [ht] at ht'
  injection ht' with ht'
  rw [← htuid, ht', hu]

/-- `activate_session` writes no user. -/
theorem users_activateSession : (st.activateSession id).users = st.users := by
  rcases st.activateSession_cases id with ⟨hidle, -⟩ | ⟨s, seatId, -, -, hrun⟩
  · rw [hidle]
  · rw [hrun]
    rfl

/-- Activating a session keeps the states right exactly if its owner is
active already and the owner of the session it replaces stays active. -/
theorem statesFollow_activate (h : st.StatesFollow) (hc : st.Consistent)
    (hs : st.sessions.lookup id = some s) (hseat : s.seat = some seatId) :
    (st.activateSession id).StatesFollow
      ↔ HasActive st.sessions s.uid
        ∧ ∀ old o, st.outgoing seatId id = some old → st.sessions.lookup old = some o →
          o.uid = s.uid ∨ ∃ k, k ≠ old
            ∧ Owned st.sessions (fun s => s.uid = o.uid ∧ s.state = .active) k := by
  have hactive := hasActive_activate hs hseat
  have hcongr : ∀ {uid user}, st.users.lookup uid = some user →
      (Follows (st.activateSession id).sessions uid user
        ↔ (HasActive (st.activateSession id).sessions uid ↔ HasActive st.sessions uid)) :=
    fun hu => (h _ _ hu).congr_iff
  constructor
  · intro h'
    unfold StatesFollow at h'
    rw [users_activateSession] at h'
    refine ⟨?_, fun old o hold ho => ?_⟩
    · obtain ⟨user, hu⟩ := hc.user_of_session hs
      exact ((hcongr hu).1 (h' _ _ hu)).1 ((hactive s.uid).2 (Or.inl rfl))
    · obtain ⟨-, o', ho', hstate⟩ := hc.outgoing_active hold
      rw [ho] at ho'
      injection ho' with ho'
      obtain ⟨user, hu⟩ := hc.user_of_session ho
      have hafter := ((hcongr hu).1 (h' _ _ hu)).2 ⟨old, o, ho, rfl, ho' ▸ hstate⟩
      refine ((hactive o.uid).1 hafter).imp (fun e => e.symm) ?_
      rintro ⟨k, hk, hown⟩
      exact ⟨k, fun e => hk (e ▸ hold), hown⟩
  · rintro ⟨hgains, hloses⟩ uid user hu
    rw [users_activateSession] at hu
    refine (hcongr hu).2 ((hactive uid).trans ⟨?_, ?_⟩)
    · rintro (rfl | ⟨k, -, hown⟩)
      · exact hgains
      · exact ⟨k, hown⟩
    · rintro ⟨k, hown⟩
      by_cases hk : st.outgoing seatId id = some k
      · obtain ⟨o, ho, hou, -⟩ := hown
        subst hou
        refine (hloses k o hk ho).imp (fun e => e.symm) ?_
        rintro ⟨k', hk', hown'⟩
        refine ⟨k', fun e => hk' ?_, hown'⟩
        rw [hk] at e
        exact (Option.some.inj e).symm
      · exact Or.inr ⟨k, hk, hown⟩

end Activate

-- ==== the runs

/-- Nobody becomes active, or stops being active, whose state the
operation does not write. -/
def KeepsStates (st : LoginState) : Op → Prop
  | .create _ _ _ _ => True
  | .remove id => ∀ s, st.sessions.lookup id = some s →
      ∀ k t, st.heir s id = some k → st.sessions.lookup k = some t →
        t.uid = s.uid ∨ HasActive st.sessions t.uid
  | .activate id => ∀ s seatId, st.sessions.lookup id = some s → s.seat = some seatId →
      HasActive st.sessions s.uid
        ∧ ∀ old o, st.outgoing seatId id = some old → st.sessions.lookup old = some o →
          o.uid = s.uid ∨ ∃ k, k ≠ old
            ∧ Owned st.sessions (fun s => s.uid = o.uid ∧ s.state = .active) k

/-- A step keeps the states right exactly if it writes every state that it
changes. -/
theorem statesFollow_step (st : LoginState) (op : Op) (hc : st.Consistent)
    (hfresh : st.Fresh op) (h : st.StatesFollow) :
    (st.apply op).StatesFollow ↔ st.KeepsStates op := by
  cases op with
  | create id r nowUsec nowMonotonic =>
    exact iff_of_true (h.createSession hc hfresh nowUsec nowMonotonic) True.intro
  | remove id =>
    show (st.removeSession id).StatesFollow ↔ _
    cases hs : st.sessions.lookup id with
    | none =>
      rw [removeSession_none hs]
      exact iff_of_true h fun s hs' => nomatch hs.symm.trans hs'
    | some s =>
      rw [statesFollow_remove h hc hs]
      refine ⟨fun hok s' hs' => ?_, fun hok => hok s hs⟩
      cases hs.symm.trans hs'
      exact hok
  | activate id =>
    show (st.activateSession id).StatesFollow ↔ _
    rcases st.activateSession_cases id with ⟨hidle, hnone⟩ | ⟨s, seatId, hs, hseat, -⟩
    · rw [hidle]
      refine iff_of_true h fun s seatId hs hseat => ?_
      rw [hnone s hs] at hseat
      cases hseat
    · rw [statesFollow_activate h hc hs hseat]
      refine ⟨fun hok s' seatId' hs' hseat' => ?_, fun hok => hok s seatId hs hseat⟩
      cases hs.symm.trans hs'
      cases hseat.symm.trans hseat'
      exact hok

/-- Nobody is logged in. -/
theorem init_statesFollow : new.createSeat0.StatesFollow := by
  intro uid user huser
  cases huser

/-- In every run of the three operations the states of the users follow
those of their sessions all along exactly if no step makes a user active,
or ends it, whose state it does not write. -/
theorem userStates_follow_iff (ops : List Op) (hfresh : Allowed apply Fresh new.createSeat0 ops) :
    (∀ pre, pre <+: ops → (pre.foldl apply new.createSeat0).StatesFollow)
      ↔ Allowed apply KeepsStates new.createSeat0 ops :=
  (allowed_iff_kept (fun _ _ hc hfresh => hc.apply hfresh) statesFollow_step ops
    _ init_consistent init_statesFollow hfresh).symm

/-- One user with two sessions on `seat0` who switches to the second one
and closes it. -/
def oneUserSwitches : List Op :=
  [.create "1" (seat0Request 1000 50) 0 0, .create "2" (seat0Request 1000 60) 1 1,
    .activate "2", .remove "2"]

theorem oneUserSwitches_follow : Allowed apply Fresh new.createSeat0 oneUserSwitches
    ∧ ∀ pre, pre <+: oneUserSwitches → (pre.foldl apply new.createSeat0).StatesFollow := by
  have hfresh : Allowed apply Fresh new.createSeat0 oneUserSwitches := by decide
  refine ⟨hfresh, (userStates_follow_iff oneUserSwitches hfresh).2
    ⟨True.intro, True.intro, ?_, ?_, True.intro⟩⟩
  · intro s seatId hs hseat
    cases hs
    cases hseat
    refine ⟨⟨"1", _, rfl, rfl, rfl⟩, fun old o hold ho => Or.inl ?_⟩
    cases hold
    cases ho
    rfl
  · intro s hs k t hk ht
    cases hs
    cases hk
    cases ht
    exact Or.inl rfl

/-- Two users on `seat0`; the second one's session is activated. -/
def secondActivated : LoginState :=
  ((new.createSeat0.createSession "1" (seat0Request 1000 50) 0 0).createSession
    "2" (seat0Request 1001 60) 1 1).activateSession "2"

/-- The user in the foreground is still online, and the one who left it
still active; behind a logout the next user is not even told. -/
theorem switched_users_stale : (Reachable secondActivated ∧ ¬ secondActivated.StatesFollow
      ∧ (secondActivated.users.lookup 1001).map (·.state) = some .online
      ∧ (secondActivated.sessions.lookup "2").map (·.state) = some .active
      ∧ (secondActivated.users.lookup 1000).map (·.state) = some .active
      ∧ (secondActivated.sessions.lookup "1").map (·.state) = some .online)
    ∧ Reachable secondTakesOver ∧ ¬ secondTakesOver.StatesFollow := by
  refine ⟨⟨.activate "2" (.create _ 1 1 (.create _ 0 0 .init (by decide)) (by decide)),
    fun h => ?_, by decide, by decide, by decide, by decide⟩, secondTakesOver_reachable,
    fun h => ?_⟩
  · have hstate := (h 1001 _ rfl).1 ⟨"2", _, rfl, rfl, rfl⟩
    revert hstate
    decide
  · have hstate := (h 1001 _ rfl).1 ⟨"2", _, rfl, rfl, rfl⟩
    revert hstate
    decide

end LoginState

end Dynamod.Logind
