/-
The indexes of the login state agree with its session table.

`Consistent` takes the table as the truth: a seat's list is the
sessions whose `seat` names it, its foreground pointer is one of them
unless it has none, and the foreground flags of its sessions follow
the pointer (`SeatOk`); a user's list is the sessions with their `uid`
(`UserOk`), and the users are the owners of sessions.

The table changes in three ways: a fresh entry, an entry that leaves,
and flags that are raised or lowered. For each way there is one lemma
for the seat (or user) the entry belongs to and one for every other;
an operation is a few of them in a row.
-/
import Dynamod.Lib.Index
import Dynamod.Logind.State

namespace Dynamod.Logind

open Lib

/-- The seat's list, foreground pointer and flags agree with the
session table. -/
structure SeatOk (m : HashMap SessionId Session) (sid : SeatId)
    (seat : Seat) : Prop where
  lists : Indexes seat.sessions (Owned m fun s => s.seat = some sid)
  idle_iff : seat.activeSession = none ↔ seat.sessions = []
  active_mem : ∀ id, seat.activeSession = some id → id ∈ seat.sessions
  foreground : ∀ id s, m.lookup id = some s → s.seat = some sid →
    (s.active = true ↔ seat.activeSession = some id)
      ∧ (s.state = .active ↔ seat.activeSession = some id)

/-- The user's list and display session agree with the session
table. -/
structure UserOk (m : HashMap SessionId Session) (uid : Nat) (user : User) :
    Prop where
  nonempty : user.sessions ≠ []
  lists : Indexes user.sessions (Owned m fun s => s.uid = uid)
  display_mem : ∀ id, user.displaySession = some id → id ∈ user.sessions

-- ==== a seat

namespace SeatOk

variable {m : HashMap SessionId Session} {sid : SeatId} {seat : Seat}
  {id : SessionId} {s : Session}

/-- A session that is not in the table is not in the foreground. -/
theorem active_ne_of_notMem (h : SeatOk m sid seat) (hid : id ∉ m) :
    seat.activeSession ≠ some id := by
  intro ha
  obtain ⟨s, hs, -⟩ := (h.lists.2 id).1 (h.active_mem id ha)
  rw [Finmap.lookup_eq_none.2 hid] at hs
  cases hs

/-- A fresh session joins the seat, in the foreground if the seat was
idle. -/
theorem join (h : SeatOk m sid seat) (hid : id ∉ m) (hseat : s.seat = some sid)
    (hactive : s.active = seat.activeSession.isNone)
    (hstate : s.state = if seat.activeSession.isNone then .active else .online) :
    SeatOk (m.insert id s) sid (seat.join id seat.activeSession.isNone) := by
  have hne := h.active_ne_of_notMem hid
  refine ⟨h.lists.push hid hseat, ?_, fun a ha => ?_, fun a t ht htsid => ?_⟩
  · cases ha : seat.activeSession with
    | none => simp [Seat.join]
    | some a => simp [Seat.join, ha]
  · show a ∈ seat.sessions ++ [id]
    rw [List.mem_append, List.mem_singleton]
    cases hact : seat.activeSession with
    | none =>
      simp only [Seat.join, hact, Option.isNone_none, if_true] at ha
      injection ha with ha
      exact Or.inr ha.symm
    | some b =>
      simp only [Seat.join, hact, Option.isNone_some] at ha
      exact Or.inl (h.active_mem a (hact.trans ha))
  · rw [HashMap.lookup_insert_ite] at ht
    by_cases hk : a = id
    · subst hk
      rw [if_pos rfl] at ht
      cases ht
      rw [hactive, hstate]
      cases hact : seat.activeSession with
      | none => simp [Seat.join]
      | some b =>
        have hb : b ≠ a := fun hb => hne (hb ▸ hact)
        simp [Seat.join, hact, hb]
    · rw [if_neg hk] at ht
      have hold := h.foreground a t ht htsid
      cases hact : seat.activeSession with
      | none =>
        have hk' : ¬ id = a := fun e => hk e.symm
        rw [hact] at hold
        simpa [Seat.join, hk'] using hold
      | some b => simpa [Seat.join, hact] using hold

/-- A fresh session that is not for this seat. -/
theorem insert_other (h : SeatOk m sid seat) (hid : id ∉ m)
    (hseat : s.seat ≠ some sid) : SeatOk (m.insert id s) sid seat := by
  refine ⟨h.lists.insert_other hid hseat, h.idle_iff, h.active_mem, ?_⟩
  intro a t ht htsid
  rw [HashMap.lookup_insert_ite] at ht
  by_cases hk : a = id
  · rw [if_pos hk] at ht
    injection ht with ht
    exact absurd (ht ▸ htsid) hseat
  · rw [if_neg hk] at ht
    exact h.foreground a t ht htsid

/-- A session of another seat, or of none, leaves the table. -/
theorem erase_other (h : SeatOk m sid seat) (hid : ¬ Owned m (fun s => s.seat = some sid) id) :
    SeatOk (m.erase id) sid seat := by
  refine ⟨h.lists.erase_other hid, h.idle_iff, h.active_mem, ?_⟩
  intro a t ht htsid
  rw [HashMap.lookup_erase_ite] at ht
  split at ht
  · cases ht
  · exact h.foreground a t ht htsid

/-- The flags of a session of another seat change. -/
theorem modifyAt_other (h : SeatOk m sid seat) {o : Option SessionId}
    {f : Session → Session} (hf : ∀ s, (f s).seat = s.seat)
    (ho : ∀ k, o = some k → ¬ Owned m (fun s => s.seat = some sid) k) :
    SeatOk (m.modifyAt o f) sid seat := by
  refine ⟨h.lists.congr fun x => owned_modifyAt fun s => by rw [hf], h.idle_iff, h.active_mem, ?_⟩
  intro a t ht htsid
  rw [HashMap.lookup_modifyAt] at ht
  split at ht
  · next hk =>
    obtain ⟨u, hu, rfl⟩ := Option.map_eq_some_iff.1 ht
    exact absurd ⟨u, hu, (hf u).symm.trans htsid⟩ (ho a hk)
  · exact h.foreground a t ht htsid

/-- The seat's pointer after a session left it. -/
private theorem leave_active (seat : Seat) (id : SessionId) : (seat.leave id).activeSession
      = if seat.activeSession = some id
        then (seat.sessions.filter fun s => s ≠ id).head?
        else seat.activeSession := rfl

private theorem mem_leave {a : SessionId} :
    a ∈ (seat.leave id).sessions ↔ a ∈ seat.sessions ∧ a ≠ id := by
  show a ∈ seat.sessions.filter (fun s => s ≠ id) ↔ _
  rw [List.mem_filter, decide_eq_true_iff]

/-- The foreground session stays, unless it is the one that leaves. -/
private theorem leave_active_mem (h : SeatOk m sid seat) {a : SessionId}
    (ha : (seat.leave id).activeSession = some a) : a ∈ (seat.leave id).sessions := by
  rw [leave_active] at ha
  split at ha
  · exact List.mem_of_mem_head? ha
  · next hid => exact mem_leave.2 ⟨h.active_mem a ha, fun e => hid (e ▸ ha)⟩

private theorem leave_idle_iff (h : SeatOk m sid seat) :
    (seat.leave id).activeSession = none ↔ (seat.leave id).sessions = [] := by
  constructor
  · intro hnone
    rw [leave_active] at hnone
    split at hnone
    · exact List.head?_eq_none_iff.1 hnone
    · show seat.sessions.filter _ = []
      rw [h.idle_iff.1 hnone]
      rfl
  · intro hnil
    refine Option.eq_none_iff_forall_ne_some.2 fun a ha => ?_
    have hmem := h.leave_active_mem ha
    rw [hnil] at hmem
    cases hmem

/-- A session of the seat leaves, and the foreground is handed over. -/
theorem leave (h : SeatOk m sid seat) (id : SessionId) :
    SeatOk (HashMap.modifyAt (m.erase id) (seat.successor id) Session.raise)
      sid (seat.leave id) := by
  refine ⟨(h.lists.retain id).congr fun x => owned_modifyAt fun s => Iff.rfl,
    h.leave_idle_iff, fun a ha => h.leave_active_mem ha, fun a t ht htsid => ?_⟩
  · rw [HashMap.lookup_modifyAt, HashMap.lookup_erase_ite] at ht
    have hne : a ≠ id := by
      rintro rfl
      rw [if_pos rfl] at ht
      split at ht
      · cases ht
      · cases ht
    rw [if_neg hne] at ht
    by_cases hsucc : seat.successor id = some a
    · rw [if_pos hsucc] at ht
      obtain ⟨u, -, rfl⟩ := Option.map_eq_some_iff.1 ht
      have hact : (seat.leave id).activeSession = some a := by
        unfold Seat.successor at hsucc
        split at hsucc
        · exact hsucc
        · cases hsucc
      simp [Session.raise, hact]
    · rw [if_neg hsucc] at ht
      have hold := h.foreground a t ht htsid
      by_cases hid : seat.activeSession = some id
      · -- `id` was in the foreground, and `a` does not take over
        have hact : (seat.leave id).activeSession ≠ some a := by
          intro hact
          exact hsucc (by rw [Seat.successor, if_pos hid, hact])
        have hout : seat.activeSession ≠ some a := by
          rw [hid]
          exact fun e => hne (Option.some.inj e).symm
        exact ⟨(hold.1.trans (iff_of_false hout hact)), (hold.2.trans (iff_of_false hout hact))⟩
      · rw [leave_active, if_neg hid]
        exact hold

/-- A session of the seat is put in the foreground. -/
theorem activate (h : SeatOk m sid seat) (hid : Owned m (fun s => s.seat = some sid) id) :
    SeatOk ((m.modifyAt (seat.activeSession.filter fun old => old ≠ id)
        Session.lower).modify id Session.raise) sid { seat with activeSession := some id } := by
  have hmem : id ∈ seat.sessions := (h.lists.2 id).2 hid
  refine ⟨?_, ?_, fun a ha => ?_, fun a t ht htsid => ?_⟩
  · refine h.lists.congr fun x => ?_
    refine (owned_modifyAt (o := some id) (f := Session.raise) fun s => Iff.rfl).trans ?_
    exact owned_modifyAt fun s => Iff.rfl
  · constructor
    · intro hnone
      cases hnone
    · intro hnil
      change seat.sessions = [] at hnil
      rw [hnil] at hmem
      cases hmem
  · injection ha with ha
    exact ha ▸ hmem
  · rw [HashMap.lookup_modify] at ht
    by_cases hk : a = id
    · subst hk
      rw [if_pos rfl] at ht
      obtain ⟨u, -, rfl⟩ := Option.map_eq_some_iff.1 ht
      simp [Session.raise]
    · rw [if_neg hk, HashMap.lookup_modifyAt] at ht
      have hnew : some id ≠ some a := fun e => hk (Option.some.inj e).symm
      split at ht
      · obtain ⟨u, -, rfl⟩ := Option.map_eq_some_iff.1 ht
        simp [Session.lower, hnew]
      · next hold =>
        have hout : seat.activeSession ≠ some a := by
          intro ha
          refine hold ?_
          rw [ha]
          simp [hk]
        have hflags := h.foreground a t ht htsid
        exact ⟨hflags.1.trans (iff_of_false hout hnew), hflags.2.trans (iff_of_false hout hnew)⟩

end SeatOk

-- ==== a user

namespace UserOk

variable {m : HashMap SessionId Session} {uid : Nat} {user : User}
  {id : SessionId} {s : Session}

/-- A fresh session joins a user whose list is right so far; a user
that is new has no display session yet. -/
theorem join (hlist : Indexes user.sessions (Owned m fun s => s.uid = uid))
    (hdisplay : ∀ a, user.displaySession = some a → a ∈ user.sessions)
    (hid : id ∉ m) (huid : s.uid = uid) (first : Bool) :
    UserOk (m.insert id s) uid (user.join id first) := by
  refine ⟨List.append_ne_nil_of_right_ne_nil _ (List.cons_ne_nil id []),
    hlist.push hid huid, fun a ha => ?_⟩
  show a ∈ user.sessions ++ [id]
  rw [List.mem_append, List.mem_singleton]
  cases first with
  | true =>
    injection ha with ha
    exact Or.inr ha.symm
  | false => exact Or.inl (hdisplay a ha)

theorem insert_other (h : UserOk m uid user) (hid : id ∉ m)
    (huid : s.uid ≠ uid) : UserOk (m.insert id s) uid user :=
  ⟨h.nonempty, h.lists.insert_other hid huid, h.display_mem⟩

/-- A session leaves a user who keeps others. -/
theorem leave (h : UserOk m uid user) (id : SessionId) (m' : HashMap SessionId Session)
    (hkeeps : (user.leave id m').sessions ≠ []) : UserOk (m.erase id) uid (user.leave id m') := by
  refine ⟨hkeeps, h.lists.retain id, fun a ha => ?_⟩
  change (if user.displaySession = some id
    then (user.sessions.filter fun s => s ≠ id).head?
    else user.displaySession) = some a at ha
  show a ∈ user.sessions.filter fun s => s ≠ id
  split at ha
  · exact List.mem_of_mem_head? ha
  · next hid =>
    rw [List.mem_filter, decide_eq_true_iff]
    exact ⟨h.display_mem a ha, fun e => hid (e ▸ ha)⟩

theorem erase_other (h : UserOk m uid user)
    (hid : ¬ Owned m (fun s => s.uid = uid) id) : UserOk (m.erase id) uid user :=
  ⟨h.nonempty, h.lists.erase_other hid, h.display_mem⟩

theorem modifyAt (h : UserOk m uid user) {o : Option SessionId}
    {f : Session → Session} (hf : ∀ s, (f s).uid = s.uid) : UserOk (m.modifyAt o f) uid user :=
  ⟨h.nonempty, h.lists.congr fun x => owned_modifyAt fun s => by rw [hf], h.display_mem⟩

end UserOk

-- ==== the whole state

namespace LoginState

/-- The indexes agree with the session table. -/
structure Consistent (st : LoginState) : Prop where
  seats : ∀ sid seat, st.seats.lookup sid = some seat →
    SeatOk st.sessions sid seat
  users : ∀ uid user, st.users.lookup uid = some user →
    UserOk st.sessions uid user
  users_iff : ∀ uid, uid ∈ st.users ↔ ∃ id, Owned st.sessions (fun s => s.uid = uid) id

/-- The states the three operations lead to, session ids being fresh. -/
inductive Reachable : LoginState → Prop
  | init : Reachable new.createSeat0
  | create {st : LoginState} {id : SessionId} (r : SessionRequest)
      (nowUsec nowMonotonic : Nat) :
      Reachable st → id ∉ st.sessions →
      Reachable (st.createSession id r nowUsec nowMonotonic)
  | remove {st : LoginState} (id : SessionId) :
      Reachable st → Reachable (st.removeSession id)
  | activate {st : LoginState} (id : SessionId) :
      Reachable st → Reachable (st.activateSession id)

theorem init_consistent : new.createSeat0.Consistent := by
  have hempty : ∀ P id, ¬ Owned new.createSeat0.sessions P id := by
    rintro P id ⟨s, hs, -⟩
    cases hs
  refine ⟨fun sid seat h => ?_, fun uid user h => ?_, fun uid => ?_⟩
  · unfold createSeat0 at h
    rw [HashMap.lookup_insert_ite] at h
    split at h
    · cases h
      refine ⟨⟨List.nodup_nil, fun id => ?_⟩, iff_of_true rfl rfl, ?_, ?_⟩
      · exact iff_of_false List.not_mem_nil (hempty _ id)
      · intro id hid
        cases hid
      · intro id s hs
        cases hs
    · cases h
  · cases h
  · refine iff_of_false Finmap.notMem_empty ?_
    rintro ⟨id, h⟩
    exact hempty _ id h

-- ---- create_session

section Create

variable {st : LoginState} {id : SessionId} {r : SessionRequest}

/-- A session asks for a seat that exists: it comes first if the seat
is idle. -/
theorem isFirstOnSeat_eq {sid : SeatId} {seat : Seat} (hseat : st.seats.lookup sid = some seat) :
    st.isFirstOnSeat (some sid) = seat.activeSession.isNone := by
  unfold isFirstOnSeat
  rw [Option.bind_some, hseat]

/-- The user entry a session joins is right so far. -/
theorem Consistent.userOrNew (hc : st.Consistent) (r : SessionRequest) :
    Indexes ((st.users.lookup r.uid).getD (newUser r)).sessions
        (Owned st.sessions fun s => s.uid = r.uid)
      ∧ ∀ a, ((st.users.lookup r.uid).getD (newUser r)).displaySession = some a →
          a ∈ ((st.users.lookup r.uid).getD (newUser r)).sessions := by
  cases h : st.users.lookup r.uid with
  | some user =>
    have hok := hc.users r.uid user h
    exact ⟨hok.lists, hok.display_mem⟩
  | none =>
    refine ⟨⟨List.nodup_nil, fun a => iff_of_false List.not_mem_nil ?_⟩, ?_⟩
    · intro ha
      exact Finmap.lookup_eq_none.1 h ((hc.users_iff r.uid).2 ⟨a, ha⟩)
    · intro a ha
      cases ha

theorem Consistent.createSession (hc : st.Consistent)
    (hfresh : id ∉ st.sessions) (nowUsec nowMonotonic : Nat) :
    (st.createSession id r nowUsec nowMonotonic).Consistent := by
  refine ⟨fun sid seat h => ?_, fun uid user h => ?_, fun uid => ?_⟩
  · change (st.seats.modifyAt r.seatId _).lookup sid = _ at h
    rw [HashMap.lookup_modifyAt] at h
    split at h
    · next hr =>
      obtain ⟨old, hold, rfl⟩ := Option.map_eq_some_iff.1 h
      have hfirst : st.isFirstOnSeat r.seatId = old.activeSession.isNone := by
        rw [hr]
        exact isFirstOnSeat_eq hold
      rw [hfirst]
      exact (hc.seats sid old hold).join hfresh hr hfirst (by rw [← hfirst]; rfl)
    · next hr => exact (hc.seats sid seat h).insert_other hfresh hr
  · change (st.users.insert r.uid _).lookup uid = _ at h
    rw [HashMap.lookup_insert_ite] at h
    split at h
    · next hu =>
      subst hu
      cases h
      exact UserOk.join (hc.userOrNew r).1 (hc.userOrNew r).2 hfresh rfl _
    · next hu =>
      exact (hc.users uid user h).insert_other hfresh fun e => hu e.symm
  · show uid ∈ st.users.insert r.uid _ ↔ ∃ k, Owned (st.sessions.insert id _) _ k
    rw [Finmap.mem_insert, hc.users_iff uid]
    simp only [owned_insert hfresh, exists_or, exists_eq_left]
    rw [or_comm]
    exact or_congr_right eq_comm

end Create

-- ---- remove_session

section Remove

variable {st : LoginState} {id : SessionId}

/-- The user table loses the uid exactly when its last session left. -/
theorem lookup_leaveUser (users : HashMap Nat User) (uid uid' : Nat)
    (id : SessionId) (m : HashMap SessionId Session) : (leaveUser users uid id m).lookup uid'
      = if uid' = uid
        then (users.lookup uid).bind fun user =>
          if (user.leave id m).sessions = [] then none
          else some (user.leave id m)
        else users.lookup uid' := by
  unfold leaveUser
  cases h : users.lookup uid with
  | none =>
    by_cases hu : uid' = uid
    · rw [if_pos hu, hu, h]
      rfl
    · rw [if_neg hu]
  | some user =>
    dsimp only
    rw [Option.bind_some]
    split
    · rw [HashMap.lookup_erase_ite]
    · rw [HashMap.lookup_insert_ite]

/-- Who takes over in the foreground is on the seat that was left. -/
theorem Consistent.successor_on_seat (hc : st.Consistent) {o : Option SeatId}
    {next : SessionId} (hnext : (o.bind st.seats.lookup).bind (fun seat => seat.successor id)
      = some next) : ∃ s, st.sessions.lookup next = some s ∧ s.seat = o := by
  obtain ⟨seat, hseat, hsucc⟩ := Option.bind_eq_some_iff.1 hnext
  obtain ⟨sid, rfl, hseat⟩ := Option.bind_eq_some_iff.1 hseat
  have hok := hc.seats sid seat hseat
  have hmem : next ∈ (seat.leave id).sessions := by
    unfold Seat.successor at hsucc
    split at hsucc
    · exact (hok.leave id).active_mem next hsucc
    · cases hsucc
  exact (hok.lists.2 next).1 (List.mem_filter.1 hmem).1

/-- Who has a session is in the table of users. -/
theorem Consistent.user_of_session (hc : st.Consistent) {s : Session}
    (hs : st.sessions.lookup id = some s) : ∃ user, st.users.lookup s.uid = some user :=
  Finmap.mem_iff.1 ((hc.users_iff s.uid).2 ⟨id, s, hs, rfl⟩)

/-- A user the session belonged to stays in the table exactly if other
sessions of theirs are live. -/
theorem Consistent.leaveUser_iff (hc : st.Consistent) {s : Session}
    (hs : st.sessions.lookup id = some s) (m : HashMap SessionId Session) (uid : Nat) :
    uid ∈ leaveUser st.users s.uid id m
      ↔ ∃ k, Owned (st.sessions.erase id) (fun s => s.uid = uid) k := by
  rw [← Finmap.lookup_isSome, lookup_leaveUser]
  by_cases hu : uid = s.uid
  · subst hu
    obtain ⟨user, huser⟩ := hc.user_of_session hs
    have hlist := (hc.users s.uid user huser).lists.retain id
    rw [if_pos rfl, huser, Option.bind_some]
    have hsplit : (user.leave id m).sessions = []
        ↔ ¬ ∃ k, Owned (st.sessions.erase id) (fun t => t.uid = s.uid) k := by
      rw [List.eq_nil_iff_forall_not_mem, not_exists]
      exact forall_congr' fun k => not_congr (hlist.2 k)
    split
    · next hnil => exact iff_of_false (by simp) (hsplit.1 hnil)
    · next hnil => exact iff_of_true rfl (not_not.1 fun h => hnil (hsplit.2 h))
  · rw [if_neg hu, Finmap.lookup_isSome, hc.users_iff uid]
    refine exists_congr fun k => ?_
    rw [owned_erase]
    refine (and_iff_left_of_imp ?_).symm
    rintro hk rfl
    exact hu (hk.holds hs).symm

theorem Consistent.removeSession (hc : st.Consistent) (id : SessionId) :
    (st.removeSession id).Consistent := by
  unfold LoginState.removeSession
  cases hs : st.sessions.lookup id with
  | none => exact hc
  | some s =>
    refine ⟨fun sid seat h => ?_, fun uid user h => ?_, fun uid => ?_⟩
    · dsimp only at h ⊢
      rw [HashMap.lookup_modifyAt] at h
      split at h
      · next hsid =>
        obtain ⟨old, hold, rfl⟩ := Option.map_eq_some_iff.1 h
        rw [hsid, Option.bind_some, hold, Option.bind_some]
        exact (hc.seats sid old hold).leave id
      · next hsid =>
        refine ((hc.seats sid seat h).erase_other
          fun hid => hsid (hid.holds hs)).modifyAt_other (fun _ => rfl) ?_
        -- who takes over is on the seat that was left, not on this one
        intro k hk hk'
        obtain ⟨t, ht, hts⟩ := hc.successor_on_seat hk
        exact hsid (hts.symm.trans ((owned_erase.1 hk').1.holds ht))
    · dsimp only at h ⊢
      rw [lookup_leaveUser] at h
      split at h
      · next hu =>
        obtain ⟨old, hold, h⟩ := Option.bind_eq_some_iff.1 h
        split at h
        · cases h
        · next hkeeps =>
          injection h with h
          subst h hu
          exact ((hc.users _ old hold).leave id _ hkeeps).modifyAt fun _ => rfl
      · next hu =>
        exact ((hc.users uid user h).erase_other
          fun hid => hu (hid.holds hs).symm).modifyAt fun _ => rfl
    · dsimp only
      rw [hc.leaveUser_iff hs]
      exact exists_congr fun k =>
        (owned_modifyAt (f := Session.raise) fun t => Iff.rfl).symm

end Remove

-- ---- activate_session

theorem Consistent.activateSession {st : LoginState} (hc : st.Consistent)
    (id : SessionId) : (st.activateSession id).Consistent := by
  rcases st.activateSession_cases id with ⟨hidle, -⟩ | ⟨s, sid, hs, hsid, hrun⟩
  · rw [hidle]
    exact hc
  have hid : ∀ sid', Owned st.sessions (fun s => s.seat = some sid') id → sid' = sid := by
    intro sid' h
    exact Option.some.inj ((h.holds hs).symm.trans hsid)
  rw [hrun]
  refine ⟨fun sid' seat h => ?_, fun uid user h => ?_, fun uid => ?_⟩
  · dsimp only [activated] at h ⊢
    rw [HashMap.lookup_modify] at h
    split at h
    · next he =>
      subst he
      obtain ⟨old, hold, rfl⟩ := Option.map_eq_some_iff.1 h
      have hout : st.outgoing sid' id = old.activeSession.filter fun o => o ≠ id := by
        rw [outgoing, hold, Option.bind_some]
      rw [hout]
      exact (hc.seats sid' old hold).activate ⟨s, hs, hsid⟩
    · next he =>
      have hother := (hc.seats sid' seat h).modifyAt_other
        (o := st.outgoing sid id) (f := Session.lower) (fun _ => rfl) ?_
      · refine hother.modifyAt_other (o := some id) (fun _ => rfl) ?_
        intro k hk hk'
        cases hk
        exact he (hid sid' ((owned_modifyAt (f := Session.lower) fun _ => Iff.rfl).1 hk'))
      · -- who is lowered is in the foreground of `sid`
        intro k hk hk'
        obtain ⟨hk, -⟩ := Option.filter_eq_some_iff.1 hk
        obtain ⟨seat', hseat', hact⟩ := Option.bind_eq_some_iff.1 hk
        have hok := hc.seats sid seat' hseat'
        obtain ⟨t, ht, hts⟩ := (hok.lists.2 k).1 (hok.active_mem k hact)
        exact he (Option.some.inj ((hk'.holds ht).symm.trans hts))
  · exact ((hc.users uid user h).modifyAt (o := st.outgoing sid id)
      (f := Session.lower) fun _ => rfl).modifyAt (o := some id) fun _ => rfl
  · rw [activated, hc.users_iff uid]
    refine exists_congr fun k => Iff.symm ?_
    refine (owned_modifyAt (o := some id) (f := Session.raise) fun _ => Iff.rfl).trans ?_
    exact owned_modifyAt fun _ => Iff.rfl

-- ==== the run

/-- In every reachable state the seats and users index exactly the live
sessions, and the foreground flags follow the seats' pointers. -/
theorem reachable_consistent {st : LoginState} (h : Reachable st) : st.Consistent := by
  induction h with
  | init => exact init_consistent
  | create r nowUsec nowMonotonic _ hfresh ih =>
    exact ih.createSession hfresh nowUsec nowMonotonic
  | remove id _ ih => exact ih.removeSession id
  | activate id _ ih => exact ih.activateSession id

/-- A request for a session on `seat0`. -/
def seat0Request (uid leaderPid : Nat) : SessionRequest :=
  { uid := uid, userName := "user", leaderPid := leaderPid, service := "login",
    sessionType := "tty", sessionClass := "user", desktop := "",
    seatId := some "seat0", vtnr := 1, tty := none, display := none,
    remote := false, remoteUser := "", remoteHost := "" }

/-- Two users log in on `seat0`, and the first one logs out. -/
def secondTakesOver : LoginState :=
  ((new.createSeat0.createSession "1" (seat0Request 1000 50) 0 0).createSession
    "2" (seat0Request 1001 60) 1 1).removeSession "1"

theorem secondTakesOver_reachable : Reachable secondTakesOver :=
  .remove "1" (.create _ 1 1 (.create _ 0 0 .init (by decide)) (by decide))

theorem secondTakesOver_consistent : Reachable secondTakesOver ∧ secondTakesOver.Consistent
    ∧ (secondTakesOver.seats.lookup "seat0").bind (·.activeSession)
      = some "2" :=
  ⟨secondTakesOver_reachable, reachable_consistent secondTakesOver_reachable, by decide⟩

end LoginState

end Dynamod.Logind
