/-
Who holds the devices, and who is in the foreground.

The devices change hands as a whole: from nodes that one user holds, a
row of ownership steps leads to nodes that the user of its last step
holds (`HeldBy.steps`, given that chown succeeds). So a part of a
method is right about the devices if `lastUid` of the steps it leaves,
starting from the foreground before, is the foreground after
(`HandsOver`). It is proved here for the critical sections of
`manager.rs`, in every state with the one seat the daemon creates
(`Seated`).
-/
import Dynamod.Logind.Manager
import Dynamod.Logind.Proofs.Sessions

namespace Dynamod.Logind

open Lib

variable {uid : Nat} {sid : SeatId} {id : SessionId} {s : Session} {r : SessionRequest}
  {call : CreateCall} {a : CreateAnswers}

-- ==== the devices' owner

def ownerOf (nodes : Nodes) (path : String) : Option Nat :=
  (nodes.lookup path).map (·.owner)

/-- The user holds every device of the seat. -/
def Devfs.HeldBy (fs : Devfs) (nodes : Nodes) (uid : Nat) : Prop :=
  ∀ d ∈ fs.enumerateSessionDevices "seat0", ownerOf nodes d.1 = some uid

/-- No chown fails. -/
def Devfs.ChownSucceeds (fs : Devfs) : Prop := ∀ path, fs.chown path = true

/-- Who holds the devices after some ownership steps. -/
def lastUid (uid : Nat) (steps : List AclStep) : Nat :=
  steps.foldl (fun _ step => step.uid) uid

/-- Steps compose. -/
theorem lastUid_append (uid : Nat) (steps more : List AclStep) :
    lastUid uid (steps ++ more) = lastUid (lastUid uid steps) more :=
  List.foldl_append

/-- From a first step on it does not matter who held the devices. -/
theorem lastUid_of_ne_nil {steps : List AclStep} (h : steps ≠ []) (uid uid' : Nat) :
    lastUid uid steps = lastUid uid' steps := by
  cases steps with
  | nil => exact absurd rfl h
  | cons step steps => rfl

section Devices

variable {fs : Devfs} (hchown : fs.ChownSucceeds)
include hchown

/-- A chown that succeeds changes the owner of its node alone. -/
private theorem ownerOf_chown (nodes : Nodes) (path k : String) (uid mode : Nat) :
    ownerOf (fs.chownAndChmod nodes path (some uid) none mode) k
      = if k = path then (ownerOf nodes k).map fun _ => uid
        else ownerOf nodes k := by
  unfold Devfs.chownAndChmod ownerOf
  rw [if_pos (hchown path)]
  by_cases hk : k = path
  · subst hk
    rw [if_pos rfl]
    split
    · rw [HashMap.lookup_modify, if_pos rfl, HashMap.lookup_modify, if_pos rfl,
        Option.map_map, Option.map_map, Option.map_map]
      rfl
    · rw [HashMap.lookup_modify, if_pos rfl, Option.map_map, Option.map_map]
      rfl
  · rw [if_neg hk]
    split
    · rw [HashMap.lookup_modify, if_neg hk, HashMap.lookup_modify, if_neg hk]
    · rw [HashMap.lookup_modify, if_neg hk]

/-- The loop over the devices of a seat. -/
private theorem ownerOf_foldl (uid : Nat) (devices : List (String × Nat))
    (nodes : Nodes) (k : String) : ownerOf (devices.foldl
        (fun nodes d => fs.chownAndChmod nodes d.1 (some uid) none d.2) nodes) k
      = if k ∈ devices.map Prod.fst then (ownerOf nodes k).map fun _ => uid
        else ownerOf nodes k := by
  induction devices generalizing nodes with
  | nil => rw [List.map_nil, if_neg List.not_mem_nil, List.foldl_nil]
  | cons d devices ih =>
    rw [List.foldl_cons, ih, ownerOf_chown hchown, List.map_cons]
    by_cases hd : k = d.1
    · rw [if_pos hd, Option.map_map, if_pos (List.mem_cons.2 (Or.inl hd))]
      exact ite_self _
    · rw [if_neg hd]
      simp only [List.mem_cons, hd, false_or]

/-- A step hands all the devices over. -/
theorem Devfs.HeldBy.step {nodes : Nodes} (h : fs.HeldBy nodes uid)
    (step : AclStep) : fs.HeldBy (step.run fs nodes) step.uid := by
  have hrun : step.run fs nodes = fs.giveTo nodes "seat0" step.uid := by
    cases step with
    | revert seatId => rfl
    | apply seatId uid => rfl
  intro d hd
  rw [hrun]
  refine (ownerOf_foldl hchown _ _ nodes d.1).trans ?_
  rw [if_pos (List.mem_map_of_mem hd), h d hd]
  rfl

/-- The user of the last step holds the devices. -/
theorem Devfs.HeldBy.steps {nodes : Nodes} (h : fs.HeldBy nodes uid) (steps : List AclStep) :
    fs.HeldBy (steps.foldl (AclStep.run fs) nodes) (lastUid uid steps) := by
  induction steps generalizing nodes uid with
  | nil => exact h
  | cons step steps ih => exact ih (h.step hchown step)

end Devices

-- ==== the foreground

namespace LoginState

def uidOf (st : LoginState) (id : SessionId) : Option Nat :=
  (st.sessions.lookup id).map (·.uid)

/-- The session in the foreground of a seat. -/
def activeOf (st : LoginState) (sid : SeatId) : Option SessionId :=
  (st.seats.lookup sid).bind (·.activeSession)

/-- The user who should hold the devices: the one in the foreground of
`seat0`, or root. -/
def foregroundUid (st : LoginState) : Nat :=
  ((st.activeOf "seat0").bind st.uidOf).getD 0

/-- The indexes are right, and everything happens on `seat0`. -/
structure Seated (st : LoginState) : Prop where
  consistent : st.Consistent
  mem_seats : ∀ sid, sid ∈ st.seats ↔ sid = "seat0"
  placed : ∀ id s sid, st.sessions.lookup id = some s → s.seat = some sid →
    sid = "seat0"

end LoginState

open LoginState

theorem activeUid_eq (st : LoginState) (sid : SeatId) :
    activeUid st (some sid) = (st.activeOf sid).bind st.uidOf := by
  unfold activeUid LoginState.activeOf
  rw [Option.bind_some, Option.map_bind]
  rfl

namespace LoginState

/-- The daemon starts with `seat0` alone. -/
theorem seated_init : new.createSeat0.Seated := by
  refine ⟨init_consistent, fun sid => ?_, fun id s sid hs => ?_⟩
  · unfold createSeat0
    rw [Finmap.mem_insert]
    exact or_iff_left Finmap.notMem_empty
  · cases hs

section Readings

variable {st : LoginState}

/-- `seat0` is always there, and its index is right. -/
theorem Seated.seat (h : st.Seated) : ∃ seat, st.seats.lookup "seat0" = some seat
    ∧ SeatOk st.sessions "seat0" seat := by
  have hmem := (h.mem_seats "seat0").2 rfl
  obtain ⟨seat, hseat⟩ := Finmap.mem_iff.1 hmem
  exact ⟨seat, hseat, h.consistent.seats _ _ hseat⟩

theorem activeOf_eq {seat : Seat}
    (h : st.seats.lookup sid = some seat) : st.activeOf sid = seat.activeSession := by
  unfold activeOf
  rw [h, Option.bind_some]

/-- Who is in the foreground is in the table, on that seat. -/
theorem Seated.active_owned (h : st.Seated) (hid : st.activeOf "seat0" = some id) :
    Owned st.sessions (fun s => s.seat = some "seat0") id := by
  obtain ⟨seat, hseat, hok⟩ := h.seat
  rw [activeOf_eq hseat] at hid
  exact (hok.lists.2 id).1 (hok.active_mem id hid)

theorem foregroundUid_eq (hactive : st.activeOf "seat0" = some id)
    (huid : st.uidOf id = some uid) : st.foregroundUid = uid := by
  unfold foregroundUid
  rw [hactive, Option.bind_some, huid, Option.getD_some]

/-- The foreground is the same if the pointer is, and the session there
keeps its user. -/
theorem foregroundUid_congr {st' : LoginState}
    (hactive : st'.activeOf "seat0" = st.activeOf "seat0")
    (huid : ∀ id, st.activeOf "seat0" = some id → st'.uidOf id = st.uidOf id) :
    st'.foregroundUid = st.foregroundUid := by
  unfold foregroundUid
  rw [hactive]
  cases h : st.activeOf "seat0" with
  | none => rfl
  | some id => rw [Option.bind_some, Option.bind_some, huid id h]

end Readings

-- ---- what sessions keep

section Tables

variable {st : LoginState} {A : Type} {f : Session → A}

/-- A removal takes one session out of the table and raises another. -/
theorem map_lookup_remove (hf : ∀ s : Session, f s.raise = f s) (id k : SessionId) :
    ((st.removeSession id).sessions.lookup k).map f
      = if k = id then none else (st.sessions.lookup k).map f := by
  cases hs : st.sessions.lookup id with
  | none =>
    rw [removeSession_none hs]
    split
    · next hk => rw [hk, hs, Option.map_none]
    · rfl
  | some s =>
    rw [removeSession_some hs, remaining, HashMap.map_lookup_modifyAt hf,
      HashMap.lookup_erase_ite, apply_ite (Option.map f), Option.map_none]

/-- An activation only raises and lowers. -/
theorem map_lookup_activate (hraise : ∀ s : Session, f s.raise = f s)
    (hlower : ∀ s : Session, f s.lower = f s) (id k : SessionId) :
    ((st.activateSession id).sessions.lookup k).map f
      = (st.sessions.lookup k).map f := by
  rcases st.activateSession_cases id with ⟨hidle, -⟩ | ⟨s, sid, -, -, hrun⟩
  · rw [hidle]
  · rw [hrun, activated, HashMap.map_lookup_modifyAt hraise, HashMap.map_lookup_modifyAt hlower]

end Tables

section Operations

variable {st : LoginState} {id k : SessionId}

theorem uidOf_eq (hs : st.sessions.lookup id = some s) : st.uidOf id = some s.uid := by
  rw [uidOf, hs, Option.map_some]

theorem uidOf_create (r : SessionRequest) (nowUsec nowMonotonic : Nat) :
    (st.createSession id r nowUsec nowMonotonic).uidOf k
      = if k = id then some r.uid else st.uidOf k := by
  unfold uidOf createSession
  rw [HashMap.lookup_insert_ite]
  split
  · rfl
  · rfl

theorem uidOf_remove : (st.removeSession id).uidOf k = if k = id then none else st.uidOf k :=
  map_lookup_remove (fun _ => rfl) id k

theorem uidOf_activate : (st.activateSession id).uidOf k = st.uidOf k :=
  map_lookup_activate (fun _ => rfl) (fun _ => rfl) id k

/-- A session that keeps its seat. -/
private theorem seat_of_map {m m' : HashMap SessionId Session}
    (h : (m'.lookup k).map (·.seat) = (m.lookup k).map (·.seat))
    (hs : m'.lookup k = some s) : ∃ t, m.lookup k = some t ∧ t.seat = s.seat := by
  rw [hs, Option.map_some] at h
  exact Option.map_eq_some_iff.1 h.symm

/-- A login on `seat0` keeps the daemon there. -/
theorem Seated.create (h : st.Seated) (hfresh : id ∉ st.sessions)
    (hr : r.seatId = some "seat0") (nowUsec nowMonotonic : Nat) :
    (st.createSession id r nowUsec nowMonotonic).Seated := by
  refine ⟨h.consistent.createSession hfresh _ _,
    fun sid => HashMap.mem_modifyAt.trans (h.mem_seats sid), fun k s sid hs hsid => ?_⟩
  change (st.sessions.insert id _).lookup k = _ at hs
  rw [HashMap.lookup_insert_ite] at hs
  split at hs
  · cases hs
    exact Option.some.inj (hsid.symm.trans hr)
  · exact h.placed k s sid hs hsid

/-- A removal makes no seat and moves no session. -/
theorem Seated.remove (h : st.Seated) (id : SessionId) : (st.removeSession id).Seated := by
  refine ⟨h.consistent.removeSession id, fun sid => ?_, fun k s sid hs hsid => ?_⟩
  · rw [← h.mem_seats sid]
    cases hs : st.sessions.lookup id with
    | none => rw [removeSession_none hs]
    | some s =>
      rw [removeSession_some hs]
      exact HashMap.mem_modifyAt
  · have hseat : ((st.removeSession id).sessions.lookup k).map Session.seat
        = if k = id then none else (st.sessions.lookup k).map Session.seat :=
      map_lookup_remove (fun _ => rfl) id k
    split at hseat
    · rw [hs] at hseat
      cases hseat
    · obtain ⟨t, ht, hts⟩ := seat_of_map hseat hs
      exact h.placed k t sid ht (hts.trans hsid)

/-- Nor does an activation. -/
theorem Seated.activate (h : st.Seated) (id : SessionId) : (st.activateSession id).Seated := by
  refine ⟨h.consistent.activateSession id, fun sid => ?_, fun k s sid hs hsid => ?_⟩
  · rw [← h.mem_seats sid]
    rcases st.activateSession_cases id with ⟨hidle, -⟩ | ⟨s, sid', -, -, hrun⟩
    · rw [hidle]
    · rw [hrun]
      exact HashMap.mem_modify
  · obtain ⟨t, ht, hts⟩ := seat_of_map
      (map_lookup_activate (fun _ => rfl) (fun _ => rfl) id k) hs
    exact h.placed k t sid ht (hts.trans hsid)

-- ---- who is logged in

/-- The users are the owners of the sessions. -/
theorem Seated.mem_users_iff (h : st.Seated) (uid : Nat) :
    uid ∈ st.users ↔ ∃ id, st.uidOf id = some uid := by
  rw [h.consistent.users_iff]
  refine exists_congr fun id => ?_
  unfold uidOf
  rw [Option.map_eq_some_iff]
  rfl

theorem Seated.users_create (h : st.Seated) (hfresh : id ∉ st.sessions)
    (hr : r.seatId = some "seat0") {nowUsec nowMonotonic : Nat}
    (huid : uid ∈ (st.createSession id r nowUsec nowMonotonic).users) :
    uid ∈ st.users ∨ r.uid = uid := by
  rw [(h.create hfresh hr _ _).mem_users_iff] at huid
  obtain ⟨k, hk⟩ := huid
  rw [uidOf_create] at hk
  split at hk
  · exact Or.inr (Option.some.inj hk)
  · exact Or.inl ((h.mem_users_iff uid).2 ⟨k, hk⟩)

theorem Seated.users_remove (h : st.Seated)
    (huid : uid ∈ (st.removeSession id).users) : uid ∈ st.users := by
  rw [(h.remove id).mem_users_iff] at huid
  obtain ⟨k, hk⟩ := huid
  rw [uidOf_remove] at hk
  split at hk
  · cases hk
  · exact (h.mem_users_iff uid).2 ⟨k, hk⟩

theorem Seated.users_activate (h : st.Seated)
    (huid : uid ∈ (st.activateSession id).users) : uid ∈ st.users := by
  rw [(h.activate id).mem_users_iff] at huid
  obtain ⟨k, hk⟩ := huid
  exact (h.mem_users_iff uid).2 ⟨k, uidOf_activate.symm.trans hk⟩

-- ---- the pointer

/-- A session that was not on the seat leaves nothing behind. -/
theorem leave_eq_self {seat : Seat}
    (hok : SeatOk st.sessions sid seat) (hid : id ∉ seat.sessions) : seat.leave id = seat := by
  have hlist : (seat.sessions.filter fun s => s ≠ id) = seat.sessions := by
    refine List.filter_eq_self.2 fun a ha => decide_eq_true ?_
    exact fun e => hid (e ▸ ha)
  unfold Seat.leave
  dsimp only
  rw [hlist, if_neg fun ha => hid (hok.active_mem id ha)]

/-- A removal leaves the seat's record, also of a session that is not there. -/
theorem Seated.lookup_remove (h : st.Seated) {seat : Seat}
    (hseat : st.seats.lookup "seat0" = some seat) (id : SessionId) :
    (st.removeSession id).seats.lookup "seat0" = some (seat.leave id) := by
  have hok := h.consistent.seats _ _ hseat
  cases hs : st.sessions.lookup id with
  | none =>
    rw [removeSession_none hs]
    refine hseat.trans (congrArg some (leave_eq_self hok fun hmem => ?_).symm)
    obtain ⟨s, hs', -⟩ := (hok.lists.2 id).1 hmem
    rw [hs] at hs'
    cases hs'
  | some s =>
    rw [removeSession_some hs, HashMap.lookup_modifyAt, hseat]
    split
    · rfl
    · next hsid =>
      refine congrArg some (leave_eq_self hok fun hmem => hsid ?_).symm
      exact ((hok.lists.2 id).1 hmem).holds hs

/-- The session that is activated is in the foreground. -/
theorem Seated.activeOf_activate (h : st.Seated) (hs : st.sessions.lookup id = some s)
    (hsid : s.seat = some sid) : (st.activateSession id).activeOf "seat0" = some id := by
  obtain ⟨seat, hseat, -⟩ := h.seat
  have hsid0 := h.placed id s sid hs hsid
  rw [activateSession_some hs hsid, activeOf, activated, HashMap.lookup_modify,
    if_pos hsid0.symm, hsid0, hseat]
  rfl

end Operations

end LoginState

-- ==== the critical sections

/-- A change of the login state with the ownership steps that go with
it: the devices end up with the user in the foreground. -/
structure HandsOver (st st' : LoginState) (steps : List AclStep) : Prop where
  seated : st'.Seated
  owner : lastUid st.foregroundUid steps = st'.foregroundUid

namespace HandsOver

variable {st st₁ st₂ : LoginState} {steps more : List AclStep}

theorem refl (h : st.Seated) : HandsOver st st [] := ⟨h, rfl⟩

theorem trans (h : HandsOver st st₁ steps) (h' : HandsOver st₁ st₂ more) :
    HandsOver st st₂ (steps ++ more) := by
  refine ⟨h'.seated, ?_⟩
  rw [lastUid_append, h.owner, h'.owner]

end HandsOver

theorem aclSteps_map_acl (steps : List AclStep) : aclSteps (steps.map .acl) = steps := by
  unfold aclSteps
  rw [List.filterMap_map]
  exact List.filterMap_some

theorem aclSteps_append (effects more : List Effect) :
    aclSteps (effects ++ more) = aclSteps effects ++ aclSteps more :=
  List.filterMap_append

section Sections

variable {st : LoginState} (h : st.Seated)
include h

/-- In a state of the daemon every session gets `seat0`. -/
theorem chooseSeat_eq {seatId : String} {seat : Option SeatId}
    (hseat : chooseSeat st seatId = .ok seat) : seat = some "seat0" := by
  unfold chooseSeat at hseat
  rw [if_pos ((h.mem_seats "seat0").2 rfl)] at hseat
  split at hseat
  · injection hseat with hseat
    exact hseat.symm
  · split at hseat
    · next hin =>
      injection hseat with hseat
      rw [← hseat, (h.mem_seats seatId).1 hin]
    · cases hseat

/-- A new session on the seat: it gets the devices if it takes the
foreground. -/
theorem createOn_handsOver (hfresh : a.id ∉ st.sessions) : HandsOver st
    (createOn st call a (some "seat0")).login
      (aclSteps (createOn st call a (some "seat0")).after) := by
  obtain ⟨seat, hseat, hok⟩ := h.seat
  unfold createOn
  dsimp only
  generalize hreq : call.request (userInfoOr call.uid a.userInfo).1 (some "seat0") = r
  have hr : r.seatId = some "seat0" := by rw [← hreq]; rfl
  have huid : r.uid = call.uid := by rw [← hreq]; rfl
  refine ⟨h.create hfresh hr _ _, ?_⟩
  have hactive : (st.createSession a.id r a.nowUsec a.nowMonotonic).activeOf "seat0"
      = if seat.activeSession.isNone then some a.id else seat.activeSession := by
    unfold activeOf LoginState.createSession
    rw [HashMap.lookup_modifyAt, if_pos hr, hseat, hr, isFirstOnSeat_eq hseat]
    rfl
  have hflag : ((st.createSession a.id r a.nowUsec a.nowMonotonic).sessions.lookup
      a.id).map (·.active) = some seat.activeSession.isNone := by
    show ((st.sessions.insert a.id _).lookup a.id).map _ = _
    rw [Finmap.lookup_insert, hr, isFirstOnSeat_eq hseat]
    rfl
  rw [hflag, Option.getD_some]
  cases hidle : seat.activeSession with
  | none =>
    rw [hidle, Option.isNone_none, if_pos rfl] at hactive
    have hnew := foregroundUid_eq hactive ((uidOf_create r _ _).trans (if_pos rfl))
    rw [hnew, huid]
    rfl
  | some b =>
    rw [hidle, Option.isNone_some, if_neg Bool.false_ne_true] at hactive
    rw [Option.isNone_some, if_neg Bool.false_ne_true]
    have hb := (activeOf_eq hseat).trans hidle
    have hne : b ≠ a.id := by
      rintro rfl
      exact hok.active_ne_of_notMem hfresh hidle
    refine (foregroundUid_congr (hactive.trans hb.symm) fun k hk => ?_).symm
    obtain rfl := Option.some.inj (hb.symm.trans hk)
    rw [uidOf_create, if_neg hne]

theorem createLocked_eq {created : Created} (hcreated : createLocked st call a = .ok created) :
    created = createOn st call a (some "seat0") := by
  unfold createLocked at hcreated
  cases hseat : chooseSeat st call.seatId with
  | error e =>
    rw [hseat] at hcreated
    cases hcreated
  | ok seat =>
    rw [hseat, chooseSeat_eq h hseat] at hcreated
    injection hcreated with hcreated
    exact hcreated.symm

/-- A login that succeeds. -/
theorem createLocked_handsOver {created : Created} (hfresh : a.id ∉ st.sessions)
    (hcreated : createLocked st call a = .ok created) :
    HandsOver st created.login (aclSteps created.after) := by
  rw [createLocked_eq h hcreated]
  exact createOn_handsOver h hfresh

/-- After an activation the devices go to the session's user. -/
theorem activate_handsOver (id : SessionId) : HandsOver st (activateWithAclHandover st id).1
    (runAclHandover (activateWithAclHandover st id).2) := by
  unfold activateWithAclHandover
  cases hs : st.sessions.lookup id with
  | none => exact .refl h
  | some s =>
    dsimp only
    refine ⟨h.activate id, ?_⟩
    unfold runAclHandover
    rcases st.activateSession_cases id with ⟨hidle, hnone⟩ | ⟨s', sid, hs', hsid, -⟩
    · rw [hidle, hnone s hs]
      rfl
    · cases hs.symm.trans hs'
      rw [hsid]
      have huid : (st.activateSession id).uidOf id = some s.uid :=
        uidOf_activate.trans (uidOf_eq hs)
      rw [lastUid_append, foregroundUid_eq (h.activeOf_activate hs hsid) huid]
      rfl

/-- A session in the background goes unnoticed. -/
theorem foregroundUid_remove_other (hid : st.activeOf "seat0" ≠ some id) :
    (st.removeSession id).foregroundUid = st.foregroundUid := by
  obtain ⟨seat, hseat, -⟩ := h.seat
  have hactive := activeOf_eq hseat
  refine foregroundUid_congr ?_ fun k hk => ?_
  · rw [activeOf_eq (h.lookup_remove hseat id), hactive]
    exact if_neg (hactive ▸ hid)
  · rw [uidOf_remove, if_neg]
    rintro rfl
    exact hid hk

omit h in
/-- The ownership steps after the session in the foreground left lead
to who comes after it. -/
theorem lastUid_removalSteps (sid : SeatId) (uid : Nat) (newActiveUid : Option Nat) :
    lastUid uid (removalSteps true (some sid) uid newActiveUid)
      = newActiveUid.getD 0 := by
  unfold removalSteps
  rw [if_pos rfl, lastUid_append]
  cases newActiveUid with
  | none => rfl
  | some new =>
    dsimp only
    by_cases hnew : new = uid
    · subst hnew
      rw [if_neg fun h => h rfl, if_neg fun h => h rfl]
      rfl
    · rw [if_pos fun e => hnew (Option.some.inj e).symm, if_pos hnew]
      rfl

/-- A removal gives the devices to the next session, or to root. -/
theorem finalizeLocked_handsOver {f : Finalized}
    (hf : finalizeLocked st id = some f) : HandsOver st f.login f.after := by
  obtain ⟨s, hs, rfl⟩ := Option.map_eq_some_iff.1 hf
  refine ⟨h.remove id, ?_⟩
  dsimp only
  obtain ⟨seat, hseat, hok⟩ := h.seat
  have hactive := activeOf_eq hseat
  by_cases hid : st.activeOf "seat0" = some id
  · have hsid : s.seat = some "seat0" := (h.active_owned hid).holds hs
    have hflag : s.active = true :=
      (hok.foreground id s hs hsid).1.2 (hactive.symm.trans hid)
    rw [hflag, hsid, foregroundUid_eq hid (uidOf_eq hs), lastUid_removalSteps, activeUid_eq]
    rfl
  · -- a session in the background: nothing is handed over
    have hsteps : ∀ new, removalSteps s.active s.seat s.uid new = [] := by
      intro new
      unfold removalSteps
      split
      · next hflag =>
        cases hsid : s.seat with
        | none => rfl
        | some sid =>
          have hsid0 := h.placed id s sid hs hsid
          subst hsid0
          exact absurd (hactive.trans ((hok.foreground id s hs hsid).1.1 hflag)) hid
      · rfl
    rw [hsteps, foregroundUid_remove_other h hid]
    rfl

end Sections

-- ==== a seat with one card

/-- A graphics card is the only device. -/
def oneCard : Devfs :=
  { dri := some ["card0"], input := some [], snd := none,
    chown := fun _ => true, chmod := fun _ => true }

theorem oneCard_chownSucceeds : oneCard.ChownSucceeds := fun _ => rfl

/-- The node of the card, as the kernel makes it. -/
def rootNodes : Nodes :=
  Finmap.singleton "/dev/dri/card0" { owner := 0, group := 0, mode := 0o600 }

theorem rootNodes_heldBy : oneCard.HeldBy rootNodes 0 := by
  unfold Devfs.HeldBy
  decide

/-- A login on the console. -/
def consoleCall (uid pid : Nat) : CreateCall :=
  { uid := uid, pid := pid, service := "login", sessionType := "tty",
    sessionClass := "user", desktop := "", seatId := "seat0", vtnr := 1,
    tty := "tty1", display := "", remote := false, remoteUser := "",
    remoteHost := "" }

/-- What a login reads. -/
def answersFor (id : SessionId) : CreateAnswers :=
  { id := id, nowUsec := 0, nowMonotonic := 0, userInfo := none,
    runtimeDirectorySize := "10%" }

end Dynamod.Logind
