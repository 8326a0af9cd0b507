/-
Which limit bounds the restarts of a worker. A service definition has a
limit of its own (`max-restarts` within `max-restart-window`), and so
has its supervisor; `apply_strategy` reads only the supervisor's.

# Decisions and restarts

Every `apply_strategy` call is a decision, and every `start_worker` call
for an entry of `to_start` is a restart, dated by that call. Between the
two lie the delays of the action: the grace period after the stops with
the exits handled in it, and the `restart.delay` of every worker that is
started before. The history of the world holds both, with the decision
that each restart follows from.

# The invariant

A supervisor remembers the times of the decisions it recorded, and of
those the ones it granted a restart for never exceed its limit in any
window (`Metered`). A worker is restarted by decisions of its parent
alone, and at most once by each (`Performs`). So the restarts of a worker
are as many as decisions of its supervisor, and a window of restarts is a
window of decisions that is longer by as much as the delays differ. Where
the supervisor's limit covers that window, the worker's own limit is kept.
-/
import Dynamod.Svmgr.Proofs.Build
import Dynamod.Svmgr.Proofs.Intensity
import Dynamod.Svmgr.Proofs.Writes

namespace Dynamod.Svmgr

open Lib SupervisorTree RestartIntensity

variable {w w' : World}

/-- The decisions made so far. -/
abbrev World.decisions (w : World) : List Decision := w.history.decisions

-- ==== the decisions

variable {t : SupervisorTree} {sup child : NodeId} {exit : ExitInfo} {now : Instant}
  {s : SupervisorNode}

/-- A child that is not due for a restart: nothing is recorded, nothing
is done, and no supervisor changes. -/
theorem decision_not_due (now : Instant)
    (hdue : ((t.getSupervisor sup).isSome && t.shouldRestartChild child exit) = false) :
    t.decision sup child exit now = ⟨now, sup, false, {}⟩
      ∧ ∀ q, (t.applyStrategy sup child exit now).2.getSupervisor q
        = t.getSupervisor q := by
  obtain ⟨haction, hsups⟩ := applyStrategy_unrecorded now hdue
  refine ⟨?_, hsups⟩
  unfold SupervisorTree.decision
  rw [haction, hdue]
  rfl

/-- The action that follows from a recorded restart: none, or that of
the strategy. -/
def SupervisorNode.granted (s : SupervisorNode) (child : NodeId) (now : Instant) :
    StrategyAction :=
  if (s.intensity.recordRestartAt now).1 then {} else s.strategy.action s.children child

/-- A child that is due: its supervisor records a restart, and grants it
or gives up. -/
theorem decision_due (now : Instant) (hs : t.getSupervisor sup = some s)
    (hdue : t.shouldRestartChild child exit = true) :
    t.decision sup child exit now = ⟨now, sup, true, s.granted child now⟩
      ∧ ∀ q, (t.applyStrategy sup child exit now).2.getSupervisor q = if q = sup then
          some { s with intensity := (s.intensity.recordRestartAt now).2 }
        else t.getSupervisor q := by
  constructor
  · have haction : (t.applyStrategy sup child exit now).1
        = if (s.intensity.recordRestartAt now).1 then
            { toStop := s.children, supervisorFailed := true }
          else s.strategy.action s.children child := applyStrategy_action hs hdue
    unfold SupervisorTree.decision SupervisorNode.granted
    rw [haction, hs, hdue]
    cases (s.intensity.recordRestartAt now).1 with
    | true => rfl
    | false => cases s.strategy <;> rfl
  · exact fun q => applyStrategy_due hs hdue

/-- Asking a strategy reads the clock once. -/
theorem applyStrategy_clock (w : World) (sup child : NodeId) (exit : ExitInfo) :
    (w.applyStrategy sup child exit).2.now = w.readClock.2.now
      ∧ (w.applyStrategy sup child exit).2.env = w.readClock.2.env := by
  rw [World.applyStrategy_snd]
  exact ⟨rfl, rfl⟩

/-- Asking a strategy is the decision it makes. -/
theorem applyStrategy_history (w : World) (sup child : NodeId) (exit : ExitInfo) :
    (w.applyStrategy sup child exit).2.decisions
        = w.decisions ++ [w.tree.decision sup child exit w.readClock.1]
      ∧ (w.applyStrategy sup child exit).2.history.restarts = w.history.restarts := by
  rw [World.applyStrategy_snd]
  exact ⟨rfl, rfl⟩

theorem readClock_congr (hnow : w'.now = w.now) (henv : w'.env = w.env) :
    w'.readClock.2.now = w.readClock.2.now ∧ w'.readClock.2.env = w.readClock.2.env := by
  unfold World.readClock
  rw [henv, hnow]
  cases w.env.jitter with
  | nil => exact ⟨hnow, henv⟩
  | cons d rest => exact ⟨rfl, rfl⟩

/-- What a step without a decision keeps of the tree. -/
structure Undecided (t t' : SupervisorTree) : Prop where
  wellFormed : t.WellFormed → t'.WellFormed
  parent : ∀ n p, t.parentOf n = some p → t'.parentOf n = some p
  intensity : ∀ p s', t'.getSupervisor p = some s' →
    ∃ s, t.getSupervisor p = some s ∧ s'.intensity = s.intensity

namespace Undecided

variable {t' : SupervisorTree}

theorem ofSameShape (h : SameShape t t')
    (hsup : ∀ q, t'.getSupervisor q = t.getSupervisor q) : Undecided t t' where
  wellFormed := h.wellFormed
  parent := fun n _ hp => (h.parentOf n).trans hp
  intensity := fun p s' hs' => ⟨s', hsup p ▸ hs', rfl⟩

theorem ofEq (h : t' = t) : Undecided t t' := by
  subst h
  exact .ofSameShape (.refl t') fun _ => rfl

theorem addWorker {svcDef : ServiceDef} {parentId : NodeId}
    (h : t.addWorker svcDef parentId = .ok t') : Undecided t t' where
  wellFormed := fun ht => wellFormed_addWorker ht h
  parent := by
    obtain ⟨parent, hi⟩ := addNode_inserted h
    intro n p hp
    have hn : n ≠ svcDef.service.name :=
      fun e => hi.absent (e ▸ mem_nodes_of_parentOf hp)
    rw [hi.parentOf, if_neg hn]
    exact hp
  intensity := by
    obtain ⟨parent, hi⟩ := addNode_inserted h
    intro p s' hs'
    rw [hi.getSupervisor] at hs'
    split at hs'
    · cases hs'
    · split at hs'
      · next hp =>
        obtain rfl := Option.some.inj hs'
        refine ⟨parent, ?_, rfl⟩
        rw [getSupervisor_eq, hp, hi.supervisor]
        rfl
      · exact ⟨s', hs', rfl⟩

end Undecided

/-- Every write but a decision. -/
theorem World.Write.undecided {op : WriteOp} (h : World.Write w op w')
    (hop : ∀ sup child exit now, op ≠ .decided sup child exit now) :
    Undecided w.tree w'.tree := by
  have hsame : (∀ q, w'.tree.getSupervisor q = w.tree.getSupervisor q) → op.adds = false →
      Undecided w.tree w'.tree := fun hsup hadds => .ofSameShape (h.sameShape hadds) hsup
  cases h with
  | idle hw => exact .ofEq hw.tree
  | gaveUp _ hw => exact .ofEq hw.tree
  | lost _ _ _ hw => exact .ofEq hw.tree
  | started id wk p _ _ hw => exact hsame (fun q => by simp [hw.tree]) rfl
  | failed id wk _ hw => exact hsame (fun q => by simp [hw.tree]) rfl
  | stopped id wk p _ _ hw => exact hsame (fun q => by simp [hw.tree]) rfl
  | exited id p exit by_ _ _ hw => exact hsame (fun q => by simp [hw.tree]) rfl
  | decided sup child exit now => exact absurd rfl (hop sup child exit now)
  | added _ _ tree hadd hw =>
    rw [hw.tree]
    exact .addWorker hadd

/-- A step that decides nothing and restarts nothing. -/
structure Uneventful (w w' : World) : Prop where
  tree : Undecided w.tree w'.tree
  now : w.now ≤ w'.now
  history : w'.history = w.history

namespace Uneventful

open World

theorem idle (h : Idle w w') : Uneventful w w' :=
  ⟨.ofEq h.tree, h.now, h.history⟩

theorem startWorker (w : World) (id : NodeId) : Uneventful w (w.startWorker id).2 := by
  have hhistory : (w.startWorker id).2.history = w.history := by
    unfold World.startWorker
    cases w.tree.getWorker id with
    | none => rfl
    | some wk =>
      dsimp only
      rcases spawnService_cases (w.note (.start id wk.pid)) wk.svcDef with
        ⟨e, v, hs, hv⟩ | ⟨sp, v, hs, hv, -⟩
      · rw [hs]
        exact hv.history
      · rw [hs]
        exact hv.history
  rcases w.startWorker_write id with ⟨-, heq, -⟩ | ⟨hwrite, -⟩ | ⟨p, hwrite, -⟩
  · rw [heq]
    exact .idle (.refl w)
  · exact ⟨hwrite.undecided (fun _ _ _ _ h => by cases h), (Turn.write hwrite).now_le, hhistory⟩
  · exact ⟨hwrite.undecided (fun _ _ _ _ h => by cases h), (Turn.write hwrite).now_le, hhistory⟩

theorem stopWorker (w : World) (id : NodeId) : Uneventful w (w.stopWorker id) := by
  have hhistory : (w.stopWorker id).history = w.history := by
    unfold World.stopWorker
    split
    · rfl
    · split <;> rfl
  rcases w.stopWorker_write id with heq | hwrite
  · rw [heq]
    exact .idle (.refl w)
  · exact ⟨hwrite.undecided (fun _ _ _ _ h => by cases h), (Turn.write hwrite).now_le, hhistory⟩

theorem exitWorker {v : World} {p : Pid} {id : NodeId} (h : Reaped w v p)
    (hid : w.tree.pidMap.lookup p = some id) (exit : ExitInfo) (by_ : Reaper) :
    Uneventful w (v.exitWorker id p exit by_) :=
  ⟨(Write.exitWorker h hid exit by_).undecided (fun _ _ _ _ h => by cases h), h.now, h.history⟩

end Uneventful

-- ==== the accounting

/-- The times a supervisor recorded a restart. -/
def charged (p : NodeId) (ds : List Decision) : List Instant :=
  (ds.filter fun d => d.supervisor = p ∧ d.recorded).map Decision.now

/-- The times a supervisor had something restarted. -/
def grantedBy (p : NodeId) (ds : List Decision) : List Instant :=
  (ds.filter fun d => d.supervisor = p ∧ d.action.toStart ≠ []).map Decision.now

/-- A window that never reaches back before the first instant, as no
window of less than 2^63 seconds does on a clock that starts at zero. -/
def Spannable (window : Duration) : Prop := window ≤ 2 ^ 63 * 1000000000

/-- A supervisor's intensity accounts for what it decided. -/
structure WithinLimit (r : RestartIntensity) (p : NodeId) (ds : List Decision) :
    Prop where
  remembers : Remembers r (charged p ds)
  within : ∀ now, (inWindow r.window (grantedBy p ds) now).length ≤ r.maxRestarts

/-- What holds of the decisions made so far. -/
structure Metered (w : World) : Prop where
  shape : w.tree.WellFormed
  clock : 0 ≤ w.now
  past : ∀ d ∈ w.decisions, d.now ≤ w.now
  owner : ∀ d ∈ w.decisions, ∀ n ∈ d.action.toStart, w.tree.parentOf n = some d.supervisor
  once : ∀ d ∈ w.decisions, d.action.toStart.Nodup
  charge : ∀ d ∈ w.decisions, d.action.toStart ≠ [] → d.recorded = true
  limit : ∀ p s, w.tree.getSupervisor p = some s → Spannable s.intensity.window →
    WithinLimit s.intensity p w.decisions

private theorem sub_ge_first {now : Int} {window : Nat}
    (h : window ≤ 2 ^ 63 * 1000000000) (hnow : 0 ≤ now) :
    -(2 ^ 63) * 1000000000 ≤ now - window := by
  omega

/-- At any time since boot the window can be subtracted. -/
theorem representable_of_spannable {window : Duration} (h : Spannable window)
    (hnow : 0 ≤ now) : Representable window now := by
  unfold Representable checkedSub
  rw [if_pos (sub_ge_first h hnow)]
  rfl

section

variable {p n : NodeId} {ds : List Decision} {d : Decision}

private theorem dates_append (P : Decision → Bool) (ds : List Decision) (d : Decision) :
    ((ds ++ [d]).filter P).map Decision.now
      = (ds.filter P).map Decision.now ++ if P d = true then [d.now] else [] := by
  rw [List.filter_append, List.map_append, List.filter_singleton]
  cases P d <;> rfl

theorem charged_append (p : NodeId) (ds : List Decision) (d : Decision) : charged p (ds ++ [d])
    = charged p ds ++ if d.supervisor = p ∧ d.recorded then [d.now] else [] := by
  simp only [charged, dates_append, decide_eq_true_eq]

theorem grantedBy_append (p : NodeId) (ds : List Decision) (d : Decision) :
    grantedBy p (ds ++ [d]) = grantedBy p ds
      ++ if d.supervisor = p ∧ d.action.toStart ≠ [] then [d.now] else [] := by
  simp only [grantedBy, dates_append, decide_eq_true_eq]

/-- Only recorded restarts are granted. -/
theorem grantedBy_sublist (p : NodeId) (h : ∀ d ∈ ds, d.action.toStart ≠ [] → d.recorded = true) :
    (grantedBy p ds).Sublist (charged p ds) := by
  apply List.Sublist.map
  have htwice : ds.filter (fun d => d.supervisor = p ∧ d.action.toStart ≠ [])
      = (ds.filter fun d => d.supervisor = p ∧ d.recorded).filter
          fun d => d.supervisor = p ∧ d.action.toStart ≠ [] := by
    rw [List.filter_filter]
    apply List.filter_congr
    intro d hd
    by_cases hgrant : d.action.toStart ≠ []
    · simp +contextual [h d hd hgrant]
    · simp [hgrant]
  rw [htwice]
  exact List.filter_sublist

end

/-- The strategies restart children of the supervisor, each once. -/
theorem action_toStart (ht : t.WellFormed) (hs : t.getSupervisor sup = some s)
    (hparent : t.parentOf child = some sup) :
    (∀ n ∈ (s.strategy.action s.children child).toStart, t.parentOf n = some sup)
      ∧ (s.strategy.action s.children child).toStart.Nodup := by
  have hnodup : s.children.Nodup := childrenOf_supervisor hs ▸ ht.nodup_childrenOf sup
  have hchild : ∀ n ∈ s.children, t.parentOf n = some sup := by
    intro n hn
    rw [← childrenOf_supervisor hs] at hn
    exact (ht.child sup n hn).2
  cases s.strategy with
  | oneForOne =>
    refine ⟨?_, List.nodup_singleton child⟩
    intro n hn
    rw [List.mem_singleton.1 hn]
    exact hparent
  | oneForAll => exact ⟨hchild, hnodup⟩
  | restForOne =>
    have hdrop := List.drop_sublist ((s.children.idxOf? child).getD 0) s.children
    exact ⟨fun n hn => hchild n (hdrop.mem hn), hnodup.sublist hdrop⟩

/-- A supervisor restarts children of its own, each once, or none. -/
theorem granted_toStart (ht : t.WellFormed) (hs : t.getSupervisor sup = some s)
    (hparent : t.parentOf child = some sup) (now : Instant) :
    (∀ n ∈ (s.granted child now).toStart, t.parentOf n = some sup)
      ∧ (s.granted child now).toStart.Nodup
      ∧ ((s.intensity.recordRestartAt now).1 = true → (s.granted child now).toStart = []) := by
  unfold SupervisorNode.granted
  split
  · exact ⟨List.forall_mem_nil _, List.nodup_nil, fun _ => rfl⟩
  · next hkeep =>
    obtain ⟨howner, honce⟩ := action_toStart ht hs hparent
    exact ⟨howner, honce, fun hgive => absurd hgive hkeep⟩

namespace WithinLimit

variable {r : RestartIntensity} {p : NodeId} {ds : List Decision} {d : Decision}

/-- A decision of another supervisor, or one that recorded nothing. -/
theorem skip (h : WithinLimit r p ds)
    (hd : d.supervisor = p → d.recorded = false ∧ d.action.toStart = []) :
    WithinLimit r p (ds ++ [d]) := by
  have hcharged : charged p (ds ++ [d]) = charged p ds := by
    rw [charged_append, if_neg, List.append_nil]
    intro hrec
    rw [(hd hrec.1).1] at hrec
    cases hrec.2
  have hgranted : grantedBy p (ds ++ [d]) = grantedBy p ds := by
    rw [grantedBy_append, if_neg, List.append_nil]
    exact fun hgrant => hgrant.2 (hd hgrant.1).2
  exact ⟨hcharged ▸ h.remembers, hgranted ▸ h.within⟩

/-- A recorded restart, granted only if the limit is not exceeded. -/
theorem record (h : WithinLimit r p ds) (d : Decision) (hp : d.supervisor = p)
    (hrec : d.recorded = true) (hsub : (grantedBy p ds).Sublist (charged p ds))
    (hnow : ∀ t ∈ charged p ds, t ≤ d.now) (hrep : Representable r.window d.now)
    (hgive : (r.recordRestartAt d.now).1 = true → d.action.toStart = []) :
    WithinLimit (r.recordRestartAt d.now).2 p (ds ++ [d]) := by
  have hcharged : charged p (ds ++ [d]) = charged p ds ++ [d.now] := by
    rw [charged_append, if_pos ⟨hp, hrec⟩]
  refine ⟨hcharged ▸ h.remembers.record hnow hrep, ?_⟩
  show ∀ later, (inWindow r.window _ later).length ≤ r.maxRestarts
  intro later
  rw [grantedBy_append]
  by_cases hgrant : d.action.toStart = []
  · rw [if_neg fun hg => hg.2 hgrant, List.append_nil]
    exact h.within later
  · rw [if_pos ⟨hp, hgrant⟩]
    by_cases hlater : d.now ≤ later
    · -- the window that ends with the recording holds most, and was counted
      have hall : ∀ t ∈ charged p ds ++ [d.now], t ≤ d.now := by
        intro t ht
        rcases List.mem_append.1 ht with ht | ht
        · exact hnow t ht
        · exact le_of_eq (List.mem_singleton.1 ht)
      have hkept := h.remembers.timestamps_inWindow hnow hrep
      have hcount : (r.recordRestartAt d.now).2.timestamps.length ≤ r.maxRestarts := by
        by_contra hmany
        exact hgrant (hgive (decide_eq_true (not_le.1 hmany)))
      calc (inWindow r.window (grantedBy p ds ++ [d.now]) later).length
          ≤ (inWindow r.window (charged p ds ++ [d.now]) later).length :=
            (inWindow_sublist (le_refl _) (hsub.append (List.Sublist.refl _)) later).length_le
        _ ≤ (inWindow r.window (charged p ds ++ [d.now]) d.now).length :=
            (inWindow_later hall hlater).length_le
        _ = (r.recordRestartAt d.now).2.timestamps.length := by rw [hkept]
        _ ≤ r.maxRestarts := hcount
    · -- the recording is not yet in the window
      have hout : inWindow r.window [d.now] later = [] := by
        simp [inWindow, hlater]
      unfold inWindow at hout ⊢
      rw [List.filter_append, hout, List.append_nil]
      exact h.within later

end WithinLimit

namespace Metered

/-- While nothing is decided only time passes. -/
theorem wait (h : Metered w) (hu : Undecided w.tree w'.tree) (hnow : w.now ≤ w'.now)
    (hdecisions : w'.decisions = w.decisions) : Metered w' where
  shape := hu.wellFormed h.shape
  clock := le_trans h.clock hnow
  past := fun d hd => le_trans (h.past d (hdecisions ▸ hd)) hnow
  owner := fun d hd n hn => hu.parent n _ (h.owner d (hdecisions ▸ hd) n hn)
  once := fun d hd => h.once d (hdecisions ▸ hd)
  charge := fun d hd => h.charge d (hdecisions ▸ hd)
  limit := by
    intro p s' hs' hspan
    obtain ⟨s, hs, hint⟩ := hu.intensity p s' hs'
    rw [hint] at hspan ⊢
    rw [hdecisions]
    exact h.limit p s hs hspan

/-- One more decision, in terms of what it comes to. -/
theorem extend (h : Metered w) {d : Decision} (hdecisions : w'.decisions = w.decisions ++ [d])
    (hshape : SameShape w.tree w'.tree) (hnow : w.now ≤ d.now) (hnow' : d.now ≤ w'.now)
    (howner : ∀ n ∈ d.action.toStart, w.tree.parentOf n = some d.supervisor)
    (honce : d.action.toStart.Nodup) (hcharge : d.action.toStart ≠ [] → d.recorded = true)
    (hlimit : ∀ p s, w'.tree.getSupervisor p = some s → Spannable s.intensity.window →
      WithinLimit s.intensity p (w.decisions ++ [d])) : Metered w' := by
  have hall : ∀ {P : Decision → Prop}, (∀ e ∈ w.decisions, P e) → P d →
      ∀ e ∈ w'.decisions, P e := by
    intro P hds hd
    rw [hdecisions]
    exact List.forall_mem_append.2 ⟨hds, List.forall_mem_singleton.2 hd⟩
  have hle := le_trans hnow hnow'
  refine ⟨hshape.wellFormed h.shape, le_trans h.clock hle, ?_, ?_,
    hall h.once honce, hall h.charge hcharge, hdecisions ▸ hlimit⟩
  · exact hall (fun e he => le_trans (h.past e he) hle) hnow'
  · refine hall (fun e he n hn => ?_) fun n hn => ?_
    · exact (hshape.parentOf n).trans (h.owner e he n hn)
    · exact (hshape.parentOf n).trans (howner n hn)

theorem charged_past (h : Metered w) (hle : w.now ≤ now) (p : NodeId) :
    ∀ t ∈ charged p w.decisions, t ≤ now := by
  intro t ht
  obtain ⟨d, hd, rfl⟩ := List.mem_map.1 ht
  exact le_trans (h.past d (List.mem_filter.1 hd).1) hle

/-- A decision: what it restarts, whom it charges, and what is left of
every limit. -/
theorem decide (h : Metered w) (hparent : w.tree.parentOf child = some sup)
    (hle : w.now ≤ now) (hnow : now ≤ w'.now)
    (htree : w'.tree = (w.tree.applyStrategy sup child exit now).2)
    (hdecisions : w'.decisions = w.decisions ++ [w.tree.decision sup child exit now]) :
    Metered w' := by
  have hshape := SameShape.applyStrategy w.tree sup child exit now
  rw [← htree] at hshape
  cases hdue : (w.tree.getSupervisor sup).isSome && w.tree.shouldRestartChild child exit with
  | false =>
    obtain ⟨hd, hsups⟩ := decision_not_due now hdue
    rw [hd] at hdecisions
    apply h.extend hdecisions hshape hle hnow
    · exact List.forall_mem_nil _
    · exact List.nodup_nil
    · exact fun hne => absurd rfl hne
    · intro p s hs hspan
      rw [htree, hsups] at hs
      exact (h.limit p s hs hspan).skip fun _ => ⟨rfl, rfl⟩
  | true =>
    obtain ⟨hsome, hdue⟩ := Bool.and_eq_true_iff.1 hdue
    obtain ⟨s, hs⟩ := Option.isSome_iff_exists.1 hsome
    obtain ⟨hd, hsups⟩ := decision_due now hs hdue
    obtain ⟨howner, honce, hgive⟩ := granted_toStart h.shape hs hparent now
    rw [hd] at hdecisions
    apply h.extend hdecisions hshape hle hnow
    · exact howner
    · exact honce
    · exact fun _ => rfl
    · intro p s' hs' hspan
      rw [htree, hsups] at hs'
      split at hs'
      -- the supervisor that decided: one record more
      · next hp =>
        obtain rfl := Option.some.inj hs'
        have hspan' : Spannable s.intensity.window := hspan
        have hrep := representable_of_spannable hspan' (le_trans h.clock hle)
        have hlimit := h.limit p s (hp ▸ hs) hspan'
        apply hlimit.record ⟨now, sup, true, s.granted child now⟩ hp.symm rfl
          (grantedBy_sublist p h.charge)
        · exact h.charged_past hle p
        · exact hrep
        · exact hgive
      · next hp =>
        exact (h.limit p s' hs' hspan).skip fun e => absurd e.symm hp

end Metered

-- ==== the restarts

/-- What tells a restart from every other one. -/
def Restart.key (r : Restart) : Nat × NodeId := (r.decision, r.worker)

/-- The decision of a restart asked for it. -/
def Restart.Follows (r : Restart) (ds : List Decision) : Prop :=
  ∃ d, ds[r.decision]? = some d ∧ r.worker ∈ d.action.toStart

theorem Restart.Follows.mono {r : Restart} {ds ds' : List Decision} (h : r.Follows ds)
    (hds : ds <+: ds') : r.Follows ds' := by
  obtain ⟨d, hd, hmem⟩ := h
  obtain ⟨later, rfl⟩ := hds
  have hlt := (List.getElem?_eq_some_iff.1 hd).1
  exact ⟨d, (List.getElem?_append_left hlt).trans hd, hmem⟩

/-- From one world to a later one every restart follows from a decision made
in between, and no two are of the same worker by the same decision. -/
structure Performs (w w' : World) : Prop where
  decisions : w.decisions <+: w'.decisions
  restarts : ∃ rs, w'.history.restarts = w.history.restarts ++ rs
    ∧ (∀ r ∈ rs, w.decisions.length ≤ r.decision ∧ r.Follows w'.decisions)
    ∧ (rs.map Restart.key).Nodup

theorem Performs.ofEq (hdecisions : w.decisions <+: w'.decisions)
    (h : w'.history.restarts = w.history.restarts) : Performs w w' :=
  ⟨hdecisions, [], by rw [h, List.append_nil], List.forall_mem_nil _, List.nodup_nil⟩

/-- The places of the decisions stay as the history grows. -/
theorem Performs.trans {w'' : World} (h : Performs w w') (h' : Performs w' w'') :
    Performs w w'' := by
  obtain ⟨rs, hrs, hfollow, hnodup⟩ := h.restarts
  obtain ⟨rs', hrs', hfollow', hnodup'⟩ := h'.restarts
  refine ⟨h.decisions.trans h'.decisions, rs ++ rs', ?_, ?_, ?_⟩
  · rw [hrs', hrs, List.append_assoc]
  · intro r hr
    rcases List.mem_append.1 hr with hr | hr
    · exact ⟨(hfollow r hr).1, (hfollow r hr).2.mono h'.decisions⟩
    · exact ⟨le_trans h.decisions.length_le (hfollow' r hr).1, (hfollow' r hr).2⟩
  · rw [List.map_append, List.nodup_append']
    refine ⟨hnodup, hnodup', ?_⟩
    -- the decisions of the first restarts were made before those of the others
    rw [List.disjoint_left]
    intro k hk hk'
    obtain ⟨r, hr, rfl⟩ := List.mem_map.1 hk
    obtain ⟨r', hr', hkey⟩ := List.mem_map.1 hk'
    obtain ⟨d, hd, -⟩ := (hfollow r hr).2
    have hlt := (List.getElem?_eq_some_iff.1 hd).1
    have hge := (hfollow' r' hr').1
    have hsame : r'.decision = r.decision := congrArg Prod.fst hkey
    omega

/-- A decision, what happens until its own restarts, and these. -/
theorem Performs.act {v u z : World} {d : Decision} {rs : List Restart}
    (h : Performs v u) (hdecided : v.decisions = w.decisions ++ [d])
    (hrestarts : v.history.restarts = w.history.restarts) (hsame : z.decisions = u.decisions)
    (hrs : z.history.restarts = u.history.restarts ++ rs)
    (hplace : ∀ r ∈ rs, r.decision = w.decisions.length)
    (hsub : (rs.map Restart.worker).Sublist d.action.toStart)
    (honce : d.action.toStart.Nodup) : Performs w z := by
  obtain ⟨rs', hrs', hfollow, hnodup⟩ := h.restarts
  have hlater : ∀ r ∈ rs', w.decisions.length < r.decision := by
    intro r hr
    have hge := (hfollow r hr).1
    rw [hdecided, List.length_append] at hge
    exact hge
  have hd : u.decisions[w.decisions.length]? = some d := by
    obtain ⟨later, hlater⟩ := h.decisions
    rw [← hlater, hdecided, List.append_assoc, List.getElem?_append_right (le_refl _),
      Nat.sub_self]
    rfl
  refine ⟨?_, rs' ++ rs, ?_, ?_, ?_⟩
  · rw [hsame]
    exact List.IsPrefix.trans (hdecided ▸ List.prefix_append _ _) h.decisions
  · rw [hrs, hrs', hrestarts, List.append_assoc]
  · rw [hsame]
    refine List.forall_mem_append.2 ⟨fun r hr => ?_, fun r hr => ?_⟩
    · exact ⟨Nat.le_of_lt (hlater r hr), (hfollow r hr).2⟩
    · rw [Restart.Follows, hplace r hr, hd]
      exact ⟨le_refl _, d, rfl, hsub.subset (List.mem_map_of_mem hr)⟩
  · rw [List.map_append, List.nodup_append']
    refine ⟨hnodup, ?_, ?_⟩
    · -- the same decision, and each worker once
      refine List.Nodup.of_map Prod.snd ?_
      rw [List.map_map]
      exact honce.sublist hsub
    · rw [List.disjoint_left]
      intro k hk hk'
      obtain ⟨r, hr, rfl⟩ := List.mem_map.1 hk
      obtain ⟨r', hr', hkey⟩ := List.mem_map.1 hk'
      have hlt := hlater r hr
      have heq := hplace r' hr'
      have hsame : r'.decision = r.decision := congrArg Prod.fst hkey
      omega

/-- What holds across every step of a run: the decisions stay metered, and
the restarts follow from them. -/
def Accounts (w w' : World) : Prop := Metered w → Metered w' ∧ Performs w w'

namespace Accounts

theorem trans {w'' : World} (h : Accounts w w') (h' : Accounts w' w'') : Accounts w w'' := by
  intro hw
  obtain ⟨hw', hperforms⟩ := h hw
  obtain ⟨hw'', hperforms'⟩ := h' hw'
  exact ⟨hw'', hperforms.trans hperforms'⟩

theorem uneventful (h : Uneventful w w') : Accounts w w' := by
  intro hw
  have hdecisions : w'.decisions = w.decisions := congrArg History.decisions h.history
  refine ⟨hw.wait h.tree h.now hdecisions, .ofEq ?_ (congrArg History.restarts h.history)⟩
  rw [hdecisions]

end Accounts

/-- A decision is recorded and dated. -/
theorem Accounts.decided (hparent : w.tree.parentOf child = some sup)
    (exit : ExitInfo) : Accounts w (w.applyStrategy sup child exit).2 := by
  intro hw
  obtain ⟨hdecisions, hrestarts⟩ := applyStrategy_history w sup child exit
  have hnow := (applyStrategy_clock w sup child exit).1.trans (World.readClock_now w)
  have hle : w.now ≤ w.readClock.1 := World.readClock_now w ▸ (World.Idle.readClock w).now
  refine ⟨hw.decide hparent hle (le_of_eq hnow.symm)
    (World.applyStrategy_tree w sup child exit) hdecisions, .ofEq ?_ hrestarts⟩
  rw [hdecisions]
  exact List.prefix_append _ _

/-- One entry of `to_start`: a restart, if it is a worker. -/
theorem restart_performed (i : Nat) (x : NodeId) (hw : Metered w) :
    Metered (w.restartChild i x) ∧ (w.restartChild i x).decisions = w.decisions
      ∧ ∃ rs, (w.restartChild i x).history.restarts = w.history.restarts ++ rs
        ∧ (∀ r ∈ rs, r.decision = i) ∧ (rs.map Restart.worker).Sublist [x] := by
  unfold World.restartChild
  cases w.tree.getWorker x with
  | none =>
    obtain ⟨htree, hnow, hhistory⟩ := Uneventful.startWorker w x
    rw [World.decisions, hhistory]
    refine ⟨hw.wait htree hnow (congrArg History.decisions hhistory), rfl, [], ?_,
      List.forall_mem_nil _, List.nil_sublist _⟩
    exact (List.append_nil _).symm
  | some wk =>
    dsimp only
    generalize hv : w.sleep (fromSecs ((parseDurationSecs wk.svcDef.restart.delay).getD 1)) = v
    have hidle : World.Idle w v := hv ▸ World.Idle.sleep w _
    obtain ⟨htree, hnow, hhistory⟩ := Uneventful.startWorker (v.noteRestart x i) x
    have hdecisions : (v.noteRestart x i).decisions = w.decisions := by
      rw [World.decisions, World.decisions, ← hidle.history]
      rfl
    rw [World.decisions, hhistory]
    refine ⟨?_, hdecisions, [⟨x, i, v.now⟩], ?_, ?_, List.Sublist.refl _⟩
    · have hnoted : Metered (v.noteRestart x i) :=
        hw.wait (.ofEq hidle.tree) hidle.now hdecisions
      exact hnoted.wait htree hnow (congrArg History.decisions hhistory)
    · rw [← hidle.history]
      rfl
    · intro r hr
      rw [List.mem_singleton.1 hr]

/-- The restarts of an action, in its order. -/
theorem restarts_performed (i : Nat) (xs : List NodeId) : ∀ {w : World}, Metered w →
    Metered (xs.foldl (World.restartChild i) w)
      ∧ (xs.foldl (World.restartChild i) w).decisions = w.decisions
      ∧ ∃ rs, (xs.foldl (World.restartChild i) w).history.restarts
          = w.history.restarts ++ rs
        ∧ (∀ r ∈ rs, r.decision = i) ∧ (rs.map Restart.worker).Sublist xs := by
  induction xs with
  | nil =>
    intro w hw
    exact ⟨hw, rfl, [], (List.append_nil _).symm, List.forall_mem_nil _, .slnil⟩
  | cons x xs ih =>
    intro w hw
    obtain ⟨hx, hdecisions, rs, hrs, hi, hsub⟩ := restart_performed i x hw
    obtain ⟨hxs, hdecisions', rs', hrs', hi', hsub'⟩ := ih hx
    refine ⟨hxs, hdecisions'.trans hdecisions, rs ++ rs', ?_, ?_, ?_⟩
    · rw [List.foldl_cons, hrs', hrs, List.append_assoc]
    · exact List.forall_mem_append.2 ⟨hi, hi'⟩
    · rw [List.map_append]
      exact hsub.append hsub'

/-- An exit without a failure: its decision, what is decided and restarted
while the stopped children are reaped, and the restarts of its own. -/
theorem Accounts.kept {reap : World → World} (hreap : ∀ v, Accounts v (reap v))
    (hbetween : World.Between Accounts) (hparent : w.tree.parentOf child = some sup)
    (hkeep : (w.applyStrategy sup child exit).1.supervisorFailed = false) :
    Accounts w (World.superviseExit reap w child exit) := by
  intro hw
  rw [World.superviseExit_kept reap hparent hkeep]
  have haction : (w.tree.decision sup child exit w.readClock.1).action
      = (w.applyStrategy sup child exit).1 := by
    rw [World.applyStrategy_fst] at hkeep ⊢
    unfold SupervisorTree.decision StrategyAction.executed
    rw [hkeep]
    rfl
  obtain ⟨hdecisions, hrestarts⟩ := applyStrategy_history w sup child exit
  obtain ⟨hv, -⟩ := Accounts.decided hparent exit hw
  revert hdecisions hrestarts hv haction
  generalize (w.applyStrategy sup child exit).2 = v
  generalize (w.applyStrategy sup child exit).1 = action
  generalize w.tree.decision sup child exit w.readClock.1 = d
  rintro rfl hdecisions hrestarts hv
  have hlast : v.lastDecision = w.decisions.length := by
    show v.decisions.length - 1 = _
    rw [hdecisions, List.length_append]
    rfl
  obtain ⟨hu, hstops⟩ := hbetween.stops hreap v d.action.toStop hv
  unfold World.executeStrategyAction
  dsimp only
  revert hu hstops
  generalize (if d.action.toStop = [] then d.action.toStop.foldl World.stopChild v
    else reap ((d.action.toStop.foldl World.stopChild v).sleep (fromMillis 100))) = u
  intro hu hstops
  obtain ⟨hz, hsame, rs', hrs', hi, hsub⟩ :=
    restarts_performed v.lastDecision d.action.toStart hu
  have hd : d ∈ u.decisions := hstops.decisions.subset (hdecisions ▸ List.mem_concat_self)
  rw [hlast] at hi
  exact ⟨hz, hstops.act hdecisions hrestarts hsame hrs' hi hsub (hu.once d hd)⟩

theorem Accounts.between : World.Between Accounts where
  refl := fun _ hw => ⟨hw, .ofEq (List.prefix_refl _) rfl⟩
  trans := Accounts.trans
  idle := fun h => .uneventful (.idle h)
  startWorker := fun w id => .uneventful (.startWorker w id)
  stopWorker := fun w id => .uneventful (.stopWorker w id)
  exited := fun exit h hid => .uneventful (.exitWorker h hid exit .supervisor)
  lost := fun h _ => .uneventful ⟨.ofEq h.tree, h.now, h.history⟩

/-- So the accounts are right across all that the manager does. -/
theorem Accounts.throughout : World.Throughout Accounts where
  toBetween := Accounts.between
  supervised := by
    intro reap hreap w id exit _
    cases hparent : w.tree.parentOf id with
    | none =>
      rw [World.superviseExit_none reap hparent]
      exact Accounts.between.refl w
    | some sup =>
      cases hfail : (w.applyStrategy sup id exit).1.supervisorFailed with
      | false => exact .kept hreap Accounts.between hparent hfail
      | true =>
        rw [World.superviseExit_failed reap hparent hfail]
        have hnote : Accounts (w.applyStrategy sup id exit).2
            ((w.applyStrategy sup id exit).2.note (.gaveUp sup)) :=
          .uneventful ⟨.ofEq rfl, le_refl _, rfl⟩
        refine (Accounts.decided hparent exit).trans (hnote.trans ?_)
        unfold World.escalateFailure
        split
        · exact Accounts.between.refl _
        · next parentId hparent' => exact .decided hparent' _
  added := fun hadd => .uneventful ⟨.addWorker hadd, le_refl _, rfl⟩
  settled := fun exit h hid => .uneventful (.exitWorker h hid exit .startup)
  note := fun _ _ => .uneventful ⟨.ofEq rfl, le_refl _, rfl⟩
  env := fun _ _ => .uneventful ⟨.ofEq rfl, le_refl _, rfl⟩

-- ==== whole runs

/-- No supervisor has recorded a restart yet. -/
def Fresh (t : SupervisorTree) : Prop :=
  ∀ p s, t.getSupervisor p = some s → s.intensity.timestamps = []

private theorem fresh_inserted {t' : SupervisorTree} {name parentId : NodeId}
    {parent : SupervisorNode} {node : TreeNode} (ht : Fresh t)
    (hi : Inserted t t' name parentId parent node)
    (hnode : ∀ s, node.supervisor? = some s → s.intensity.timestamps = []) : Fresh t' := by
  intro p s hs
  rw [hi.getSupervisor] at hs
  split at hs
  · exact hnode s hs
  · split at hs
    · next hp =>
      cases hs
      refine ht parentId parent ?_
      rw [getSupervisor_eq, hi.supervisor]
      rfl
    · exact ht p s hs

/-- No supervisor has recorded a restart when the manager starts. -/
theorem buildTree_fresh (supervisors : List SupervisorDef) (services : List ServiceDef) :
    Fresh (buildTree supervisors services) := by
  apply buildTree_insertions
  · intro p s hs
    rw [getSupervisor_eq, rootTree, lookup_new] at hs
    split at hs
    · cases hs
      rfl
    · cases hs
  · intro t f hf ht p s hs
    rw [getSupervisor_modifySupervisor] at hs
    split at hs
    · obtain ⟨s', -, rfl⟩ := Option.map_eq_some_iff.1 hs
      exact hf s'
    · exact ht p s hs
  · intro t t' d parent hi ht
    apply fresh_inserted ht hi
    intro s hs
    cases hs
    rfl
  · intro t t' d _ parentId parent i hi ht
    apply fresh_inserted ht hi
    intro s hs
    cases hs

/-- At boot nothing was decided. -/
theorem metered_boot (supervisors : List SupervisorDef) (services : List ServiceDef) :
    Metered { tree := buildTree supervisors services } := by
  refine ⟨buildTree_wellFormed supervisors services, le_refl _, List.forall_mem_nil _,
    List.forall_mem_nil _, List.forall_mem_nil _, List.forall_mem_nil _, ?_⟩
  intro p s hs _
  refine ⟨Remembers.fresh (buildTree_fresh _ _ p s hs), fun now => ?_⟩
  exact Nat.zero_le _

/-- The times at which a worker was restarted. -/
def World.restartTimes (w : World) (n : NodeId) : List Instant :=
  (w.history.restarts.filter fun r => r.worker = n).map Restart.performed

/-- Distinct places of a list that all hold what is looked for. -/
theorem length_le_filter {α : Type} {p : α → Bool} (xs : List α) {places : List Nat}
    (hnodup : places.Nodup) (h : ∀ i ∈ places, ∃ x, xs[i]? = some x ∧ p x = true) :
    places.length ≤ (xs.filter p).length := by
  -- the entries that are looked for, each with its place
  let found := xs.zipIdx.filter (p ∘ Prod.fst)
  have hsub : places ⊆ found.map Prod.snd := by
    intro i hi
    obtain ⟨x, hx, hp⟩ := h i hi
    exact List.mem_map.2
      ⟨(x, i), List.mem_filter.2 ⟨List.mem_zipIdx_iff_getElem?.2 hx, hp⟩, rfl⟩
  have hfst : found.map Prod.fst = xs.filter p := by
    rw [← List.filter_map, List.zipIdx_map_fst]
  have hle := (hnodup.subperm hsub).length_le
  rw [List.length_map] at hle
  rw [← hfst, List.length_map]
  exact hle

/-- The delays of a worker's restarts, each behind its decision, differ by no
more than `slack`. -/
def World.DelaysWithin (w : World) (n : NodeId) (slack : Duration) : Prop :=
  ∃ lag : Duration, ∀ r ∈ w.history.restarts, r.worker = n →
    ∀ d, w.decisions[r.decision]? = some d →
      d.now + lag ≤ r.performed ∧ r.performed ≤ d.now + lag + slack

/-- The limit a service definition asks for: `m` restarts within `W`. -/
def ServiceDef.RestartLimit (d : ServiceDef) (m : Nat) (W : Duration) : Prop :=
  d.restart.maxRestarts = m
    ∧ (parseDurationSecs d.restart.maxRestartWindow).map fromSecs = some W

/-- The worker `n` asks for the limit `m` within `W`, and its supervisor
is no more generous, even over a window that is longer by as much as the
delays of the restarts differ. -/
def Sheltered (w : World) (n : NodeId) (m : Nat) (W : Duration) : Prop :=
  ∃ wk s slack, w.tree.getWorker n = some wk ∧ wk.svcDef.RestartLimit m W
    ∧ w.tree.getSupervisor wk.parent = some s
    ∧ s.intensity.maxRestarts ≤ m ∧ w.DelaysWithin n slack
    ∧ W + slack ≤ s.intensity.window ∧ Spannable s.intensity.window

/-- The decisions behind the restarts of a window lie in a longer one. -/
private theorem decided_in_window {now decided performed : Int} {lag slack W window : Nat}
    (hafter : decided + lag ≤ performed) (hbefore : performed ≤ decided + lag + slack)
    (hlow : now - W ≤ performed) (hhigh : performed ≤ now) (hwindow : W + slack ≤ window) :
    now - lag - window ≤ decided ∧ decided ≤ now - lag := by
  omega

/-- The restarts of a worker in a window are no more than the decisions its
supervisor granted in the window before the delay. -/
theorem Metered.restartTimes_le (h : Metered w) {n p : NodeId}
    (hparent : w.tree.parentOf n = some p)
    (hfollow : ∀ r ∈ w.history.restarts, r.Follows w.decisions)
    (hnodup : (w.history.restarts.map Restart.key).Nodup) {lag slack W window : Duration}
    (hlag : ∀ r ∈ w.history.restarts, r.worker = n →
      ∀ d, w.decisions[r.decision]? = some d →
        d.now + lag ≤ r.performed ∧ r.performed ≤ d.now + lag + slack)
    (hwindow : W + slack ≤ window) (now : Instant) : (inWindow W (w.restartTimes n) now).length
      ≤ (inWindow window (grantedBy p w.decisions) (now - lag)).length := by
  let inside : Restart → Bool := fun r =>
    (now - W ≤ r.performed ∧ r.performed ≤ now : Bool) && (r.worker = n : Bool)
  let granted : Decision → Bool := fun d =>
    (now - lag - window ≤ d.now ∧ d.now ≤ now - lag : Bool)
      && (d.supervisor = p ∧ d.action.toStart ≠ [] : Bool)
  have hinside : ∀ r ∈ w.history.restarts.filter inside, r ∈ w.history.restarts
      ∧ r.worker = n ∧ now - W ≤ r.performed ∧ r.performed ≤ now := by
    intro r hr
    obtain ⟨hmem, hin⟩ := List.mem_filter.1 hr
    obtain ⟨htime, hworker⟩ := Bool.and_eq_true_iff.1 hin
    exact ⟨hmem, of_decide_eq_true hworker, of_decide_eq_true htime⟩
  have hleft : (inWindow W (w.restartTimes n) now).length
      = ((w.history.restarts.filter inside).map Restart.decision).length := by
    unfold inWindow World.restartTimes
    rw [List.filter_map, List.length_map, List.length_map, List.filter_filter]
    rfl
  have hright : (inWindow window (grantedBy p w.decisions) (now - lag)).length
      = (w.decisions.filter granted).length := by
    unfold inWindow grantedBy
    rw [List.filter_map, List.length_map, List.filter_filter]
    rfl
  rw [hleft, hright]
  apply length_le_filter
  · -- the worker is the same, so the decisions differ
    refine List.Nodup.of_map (fun i => (i, n)) ?_
    have hkeys : ((w.history.restarts.filter inside).map Restart.decision).map (fun i => (i, n))
        = (w.history.restarts.filter inside).map Restart.key := by
      rw [List.map_map]
      refine List.map_congr_left fun r hr => ?_
      rw [Restart.key, (hinside r hr).2.1]
      rfl
    rw [hkeys]
    exact hnodup.sublist (List.filter_sublist.map _)
  · intro i hi
    obtain ⟨r, hr, rfl⟩ := List.mem_map.1 hi
    obtain ⟨hmem, hworker, hlow, hhigh⟩ := hinside r hr
    obtain ⟨d, hd, hstart⟩ := hfollow r hmem
    obtain ⟨hafter, hbefore⟩ := hlag r hmem hworker d hd
    have hsup : d.supervisor = p := by
      have howner := h.owner d (List.mem_of_getElem? hd) r.worker hstart
      rw [hworker] at howner
      exact Option.some.inj (howner.symm.trans hparent)
    exact ⟨d, hd, Bool.and_eq_true_iff.2
      ⟨decide_eq_true (decided_in_window hafter hbefore hlow hhigh hwindow),
        decide_eq_true ⟨hsup, List.ne_nil_of_mem hstart⟩⟩⟩

/-- A worker whose supervisor is no more generous than the worker's own
limit, the delays of its restarts included, is never restarted more often
than that limit allows, in any window of any run. -/
theorem restarts_within_own_limit {supervisors : List SupervisorDef}
    {services : List ServiceDef} {m : Manager}
    (h : Manager.Reachable supervisors services m) (hexit : m.phase ≠ .exited)
    {n : NodeId} {k : Nat} {W : Duration} (hn : Sheltered m.state.world n k W)
    (now : Instant) : (inWindow W (m.state.world.restartTimes n) now).length ≤ k := by
  obtain ⟨wk, s, slack, hwk, -, hs, hmax, ⟨lag, hlag⟩, hwindow, hspan⟩ := hn
  obtain ⟨hmetered, hperforms⟩ := Accounts.throughout.reachable h hexit
    (metered_boot supervisors services)
  obtain ⟨rs, hrs, hfollow, hnodup⟩ := hperforms.restarts
  have hall : m.state.world.history.restarts = rs := hrs
  calc (inWindow W (m.state.world.restartTimes n) now).length
      ≤ (inWindow s.intensity.window (grantedBy wk.parent m.state.world.decisions)
          (now - lag)).length :=
        hmetered.restartTimes_le (parentOf_worker hwk) (fun r hr => (hfollow r (hall ▸ hr)).2)
          (hall ▸ hnodup) hlag hwindow now
    _ ≤ s.intensity.maxRestarts := (hmetered.limit _ s hs hspan).within _
    _ ≤ k := hmax

-- ==== a service that crashes

/-- A service that allows itself one restart a minute. -/
def flakyDef (supervisor : String) : ServiceDef :=
  { service := { name := "flaky", exec := ["/bin/flaky"], supervisor }
    restart := { maxRestarts := 1 } }

/-- The manager with the service running as process 100. -/
def flakyRunning (supervisors : List SupervisorDef) (supervisor : String) : Startup :=
  Manager.oneBatch supervisors [flakyDef supervisor] [some 100]

/-- The manager after one pass of the main loop, in which the service
exits, and so does the process that replaces it. -/
def flakyTwice (supervisors : List SupervisorDef) (supervisor : String) : World :=
  ((flakyRunning supervisors supervisor).withEnv
    { waits := [.exited 100 1, .exited 101 1], forks := [some 101, some 102] }
    ).world.reapChildren

theorem flaky_reachable {supervisors : List SupervisorDef} {supervisor : String}
    (hacyclic : (DependencyGraph.build [flakyDef supervisor]).Acyclic)
    (hdone : (flakyRunning supervisors supervisor).done) :
    Manager.Reachable supervisors [flakyDef supervisor] ⟨.mainControl,
      { flakyRunning supervisors supervisor with world := flakyTwice supervisors supervisor }⟩ :=
  (Manager.oneBatch_reachable hacyclic hdone).step (.mainReap _ _)

/-- Under the root with its default limit the service is restarted twice
in two seconds. -/
theorem own_limit_ignored : (flakyDef "root").RestartLimit 1 (fromSecs 60)
    ∧ (∃ m, Manager.Reachable [] [flakyDef "root"] m
      ∧ m.state.world = flakyTwice [] "root")
    ∧ (flakyTwice [] "root").log = (flakyRunning [] "root").world.log ++
      [.exited "flaky" 100 ⟨some 1, none⟩ .supervisor, .recorded "root",
        .start "flaky" none, .spawned "flaky" 101,
        .exited "flaky" 101 ⟨some 1, none⟩ .supervisor, .recorded "root",
        .start "flaky" none, .spawned "flaky" 102]
    ∧ (flakyTwice [] "root").restartTimes "flaky" = [(fromSecs 1 : Int), (fromSecs 2 : Int)]
    ∧ 1 < (inWindow (fromSecs 60) ((flakyTwice [] "root").restartTimes "flaky")
      (fromSecs 2)).length := by
  have hacyclic : (DependencyGraph.build [flakyDef "root"]).Acyclic :=
    DependencyGraph.acyclic_of_rank (fun _ => 0) (by decide)
  have hdone : (flakyRunning [] "root").done := by
    unfold Startup.done
    decide
  exact ⟨⟨rfl, by decide⟩, ⟨_, flaky_reachable hacyclic hdone, rfl⟩, by decide, by decide,
    by decide⟩

/-- A supervisor that allows one restart a minute. -/
def strictDef : SupervisorDef :=
  { supervisor := { name := "strict" }
    restart := { maxRestarts := 1, maxRestartWindow := "60s" } }

/-- Under that supervisor the second crash is not followed by a
restart. -/
theorem own_limit_kept_under_strict :
    (flakyTwice [strictDef] "strict").restartTimes "flaky" = [(fromSecs 1 : Int)]
      ∧ ∀ now, (inWindow (fromSecs 60)
        ((flakyTwice [strictDef] "strict").restartTimes "flaky") now).length ≤ 1 := by
  have hacyclic : (DependencyGraph.build [flakyDef "strict"]).Acyclic :=
    DependencyGraph.acyclic_of_rank (fun _ => 0) (by decide)
  have hdone : (flakyRunning [strictDef] "strict").done := by
    unfold Startup.done
    decide
  have hrestarts : (flakyTwice [strictDef] "strict").history.restarts
      = [⟨"flaky", 0, (fromSecs 1 : Int)⟩] := by decide
  have hfirst : ((flakyTwice [strictDef] "strict").decisions[0]?).map Decision.now
      = some 0 := by decide
  refine ⟨by decide, restarts_within_own_limit (flaky_reachable hacyclic hdone) nofun ?_⟩
  refine ⟨{ newWorker (flakyDef "strict") "strict" 0 with state := .abandoned },
    { strictDef.node with
      intensity := ⟨1, fromSecs 60, [(0 : Int), (fromSecs 1 : Int)]⟩
      children := ["flaky"] }, 0, by decide, ⟨rfl, by decide⟩, by decide, le_refl 1,
    ⟨fromSecs 1, ?_⟩, le_refl (fromSecs 60), ?_⟩
  · intro r hr _ d hd
    rw [hrestarts] at hr
    obtain rfl := List.mem_singleton.1 hr
    rw [hd] at hfirst
    have hnow : d.now = 0 := Option.some.inj hfirst
    rw [hnow]
    decide
  · show fromSecs 60 ≤ 2 ^ 63 * 1000000000
    decide

end Dynamod.Svmgr
