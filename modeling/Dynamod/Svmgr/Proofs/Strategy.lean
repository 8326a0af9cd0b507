/-
What one call of `apply_strategy` can do, and escalation.

`apply_strategy` looks the failed child up as a worker to decide
whether it should be restarted. A failed supervisor is no worker, so
the parent of a supervisor that gives up never records a restart,
never restarts anything and never fails itself: `escalate_failure`
hands back an empty action and the tree it was given.
-/
import Mathlib.Logic.Relation
import Dynamod.Svmgr.Strategy

namespace Dynamod.Svmgr

variable {s : SupervisorNode}

namespace SupervisorTree

variable {t : SupervisorTree} {sup child n : NodeId} {exit : ExitInfo}
  {now : Instant}

-- ==== abandonment

theorem getSupervisor_abandon (children : List NodeId) (t : SupervisorTree) :
    (t.abandon children).getSupervisor n = t.getSupervisor n :=
  List.foldlRecOn children _
    (motive := fun t' : SupervisorTree => t'.getSupervisor n = t.getSupervisor n) rfl
    fun t' h c _ => (t'.getSupervisor_modifyWorker c n _).trans h

-- ==== the arms of a strategy

/-- Nothing is recorded, stopped or started for a child that is not
due for a restart; at most its state is set. -/
theorem applyStrategy_not_due (sup : NodeId) (now : Instant)
    (h : t.shouldRestartChild child exit = false) :
    (t.applyStrategy sup child exit now).1 = {} ∧ ((t.applyStrategy sup child exit now).2 = t ∨
        (t.applyStrategy sup child exit now).2
          = t.modifyWorker child fun w => { w with state := exit.state }) := by
  unfold applyStrategy
  cases t.getSupervisor sup with
  | none => exact ⟨rfl, .inl rfl⟩
  | some s =>
    dsimp only
    rw [h, if_neg Bool.false_ne_true]
    exact ⟨rfl, .inr rfl⟩

/-- Unless a restart is recorded nothing is done, and no supervisor
changes. -/
theorem applyStrategy_unrecorded (now : Instant)
    (h : ((t.getSupervisor sup).isSome && t.shouldRestartChild child exit) = false) :
    (t.applyStrategy sup child exit now).1 = {}
      ∧ ∀ q, (t.applyStrategy sup child exit now).2.getSupervisor q = t.getSupervisor q := by
  cases hs : t.getSupervisor sup with
  | none =>
    unfold SupervisorTree.applyStrategy
    rw [hs]
    exact ⟨rfl, fun _ => rfl⟩
  | some s =>
    rw [hs] at h
    obtain ⟨hempty, htree⟩ := applyStrategy_not_due sup now h
    refine ⟨hempty, fun q => ?_⟩
    rcases htree with htree | htree
    · rw [htree]
    · rw [htree, getSupervisor_modifyWorker]

/-- Nothing at all happens over a failed supervisor, which is no worker. -/
theorem applyStrategy_supervisor (hs : t.getSupervisor n = some s) (sup : NodeId)
    (exit : ExitInfo) (now : Instant) : t.applyStrategy sup n exit now = ({}, t) := by
  have hw : t.getWorker n = none := getWorker_of_supervisor hs
  have hdue : t.shouldRestartChild n exit = false := by
    unfold shouldRestartChild
    rw [hw]
  obtain ⟨hempty, htree⟩ := applyStrategy_not_due sup now hdue
  refine Prod.ext hempty ?_
  rcases htree with htree | htree
  · exact htree
  · rw [htree, modifyWorker_of_none hw]

/-- A child due for a restart costs its supervisor one recorded
restart. -/
theorem applyStrategy_due (hs : t.getSupervisor sup = some s)
    (h : t.shouldRestartChild child exit = true) :
    (t.applyStrategy sup child exit now).2.getSupervisor n = if n = sup then
        some { s with intensity := (s.intensity.recordRestartAt now).2 }
      else t.getSupervisor n := by
  unfold applyStrategy
  simp only [hs, h, if_true]
  split
  · rw [getSupervisor_abandon, getSupervisor_modifySupervisor, hs, Option.map_some]
  · rw [getSupervisor_modifySupervisor, hs, Option.map_some]

/-- What the supervisor then does: give up, or apply its strategy. -/
theorem applyStrategy_action (hs : t.getSupervisor sup = some s)
    (h : t.shouldRestartChild child exit = true) : (t.applyStrategy sup child exit now).1
      = if (s.intensity.recordRestartAt now).1 then
          { toStop := s.children, supervisorFailed := true }
        else s.strategy.action s.children child := by
  unfold applyStrategy
  simp only [hs, h, if_true]
  split
  · rfl
  · rfl

/-- Within its intensity, the supervisor writes only the record. -/
theorem applyStrategy_kept (hs : t.getSupervisor sup = some s)
    (h : t.shouldRestartChild child exit = true)
    (hkeep : (s.intensity.recordRestartAt now).1 = false) : (t.applyStrategy sup child exit now).2
      = t.modifySupervisor sup fun s' =>
          { s' with intensity := (s.intensity.recordRestartAt now).2 } := by
  unfold applyStrategy
  simp only [hs, h, if_true, hkeep, Bool.false_eq_true, if_false]

/-- A supervisor gives up over a child that was due, when its intensity
is exceeded. -/
theorem applyStrategy_failed
    (h : (t.applyStrategy sup child exit now).1.supervisorFailed = true) :
    ∃ s, t.getSupervisor sup = some s ∧ t.shouldRestartChild child exit = true
      ∧ (s.intensity.recordRestartAt now).1 = true := by
  cases hdue : t.shouldRestartChild child exit with
  | false =>
    rw [(applyStrategy_not_due sup now hdue).1] at h
    cases h
  | true =>
    cases hs : t.getSupervisor sup with
    | none =>
      unfold applyStrategy at h
      rw [hs] at h
      cases h
    | some s =>
      rw [applyStrategy_action hs hdue] at h
      cases hgive : (s.intensity.recordRestartAt now).1 with
      | true => exact ⟨s, rfl, rfl, hgive⟩
      | false =>
        rw [hgive] at h
        cases hstrategy : s.strategy <;> rw [hstrategy] at h <;> cases h

/-- What holds across a new state of a worker and a new intensity of a
supervisor holds across every decision. -/
theorem applyStrategy_rel {R : SupervisorTree → SupervisorTree → Prop} (hrefl : ∀ t, R t t)
    (htrans : ∀ {t t' t''}, R t t' → R t' t'' → R t t'')
    (hstate : ∀ t id state, R t (t.modifyWorker id fun w => { w with state := state }))
    (hrecord : ∀ t id i, R t (t.modifySupervisor id fun s => { s with intensity := i }))
    (t : SupervisorTree) (sup child : NodeId) (exit : ExitInfo) (now : Instant) :
    R t (t.applyStrategy sup child exit now).2 := by
  unfold applyStrategy
  cases t.getSupervisor sup with
  | none => exact hrefl t
  | some s =>
    dsimp only
    split
    · split
      · refine htrans (hrecord t sup (s.intensity.recordRestartAt now).2) ?_
        exact List.foldlRecOn s.children _ (hrefl _) fun t' h c _ => htrans h (hstate t' c _)
      · exact hrecord t sup _
    · exact hstate t child _

-- ==== escalation

/-- The nodes under `n`, itself included. -/
def InSubtree (t : SupervisorTree) (n m : NodeId) : Prop :=
  Relation.ReflTransGen (fun a b => t.parentOf b = some a) n m

/-- What escalating the failure of `failed` to `parent` is for: one
restart is recorded with the parent; then either that exceeds the
parent's intensity too, and the parent reports itself failed, or the
action restarts something of the failed subtree. -/
def Escalates (t : SupervisorTree) (failed parent : NodeId) (now : Instant) : Prop :=
  ∃ action t' p, t.escalateFailure failed now = (some (parent, action), t')
    ∧ t.getSupervisor parent = some p
    ∧ t'.getSupervisor parent
        = some { p with intensity := (p.intensity.recordRestartAt now).2 }
    ∧ if (p.intensity.recordRestartAt now).1 then
        action.supervisorFailed = true
      else ∃ m ∈ action.toStart, t.InSubtree failed m

theorem escalateFailure_supervisor {parent : NodeId}
    (now : Instant) (hs : t.getSupervisor n = some s) (hp : s.parent = some parent) :
    t.escalateFailure n now = (some (parent, {}), t) := by
  unfold escalateFailure
  rw [parentOf_supervisor hs, hp]
  dsimp only
  rw [applyStrategy_supervisor hs]

/-- No supervisor's failure ever escalates, at any depth: the parent
records nothing, restarts nothing and does not fail, so no ancestor is
ever asked. -/
theorem escalation_inert {s : SupervisorNode} {parent : NodeId}
    (hs : t.getSupervisor n = some s) (hp : s.parent = some parent) :
    t.escalateFailure n now = (some (parent, {}), t)
      ∧ ¬ t.Escalates n parent now := by
  have heq := escalateFailure_supervisor now hs hp
  refine ⟨heq, ?_⟩
  intro h
  obtain ⟨action, t', p, he, hparent, hrec, -⟩ := h
  rw [heq] at he
  obtain ⟨-, rfl⟩ := Prod.mk.inj he
  rw [hparent] at hrec
  have hint := congrArg SupervisorNode.intensity (Option.some.inj hrec)
  exact p.intensity.recordRestartAt_ne now hint.symm

end SupervisorTree

-- ==== a failing nested supervisor

/-- `app`, a supervisor under the root that tolerates no restart, with
one permanent worker `web`. -/
def nestedTree : SupervisorTree where
  nodes := ((Finmap.singleton "root" (.supervisor
      { name := "root", strategy := .oneForOne, parent := none
        intensity := .new 20 (fromSecs 600), children := ["app"] })).insert
    "app" (.supervisor
      { name := "app", strategy := .oneForOne, parent := some "root"
        intensity := .new 0 (fromSecs 60), children := ["web"] })).insert
    "web" (.worker (SupervisorTree.newWorker
      { service := { name := "web", supervisor := "app"
                     exec := ["/bin/web"] } } "app" 0))
  rootId := "root"
  pidMap := ∅

/-- `nestedTree` after the exit of `web`. -/
def nestedFailed : StrategyAction × SupervisorTree :=
  nestedTree.applyStrategy "app" "web" ⟨some 1, none⟩ 0

/-- The hypotheses are met by a supervisor that has just given up. -/
theorem nested_escalation_inert : nestedFailed.1.supervisorFailed = true
    ∧ nestedFailed.2.escalateFailure "app" 0
        = (some ("root", {}), nestedFailed.2)
    ∧ ¬ nestedFailed.2.Escalates "app" "root" 0 :=
  ⟨by decide, SupervisorTree.escalation_inert
    (s := { name := "app", strategy := .oneForOne, parent := some "root"
            intensity := { maxRestarts := 0, window := fromSecs 60
                           timestamps := [0] }, children := ["web"] })
    (by decide) rfl⟩

/-- `app` exceeds its intensity on the exit of `web`, and the root,
with room for twenty restarts, records none and restarts nothing. -/
theorem nested_failure_dropped : nestedFailed.1.supervisorFailed = true
    ∧ (nestedFailed.2.escalateFailure "app" 0).1 = some ("root", {})
    ∧ ((nestedFailed.2.escalateFailure "app" 0).2.getSupervisor
          "root").map (fun r => r.intensity.timestamps) = some []
    ∧ ((nestedFailed.2.escalateFailure "app" 0).2.getWorker
          "web").map WorkerNode.state = some .abandoned := by
  decide

end Dynamod.Svmgr
