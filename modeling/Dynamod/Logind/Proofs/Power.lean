/-
Power actions against block inhibitors
(`dynamod-logind/src/{inhibitor,power,acpi,manager}.rs`).

# The invariant

An inhibitor whose pipe is not readable is in the daemon's list
(`Sound.kept`), so a check of the list after `retain` misses only those
that were closed or written to. A task past the acceptance of its
request, and an effect in the log, carry the inhibitors that were
against the action then; there are none (`Sound.tasks`, `Sound.log`).

The handler accepts an action after a look at the list, a method of the
manager without one. This is why the runs are restricted: the methods
come when nobody is against them, and no client writes into the pipe of
an inhibitor that the handler is about to look for (`World.Unopposed`).
-/
import Dynamod.Lib.Runs
import Dynamod.Logind.Power

namespace Dynamod.Logind.Power

open Lib

variable {action : HandleAction}

/-- The inhibitors that were against the action of a task. -/
def Stage.against : Stage → List Inhibitor
  | .checking _ => []
  | .starting _ against => against
  | .waiting _ against _ => against
  | .issuing _ against => against
  | .finished _ => []

namespace World

-- ==== the condition

/-- No client wrote into the pipe of an inhibitor that it still holds
and that is against the action to be checked. -/
def Unwritten (w : World) : Stage → Prop
  | .checking action =>
    ∀ b ∈ w.blockers action.inhibitWhat, (w.pipe b.pipeRead).written = false
  | _ => True

instance (w : World) : (s : Stage) → Decidable (w.Unwritten s)
  | .checking action => inferInstanceAs (Decidable
      (∀ b ∈ w.blockers action.inhibitWhat, (w.pipe b.pipeRead).written = false))
  | .starting _ _ | .waiting _ _ _ | .issuing _ _ | .finished _ =>
    inferInstanceAs (Decidable True)

/-- The steps under which no action runs against a block inhibitor. -/
def Unopposed (w : World) : Event → Prop
  | .request method => w.blockers method.action.what = []
  | .run i _ _ => w.Unwritten (w.stage i)
  | _ => True

instance (w : World) : (e : Event) → Decidable (w.Unopposed e)
  | .request method => inferInstanceAs (Decidable (w.blockers method.action.what = []))
  | .run i _ _ => inferInstanceAs (Decidable (w.Unwritten (w.stage i)))
  | .inhibit _ _ | .close _ | .write _ | .collect | .reload _ | .press _
  | .dispatch _ _ => inferInstanceAs (Decidable True)

-- ==== the invariant

/-- What holds in every state of such a run. -/
structure Sound (w : World) : Prop where
  fresh : ∀ i ∈ w.granted, i.pipeRead < w.pipes.length
  kept : ∀ i ∈ w.granted, w.isReleased i = false → i ∈ w.inhibitors
  tasks : ∀ t ∈ w.tasks, t.stage.against = []
  log : ∀ e ∈ w.log, e.against = []

variable {w : World}

theorem sound_start (config : PowerConfig) (now : Nat) : (start config now).Sound where
  fresh := by simp [start]
  kept := by simp [start]
  tasks := by simp [start]
  log := by simp [start]

/-- The stage of a task is one of the stages of the list, or finished. -/
theorem Sound.stage_against (h : w.Sound) (i : Nat) : (w.stage i).against = [] := by
  unfold stage
  cases hi : w.tasks[i]? with
  | none => rfl
  | some t => exact h.tasks t (List.mem_of_getElem? hi)

theorem Sound.retain (h : w.Sound) : w.retain.Sound where
  fresh := h.fresh
  kept := by
    intro i hi hopen
    have hopen' : w.isReleased i = false := hopen
    exact List.mem_filter.2 ⟨h.kept i hi hopen', by simp [hopen']⟩
  tasks := h.tasks
  log := h.log

theorem Sound.goto (h : w.Sound) (i : Nat) {s : Stage} (hs : s.against = []) :
    (w.goto i s).Sound where
  fresh := h.fresh
  kept := h.kept
  tasks := by
    intro t ht
    obtain ⟨j, hj⟩ := List.mem_iff_getElem?.1 ht
    rw [World.goto, List.getElem?_modify] at hj
    obtain ⟨t', ht', rfl⟩ := Option.map_eq_some_iff.1 hj
    by_cases hij : i = j
    · simp [hij, hs]
    · simp [hij, h.tasks t' (List.mem_of_getElem? ht')]
  log := h.log

theorem Sound.spawn (h : w.Sound) {t : Task} (ht : t.stage.against = []) : (w.spawn t).Sound where
  fresh := h.fresh
  kept := h.kept
  tasks := by
    intro t' ht'
    rcases List.mem_append.1 ht' with hold | hnew
    · exact h.tasks t' hold
    · rw [List.mem_singleton.1 hnew]
      exact ht
  log := h.log

theorem Sound.record (h : w.Sound) {against : List Inhibitor} (hnone : against = [])
    (effects : List PowerEffect) : (w.record against effects).Sound where
  fresh := h.fresh
  kept := h.kept
  tasks := h.tasks
  log := by
    intro e he
    rcases List.mem_append.1 he with hold | hnew
    · exact h.log e hold
    · obtain ⟨effect, -, rfl⟩ := List.mem_map.1 hnew
      exact hnone

-- ==== the pipes

theorem Sound.modifyPipe (h : w.Sound) (p : Nat) {f : Pipe → Pipe}
    (hf : ∀ q, ((f q).written || (f q).closed) = false → (q.written || q.closed) = false) :
    ({ w with pipes := w.pipes.modify p f } : World).Sound where
  fresh := by simpa using h.fresh
  kept := by
    intro i hi hopen
    refine h.kept i hi ?_
    have hlt := h.fresh i hi
    unfold isReleased pipe at hopen ⊢
    rw [List.getElem?_modify, List.getElem?_eq_getElem hlt] at hopen
    rw [List.getElem?_eq_getElem hlt]
    by_cases hp : p = i.pipeRead
    · exact hf _ (by simpa [hp] using hopen)
    · simpa [hp] using hopen
  tasks := h.tasks
  log := h.log

theorem Sound.inhibit (h : w.Sound) (call : InhibitCall) (failure : Option String) :
    (w.inhibit call failure).Sound := by
  cases failure with
  | some _ => exact ⟨h.fresh, h.kept, h.tasks, h.log⟩
  | none =>
    refine ⟨?_, ?_, h.tasks, h.log⟩
    · intro i hi
      have hlength : (w.inhibit call none).pipes.length = w.pipes.length + 1 := by
        simp [World.inhibit]
      rcases List.mem_append.1 hi with hold | hnew
      · have := h.fresh i hold
        omega
      · rw [List.mem_singleton.1 hnew, hlength]
        exact Nat.lt_succ_self _
    · intro i hi hopen
      rcases List.mem_append.1 hi with hold | hnew
      · refine List.mem_append_left _ (h.kept i hold ?_)
        unfold isReleased pipe at hopen ⊢
        rwa [show (w.inhibit call none).pipes[i.pipeRead]? = w.pipes[i.pipeRead]?
          from List.getElem?_append_left (h.fresh i hold)] at hopen
      · exact List.mem_append_right _ hnew

-- ==== acceptance

/-- The text for the check and the text of the action agree. -/
theorem inhibitWhat_eq {a : PowerAction}
    (h : action.powerAction = some a) : action.inhibitWhat = a.what := by
  cases action <;> cases h <;> rfl

/-- What the check does not find in the list, nobody holds. -/
theorem Sound.blockers_eq_nil (h : w.Sound) {what : String}
    (hunwritten : ∀ b ∈ w.blockers what, (w.pipe b.pipeRead).written = false)
    (hpassed : w.hasInhibitor "block" what = false) : w.blockers what = [] := by
  refine List.eq_nil_iff_forall_not_mem.2 fun b hb => ?_
  obtain ⟨hgranted, hheld⟩ := List.mem_filter.1 hb
  obtain ⟨hclosed, hblocks⟩ := (Bool.and_eq_true _ _).mp hheld
  have hopen : w.isReleased b = false := by
    simp only [Bool.not_eq_true'] at hclosed
    simp [isReleased, hunwritten b hb, hclosed]
  have hlisted : b ∈ w.retain.inhibitors :=
    List.mem_filter.2 ⟨h.kept b hgranted hopen, by simp [hopen]⟩
  have hfound : w.hasInhibitor "block" what = true :=
    List.any_eq_true.2 ⟨b, hlisted, hblocks⟩
  rw [hpassed] at hfound
  cases hfound

theorem Sound.accept (h : w.Sound) (i : Nat)
    (hnone : ∀ a, action.powerAction = some a → w.blockers a.what = []) :
    (w.accept i action).Sound := by
  unfold World.accept
  cases ha : action.powerAction with
  | none => exact h.goto i rfl
  | some a => exact h.goto i (hnone a ha)

theorem Sound.check (h : w.Sound) (i : Nat)
    (hunwritten : w.Unwritten (.checking action)) : (w.check i action).Sound := by
  unfold World.check
  dsimp only
  split
  · rename_i hempty
    refine h.accept i fun a ha => ?_
    rw [inhibitWhat_eq ha] at hempty
    cases a <;> simp [PowerAction.what] at hempty
  · split
    · exact h.retain.goto i rfl
    · rename_i hpassed
      refine h.retain.accept i fun a ha => ?_
      rw [← inhibitWhat_eq ha]
      exact h.blockers_eq_nil hunwritten (Bool.eq_false_iff.2 hpassed)

-- ==== runs

theorem Sound.dispatch (h : w.Sound) (online : Option String) (now : Nat) :
    (w.dispatch online now).Sound := by
  have htaken : ∀ queue last,
      ({ w with queue := queue, lastLidEvent := last } : World).Sound :=
    fun _ _ => ⟨h.fresh, h.kept, h.tasks, h.log⟩
  unfold World.dispatch
  split
  · split
    · exact h
    · dsimp only
      split
      · exact htaken _ _
      · exact (htaken _ _).spawn rfl
      · split
        · exact htaken _ _
        · exact (htaken _ _).spawn rfl
  · exact h

theorem Sound.run (h : w.Sound) (i now : Nat) (result : Except String Unit)
    (hunwritten : w.Unwritten (w.stage i)) : (w.run i now result).Sound := by
  have hagainst := h.stage_against i
  unfold World.run
  cases hstage : w.stage i with
  | checking action =>
    rw [hstage] at hunwritten
    exact h.check i hunwritten
  | starting action against =>
    rw [hstage] at hagainst
    exact (h.record hagainst _).goto i hagainst
  | waiting action against deadline =>
    rw [hstage] at hagainst
    dsimp only
    split
    · exact h.retain
    · exact h.retain.goto i hagainst
  | issuing action against =>
    rw [hstage] at hagainst
    exact (h.record hagainst _).goto i rfl
  | finished _ => exact h

theorem Sound.step (h : w.Sound) (e : Event) (hok : w.Unopposed e) : (w.step e).Sound := by
  cases e with
  | inhibit call failure => exact h.inhibit call failure
  | close p => exact h.modifyPipe p (by simp)
  | write p => exact h.modifyPipe p (by simp)
  | collect => exact h.retain
  | reload config => exact ⟨h.fresh, h.kept, h.tasks, h.log⟩
  | request method => exact h.spawn hok
  | press event =>
    show (w.press event).Sound
    unfold World.press
    split
    · exact ⟨h.fresh, h.kept, h.tasks, h.log⟩
    · exact h
  | dispatch online now => exact h.dispatch online now
  | run i now result => exact h.run i now result hok

/-- A daemon that has just started. -/
def Initial (w : World) : Prop := ∃ config now, w = start config now

/-- In every run of such steps, each write to `/sys/power/state`, each
shutdown request and each signal is of an action that no block inhibitor
was against when its request was accepted. -/
theorem never_against_blockers (h : Reaches Initial step Unopposed w) :
    ∀ e ∈ w.log, e.against = [] := by
  have hsound : w.Sound := by
    refine h.invariant ?_ fun w e hw hok => Sound.step hw e hok
    rintro _ ⟨config, now, rfl⟩
    exact sound_start config now
  exact hsound.log

/-- A player keeps the machine from sleeping. -/
def playing : Event :=
  .inhibit { what := "idle:sleep", who := "player", why := "film", mode := "block"
             uid := 1000, pid := 70 } none

/-- The inhibitor it gets. -/
def playerInhibitor : Inhibitor :=
  { what := "idle:sleep", who := "player", why := "film", mode := "block"
    uid := 1000, pid := 70, cookie := 1, pipeRead := 0 }

/-- The first task runs to its end. -/
def ranThrough : List Event :=
  [.run 0 0 (.ok ()), .run 0 0 (.ok ()), .run 0 0 (.ok ())]

/-- The method suspends the machine, although the player holds its
inhibitor from before the request until after the write. -/
theorem suspended_against_block :
    ((playing :: .request .suspend :: ranThrough).foldl step (start {} 0)).log
        = [{ effect := .prepareForSleep true, against := [playerInhibitor] },
          { effect := .writePowerState "mem", against := [playerInhibitor] },
          { effect := .prepareForSleep false, against := [playerInhibitor] }]
      ∧ ((playing :: .request .suspend :: ranThrough).foldl step
          (start {} 0)).blockers "sleep" = [playerInhibitor] := by
  decide

-- a byte in the pipe is taken for a release: the handler lets it pass
example : { effect := .writePowerState "mem", against := [playerInhibitor] }
    ∈ (([playing, .write 0, .press .sleepButton, .dispatch none 0, .run 0 0 (.ok ())]
        ++ ranThrough).foldl step (start {} 0)).log := by
  decide

/-- The player is closed, and then the sleep button is pressed. -/
def closedAndPressed : List Event :=
  [playing, .close 0, .press .sleepButton, .dispatch none 0, .run 0 0 (.ok ())]
    ++ ranThrough

theorem suspended_after_close :
    { effect := .writePowerState "mem", against := [] }
        ∈ (closedAndPressed.foldl step (start {} 0)).log
      ∧ ∀ e ∈ (closedAndPressed.foldl step (start {} 0)).log, e.against = [] :=
  ⟨by decide, never_against_blockers
    ((Reaches.init ⟨{}, 0, rfl⟩).run closedAndPressed (by decide))⟩

end World

end Dynamod.Logind.Power
