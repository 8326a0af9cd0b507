/-
What the restart intensity counts. `RestartIntensity` keeps only part
of the times it was given; the whole history since the last reset is a
ghost beside it (`since`).

# The invariant

What is kept agrees with the history on every window that ends at or
after the newest time (`Remembers`), and both are sorted. A recording
appends to both and evicts, from what is kept, only times that no later
window contains; a reset empties both. So the count the code compares
with `max_restarts` is the number of recorded times in the window.

The argument needs `now - window` to be an instant at every recording.
-/
import Mathlib.Data.List.Induction
import Dynamod.Lib.Window
import Dynamod.Svmgr.Intensity

namespace Dynamod.Svmgr.RestartIntensity

open Lib (fromOn AgreeFrom dropWhile_lt_eq_filter)

variable {window : Duration} {history : List Instant} {now : Instant}

-- ==== calls

/-- A call on a restart intensity. -/
inductive Call
  | record (now : Instant)
  | reset
  deriving DecidableEq

/-- What a call leaves. -/
def call (r : RestartIntensity) : Call → RestartIntensity
  | .record now => (r.recordRestartAt now).2
  | .reset => r.reset

/-- What a row of calls leaves. -/
def calls (r : RestartIntensity) (cs : List Call) : RestartIntensity :=
  cs.foldl call r

/-- The times recorded by a row of calls. -/
def recorded (cs : List Call) : List Instant :=
  cs.filterMap fun
    | .record now => some now
    | .reset => none

/-- The times recorded since the last reset, after one more call. -/
def sinceCall (history : List Instant) : Call → List Instant
  | .record now => history ++ [now]
  | .reset => []

/-- The times recorded since the last reset of a row of calls. -/
def since (cs : List Call) : List Instant :=
  cs.foldl sinceCall []

/-- `now - window` is an instant. -/
def Representable (window : Duration) (now : Instant) : Prop :=
  (checkedSub now window).isSome

instance (window : Duration) (now : Instant) : Decidable (Representable window now) :=
  inferInstanceAs (Decidable ((checkedSub now window).isSome = true))

/-- The times of `history` in `[now - window, now]`. -/
def inWindow (window : Duration) (history : List Instant) (now : Instant) : List Instant :=
  history.filter fun t => now - window ≤ t ∧ t ≤ now

/-- For a history that has not passed `now` only the lower end of the
window matters. -/
theorem inWindow_eq_fromOn (h : ∀ t ∈ history, t ≤ now) :
    inWindow window history now = fromOn (now - window) history := by
  apply List.filter_congr
  intro t ht
  simp [h t ht]

/-- A shorter window of fewer times, on a history, holds no more. -/
theorem inWindow_sublist {window' : Duration} {history' : List Instant}
    (hwindow : window ≤ window') (h : history.Sublist history') (now : Instant) :
    (inWindow window history now).Sublist (inWindow window' history' now) := by
  refine (List.monotone_filter_right history ?_).trans (h.filter _)
  intro t ht
  have hin : now - window ≤ t ∧ t ≤ now := by simpa using ht
  have hcast : (window : Int) ≤ window' := Int.ofNat_le.2 hwindow
  simp only [decide_eq_true_eq]
  exact ⟨le_trans (Int.sub_le_sub_left hcast now) hin.1, hin.2⟩

/-- A window that ends after the newest time holds no more than the one
that ends with it. -/
theorem inWindow_later {later : Instant} (h : ∀ t ∈ history, t ≤ now) (hle : now ≤ later) :
    (inWindow window history later).Sublist (inWindow window history now) := by
  have hlater : ∀ t ∈ history, t ≤ later := fun t ht => le_trans (h t ht) hle
  rw [inWindow_eq_fromOn h, inWindow_eq_fromOn hlater]
  apply List.monotone_filter_right
  intro t ht
  have hin : later - window ≤ t := by simpa using ht
  simp only [decide_eq_true_eq]
  exact le_trans (Int.sub_le_sub_right hle window) hin

-- ==== recording

theorem cutoff_of_representable {r : RestartIntensity}
    (h : Representable r.window now) : r.cutoff now = now - r.window := by
  unfold Representable checkedSub at h
  unfold cutoff checkedSub
  split
  · rfl
  · rename_i hneg
    rw [if_neg hneg] at h
    cases h

/-- The intensity `r` remembers what matters of `history`. -/
structure Remembers (r : RestartIntensity) (history : List Instant) : Prop where
  sorted : history.Pairwise (· ≤ ·)
  kept : r.timestamps.Sublist history
  agree : ∀ now, (∀ t ∈ history, t ≤ now) →
    AgreeFrom (now - r.window) r.timestamps history

namespace Remembers

variable {r : RestartIntensity}

/-- With nothing kept there is nothing to remember. -/
theorem fresh (h : r.timestamps = []) : Remembers r [] :=
  { sorted := List.Pairwise.nil
    kept := h ▸ List.Sublist.refl []
    agree := fun now _ => h ▸ AgreeFrom.refl (now - r.window) [] }

/-- The history with one more time is still sorted. -/
theorem sorted_snoc (h : Remembers r history) (hnow : ∀ t ∈ history, t ≤ now) :
    (history ++ [now]).Pairwise (· ≤ ·) := by
  refine List.pairwise_append.2 ⟨h.sorted, List.pairwise_singleton _ now, ?_⟩
  intro t ht u hu
  rw [List.mem_singleton] at hu
  exact hu ▸ hnow t ht

/-- Recording keeps the times from the cutoff on. -/
theorem timestamps_record (h : Remembers r history)
    (hnow : ∀ t ∈ history, t ≤ now) (hrep : Representable r.window now) :
    (r.recordRestartAt now).2.timestamps
      = fromOn (now - r.window) (r.timestamps ++ [now]) := by
  have hsorted : (r.timestamps ++ [now]).Pairwise (· ≤ ·) :=
    (h.sorted_snoc hnow).sublist (h.kept.append (List.Sublist.refl _))
  rw [← cutoff_of_representable hrep]
  exact dropWhile_lt_eq_filter hsorted (r.cutoff now)

theorem record (h : Remembers r history) (hnow : ∀ t ∈ history, t ≤ now)
    (hrep : Representable r.window now) :
    Remembers (r.recordRestartAt now).2 (history ++ [now]) := by
  have hts := h.timestamps_record hnow hrep
  refine ⟨h.sorted_snoc hnow, ?_, ?_⟩
  · rw [hts]
    exact (List.filter_sublist).trans (h.kept.append (List.Sublist.refl _))
  · intro later hlater
    rw [hts]
    have hle : now ≤ later := hlater now (by simp)
    -- the bound of the recording is below the bound of every later window
    have hbound : now - r.window ≤ later - r.window := Int.sub_le_sub_right hle _
    exact (((h.agree now hnow).append [now]).evict).mono hbound

/-- What is kept right after a recording is the window. -/
theorem timestamps_inWindow (h : Remembers r history)
    (hnow : ∀ t ∈ history, t ≤ now) (hrep : Representable r.window now) :
    (r.recordRestartAt now).2.timestamps
      = inWindow r.window (history ++ [now]) now := by
  have hall : ∀ t ∈ history ++ [now], t ≤ now := by
    intro t ht
    rcases List.mem_append.1 ht with ht | ht
    · exact hnow t ht
    · exact le_of_eq (List.mem_singleton.1 ht)
  rw [h.timestamps_record hnow hrep, inWindow_eq_fromOn hall]
  exact (h.agree now hnow).append [now] _ (le_refl _)

end Remembers

-- ==== all calls

theorem limits_calls (r : RestartIntensity) (cs : List Call) :
    (r.calls cs).window = r.window ∧ (r.calls cs).maxRestarts = r.maxRestarts := by
  induction cs generalizing r with
  | nil => exact ⟨rfl, rfl⟩
  | cons c cs ih =>
    obtain ⟨hwindow, hmax⟩ := ih (r.call c)
    exact ⟨hwindow.trans (by cases c <;> rfl), hmax.trans (by cases c <;> rfl)⟩

/-- The times since the last reset are among the recorded ones. -/
theorem mem_since {cs : List Call} {t : Instant} (h : t ∈ since cs) : t ∈ recorded cs := by
  induction cs using List.reverseRecOn with
  | nil => exact h
  | append_singleton cs c ih =>
    unfold since at h
    rw [List.foldl_append] at h
    unfold recorded
    rw [List.filterMap_append]
    cases c with
    | record now =>
      rcases List.mem_append.1 h with h | h
      · exact List.mem_append_left _ (ih h)
      · exact List.mem_append_right _ h
    | reset => cases h

/-- After calls at non-decreasing times the intensity remembers what
was recorded since the last reset. -/
theorem remembers_calls (maxRestarts : Nat) (window : Duration) (cs : List Call)
    (hsorted : (recorded cs).Pairwise (· ≤ ·))
    (hrep : ∀ t ∈ recorded cs, Representable window t) :
    Remembers ((RestartIntensity.new maxRestarts window).calls cs) (since cs) := by
  induction cs using List.reverseRecOn with
  | nil => exact Remembers.fresh rfl
  | append_singleton cs c ih =>
    have happend : recorded (cs ++ [c]) = recorded cs ++ recorded [c] :=
      List.filterMap_append
    rw [happend] at hsorted hrep
    obtain ⟨hbefore, -, hlast⟩ := List.pairwise_append.1 hsorted
    have hcs := ih hbefore fun t ht => hrep t (List.mem_append_left _ ht)
    have hcalls : (RestartIntensity.new maxRestarts window).calls (cs ++ [c])
        = ((RestartIntensity.new maxRestarts window).calls cs).call c := by
      simp [calls]
    have hsince : since (cs ++ [c]) = sinceCall (since cs) c := by
      simp [since]
    rw [hcalls, hsince]
    cases c with
    | reset => exact Remembers.fresh rfl
    | record now =>
      apply hcs.record
      · intro t ht
        exact hlast t (mem_since ht) now (by simp [recorded])
      · rw [(limits_calls _ cs).1]
        exact hrep now (by simp [recorded])

/-- At every recording the answer is whether the times recorded since
the last reset, this one included, that lie in the window exceed the
limit, and the count afterwards is their number. -/
theorem recordRestartAt_counts_window (maxRestarts : Nat) (window : Duration)
    (cs : List Call) (now : Instant) (hsorted : (recorded (cs ++ [.record now])).Pairwise (· ≤ ·))
    (hrep : ∀ t ∈ recorded (cs ++ [.record now]), Representable window t) :
    let answer :=
      ((RestartIntensity.new maxRestarts window).calls cs).recordRestartAt now
    let inside := (inWindow window (since cs ++ [now]) now).length
    (answer.1 = true ↔ maxRestarts < inside) ∧ answer.2.currentCount = inside := by
  intro answer inside
  have happend : recorded (cs ++ [.record now]) = recorded cs ++ [now] :=
    List.filterMap_append
  rw [happend] at hsorted hrep
  obtain ⟨hbefore, -, hlast⟩ := List.pairwise_append.1 hsorted
  have hcs := remembers_calls maxRestarts window cs hbefore fun t ht =>
    hrep t (List.mem_append_left _ ht)
  obtain ⟨hwindow, hmax⟩ := limits_calls (RestartIntensity.new maxRestarts window) cs
  have hkept : answer.2.timestamps = inWindow window (since cs ++ [now]) now := by
    have hnow : ∀ t ∈ since cs, t ≤ now := fun t ht =>
      hlast t (mem_since ht) now (List.mem_singleton_self now)
    have hkeep := hcs.timestamps_inWindow hnow (by rw [hwindow]; exact hrep now (by simp))
    rw [hwindow] at hkeep
    exact hkeep
  have hcount : answer.2.currentCount = inside := congrArg List.length hkept
  refine ⟨?_, hcount⟩
  -- the answer compares the same count
  rw [← hcount]
  show decide (_ > _) = true ↔ _
  rw [hmax, decide_eq_true_iff]
  exact Iff.rfl

/-- A limit of one restart in ten seconds: of four recordings the first
is forgotten by the reset, the second has left the window when the last
one comes, and the third, exactly ten seconds old, still counts. -/
theorem third_recording_at_the_cutoff :
    let cs : List Call := [.record 0, .reset, .record (fromSecs 4), .record (fromSecs 5)]
    let r := (RestartIntensity.new 1 (fromSecs 10)).calls cs
    inWindow (fromSecs 10) (since cs ++ [(fromSecs 15 : Int)]) (fromSecs 15)
        = [(fromSecs 5 : Int), (fromSecs 15 : Int)] ∧
      (r.recordRestartAt (fromSecs 15)).1 = true := by
  intro cs r
  have hinside : inWindow (fromSecs 10) (since cs ++ [(fromSecs 15 : Int)])
      (fromSecs 15) = [(fromSecs 5 : Int), (fromSecs 15 : Int)] := by decide
  refine ⟨hinside, ?_⟩
  apply (recordRestartAt_counts_window 1 (fromSecs 10) cs (fromSecs 15)
    (by decide) (by decide)).1.2
  rw [hinside]
  exact Nat.lt_succ_self 1

end Dynamod.Svmgr.RestartIntensity
