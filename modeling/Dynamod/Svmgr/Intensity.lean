/-
Restart intensity (`supervisor/intensity.rs`): the restart times a
supervisor remembers, and the check that too many of them fall within
its window.

Times are `Instant`s, whole nanoseconds of the monotonic clock. The
clock counts seconds in 64 bits, so `checked_sub` fails below the
smallest representable instant and `record_restart_at` then falls back
to `now` as the cutoff.
-/
import Mathlib.Algebra.Order.Group.Int
import Mathlib.Data.List.Basic

namespace Dynamod.Svmgr

-- ==== time

/-- A reading of the monotonic clock, in nanoseconds. -/
abbrev Instant := Int

/-- A length of time, in nanoseconds. -/
abbrev Duration := Nat

def fromSecs (n : Nat) : Duration := n * 1000000000

def fromMillis (n : Nat) : Duration := n * 1000000

/-- `Instant::checked_sub`: the seconds of an instant are an `i64`. -/
def checkedSub (now : Instant) (d : Duration) : Option Instant :=
  if -(2 ^ 63) * 1000000000 ≤ now - d then some (now - d) else none

-- ==== intensity

structure RestartIntensity where
  maxRestarts : Nat
  window : Duration
  /-- Oldest first. -/
  timestamps : List Instant := []
  deriving DecidableEq

namespace RestartIntensity

def new (maxRestarts : Nat) (window : Duration) : RestartIntensity :=
  { maxRestarts, window }

/-- The oldest time still inside the window that ends at `now`. -/
def cutoff (r : RestartIntensity) (now : Instant) : Instant :=
  (checkedSub now r.window).getD now

/-- `record_restart_at`: whether the intensity is exceeded, and the
times kept. -/
def recordRestartAt (r : RestartIntensity) (now : Instant) : Bool × RestartIntensity :=
  let timestamps :=
    (r.timestamps ++ [now]).dropWhile (fun t => t < r.cutoff now)
  (timestamps.length > r.maxRestarts, { r with timestamps })

def reset (r : RestartIntensity) : RestartIntensity :=
  { r with timestamps := [] }

def currentCount (r : RestartIntensity) : Nat := r.timestamps.length

-- ==== what recording changes

theorem cutoff_le (r : RestartIntensity) (now : Instant) : r.cutoff now ≤ now := by
  unfold cutoff checkedSub
  split
  · exact Int.sub_le_self now (Int.natCast_nonneg r.window)
  · exact le_refl _

/-- The restart being recorded is never evicted by its own recording,
so it is the newest time kept. -/
theorem recordRestartAt_timestamps (r : RestartIntensity) (now : Instant) :
    (r.recordRestartAt now).2.timestamps
      = r.timestamps.dropWhile (fun t => t < r.cutoff now) ++ [now] := by
  have hnow : ¬ now < r.cutoff now := not_lt.2 (r.cutoff_le now)
  show (r.timestamps ++ [now]).dropWhile _ = _
  induction r.timestamps with
  | nil => simp [hnow]
  | cons t ts ih =>
    by_cases ht : t < r.cutoff now
    · simpa [ht] using ih
    · simp [ht]

/-- Recording a restart always changes what the supervisor remembers. -/
theorem recordRestartAt_ne (r : RestartIntensity) (now : Instant) :
    (r.recordRestartAt now).2 ≠ r := by
  intro h
  have hts := r.recordRestartAt_timestamps now
  rw [h] at hts
  have hle := r.cutoff_le now
  cases hr : r.timestamps with
  | nil => simp [hr] at hts
  | cons t ts =>
    rw [hr] at hts
    by_cases ht : t < r.cutoff now
    · -- the oldest time is evicted, so the next one takes its place
      rw [List.dropWhile_cons_of_pos (by simpa using ht)] at hts
      cases hd : ts.dropWhile (fun t => decide (t < r.cutoff now)) with
      | nil =>
        rw [hd] at hts
        obtain ⟨rfl, -⟩ := List.cons.inj hts
        exact absurd ht (not_lt.2 hle)
      | cons u us =>
        rw [hd] at hts
        obtain ⟨rfl, -⟩ := List.cons.inj hts
        have := List.head_dropWhile_not
          (fun t => decide (t < r.cutoff now)) (l := ts) (by simp [hd])
        simp only [hd, List.head_cons, decide_eq_false_iff_not] at this
        exact this ht
    · rw [List.dropWhile_cons_of_neg (by simpa using ht)] at hts
      have := congrArg List.length hts
      simp at this

end RestartIntensity

end Dynamod.Svmgr
