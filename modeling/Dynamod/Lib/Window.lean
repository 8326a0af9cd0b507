/-
Sliding windows over a log of times. A log that only grows at its end
can forget its oldest entries and still answer every question about a
window that ends later: what is kept and the whole log agree from some
bound on (`AgreeFrom`), and that survives appending to both, evicting
below the bound from one of them, and raising the bound.

Eviction looks at the front only. On a sorted log that is the same as
filtering (`dropWhile_lt_eq_filter`).
-/
import Mathlib.Order.Lattice
import Mathlib.Data.List.Basic

namespace Dynamod.Lib

variable {α : Type} [LinearOrder α]

/-- The entries of a log from `c` on. -/
def fromOn (c : α) (log : List α) : List α :=
  log.filter fun t => c ≤ t

@[simp] theorem fromOn_append (c : α) (xs ys : List α) :
    fromOn c (xs ++ ys) = fromOn c xs ++ fromOn c ys :=
  List.filter_append xs ys

theorem fromOn_fromOn {c d : α} (h : c ≤ d) (log : List α) :
    fromOn d (fromOn c log) = fromOn d log := by
  unfold fromOn
  rw [List.filter_filter]
  apply List.filter_congr
  intro t _
  by_cases hd : d ≤ t
  · simp [hd, le_trans h hd]
  · simp [hd]

/-- On a sorted log, popping from the front while the front is too old
leaves exactly the entries that are not. -/
theorem dropWhile_lt_eq_filter {log : List α} (h : log.Pairwise (· ≤ ·)) (c : α) :
    log.dropWhile (fun t => t < c) = fromOn c log := by
  induction log with
  | nil => rfl
  | cons t ts ih =>
    obtain ⟨hhead, htail⟩ := List.pairwise_cons.1 h
    by_cases ht : t < c
    · rw [List.dropWhile_cons_of_pos (by simpa using ht), ih htail]
      simp [fromOn, not_le.2 ht]
    · -- the front stays, and so does everything after it
      rw [List.dropWhile_cons_of_neg (by simpa using ht)]
      symm
      apply List.filter_eq_self.2
      intro u hu
      rcases List.mem_cons.1 hu with rfl | hu
      · simpa using ht
      · exact decide_eq_true (le_trans (not_lt.1 ht) (hhead u hu))

/-- The two logs have the same entries from every bound `c` on. -/
def AgreeFrom (c : α) (kept log : List α) : Prop :=
  ∀ d, c ≤ d → fromOn d kept = fromOn d log

namespace AgreeFrom

variable {c d : α} {kept log : List α}

theorem refl (c : α) (log : List α) : AgreeFrom c log log :=
  fun _ _ => rfl

theorem mono (h : AgreeFrom c kept log) (hcd : c ≤ d) : AgreeFrom d kept log :=
  fun e he => h e (le_trans hcd he)

theorem append (h : AgreeFrom c kept log) (new : List α) :
    AgreeFrom c (kept ++ new) (log ++ new) := by
  intro d hd
  rw [fromOn_append, fromOn_append, h d hd]

theorem evict (h : AgreeFrom c kept log) : AgreeFrom c (fromOn c kept) log := by
  intro d hd
  rw [fromOn_fromOn hd, h d hd]

end AgreeFrom

end Dynamod.Lib
