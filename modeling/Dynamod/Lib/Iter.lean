/-
Iteration orders of hash collections. A hash set promises which
elements it holds and nothing about the order a walk meets them in, so
the set is modelled as a `Finset` and every walk over it takes the
order as an argument: a duplicate-free list with the set's elements.
A statement quantified over the order argument then holds for every
hasher, capacity and insertion history.

`IterOrder.sorted` is the one order fixed here, for evaluating a model
on concrete inputs. It sorts by insertion, which reduces in the kernel
(`Finset.sort` is a merge sort by well-founded recursion and does
not).
-/
import Mathlib.Data.Finset.Card
import Mathlib.Data.List.Sort

namespace Dynamod.Lib

/-- One order in which a walk over the hash set `s` may meet its
elements. -/
structure IterOrder {α : Type} (s : Finset α) where
  list : List α
  nodup : list.Nodup
  mem_iff : ∀ x, x ∈ list ↔ x ∈ s

namespace IterOrder

variable {α : Type}

theorem mem {s : Finset α} (o : IterOrder s) {x : α} : x ∈ o.list ↔ x ∈ s := o.mem_iff x

-- ==== the sorted order

variable [LinearOrder α]

/-- The multiset of a finite set, sorted: insertion sort forgets the
order it is handed. -/
def sortedList (s : Finset α) : List α :=
  Quot.liftOn s.val (List.insertionSort (· ≤ ·)) fun l₁ l₂ h =>
    List.Perm.eq_of_pairwise' (List.pairwise_insertionSort _ l₁)
      (List.pairwise_insertionSort _ l₂)
      ((List.perm_insertionSort _ l₁).trans (h.trans (List.perm_insertionSort _ l₂).symm))

theorem coe_sortedList (s : Finset α) : (sortedList s : Multiset α) = s.val := by
  obtain ⟨m, hm⟩ := s
  induction m using Quot.inductionOn with
  | h l => exact Quot.sound (List.perm_insertionSort _ l)

theorem pairwise_sortedList (s : Finset α) : (sortedList s).Pairwise (· ≤ ·) := by
  obtain ⟨m, hm⟩ := s
  induction m using Quot.inductionOn with
  | h l => exact List.pairwise_insertionSort _ l

/-- The ascending order, as an iteration order. -/
def sorted (s : Finset α) : IterOrder s where
  list := sortedList s
  nodup := by
    rw [← Multiset.coe_nodup, coe_sortedList]
    exact s.nodup
  mem_iff x := by
    rw [← Multiset.mem_coe, coe_sortedList, Finset.mem_val]

end IterOrder

end Dynamod.Lib
