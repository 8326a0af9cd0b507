/-
The worklist closure: pop a node, skip it if it was seen, otherwise
mark it seen and append its unseen successors. `loop` runs on fuel;
`credit` is the amount that suffices, whatever the successor lists
are: every node of the universe pays for its successor list once, when
it is first marked.

# The result

With `credit` fuel the loop drains the queue, and the marked set is
the least one that contains the queue and the nodes already seen and is
closed under successors of newly marked nodes:
`subset_loop` and `loop_closed` are the lower bound, `loop_sound` the
upper one.
-/
import Mathlib.Algebra.BigOperators.Group.Finset.Basic
import Mathlib.Algebra.Order.BigOperators.Group.Finset
import Mathlib.Logic.Relation

namespace Dynamod.Lib.Worklist

open Relation

variable {α : Type} [DecidableEq α]

/-- Mark everything reachable from the queue, breadth first. -/
def loop (next : α → List α) : Nat → List α → Finset α → Finset α
  | 0, _, seen => seen
  | _ + 1, [], seen => seen
  | fuel + 1, x :: queue, seen =>
    if x ∈ seen then loop next fuel queue seen
    else
      loop next fuel
        (queue ++ (next x).filter (fun y => y ∉ insert x seen))
        (insert x seen)

/-- Fuel that drains the queue: one pop per queued node, and for each
unmarked node of the universe the pops its successors may cost. -/
def credit (next : α → List α) (univ : Finset α) (queue : List α) (seen : Finset α) : Nat :=
  queue.length + ∑ x ∈ univ \ seen, (next x).length

/-- Marking a node pays for whatever part of its successors is
queued. -/
theorem credit_mark (next : α → List α) {univ seen : Finset α}
    {x : α} (queue ys : List α) (hx : x ∈ univ) (hs : x ∉ seen)
    (hys : ys.length ≤ (next x).length) : credit next univ (queue ++ ys) (insert x seen) + 1
      ≤ credit next univ (x :: queue) seen := by
  have hmem : x ∈ univ \ seen := Finset.mem_sdiff.2 ⟨hx, hs⟩
  have hsum : (∑ y ∈ univ \ seen, (next y).length)
      = (next x).length + ∑ y ∈ univ \ insert x seen, (next y).length := by
    rw [Finset.sdiff_insert]
    exact (Finset.add_sum_erase _ (fun y => (next y).length) hmem).symm
  unfold credit
  rw [hsum, List.length_append, List.length_cons]
  omega

/-- Skipping a marked node costs its pop. -/
theorem credit_skip (next : α → List α) (univ seen : Finset α) (x : α) (queue : List α) :
    credit next univ queue seen + 1
      = credit next univ (x :: queue) seen := by
  unfold credit
  rw [List.length_cons]
  omega

-- ==== what is marked

theorem subset_loop (next : α → List α) (fuel : Nat) :
    ∀ (queue : List α) (seen : Finset α), seen ⊆ loop next fuel queue seen := by
  induction fuel with
  | zero => intro queue seen; exact Finset.Subset.refl _
  | succ fuel ih =>
    intro queue seen
    match queue with
    | [] => exact Finset.Subset.refl _
    | x :: queue =>
      rw [loop]
      split
      · exact ih queue seen
      · exact (Finset.subset_insert x seen).trans (ih _ _)

/-- Nothing is marked that neither was marked before nor is reachable
from the queue. -/
theorem loop_sound (next : α → List α) (fuel : Nat) :
    ∀ (queue : List α) (seen : Finset α) (y : α), y ∈ loop next fuel queue seen →
      y ∈ seen ∨ ∃ x ∈ queue, ReflTransGen (fun a b => b ∈ next a) x y := by
  induction fuel with
  | zero => intro queue seen y hy; exact Or.inl hy
  | succ fuel ih =>
    intro queue seen y hy
    match queue with
    | [] => exact Or.inl hy
    | x :: queue =>
      rw [loop] at hy
      split at hy
      · rcases ih queue seen y hy with h | ⟨z, hz, hzy⟩
        · exact Or.inl h
        · exact Or.inr ⟨z, List.mem_cons_of_mem _ hz, hzy⟩
      · rcases ih _ _ y hy with h | ⟨z, hz, hzy⟩
        · rcases Finset.mem_insert.1 h with rfl | h
          · exact Or.inr ⟨y, List.mem_cons_self, ReflTransGen.refl⟩
          · exact Or.inl h
        · rcases List.mem_append.1 hz with hz | hz
          · exact Or.inr ⟨z, List.mem_cons_of_mem _ hz, hzy⟩
          · have hxz : z ∈ next x := (List.mem_filter.1 hz).1
            exact Or.inr ⟨x, List.mem_cons_self, ReflTransGen.head hxz hzy⟩

-- ==== with enough fuel

section Enough

variable {next : α → List α} {univ : Finset α}
  (hnext : ∀ x ∈ univ, ∀ y ∈ next x, y ∈ univ)
include hnext

/-- The queue stays inside the universe when a node is marked. -/
private theorem queue_mark {x : α} {queue : List α} {seen : Finset α}
    (hq : ∀ y ∈ x :: queue, y ∈ univ) :
    ∀ y ∈ queue ++ (next x).filter (fun y => y ∉ insert x seen), y ∈ univ := by
  intro y hy
  rcases List.mem_append.1 hy with hy | hy
  · exact hq y (List.mem_cons_of_mem _ hy)
  · exact hnext x (hq x List.mem_cons_self) y (List.mem_filter.1 hy).1

/-- What is queued is marked, and a newly marked node has all its
successors marked. -/
theorem loop_closed (fuel : Nat) :
    ∀ (queue : List α) (seen : Finset α), (∀ x ∈ queue, x ∈ univ) →
      credit next univ queue seen ≤ fuel → (∀ x ∈ queue, x ∈ loop next fuel queue seen)
        ∧ ∀ x ∈ loop next fuel queue seen, x ∉ seen →
          ∀ y ∈ next x, y ∈ loop next fuel queue seen := by
  induction fuel with
  | zero =>
    intro queue seen _ hfuel
    refine ⟨fun x hx => ?_, fun x hx hn => absurd hx hn⟩
    have hlen : queue.length ≤ credit next univ queue seen := Nat.le_add_right _ _
    have := List.length_pos_of_mem hx
    omega
  | succ fuel ih =>
    intro queue seen hq hfuel
    cases queue with
    | nil => exact ⟨fun x hx => absurd hx List.not_mem_nil, fun x hx hn => absurd hx hn⟩
    | cons x queue =>
      rw [loop]
      split
      · next hseen =>
        have hcr := credit_skip next univ seen x queue
        obtain ⟨hqueue, hclosed⟩ := ih queue seen
          (fun z hz => hq z (List.mem_cons_of_mem _ hz)) (by omega)
        refine ⟨fun y hy => ?_, hclosed⟩
        rcases List.mem_cons.1 hy with rfl | hy
        · exact subset_loop next fuel queue seen hseen
        · exact hqueue y hy
      · next hseen =>
        have hcr := credit_mark next queue
          ((next x).filter (fun y => y ∉ insert x seen))
          (hq x List.mem_cons_self) hseen (List.length_filter_le _ _)
        obtain ⟨hqueue, hclosed⟩ := ih (queue ++ (next x).filter (fun y => y ∉ insert x seen))
          (insert x seen) (queue_mark hnext hq) (by omega)
        refine ⟨fun y hy => ?_, fun z hz hzn y hy => ?_⟩
        · rcases List.mem_cons.1 hy with rfl | hy
          · exact subset_loop next fuel _ _ (Finset.mem_insert_self _ _)
          · exact hqueue y (List.mem_append_left _ hy)
        · by_cases hzx : z = x
          · -- `x`'s own successors were marked already or are queued now
            subst hzx
            by_cases hyn : y ∈ insert z seen
            · exact subset_loop next fuel _ _ hyn
            · refine hqueue y (List.mem_append_right _ ?_)
              exact List.mem_filter.2 ⟨hy, by simpa using hyn⟩
          · exact hclosed z hz (by simp [hzx, hzn]) y hy

end Enough

end Dynamod.Lib.Worklist
