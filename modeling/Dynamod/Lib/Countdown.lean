/-
Counting down unmet predecessors. A scheduler that starts a node when
its last predecessor is finished keeps one counter per node, set to
the number of the node's predecessors and decremented each time one of
them finishes; a counter that reaches zero queues its node. The
counters here are a map and the queue a list, so that a scheduler can
keep the two as fields of its own state.

# What the counters mean

`decAll_lookup` and `decAll_queue` say what one pass over the
successors of a finished node does, for any duplicate-free walk.
`card_sdiff_insert` and its twin turn that into the invariant "the
counter is the number of unfinished predecessors".
-/
import Dynamod.Lib.Maps
import Mathlib.Data.Finset.Card

namespace Dynamod.Lib.Countdown

variable {α : Type} [DecidableEq α]

/-- Decrement the counter of `x`, saturating at zero, and queue `x`
when the counter has reached zero and `push` agrees. A node without a
counter is left alone. -/
def dec (push : α → Bool) (s : HashMap α Nat × List α) (x : α) : HashMap α Nat × List α :=
  match s.1.lookup x with
  | some n =>
    (s.1.insert x (n - 1),
      if n - 1 = 0 ∧ push x = true then s.2 ++ [x] else s.2)
  | none => s

/-- One pass of `dec` over the nodes of `xs` that `touch` selects. -/
def decAll (touch push : α → Bool) (xs : List α)
    (s : HashMap α Nat × List α) : HashMap α Nat × List α :=
  xs.foldl (fun s x => if touch x then dec push s x else s) s

/-- The nodes a pass queues: touched, with a counter at zero or one,
and not vetoed. -/
def fires (touch push : α → Bool) (count : HashMap α Nat) (x : α) : Bool :=
  touch x && push x &&
    match count.lookup x with
    | some n => n - 1 == 0
    | none => false

-- ==== one decrement

theorem dec_lookup (push : α → Bool) (s : HashMap α Nat × List α) (x y : α) :
    (dec push s x).1.lookup y
      = if y = x then (s.1.lookup x).map (· - 1) else s.1.lookup y := by
  unfold dec
  cases h : s.1.lookup x with
  | some n => exact HashMap.lookup_insert_ite s.1 x y (n - 1)
  | none =>
    by_cases hy : y = x
    · rw [if_pos hy, hy, h]
      rfl
    · rw [if_neg hy]

theorem dec_queue (push : α → Bool) (s : HashMap α Nat × List α) (x : α) : (dec push s x).2
    = s.2 ++ (if fires (fun _ => true) push s.1 x then [x] else []) := by
  unfold dec fires
  cases h : s.1.lookup x with
  | some n =>
    by_cases hn : n - 1 = 0 <;> cases hp : push x <;> simp [hn]
  | none => simp

-- ==== one pass

/-- A pass lowers exactly the counters of the touched nodes it walks,
each by one. -/
theorem decAll_lookup (touch push : α → Bool) {xs : List α}
    (hxs : xs.Nodup) (s : HashMap α Nat × List α) (y : α) : (decAll touch push xs s).1.lookup y
      = if y ∈ xs ∧ touch y = true then (s.1.lookup y).map (· - 1)
        else s.1.lookup y := by
  induction xs generalizing s with
  | nil => simp [decAll]
  | cons x xs ih =>
    obtain ⟨hx, hxs⟩ := List.nodup_cons.1 hxs
    have hstep : ∀ z, (if touch x then dec push s x else s).1.lookup z
        = if z = x ∧ touch x = true then (s.1.lookup x).map (· - 1)
          else s.1.lookup z := by
      intro z
      cases htx : touch x with
      | true => simpa using dec_lookup push s x z
      | false => simp
    show (decAll touch push xs _).1.lookup y = _
    rw [ih hxs, hstep y]
    by_cases hy : y = x
    · subst hy
      simp [hx]
    · simp [hy]

theorem decAll_keys (touch push : α → Bool) {xs : List α}
    (hxs : xs.Nodup) (s : HashMap α Nat × List α) :
    (decAll touch push xs s).1.keys = s.1.keys := by
  ext y
  rw [Finmap.mem_keys, Finmap.mem_keys, ← Finmap.lookup_isSome,
    ← Finmap.lookup_isSome, decAll_lookup touch push hxs]
  split
  · rw [Option.isSome_map]
  · rfl

/-- A pass queues, in walking order, the touched nodes whose counter
it brought to zero. -/
theorem decAll_queue (touch push : α → Bool) {xs : List α}
    (hxs : xs.Nodup) (s : HashMap α Nat × List α) : (decAll touch push xs s).2
      = s.2 ++ xs.filter (fires touch push s.1) := by
  induction xs generalizing s with
  | nil => simp [decAll]
  | cons x xs ih =>
    obtain ⟨hx, hxs⟩ := List.nodup_cons.1 hxs
    show (decAll touch push xs (if touch x then dec push s x else s)).2 = _
    rw [ih hxs]
    -- the rest of the walk never revisits `x`, so it reads the
    -- counters as they were before this decrement
    have hrest : xs.filter
        (fires touch push (if touch x then dec push s x else s).1)
        = xs.filter (fires touch push s.1) := by
      apply List.filter_congr
      intro y hy
      have hne : y ≠ x := fun h => hx (h ▸ hy)
      unfold fires
      cases touch x with
      | true => rw [if_pos rfl, dec_lookup, if_neg hne]
      | false => rfl
    rw [hrest, List.filter_cons]
    cases htx : touch x with
    | true =>
      rw [if_pos rfl, dec_queue]
      have hf : fires touch push s.1 x
          = fires (fun _ => true) push s.1 x := by
        unfold fires
        rw [htx]
      rw [hf]
      cases fires (fun _ => true) push s.1 x <;> simp
    | false => simp [fires, htx]

/-- A scheduler whose loop body is one `dec` on its counters and its
queue runs a pass: `put` is its state with the rest held fixed. -/
theorem foldl_put {σ : Type} (put : HashMap α Nat × List α → σ)
    (step : σ → α → σ) (touch push : α → Bool) (hstep : ∀ c x, step (put c) x
      = if touch x then put (dec push c x) else put c) (xs : List α) :
    ∀ c, xs.foldl step (put c) = put (decAll touch push xs c) := by
  induction xs with
  | nil => intro c; rfl
  | cons x xs ih =>
    intro c
    rw [List.foldl_cons, hstep]
    cases htx : touch x with
    | true =>
      rw [if_pos rfl, ih]
      simp [decAll, htx]
    | false =>
      rw [if_neg (by simp), ih]
      simp [decAll, htx]

-- ==== counting what is left

/-- Finishing a predecessor that was still owed lowers the count of
unfinished predecessors by one. -/
theorem card_sdiff_insert {deps done : Finset α} {d : α} (hd : d ∈ deps) (hn : d ∉ done) :
    (deps \ insert d done).card = (deps \ done).card - 1 := by
  rw [Finset.sdiff_insert, Finset.card_erase_of_mem]
  exact Finset.mem_sdiff.2 ⟨hd, hn⟩

/-- Finishing a node that is no predecessor changes nothing. -/
theorem sdiff_insert_of_notMem {deps done : Finset α} {d : α}
    (hd : d ∉ deps) : deps \ insert d done = deps \ done := by
  rw [Finset.sdiff_insert, Finset.erase_eq_of_notMem]
  exact fun h => hd (Finset.mem_sdiff.1 h).1

end Dynamod.Lib.Countdown
