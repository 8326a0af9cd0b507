/-
The lines of a text, over any alphabet with a line feed `nl` and a
carriage return `cr`: what ends in a line feed, without it and without
one carriage return before it, and the rest behind the last line feed
unless it is empty. The rest keeps its carriage return.

A text is taken apart line by line from the front: `lines_terminated`, and
`linesInduction` for what holds of every text. A string with a line feed
in it that occurs in a text occurs at the first line feed or behind it
(`occurs_across`).

Of a text of terminated lines that is not read to its end, every line is
there up to some place, which is its end for all but one: `cutLines`, and
`tokens_take_lines` for the pieces that are not empty.
-/
import Mathlib.Data.List.Basic

namespace Dynamod.Lib

variable {α : Type} [DecidableEq α] {nl cr : α} {line rest : List α}

-- ==== the pieces

theorem splitOn_line (h : nl ∉ line) :
    (line ++ nl :: rest).splitOn nl = line :: rest.splitOn nl := by
  apply List.splitOnP_append_cons_of_forall_mem
  · intro c hc
    exact beq_eq_false_iff_ne.2 fun e => h (e ▸ hc)
  · exact beq_self_eq_true nl

theorem splitOn_rest (h : nl ∉ rest) : rest.splitOn nl = [rest] := by
  apply List.splitOnP_eq_singleton
  intro c hc
  exact beq_eq_false_iff_ne.2 fun e => h (e ▸ hc)

omit [DecidableEq α] in
/-- What holds of a text without a line feed, and of a line before a text
it holds of, holds of every text. -/
theorem linesInduction (nl : α) {motive : List α → Prop} (hrest : ∀ rest, nl ∉ rest → motive rest)
    (hline : ∀ line rest, nl ∉ line → motive rest → motive (line ++ nl :: rest))
    (text : List α) : motive text := by
  induction hn : text.length using Nat.strongRecOn generalizing text with
  | ind n ih =>
    by_cases hmem : nl ∈ text
    · obtain ⟨line, rest, rfl, hnotin⟩ := List.eq_append_cons_of_mem hmem
      apply hline line rest hnotin
      refine ih rest.length ?_ rest rfl
      rw [← hn, List.length_append, List.length_cons]
      omega
    · exact hrest text hmem

theorem length_le_of_mem_splitOn {text piece : List α} (h : piece ∈ text.splitOn nl) :
    piece.length ≤ text.length := by
  induction text using linesInduction nl with
  | hrest rest hrest =>
    rw [splitOn_rest hrest, List.mem_singleton] at h
    exact Nat.le_of_eq (congrArg List.length h)
  | hline line rest hline ih =>
    rw [splitOn_line hline] at h
    rw [List.length_append, List.length_cons]
    rcases List.mem_cons.1 h with rfl | h
    · omega
    · have := ih h
      omega

omit [DecidableEq α] in
/-- A string without a line feed that ends a text lies behind every line
feed of it. -/
theorem suffix_behind {part : List α} (h : nl ∉ part) (hend : part <:+ line ++ nl :: rest) :
    part <:+ rest := by
  obtain ⟨before, e⟩ := hend
  rcases List.append_eq_append_iff.1 e with ⟨gap, -, hpart⟩ | ⟨gap, -, hrest⟩
  · exact absurd (hpart ▸ List.mem_append_right _ List.mem_cons_self) h
  · cases gap with
    | nil =>
      rw [List.nil_append] at hrest
      exact absurd (hrest ▸ List.mem_cons_self) h
    | cons c gap =>
      obtain ⟨-, rfl⟩ := List.cons.inj hrest
      exact List.suffix_append gap part

omit [DecidableEq α] in
/-- A string with a line feed that is found in a text is found at the
first line feed, or behind it. -/
theorem occurs_across {p q : List α} (hp : nl ∉ p) (hline : nl ∉ line) :
    p ++ nl :: q <:+: line ++ nl :: rest
      ↔ (p <:+ line ∧ q <+: rest) ∨ p ++ nl :: q <:+: rest := by
  constructor
  · rintro ⟨before, behind, e⟩
    rw [← List.append_assoc, List.append_assoc, List.cons_append] at e
    obtain ⟨rfl, hrest⟩ | ⟨gap, hfront, rfl⟩ :
        before ++ p = line ∧ q ++ behind = rest
          ∨ ∃ gap, before ++ p = line ++ nl :: gap ∧ rest = gap ++ nl :: (q ++ behind) := by
      rcases List.append_eq_append_iff.1 e with ⟨gap, rfl, hgap⟩ | ⟨gap, hfront, hgap⟩
      · cases gap with
        | nil =>
          injection hgap with _ hgap
          exact Or.inl ⟨(List.append_nil _).symm, hgap⟩
        | cons c gap =>
          injection hgap with hc _
          exact absurd (hc ▸ List.mem_append_right _ List.mem_cons_self) hline
      · cases gap with
        | nil =>
          injection hgap with _ hgap
          exact Or.inl ⟨hfront.trans (List.append_nil _), hgap.symm⟩
        | cons c gap =>
          injection hgap with hc hgap
          subst hc
          exact Or.inr ⟨gap, hfront, hgap⟩
    · exact Or.inl ⟨List.suffix_append before p, hrest ▸ List.prefix_append q behind⟩
    · -- the part before its line feed lies behind the first one
      obtain ⟨before', rfl⟩ := suffix_behind hp ⟨before, hfront⟩
      exact Or.inr ⟨before', behind, by simp⟩
  · rintro (⟨⟨before, rfl⟩, ⟨behind, rfl⟩⟩ | hin)
    · exact ⟨before, behind, by simp⟩
    · exact hin.trans ((List.suffix_cons nl rest).trans (List.suffix_append line _)).isInfix

omit [DecidableEq α] in
theorem terminated_front_iff {part : List α} (h : nl ∉ part) (hline : nl ∉ line) :
    part ++ [nl] <+: line ++ nl :: rest ↔ part = line := by
  constructor
  · rintro ⟨behind, e⟩
    rw [List.append_assoc] at e
    rcases List.append_eq_append_iff.1 e with ⟨gap, rfl, hgap⟩ | ⟨gap, rfl, hgap⟩
    · cases gap with
      | nil => rw [List.append_nil]
      | cons c gap =>
        injection hgap with hc _
        exact absurd (hc ▸ List.mem_append_right _ List.mem_cons_self) hline
    · cases gap with
      | nil => rw [List.append_nil]
      | cons c gap =>
        injection hgap with hc _
        exact absurd (hc ▸ List.mem_append_right _ List.mem_cons_self) h
  · rintro rfl
    exact ⟨rest, List.append_assoc ..⟩

-- ==== the tokens

/-- The pieces that are not empty. -/
def tokens (nl : α) (text : List α) : List (List α) :=
  (text.splitOn nl).filter fun piece => piece ≠ []

theorem tokens_cons (h : nl ∉ line) (hne : line ≠ []) :
    tokens nl (line ++ nl :: rest) = line :: tokens nl rest := by
  unfold tokens
  rw [splitOn_line h, List.filter_cons, if_pos (decide_eq_true hne)]

/-- What is read of each line, when the first `n` letters of the text are
read. -/
def cutLines : Nat → List (List α) → List (List α)
  | _, [] => []
  | n, l :: ls => l.take n :: cutLines (n - (l.length + 1)) ls

omit [DecidableEq α] in
@[simp] theorem length_cutLines (n : Nat) (ls : List (List α)) :
    (cutLines n ls).length = ls.length := by
  induction ls generalizing n with
  | nil => rfl
  | cons l ls ih => rw [cutLines, List.length_cons, List.length_cons, ih]

omit [DecidableEq α] in
/-- Nothing is read of any line. -/
theorem cutLines_zero (ls : List (List α)) :
    (cutLines 0 ls).filter (fun piece => piece ≠ []) = [] := by
  induction ls with
  | nil => rfl
  | cons l ls ih =>
    rw [cutLines, List.take_zero, Nat.zero_sub, List.filter_cons_of_neg (by simp), ih]

/-- The tokens of terminated lines, as far as they are read, are what is
read of them. -/
theorem tokens_take_lines {ls : List (List α)} (hls : ∀ l ∈ ls, nl ∉ l) (n : Nat) :
    tokens nl ((ls.flatMap (· ++ [nl])).take n)
      = (cutLines n ls).filter fun piece => piece ≠ [] := by
  induction ls generalizing n with
  | nil =>
    rw [List.flatMap_nil, List.take_nil, tokens, splitOn_rest List.not_mem_nil]
    rfl
  | cons l ls ih =>
    have hl := hls l List.mem_cons_self
    rw [List.flatMap_cons, List.append_assoc, List.singleton_append, List.take_append,
      cutLines, List.filter_cons]
    by_cases hn : n ≤ l.length
    · -- the text ends in this line
      rw [Nat.sub_eq_zero_of_le hn, List.take_zero, List.append_nil, tokens,
        splitOn_rest fun hin => hl (List.mem_of_mem_take hin),
        Nat.sub_eq_zero_of_le (Nat.le_succ_of_le hn), cutLines_zero, List.filter_cons,
        List.filter_nil]
    · obtain ⟨k, hk⟩ := Nat.exists_eq_succ_of_ne_zero (n := n - l.length) (by omega)
      rw [List.take_of_length_le (by omega), hk, List.take_succ_cons, tokens,
        splitOn_line hl, List.filter_cons, Nat.sub_add_eq, hk, Nat.succ_sub_one,
        ← ih fun l hl => hls l (List.mem_cons_of_mem _ hl)]
      rfl

theorem length_le_of_mem_tokens {text token : List α} (h : token ∈ tokens nl text) :
    token.length ≤ text.length :=
  length_le_of_mem_splitOn (List.mem_of_mem_filter h)

-- ==== the join

section Join

omit [DecidableEq α]

variable {xs : List (List α)} (nl)

/-- A piece is joined at the end behind a separator. -/
theorem join_concat (h : xs ≠ []) (x : List α) :
    [nl].intercalate (xs ++ [x]) = [nl].intercalate xs ++ nl :: x := by
  induction xs with
  | nil => exact absurd rfl h
  | cons y ys ih =>
    cases ys with
    | nil =>
      rw [List.singleton_append, List.intercalate_cons_cons, List.intercalate_singleton,
        List.intercalate_singleton, List.append_assoc]
      rfl
    | cons z zs =>
      rw [List.cons_append, List.cons_append, List.intercalate_cons_cons,
        List.intercalate_cons_cons, ← List.cons_append, ih (List.cons_ne_nil z zs),
        ← List.append_assoc]

theorem join_cons_front (x : List α) (xs : List (List α)) : x <+: [nl].intercalate (x :: xs) := by
  cases xs with
  | nil => exact ⟨[], by rw [List.append_nil, List.intercalate_singleton]⟩
  | cons y ys =>
    rw [List.intercalate_cons_cons, List.append_assoc]
    exact List.prefix_append ..

/-- A join of pieces that are not empty is empty only without pieces. -/
theorem join_eq_nil_iff (h : ∀ x ∈ xs, x ≠ []) : [nl].intercalate xs = [] ↔ xs = [] := by
  cases xs with
  | nil => exact iff_of_true List.intercalate_nil rfl
  | cons x xs =>
    refine iff_of_false (fun e => ?_) (List.cons_ne_nil x xs)
    have hfront := join_cons_front nl x xs
    rw [e] at hfront
    exact h x List.mem_cons_self (List.prefix_nil.1 hfront)

end Join

-- ==== the lines

/-- A line without a carriage return at its end. -/
def chomp (cr : α) (line : List α) : List α :=
  if line.getLast? = some cr then line.dropLast else line

theorem chomp_of_last (h : line.getLast? ≠ some cr) : chomp cr line = line := if_neg h

def lines (nl cr : α) (text : List α) : List (List α) :=
  (text.splitOn nl).dropLast.map (chomp cr)
    ++ (text.splitOn nl).getLast?.toList.filter fun rest => rest ≠ []

theorem lines_terminated (h : nl ∉ line) :
    lines nl cr (line ++ nl :: rest) = chomp cr line :: lines nl cr rest := by
  have hne : rest.splitOn nl ≠ [] := List.splitOnP_ne_nil _ _
  unfold lines
  rw [splitOn_line h, List.dropLast_cons_of_ne_nil hne, List.getLast?_cons_of_ne_nil hne]
  rfl

theorem lines_single (h : nl ∉ line) : lines nl cr (line ++ [nl]) = [chomp cr line] :=
  lines_terminated h

/-- The text behind the last line feed is a line unless it is empty. -/
theorem lines_rest (h : nl ∉ rest) : lines nl cr rest = if rest = [] then [] else [rest] := by
  unfold lines
  rw [splitOn_rest h, List.dropLast_singleton, List.map_nil, List.nil_append,
    List.getLast?_singleton, Option.toList_some, List.filter_singleton]
  split
  · next hnil => rw [decide_eq_false (not_not.2 hnil), cond_false]
  · next hne => rw [decide_eq_true hne, cond_true]

theorem mem_of_mem_chomp {c : α} (h : c ∈ chomp cr line) : c ∈ line := by
  unfold chomp at h
  split at h
  · exact (List.dropLast_sublist line).subset h
  · exact h

theorem not_mem_of_mem_lines {text : List α} (h : line ∈ lines nl cr text) : nl ∉ line := by
  induction text using linesInduction nl with
  | hrest rest hrest =>
    rw [lines_rest hrest] at h
    split at h
    · cases h
    · rw [List.mem_singleton.1 h]
      exact hrest
  | hline first rest hfirst ih =>
    rw [lines_terminated hfirst] at h
    rcases List.mem_cons.1 h with rfl | h
    · exact fun hmem => hfirst (mem_of_mem_chomp hmem)
    · exact ih h

/-- The lines of pieces that were joined with line feeds. The last one may
have line feeds in it. -/
theorem lines_join {ls : List (List α)} (hls : ∀ l ∈ ls, nl ∉ l) (x : List α) :
    lines nl cr ([nl].intercalate (ls ++ [x]) ++ [nl])
      = ls.map (chomp cr) ++ lines nl cr (x ++ [nl]) := by
  induction ls with
  | nil =>
    rw [List.nil_append, List.intercalate_singleton]
    rfl
  | cons l ls ih =>
    obtain ⟨y, ys, hy⟩ := List.exists_cons_of_ne_nil (List.concat_ne_nil x ls)
    rw [List.cons_append, hy, List.intercalate_cons_cons, ← hy, List.append_assoc,
      List.append_assoc, List.singleton_append, lines_terminated (hls l List.mem_cons_self),
      ih fun l hl => hls l (List.mem_cons_of_mem _ hl)]
    rfl

end Dynamod.Lib
