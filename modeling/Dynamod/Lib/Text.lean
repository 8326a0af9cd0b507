/-
Texts, on their characters, so that the functions reduce: what stands
at the front of a text, and the unsigned numbers Rust parses.
-/
import Mathlib.Algebra.Group.Nat.Defs
import Mathlib.Data.String.Basic

namespace Dynamod.Lib

/-- `text.starts_with(front)`. -/
def startsWith (text front : String) : Bool :=
  front.toList.isPrefixOf text.toList

/-- `text.strip_prefix(front)`. -/
def stripFront (text front : String) : Option String :=
  (front.toList.isPrefixOf? text.toList).map String.ofList

/-- `text.trim_start_matches(front)`: as often as it stands there. -/
def trimStartMatches (text front : String) : String :=
  String.ofList (strip text.toList.length text.toList)
where
  /-- Every round but the last takes a character or more. -/
  strip : Nat → List Char → List Char
    | 0, cs => cs
    | fuel + 1, cs =>
      match front.toList.isPrefixOf? cs with
      | some rest => strip fuel rest
      | none => cs

/-- `text.ends_with(back)`. -/
def endsWith (text back : String) : Bool :=
  back.toList.isSuffixOf text.toList

theorem startsWith_append (front rest : String) : startsWith (front ++ rest) front = true := by
  rw [startsWith, List.isPrefixOf_iff_prefix, String.toList_append]
  exact List.prefix_append _ _

theorem endsWith_append (rest back : String) : endsWith (rest ++ back) back = true := by
  rw [endsWith, List.isSuffixOf_iff_suffix, String.toList_append]
  exact List.suffix_append _ _

/-- `text.strip_suffix(back)`. -/
def stripEnd (cs back : List Char) : Option (List Char) :=
  (back.reverse.isPrefixOf? cs.reverse).map List.reverse

theorem stripEnd_eq_some {cs back rest : List Char} :
    stripEnd cs back = some rest ↔ cs = rest ++ back := by
  unfold stripEnd
  rw [Option.map_eq_some_iff]
  constructor
  · intro h
    obtain ⟨zs, hzs, rfl⟩ := h
    have happend := List.isPrefixOf?_eq_some_iff_append_eq.1 hzs
    have hrev := congrArg List.reverse happend
    rw [List.reverse_append, List.reverse_reverse, List.reverse_reverse] at hrev
    exact hrev.symm
  · intro h
    refine ⟨rest.reverse, ?_, List.reverse_reverse rest⟩
    rw [List.isPrefixOf?_eq_some_iff_append_eq, h, List.reverse_append]

/-- The value of decimal digits. -/
def decimal (cs : List Char) : Option Nat :=
  if cs ≠ [] ∧ cs.all Char.isDigit then
    some (cs.foldl (fun n c => 10 * n + (c.toNat - '0'.toNat)) 0)
  else none

/-- `text.parse::<u32>()`: digits with or without a plus sign, if the
value fits. -/
def parseU32 (text : String) : Option Nat :=
  let digits := match text.toList with
    | '+' :: cs => cs
    | cs => cs
  (decimal digits).filter fun n => n < 2 ^ 32

end Dynamod.Lib
