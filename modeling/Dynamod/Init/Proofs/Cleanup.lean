/-
What the removal of the initramfs leaves.

# Paths

A path is followed through the entries of one directory after the other
(`Lies`), and so is the reason why what lies there stays (`Spared`): on
the way is an entry of another device, or the mounted root, or a
directory seventeen levels down. Both go by recursion on the path, and so
do the proofs.

# The answers of the kernel

What is spared stays whatever the calls answer: an entry that is not read
or not removed is one more that is left. The converse is for a kernel that
refuses nothing (`allSucceed`), where every entry is read.
-/
import Dynamod.Init.Switchroot

namespace Dynamod.Init.Switchroot

open Lib

/-- What lies directly below. -/
def Node.entries : Node → Entries
  | .file _ => []
  | .dir _ entries => entries

/-- `node` is what the path leads to. -/
def Lies : Entries → List (List UInt8) → Node → Prop
  | _, [], _ => False
  | entries, name :: path, node => ∃ child, (name, child) ∈ entries
      ∧ (path = [] ∧ node = child ∨ Lies child.entries path node)

/-- The path leads to `node`, past something that is not gone into. -/
def Spared (rootDev : UInt64) : Nat → Entries → List (List UInt8) → Node → Prop
  | _, _, [], _ => False
  | depth, entries, name :: path, node => ∃ child, (name, child) ∈ entries
      ∧ ((16 < depth ∨ depth = 0 ∧ name = utf8 "newroot" ∨ child.dev ≠ rootDev)
          ∧ (path = [] ∧ node = child ∨ Lies child.entries path node)
        ∨ Spared rootDev (depth + 1) child.entries path node)

/-- Every call succeeds. -/
def allSucceed : RemovalAnswers :=
  ⟨fun _ => none, fun _ => true, fun _ => true, fun _ => true⟩

variable {k : RemovalAnswers} {rootDev dev : UInt64} {depth : Nat} {name : List UInt8}
  {dir : Trail} {path : List (List UInt8)} {entries : Entries} {node : Node}

/-- What is spared lies there. -/
theorem Spared.lies (h : Spared rootDev depth entries path node) : Lies entries path node := by
  induction path generalizing depth entries with
  | nil => exact h
  | cons name path ih =>
    obtain ⟨child, hmem, ⟨-, hchild⟩ | hbelow⟩ := h
    · exact ⟨child, hmem, hchild⟩
    · exact ⟨child, hmem, .inr (ih hbelow)⟩

/-- A path leads nowhere without entries. -/
theorem Lies.ne_nil (h : Lies entries path node) : entries ≠ [] := by
  rintro rfl
  cases path with
  | nil => exact h
  | cons name path =>
    obtain ⟨child, hmem, -⟩ := h
    exact List.not_mem_nil hmem

/-- Nothing is removed behind the limit. -/
theorem recursiveDelete_deep (h : 16 < depth) :
    recursiveDelete k rootDev depth dir entries = entries := by
  rw [recursiveDelete, if_pos h]

/-- What is read and what is not are the entries. -/
theorem mem_readEntries (k : RemovalAnswers) (dir : Trail) {entry : List UInt8 × Node} :
    entry ∈ entries
      ↔ entry ∈ (readEntries k dir entries).1 ∨ entry ∈ (readEntries k dir entries).2 := by
  unfold readEntries
  split
  · simp
  · rw [List.splitAt_eq, ← List.mem_append, List.take_append_drop]

/-- An entry is left if it was not read, was passed over, or is what the
calls left of one that was not. -/
theorem mem_recursiveDelete (h : ¬ 16 < depth) {left : Node} :
    (name, left) ∈ recursiveDelete k rootDev depth dir entries
      ↔ (∃ node, (name, node) ∈ (readEntries k dir entries).1
        ∧ ((passedOver k rootDev depth (name :: dir) name node = true ∧ left = node)
          ∨ passedOver k rootDev depth (name :: dir) name node = false
            ∧ removeEntry k (name :: dir)
              (recursiveDelete k rootDev (depth + 1) (name :: dir)) node = some left))
      ∨ (name, left) ∈ (readEntries k dir entries).2 := by
  rw [recursiveDelete, if_neg h, List.mem_append, List.mem_filterMap]
  refine or_congr_left ⟨?_, ?_⟩
  · rintro ⟨⟨name', node⟩, hmem, hleft⟩
    dsimp only at hleft
    split_ifs at hleft with hover
    · cases hleft
      exact ⟨left, hmem, .inl ⟨hover, rfl⟩⟩
    · obtain ⟨left', hremove, hpair⟩ := Option.map_eq_some_iff.1 hleft
      cases hpair
      exact ⟨node, hmem, .inr ⟨Bool.eq_false_iff.2 hover, hremove⟩⟩
  · rintro ⟨node, hmem, ⟨hover, rfl⟩ | ⟨hover, hremove⟩⟩
    · exact ⟨(name, left), hmem, if_pos hover⟩
    · refine ⟨(name, node), hmem, ?_⟩
      simp only [hover, hremove, Bool.false_eq_true, if_false, Option.map_some]

/-- Whatever the calls answer, what is spared stays where it is. -/
theorem lies_of_spared (h : Spared rootDev depth entries path node) :
    Lies (recursiveDelete k rootDev depth dir entries) path node := by
  induction path generalizing depth dir entries with
  | nil => exact h
  | cons name path ih =>
    by_cases hdepth : 16 < depth
    · rw [recursiveDelete_deep hdepth]
      exact h.lies
    obtain ⟨child, hmem, hchild⟩ := h
    have hlies := hchild.elim And.right fun hbelow => .inr hbelow.lies
    rcases (mem_readEntries k dir).1 hmem with hmem | hunread
    case inr => exact ⟨child, (mem_recursiveDelete hdepth).2 (.inr hunread), hlies⟩
    cases hover : passedOver k rootDev depth (name :: dir) name child with
    | true =>
      exact ⟨child, (mem_recursiveDelete hdepth).2 (.inl ⟨child, hmem, .inl ⟨hover, rfl⟩⟩), hlies⟩
    | false =>
      have hbelow : Spared rootDev (depth + 1) child.entries path node := by
        refine hchild.resolve_left fun hkept => Bool.eq_false_iff.1 hover ?_
        rcases hkept.1.resolve_left hdepth with ⟨hroot, hname⟩ | hdev
        · simp [passedOver, hroot, hname]
        · simp [passedOver, hdev]
      cases child with
      | file dev => exact absurd rfl hbelow.lies.ne_nil
      | dir dev sub =>
        -- What is left of the directory holds `node`, so it is not removed.
        have hleft : Lies (if k.openat (name :: dir)
            then recursiveDelete k rootDev (depth + 1) (name :: dir) sub else sub)
            path node := by
          split_ifs
          · exact ih hbelow
          · exact hbelow.lies
        refine ⟨.dir dev _, (mem_recursiveDelete hdepth).2
          (.inl ⟨_, hmem, .inr ⟨hover, if_neg ?_⟩⟩), .inr hleft⟩
        simp [hleft.ne_nil]

/-- Where every call succeeds, no other file is left. -/
theorem spared_of_lies
    (h : Lies (recursiveDelete allSucceed rootDev depth dir entries) path (.file dev)) :
    Spared rootDev depth entries path (.file dev) := by
  induction path generalizing depth dir entries with
  | nil => exact h
  | cons name path ih =>
    by_cases hdepth : 16 < depth
    · rw [recursiveDelete_deep hdepth] at h
      obtain ⟨child, hmem, hchild⟩ := h
      exact ⟨child, hmem, .inl ⟨.inl hdepth, hchild⟩⟩
    obtain ⟨left, hmem, hleft⟩ := h
    -- every entry was read
    obtain ⟨child, hmem, ⟨hover, rfl⟩ | ⟨-, hremove⟩⟩ :=
      ((mem_recursiveDelete hdepth).1 hmem).resolve_right List.not_mem_nil
    · refine ⟨left, hmem, .inl ⟨.inr ?_, hleft⟩⟩
      simpa [passedOver, allSucceed] using hover
    · refine ⟨child, hmem, .inr ?_⟩
      cases child with
      | file dev => cases hremove
      | dir dev' sub =>
        simp only [removeEntry, allSucceed, if_true] at hremove
        split_ifs at hremove
        cases hremove
        exact ih (hleft.resolve_left fun hend => nomatch hend.2)

/-- The removal of the initramfs never touches the mounted root, another
file system or what is more than seventeen levels down, whatever the
kernel answers; where it refuses nothing, those are the files that are
left. -/
theorem recursiveDelete_exact (rootDev : UInt64) (entries : Entries) :
    (∀ k path node, Spared rootDev 0 entries path node →
        Lies (recursiveDelete k rootDev 0 [] entries) path node)
      ∧ ∀ path dev, Lies (recursiveDelete allSucceed rootDev 0 [] entries) path (.file dev)
        ↔ Spared rootDev 0 entries path (.file dev) :=
  ⟨fun _ _ _ => lies_of_spared, fun _ _ => ⟨spared_of_lies, lies_of_spared⟩⟩

end Dynamod.Init.Switchroot
