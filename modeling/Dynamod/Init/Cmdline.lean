/-
The kernel command line (`zig/src/cmdline.zig`), and that the lookups
find the words which the boot loader joined. Quotes mean nothing.
-/
import Mathlib.Data.List.DropRight
import Dynamod.Lib.Bytes
import Dynamod.Lib.Hex

namespace Dynamod.Init.Cmdline

open Lib

/-- What `read` keeps of the bytes in `/proc/cmdline`. -/
def read (bytes : List UInt8) : List UInt8 :=
  (bytes.take 4096).rdropWhile fun b => b == 10 || b == 13

def isSpace (b : UInt8) : Bool := b == 32

/-- The value that a token has for `key`, behind its first `=`. -/
def valueOf (key token : List UInt8) : Option (List UInt8) :=
  match token.dropWhile (· != 61) with
  | _ :: value => if token.takeWhile (· != 61) = key then some value else none
  | [] => none

def getParam (data key : List UInt8) : Option (List UInt8) :=
  (words isSpace data).findSome? (valueOf key)

def hasFlag (data flag : List UInt8) : Bool := (words isSpace data).contains flag

-- ==== the words

variable {ws : List (List UInt8)} {key v word : List UInt8}

theorem valueOf_eq_some (hkey : 61 ∉ key) :
    valueOf key word = some v ↔ word = key ++ 61 :: v := by
  have hne : ∀ b ∈ key, (b != 61) = true := fun b hb => bne_iff_ne.2 fun h => hkey (h ▸ hb)
  unfold valueOf
  constructor
  · intro h
    split at h
    · next c rest hdrop =>
      split_ifs at h with htake
      cases h
      have hc := List.head_dropWhile_not (· != (61 : UInt8)) (show word.dropWhile _ ≠ [] by
        rw [hdrop]
        nofun)
      simp only [hdrop, List.head_cons, bne_eq_false_iff_eq] at hc
      rw [hc] at hdrop
      rw [← htake, ← hdrop, List.takeWhile_append_dropWhile]
    · cases h
  · rintro rfl
    rw [List.dropWhile_append_of_pos hne, List.takeWhile_append_of_pos hne]
    simp

/-- Of a command line that fits the buffer the flags are the words, and a
parameter has the value of its first word. -/
theorem lookups_exact (hws : ∀ w ∈ ws, w ≠ [] ∧ 32 ∉ w)
    (hline : 10 ∉ [32].intercalate ws ∧ 13 ∉ [32].intercalate ws)
    (hfits : ([32].intercalate ws).length < 4096) (hkey : 61 ∉ key) :
    let data := read ([32].intercalate ws ++ [10])
    (∀ flag, hasFlag data flag = true ↔ flag ∈ ws)
      ∧ ∀ v, getParam data key = some v ↔ ∃ front rest,
        ws = front ++ (key ++ 61 :: v) :: rest ∧ ∀ w ∈ front, ∀ v', w ≠ key ++ 61 :: v' := by
  have hdata : read ([32].intercalate ws ++ [10]) = [32].intercalate ws := by
    rw [read, List.take_of_length_le (by rwa [List.length_append]),
      List.rdropWhile_concat_pos _ _ _ rfl, List.rdropWhile_eq_self_iff]
    intro hne hend
    have hmem := List.getLast_mem hne
    rcases Bool.or_eq_true _ _ ▸ hend with h | h
    · exact hline.1 (eq_of_beq h ▸ hmem)
    · exact hline.2 (eq_of_beq h ▸ hmem)
  have hjoin := words_join (show isSpace 32 = true from rfl) (List.forall_mem_nil _)
    fun w hw => ⟨(hws w hw).1, fun c hc => beq_false_of_ne fun h => (hws w hw).2 (h ▸ hc)⟩
  rw [List.append_nil] at hjoin
  refine ⟨fun flag => ?_, fun v => ?_⟩
  · rw [hdata, hasFlag, hjoin, List.contains_iff_mem]
  · rw [hdata, getParam, hjoin, List.findSome?_eq_some_iff]
    simp only [Option.eq_none_iff_forall_ne_some, ne_eq, valueOf_eq_some hkey]
    constructor
    · rintro ⟨front, _, rest, hsplit, rfl, hfront⟩
      exact ⟨front, rest, hsplit, hfront⟩
    · rintro ⟨front, rest, hsplit, hfront⟩
      exact ⟨front, _, rest, hsplit, rfl, hfront⟩

theorem emergency_looked_up :
    getParam (read (utf8 "dynamod.emergency=1 quiet" ++ [10])) (utf8 "dynamod.emergency")
      = some (utf8 "1") := by
  have hws : ∀ w ∈ [utf8 "dynamod.emergency=1", utf8 "quiet"], w ≠ [] ∧ 32 ∉ w := by decide
  have hkey : 61 ∉ utf8 "dynamod.emergency" := by decide
  have h := (lookups_exact hws (by decide) (by decide) hkey).2 (utf8 "1")
  exact h.2 ⟨[], [utf8 "quiet"], rfl, List.forall_mem_nil _⟩

end Dynamod.Init.Cmdline
