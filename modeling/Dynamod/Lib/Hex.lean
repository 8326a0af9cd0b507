/-
Hexadecimal words in a text: the words between separators, and the
unsigned numbers Rust parses with radix 16.

A number that is printed without leading zeros is read back
(`fromStrRadix16_toDigits`), and words that were joined with a separator
are found again (`words_join`).
-/
import Mathlib.Algebra.Group.Nat.Defs
import Mathlib.Data.List.Basic

namespace Dynamod.Lib

-- ==== the words

section Words

variable {α : Type} (sep : α → Bool) {word rest : List α}

/-- The pieces between separators that are not empty. -/
def words (text : List α) : List (List α) :=
  (text.splitOnP sep).filter fun piece => !piece.isEmpty

variable {sep}

theorem words_separator {c : α} (hc : sep c = true) : words sep (c :: rest) = words sep rest := by
  unfold words
  rw [List.splitOnP_cons_eq_if_modifyHead, if_pos hc]
  rfl

theorem words_separators (hrest : ∀ c ∈ rest, sep c = true) : words sep rest = [] := by
  induction rest with
  | nil => rfl
  | cons c rest ih =>
    rw [words_separator (hrest c List.mem_cons_self)]
    exact ih fun c hc => hrest c (List.mem_cons_of_mem _ hc)

theorem words_word (hne : word ≠ []) (hword : ∀ c ∈ word, sep c = false) {c : α}
    (hc : sep c = true) : words sep (word ++ c :: rest) = word :: words sep rest := by
  unfold words
  rw [List.splitOnP_append_cons_of_forall_mem hword c hc, List.filter_cons, if_pos]
  simpa using hne

theorem words_last (hne : word ≠ []) (hword : ∀ c ∈ word, sep c = false) :
    words sep word = [word] := by
  unfold words
  rw [List.splitOnP_eq_singleton hword, List.filter_cons, if_pos (by simpa using hne)]
  rfl

/-- Words joined with a separator, and separators behind them. -/
theorem words_join {c : α} (hc : sep c = true) {tail : List α}
    (htail : ∀ c ∈ tail, sep c = true) {ws : List (List α)}
    (hws : ∀ w ∈ ws, w ≠ [] ∧ ∀ c ∈ w, sep c = false) :
    words sep ([c].intercalate ws ++ tail) = ws := by
  induction ws with
  | nil =>
    rw [List.intercalate_nil]
    exact words_separators htail
  | cons w ws ih =>
    obtain ⟨hne, hw⟩ := hws w List.mem_cons_self
    have ih := ih fun v hv => hws v (List.mem_cons_of_mem _ hv)
    cases ws with
    | cons v vs =>
      rw [List.intercalate_cons_cons, List.append_assoc, List.append_assoc,
        List.singleton_append, words_word hne hw hc, ih]
    | nil =>
      rw [List.intercalate_singleton]
      cases tail with
      | nil =>
        rw [List.append_nil]
        exact words_last hne hw
      | cons d tail =>
        rw [words_word hne hw (htail d List.mem_cons_self), words_separators]
        exact fun c hc => htail c (List.mem_cons_of_mem _ hc)

end Words

def isAsciiWhitespace (c : Char) : Bool := c ∈ [' ', '\t', '\n', '\x0c', '\r']

def splitAsciiWhitespace (text : List Char) : List (List Char) := words isAsciiWhitespace text

-- ==== the numbers

/-- `char::to_digit(16)`. -/
def hexDigit (c : Char) : Option Nat :=
  if '0' ≤ c ∧ c ≤ '9' then some (c.toNat - '0'.toNat)
  else if 'a' ≤ c ∧ c ≤ 'f' then some (c.toNat - 'a'.toNat + 10)
  else if 'A' ≤ c ∧ c ≤ 'F' then some (c.toNat - 'A'.toNat + 10)
  else none

/-- A further digit of a number that has to fit in so many bits. -/
def pushDigit (bits n : Nat) (c : Char) : Option Nat := do
  let digit ← hexDigit c
  if 16 * n + digit < 2 ^ bits then some (16 * n + digit) else none

/-- `from_str_radix(text, 16)` of an unsigned type: digits with or without
a plus sign, if the value fits. -/
def fromStrRadix16 (bits : Nat) (text : List Char) : Option Nat :=
  match text with
  | [] => none
  | ['+'] => none
  | '+' :: digits => digits.foldlM (pushDigit bits) 0
  | digits => digits.foldlM (pushDigit bits) 0

section Numbers

variable {bits n d : Nat} {c : Char}

theorem hexDigit_digitChar : ∀ d < 16, hexDigit (Nat.digitChar d) = some d := by
  decide

/-- A digit is neither a sign nor a separator. -/
theorem digitChar_plain :
    ∀ d < 16, Nat.digitChar d ≠ '+' ∧ isAsciiWhitespace (Nat.digitChar d) = false := by
  decide

theorem digitChar_of_mem_toDigits (hc : c ∈ Nat.toDigits 16 n) :
    ∃ d < 16, c = Nat.digitChar d := by
  induction n using Nat.strongRecOn with
  | ind n ih =>
    by_cases hn : n < 16
    · rw [Nat.toDigits_of_lt_base hn, List.mem_singleton] at hc
      exact ⟨n, hn, hc⟩
    · rw [Nat.toDigits_of_base_le (by decide) (by omega), List.mem_append,
        List.mem_singleton] at hc
      rcases hc with hc | hc
      · exact ih (n / 16) (by omega) hc
      · exact ⟨n % 16, Nat.mod_lt n (by decide), hc⟩

theorem pushDigit_digitChar (hd : d < 16) (hn : 16 * n + d < 2 ^ bits) :
    pushDigit bits n d.digitChar = some (16 * n + d) := by
  unfold pushDigit
  rw [hexDigit_digitChar d hd]
  exact if_pos hn

theorem foldlM_toDigits (hn : n < 2 ^ bits) :
    (Nat.toDigits 16 n).foldlM (pushDigit bits) 0 = some n := by
  induction n using Nat.strongRecOn with
  | ind n ih =>
    by_cases hlt : n < 16
    · rw [Nat.toDigits_of_lt_base hlt, List.foldlM_cons, pushDigit_digitChar hlt (by omega)]
      show some (16 * 0 + n) = some n
      rw [Nat.mul_zero, Nat.zero_add]
    · have hdiv : 16 * (n / 16) + n % 16 = n := Nat.div_add_mod n 16
      rw [Nat.toDigits_of_base_le (by decide) (by omega), List.foldlM_append,
        ih (n / 16) (by omega) (by omega)]
      show (pushDigit bits (n / 16) _).bind _ = _
      rw [pushDigit_digitChar (Nat.mod_lt n (by decide)) (hdiv.symm ▸ hn), hdiv]
      rfl

theorem fromStrRadix16_toDigits (hn : n < 2 ^ bits) :
    fromStrRadix16 bits (Nat.toDigits 16 n) = some n := by
  have hfold := foldlM_toDigits hn
  have hdigit : ∀ c ∈ Nat.toDigits 16 n, c ≠ '+' := by
    intro c hc
    obtain ⟨d, hd, rfl⟩ := digitChar_of_mem_toDigits hc
    exact (digitChar_plain d hd).1
  have hne : Nat.toDigits 16 n ≠ [] := Nat.toDigits_ne_nil
  unfold fromStrRadix16
  split
  · next h => exact absurd h hne
  · next h => exact absurd rfl (hdigit '+' (h ▸ List.mem_cons_self))
  · next h => exact absurd rfl (hdigit '+' (h ▸ List.mem_cons_self))
  · exact hfold

theorem toDigits_no_whitespace (hc : c ∈ Nat.toDigits 16 n) : isAsciiWhitespace c = false := by
  obtain ⟨d, hd, rfl⟩ := digitChar_of_mem_toDigits hc
  exact (digitChar_plain d hd).2

end Numbers

end Dynamod.Lib
