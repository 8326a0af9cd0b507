/-
Numbers written with a unit, such as `30s` or `512M`.

`Units` is a table of units together with what makes a text with a unit
unambiguous: the characters of numbers are none of the characters of
units. `Quantity` says what a text means, with no bound on the number. A
parser that multiplies in a fixed number of bits is exact on a text if
and only if the product fits (`Units.exact_iff_fits`).

`readAny` is such a parser for any table. It answers the quantities whose
number is below the modulus and nothing else (`readAny_eq_some_iff`), so
that a parser of a program is understood once it is `readAny` of its table.
-/
import Mathlib.Data.List.TakeWhile
import Dynamod.Lib.Text

namespace Dynamod.Lib

-- ==== numbers

/-- Decimal digits, with or without a plus sign. -/
def number (cs : List Char) : Option Nat :=
  decimal (match cs with
    | '+' :: rest => rest
    | _ => cs)

theorem number_cases (cs : List Char) : (∃ rest, cs = '+' :: rest ∧ number cs = decimal rest)
    ∨ (∀ rest, cs ≠ '+' :: rest) ∧ number cs = decimal cs := by
  unfold number
  split
  · next rest => exact Or.inl ⟨rest, rfl, rfl⟩
  · next hplus => exact Or.inr ⟨hplus, rfl⟩

/-- A character that numbers are written with. -/
def isNumeral (c : Char) : Bool := c.isDigit || c == '+'

theorem isDigit_of_decimal {cs : List Char} {n : Nat} (h : decimal cs = some n) :
    ∀ c ∈ cs, c.isDigit = true := by
  unfold decimal at h
  split at h
  · next hcs => exact List.all_eq_true.1 hcs.2
  · cases h

theorem isNumeral_of_number {cs : List Char} {n : Nat} (h : number cs = some n) :
    ∀ c ∈ cs, isNumeral c = true := by
  intro c hc
  unfold isNumeral
  rcases number_cases cs with ⟨rest, rfl, hrest⟩ | ⟨-, hcs⟩
  · rcases List.mem_cons.1 hc with hc | hc
    · simp [hc]
    · simp [isDigit_of_decimal (hrest ▸ h) c hc]
  · simp [isDigit_of_decimal (hcs ▸ h) c hc]

theorem number_toString (n : Nat) : number (toString n).toList = some n := by
  have hdigits : (toString n).toList = Nat.toDigits 10 n := Nat.toList_repr
  have hall : ∀ c ∈ Nat.toDigits 10 n, c.isDigit = true :=
    fun c hc => Nat.isDigit_of_mem_toDigits (by decide) (by decide) hc
  have hvalue : decimal (Nat.toDigits 10 n) = some n := by
    unfold decimal
    rw [if_pos ⟨Nat.toDigits_ne_nil, List.all_eq_true.2 hall⟩, ← Nat.ofDigitChars_eq_foldl]
    rw [Nat.ofDigitChars_toDigits (by decide) (by decide)]
  rw [hdigits]
  rcases number_cases (Nat.toDigits 10 n) with ⟨rest, heq, -⟩ | ⟨-, hcs⟩
  · have hplus := hall '+' (heq ▸ List.mem_cons_self)
    cases hplus
  · rw [hcs, hvalue]

-- ==== units

/-- Units by their texts. `clean` is what is done to the text before the
unit before it is read as a number. -/
structure Units where
  table : List (List Char × Nat)
  clean : List Char → List Char
  /-- The characters that may stand before a unit. -/
  inNumber : Char → Bool
  clean_inNumber : ∀ num n, number (clean num) = some n → ∀ c ∈ num, inNumber c = true
  unit_inNumber : ∀ entry ∈ table, ∀ c ∈ entry.1, inNumber c = false
  /-- No text stands for two units. -/
  functional : ∀ entry ∈ table, ∀ entry' ∈ table, entry.1 = entry'.1 → entry = entry'

namespace Units

variable (U : Units) {text : List Char} {n n' unit unit' : Nat}

/-- The text is the number `n` followed by a unit. -/
def Quantity (text : List Char) (n unit : Nat) : Prop :=
  ∃ num suffix, text = num ++ suffix ∧ (suffix, unit) ∈ U.table
    ∧ number (U.clean num) = some n

/-- An answer is the product of the number and the unit. -/
def Exact (text : List Char) (answer : Option Nat) : Prop :=
  ∀ v, answer = some v → ∃ n unit, U.Quantity text n unit ∧ v = n * unit

/-- A number below the modulus gives a product below the modulus. -/
def Fits (modulus : Nat) (text : List Char) : Prop :=
  ∀ n unit, U.Quantity text n unit → n < modulus → n * unit < modulus

variable {U}

/-- The number ends where the characters of numbers end. -/
private theorem takeWhile_quantity {num suffix : List Char}
    (hnum : ∀ c ∈ num, U.inNumber c = true) (hsuffix : ∀ c ∈ suffix, U.inNumber c = false) :
    (num ++ suffix).takeWhile U.inNumber = num := by
  rw [List.takeWhile_append_of_pos hnum]
  cases suffix with
  | nil => simp
  | cons c cs => simp [hsuffix c List.mem_cons_self]

theorem Quantity.unique (h : U.Quantity text n unit) (h' : U.Quantity text n' unit') :
    n = n' ∧ unit = unit' := by
  obtain ⟨num, suffix, htext, hunit, hn⟩ := h
  obtain ⟨num', suffix', htext', hunit', hn'⟩ := h'
  have hnum : num = num' := by
    rw [← takeWhile_quantity (U.clean_inNumber num n hn) (U.unit_inNumber _ hunit),
      ← takeWhile_quantity (U.clean_inNumber num' n' hn') (U.unit_inNumber _ hunit'),
      ← htext, ← htext']
  subst hnum
  have hsuffix : suffix = suffix' := List.append_cancel_left (htext.symm.trans htext')
  have hentry := U.functional _ hunit _ hunit' hsuffix
  exact ⟨Option.some.inj (hn.symm.trans hn'), (Prod.mk.inj hentry).2⟩

/-- A parser that answers every quantity whose number is below the
modulus with the product reduced, and otherwise only with products, is
exact on a text if and only if the product is below the modulus. -/
theorem exact_iff_fits {modulus : Nat} {answer : Option Nat}
    (hsound : ∀ v, answer = some v → ∃ n unit, U.Quantity text n unit ∧
      (v = n * unit ∨ n < modulus ∧ v = n * unit % modulus))
    (hcomplete : ∀ n unit, U.Quantity text n unit → n < modulus →
      answer = some (n * unit % modulus)) : U.Exact text answer ↔ U.Fits modulus text := by
  constructor
  · intro hexact n unit hq hn
    obtain ⟨n', unit', hq', hv⟩ := hexact _ (hcomplete n unit hq hn)
    obtain ⟨rfl, rfl⟩ := hq.unique hq'
    rw [← hv]
    exact Nat.mod_lt _ (Nat.zero_lt_of_lt hn)
  · intro hfits v hv
    obtain ⟨n, unit, hq, hprod | ⟨hn, hprod⟩⟩ := hsound v hv
    · exact ⟨n, unit, hq, hprod⟩
    · rw [Nat.mod_eq_of_lt (hfits n unit hq hn)] at hprod
      exact ⟨n, unit, hq, hprod⟩

/-- What the units of a table, tried one after the other, make of a text:
the number before the unit, multiplied below the modulus. -/
def readAny (modulus : Nat) (read : List Char → Option Nat) :
    List (List Char × Nat) → List Char → Option Nat
  | [], _ => none
  | (suffix, unit) :: table, text =>
    ((stripEnd text suffix).bind fun num => (read num).map fun n => n * unit % modulus).or
      (readAny modulus read table text)

section Read

variable {modulus : Nat} {read : List Char → Option Nat}
  (hread : ∀ num n, read num = some n ↔ number (U.clean num) = some n ∧ n < modulus)

include hread

private theorem quantity_of_readAny {v : Nat} (table : List (List Char × Nat))
    (hsub : table ⊆ U.table) (h : readAny modulus read table text = some v) :
    ∃ n unit, U.Quantity text n unit ∧ n < modulus ∧ v = n * unit % modulus := by
  induction table with
  | nil => cases h
  | cons e table ih =>
    rcases Option.or_eq_some_iff.1 h with h | ⟨-, h⟩
    · obtain ⟨num, hstrip, h⟩ := Option.bind_eq_some_iff.1 h
      obtain ⟨n, hn, rfl⟩ := Option.map_eq_some_iff.1 h
      obtain ⟨hnum, hlt⟩ := (hread num n).1 hn
      exact ⟨n, e.2, ⟨num, e.1, stripEnd_eq_some.1 hstrip, hsub List.mem_cons_self, hnum⟩,
        hlt, rfl⟩
    · exact ih (List.subset_of_cons_subset hsub) h

/-- What is read are the quantities whose number is below the modulus. -/
theorem readAny_eq_some_iff {v : Nat} : readAny modulus read U.table text = some v
    ↔ ∃ n unit, U.Quantity text n unit ∧ n < modulus ∧ v = n * unit % modulus := by
  refine ⟨quantity_of_readAny hread U.table (List.Subset.refl _), ?_⟩
  rintro ⟨n, unit, hq, hlt, rfl⟩
  have hsome : ∃ v, readAny modulus read U.table text = some v := by
    obtain ⟨num, suffix, rfl, hunit, hnum⟩ := hq
    generalize U.table = table at hunit
    induction table with
    | nil => cases hunit
    | cons e table ih =>
      rw [readAny]
      rcases List.mem_cons.1 hunit with rfl | hunit
      · rw [stripEnd_eq_some.2 rfl, Option.bind_some, (hread num n).2 ⟨hnum, hlt⟩]
        exact ⟨_, rfl⟩
      · obtain ⟨v, hv⟩ := ih hunit
        rw [hv]
        cases (stripEnd (num ++ suffix) e.1).bind fun num => _ with
        | none => exact ⟨v, rfl⟩
        | some v' => exact ⟨v', rfl⟩
  -- whatever unit was found, the text is one quantity only
  obtain ⟨v, hv⟩ := hsome
  obtain ⟨n', unit', hq', -, rfl⟩ := quantity_of_readAny hread U.table (List.Subset.refl _) hv
  obtain ⟨rfl, rfl⟩ := hq.unique hq'
  exact hv

/-- So it is with what is read, and with a second reader that is tried
after it and is always exact. -/
theorem readAny_exact_iff {rest : Option Nat} (hrest : U.Exact text rest) :
    U.Exact text ((readAny modulus read U.table text).or rest) ↔ U.Fits modulus text := by
  apply exact_iff_fits
  · intro v hv
    rcases Option.or_eq_some_iff.1 hv with hv | ⟨-, hv⟩
    · obtain ⟨n, unit, hq, hlt, hprod⟩ := (readAny_eq_some_iff hread).1 hv
      exact ⟨n, unit, hq, Or.inr ⟨hlt, hprod⟩⟩
    · obtain ⟨n, unit, hq, hprod⟩ := hrest v hv
      exact ⟨n, unit, hq, Or.inl hprod⟩
  · intro n unit hq hlt
    rw [(readAny_eq_some_iff hread).2 ⟨n, unit, hq, hlt, rfl⟩]
    rfl

end Read

end Units

end Dynamod.Lib
