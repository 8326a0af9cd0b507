/-
The bitmaps that the kernel prints are read as they are.

`kernelText` prints the words of a bitmap as sysfs does. The words at the
top that are zero are left out, so the text does not say how long the bitmap
is; it has the same bits set all the same (`BitSet.append_zeros`).
`scanDevices_exact` follows from it: of the devices the kernel shows, those
are listened to that can report one of the events.
-/
import Mathlib.Data.List.TakeWhile
import Dynamod.Logind.Power

namespace Dynamod.Logind.Acpi

open Lib

/-- The bit is set in the bitmap, whose words are from the lowest up. -/
def BitSet (bitmap : List UInt64) (bit : Nat) : Prop :=
  ∃ w, bitmap[bit / 64]? = some w ∧ w.toNat.testBit (bit % 64) = true

/-- The words that are printed, from the highest down: not the zeros at the
top, but one word at least. -/
def printed (bitmap : List UInt64) : List UInt64 :=
  let shown := bitmap.reverse.dropWhile fun w => w = 0
  if shown = [] then [0] else shown

/-- A bitmap as the kernel prints it, with or without a line feed. -/
def kernelText (bitmap : List UInt64) (newline : Bool) : String :=
  String.ofList ([' '].intercalate ((printed bitmap).map fun w => Nat.toDigits 16 w.toNat)
    ++ if newline then ['\n'] else [])

theorem BitSet.append_zeros (bitmap : List UInt64) (bit : Nat) {zeros : List UInt64}
    (hzeros : ∀ w ∈ zeros, w = 0) : BitSet (bitmap ++ zeros) bit ↔ BitSet bitmap bit := by
  unfold BitSet
  rw [List.getElem?_append]
  split
  · rfl
  · next h =>
    refine iff_of_false ?_ ?_
    · rintro ⟨w, hw, hbit⟩
      rw [hzeros w (List.mem_of_getElem? hw)] at hbit
      exact absurd hbit (by simp)
    · rintro ⟨w, hw, -⟩
      rw [List.getElem?_eq_none (Nat.le_of_not_lt h)] at hw
      cases hw

theorem bitSet_printed (bitmap : List UInt64) (bit : Nat) :
    BitSet (printed bitmap).reverse bit ↔ BitSet bitmap bit := by
  let zero := fun w : UInt64 => decide (w = 0)
  have hsplit : bitmap = (bitmap.reverse.dropWhile zero).reverse
      ++ (bitmap.reverse.takeWhile zero).reverse := by
    rw [← List.reverse_append, List.takeWhile_append_dropWhile, List.reverse_reverse]
  have hzeros : ∀ w ∈ (bitmap.reverse.takeWhile zero).reverse, w = 0 := by
    intro w hw
    have hzero : zero w = true := List.mem_takeWhile_imp (List.mem_reverse.1 hw)
    exact of_decide_eq_true hzero
  have hshown := BitSet.append_zeros (bitmap.reverse.dropWhile zero).reverse bit hzeros
  rw [← hsplit] at hshown
  rw [hshown]
  unfold printed
  dsimp only
  split
  · next h =>
    -- one zero is printed for a bitmap without a bit
    rw [show bitmap.reverse.dropWhile zero = [] from h]
    exact BitSet.append_zeros [] bit (List.forall_mem_singleton.2 rfl)
  · rfl

/-- The words are found again, from the lowest up. -/
theorem words_kernelText (bitmap : List UInt64) (newline : Bool) :
    (splitAsciiWhitespace (kernelText bitmap newline).toList).reverse.filterMap
    (fromStrRadix16 64)
      = (printed bitmap).reverse.map UInt64.toNat := by
  have htail : ∀ c ∈ (if newline then ['\n'] else [] : List Char),
      isAsciiWhitespace c = true := by
    intro c hc
    cases newline with
    | false => cases hc
    | true =>
      rw [List.mem_singleton.1 hc]
      rfl
  unfold splitAsciiWhitespace kernelText
  rw [String.toList_ofList, words_join rfl htail, ← List.map_reverse, List.filterMap_map]
  · have hread : ∀ w : UInt64, fromStrRadix16 64 (Nat.toDigits 16 w.toNat) = some w.toNat :=
      fun w => fromStrRadix16_toDigits w.toNat_lt
    have hfun : (fromStrRadix16 64 ∘ fun w : UInt64 => Nat.toDigits 16 w.toNat)
        = fun w => some w.toNat := funext hread
    rw [hfun, List.filterMap_eq_map']
  · intro word hword
    obtain ⟨w, -, rfl⟩ := List.mem_map.1 hword
    exact ⟨Nat.toDigits_ne_nil, fun c hc => toDigits_no_whitespace hc⟩

theorem shiftRight_and_one (w off : Nat) : (w >>> off &&& 1 == 1) = w.testBit off := by
  rw [Nat.and_one_is_mod, Nat.shiftRight_eq_div_pow, Nat.testBit_eq_decide_div_mod_eq]
  rfl

/-- The bit is looked up in the words that were printed. -/
theorem capabilityHasBit_printed (bitmap : List UInt64) (newline : Bool) (bit : UInt16) :
    capabilityHasBit (some (kernelText bitmap newline)) bit = true
      ↔ BitSet (printed bitmap).reverse bit.toNat := by
  unfold capabilityHasBit BitSet
  dsimp only
  rw [words_kernelText, List.getElem?_map]
  cases (printed bitmap).reverse[bit.toNat / 64]? with
  | none => exact iff_of_false nofun nofun
  | some w =>
    show (w.toNat >>> (bit.toNat % 64) &&& 1 == 1) = true ↔ _
    rw [shiftRight_and_one]
    constructor
    · intro h
      exact ⟨w, rfl, h⟩
    · rintro ⟨w', hw, h⟩
      cases hw
      exact h

/-- Every bit of every bitmap is read from the text that the kernel prints. -/
theorem capabilityHasBit_exact (bitmap : List UInt64) (newline : Bool) (bit : UInt16) :
    capabilityHasBit (some (kernelText bitmap newline)) bit = true
      ↔ BitSet bitmap bit.toNat := by
  rw [capabilityHasBit_printed, bitSet_printed]

-- the words of the test beside the source
example : capabilityHasBit (some "4000 10000000000000 0") keyPower = true
    ∧ capabilityHasBit (some "4000 10000000000000 0") keySleep = true
    ∧ capabilityHasBit (some "4000 10000000000000 0") 200 = false := by
  decide

-- ==== the devices

/-- A device as the kernel knows it. -/
structure Device where
  name : String
  keys : List UInt64
  switches : List UInt64

/-- What sysfs shows of it. -/
def Device.entry (device : Device) : InputEntry :=
  ⟨device.name, some (kernelText device.keys true), some (kernelText device.switches true)⟩

/-- It can report the power button, the sleep button or the lid. -/
def Device.Wanted (device : Device) : Prop :=
  startsWith device.name "event" = true
    ∧ (BitSet device.keys 116 ∨ BitSet device.keys 142 ∨ BitSet device.switches 0)

theorem scanEntry_eq_some (device : Device) (path : String) : scanEntry device.entry = some path
    ↔ device.Wanted ∧ "/dev/input/" ++ device.name = path := by
  have hbits : (capabilityHasBit device.entry.key keyPower
      || capabilityHasBit device.entry.key keySleep
      || capabilityHasBit device.entry.sw swLid) = true
        ↔ BitSet device.keys 116 ∨ BitSet device.keys 142 ∨ BitSet device.switches 0 := by
    unfold Device.entry
    rw [Bool.or_eq_true, Bool.or_eq_true, or_assoc, capabilityHasBit_printed,
      capabilityHasBit_printed, capabilityHasBit_printed, bitSet_printed, bitSet_printed,
      bitSet_printed]
    rfl
  have hname : device.entry.name = device.name := rfl
  unfold scanEntry Device.Wanted
  rw [hname]
  by_cases hevent : startsWith device.name "event" = true
  · rw [hevent, ← hbits]
    by_cases hany : (capabilityHasBit device.entry.key keyPower
        || capabilityHasBit device.entry.key keySleep
        || capabilityHasBit device.entry.sw swLid) = true
    · rw [if_neg (by decide), if_pos hany, Option.some_inj]
      exact (and_iff_right ⟨rfl, hany⟩).symm
    · rw [if_neg (by decide), if_neg hany]
      exact iff_of_false nofun fun h => hany h.1.2
  · rw [if_pos (by rw [Bool.eq_false_iff.2 hevent]; rfl)]
    exact iff_of_false nofun fun h => hevent h.1.1

/-- The devices that are listened to are those that can report one of the
events. -/
theorem scanDevices_exact (devices : List Device) (path : String) :
    path ∈ scanDevices (some (devices.map Device.entry))
      ↔ ∃ device ∈ devices, device.Wanted ∧ "/dev/input/" ++ device.name = path := by
  unfold scanDevices
  rw [Option.getD_some, List.filterMap_map, List.mem_filterMap]
  exact exists_congr fun device => and_congr_right fun _ => scanEntry_eq_some device path

end Dynamod.Logind.Acpi
