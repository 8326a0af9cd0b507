/-
Directory records (`parseDirRecord`).

`IsRecord` says which bytes are a record and `recordOf` what they say, by the
bytes of the record alone. The parser takes a buffer and an offset: a record
that stands there is reported (`parseDirRecord_record`), and it reports
nothing else (`parseDirRecord_cases`).
-/
import Mathlib.Algebra.Order.Sub.Basic
import Dynamod.Lib.Placed
import Dynamod.Init.Iso9660

namespace Dynamod.Init.Iso9660

open Lib Loops

/-- The length of the name in a record. -/
def nameLen (bytes : List UInt8) : Nat := (bytes.getD 32 0).toNat

structure IsRecord (bytes : List UInt8) : Prop where
  sized : (bytes.getD 0 0).toNat = bytes.length
  long : 34 ≤ bytes.length
  named : nameLen bytes ≠ 0
  inside : 33 + nameLen bytes ≤ bytes.length

/-- What a record says. The area for the use of the system lies behind the
name, at an even offset. -/
def recordOf (bytes : List UInt8) : DirRecord :=
  { recLen := bytes.getD 0 0
    extentLba := UInt32.ofNat (leNat ((bytes.drop 2).take 4))
    dataLen := UInt32.ofNat (leNat ((bytes.drop 10).take 4))
    flags := bytes.getD 25 0
    name := (bytes.drop 33).take (nameLen bytes)
    su := bytes.drop (33 + nameLen bytes + (1 - nameLen bytes % 2)) }

/-- The bytes of a record without an area for the use of the system. -/
def putDirRecord (lba size : Nat) (flags : UInt8) (name : List UInt8) : List UInt8 :=
  let pad := 1 - name.length % 2
  [UInt8.ofNat (33 + name.length + pad), 0]
    ++ toLE 4 lba ++ toBE 4 lba ++ toLE 4 size ++ toBE 4 size
    ++ List.replicate 7 0 ++ [flags, 0, 0, 1, 0, 0, 1, UInt8.ofNat name.length]
    ++ name ++ List.replicate pad 0

namespace IsRecord

variable {bytes : List UInt8}

theorem ne_nil (h : IsRecord bytes) : bytes ≠ [] := by
  rintro rfl
  exact absurd h.long (by decide)

theorem length_lt (h : IsRecord bytes) : bytes.length < 256 := by
  rw [← h.sized]
  exact (bytes.getD 0 0).toNat_lt

theorem recLen_eq (h : IsRecord bytes) : (recordOf bytes).recLen.toNat = bytes.length := h.sized

theorem length_su_lt (h : IsRecord bytes) : (recordOf bytes).su.length < 256 := by
  have := h.length_lt
  show (bytes.drop _).length < 256
  rw [List.length_drop]
  omega

theorem length_name_lt (h : IsRecord bytes) : (recordOf bytes).name.length < 256 := by
  have := h.length_lt
  show ((bytes.drop 33).take _).length < 256
  rw [List.length_take, List.length_drop]
  omega

end IsRecord

-- ==== the parser

section Parser

variable {buf bytes : List UInt8} {off : Nat}

theorem readU32_placed (h : Placed buf off bytes) (hne : bytes ≠ []) {a : Nat}
    (ha : a + 4 ≤ bytes.length) :
    readU32 buf (off + a) = .ok (UInt32.ofNat (leNat ((bytes.drop a).take 4))) := by
  obtain ⟨tail, htail, hbytes⟩ := h.cut_tail hne ha
  unfold readU32
  rw [htail]
  show (cut tail 0 4 >>= _) = _
  rw [hbytes]
  rfl

theorem systemUse_placed (h : Placed buf off bytes) (hne : bytes ≠ []) (a : Nat) :
    systemUse buf (off + a) (off + bytes.length) = .ok (bytes.drop a) := by
  unfold systemUse
  split
  · rw [h.cut hne (by omega) (Nat.le_refl _), List.take_of_length_le (by rw [List.length_drop])]
  · have hend : bytes.drop a = [] := List.drop_of_length_le (by omega)
    rw [cut_eq (Nat.le_refl 0) (Nat.zero_le _), hend, Nat.sub_self, List.take_zero]

theorem readFields_placed (h : Placed buf off bytes) (hrec : IsRecord bytes)
    (hbuf : buf.length < 2 ^ 63) :
    readFields buf off bytes.length (nameLen bytes) = .ok (recordOf bytes) := by
  have hne := hrec.ne_nil
  have hfits := h.fits hne
  have hlong := hrec.long
  have hinside := hrec.inside
  have hadd : ∀ a, a < 1024 → addWord off a = .ok (off + a) := fun a ha => addWord_eq (by omega)
  obtain ⟨tail, htail, hname⟩ := h.cut_tail hne hinside
  have hpad : subWord 1 (nameLen bytes &&& 1) = .ok (1 - nameLen bytes % 2) := by
    rw [Nat.and_one_is_mod]
    exact subWord_eq (by omega)
  have hsum : addWord (off + 33) (nameLen bytes) = .ok (off + (33 + nameLen bytes)) := by
    rw [addWord_eq (by omega), Nat.add_assoc]
  have hstart : addWord (off + (33 + nameLen bytes)) (1 - nameLen bytes % 2)
      = .ok (off + (33 + nameLen bytes + (1 - nameLen bytes % 2))) := by
    rw [addWord_eq (by omega), Nat.add_assoc]
  have hlen := hrec.length_lt
  have hfirst : elemAt buf off = .ok (bytes.getD 0 0) := h.elemAt (i := 0) (by omega) 0
  simp only [readFields, hadd 2 (by omega), hadd 10 (by omega), hadd 25 (by omega),
    hadd 33 (by omega), hadd bytes.length (by omega), readU32_placed h hne (a := 2) (by omega),
    readU32_placed h hne (a := 10) (by omega), h.elemAt (i := 25) (by omega) 0, htail, hname, hpad,
    hsum, hstart, systemUse_placed h hne, hfirst, bind, Except.bind]
  rfl

/-- A record that stands at the offset is reported. -/
theorem parseDirRecord_record (h : Placed buf off bytes) (hrec : IsRecord bytes)
    (hbuf : buf.length < 2 ^ 63) : parseDirRecord buf off = .ok (.record (recordOf bytes)) := by
  have hfits := h.fits hrec.ne_nil
  have hlong := hrec.long
  have hlen := hrec.length_lt
  have hfirst : elemAt buf off = .ok (bytes.getD 0 0) := h.elemAt (i := 0) (by omega) 0
  have hname : elemAt buf (off + 32) = .ok (bytes.getD 32 0) := h.elemAt (by omega) 0
  have hinside := hrec.inside
  have hfields := readFields_placed h hrec hbuf
  unfold nameLen at hinside hfields
  have hnamed : ¬ (bytes.getD 32 0).toNat = 0 := hrec.named
  unfold parseDirRecord
  rw [if_neg (by omega), hfirst]
  simp only [bind, Except.bind, hrec.sized]
  rw [if_neg (by omega), if_neg (by omega), addWord_eq (by omega)]
  dsimp only
  rw [if_neg (by omega), addWord_eq (by omega)]
  dsimp only
  rw [hname]
  dsimp only
  rw [if_neg hnamed, addWord_eq (by omega)]
  dsimp only
  rw [if_neg (by omega), hfields]

theorem parseDirRecord_padding (h : buf[off]? = some 0) :
    parseDirRecord buf off = .ok .padding := by
  have hoff : ¬ buf.length ≤ off := by
    intro hle
    rw [List.getElem?_eq_none hle] at h
    cases h
  unfold parseDirRecord
  rw [if_neg hoff, elemAt_eq h]
  rfl

theorem parseDirRecord_cases (buf : List UInt8) (off : Nat) (hbuf : buf.length < 2 ^ 63) :
    parseDirRecord buf off = .ok .padding ∨ parseDirRecord buf off = .ok .malformed
      ∨ ∃ bytes, IsRecord bytes ∧ Placed buf off bytes
        ∧ parseDirRecord buf off = .ok (.record (recordOf bytes)) := by
  unfold parseDirRecord
  split
  · exact Or.inr (Or.inl rfl)
  next hoff =>
  obtain ⟨first, hfirst⟩ : ∃ first, buf[off]? = some first :=
    ⟨buf[off], List.getElem?_eq_getElem (by omega)⟩
  rw [elemAt_eq hfirst]
  simp only [bind, Except.bind]
  split
  · exact Or.inl rfl
  split
  · exact Or.inr (Or.inl rfl)
  next hlong =>
  have hlen := first.toNat_lt
  rw [addWord_eq (by omega)]
  dsimp only
  split
  · exact Or.inr (Or.inl rfl)
  next hfits =>
  -- the bytes that the first one counts
  obtain ⟨bytes, -, hplaced, hcount⟩ := exists_placed buf off _ (Nat.le_of_not_lt hfits)
  have hsized : bytes.getD 0 0 = first :=
    hplaced.getD_zero (List.ne_nil_of_length_pos (by omega)) hfirst
  rw [addWord_eq (by omega)]
  dsimp only
  rw [hplaced.elemAt (i := 32) (by omega) 0]
  dsimp only
  split
  · exact Or.inr (Or.inl rfl)
  next hnamed =>
  have hname := (bytes.getD 32 0).toNat_lt
  rw [addWord_eq (by omega)]
  dsimp only
  split
  · exact Or.inr (Or.inl rfl)
  next hinside =>
  have hrec : IsRecord bytes :=
    { sized := by rw [hsized, hcount]
      long := by omega
      named := hnamed
      inside := by unfold nameLen; omega }
  have hfields := readFields_placed hplaced hrec hbuf
  rw [hcount] at hfields
  unfold nameLen at hfields
  exact Or.inr (Or.inr ⟨bytes, hrec, hplaced, by rw [hfields]⟩)

end Parser

end Dynamod.Init.Iso9660
