/-
Bytes that stand at a place of a buffer. What the checked operations read
from the buffer there is what the bytes themselves have, so that a format is
read off the bytes alone and the place drops out.
-/
import Dynamod.Lib.Checked

namespace Dynamod.Lib

variable {α : Type} {buf bytes : List α} {off : Nat}

/-- The bytes stand in the buffer from `off` on. -/
def Placed (buf : List α) (off : Nat) (bytes : List α) : Prop := bytes <+: buf.drop off

/-- The next `n` bytes. -/
theorem exists_placed (buf : List α) (off n : Nat) (h : off + n ≤ buf.length) :
    ∃ bytes, bytes = (buf.drop off).take n ∧ Placed buf off bytes ∧ bytes.length = n := by
  refine ⟨_, rfl, List.take_prefix _ _, ?_⟩
  rw [List.length_take, List.length_drop]
  omega

namespace Placed

theorem fits (h : Placed buf off bytes) (hne : bytes ≠ []) : off + bytes.length ≤ buf.length := by
  have hlen := List.IsPrefix.length_le h
  have hpos := List.length_pos_iff.2 hne
  rw [List.length_drop] at hlen
  omega

theorem getElem? (h : Placed buf off bytes) {i : Nat} (hi : i < bytes.length) :
    buf[off + i]? = bytes[i]? := by
  obtain ⟨rest, hrest⟩ := h
  rw [← List.getElem?_drop, ← hrest, List.getElem?_append_left hi]

theorem getD_zero (h : Placed buf off bytes) (hne : bytes ≠ []) {x d : α}
    (hx : buf[off]? = some x) : bytes.getD 0 d = x := by
  have hget := h.getElem? (List.length_pos_iff.2 hne)
  rw [Nat.add_zero, hx] at hget
  rw [List.getD_eq_getElem?_getD, ← hget]
  rfl

theorem elemAt (h : Placed buf off bytes) {i : Nat} (hi : i < bytes.length) (d : α) :
    elemAt buf (off + i) = .ok (bytes.getD i d) := by
  apply elemAt_eq
  rw [h.getElem? hi, List.getD_eq_getElem?_getD, List.getElem?_eq_getElem hi]
  rfl

theorem drop_take (h : Placed buf off bytes) {a n : Nat} (hn : a + n ≤ bytes.length) :
    (buf.drop (off + a)).take n = (bytes.drop a).take n := by
  obtain ⟨rest, hrest⟩ := h
  rw [← List.drop_drop, ← hrest, List.drop_append_of_le_length (by omega),
    List.take_append_of_le_length (by rw [List.length_drop]; omega)]

/-- `buf[off + a .. off + b]`. -/
theorem cut (h : Placed buf off bytes) (hne : bytes ≠ []) {a b : Nat} (hab : a ≤ b)
    (hb : b ≤ bytes.length) : cut buf (off + a) (off + b) = .ok
    ((bytes.drop a).take (b - a)) := by
  have hlen := h.fits hne
  rw [cut_eq (by omega) (by omega), show off + b - (off + a) = b - a by omega,
    h.drop_take (by omega)]

/-- `buf[off + a ..][0..n]`. -/
theorem cut_tail (h : Placed buf off bytes) (hne : bytes ≠ []) {a n : Nat}
    (hn : a + n ≤ bytes.length) : ∃ tail, Lib.cut buf (off + a) buf.length = .ok tail
      ∧ Lib.cut tail 0 n = .ok ((bytes.drop a).take n) := by
  have hlen := h.fits hne
  have htail : ((buf.drop (off + a)).take (buf.length - (off + a))).length
      = buf.length - (off + a) := by
    rw [List.length_take, List.length_drop]
    omega
  refine ⟨_, cut_eq (by omega) (Nat.le_refl _), ?_⟩
  rw [cut_eq (Nat.zero_le n) (by omega), List.drop_zero, Nat.sub_zero, List.take_take,
    Nat.min_eq_left (by omega), h.drop_take hn]

end Placed

end Dynamod.Lib
