/-
Byte strings: what they stand for, and the bytes that texts are cut at.

Integers are taken apart in both byte orders. The big-endian form is
primary; the little-endian one is its reverse, so that what is proved of
the first carries over. A text is its UTF-8; `fromUtf8` is the partial
inverse. The bytes of ASCII have names of their own, and a text may be
compared with another one up to the case of its letters.
-/
import Mathlib.Algebra.Group.Int.Defs
import Mathlib.Algebra.Group.Nat.Defs
import Mathlib.Data.UInt

namespace Dynamod.Lib

/-- The number a big-endian byte string stands for. -/
def beNat (bs : List UInt8) : Nat := bs.foldl (fun n b => n * 256 + b.toNat) 0

/-- The low `k` bytes of a number, most significant first. -/
def toBE : Nat → Nat → List UInt8
  | 0, _ => []
  | k + 1, n => toBE k (n / 256) ++ [UInt8.ofNat n]

/-- The number a little-endian byte string stands for. -/
def leNat (bs : List UInt8) : Nat := beNat bs.reverse

/-- The low `k` bytes of a number, least significant first. -/
def toLE (k n : Nat) : List UInt8 := (toBE k n).reverse

def utf8 (s : String) : List UInt8 := s.toUTF8.data.toList

/-- The text a byte string is, if it is UTF-8. -/
def fromUtf8 (bs : List UInt8) : Option String := String.fromUTF8? ⟨bs.toArray⟩

/-- A two's complement field of `k` bytes. -/
def signed (k n : Nat) : Int :=
  if n < 2 ^ (8 * k - 1) then n else n - 2 ^ (8 * k)

theorem utf8_injective {s t : String} (h : utf8 s = utf8 t) : s = t := by
  have hdata : s.toUTF8.data = t.toUTF8.data := Array.toList_inj.1 h
  exact String.toByteArray_inj.1 (ByteArray.ext hdata)

theorem utf8_append (s t : String) : utf8 (s ++ t) = utf8 s ++ utf8 t := by
  simp [utf8]

theorem fromUtf8_eq_some {bs : List UInt8} {s : String} : fromUtf8 bs = some s ↔ utf8 s = bs := by
  unfold fromUtf8 String.fromUTF8?
  split
  case isTrue h =>
      rw [Option.some_inj]
      constructor
      · rintro rfl
        rfl
      · rintro rfl
        exact String.toByteArray_inj.1 rfl
  case isFalse h =>
      constructor
      · intro e
        cases e
      · rintro rfl
        exact absurd s.isValidUTF8 h

theorem beNat_snoc (bs : List UInt8) (b : UInt8) :
    beNat (bs ++ [b]) = beNat bs * 256 + b.toNat := by
  simp [beNat]

private theorem foldl_lt (bs : List UInt8) : ∀ n k : Nat, n < 256 ^ k →
    bs.foldl (fun n b => n * 256 + b.toNat) n < 256 ^ (k + bs.length) := by
  induction bs with
  | nil => exact fun n k h => h
  | cons b bs ih =>
    intro n k h
    have hb := b.toNat_lt
    have hstep := ih (n * 256 + b.toNat) (k + 1) (by rw [pow_succ]; omega)
    rwa [Nat.add_assoc, Nat.add_comm 1] at hstep

theorem beNat_lt (bs : List UInt8) : beNat bs < 256 ^ bs.length := by
  have h := foldl_lt bs 0 0 Nat.one_pos
  rwa [Nat.zero_add] at h

@[simp] theorem length_toBE (k n : Nat) : (toBE k n).length = k := by
  induction k generalizing n with
  | zero => rfl
  | succ k ih => simp [toBE, ih]

@[simp] theorem length_toLE (k n : Nat) : (toLE k n).length = k := by
  simp [toLE]

theorem beNat_toBE {k n : Nat} (h : n < 256 ^ k) : beNat (toBE k n) = n := by
  induction k generalizing n with
  | zero =>
    have hn : n = 0 := by simpa using h
    rw [hn]
    rfl
  | succ k ih =>
    have hq : n / 256 < 256 ^ k := by
      rw [pow_succ] at h
      exact Nat.div_lt_of_lt_mul (by omega)
    rw [toBE, beNat_snoc, ih hq, UInt8.toNat_ofNat']
    omega

theorem toBE_beNat (bs : List UInt8) : toBE bs.length (beNat bs) = bs := by
  generalize hk : bs.length = k
  induction k generalizing bs with
  | zero => rw [List.eq_nil_of_length_eq_zero hk]; rfl
  | succ k ih =>
    have hne : bs ≠ [] := List.ne_nil_of_length_eq_add_one hk
    have hinit : bs.dropLast.length = k := by rw [List.length_dropLast, hk]; rfl
    have hlast := (bs.getLast hne).toNat_lt
    rw [← List.dropLast_concat_getLast hne, toBE, beNat_snoc,
      show (beNat bs.dropLast * 256 + (bs.getLast hne).toNat) / 256
        = beNat bs.dropLast by omega, ih _ hinit,
      UInt8.ofNat_add, UInt8.ofNat_mul, UInt8.ofNat_toNat]
    simp

theorem toLE_leNat (bs : List UInt8) : toLE bs.length (leNat bs) = bs := by
  have h := toBE_beNat bs.reverse
  rw [List.length_reverse] at h
  rw [toLE, leNat, h, List.reverse_reverse]

theorem leNat_toLE {k n : Nat} (h : n < 256 ^ k) : leNat (toLE k n) = n := by
  rw [leNat, toLE, List.reverse_reverse, beNat_toBE h]

end Dynamod.Lib

namespace Dynamod.Lib.Ascii

def tab : UInt8 := 9
def lineFeed : UInt8 := 10
def space : UInt8 := 32
def quote : UInt8 := 34
def comma : UInt8 := 44
def dot : UInt8 := 46
def slash : UInt8 := 47
def colon : UInt8 := 58
def semicolon : UInt8 := 59
def equals : UInt8 := 61
def backslash : UInt8 := 92

/-- A capital letter as a small one. -/
def toLower (c : UInt8) : UInt8 := if 65 ≤ c ∧ c ≤ 90 then c + 32 else c

/-- A byte below the letters is the small form of itself alone. -/
theorem toLower_eq_iff {b c : UInt8} (hb : b < 65) : toLower c = b ↔ c = b := by
  unfold toLower
  rw [UInt8.lt_iff_toNat_lt] at hb
  split
  · next hc =>
    rw [UInt8.le_iff_toNat_le, UInt8.le_iff_toNat_le] at hc
    have h65 : (65 : UInt8).toNat = 65 := rfl
    have h90 : (90 : UInt8).toNat = 90 := rfl
    have h32 : (32 : UInt8).toNat = 32 := rfl
    have hsum : (c + 32).toNat = c.toNat + 32 := by
      rw [UInt8.toNat_add, h32]
      exact Nat.mod_eq_of_lt (by omega)
    refine iff_of_false (fun e => ?_) fun e => ?_
    · subst e
      omega
    · subst e
      omega
  · rfl

/-- Two texts agree up to the case of the letters. -/
def SameLetters (xs ys : List UInt8) : Prop := xs.map toLower = ys.map toLower

instance (xs ys : List UInt8) : Decidable (SameLetters xs ys) :=
  inferInstanceAs (Decidable (xs.map toLower = ys.map toLower))

end Dynamod.Lib.Ascii
