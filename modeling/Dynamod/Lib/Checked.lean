/-
Checked machine arithmetic and byte slices: what a safe build of a
systems language stops on.

A computation in `Checked` either yields its value or traps: an index
or a slice bound outside the object, a sum or difference outside the
machine word, a narrowing cast that loses bits. Memory is a total map
from addresses to bytes; a `Slice` is a pointer and a length that stay
inside the address space, and the only way to narrow one is a bounds
check. Reading through a slice later means reading the memory of that
later time: a slice does not own its bytes.
-/
import Mathlib.Algebra.Group.Nat.Defs
import Mathlib.Logic.Function.Basic

namespace Dynamod.Lib

/-- What stops a safe build. -/
inductive Trap
  | outOfBounds
  | overflow
  | castTruncated
  deriving DecidableEq

/-- A computation that may trap. -/
abbrev Checked := Except Trap

namespace Checked

variable {α β σ ε : Type}

theorem bind_ok {x : Except ε α} {f : α → Except ε β} {r : β}
    (h : x >>= f = .ok r) : ∃ a, x = .ok a ∧ f a = .ok r := by
  cases x with
  | error t => cases h
  | ok a => exact ⟨a, rfl, h⟩

/-- What every step keeps, a run that does not trap keeps. -/
theorem foldlM_inv {P : σ → Prop} {f : σ → α → Except ε σ}
    (hf : ∀ {s x s'}, P s → f s x = .ok s' → P s') (xs : List α) :
    ∀ {s s' : σ}, P s → xs.foldlM f s = .ok s' → P s' := by
  induction xs with
  | nil =>
    intro s s' hs h
    cases h
    exact hs
  | cons x xs ih =>
    intro s s' hs h
    obtain ⟨s₁, hstep, hrest⟩ := bind_ok h
    exact ih (hf hs hstep) hrest

/-- `foldlM_inv`, where a step keeps `P` because of what the list holds. -/
theorem foldlM_inv_mem {P : σ → Prop} {f : σ → α → Except ε σ} :
    ∀ {xs : List α} {s s' : σ}, (∀ x ∈ xs, ∀ {s s'}, P s → f s x = .ok s' → P s') →
      P s → xs.foldlM f s = .ok s' → P s'
  | [], _, _, _, hs, h => by
      cases h
      exact hs
  | x :: _, _, _, hf, hs, h => by
      obtain ⟨s₁, hstep, hrest⟩ := bind_ok h
      exact foldlM_inv_mem (fun y hy => hf y (List.mem_cons_of_mem _ hy))
        (hf x List.mem_cons_self hs hstep) hrest

/-- A run whose every step goes on does not trap. What holds of the steps
taken so far holds of all in the end. -/
theorem foldlM_total {P : List α → σ → Prop} {f : σ → α → Except ε σ} (xs : List α)
    (hf : ∀ {seen s x}, x ∈ xs → P seen s → ∃ s', f s x = .ok s' ∧ P (seen ++ [x]) s') :
    ∀ {seen s}, P seen s → ∃ s', xs.foldlM f s = .ok s' ∧ P (seen ++ xs) s' := by
  induction xs with
  | nil =>
    intro seen s hs
    exact ⟨s, rfl, (List.append_nil seen).symm ▸ hs⟩
  | cons x xs ih =>
    intro seen s hs
    obtain ⟨s₁, hstep, hs₁⟩ := hf List.mem_cons_self hs
    obtain ⟨s', hrun, hs'⟩ := ih (fun hx => hf (List.mem_cons_of_mem _ hx)) hs₁
    rw [List.append_assoc] at hs'
    refine ⟨s', ?_, hs'⟩
    rw [List.foldlM_cons, hstep]
    exact hrun

end Checked

/-- A sum of unsigned integers of the given width. -/
def addWidth (bits a b : Nat) : Checked Nat :=
  if a + b < 2 ^ bits then .ok (a + b) else .error .overflow

def addWord (a b : Nat) : Checked Nat := addWidth 64 a b

def mulWord (a b : Nat) : Checked Nat :=
  if a * b < 2 ^ 64 then .ok (a * b) else .error .overflow

/-- A difference of machine words. -/
def subWord (a b : Nat) : Checked Nat :=
  if b ≤ a then .ok (a - b) else .error .overflow

/-- A cast to an unsigned integer of the given width. -/
def castWidth (bits n : Nat) : Checked Nat :=
  if n < 2 ^ bits then .ok n else .error .castTruncated

/-- `xs[i]`, of an array that is held by value. -/
def elemAt {α : Type} (xs : List α) (i : Nat) : Checked α :=
  match xs[i]? with
  | some x => .ok x
  | none => .error .outOfBounds

/-- `xs[a..b]`, of an array that is held by value. -/
def cut {α : Type} (xs : List α) (a b : Nat) : Checked (List α) :=
  if a ≤ b ∧ b ≤ xs.length then .ok ((xs.drop a).take (b - a)) else .error .outOfBounds

/-- The bytes of the address space. -/
abbrev Mem := Nat → UInt8

/-- A pointer and a length. -/
structure Slice where
  ptr : Nat
  len : Nat
  fits : ptr + len < 2 ^ 64
  deriving DecidableEq

namespace Slice

/-- The bytes a slice holds at a given time. -/
def bytes (mem : Mem) (s : Slice) : List UInt8 :=
  (List.range s.len).map fun i => mem (s.ptr + i)

/-- `s[i]`. -/
def get (mem : Mem) (s : Slice) (i : Nat) : Checked UInt8 :=
  if i < s.len then .ok (mem (s.ptr + i)) else .error .outOfBounds

/-- `s[a..b]`. -/
def sub (s : Slice) (a b : Nat) : Checked Slice :=
  if h : a ≤ b ∧ b ≤ s.len then
    .ok ⟨s.ptr + a, b - a, by have := s.fits; omega⟩
  else .error .outOfBounds

/-- `s[a..]`. -/
def tail (s : Slice) (a : Nat) : Checked Slice := s.sub a s.len

end Slice

/-- Copy `n` bytes from `src` to `dst`, first byte first. -/
def copyForwards (mem : Mem) (dst src : Nat) : Nat → Mem
  | 0 => mem
  | n + 1 =>
    let mem := copyForwards mem dst src n
    Function.update mem (dst + n) (mem (src + n))

/-- Store bytes one behind the other. -/
def store (mem : Mem) (dst : Nat) : List UInt8 → Mem
  | [] => mem
  | b :: bs => store (Function.update mem dst b) (dst + 1) bs

/-- Write bytes into a slice, from index `i` on. -/
def Slice.write (mem : Mem) (s : Slice) (i : Nat) (bs : List UInt8) : Checked Mem :=
  if i + bs.length ≤ s.len then .ok (store mem (s.ptr + i) bs)
  else .error .outOfBounds

-- ==== arithmetic

theorem addWidth_eq {bits a b : Nat} (h : a + b < 2 ^ bits) : addWidth bits a b = .ok (a + b) :=
  if_pos h

theorem addWord_eq {a b : Nat} (h : a + b < 2 ^ 64) : addWord a b = .ok (a + b) :=
  if_pos h

theorem castWidth_eq {bits n : Nat} (h : n < 2 ^ bits) : castWidth bits n = .ok n :=
  if_pos h

theorem subWord_eq {a b : Nat} (h : b ≤ a) : subWord a b = .ok (a - b) :=
  if_pos h

theorem mulWord_eq {a b : Nat} (h : a * b < 2 ^ 64) : mulWord a b = .ok (a * b) :=
  if_pos h

-- ==== arrays held by value

section Arrays

variable {α : Type} {xs : List α}

theorem elemAt_eq {i : Nat} {x : α} (h : xs[i]? = some x) : elemAt xs i = .ok x := by
  unfold elemAt
  rw [h]

theorem cut_eq {a b : Nat} (hab : a ≤ b) (hb : b ≤ xs.length) :
    cut xs a b = .ok ((xs.drop a).take (b - a)) :=
  if_pos ⟨hab, hb⟩

end Arrays

-- ==== slices

namespace Slice

variable {mem mem' : Mem} {s : Slice} {a b : Nat}

@[simp] theorem length_bytes (mem : Mem) (s : Slice) : (s.bytes mem).length = s.len := by
  simp [bytes]

theorem getElem?_bytes (mem : Mem) (s : Slice) (i : Nat) :
    (s.bytes mem)[i]? = if i < s.len then some (mem (s.ptr + i)) else none := by
  unfold bytes
  rw [List.getElem?_map]
  split
  · next h => rw [List.getElem?_range h]; rfl
  · next h => rw [List.getElem?_eq_none (by simpa using h)]; rfl

theorem get_eq {i : Nat} (h : i < s.len) : s.get mem i = .ok (mem (s.ptr + i)) :=
  if_pos h

/-- The first byte of a slice that is not empty. -/
theorem get_zero {x : UInt8} {xs : List UInt8} (h : s.bytes mem = x :: xs) :
    s.get mem 0 = .ok x := by
  have hlen : 0 < s.len := by
    rw [← length_bytes mem, h]
    exact Nat.succ_pos _
  have hx := getElem?_bytes mem s 0
  rw [h, if_pos hlen] at hx
  injection hx with hx
  rw [get_eq hlen, ← hx]

theorem sub_ok (hab : a ≤ b) (hb : b ≤ s.len) :
    ∃ t : Slice, s.sub a b = .ok t ∧ t.ptr = s.ptr + a ∧ t.len = b - a
      ∧ ∀ mem, t.bytes mem = ((s.bytes mem).drop a).take (b - a) := by
  refine ⟨_, dif_pos ⟨hab, hb⟩, rfl, rfl, fun mem => ?_⟩
  refine List.ext_getElem? fun i => ?_
  rw [getElem?_bytes, List.getElem?_take, List.getElem?_drop, getElem?_bytes]
  dsimp only
  split
  · next hi => rw [if_pos (by omega), Nat.add_assoc]
  · rfl

theorem tail_ok (ha : a ≤ s.len) :
    ∃ t : Slice, s.tail a = .ok t ∧ t.ptr = s.ptr + a ∧ t.len = s.len - a
      ∧ ∀ mem, t.bytes mem = (s.bytes mem).drop a := by
  obtain ⟨t, ht, hp, hl, hbytes⟩ := sub_ok ha (Nat.le_refl s.len)
  refine ⟨t, ht, hp, hl, fun mem => ?_⟩
  rw [hbytes mem, List.take_of_length_le]
  exact Nat.le_of_eq (by rw [List.length_drop, length_bytes])

theorem write_eq {i : Nat} {bs : List UInt8} (h : i + bs.length ≤ s.len) :
    s.write mem i bs = .ok (store mem (s.ptr + i) bs) :=
  if_pos h

end Slice

-- ==== copying

/-- Copying to a lower address moves every byte, overlap or not. -/
theorem copyForwards_eq (mem : Mem) {dst src : Nat} (h : dst ≤ src) (n i : Nat) :
    copyForwards mem dst src n i
      = if dst ≤ i ∧ i < dst + n then mem (src + (i - dst)) else mem i := by
  induction n generalizing i with
  | zero => rw [if_neg (by omega)]; rfl
  | succ n ih =>
    show Function.update _ (dst + n) _ i = _
    by_cases hi : i = dst + n
    · subst hi
      rw [Function.update_self, ih, if_neg (by omega), if_pos (by omega), Nat.add_sub_cancel_left]
    · rw [Function.update_of_ne hi, ih]
      by_cases hin : dst ≤ i ∧ i < dst + n
      · rw [if_pos hin, if_pos (by omega)]
      · rw [if_neg hin, if_neg (by omega)]

theorem store_append (mem : Mem) (dst : Nat) (xs ys : List UInt8) :
    store mem dst (xs ++ ys) = store (store mem dst xs) (dst + xs.length) ys := by
  induction xs generalizing mem dst with
  | nil => rfl
  | cons x xs ih =>
    rw [List.cons_append, store, ih, store, List.length_cons,
      show dst + 1 + xs.length = dst + (xs.length + 1) by omega]

theorem store_eq (mem : Mem) (dst : Nat) (bs : List UInt8) (i : Nat) : store mem dst bs i
    = if dst ≤ i ∧ i < dst + bs.length then (bs[i - dst]?).getD 0 else mem i := by
  induction bs generalizing mem dst with
  | nil => rw [if_neg (by simp)]; rfl
  | cons x bs ih =>
    rw [store, ih, List.length_cons]
    by_cases hi : i = dst
    · subst hi
      rw [if_neg (by omega), if_pos (by omega), Function.update_self, Nat.sub_self]
      rfl
    · rw [Function.update_of_ne hi]
      by_cases hin : dst + 1 ≤ i ∧ i < dst + 1 + bs.length
      · rw [if_pos hin, if_pos (by omega),
          show i - dst = (i - (dst + 1)) + 1 by omega, List.getElem?_cons_succ]
      · rw [if_neg hin, if_neg (by omega)]

/-- What is stored at the start of a slice is read back, and the rest is
as it was. -/
theorem Slice.bytes_store_start {s : Slice} {bs : List UInt8} (mem : Mem)
    (h : bs.length ≤ s.len) :
    s.bytes (store mem s.ptr bs) = bs ++ (s.bytes mem).drop bs.length := by
  refine List.ext_getElem? fun i => ?_
  rw [Slice.getElem?_bytes, store_eq, List.getElem?_append, List.getElem?_drop,
    Slice.getElem?_bytes]
  by_cases hi : i < bs.length
  · rw [if_pos (by omega), if_pos (by omega), if_pos hi, Nat.add_sub_cancel_left,
      List.getElem?_eq_getElem hi]
    rfl
  · have hout : ¬ (s.ptr ≤ s.ptr + i ∧ s.ptr + i < s.ptr + bs.length) := by omega
    rw [if_neg hout, if_neg hi, Nat.add_sub_cancel' (Nat.le_of_not_lt hi)]

theorem Slice.bytes_store {s : Slice} {bs : List UInt8} (mem : Mem)
    (h : s.len = bs.length) : s.bytes (store mem s.ptr bs) = bs := by
  rw [bytes_store_start mem (Nat.le_of_eq h.symm), ← h, List.drop_of_length_le, List.append_nil]
  exact Nat.le_of_eq (length_bytes mem s)

end Dynamod.Lib
