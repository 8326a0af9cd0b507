/-
The frames that init sends.

Each encoder writes the smallest MessagePack form of its argument, or
reports that there is no room for it (`Piece.encode_spec`). A sender
writes the forms one behind the other behind the header, so its frame
is the frame of their concatenation, or nothing where that is longer
than the array (`sendFrame_spec`).
-/
import Dynamod.Lib.MessagePack.Encoder
import Dynamod.Init.Proofs.Buffer

namespace Dynamod.Init

open Lib Msgpack

/-- What an encoder answers for the bytes it has to write. -/
def written (mem : Mem) (out : Slice) (bs : List UInt8) : Checked Encoded :=
  .ok (if out.len < bs.length then .error .bufferTooSmall
    else .ok (bs.length, store mem out.ptr bs))

section Encoders

variable {mem : Mem} {out : Slice}

theorem encodeField_spec {tag : UInt8} {k val : Nat} (hval : val < 2 ^ (8 * k)) :
    encodeField mem out tag k val = written mem out (tag :: toBE k val) := by
  have hlen : (tag :: toBE k val).length = 1 + k := by
    rw [List.length_cons, length_toBE, Nat.add_comm]
  unfold encodeField written
  rw [hlen]
  split
  · rfl
  · next h =>
    rw [Slice.write_eq (by simp; omega)]
    rw [castWidth_eq hval]
    show (out.write _ 1 (toBE k val)).bind _ = _
    rw [Slice.write_eq (by rw [length_toBE]; omega)]
    rfl

theorem encodeUint_spec {val : Nat} (hval : val < 2 ^ 64) :
    encodeUint mem out val = written mem out (MessagePack.encodeUint val) := by
  unfold encodeUint MessagePack.encodeUint
  by_cases h₁ : val ≤ 0x7f
  · rw [if_pos h₁, if_pos (show val < 2 ^ 7 by omega), written]
    show (if out.len < 1 then _ else _) = Except.ok (if out.len < 1 then _ else _)
    split
    · rfl
    · next h =>
      rw [castWidth_eq (by omega)]
      show (out.write mem 0 [UInt8.ofNat val]).bind _ = _
      rw [Slice.write_eq (by simp; omega)]
      rfl
  rw [if_neg h₁, if_neg (show ¬ val < 2 ^ 7 by omega)]
  by_cases h₂ : val ≤ 0xff
  · rw [if_pos h₂, if_pos (show val < 2 ^ 8 by omega), encodeField_spec (by omega)]
  rw [if_neg h₂, if_neg (show ¬ val < 2 ^ 8 by omega)]
  by_cases h₃ : val ≤ 0xffff
  · rw [if_pos h₃, if_pos (show val < 2 ^ 16 by omega), encodeField_spec (by omega)]
  rw [if_neg h₃, if_neg (show ¬ val < 2 ^ 16 by omega)]
  by_cases h₄ : val ≤ 0xffffffff
  · rw [if_pos h₄, if_pos (show val < 2 ^ 32 by omega), encodeField_spec (by omega)]
  rw [if_neg h₄, if_neg (show ¬ val < 2 ^ 32 by omega), encodeField_spec (by omega)]

theorem encodeStringField_spec {tag : UInt8} {k : Nat} {str : List UInt8}
    (hlen : str.length < 2 ^ (8 * k)) (hword : 1 + k + str.length < 2 ^ 64) :
    encodeStringField mem out tag k str
      = written mem out (tag :: toBE k str.length ++ str) := by
  have htotal : (tag :: toBE k str.length ++ str).length = 1 + k + str.length := by
    rw [List.length_append, List.length_cons, length_toBE]
    omega
  unfold encodeStringField written
  rw [addWord_eq hword, htotal]
  show (if out.len < 1 + k + str.length then _ else _) = _
  split
  · rfl
  · next h =>
    rw [Slice.write_eq (by simp; omega)]
    rw [castWidth_eq hlen]
    show (out.write _ 1 (toBE k str.length)).bind _ = _
    rw [Slice.write_eq (by rw [length_toBE]; omega)]
    show (out.write _ (1 + k) str).bind _ = _
    rw [Slice.write_eq (by omega), store_append]
    rw [List.length_cons, length_toBE, Nat.add_comm k 1]
    rfl

private theorem or_tag (tag : UInt8) {n : Nat} (k a : Nat) (htag : tag.toNat = 2 ^ k * a)
    (hn : n < 2 ^ k) (hsum : tag.toNat + n < 256) :
    tag ||| UInt8.ofNat n = UInt8.ofNat (tag.toNat + n) := by
  apply UInt8.toNat_inj.1
  rw [UInt8.toNat_or, UInt8.toNat_ofNat', UInt8.toNat_ofNat',
    Nat.mod_eq_of_lt (by omega : n < 2 ^ 8), Nat.mod_eq_of_lt (by omega), htag,
    Nat.two_pow_add_eq_or_of_lt hn]

theorem encodeString_spec {str : List UInt8} (hlen : str.length < 2 ^ 16) :
    encodeString mem out str
      = written mem out (MessagePack.strHead str.length ++ str) := by
  unfold encodeString MessagePack.strHead
  by_cases h₁ : str.length ≤ 31
  · rw [if_pos h₁, if_pos (show str.length < 2 ^ 5 by omega), addWord_eq (by omega)]
    have hor : (0xa0 : UInt8) ||| UInt8.ofNat str.length
        = UInt8.ofNat (0xa0 + str.length) :=
      or_tag 0xa0 5 5 rfl (by omega) (by show 160 + _ < 256; omega)
    show (if out.len < 1 + str.length then _ else _) = written _ _ ([_] ++ str)
    rw [written, List.length_append, List.length_singleton]
    split
    · rfl
    · next h =>
      rw [castWidth_eq (by omega)]
      show (out.write mem 0 _).bind _ = _
      rw [Slice.write_eq (by simp; omega), hor]
      show (out.write _ 1 str).bind _ = _
      rw [Slice.write_eq (by omega), store_append]
      rfl
  rw [if_neg h₁, if_neg (show ¬ str.length < 2 ^ 5 by omega)]
  by_cases h₂ : str.length ≤ 0xff
  · rw [if_pos h₂, if_pos (show str.length < 2 ^ 8 by omega),
      encodeStringField_spec (by omega) (by omega)]
  rw [if_neg h₂, if_neg (show ¬ str.length < 2 ^ 8 by omega), if_pos hlen,
    encodeStringField_spec (by omega) (by omega)]

theorem encodeMapHeader_spec {count : UInt8} (hcount : count.toNat < 16) :
    encodeMapHeader mem out count
      = written mem out (MessagePack.mapHead count.toNat) := by
  have hor : (0x80 : UInt8) ||| count = UInt8.ofNat (0x80 + count.toNat) := by
    have h := or_tag 0x80 4 8 rfl hcount (by show 128 + _ < 256; omega)
    rw [UInt8.ofNat_toNat] at h
    exact h
  have hle : ¬ count > 15 := by
    rw [gt_iff_lt, UInt8.lt_iff_toNat_lt]
    show ¬ 15 < count.toNat
    omega
  unfold encodeMapHeader MessagePack.mapHead
  rw [if_neg hle, if_pos (show count.toNat < 2 ^ 4 from hcount), written]
  show (if out.len < 1 then _ else _) = Except.ok (if out.len < 1 then _ else _)
  split
  · rfl
  · rw [Slice.write_eq (by simp; omega), hor]
    rfl

end Encoders

-- ==== a sender

namespace Piece

def bytes : Piece → List UInt8
  | .mapHeader count => MessagePack.mapHead count.toNat
  | .uint val => MessagePack.encodeUint val.toNat
  | .string str => MessagePack.strHead str.length ++ str

/-- The piece has one of the formats the encoders know. -/
def Small : Piece → Prop
  | .mapHeader count => count.toNat < 16
  | .uint _ => True
  | .string str => str.length < 2 ^ 16

theorem encode_spec {p : Piece} (h : p.Small) (mem : Mem) (out : Slice) :
    p.encode mem out = written mem out p.bytes := by
  cases p with
  | mapHeader count => exact encodeMapHeader_spec h
  | uint val => exact encodeUint_spec val.toNat_lt
  | string str => exact encodeString_spec h

end Piece

/-- The pieces go into the array one behind the other. -/
theorem encodePieces_spec (ps : List Piece) :
    ∀ (mem : Mem) {offset : Nat}, offset ≤ 256 → (∀ p ∈ ps, p.Small) → encodePieces ps mem offset
        = .ok (if 256 < offset + (ps.flatMap Piece.bytes).length then none
          else some (store mem offset (ps.flatMap Piece.bytes),
            offset + (ps.flatMap Piece.bytes).length)) := by
  induction ps with
  | nil =>
    intro mem offset ho _
    rw [List.flatMap_nil, List.length_nil, Nat.add_zero, if_neg (Nat.not_lt.2 ho)]
    rfl
  | cons p ps ih =>
    intro mem offset ho hsmall
    obtain ⟨t, ht, htp, htl, -⟩ := Slice.tail_ok (s := frameBuf) ho
    have htp : t.ptr = offset := htp.trans (Nat.zero_add offset)
    have htl : t.len = 256 - offset := htl
    unfold encodePieces
    rw [ht]
    show (p.encode mem t).bind _ = _
    rw [Piece.encode_spec (hsmall p List.mem_cons_self), written,
      List.flatMap_cons, List.length_append]
    by_cases hroom : t.len < p.bytes.length
    · rw [if_pos hroom, if_pos (by omega)]
      rfl
    · rw [if_neg hroom]
      show (addWord offset p.bytes.length).bind _ = _
      rw [addWord_eq (by omega)]
      show encodePieces ps (store mem t.ptr p.bytes) (offset + p.bytes.length) = _
      rw [ih _ (by omega) fun q hq => hsmall q (List.mem_cons_of_mem _ hq), htp,
        store_append, Nat.add_assoc]

/-- The header in front of what was written. -/
private theorem bytes_header {mem : Mem} {bs : List UInt8} {t : Slice}
    (hptr : t.ptr = 0) (hlen : t.len = headerSize + bs.length) :
    t.bytes (store (store (store mem headerSize bs) 0 ipcMagic) 2 (toLE 4 bs.length))
      = frame bs := by
  have hhead : headerSize = 6 := rfl
  have hfour := length_toLE 4 bs.length
  have htwo : ipcMagic.length = 2 := rfl
  refine List.ext_getElem? fun i => ?_
  rw [Slice.getElem?_bytes, hptr, hlen, Nat.zero_add, store_eq, store_eq, store_eq,
    frame, List.getElem?_append, List.getElem?_append, htwo, hfour]
  by_cases h₁ : i < 2
  · rw [if_pos (by omega), if_neg (by omega), if_pos (by omega), if_pos h₁,
      Nat.sub_zero, List.getElem?_eq_getElem (by omega)]
    rfl
  by_cases h₂ : i < 6
  · rw [if_pos (by omega), if_pos (by omega), if_neg h₁, if_pos (by omega),
      List.getElem?_eq_getElem (by omega)]
    rfl
  by_cases h₃ : i < 6 + bs.length
  · rw [if_pos (by omega), if_neg (by omega), if_neg (by omega), if_pos (by omega),
      if_neg h₁, if_neg (by omega), show i - headerSize = i - 2 - 4 by omega,
      List.getElem?_eq_getElem (by omega)]
    rfl
  · rw [if_neg (by omega), if_neg h₁, if_neg (by omega), List.getElem?_eq_none (by omega)]

/-- A sender sends the frame of its pieces, where they fit. -/
theorem sendFrame_spec (undef : Mem) {ps : List Piece} (hsmall : ∀ p ∈ ps, p.Small) :
    sendFrame undef ps
      = .ok (if 256 < headerSize + (ps.flatMap Piece.bytes).length then none
        else some (frame (ps.flatMap Piece.bytes))) := by
  have hhead : headerSize = 6 := rfl
  unfold sendFrame
  rw [encodePieces_spec ps undef (by omega) hsmall]
  generalize ps.flatMap Piece.bytes = bs
  by_cases hroom : 256 < headerSize + bs.length
  · rw [if_pos hroom, if_pos hroom]
    rfl
  · rw [if_neg hroom, if_neg hroom]
    have hptr : frameBuf.ptr = 0 := rfl
    have hlen : frameBuf.len = 256 := rfl
    -- only the place and the size of the array matter from here on
    generalize frameBuf = buf at hptr hlen ⊢
    show (subWord (headerSize + bs.length) headerSize).bind _ = _
    rw [subWord_eq (by omega), Nat.add_sub_cancel_left]
    rw [Slice.write_eq (by rw [hlen]; show 0 + 2 ≤ 256; omega), hptr]
    show (castWidth 32 bs.length).bind _ = _
    rw [castWidth_eq (by omega)]
    show (buf.write _ 2 (toLE 4 bs.length)).bind _ = _
    rw [Slice.write_eq (by rw [length_toLE, hlen]; omega), hptr]
    obtain ⟨t, ht, htp, htl, -⟩ := Slice.sub_ok (s := buf)
      (Nat.zero_le (headerSize + bs.length)) (by rw [hlen]; omega)
    rw [ht]
    exact congrArg (fun x => Except.ok (some x)) (bytes_header (htp.trans hptr) htl)

end Dynamod.Init
