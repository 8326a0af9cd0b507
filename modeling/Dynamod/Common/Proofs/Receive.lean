/-
Receiving a frame however the stream is cut.

`encode` writes frames; `decode` reads a frame whatever follows it and
finds every strict prefix of one incomplete. So the receive loop goes
on exactly until the frame is there (`receiveFrame_pieces`): its buffer
holds a strict prefix of a frame that fits into it, and the next piece
fits beside that prefix.
-/
import Dynamod.Common.Receive
import Dynamod.Common.Proofs.Wire

namespace Dynamod.Common

open Lib

variable {E D I : Type} {rmp : RmpSerde E D} {m : Message} {b : List UInt8}

-- ==== frames

/-- The library reads back what it wrote for `m`. -/
def RmpSerde.ReadsBack (rmp : RmpSerde E D) (m : Message) : Prop :=
  ∀ payload, rmp.toVec m = .ok payload → rmp.fromSlice payload = .ok m

/-- `b` is a frame with a payload that the library reads as `m`. -/
def Frames (rmp : RmpSerde E D) (m : Message) (b : List UInt8) : Prop :=
  ∃ payload, b = frame payload ∧ payload.length ≤ maxMessageSize
    ∧ rmp.fromSlice payload = .ok m

theorem encode_frames (hround : rmp.ReadsBack m) (h : encode rmp m = .ok b) : Frames rmp m b := by
  unfold encode at h
  split at h
  · cases h
  · next payload hp =>
    split at h
    · cases h
    · next hlen =>
      injection h with h
      exact ⟨payload, h.symm, Nat.not_lt.1 hlen, hround payload hp⟩

theorem Frames.length_le (h : Frames rmp m b) : b.length ≤ receiveSize := by
  obtain ⟨payload, rfl, hlen, -⟩ := h
  rw [length_frame]
  exact Nat.add_le_add_left hlen _

theorem Frames.length_pos (h : Frames rmp m b) : 0 < b.length := by
  obtain ⟨payload, rfl, -, -⟩ := h
  rw [length_frame]
  exact Nat.lt_of_lt_of_le (by decide) (Nat.le_add_right headerSize _)

theorem Frames.decode_append (h : Frames rmp m b) (rest : List UInt8) :
    decode rmp (b ++ rest) = .ok (m, b.length) := by
  obtain ⟨payload, rfl, hlen, hfrom⟩ := h
  rw [decode_payload hlen hfrom, length_frame]

theorem Frames.decode_eq (h : Frames rmp m b) : decode rmp b = .ok (m, b.length) := by
  have happ := h.decode_append []
  rw [List.append_nil] at happ
  exact happ

theorem Frames.decode_prefix (h : Frames rmp m b) {buf : List UInt8}
    (hbuf : buf <+: b) (hlt : buf.length < b.length) : decode rmp buf = .error .incomplete := by
  obtain ⟨payload, rfl, hlen, -⟩ := h
  exact decode_incomplete hlen hbuf hlt

/-- What `decode` takes as a message of just this length is a frame. -/
theorem frames_of_decode (h : decode rmp b = .ok (m, b.length)) : Frames rmp m b := by
  have hhead : headerSize = 6 := rfl
  unfold decode at h
  split at h
  · cases h
  next hlong =>
  split at h
  · cases h
  next hmagic =>
  dsimp only at h
  split at h
  · cases h
  next hmax =>
  split at h
  · cases h
  next hwhole =>
  split at h
  · cases h
  next msg hfrom =>
  injection h with h
  injection h with hmsg htotal
  have hfour : ((b.drop 2).take 4).length = 4 := by
    rw [List.length_take, List.length_drop]
    omega
  have hpayload : (b.drop headerSize).take (leNat ((b.drop 2).take 4))
      = b.drop headerSize :=
    List.take_of_length_le (by rw [List.length_drop]; omega)
  have hlen : (b.drop headerSize).length = leNat ((b.drop 2).take 4) := by
    rw [List.length_drop]
    omega
  refine ⟨b.drop headerSize, ?_, hlen ▸ Nat.not_lt.1 hmax, ?_⟩
  · -- the bytes are the magic, the length field and the payload
    have hfield := toLE_leNat ((b.drop 2).take 4)
    rw [hfour] at hfield
    unfold frame
    rw [hlen, hfield, ← not_not.1 hmagic]
    have htail : b.drop headerSize = (b.drop 2).drop 4 := by
      rw [List.drop_drop, hhead]
    rw [htail, List.take_append_drop, List.take_append_drop]
  · rw [← hpayload, ← hmsg]
    exact hfrom

-- ==== the loop

theorem read_piece {room : Nat} {piece : List UInt8} (rest : Incoming I)
    (h : piece.length ≤ room) : read room (.ok piece :: rest) = (.ok piece, rest) := by
  rw [read, if_pos h]

section Reads

variable {buf piece : List UInt8} {rest : Incoming I}
  (hfits : piece.length ≤ receiveSize - buf.length) (hne : piece ≠ [])
include hfits hne

theorem receiveFrame_done {r : Message × Nat} (hdecode : decode rmp (buf ++ piece) = .ok r) :
    receiveFrame rmp buf (.ok piece :: rest) = .ok (buf ++ piece) := by
  have hpos : ¬ piece.length = 0 := fun h => hne (List.eq_nil_of_length_eq_zero h)
  rw [receiveFrame]
  split
  · next hread =>
    rw [read_piece rest hfits] at hread
    cases hread
  · next hread =>
    rw [read_piece rest hfits] at hread
    cases hread
    rw [dif_neg hpos, hdecode]

/-- A read leaves the message incomplete. -/
theorem receiveFrame_more (hdecode : decode rmp (buf ++ piece) = .error .incomplete) :
    receiveFrame rmp buf (.ok piece :: rest)
      = receiveFrame rmp (buf ++ piece) rest := by
  have hpos : ¬ piece.length = 0 := fun h => hne (List.eq_nil_of_length_eq_zero h)
  rw [receiveFrame]
  split
  · next hread =>
    rw [read_piece rest hfits] at hread
    cases hread
  · next hread =>
    rw [read_piece rest hfits] at hread
    cases hread
    rw [dif_neg hpos, hdecode]

end Reads

/-- With a strict prefix of a frame in the buffer and the remainder of
the frame arriving in pieces, the loop ends with the frame. -/
theorem receiveFrame_remainder (h : Frames rmp m b) (later : Incoming I)
    (pieces : List (List UInt8)) :
    ∀ buf, buf ++ pieces.flatten = b → buf.length < b.length → (∀ p ∈ pieces, p ≠ []) →
      receiveFrame rmp buf (pieces.map .ok ++ later) = .ok b := by
  induction pieces with
  | nil =>
    intro buf hb hlt _
    rw [List.flatten_nil, List.append_nil] at hb
    rw [hb] at hlt
    exact absurd hlt (Nat.lt_irrefl _)
  | cons piece pieces ih =>
    intro buf hb hlt hne
    have hpiece := hne piece List.mem_cons_self
    have hsplit : buf ++ piece ++ pieces.flatten = b := by
      rw [List.append_assoc, ← List.flatten_cons]
      exact hb
    have hlen : (buf ++ piece).length ≤ b.length := by
      exact List.IsPrefix.length_le ⟨_, hsplit⟩
    have hfits : piece.length ≤ receiveSize - buf.length := by
      have hsize := h.length_le
      rw [List.length_append] at hlen
      omega
    rw [List.map_cons, List.cons_append]
    by_cases hwhole : (buf ++ piece).length = b.length
    · -- the frame is complete, whatever pieces were left
      have heq : buf ++ piece = b :=
        (List.prefix_iff_eq_take.1 ⟨_, hsplit⟩).trans
          (by rw [hwhole, List.take_length])
      rw [receiveFrame_done hfits hpiece (heq ▸ h.decode_eq), heq]
    · rw [receiveFrame_more hfits hpiece (h.decode_prefix ⟨_, hsplit⟩ (by omega))]
      exact ih _ hsplit (by omega) fun p hp => hne p (List.mem_cons_of_mem _ hp)

/-- However a frame is cut into reads, the loop ends with the frame. -/
theorem receiveFrame_pieces (h : Frames rmp m b) {pieces : List (List UInt8)}
    (hpieces : pieces.flatten = b) (hne : ∀ p ∈ pieces, p ≠ []) (later : Incoming I) :
    receiveFrame rmp [] (pieces.map .ok ++ later) = .ok b :=
  receiveFrame_remainder h later pieces [] hpieces h.length_pos hne

-- ==== the library

/-- The library encodes every message. -/
def RmpSerde.Serializes (rmp : RmpSerde E D) : Prop :=
  ∀ m, ∃ payload, rmp.toVec m = .ok payload

/-- What `encode` makes of a message depends on its size alone. -/
theorem encode_eq (hrmp : rmp.StructMap) (hall : rmp.Serializes) (m : Message) : encode rmp m
    = if (MessagePack.encode m.toDatum).length > maxMessageSize
      then .error (.tooLarge (MessagePack.encode m.toDatum).length)
      else .ok (frame (MessagePack.encode m.toDatum)) := by
  obtain ⟨payload, hp⟩ := hall m
  rw [← hrmp.toVec_eq m payload hp]
  unfold encode
  rw [hp]
  rfl

theorem readsBack_of_structMap (hrmp : rmp.StructMap)
    (hlen : (MessagePack.encode m.toDatum).length ≤ maxMessageSize) : rmp.ReadsBack m := by
  intro payload hp
  rw [hrmp.toVec_eq m payload hp]
  exact hrmp.fromSlice_eq m hlen

theorem reference_serializes : reference.Serializes :=
  fun m => ⟨MessagePack.encode m.toDatum, rfl⟩

theorem reference_readsBack (hlen : (MessagePack.encode m.toDatum).length ≤ maxMessageSize) :
    reference.ReadsBack m :=
  readsBack_of_structMap reference_structMap hlen

theorem encode_reference (hlen : (MessagePack.encode m.toDatum).length ≤ maxMessageSize) :
    encode reference m = .ok (frame (MessagePack.encode m.toDatum)) := by
  rw [encode_eq reference_structMap reference_serializes,
    if_neg (Nat.not_lt.2 hlen)]

end Dynamod.Common
