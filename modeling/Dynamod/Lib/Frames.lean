/-
Frames on a byte stream, and what a receiver holds of them.

The stream is the frames one behind the other; it arrives in pieces
that need not end where a frame ends. `Pending` is what a receiver may
hold between two reads: less than the next frame. Whatever has arrived
is a number of whole frames and such a rest (`wire_split`), so a
receiver that takes whole frames off the front until there is none is
always left with a pending rest, however the stream was cut.
-/
import Mathlib.Data.List.Basic

namespace Dynamod.Lib

variable {A B : Type} (frame : B → List A)

/-- The stream of a sequence of frames. -/
def wire (ps : List B) : List A := ps.flatMap frame

/-- Less than the first of the frames still to come. -/
def Pending : List B → List A → Prop
  | [], bs => bs = []
  | p :: _, bs => bs <+: frame p ∧ bs.length < (frame p).length

variable {frame}

@[simp] theorem wire_nil : wire frame [] = [] := rfl

@[simp] theorem wire_cons (p : B) (ps : List B) :
    wire frame (p :: ps) = frame p ++ wire frame ps :=
  List.flatMap_cons

theorem wire_append (ps qs : List B) : wire frame (ps ++ qs) = wire frame ps ++ wire frame qs :=
  List.flatMap_append

/-- What has arrived of a stream: whole frames and a pending rest. -/
theorem wire_split {ps : List B} {bs : List A} (h : bs <+: wire frame ps) :
    ∃ done todo rest, ps = done ++ todo ∧ bs = wire frame done ++ rest
      ∧ Pending frame todo rest := by
  induction ps generalizing bs with
  | nil =>
    rw [wire_nil, List.prefix_nil] at h
    exact ⟨[], [], bs, rfl, rfl, h⟩
  | cons p ps ih =>
    rw [wire_cons] at h
    by_cases hlen : bs.length < (frame p).length
    · exact ⟨[], p :: ps, bs, rfl, rfl, List.prefix_of_prefix_length_le h (List.prefix_append _ _)
          (Nat.le_of_lt hlen), hlen⟩
    · obtain ⟨rest, rfl⟩ := List.prefix_of_prefix_length_le
        (List.prefix_append _ _) h (Nat.not_lt.1 hlen)
      obtain ⟨done, todo, rest, rfl, rfl, hrest⟩ :=
        ih ((List.prefix_append_right_inj _).1 h)
      exact ⟨p :: done, todo, rest, rfl, by rw [wire_cons, List.append_assoc], hrest⟩

/-- A receiver that holds all that is left of the stream holds
nothing. -/
theorem Pending.all {ps : List B} {bs : List A} (h : Pending frame ps bs)
    (hall : bs = wire frame ps) : ps = [] ∧ bs = [] := by
  cases ps with
  | nil => exact ⟨rfl, h⟩
  | cons p ps =>
    have hlen := h.2
    rw [hall, wire_cons, List.length_append] at hlen
    omega

end Dynamod.Lib
