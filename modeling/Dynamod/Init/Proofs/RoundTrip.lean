/-
What the encoders write, and what the decoder makes of it.

`encodeUint` and `encodeString` write a smallest form of their argument,
where there is room for it (`Puts`), and nothing else. `encoders_roundtrip`
puts that beside the decoder: the form is read back as the argument, to its
last byte, wherever it stands and whatever follows it.

Which form is a smallest one is said without the encoders (`Shortest`):
over every form that the format has for the value, those for signed
numbers and the longest one for strings included.
-/
import Dynamod.Init.Proofs.Encode
import Dynamod.Init.Proofs.Msgpack

namespace Dynamod.Init.Msgpack

open Lib MessagePack

/-- One of the forms, and none of them has fewer bytes. -/
def Shortest (Form : List UInt8 → Prop) (form : List UInt8) : Prop :=
  Form form ∧ ∀ raw, Form raw → form.length ≤ raw.length

def NumberForm (n : Nat) (raw : List UInt8) : Prop :=
  Item (.uint n) raw ∨ Item (.int n) raw

def StringForm (str raw : List UInt8) : Prop :=
  Item (.str str) raw ∨ raw = str32 str

/-- The answer of an encoder that has this form to write into `out`: it
complains exactly if there is no room, and else the form stands at the
start of `out` and no other byte has changed. -/
structure Puts (mem : Mem) (out : Slice) (form : List UInt8) (answer : Checked Encoded) :
    Prop where
  short : answer = .ok (.error .bufferTooSmall) ↔ out.len < form.length
  room : form.length ≤ out.len → ∃ mem', answer = .ok (.ok (form.length, mem'))
    ∧ out.bytes mem' = form ++ (out.bytes mem).drop form.length
    ∧ ∀ a, (a < out.ptr ∨ out.ptr + form.length ≤ a) → mem' a = mem a

section Forms

variable {str : List UInt8} {n : Nat}

theorem written_puts (mem : Mem) (out : Slice) (form : List UInt8) :
    Puts mem out form (written mem out form) := by
  unfold written
  refine ⟨?_, fun hroom => ?_⟩
  · split
    · next h => exact iff_of_true rfl h
    · next h => exact iff_of_false nofun h
  · rw [if_neg (Nat.not_lt.2 hroom)]
    refine ⟨_, rfl, Slice.bytes_store_start mem hroom, fun a ha => ?_⟩
    rw [store_eq, if_neg (by omega)]

theorem encodeUint_item (hn : n < 2 ^ 64) : Item (.uint n) (MessagePack.encodeUint n) :=
  .scalar (head_encodeUint hn)

theorem strHead_item (hstr : str.length < 2 ^ 16) : Item (.str str) (strHead str.length ++ str) :=
  .str (head_strHead hstr)

theorem strHead_isShortest (hstr : str.length < 2 ^ 16) :
    Shortest (StringForm str) (strHead str.length ++ str) :=
  ⟨.inl (strHead_item hstr), fun _ h => encode_str_shortest h⟩

end Forms

/-- The encoders write the smallest form or report that it does not fit,
and the decoder reads the form back, whatever follows it. -/
theorem encoders_roundtrip (mem : Mem) (out : Slice) (val : UInt64) {str : List UInt8}
    (hstr : str.length ≤ 65535) : (∃ form, Shortest (NumberForm val.toNat) form
      ∧ Puts mem out form (encodeUint mem out val.toNat)
      ∧ ∀ (later : Mem) (s : Slice) (rest : List UInt8), s.bytes later = form ++ rest →
          decode later s = .ok (.ok ⟨.uint val.toNat, form.length⟩))
    ∧ ∃ form, Shortest (StringForm str) form
      ∧ Puts mem out form (encodeString mem out str)
      ∧ ∀ (later : Mem) (s : Slice) (rest : List UInt8), s.bytes later = form ++ rest →
          ∃ text, decode later s = .ok (.ok ⟨.string text, form.length⟩)
            ∧ text.bytes later = str := by
  have hstr : str.length < 2 ^ 16 := by omega
  refine ⟨⟨_, ⟨.inl (encodeUint_item val.toNat_lt), fun _ h => encodeUint_shortest h⟩, ?_,
      fun later s rest hs => ?_⟩,
    _, strHead_isShortest hstr, ?_, fun later s rest hs => ?_⟩
  · rw [encodeUint_spec val.toNat_lt]
    exact written_puts ..
  · obtain ⟨⟨value, consumed⟩, hr, hreads⟩ :=
      decode_complete (encodeUint_item val.toNat_lt) (hs ▸ List.prefix_append _ rest)
    cases hreads.consumed
    cases hreads.shows
    exact hr
  · rw [encodeString_spec hstr]
    exact written_puts ..
  · obtain ⟨⟨value, consumed⟩, hr, hreads⟩ :=
      decode_complete (strHead_item hstr) (hs ▸ List.prefix_append _ rest)
    cases hreads.consumed
    cases hreads.shows with
    | str text => exact ⟨text, hr, rfl⟩

/-- Two bytes are too few for 300 and enough for a letter. -/
theorem twoBytes_roundtrip :
    encodeUint (fun _ => 0) ⟨0, 2, by decide⟩ 300 = .ok (.error .bufferTooSmall)
      ∧ ∃ mem' text, encodeString (fun _ => 0) ⟨0, 2, by decide⟩ [0x6b] = .ok (.ok (2, mem'))
          ∧ decode mem' ⟨0, 2, by decide⟩ = .ok (.ok ⟨.string text, 2⟩)
          ∧ text.bytes mem' = [0x6b] := by
  obtain ⟨⟨form, hnumber, hputs, -⟩, form', htext, hputs', hback⟩ :=
    encoders_roundtrip (fun _ => 0) ⟨0, 2, by decide⟩ 300 (show [0x6b].length ≤ 65535 by decide)
  have htwo : form'.length = 2 :=
    Nat.le_antisymm (htext.2 _ (strHead_isShortest (by decide)).1)
      (encode_str_shortest htext.1)
  refine ⟨hputs.short.2 (encodeUint_shortest hnumber.1), ?_⟩
  obtain ⟨mem', hanswer, hbytes, -⟩ := hputs'.room (Nat.le_of_eq htwo)
  obtain ⟨text, hdecode, hsame⟩ := hback mem' _ _ hbytes
  rw [htwo] at hanswer hdecode
  exact ⟨mem', text, hanswer, hdecode, hsame⟩

end Dynamod.Init.Msgpack
