/-
How many bytes a message takes. A text takes its bytes and a head that
depends on their number, a struct takes its field names and values, and
a variant with fields its name and a struct.
-/
import Dynamod.Common.Protocol

namespace Dynamod.Common

open Lib MessagePack

-- ==== the parts

/-- What a text of `n` bytes takes. -/
def textSize (n : Nat) : Nat := (strHead n).length + n

/-- What an unsigned integer takes. -/
def uintSize (n : Nat) : Nat := (encodeUint n).length

/-- What an optional process id takes. -/
def pidSize (pid : Option Int32) : Nat :=
  (MessagePack.encode (optional signedDatum pid)).length

/-- What an optional text takes. -/
def optionalTextSize : Option String → Nat
  | none => 1
  | some s => textSize s.utf8ByteSize

theorem length_utf8 (s : String) : (utf8 s).length = s.utf8ByteSize := by
  rw [Array.length_toList]
  rfl

theorem length_encode_str (s : String) :
    (MessagePack.encode (.str (utf8 s))).length = textSize s.utf8ByteSize := by
  rw [encode_str, List.length_append, length_utf8]
  rfl

theorem length_encode_text (s : String) :
    (MessagePack.encode (text s)).length = textSize s.utf8ByteSize :=
  length_encode_str s

theorem length_encode_optional_text (s : Option String) :
    (MessagePack.encode (optional text s)).length = optionalTextSize s := by
  cases s with
  | none => rfl
  | some s => exact length_encode_text s

-- ==== the structs

/-- What the fields of a struct take. -/
def fieldsSize : List (String × Datum) → Nat
  | [] => 0
  | (name, value) :: fields =>
    textSize name.utf8ByteSize + (MessagePack.encode value).length
      + fieldsSize fields

theorem length_encodeEntries (fields : List (String × Datum)) :
    (encodeEntries (fields.map fun f => (.str (utf8 f.1), f.2))).length
      = fieldsSize fields := by
  induction fields with
  | nil => rfl
  | cons f fields ih =>
    rw [List.map_cons, encodeEntries, encodeEntry, List.length_append,
      List.length_append, length_encode_str, ih, fieldsSize]

theorem length_encode_structMap (fields : List (String × Datum)) :
    (MessagePack.encode (structMap fields)).length
      = (mapHead fields.length).length + fieldsSize fields := by
  rw [structMap, encode_map, List.length_append, List.length_map, length_encodeEntries]

theorem length_encode_unit (name : String) :
    (MessagePack.encode (Variant.unit name).toDatum).length
      = textSize name.utf8ByteSize :=
  length_encode_str name

theorem length_encode_struct (name : String) (fields : List (String × Datum)) :
    (MessagePack.encode (Variant.struct name fields).toDatum).length
      = 1 + (textSize name.utf8ByteSize
        + ((mapHead fields.length).length + fieldsSize fields)) := by
  show (MessagePack.encode (.map [(.str (utf8 name), structMap fields)])).length = _
  rw [encode_map, List.length_append, encodeEntries, encodeEntry, encodeEntries,
    List.append_nil, List.length_append, length_encode_str, length_encode_structMap]
  rfl

-- ==== the messages

/-- What an entry of a list of services takes. -/
def entrySize (e : ServiceEntry) : Nat :=
  17 + textSize e.name.utf8ByteSize + textSize e.status.utf8ByteSize + pidSize e.pid

theorem length_encode_entry (e : ServiceEntry) :
    (MessagePack.encode e.toDatum).length = entrySize e := by
  have h : ∀ n s p : Nat,
      1 + (textSize 4 + n + (textSize 6 + s + (textSize 3 + p + 0))) = 17 + n + s + p := by
    intro n s p
    show 1 + (5 + n + (7 + s + (4 + p + 0))) = _
    omega
  unfold ServiceEntry.toDatum
  rw [length_encode_structMap]
  simp only [fieldsSize, length_encode_text]
  exact h _ _ _

/-- What the kind of a message takes. -/
def kindSize : MessageKind → Nat
  | .request => 8
  | .response inReplyTo => 23 + uintSize inReplyTo.toNat
  | .event => 6

theorem length_encode_kind (k : MessageKind) :
    (MessagePack.encode k.variant.toDatum).length = kindSize k := by
  cases k with
  | request => exact length_encode_unit "Request"
  | response n =>
    refine (length_encode_struct "Response" _).trans ?_
    simp only [fieldsSize, encode_uint]
    show 1 + (9 + (1 + (12 + uintSize n.toNat + 0))) = 23 + uintSize n.toNat
    omega
  | event => exact length_encode_unit "Event"

theorem length_encode_message (m : Message) : (MessagePack.encode m.toDatum).length
    = 14 + uintSize m.id.toNat + kindSize m.kind
      + (MessagePack.encode m.body.variant.toDatum).length := by
  unfold Message.toDatum
  rw [length_encode_structMap]
  simp only [fieldsSize, encode_uint, length_encode_kind]
  generalize (MessagePack.encode m.body.variant.toDatum).length = body
  show 1 + (3 + uintSize m.id.toNat + (5 + kindSize m.kind + (5 + body + 0))) = _
  omega

end Dynamod.Common
