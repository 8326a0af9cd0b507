/-
The MessagePack codec of init (`zig/src/msgpack.zig`).

Every index, slice bound, sum and cast is the checked one of
Lib/Checked.lean, so a trap of the release-safe build is an error of
`Checked`; a `DecodeError` is an ordinary result. Strings are not
copied: a decoded string is a slice of the buffer.

`decode` recurses on the nesting of containers. A nested call gets a
strictly shorter slice, so the length of the buffer bounds the depth
and serves as fuel; where the fuel is out the slice is empty, and the
answer is the one for an empty slice.

The `map` and `array` variants of `Value` are never built (containers
are skipped and reported as `nil`) and are left out.
-/
import Dynamod.Lib.Bytes
import Dynamod.Lib.Checked

namespace Dynamod.Init.Msgpack

open Lib

-- ==== decoding

inductive Value
  | nil
  | boolean (b : Bool)
  | uint (n : Nat)
  | int (i : Int)
  | string (s : Slice)
  deriving DecidableEq

inductive DecodeError
  | unexpectedEof
  | unsupportedType
  | invalidUtf8
  | bufferTooSmall
  deriving DecidableEq

structure DecodeResult where
  value : Value
  consumed : Nat
  deriving DecidableEq

/-- What a decoding function returns. -/
abbrev Decoded := Except DecodeError DecodeResult

/-- Read the big-endian field of `k` bytes behind the tag. -/
def withField (mem : Mem) (buf : Slice) (k : Nat)
    (use : Nat → Checked Decoded) : Checked Decoded :=
  if buf.len < 1 + k then .ok (.error .unexpectedEof)
  else do
    let field ← (← buf.tail 1).sub 0 k
    use (beNat (field.bytes mem))

def decodeUint (mem : Mem) (buf : Slice) (byteCount : Nat) : Checked Decoded :=
  withField mem buf byteCount fun val =>
    .ok (.ok { value := .uint val, consumed := 1 + byteCount })

def decodeInt (mem : Mem) (buf : Slice) (byteCount : Nat) : Checked Decoded :=
  withField mem buf byteCount fun val =>
    .ok (.ok { value := .int (signed byteCount val), consumed := 1 + byteCount })

/-- A string of `len` bytes behind a header. -/
def stringAt (buf : Slice) (header len : Nat) : Checked Decoded := do
  let stop ← addWord header len
  if buf.len < stop then return .error .unexpectedEof
  else return .ok { value := .string (← buf.sub header stop), consumed := stop }

def decodeStr (mem : Mem) (buf : Slice) (lenBytes : Nat) : Checked Decoded :=
  withField mem buf lenBytes fun strLen => stringAt buf (1 + lenBytes) strLen

/-- Decode `n` values one behind the other, from `offset` on; the
result is the offset behind the last. -/
def skipItems (dec : Slice → Checked Decoded) (buf : Slice) :
    Nat → Nat → Checked (Except DecodeError Nat)
  | 0, offset => .ok (.ok offset)
  | n + 1, offset => do
      match ← dec (← buf.tail offset) with
      | .error e => return .error e
      | .ok result => skipItems dec buf n (← addWord offset result.consumed)

/-- The common end of `decodeMap` and `decodeArray`. -/
def container (dec : Slice → Checked Decoded) (buf : Slice)
    (items headerSize : Nat) : Checked Decoded := do
  match ← skipItems dec buf items 0 with
  | .error e => return .error e
  | .ok offset =>
    return .ok { value := .nil, consumed := ← addWord headerSize offset }

/-- `decodeMap`: each round of its loop decodes a key and a value. -/
def decodeMap (dec : Slice → Checked Decoded) (buf : Slice)
    (count headerSize : Nat) : Checked Decoded :=
  container dec buf (2 * count) headerSize

def decodeArray (dec : Slice → Checked Decoded) (buf : Slice)
    (count headerSize : Nat) : Checked Decoded :=
  container dec buf count headerSize

/-- The `switch` of `decode` over the tags outside the ranges. -/
def decodeTag (mem : Mem) (dec : Slice → Checked Decoded) (buf : Slice)
    (tag : UInt8) : Checked Decoded :=
  if tag = 0xc0 then .ok (.ok { value := .nil, consumed := 1 })
  else if tag = 0xc2 then .ok (.ok { value := .boolean false, consumed := 1 })
  else if tag = 0xc3 then .ok (.ok { value := .boolean true, consumed := 1 })
  else if tag = 0xcc then decodeUint mem buf 1
  else if tag = 0xcd then decodeUint mem buf 2
  else if tag = 0xce then decodeUint mem buf 4
  else if tag = 0xcf then decodeUint mem buf 8
  else if tag = 0xd0 then decodeInt mem buf 1
  else if tag = 0xd1 then decodeInt mem buf 2
  else if tag = 0xd2 then decodeInt mem buf 4
  else if tag = 0xd3 then decodeInt mem buf 8
  else if tag = 0xd9 then decodeStr mem buf 1
  else if tag = 0xda then decodeStr mem buf 2
  else if tag = 0xdc then
    withField mem buf 2 fun count => do decodeArray dec (← buf.tail 3) count 3
  else if tag = 0xde then
    withField mem buf 2 fun count => do decodeMap dec (← buf.tail 3) count 3
  else .ok (.error .unsupportedType)

/-- `decode`, with its nested calls made by `dec`. -/
def decodeBy (mem : Mem) (dec : Slice → Checked Decoded) (buf : Slice) : Checked Decoded :=
  if buf.len = 0 then .ok (.error .unexpectedEof)
  else do
    let tag ← buf.get mem 0
    if tag ≤ 0x7f then
      return .ok { value := .uint tag.toNat, consumed := 1 }
    else if tag ≥ 0xe0 then
      return .ok { value := .int (signed 1 tag.toNat), consumed := 1 }
    else if tag ≥ 0x80 ∧ tag ≤ 0x8f then
      decodeMap dec (← buf.tail 1) (tag &&& 0x0f).toNat 1
    else if tag ≥ 0x90 ∧ tag ≤ 0x9f then
      decodeArray dec (← buf.tail 1) (tag &&& 0x0f).toNat 1
    else if tag ≥ 0xa0 ∧ tag ≤ 0xbf then
      stringAt buf 1 (tag &&& 0x1f).toNat
    else decodeTag mem dec buf tag

/-- `decode`, with the nesting it may still enter. -/
def decodeWithin (mem : Mem) : Nat → Slice → Checked Decoded
  | 0, _ => .ok (.error .unexpectedEof)
  | fuel + 1, buf => decodeBy mem (decodeWithin mem fuel) buf

def decode (mem : Mem) (buf : Slice) : Checked Decoded :=
  decodeWithin mem buf.len buf

/-- `std.mem.eql` of a decoded value with a string. -/
def Value.isString (mem : Mem) (v : Value) (key : List UInt8) : Bool :=
  match v with
  | .string s => s.bytes mem = key
  | _ => false

/-- The loop of `lookupMapString`. -/
def lookupLoop (mem : Mem) (dec : Slice → Checked Decoded) (buf : Slice)
    (key : List UInt8) : Nat → Nat → Checked (Option Slice)
  | 0, _ => .ok none
  | n + 1, offset => do
      match ← dec (← buf.tail offset) with
      | .error _ => return none
      | .ok keyResult =>
        let keyEnd ← addWord offset keyResult.consumed
        match ← dec (← buf.tail keyEnd) with
        | .error _ => return none
        | .ok valResult =>
          let valEnd ← addWord keyEnd valResult.consumed
          if keyResult.value.isString mem key then
            return some (← buf.sub keyEnd valEnd)
          else lookupLoop mem dec buf key n valEnd

/-- `lookupMapString`: the raw bytes of the value under a string
key. The calls of `decode` here and in the parser are made by `dec`, so
that they can be counted. -/
def lookupMapString (mem : Mem) (buf : Slice) (key : List UInt8)
    (dec : Slice → Checked Decoded := decode mem) : Checked (Option Slice) :=
  if buf.len = 0 then .ok none
  else do
    let tag ← buf.get mem 0
    if tag ≥ 0x80 ∧ tag ≤ 0x8f then
      lookupLoop mem dec buf key (tag &&& 0x0f).toNat 1
    else if tag = 0xde then
      if buf.len < 3 then return none
      else
        let count ← buf.sub 1 3
        lookupLoop mem dec buf key (beNat (count.bytes mem)) 3
    else return none

-- ==== encoding

inductive EncodeError
  | bufferTooSmall
  deriving DecidableEq

/-- What an encoding function returns: the bytes written, in the
memory they were written to. -/
abbrev Encoded := Except EncodeError (Nat × Mem)

/-- A tag and a big-endian field of `k` bytes. -/
def encodeField (mem : Mem) (out : Slice) (tag : UInt8) (k val : Nat) : Checked Encoded :=
  if out.len < 1 + k then .ok (.error .bufferTooSmall)
  else do
    let mem ← out.write mem 0 [tag]
    let val ← castWidth (8 * k) val
    let mem ← out.write mem 1 (toBE k val)
    return .ok (1 + k, mem)

def encodeUint (mem : Mem) (out : Slice) (val : Nat) : Checked Encoded :=
  if val ≤ 0x7f then
    if out.len < 1 then .ok (.error .bufferTooSmall)
    else do
      let byte ← castWidth 8 val
      let mem ← out.write mem 0 [UInt8.ofNat byte]
      return .ok (1, mem)
  else if val ≤ 0xff then encodeField mem out 0xcc 1 val
  else if val ≤ 0xffff then encodeField mem out 0xcd 2 val
  else if val ≤ 0xffffffff then encodeField mem out 0xce 4 val
  else encodeField mem out 0xcf 8 val

/-- A string behind a tag and a length field of `k` bytes. -/
def encodeStringField (mem : Mem) (out : Slice) (tag : UInt8) (k : Nat)
    (str : List UInt8) : Checked Encoded := do
  let total ← addWord (1 + k) str.length
  if out.len < total then return .error .bufferTooSmall
  else
    let mem ← out.write mem 0 [tag]
    let len ← castWidth (8 * k) str.length
    let mem ← out.write mem 1 (toBE k len)
    let mem ← out.write mem (1 + k) str
    return .ok (total, mem)

def encodeString (mem : Mem) (out : Slice) (str : List UInt8) : Checked Encoded :=
  if str.length ≤ 31 then do
    let total ← addWord 1 str.length
    if out.len < total then return .error .bufferTooSmall
    else
      let len ← castWidth 8 str.length
      let mem ← out.write mem 0 [0xa0 ||| UInt8.ofNat len]
      let mem ← out.write mem 1 str
      return .ok (total, mem)
  else if str.length ≤ 0xff then encodeStringField mem out 0xd9 1 str
  else encodeStringField mem out 0xda 2 str

def encodeMapHeader (mem : Mem) (out : Slice) (count : UInt8) : Checked Encoded :=
  if count > 15 then .ok (.error .bufferTooSmall)
  else if out.len < 1 then .ok (.error .bufferTooSmall)
  else do
    let mem ← out.write mem 0 [0x80 ||| count]
    return .ok (1, mem)

end Dynamod.Init.Msgpack
