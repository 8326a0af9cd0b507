/-
The framing layer of init (`zig/src/ipc.zig`): the read buffer that
cuts the byte stream of svmgr into messages, the parser of a payload,
and the two frames init sends.

A frame is the magic, the length of the payload as a little-endian
`u32`, and the payload.

# The read buffer

`ReadBuffer.buf` is memory whose address 0 is the first byte of the
array; only the first `len` bytes are data. A message of kind
`logToKmsg` holds a slice of this array, so its text is whatever the
array holds when the slice is read. The bound on `len` is part of the
type, which is why the slice of the free space in `readFrom` needs no
check. `discards` is no field of the source: it records each time a
branch throws bytes away.

# The frames sent

`buf` is a local array of 256 bytes that starts out undefined; its
initial contents are an argument. The result is the bytes handed to
`write`, or `none` where an encoder reports `BufferTooSmall`. What
`write` itself answers is ignored by the source.
-/
import Dynamod.Init.Msgpack

namespace Dynamod.Init

open Lib Msgpack

inductive ShutdownKind
  | poweroff
  | reboot
  | halt
  deriving DecidableEq

inductive InitMessage
  | heartbeat
  | requestShutdown (kind : ShutdownKind)
  | logToKmsg (level : UInt8) (message : Slice)
  | unknown
  deriving DecidableEq

def ipcMagic : List UInt8 := [0x44, 0x4d]

def maxMessageSize : Nat := 64 * 1024

def headerSize : Nat := 6

-- ==== payloads

/-- The value under a key: `lookupMapString` with `orelse`, then
`decode` with `catch`. -/
def fieldOf (mem : Mem) (raw : Slice) (key : String)
    (dec : Slice → Checked Decoded := decode mem) : Checked (Option (Slice × Value)) := do
  match ← lookupMapString mem raw (utf8 key) dec with
  | none => return none
  | some value =>
    match ← dec value with
    | .error _ => return none
    | .ok result => return some (value, result.value)

/-- The same where the value has to be a string. -/
def stringField (mem : Mem) (raw : Slice) (key : String)
    (dec : Slice → Checked Decoded := decode mem) : Checked (Option Slice) := do
  match ← fieldOf mem raw key dec with
  | some (_, .string s) => return some s
  | _ => return none

/-- The same where the value has to be an unsigned integer. -/
def uintField (mem : Mem) (raw : Slice) (key : String)
    (dec : Slice → Checked Decoded := decode mem) : Checked (Option Nat) := do
  match ← fieldOf mem raw key dec with
  | some (_, .uint n) => return some n
  | _ => return none

def parseShutdownRequest (mem : Mem) (raw : Slice)
    (dec : Slice → Checked Decoded := decode mem) : Checked InitMessage := do
  match ← stringField mem raw "kind" dec with
  | none => return .unknown
  | some kind =>
    if kind.bytes mem = utf8 "Poweroff" then return .requestShutdown .poweroff
    else if kind.bytes mem = utf8 "Reboot" then return .requestShutdown .reboot
    else if kind.bytes mem = utf8 "Halt" then return .requestShutdown .halt
    else return .unknown

def parseLogToKmsg (mem : Mem) (raw : Slice)
    (dec : Slice → Checked Decoded := decode mem) : Checked InitMessage := do
  match ← uintField mem raw "level" dec with
  | none => return .unknown
  | some level =>
    match ← stringField mem raw "message" dec with
    | none => return .unknown
    | some message =>
      let level ← castWidth 8 level
      return .logToKmsg (UInt8.ofNat level) message

/-- The `switch` of `parseMessage` over the decoded body. -/
def parseBody (mem : Mem) (body : Slice) (value : Value)
    (dec : Slice → Checked Decoded := decode mem) : Checked InitMessage :=
  match value with
  | .string s =>
    if s.bytes mem = utf8 "Heartbeat" then .ok .heartbeat
    else if s.bytes mem = utf8 "HeartbeatAck" then .ok .heartbeat
    else if s.bytes mem = utf8 "Ack" then .ok .unknown
    else .ok .unknown
  | _ => do
      match ← lookupMapString mem body (utf8 "RequestShutdown") dec with
      | some raw => parseShutdownRequest mem raw dec
      | none =>
        match ← lookupMapString mem body (utf8 "LogToKmsg") dec with
        | some raw => parseLogToKmsg mem raw dec
        | none => return .unknown

def parseMessage (mem : Mem) (payload : Slice)
    (dec : Slice → Checked Decoded := decode mem) : Checked InitMessage := do
  match ← fieldOf mem payload "body" dec with
  | none => return .unknown
  | some (body, value) => parseBody mem body value dec

-- ==== the read buffer

/-- The branches of the read buffer that throw bytes away. -/
inductive Discard
  | full
  | resync
  | noMagic
  | oversize
  deriving DecidableEq

def capacity : Nat := maxMessageSize + headerSize

structure ReadBuffer where
  buf : Mem
  len : Nat
  len_le : len ≤ capacity
  discards : List Discard

inductive ReadAnswer
  | data (bytes : List UInt8)
  | wouldBlock
  | failed

/-- What `readFrom` fails with. -/
inductive ReadError
  | endOfStream
  | failed
  deriving DecidableEq

namespace ReadBuffer

/-- A fresh buffer over an undefined array. -/
def new (undef : Mem) : ReadBuffer := ⟨undef, 0, Nat.zero_le _, []⟩

/-- The array as a slice. -/
def whole : Slice := ⟨0, capacity, by decide⟩

/-- The data in the buffer. -/
def bytes (b : ReadBuffer) : List UInt8 :=
  (List.range b.len).map b.buf

/-- `self.len = 0`. -/
def clear (b : ReadBuffer) : ReadBuffer :=
  { b with len := 0, len_le := Nat.zero_le _ }

/-- Note that bytes were thrown away. -/
def discard (b : ReadBuffer) (why : Discard) : ReadBuffer :=
  { b with discards := b.discards ++ [why] }

/-- Bytes stored by the kernel behind the data. -/
def fill (b : ReadBuffer) (got : List UInt8) (h : b.len + got.length ≤ capacity) :
    ReadBuffer :=
  { b with buf := store b.buf b.len got, len := b.len + got.length, len_le := h }

/-- `readFrom`. The kernel stores at most as many bytes as there is
space for. -/
def readFrom (b : ReadBuffer) (answer : ReadAnswer) : Except ReadError ReadBuffer :=
  if capacity - b.len = 0 then .ok (b.clear.discard .full)
  else
    match answer with
    | .wouldBlock => .ok b
    | .failed => .error .failed
    | .data bytes =>
      let got := bytes.take (capacity - b.len)
      if got.length = 0 then .error .endOfStream
      else .ok (b.fill got (by
        have hgot : got.length ≤ capacity - b.len := List.length_take_le _ _
        have hlen := b.len_le
        omega))

/-- Copy the data from `start` on to the front of the array. -/
def copyToFront (b : ReadBuffer) (start : Nat) : Checked ReadBuffer := do
  let source ← whole.sub start b.len
  return { b with buf := copyForwards b.buf 0 source.ptr source.len }

/-- The copy behind a frame, made only where bytes follow it. -/
def copyRest (b : ReadBuffer) (total : Nat) : Checked ReadBuffer :=
  if b.len > total then b.copyToFront total else .ok b

/-- `self.len -= n`. -/
def shrink (b : ReadBuffer) (n : Nat) : Checked ReadBuffer :=
  if n ≤ b.len then
    .ok { b with
      len := b.len - n
      len_le := Nat.le_trans (Nat.sub_le _ _) b.len_le }
  else .error .overflow

/-- The loop of `resync`. -/
def findMagic (b : ReadBuffer) : Nat → Nat → Checked (Option Nat)
  | 0, _ => .ok none
  | fuel + 1, i =>
    if i + 1 < b.len then do
      let first ← whole.get b.buf i
      let second ← whole.get b.buf (i + 1)
      if [first, second] = ipcMagic then return some i
      else findMagic b fuel (i + 1)
    else .ok none

/-- `resync`: `none` where the source returns `false`. -/
def resync (b : ReadBuffer) : Checked (Option ReadBuffer) := do
  match ← b.findMagic b.len 1 with
  | some i =>
    let b ← b.copyToFront i
    let b ← b.shrink i
    return some b
  | none => return none

/-- The rest of a round of `nextMessage`, once the length is read. -/
def takePayload (b : ReadBuffer) (payloadLen : Nat) : Checked (Option InitMessage × ReadBuffer) :=
  if payloadLen > maxMessageSize then
    .ok (none, b.clear.discard .oversize)
  else do
    let total ← addWidth 32 headerSize payloadLen
    if b.len < total then return (none, b)
    else
      let payload ← whole.sub headerSize total
      let msg ← parseMessage b.buf payload
      let b ← b.copyRest total
      let b ← b.shrink total
      return (some msg, b)

/-- A round of `nextMessage` behind the check of the magic. -/
def takeFrame (b : ReadBuffer) : Checked (Option InitMessage × ReadBuffer) := do
  let field ← whole.sub 2 6
  b.takePayload (leNat (field.bytes b.buf))

/-- The loop of `nextMessage`. It goes round again only behind a
`resync`, which shortens the data. -/
def nextWithin : Nat → ReadBuffer → Checked (Option InitMessage × ReadBuffer)
  | 0, b => .ok (none, b)
  | fuel + 1, b =>
    if b.len < headerSize then .ok (none, b)
    else if [b.buf 0, b.buf 1] ≠ ipcMagic then do
      match ← b.resync with
      | some b => nextWithin fuel (b.discard .resync)
      | none => return (none, b.clear.discard .noMagic)
    else b.takeFrame

def nextMessage (b : ReadBuffer) : Checked (Option InitMessage × ReadBuffer) :=
  nextWithin b.len b

/-- The loop of the caller: take messages until there is none. Each is
handled before the next one is taken, with the array as it is then. -/
def drainWithin {S : Type} (handle : S → Mem → InitMessage → S) :
    Nat → S → ReadBuffer → Checked (S × ReadBuffer)
  | 0, s, b => .ok (s, b)
  | fuel + 1, s, b => do
      match ← b.nextMessage with
      | (none, b) => return (s, b)
      | (some msg, b) => drainWithin handle fuel (handle s b.buf msg) b

/-- A message takes at least a header, so the length of the data bounds
the rounds. -/
def drain {S : Type} (handle : S → Mem → InitMessage → S) (s : S)
    (b : ReadBuffer) : Checked (S × ReadBuffer) :=
  drainWithin handle (b.len + 1) s b

/-- What the caller does when the socket is ready: read, and unless that
fails take the messages. -/
def receive {S : Type} (handle : S → Mem → InitMessage → S) (s : S)
    (b : ReadBuffer) (answer : ReadAnswer) : Checked (S × ReadBuffer) :=
  match b.readFrom answer with
  | .error _ => .ok (s, b)
  | .ok b => b.drain handle s

end ReadBuffer

-- ==== the frames sent

/-- One call of an encoder. -/
inductive Piece
  | mapHeader (count : UInt8)
  | uint (val : UInt64)
  | string (str : List UInt8)

def Piece.encode (mem : Mem) (out : Slice) : Piece → Checked Encoded
  | .mapHeader count => encodeMapHeader mem out count
  | .uint val => encodeUint mem out val.toNat
  | .string str => encodeString mem out str

/-- The local array of 256 bytes. -/
def frameBuf : Slice := ⟨0, 256, by decide⟩

/-- The encoders one behind the other; `none` where one of them has no
room. -/
def encodePieces : List Piece → Mem → Nat → Checked (Option (Mem × Nat))
  | [], mem, offset => .ok (some (mem, offset))
  | p :: ps, mem, offset => do
      match ← p.encode mem (← frameBuf.tail offset) with
      | .error _ => return none
      | .ok (n, mem) => encodePieces ps mem (← addWord offset n)

/-- The common body of the two senders. -/
def sendFrame (undef : Mem) (pieces : List Piece) : Checked (Option (List UInt8)) := do
  match ← encodePieces pieces undef headerSize with
  | none => return none
  | some (mem, offset) =>
    let payloadLen ← subWord offset headerSize
    let mem ← frameBuf.write mem 0 ipcMagic
    let payloadLen ← castWidth 32 payloadLen
    let mem ← frameBuf.write mem 2 (toLE 4 payloadLen)
    return some ((← frameBuf.sub 0 offset).bytes mem)

def sendHeartbeatAck (undef : Mem) (msgId : UInt64) : Checked (Option (List UInt8)) :=
  sendFrame undef
    [.mapHeader 3, .string (utf8 "id"), .uint msgId, .string (utf8 "kind"),
      .mapHeader 1, .string (utf8 "Response"),
      .mapHeader 1, .string (utf8 "in_reply_to"), .uint msgId,
      .string (utf8 "body"), .string (utf8 "HeartbeatAck")]

def sendShutdownSignal (undef : Mem) (sigName : List UInt8) : Checked (Option (List UInt8)) :=
  sendFrame undef
    [.mapHeader 3, .string (utf8 "id"), .uint 0,
      .string (utf8 "kind"), .string (utf8 "Event"), .string (utf8 "body"),
      .mapHeader 1, .string (utf8 "ShutdownSignal"),
      .mapHeader 1, .string (utf8 "signal"), .string sigName]

end Dynamod.Init
