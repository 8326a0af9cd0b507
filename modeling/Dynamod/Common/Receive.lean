/-
Receiving a message from a stream socket: the loop that
`handle_connection` (`dynamod-svmgr/src/ipc/control.rs`) and
`send_request` (`dynamodctl/src/commands/mod.rs`) both run. It reads
into the free part of a buffer until `decode` finds a whole message in
what is filled.

The kernel decides how many bytes a read returns. It is represented by
the answers it will give: pieces of the stream, or errors. A piece that
is larger than the buffer's free part is handed out in parts, and a
read after the last piece finds the end of the stream.
-/
import Dynamod.Common.Protocol

namespace Dynamod.Common

variable {E D I : Type}

/-- What the reads of a stream will find. -/
abbrev Incoming (I : Type) := List (Except I (List UInt8))

/-- One `read` with room for `room` bytes, and what is left. Nothing
read is the end of the stream. -/
def read (room : Nat) : Incoming I → Except I (List UInt8) × Incoming I
  | [] => (.ok [], [])
  | .error e :: rest => (.error e, rest)
  | .ok piece :: rest =>
    if piece.length ≤ room then (.ok piece, rest)
    else (.ok (piece.take room), .ok (piece.drop room) :: rest)

theorem read_length {room : Nat} {incoming rest : Incoming I}
    {bytes : List UInt8} (h : read room incoming = (.ok bytes, rest)) : bytes.length ≤ room := by
  unfold read at h
  split at h
  · cases h
    exact Nat.zero_le _
  · cases h
  · split at h
    · next hle =>
      cases h
      exact hle
    · cases h
      exact List.length_take_le ..

/-- The size of the receive buffer. -/
def receiveSize : Nat := headerSize + maxMessageSize

/-- Why the loop gave up. -/
inductive ReceiveError (D I : Type)
  /-- A read failed. -/
  | read (e : I)
  /-- The stream ended with that many bytes received. -/
  | closed (filled : Nat)
  /-- What was received is no message. -/
  | decode (e : DecodeError D)

/-- The receive loop; `buf` is the filled part of the buffer. It ends
with the first filled part that holds a whole message. -/
def receiveFrame (rmp : RmpSerde E D) (buf : List UInt8) (incoming : Incoming I) :
    Except (ReceiveError D I) (List UInt8) :=
  match _h : read (receiveSize - buf.length) incoming with
  | (.error e, _) => .error (.read e)
  | (.ok bytes, rest) =>
    if _hn : bytes.length = 0 then .error (.closed buf.length)
    else
      match decode rmp (buf ++ bytes) with
      | .ok _ => .ok (buf ++ bytes)
      | .error .incomplete => receiveFrame rmp (buf ++ bytes) rest
      | .error e => .error (.decode e)
termination_by receiveSize - buf.length
decreasing_by
  have hlen := read_length _h
  rw [List.length_append]
  omega

end Dynamod.Common
