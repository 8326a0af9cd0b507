/-
The messages of all channels and their wire format
(`rust/dynamod-common/src/protocol.rs`).

Serialisation is done by a library. It is a parameter here, `RmpSerde`;
what is assumed of it is `RmpSerde.StructMap`: in its struct-map mode a
message is encoded as the tree `Message.toDatum` in the smallest
formats, and it reads its own encoding back. In the tree a struct is a
map from field names, a unit variant is its name, and a variant with
fields is a map with the name as its only key.
-/
import Dynamod.Lib.MessagePack.Encoder

namespace Dynamod.Common

open Lib MessagePack

-- ==== messages

inductive MessageKind
  | request
  | response (inReplyTo : UInt64)
  | event
  deriving DecidableEq

inductive ShutdownKind
  | poweroff
  | reboot
  | halt
  deriving DecidableEq

structure ServiceEntry where
  name : String
  status : String
  pid : Option Int32
  deriving DecidableEq

inductive MessageBody
  | requestShutdown (kind : ShutdownKind)
  | heartbeat
  | heartbeatAck
  | shutdownSignal (signal : String)
  | logToKmsg (level : UInt8) (message : String)
  | startService (name : String)
  | stopService (name : String)
  | restartService (name : String)
  | serviceStatus (name : String)
  | listServices
  | treeStatus
  | reload
  | shutdown (kind : ShutdownKind)
  | getServiceByPid (pid : Int32)
  | ack
  | error (message : String)
  | serviceInfo (name : String) (status : String) (pid : Option Int32)
      (supervisor : String)
  | serviceList (services : List ServiceEntry)
  | tree (text : String)
  | serviceByPid (name : Option String) (pid : Int32)
  deriving DecidableEq

structure Message where
  id : UInt64
  kind : MessageKind
  body : MessageBody
  deriving DecidableEq

-- ==== the tree

/-- A struct as a map from its field names. -/
def structMap (fields : List (String × Datum)) : Datum :=
  .map (fields.map fun f => (.str (utf8 f.1), f.2))

/-- A value of an enum: the name of the variant, and its fields. -/
inductive Variant
  | unit (name : String)
  | struct (name : String) (fields : List (String × Datum))

def Variant.toDatum : Variant → Datum
  | .unit name => .str (utf8 name)
  | .struct name fields => .map [(.str (utf8 name), structMap fields)]

def text (s : String) : Datum := .str (utf8 s)

/-- A signed integer: the unsigned formats where it is not negative. -/
def signedDatum (i : Int32) : Datum :=
  if 0 ≤ i.toInt then .uint i.toInt.toNat else .int i.toInt

def optional {A : Type} (toDatum : A → Datum) : Option A → Datum
  | none => .nil
  | some a => toDatum a

def MessageKind.variant : MessageKind → Variant
  | .request => .unit "Request"
  | .response inReplyTo =>
    .struct "Response" [("in_reply_to", .uint inReplyTo.toNat)]
  | .event => .unit "Event"

def ShutdownKind.variant : ShutdownKind → Variant
  | .poweroff => .unit "Poweroff"
  | .reboot => .unit "Reboot"
  | .halt => .unit "Halt"

def ServiceEntry.toDatum (e : ServiceEntry) : Datum :=
  structMap [("name", text e.name), ("status", text e.status), ("pid", optional signedDatum e.pid)]

def MessageBody.variant : MessageBody → Variant
  | .requestShutdown kind =>
    .struct "RequestShutdown" [("kind", kind.variant.toDatum)]
  | .heartbeat => .unit "Heartbeat"
  | .heartbeatAck => .unit "HeartbeatAck"
  | .shutdownSignal signal => .struct "ShutdownSignal" [("signal", text signal)]
  | .logToKmsg level message =>
    .struct "LogToKmsg" [("level", .uint level.toNat), ("message", text message)]
  | .startService name => .struct "StartService" [("name", text name)]
  | .stopService name => .struct "StopService" [("name", text name)]
  | .restartService name => .struct "RestartService" [("name", text name)]
  | .serviceStatus name => .struct "ServiceStatus" [("name", text name)]
  | .listServices => .unit "ListServices"
  | .treeStatus => .unit "TreeStatus"
  | .reload => .unit "Reload"
  | .shutdown kind => .struct "Shutdown" [("kind", kind.variant.toDatum)]
  | .getServiceByPid pid => .struct "GetServiceByPid" [("pid", signedDatum pid)]
  | .ack => .unit "Ack"
  | .error message => .struct "Error" [("message", text message)]
  | .serviceInfo name status pid supervisor =>
    .struct "ServiceInfo" [("name", text name), ("status", text status),
      ("pid", optional signedDatum pid), ("supervisor", text supervisor)]
  | .serviceList services =>
    .struct "ServiceList" [("services", .array (services.map ServiceEntry.toDatum))]
  | .tree s => .struct "Tree" [("text", text s)]
  | .serviceByPid name pid =>
    .struct "ServiceByPid" [("name", optional text name), ("pid", signedDatum pid)]

def Message.toDatum (m : Message) : Datum :=
  structMap [("id", .uint m.id.toNat), ("kind", m.kind.variant.toDatum),
    ("body", m.body.variant.toDatum)]

-- ==== the wire format

/-- The serialisation library, for messages: `Serializer` in struct-map
mode, and `from_slice`. -/
structure RmpSerde (E D : Type) where
  toVec : Message → Except E (List UInt8)
  fromSlice : List UInt8 → Except D Message

def magic : List UInt8 := [0x44, 0x4d]

def maxMessageSize : Nat := 64 * 1024

def headerSize : Nat := 6

/-- What is assumed of the library. -/
structure RmpSerde.StructMap {E D : Type} (rmp : RmpSerde E D) : Prop where
  toVec_eq : ∀ m bytes, rmp.toVec m = .ok bytes →
    bytes = MessagePack.encode m.toDatum
  fromSlice_eq : ∀ m, (MessagePack.encode m.toDatum).length ≤ maxMessageSize →
    rmp.fromSlice (MessagePack.encode m.toDatum) = .ok m

inductive EncodeError (E : Type)
  | serialize (e : E)
  | tooLarge (size : Nat)

inductive DecodeError (D : Type)
  | incomplete
  | badMagic
  | tooLarge (size : Nat)
  | deserialize (e : D)

variable {E D : Type} (rmp : RmpSerde E D)

def encode (msg : Message) : Except (EncodeError E) (List UInt8) :=
  match rmp.toVec msg with
  | .error e => .error (.serialize e)
  | .ok payload =>
    if payload.length > maxMessageSize then .error (.tooLarge payload.length)
    else .ok (magic ++ (toLE 4 payload.length ++ payload))

def decode (buf : List UInt8) : Except (DecodeError D) (Message × Nat) :=
  if buf.length < headerSize then .error .incomplete
  else if buf.take 2 ≠ magic then .error .badMagic
  else
    let len := leNat ((buf.drop 2).take 4)
    if len > maxMessageSize then .error (.tooLarge len)
    else
      let total := headerSize + len
      if buf.length < total then .error .incomplete
      else
        match rmp.fromSlice ((buf.drop headerSize).take len) with
        | .error e => .error (.deserialize e)
        | .ok msg => .ok (msg, total)

end Dynamod.Common
