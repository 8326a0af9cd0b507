/-
The three clients of the control socket: `send_request` of dynamodctl
(`dynamodctl/src/commands/mod.rs`), `send_command` of the systemd1
bridge (`dynamod-sd1bridge/src/main.rs`) and `send_command` of logind
(`dynamod-logind/src/svmgr_client.rs`). All three connect, send one
request and wait for one response.

dynamodctl receives with the loop of `Common.receiveFrame`. The other
two read once, into a buffer of 64 KiB, and decode what that read
returned.
-/
import Dynamod.Common.Receive

namespace Dynamod.Client

open Common

variable {E D I : Type} (rmp : RmpSerde E D)

/-- The control socket as a client finds it: why connecting or writing
fails if it does, and what the reads find. -/
structure ControlSocket (I : Type) where
  connectFails : Option I := none
  writeFails : Option I := none
  incoming : Incoming I

/-- The errors of a client, in the order of its calls. -/
inductive ClientError (E D I : Type)
  | connect (e : I)
  | encode (e : EncodeError E)
  | write (e : I)
  | read (e : I)
  /-- "connection closed before complete message". -/
  | closed
  /-- "empty response". -/
  | empty
  | decode (e : DecodeError D)

/-- What the clients have in common: connect, encode the request, write
it. -/
def sendMessage (socket : ControlSocket I) (msg : Message) :
    Except (ClientError E D I) (List UInt8) :=
  match socket.connectFails with
  | some e => .error (.connect e)
  | none =>
    match encode rmp msg with
    | .error e => .error (.encode e)
    | .ok data =>
      match socket.writeFails with
      | some e => .error (.write e)
      | none => .ok data

-- ==== dynamodctl

/-- The receive loop of `send_request`. -/
def receiveResponse (incoming : Incoming I) : Except (ClientError E D I) MessageBody :=
  match receiveFrame rmp [] incoming with
  | .error (.read e) => .error (.read e)
  | .error (.closed _) => .error .closed
  | .error (.decode e) => .error (.decode e)
  | .ok buf =>
    match decode rmp buf with
    | .ok (resp, _) => .ok resp.body
    | .error e => .error (.decode e)

/-- `send_request` of dynamodctl. -/
def sendRequest (socket : ControlSocket I) (body : MessageBody) :
    Except (ClientError E D I) MessageBody :=
  match sendMessage rmp socket { id := 1, kind := .request, body := body } with
  | .error e => .error e
  | .ok _ => receiveResponse rmp socket.incoming

-- ==== a single read

/-- The size of the buffer that is read into once. -/
def responseSize : Nat := 65536

/-- One read, and the message in what it returned. -/
def readResponse (incoming : Incoming I) : Except (ClientError E D I) MessageBody :=
  match (read responseSize incoming).1 with
  | .error e => .error (.read e)
  | .ok bytes =>
    if bytes.length = 0 then .error .empty
    else
      match decode rmp bytes with
      | .ok (resp, _) => .ok resp.body
      | .error e => .error (.decode e)

/-- The request of a client that reads once, and the body it gets. -/
def exchange (socket : ControlSocket I) (msg : Message) : Except (ClientError E D I) MessageBody :=
  match sendMessage rmp socket msg with
  | .error e => .error e
  | .ok _ => readResponse rmp socket.incoming

/-- `SvmgrClient` of the bridge. -/
structure SvmgrClient where
  nextId : UInt64 := 1

/-- `send_command` of the bridge: the ids of its requests count up. -/
def SvmgrClient.sendCommand (client : SvmgrClient) (socket : ControlSocket I)
    (body : MessageBody) : Except (ClientError E D I) MessageBody × SvmgrClient :=
  (exchange rmp socket { id := client.nextId, kind := .request, body := body },
    { nextId := client.nextId + 1 })

/-- How logind ends: it has no use for the body but the kind of it. -/
inductive LogindError (E D I : Type)
  | client (e : ClientError E D I)
  /-- The message of an error response. -/
  | refused (message : String)
  /-- "unexpected response". -/
  | unexpected

/-- What logind makes of a response. -/
def acknowledged : MessageBody → Except (LogindError E D I) Unit
  | .ack => .ok ()
  | .error message => .error (.refused message)
  | _ => .error .unexpected

/-- The response to a command of logind. -/
def logindResponse (socket : ControlSocket I) (body : MessageBody) :
    Except (ClientError E D I) MessageBody :=
  exchange rmp socket { id := 1, kind := .request, body := body }

/-- `send_command` of logind. -/
def logindSendCommand (socket : ControlSocket I) (body : MessageBody) :
    Except (LogindError E D I) Unit :=
  match logindResponse rmp socket body with
  | .error e => .error (.client e)
  | .ok resp => acknowledged resp

end Dynamod.Client
