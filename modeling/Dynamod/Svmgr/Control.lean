/-
The control socket (`ipc/control.rs`): one connection is one request
and one response.

# What a connection sees

`handle_connection` receives a request with the loop of
`Common.receiveFrame`, makes the response and writes it as one frame.
A response that `encode` refuses is not written: the error goes to the
log of the service manager, and the client finds the end of the stream.

# The text of the tree

`format_tree` calls itself on the children of a supervisor. Here it
takes fuel for the depth of the recursion and is `none` when that runs
out; on a tree that grew by `add_supervisor` and `add_worker` the
number of nodes is enough.

The workers are listed in the order of a walk over the node map.
-/
import Dynamod.Common.Receive
import Dynamod.Lib.Iter
import Dynamod.Svmgr.Manager

namespace Dynamod.Svmgr

open Lib Common

-- ==== the texts

def ServiceState.displayName : ServiceState → String
  | stopped => "stopped"
  | starting => "starting"
  | running => "running"
  | stopping _ => "stopping"
  | failed _ _ => "failed"
  | abandoned => "abandoned"

/-- The strategy as `{:?}` prints it. -/
def RestartStrategy.debugName : RestartStrategy → String
  | oneForOne => "OneForOne"
  | oneForAll => "OneForAll"
  | restForOne => "RestForOne"

/-- `"  ".repeat(depth)`. -/
def indent (depth : Nat) : String := String.join (List.replicate depth "  ")

/-- The process of a worker, as `format_tree` prints it. -/
def pidText : Option Pid → String
  | some pid => " pid=" ++ toString pid
  | none => ""

def formatTree (t : SupervisorTree) : Nat → NodeId → Nat → Option String
  | 0, _, _ => none
  | fuel + 1, nodeId, depth =>
    match t.get nodeId with
    | some (.supervisor s) =>
      s.children.foldlM
        (fun output childId =>
          (formatTree t fuel childId (depth + 1)).map (output ++ ·))
        (indent depth ++ "[supervisor: " ++ nodeId ++ "] strategy="
          ++ s.strategy.debugName ++ "\n")
    | some (.worker w) =>
      some (indent depth ++ nodeId ++ " [" ++ w.state.displayName ++ "]"
        ++ pidText w.pid ++ "\n")
    | none => some (indent depth ++ nodeId ++ " [unknown]\n")

-- ==== the requests

/-- `ControlAction`, with the kind of shutdown. -/
inductive RequestedAction
  | startService (name : NodeId)
  | stopService (name : NodeId)
  | restartService (name : NodeId)
  | reload
  | shutdown (kind : ShutdownKind)
  deriving DecidableEq

/-- A request to act on a service: it is acknowledged if the tree has
such a worker. -/
def actOn (t : SupervisorTree) (name : NodeId) (action : RequestedAction) :
    MessageBody × Option RequestedAction :=
  if (t.getWorker name).isSome then (.ack, some action)
  else (.error ("unknown service: " ++ name), none)

section

variable (t : SupervisorTree) (workers : IterOrder t.allWorkers)

/-- One entry of the list of services. -/
def serviceEntry (name : NodeId) (w : WorkerNode) : ServiceEntry :=
  { name := name, status := w.state.displayName,
    pid := w.pid.map Int32.ofInt }

def handleRequest (fuel : Nat) : MessageBody → Option (MessageBody × Option RequestedAction)
  | .startService name => some (actOn t name (.startService name))
  | .stopService name => some (actOn t name (.stopService name))
  | .restartService name => some (actOn t name (.restartService name))
  | .serviceStatus name =>
    match t.getWorker name with
    | some w =>
      some (.serviceInfo name w.state.displayName (w.pid.map Int32.ofInt) w.parent, none)
    | none => some (.error ("unknown service: " ++ name), none)
  | .listServices =>
    some (.serviceList (workers.list.filterMap fun name =>
      (t.getWorker name).map (serviceEntry name)), none)
  | .treeStatus =>
    (formatTree t fuel t.rootId 0).map fun text => (.tree text, none)
  | .shutdown kind => some (.ack, some (.shutdown kind))
  | .reload => some (.ack, some .reload)
  | .getServiceByPid pid =>
    some (.serviceByPid (t.workerForPid pid.toInt) pid, none)
  | _ => some (.error "unknown command", none)

-- ==== the connection

variable {E D I : Type} (rmp : RmpSerde E D)

/-- The other end of a connection: what the reads find, and why
`write_all` fails if it does. -/
structure Connection (I : Type) where
  incoming : Incoming I
  writeFails : Option I := none

/-- The errors of `handle_connection`. -/
inductive ConnectionError (E D I : Type)
  | receive (e : ReceiveError D I)
  | encode (e : EncodeError E)
  | write (e : I)

/-- What a connection comes to: the frames written to it, and the
result for the main loop. -/
structure Served (E D I : Type) where
  written : List (List UInt8)
  result : Except (ConnectionError E D I) (Option RequestedAction)

/-- The first half of `handle_connection`: the request, unless the
client closed the connection without sending anything. -/
def receiveRequest (incoming : Incoming I) : Except (ReceiveError D I) (Option Message) :=
  match receiveFrame rmp [] incoming with
  | .error (.closed 0) => .ok none
  | .error e => .error e
  | .ok buf =>
    match decode rmp buf with
    | .ok (msg, _) => .ok (some msg)
    | .error e => .error (.decode e)

/-- The response to the request with an id. -/
def response (id : UInt64) (body : MessageBody) : Message :=
  { id := id, kind := .response id, body := body }

/-- The second half of `handle_connection`. -/
def sendResponse (conn : Connection I) (id : UInt64)
    (answer : MessageBody × Option RequestedAction) : Served E D I :=
  match encode rmp (response id answer.1) with
  | .error e => { written := [], result := .error (.encode e) }
  | .ok data =>
    match conn.writeFails with
    | some e => { written := [], result := .error (.write e) }
    | none => { written := [data], result := .ok answer.2 }

def handleConnection (fuel : Nat) (conn : Connection I) : Option (Served E D I) :=
  match receiveRequest rmp conn.incoming with
  | .error e => some { written := [], result := .error (.receive e) }
  | .ok none => some { written := [], result := .ok none }
  | .ok (some msg) =>
    (handleRequest t workers fuel msg.body).map fun answer =>
      sendResponse rmp conn msg.id answer

end

end Dynamod.Svmgr
