/-
The devices of a seat (`dynamod-logind/src/device.rs`).

Which nodes under `/dev` go to the user in the foreground, and the
chown and chmod that hand them over. The nodes are the state; what
`read_dir` lists and whether the two calls succeed is answered by a
`Devfs`. The results of the calls are only logged by the source. A
hand-over is a list of `AclStep`s, run in order.

Opening a device for `TakeDevice` is here as well. The source first
passes the path to `open` without the terminating zero; what that call
finds is outside of the program, so its answer is one of the inputs.
-/
import Dynamod.Lib.Text
import Dynamod.Logind.State

namespace Dynamod.Logind

open Lib

-- ==== the nodes

/-- Owner, group and mode of a device node. -/
structure Node where
  owner : Nat
  group : Nat
  mode : Nat
  deriving DecidableEq

/-- The device nodes by path. -/
abbrev Nodes := HashMap String Node

/-- What the kernel answers: the names in the three directories, `none`
for an error, and whether chown and chmod of a path succeed. -/
structure Devfs where
  dri : Option (List String)
  input : Option (List String)
  snd : Option (List String)
  chown : String → Bool
  chmod : String → Bool

namespace Devfs

/-- The entries of a directory that are kept, with the mode they get. -/
def entries (dir : String) (names : Option (List String))
    (keep : String → Bool) : List (String × Nat) :=
  ((names.getD []).filter keep).map fun name => (dir ++ "/" ++ name, 0o660)

/-- `enumerate_session_devices`; the seat makes no difference. -/
def enumerateSessionDevices (fs : Devfs) (_seatId : SeatId) : List (String × Nat) :=
  entries "/dev/dri" fs.dri
      (fun name => startsWith name "card" || startsWith name "renderD")
    ++ entries "/dev/input" fs.input
      (fun name => startsWith name "event" || startsWith name "mouse"
        || name == "mice")
    ++ entries "/dev/snd" fs.snd (fun _ => true)

def chownAndChmod (fs : Devfs) (nodes : Nodes) (path : String)
    (uid gid : Option Nat) (mode : Nat) : Nodes :=
  if fs.chown path then
    let owned := nodes.modify path fun n =>
      { n with owner := uid.getD n.owner, group := gid.getD n.group }
    if fs.chmod path then owned.modify path fun n => { n with mode := mode }
    else owned
  else nodes

/-- The loop of `apply_session_acl` and `revert_session_acl`. -/
def giveTo (fs : Devfs) (nodes : Nodes) (seatId : SeatId) (uid : Nat) : Nodes :=
  (fs.enumerateSessionDevices seatId).foldl
    (fun nodes d => fs.chownAndChmod nodes d.1 (some uid) none d.2) nodes

def applySessionAcl (fs : Devfs) (nodes : Nodes) (seatId : SeatId) (uid : Nat) :
    Nodes :=
  fs.giveTo nodes seatId uid

def revertSessionAcl (fs : Devfs) (nodes : Nodes) (seatId : SeatId) : Nodes :=
  fs.giveTo nodes seatId 0

end Devfs

-- ==== the hand-over

/-- A call of `revert_session_acl` or `apply_session_acl`. -/
inductive AclStep
  | revert (seatId : SeatId)
  | apply (seatId : SeatId) (uid : Nat)
  deriving DecidableEq

namespace AclStep

/-- Who gets the devices. -/
def uid : AclStep → Nat
  | .revert _ => 0
  | .apply _ uid => uid

/-- The call. -/
def run (fs : Devfs) (nodes : Nodes) : AclStep → Nodes
  | .revert seatId => fs.revertSessionAcl nodes seatId
  | .apply seatId uid => fs.applySessionAcl nodes seatId uid

end AclStep

-- ==== opening a device

def drmMajor : Nat := 226

def isDrmDevice (major : Nat) : Bool := major == drmMajor

/-- What `open_device` finds: whether the link in `/dev/char` exists,
the lines of the uevent file, the descriptor the first `open` gave, and
what the second one gave. -/
structure OpenAnswers where
  linked : Bool
  uevent : Option (List String)
  unterminated : Option Nat
  opened : Except String Nat

def resolveDevname (uevent : Option (List String)) : Option String :=
  (uevent.getD []).findSome? fun line =>
    (stripFront line "DEVNAME=").map fun devname => "/dev/" ++ devname

def devicePath (major minor : Nat) (a : OpenAnswers) : String :=
  let path := s!"/dev/char/{major}:{minor}"
  if a.linked then path else (resolveDevname a.uevent).getD path

/-- `open_device`, with the text of `DeviceError::Open`. -/
def openDevice (major minor : Nat) (a : OpenAnswers) : Except String Nat :=
  match a.unterminated with
  | some fd => .ok fd
  | none =>
    match a.opened with
    | .ok fd => .ok fd
    | .error source =>
      let path := devicePath major minor a
      .error s!"failed to open device {path}: {source}"

end Dynamod.Logind
