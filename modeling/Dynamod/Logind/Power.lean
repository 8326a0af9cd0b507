/-
Inhibitors, the power methods and the buttons
(`dynamod-logind/src/{inhibitor,power,acpi}.rs`, and the methods of
`manager.rs` that use them).

# The tasks

A power method runs as a task of its own; the handler of the buttons is
one task that takes the next event when it is done with the last one.
Between two awaits on the state lock a task is a step of the machine,
so that calls of `Inhibit`, releases and other requests come in between.

# The pipes

An inhibitor is the read end of a pipe whose write end the client has.
`is_released` polls it: it is readable when the client closed its end,
and also when the client wrote to it. Both are events of the client.

# Ghosts

`granted` has every inhibitor ever handed out, and a task carries the
ones that were against its action when the request was accepted. No
function of the source reads them.

# The configuration and the input devices

The time values of `logind.conf` (`config.rs`) are read with the functions
on texts of the service manager's own durations. The devices that are
listened to are chosen by the bitmaps of what they can report, from sysfs;
a file is what `read_to_string` makes of it, or nothing.

Times are in milliseconds.
-/
import Mathlib.Data.List.Basic
import Dynamod.Common.Protocol
import Dynamod.Lib.Hex
import Dynamod.Lib.Text
import Dynamod.Svmgr.Config
import Dynamod.Svmgr.Intensity

namespace Dynamod.Logind

-- ==== configuration

section Durations

open Lib (stripEnd)
open Svmgr (Duration fromSecs trim stripSuffix parseU64)

/-- `parse_duration_sec`: a bare number of seconds, or a number with the
unit `min`, `h` or `s`. The multiplications wrap at 64 bits, as release
builds do. -/
def parseDurationSec (s : String) : Option Duration :=
  let cs := trim s.toList
  match parseU64 cs with
  | some n => some (fromSecs n)
  | none =>
    match stripEnd cs "min".toList with
    | some num =>
      (parseU64 (trim num)).map fun n => fromSecs (n * 60 % 2 ^ 64)
    | none =>
      match stripSuffix cs 'h' with
      | some num =>
        (parseU64 (trim num)).map fun n => fromSecs (n * 3600 % 2 ^ 64)
      | none =>
        match stripSuffix cs 's' with
        | some num => (parseU64 (trim num)).map fromSecs
        | none => none

example : parseDurationSec "2min" = some (fromSecs 120) := by decide

end Durations

inductive HandleAction
  | ignore
  | poweroff
  | reboot
  | halt
  | suspend
  | hibernate
  | hybridSleep
  | lock
  deriving DecidableEq

def HandleAction.inhibitWhat : HandleAction → String
  | .poweroff | .reboot | .halt => "shutdown"
  | .suspend | .hybridSleep => "sleep"
  | .hibernate => "sleep"
  | .lock | .ignore => ""

/-- The fields of `Config` that are read here. -/
structure PowerConfig where
  handlePowerKey : HandleAction := .poweroff
  handleSuspendKey : HandleAction := .suspend
  handleLidSwitch : HandleAction := .suspend
  handleLidSwitchExternalPower : HandleAction := .suspend
  handleLidSwitchDocked : HandleAction := .ignore
  inhibitDelayMax : Nat := 5000
  holdoffTimeout : Nat := 30000

-- ==== inhibitors

/-- The pipe of an inhibitor, as far as the read end can tell. -/
structure Pipe where
  written : Bool := false
  closed : Bool := false
  deriving DecidableEq

/-- `Inhibitor`; `pipeRead` is the number of its pipe. -/
structure Inhibitor where
  what : String
  who : String
  why : String
  mode : String
  uid : Nat
  pid : Nat
  cookie : Nat
  pipeRead : Nat
  deriving DecidableEq

/-- `i.what.split(':').any(|w| w == what)`. -/
def Inhibitor.lists (i : Inhibitor) (what : String) : Bool :=
  (i.what.toList.splitOn ':').contains what.toList

/-- The arguments of `Inhibit`, and the credentials of its caller. -/
structure InhibitCall where
  what : String
  who : String
  why : String
  mode : String
  uid : Nat
  pid : Nat

-- ==== power actions

inductive SleepKind
  | suspend
  | hibernate
  | hybridSleep
  deriving DecidableEq

def SleepKind.sysfsState : SleepKind → String
  | .suspend => "mem"
  | .hibernate => "disk"
  | .hybridSleep => "disk"

inductive ShutdownKind
  | poweroff
  | reboot
  | halt
  deriving DecidableEq

def ShutdownKind.into : ShutdownKind → Common.ShutdownKind
  | .poweroff => .poweroff
  | .reboot => .reboot
  | .halt => .halt

/-- A call of `execute_sleep` or `execute_shutdown`. -/
inductive PowerAction
  | sleep (kind : SleepKind)
  | shutdown (kind : ShutdownKind)
  deriving DecidableEq

/-- What the two functions wait for. -/
def PowerAction.what : PowerAction → String
  | .sleep _ => "sleep"
  | .shutdown _ => "shutdown"

/-- The match of `run_action`. -/
def HandleAction.powerAction : HandleAction → Option PowerAction
  | .ignore | .lock => none
  | .suspend => some (.sleep .suspend)
  | .hibernate => some (.sleep .hibernate)
  | .hybridSleep => some (.sleep .hybridSleep)
  | .poweroff => some (.shutdown .poweroff)
  | .reboot => some (.shutdown .reboot)
  | .halt => some (.shutdown .halt)

/-- The power methods of the manager. -/
inductive PowerMethod
  | powerOff
  | reboot
  | halt
  | suspend
  | hibernate
  | hybridSleep

/-- `run_shutdown` and `run_sleep`; `interactive` is not used. -/
def PowerMethod.action : PowerMethod → PowerAction
  | .powerOff => .shutdown .poweroff
  | .reboot => .shutdown .reboot
  | .halt => .shutdown .halt
  | .suspend => .sleep .suspend
  | .hibernate => .sleep .hibernate
  | .hybridSleep => .sleep .hybridSleep

/-- What a power action does to the world outside. -/
inductive PowerEffect
  | prepareForSleep (active : Bool)
  | prepareForShutdown (active : Bool)
  /-- The write to `/sys/power/state`. -/
  | writePowerState (text : String)
  /-- `svmgr_client::request_shutdown`. -/
  | requestShutdown (kind : Common.ShutdownKind)
  deriving DecidableEq

namespace PowerAction

/-- The signal before the wait. -/
def prepare : PowerAction → PowerEffect
  | .sleep _ => .prepareForSleep true
  | .shutdown _ => .prepareForShutdown true

/-- What is done after the wait: the action, and for sleep the signal
that it is over, whatever the write answered. -/
def effects : PowerAction → List PowerEffect
  | .sleep kind => [.writePowerState kind.sysfsState, .prepareForSleep false]
  | .shutdown kind => [.requestShutdown kind.into]

end PowerAction

inductive AcpiEvent
  | powerButton
  | sleepButton
  | lidClosed
  | lidOpened
  deriving DecidableEq

def isDocked : Bool := false

/-- `on_external_power`, for the trimmed text of the file. -/
def onExternalPower (online : Option String) : Bool :=
  (online.map fun text => text == "1").getD true

/-- The match of `dispatch_loop`: the action, and whether to debounce. -/
def PowerConfig.handle (cfg : PowerConfig) (online : Option String) :
    AcpiEvent → Option (HandleAction × Bool)
  | .powerButton => some (cfg.handlePowerKey, false)
  | .sleepButton => some (cfg.handleSuspendKey, false)
  | .lidClosed =>
    some (if cfg.handleLidSwitchDocked ≠ .ignore ∧ isDocked then
        cfg.handleLidSwitchDocked
      else if onExternalPower online then cfg.handleLidSwitchExternalPower
      else cfg.handleLidSwitch, true)
  | .lidOpened => none

namespace Power

-- ==== the machine

/-- How far a task is. -/
inductive Stage
  /-- At the check of `run_action`. -/
  | checking (action : HandleAction)
  /-- At the start of `execute_sleep` or `execute_shutdown`. -/
  | starting (action : PowerAction) (against : List Inhibitor)
  /-- In the loop of `wait_for_delay_inhibitors`. -/
  | waiting (action : PowerAction) (against : List Inhibitor) (deadline : Nat)
  /-- Before the action itself. -/
  | issuing (action : PowerAction) (against : List Inhibitor)
  | finished (result : Except String Unit)

/-- A task, and whether it is the handler's. -/
structure Task where
  handler : Bool
  stage : Stage

/-- An effect, and the inhibitors that were against the action of its
task when that was accepted. -/
structure Entry where
  effect : PowerEffect
  against : List Inhibitor
  deriving DecidableEq

/-- The daemon, the pipes and what was done. -/
structure World where
  config : PowerConfig
  inhibitors : List Inhibitor
  nextInhibitorCookie : Nat
  pipes : List Pipe
  queue : List AcpiEvent
  lastLidEvent : Int
  tasks : List Task
  log : List Entry
  granted : List Inhibitor

/-- What happens next. -/
inductive Event
  /-- `Inhibit`, with the error of `pipe2` if it fails. -/
  | inhibit (call : InhibitCall) (failure : Option String)
  /-- The client closes its end, or writes to it. -/
  | close (pipe : Nat)
  | write (pipe : Nat)
  /-- `ListInhibitors`, or the task that collects every five seconds. -/
  | collect
  /-- SIGHUP. -/
  | reload (config : PowerConfig)
  /-- A power method of the manager. -/
  | request (method : PowerMethod)
  /-- A reader sends an event to the handler. -/
  | press (event : AcpiEvent)
  /-- The handler takes the next event. -/
  | dispatch (online : Option String) (now : Nat)
  /-- A task goes on, with what its action answers. -/
  | run (i : Nat) (now : Nat) (result : Except String Unit)

namespace World

/-- The pipe of a number. -/
def pipe (w : World) (p : Nat) : Pipe := (w.pipes[p]?).getD {}

def isReleased (w : World) (i : Inhibitor) : Bool :=
  (w.pipe i.pipeRead).written || (w.pipe i.pipeRead).closed

/-- `inhibitors.retain(|i| !i.is_released())`. -/
def retain (w : World) : World :=
  { w with inhibitors := w.inhibitors.filter fun i => !w.isReleased i }

/-- The check of `has_block_inhibitor` and of the wait, after `retain`. -/
def hasInhibitor (w : World) (mode what : String) : Bool :=
  w.retain.inhibitors.any fun i => i.mode == mode && i.lists what

/-- The block inhibitors for an action that their clients still hold. -/
def blockers (w : World) (what : String) : List Inhibitor :=
  w.granted.filter fun i =>
    !(w.pipe i.pipeRead).closed && (i.mode == "block" && i.lists what)

/-- The daemon before its first event; the lid was last used an hour
ago. -/
def start (config : PowerConfig) (now : Nat) : World :=
  { config := config, inhibitors := [], nextInhibitorCookie := 1, pipes := []
    queue := [], lastLidEvent := (now : Int) - 3600000, tasks := [], log := []
    granted := [] }

def stage (w : World) (i : Nat) : Stage :=
  ((w.tasks[i]?).map Task.stage).getD (.finished (.ok ()))

/-- A task moves to a stage. -/
def goto (w : World) (i : Nat) (stage : Stage) : World :=
  { w with tasks := w.tasks.modify i fun t => { t with stage := stage } }

/-- A new task. -/
def spawn (w : World) (task : Task) : World :=
  { w with tasks := w.tasks ++ [task] }

/-- Effects of a task. -/
def record (w : World) (against : List Inhibitor) (effects : List PowerEffect) :
    World :=
  { w with log := w.log ++ effects.map fun effect => { effect, against } }

/-- `inhibit` and `create_inhibitor`. The cookie is drawn first. -/
def inhibit (w : World) (call : InhibitCall) (failure : Option String) : World :=
  let cookie := w.nextInhibitorCookie
  let drawn := { w with nextInhibitorCookie := (cookie + 1) % 2 ^ 64 }
  match failure with
  | some _ => drawn
  | none =>
    let i : Inhibitor :=
      { what := call.what, who := call.who, why := call.why, mode := call.mode
        uid := call.uid, pid := call.pid, cookie := cookie
        pipeRead := w.pipes.length }
    { drawn with
      inhibitors := w.inhibitors ++ [i]
      pipes := w.pipes ++ [{}]
      granted := w.granted ++ [i] }

/-- A request of the manager is accepted as it comes. -/
def request (w : World) (method : PowerMethod) : World :=
  w.spawn
    { handler := false
      stage := .starting method.action (w.blockers method.action.what) }

/-- The channel holds sixteen events; a reader waits while it is full. -/
def press (w : World) (event : AcpiEvent) : World :=
  if w.queue.length < 16 then { w with queue := w.queue ++ [event] } else w

/-- The handler is back in its loop. -/
def idle (w : World) : Bool :=
  w.tasks.all fun t =>
    !t.handler || match t.stage with
      | .finished _ => true
      | _ => false

/-- A round of `dispatch_loop` up to `run_action`. -/
def dispatch (w : World) (online : Option String) (now : Nat) : World :=
  if w.idle then
    match w.queue with
    | [] => w
    | event :: queue =>
      let taken := { w with queue := queue }
      match w.config.handle online event with
      | none => taken
      | some (action, false) =>
        taken.spawn { handler := true, stage := .checking action }
      | some (action, true) =>
        if ((now : Int) - w.lastLidEvent).toNat < w.config.holdoffTimeout then taken
        else
          { taken with lastLidEvent := now }.spawn
            { handler := true, stage := .checking action }
  else w

/-- The match of `run_action`: the action is accepted. -/
def accept (w : World) (i : Nat) (action : HandleAction) : World :=
  match action.powerAction with
  | none => w.goto i (.finished (.ok ()))
  | some a => w.goto i (.starting a (w.blockers a.what))

/-- `run_action` up to the call of `execute_sleep` or
`execute_shutdown`. -/
def check (w : World) (i : Nat) (action : HandleAction) : World :=
  let what := action.inhibitWhat
  if what = "" then w.accept i action
  else if w.hasInhibitor "block" what then w.retain.goto i (.finished (.ok ()))
  else w.retain.accept i action

/-- A task goes on to its next await. -/
def run (w : World) (i : Nat) (now : Nat) (result : Except String Unit) : World :=
  match w.stage i with
  | .checking action => w.check i action
  | .starting action against =>
    (w.record against [action.prepare]).goto i
      (.waiting action against (now + w.config.inhibitDelayMax))
  | .waiting action against deadline =>
    if w.hasInhibitor "delay" action.what ∧ now < deadline then w.retain
    else w.retain.goto i (.issuing action against)
  | .issuing action against =>
    (w.record against action.effects).goto i (.finished result)
  | .finished _ => w

def step (w : World) : Event → World
  | .inhibit call failure => w.inhibit call failure
  | .close p => { w with pipes := w.pipes.modify p fun q => { q with closed := true } }
  | .write p => { w with pipes := w.pipes.modify p fun q => { q with written := true } }
  | .collect => w.retain
  | .reload config => { w with config := config }
  | .request method => w.request method
  | .press event => w.press event
  | .dispatch online now => w.dispatch online now
  | .run i now result => w.run i now result

end World

end Power

-- ==== the input devices

namespace Acpi

open Lib

def keyPower : UInt16 := 116
def keySleep : UInt16 := 142
def swLid : UInt16 := 0x00

def capabilityHasBit (file : Option String) (bit : UInt16) : Bool :=
  match file with
  | none => false
  | some content =>
    let words :=
      (splitAsciiWhitespace content.toList).reverse.filterMap (fromStrRadix16 64)
    let word := bit.toNat / 64
    let off := bit.toNat % 64
    match words[word]? with
    | none => false
    | some w => (w >>> off) &&& 1 == 1

/-- An entry of `/sys/class/input` that can be read, with the files
`device/capabilities/key` and `device/capabilities/sw`. -/
structure InputEntry where
  name : String
  key : Option String
  sw : Option String

/-- The device file of an entry that is to be listened to. -/
def scanEntry (entry : InputEntry) : Option String :=
  if !startsWith entry.name "event" then none
  else
    let supportsPwrSleep :=
      capabilityHasBit entry.key keyPower || capabilityHasBit entry.key keySleep
    let supportsLid := capabilityHasBit entry.sw swLid
    if supportsPwrSleep || supportsLid then some ("/dev/input/" ++ entry.name) else none

def scanDevices (entries : Option (List InputEntry)) : List String :=
  (entries.getD []).filterMap scanEntry

end Acpi

end Dynamod.Logind
