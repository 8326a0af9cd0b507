/-
The event loop of init (`zig/src/event_loop.zig`), from the boot in
`main.zig` to `shutdown.execute`.

# Answers

Everything the kernel decides comes with the event that makes init ask:
the clock, how far a spawn gets, whether `epoll_ctl` adds a descriptor,
whether `kill(pid, 0)` finds the process, what `read` returns. A handler
uses an answer only where the source makes the call.

# The log

`log` is no field of the source: it records what init did, in order,
for statements about whole runs. The texts init prints about itself are
left out; the texts of svmgr that it prints are in the log.

# Machine

`run` never returns: it ends in `shutdown.execute`, which is the field
`executed` of `Machine`. A batch of events is handled to its end before
`run` looks at `shutdown_requested`.
-/
import Dynamod.Init.Child

namespace Dynamod.Init

open Lib

-- ==== answers

/-- The answers to a spawn and to the registration behind it. -/
structure RespawnAnswers where
  spawn : SpawnAnswer
  addPidfd : Bool
  addSock : Bool
  deriving DecidableEq

/-- The answers to the handling of an exit: the clock in `onExit`, the
clock at the check of the grace window, and a respawn. -/
structure ExitAnswers where
  exitNow : Int
  graceNow : Int
  respawn : RespawnAnswers
  deriving DecidableEq

/-- `SignalEvent`. For `childExited`, whether `kill(pid, 0)` answers
`ESRCH`, once all zombies are reaped. -/
inductive SignalEvent
  | childExited (gone : Bool) (a : ExitAnswers)
  | shutdownTerm
  | shutdownInt
  | user1
  | user2 (r : RespawnAnswers)
  | unknown
  deriving DecidableEq

inductive EventSource
  | signalFd
  | svmgrPidfd
  | initSock
  deriving DecidableEq

/-- A ready event with the answers to its handling: the signals read
until there is none, the exit, or one `read` of the socket. -/
inductive Event
  | signalFd (signals : List SignalEvent)
  | svmgrPidfd (a : ExitAnswers)
  | initSock (answer : ReadAnswer)

-- ==== state

/-- The level at which init prints a text of svmgr. -/
inductive KmsgLevel
  | err
  | warn
  | info
  deriving DecidableEq

/-- What init did. -/
inductive Note
  | spawned (pid : Pid) (now : Int)
  | exited (now : Int)
  | user2
  | terminated (pid : Pid)
  | shell
  | slept (ms : Nat)
  | shutdownSignal (sock : Fd) (name : String)
  | heartbeatAck (sock : Fd)
  | svmgrRequested (kind : ShutdownKind)
  | kmsg (level : KmsgLevel) (text : List UInt8)
  deriving DecidableEq

structure EventLoop where
  svmgr : Child
  shutdownRequested : Option ShutdownKind
  ipcBuf : ReadBuffer
  postEmergencyArmed : Bool
  pendingEmergency : Bool
  registered : List (Fd × EventSource)
  log : List Note

namespace EventLoop

def note (l : EventLoop) (n : Note) : EventLoop := { l with log := l.log ++ [n] }

/-- `addFd`, where `epoll_ctl` answers success. -/
def addFd (l : EventLoop) (fd : Fd) (source : EventSource) : EventLoop :=
  { l with registered := l.registered ++ [(fd, source)] }

def removeFd (l : EventLoop) (fd : Fd) : EventLoop :=
  { l with registered := l.registered.filter (·.1 ≠ fd) }

/-- `init`, where `epoll_create1` and the registration of the signalfd
succeed. -/
def init (undef : Mem) (sigFd : Fd) (svmgr : Child) : EventLoop where
  svmgr := svmgr
  shutdownRequested := none
  ipcBuf := .new undef
  postEmergencyArmed := false
  pendingEmergency := false
  registered := [(sigFd, .signalFd)]
  log := []

/-- The second half of `registerSvmgr`. -/
def registerSock (l : EventLoop) (r : RespawnAnswers) : EventLoop :=
  match l.svmgr.initSockFd with
  | some sock => if r.addSock then l.addFd sock .initSock else l
  | none => l

/-- `registerSvmgr`. The first failure ends it; every caller only prints
the error. -/
def registerSvmgr (l : EventLoop) (r : RespawnAnswers) : EventLoop :=
  match l.svmgr.pidfd with
  | some pidfd =>
    if r.addPidfd then (l.addFd pidfd .svmgrPidfd).registerSock r else l
  | none => l.registerSock r

/-- `removeFd` on an optional descriptor. -/
def removeFd? (l : EventLoop) : Option Fd → EventLoop
  | some fd => l.removeFd fd
  | none => l

def unregisterSvmgr (l : EventLoop) : EventLoop :=
  (l.removeFd? l.svmgr.pidfd).removeFd? l.svmgr.initSockFd

/-- `svmgr.spawn` with its trace in the log. -/
def spawn (l : EventLoop) (answer : SpawnAnswer) : Except SpawnError EventLoop :=
  match l.svmgr.spawn answer with
  | .error e => .error e
  | .ok c => .ok { l with
      svmgr := c
      log := l.log ++ (match answer with
        | .forked pid _ _ now => [.spawned pid now]
        | _ => []) }

-- ==== exits of svmgr

/-- `enterEmergencyMode`. What `runShell` answers is ignored. -/
def enterEmergencyMode (l : EventLoop) (r : RespawnAnswers) : EventLoop :=
  let l := l.note .shell
  let l := { l with
    svmgr := l.svmgr.resetFailureCounter
    postEmergencyArmed := true }
  match l.spawn r.spawn with
  | .error _ => { l with shutdownRequested := some .reboot }
  | .ok l => l.registerSvmgr r

def enterEmergencyBoot (l : EventLoop) (r : RespawnAnswers) : EventLoop :=
  l.enterEmergencyMode r

/-- The restart at the end of `handleSvmgrExit`. -/
def restart (l : EventLoop) (delayMs : Nat) (r : RespawnAnswers) : EventLoop :=
  let l := l.note (.slept delayMs)
  match l.spawn r.spawn with
  | .error _ => l
  | .ok l => l.registerSvmgr r

/-- The crash loop check and the restart. -/
def restartOrEmergency (l : EventLoop) (delayMs : Nat) (r : RespawnAnswers) :
    EventLoop :=
  if l.svmgr.isInCrashLoop then l.enterEmergencyMode r else l.restart delayMs r

/-- The part of `handleSvmgrExit` before any decision: the descriptors
leave the epoll set, `onExit`, the buffer is emptied. -/
def tearDown (l : EventLoop) (now : Int) : Nat × EventLoop :=
  let l := l.unregisterSvmgr.note (.exited now)
  let (delayMs, c) := l.svmgr.onExit now
  (delayMs, { l with svmgr := c, ipcBuf := l.ipcBuf.clear })

def handleSvmgrExit (l : EventLoop) (a : ExitAnswers) : EventLoop :=
  let (delayMs, l) := l.tearDown a.exitNow
  if l.pendingEmergency then
    { l with pendingEmergency := false }.enterEmergencyMode a.respawn
  else if l.postEmergencyArmed then
    if a.graceNow - l.svmgr.spawnTimeMs < svmgrPostEmergencyGraceMs then
      { l with shutdownRequested := some .reboot }
    else
      { l with postEmergencyArmed := false }.restartOrEmergency delayMs a.respawn
  else l.restartOrEmergency delayMs a.respawn

-- ==== signals

/-- `sendShutdownSignal` to svmgr, if its socket is there. -/
def notify (l : EventLoop) (name : String) : EventLoop :=
  match l.svmgr.initSockFd with
  | some sock => l.note (.shutdownSignal sock name)
  | none => l

/-- `SIGUSR2` while svmgr runs: it is asked to terminate, and the shell
waits for its exit. -/
def stopForEmergency (l : EventLoop) (pid : Pid) : EventLoop :=
  { l with
    svmgr := l.svmgr.markStopping
    pendingEmergency := true }.note (.terminated pid)

/-- One round of the loop of `handleSignals`. -/
def handleSignal (l : EventLoop) : SignalEvent → EventLoop
  | .childExited gone a =>
    match l.svmgr.pidfd, l.svmgr.pid with
    | none, some _ => if gone then l.handleSvmgrExit a else l
    | _, _ => l
  | .shutdownTerm => { l.notify "SIGTERM" with shutdownRequested := some .poweroff }
  | .shutdownInt => { l.notify "SIGINT" with shutdownRequested := some .poweroff }
  | .user1 => { l.notify "SIGUSR1" with shutdownRequested := some .reboot }
  | .user2 r =>
    let l := l.note .user2
    match l.svmgr.pid with
    | some pid => l.stopForEmergency pid
    | none => l.enterEmergencyMode r
  | .unknown => l

def handleSignals (l : EventLoop) (signals : List SignalEvent) : EventLoop :=
  signals.foldl handleSignal l

-- ==== messages

/-- The switch on the level of a text. -/
def kmsgLevel (level : UInt8) : KmsgLevel :=
  if level ≤ 3 then .err else if level = 4 then .warn else .info

/-- The switch of `handleSvmgrMessage`. -/
def handleMessage (l : EventLoop) (mem : Mem) : InitMessage → EventLoop
  | .heartbeat =>
    match l.svmgr.initSockFd with
    | some fd => l.note (.heartbeatAck fd)
    | none => l
  | .requestShutdown kind =>
    { l with shutdownRequested := some kind }.note (.svmgrRequested kind)
  | .logToKmsg level message => l.note (.kmsg (kmsgLevel level) (message.bytes mem))
  | .unknown => l

def handleSvmgrMessage (l : EventLoop) (answer : ReadAnswer) : Checked EventLoop :=
  match l.svmgr.initSockFd with
  | none => .ok l
  | some _ => do
      let (l', b) ← l.ipcBuf.receive handleMessage l answer
      return { l' with ipcBuf := b }

/-- The switch of `run`. -/
def handle (l : EventLoop) : Event → Checked EventLoop
  | .signalFd signals => .ok (l.handleSignals signals)
  | .svmgrPidfd a => .ok (l.handleSvmgrExit a)
  | .initSock answer => l.handleSvmgrMessage answer

end EventLoop

-- ==== machine

/-- The loop together with what `run` keeps: the failed waits in a row,
and the shutdown it ended in. -/
structure Machine where
  loop : EventLoop
  consecutiveErrors : Nat
  executed : Option ShutdownKind

/-- What `epoll_pwait` answers. -/
inductive WaitAnswer
  | interrupted
  | failed
  | ready (events : List Event)

namespace Machine

/-- The end of a round of `run`: a requested shutdown is executed. -/
def executeRequested (m : Machine) : Machine :=
  { m with executed := m.loop.shutdownRequested }

/-- The events of a batch, and the end of the round. -/
def handleBatch (m : Machine) (events : List Event) : Checked Machine := do
  let l ← events.foldlM EventLoop.handle m.loop
  return { m with loop := l, consecutiveErrors := 0 }.executeRequested

/-- A round of `run`. -/
def iterate (m : Machine) : WaitAnswer → Checked Machine
  | .interrupted => .ok m
  | .failed =>
    let m := { m with consecutiveErrors := m.consecutiveErrors + 1 }
    if m.consecutiveErrors ≥ 100 then .ok { m with executed := some .poweroff }
    else .ok m
  | .ready events => m.handleBatch events

/-- `run`, as far as the answers go. -/
def run (m : Machine) : List WaitAnswer → Checked Machine
  | [] => .ok m
  | w :: ws =>
    match m.executed with
    | some _ => .ok m
    | none => do
        let m ← m.iterate w
        m.run ws

end Machine

-- ==== boot

/-- The answers during the boot: the kernel command line, the creation
of the loop, a spawn and its registration. -/
structure BootAnswers where
  emergency : Bool
  initLoop : Bool
  respawn : RespawnAnswers

/-- The end of `main`, up to the call of `run`; `none` where it executes
a halt instead. -/
def boot (undef : Mem) (sigFd : Fd) (a : BootAnswers) : Option EventLoop :=
  if a.emergency then
    if a.initLoop then
      some ((EventLoop.init undef sigFd .create).enterEmergencyBoot a.respawn)
    else none
  else
    -- The child is spawned before the loop exists; the order of the two
    -- makes no difference to the state.
    match (EventLoop.init undef sigFd .create).spawn a.respawn.spawn with
    | .error _ => none
    | .ok l => if a.initLoop then some (l.registerSvmgr a.respawn) else none

end Dynamod.Init
