/-
The child of init (`zig/src/child.zig`): what init keeps about the
service manager it runs, and what spawning one and losing one do to it.

What the kernel answers is an argument of each operation: how far
`spawn` gets, and the wall clock in milliseconds, read where the source
reads it. The clock is an `Int`; the difference of two readings is
taken to fit an `i64`.
-/
import Dynamod.Init.Ipc

namespace Dynamod.Init

abbrev Pid := Nat
abbrev Fd := Nat

-- ==== constants

def svmgrRestartInitialMs : Nat := 500

def svmgrRestartMaxMs : Nat := 30000

def svmgrRapidFailureUptimeMs : Int := 30000

def svmgrRapidFailureThreshold : Nat := 5

def svmgrPostEmergencyGraceMs : Int := 60000

-- ==== the child

/-- The fields of `child.zig`, but for the path of the binary. -/
structure Child where
  pid : Option Pid
  pidfd : Option Fd
  initSockFd : Option Fd
  backoffMs : Nat
  spawnTimeMs : Int
  rapidFailureCount : Nat
  intentionalStop : Bool
  deriving DecidableEq

/-- How far a `spawn` gets: the answers to `socketpair`, `fork` and
`pidfd_open`, and the clock at its end. -/
inductive SpawnAnswer
  | socketpairFailed
  | forkFailed
  | forked (pid : Pid) (initFd : Fd) (pidfd : Option Fd) (now : Int)
  deriving DecidableEq

inductive SpawnError
  | socketpairFailed
  | forkFailed
  deriving DecidableEq

namespace Child

def create : Child where
  pid := none
  pidfd := none
  initSockFd := none
  backoffMs := svmgrRestartInitialMs
  spawnTimeMs := 0
  rapidFailureCount := 0
  intentionalStop := false

/-- `spawn`, in the parent. The pidfd is only assigned where
`pidfd_open` succeeds. -/
def spawn (c : Child) : SpawnAnswer → Except SpawnError Child
  | .socketpairFailed => .error .socketpairFailed
  | .forkFailed => .error .forkFailed
  | .forked pid initFd pidfd now =>
    .ok { c with
      pid := some pid
      initSockFd := some initFd
      pidfd := pidfd.or c.pidfd
      backoffMs := svmgrRestartInitialMs
      spawnTimeMs := now }

/-- The counter of rapid failures at an exit. A spawn time of 0 stands
for no spawn at all. -/
def countExit (c : Child) (now : Int) : Child :=
  if c.intentionalStop then { c with intentionalStop := false }
  else if c.spawnTimeMs ≠ 0 then
    if now - c.spawnTimeMs < svmgrRapidFailureUptimeMs then
      { c with rapidFailureCount := c.rapidFailureCount + 1 }
    else { c with rapidFailureCount := 0 }
  else c

/-- `onExit`: the delay before the next restart, and the record without
its process and its descriptors. -/
def onExit (c : Child) (now : Int) : Nat × Child :=
  (c.backoffMs,
    { c.countExit now with
      backoffMs := min (c.backoffMs * 2) svmgrRestartMaxMs
      pid := none
      pidfd := none
      initSockFd := none })

def isInCrashLoop (c : Child) : Bool :=
  c.rapidFailureCount ≥ svmgrRapidFailureThreshold

def resetFailureCounter (c : Child) : Child :=
  { c with rapidFailureCount := 0, backoffMs := svmgrRestartInitialMs }

def markStopping (c : Child) : Child := { c with intentionalStop := true }

end Child

end Dynamod.Init
