/-
Service and supervisor definitions as `config/service.rs` and
`config/supervisor.rs` load them: the records the service manager reads
after TOML parsing, with the defaults serde fills in. The sections that
only the spawned child looks at (environment, user, working directory,
namespaces, cgroup limits) are left out.

Durations stay the strings the files hold; `parseDurationSecs` reads
them where the source does.
-/
import Mathlib.Algebra.Group.Nat.Defs
import Mathlib.Data.List.Basic

namespace Dynamod.Svmgr

-- ==== enumerations

inductive ServiceType
  | simple | oneshot | forking | notify
  deriving DecidableEq

inductive RestartPolicy
  | permanent | transient | temporary
  deriving DecidableEq

inductive ReadinessType
  | none | notify | tcpPort | exec | fd
  deriving DecidableEq

inductive RestartStrategy
  | oneForOne | oneForAll | restForOne
  deriving DecidableEq

-- ==== service definitions

structure ServiceSection where
  name : String
  supervisor : String := "root"
  exec : List String
  serviceType : ServiceType := .simple
  deriving DecidableEq

structure RestartSection where
  policy : RestartPolicy := .permanent
  delay : String := "1s"
  maxRestarts : Nat := 5
  maxRestartWindow : String := "60s"
  deriving DecidableEq

structure ReadinessSection where
  readinessType : ReadinessType := .none
  port : Option Nat := none
  checkExec : Option (List String) := none
  timeout : String := "30s"
  deriving DecidableEq

structure DependencySection where
  requires : List String := []
  wants : List String := []
  after : List String := []
  before : List String := []
  deriving DecidableEq

structure ShutdownSection where
  stopSignal : String := "SIGTERM"
  stopTimeout : String := "10s"
  stopExec : Option (List String) := none
  deriving DecidableEq

/-- A parsed service definition. -/
structure ServiceDef where
  service : ServiceSection
  restart : RestartSection := {}
  readiness : ReadinessSection := {}
  dependencies : DependencySection := {}
  shutdown : ShutdownSection := {}
  deriving DecidableEq

-- ==== supervisor definitions

structure SupervisorSection where
  name : String
  parent : Option String := none
  strategy : RestartStrategy := .oneForOne
  deriving DecidableEq

structure SupervisorRestartSection where
  maxRestarts : Nat := 10
  maxRestartWindow : String := "300s"
  deriving DecidableEq

/-- A parsed supervisor definition. -/
structure SupervisorDef where
  supervisor : SupervisorSection
  restart : SupervisorRestartSection := {}
  deriving DecidableEq

-- ==== durations

/-- `char::is_whitespace`: the Unicode `White_Space` property. -/
def isWhitespace (c : Char) : Bool :=
  let n := c.toNat
  (9 ≤ n && n ≤ 13) || n == 0x20 || n == 0x85 || n == 0xA0 || n == 0x1680
    || (0x2000 ≤ n && n ≤ 0x200A) || n == 0x2028 || n == 0x2029
    || n == 0x202F || n == 0x205F || n == 0x3000

def trim (cs : List Char) : List Char :=
  ((cs.dropWhile isWhitespace).reverse.dropWhile isWhitespace).reverse

/-- `str::strip_suffix` for a one-character suffix. -/
def stripSuffix (cs : List Char) (c : Char) : Option (List Char) :=
  if cs.getLast? = some c then some cs.dropLast else none

/-- `str::parse::<u64>`: an optional `+`, then one or more ASCII
digits whose value fits 64 bits. -/
def parseU64 (cs : List Char) : Option Nat :=
  let digits := match cs with
    | '+' :: rest => rest
    | _ => cs
  if digits = [] then none
  else if digits.all Char.isDigit then
    let n := digits.foldl (fun n c => 10 * n + (c.toNat - '0'.toNat)) 0
    if n < 2 ^ 64 then some n else none
  else none

/-- `parse_duration_secs`: "30s", "5m", "1h" or a bare number, in
seconds. The multiplications wrap at 64 bits, as release builds do. -/
def parseDurationSecs (s : String) : Option Nat :=
  let cs := trim s.toList
  match stripSuffix cs 's' with
  | some n => parseU64 n
  | none =>
    match stripSuffix cs 'm' with
    | some n => (parseU64 n).map (fun n => n * 60 % 2 ^ 64)
    | none =>
      match stripSuffix cs 'h' with
      | some n => (parseU64 n).map (fun n => n * 3600 % 2 ^ 64)
      | none => parseU64 cs

example : parseDurationSecs "30s" = some 30 := by decide

end Dynamod.Svmgr
