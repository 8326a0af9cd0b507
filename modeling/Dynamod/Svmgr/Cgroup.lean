/-
Cgroups of services: where they are (`cgroup/hierarchy.rs`) and how
sizes are written into them (`cgroup/limits.rs`).

A service's cgroup is the hierarchy's root joined with the service's
name, and every function of the hierarchy works on that path. Paths are
texts here, as in the source; what the file system makes of one is in
`Lib.Paths`.
-/
import Dynamod.Lib.Paths
import Dynamod.Svmgr.Config

namespace Dynamod.Svmgr

open Lib (isAbsolute join resolve)

-- ==== sizes

/-- One branch of `parse_bytes`: the number before an upper or lower case
suffix, times its unit. -/
def bytesWith (cs : List Char) (upper lower : Char) (unit : Nat) : Option Nat :=
  ((stripSuffix cs upper).or (stripSuffix cs lower)).bind fun n =>
    (parseU64 (trim n)).map fun v => v * unit % 2 ^ 64

/-- `parse_bytes`: the text for the control file. The multiplications
wrap at 64 bits, as release builds do; what has no suffix, or no number
before it, is passed through. -/
def parseBytes (s : String) : String :=
  let cs := trim s.toList
  match bytesWith cs 'K' 'k' 1024 with
  | some v => toString v
  | none =>
    match bytesWith cs 'M' 'm' (1024 * 1024) with
    | some v => toString v
    | none =>
      match bytesWith cs 'G' 'g' (1024 * 1024 * 1024) with
      | some v => toString v
      | none => String.ofList cs

-- ==== paths

/-- `CgroupHierarchy`, with an absolute root. -/
structure CgroupHierarchy where
  root : String
  absolute : isAbsolute root = true

namespace CgroupHierarchy

/-- `init`: the root is `CGROUP_ROOT`. -/
def init : CgroupHierarchy := ⟨"/sys/fs/cgroup/dynamod", by decide⟩

/-- `service_path`, which `create_service_cgroup`, `add_process` and
`remove_service_cgroup` compute as well: the last removes everything
below it. -/
def servicePath (h : CgroupHierarchy) (serviceName : String) : String :=
  join h.root serviceName

end CgroupHierarchy

example : parseBytes " 512M" = "536870912" := by decide
example : resolve (CgroupHierarchy.init.servicePath "web")
    = ["sys", "fs", "cgroup", "dynamod", "web"].map String.toList := by decide

end Dynamod.Svmgr
