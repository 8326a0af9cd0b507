/-
The monitor of cgroup events (`cgroup/monitor.rs`).

What a read of a control file returns is an argument of the call that
makes it: `CgroupFiles` are the files of one cgroup, with `none` for a
read that fails. The monitor walks over the watched services in any
order.
-/
import Dynamod.Lib.Iter
import Dynamod.Lib.Lines
import Dynamod.Lib.Maps
import Dynamod.Svmgr.Config

namespace Dynamod.Svmgr

open Lib

-- ==== control files

/-- What reading the control files of a cgroup returns. -/
structure CgroupFiles where
  memoryEvents : Option String
  memoryCurrent : Option String
  memoryHigh : Option String

namespace CgroupFiles

/-- `read_oom_kill_count`. A failed read, a file without the line and a
number that does not parse all count as zero. -/
def readOomKillCount (files : CgroupFiles) : Nat :=
  match files.memoryEvents with
  | none => 0
  | some content =>
    match (lines '\n' '\r' content.toList).findSome? "oom_kill ".toList.isPrefixOf? with
    | some rest => (parseU64 (trim rest)).getD 0
    | none => 0

def readMemoryCurrent (files : CgroupFiles) : Option Nat :=
  files.memoryCurrent.bind fun s => parseU64 (trim s.toList)

def readMemoryHigh (files : CgroupFiles) : Option Nat :=
  files.memoryHigh.bind fun s =>
    let s := trim s.toList
    if s = "max".toList then none else parseU64 s

end CgroupFiles

-- ==== the monitor

inductive CgroupEvent
  | oomKill (serviceName : String) (count : Nat)
  | memoryHigh (serviceName : String) (currentBytes : Nat)
  deriving DecidableEq

structure CgroupMonitor where
  watched : HashMap String String
  lastOomCount : HashMap String Nat

/-- The files each service's reads find at its path. -/
abbrev Reads := (serviceName path : String) → CgroupFiles

namespace CgroupMonitor

def new : CgroupMonitor := { watched := ∅, lastOomCount := ∅ }

def watch (m : CgroupMonitor) (serviceName cgroupPath : String) (files : CgroupFiles) :
    CgroupMonitor where
  watched := m.watched.insert serviceName cgroupPath
  lastOomCount := m.lastOomCount.insert serviceName files.readOomKillCount

def unwatch (m : CgroupMonitor) (serviceName : String) : CgroupMonitor where
  watched := m.watched.erase serviceName
  lastOomCount := m.lastOomCount.erase serviceName

/-- The first half of a round of `poll`: new kills. -/
def oomEvents (last current : Nat) (name : String) : List CgroupEvent :=
  if current > last then [.oomKill name (current - last)] else []

/-- The second half: more memory in use than the high watermark. -/
def pressureEvents (files : CgroupFiles) (name : String) : List CgroupEvent :=
  match files.readMemoryCurrent, files.readMemoryHigh with
  | some current, some high => if current > high then [.memoryHigh name current] else []
  | _, _ => []

/-- A round of `poll`. -/
def pollService (reads : Reads) (st : CgroupMonitor × List CgroupEvent) (name : String) :
    CgroupMonitor × List CgroupEvent :=
  match st.1.watched.lookup name with
  | none => st
  | some path =>
    let files := reads name path
    let currentOom := files.readOomKillCount
    let lastOom := (st.1.lastOomCount.lookup name).getD 0
    ({ st.1 with lastOomCount := st.1.lastOomCount.insert name currentOom },
      st.2 ++ oomEvents lastOom currentOom name ++ pressureEvents files name)

def poll (m : CgroupMonitor) (reads : Reads) (order : IterOrder m.watched.keys) :
    CgroupMonitor × List CgroupEvent :=
  order.list.foldl (pollService reads) (m, [])

end CgroupMonitor

end Dynamod.Svmgr
