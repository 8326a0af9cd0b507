/-
The log files of `dynamod-logd` (`storage.rs`): lines are appended to
`current.log`; when it has grown to the limit it is renamed to
`log-<secs>.log`, and of the renamed files the last five in the order of
their names are kept.

Writes, renames and removals succeed in the model. A file is the list of
the lines written to it; the renamed files are a map by their name, so a
rename to a name that is taken replaces the file.
-/
import Mathlib.Data.String.Basic
import Dynamod.Lib.Iter
import Dynamod.Lib.Maps
import Dynamod.Lib.Text

namespace Dynamod.Logd

open Lib

/-- `LogEntry`; the time in seconds. -/
structure LogEntry where
  timestamp : Nat
  source : String
  message : String
  deriving DecidableEq

/-- `LogStorage`, with what is in its directory. -/
structure LogStorage where
  /-- The renamed files. -/
  files : HashMap String (List String)
  /-- `current.log`. -/
  current : List String
  currentSize : Nat
  maxSize : Nat
  /-- The ring buffer, the oldest entry first. -/
  recent : List LogEntry

def maxRecent : Nat := 1000

/-- The renamed files that are kept. -/
def keepLogs : Nat := 5

/-- A number in two digits at least. -/
def twoDigits (n : Nat) : String := if n < 10 then s!"0{n}" else s!"{n}"

def humantime (secs : Nat) : String :=
  let hours := twoDigits (secs % 86400 / 3600)
  let mins := twoDigits (secs % 3600 / 60)
  let s := twoDigits (secs % 60)
  s!"{hours}:{mins}:{s}"

/-- The name of a file that is renamed at this time. -/
def rotatedName (secs : Nat) : String := s!"log-{secs}.log"

/-- The names that the cleanup looks at. -/
def isLogName (name : String) : Bool := startsWith name "log-" && endsWith name ".log"

/-- `cleanup_old_logs`: the names are sorted, and removed from the front
until five are left. -/
def cleanupOldLogs (files : HashMap String (List String)) : HashMap String (List String) :=
  let logFiles := IterOrder.sortedList (files.keys.filter fun name => isLogName name)
  (logFiles.take (logFiles.length - keepLogs)).foldl (fun files old => files.erase old) files

namespace LogStorage

/-- `new`, in an empty directory. -/
def new (maxSize : Nat) : LogStorage :=
  { files := ∅, current := [], currentSize := 0, maxSize := maxSize, recent := [] }

def rotate (st : LogStorage) (secs : Nat) : LogStorage :=
  { st with
    files := cleanupOldLogs (st.files.insert (rotatedName secs) st.current)
    current := []
    currentSize := 0 }

/-- The line is written, and counted. -/
def write (st : LogStorage) (line : String) : LogStorage :=
  { st with
    current := st.current ++ [line]
    currentSize := st.currentSize + line.utf8ByteSize }

/-- The entry joins the ring buffer. -/
def push (st : LogStorage) (entry : LogEntry) : LogStorage :=
  let kept := if maxRecent ≤ st.recent.length then st.recent.tail else st.recent
  { st with recent := kept ++ [entry] }

end LogStorage

/-- A call of `append`, with the two times at which it reads the clock. -/
structure Append where
  source : String
  message : String
  now : Nat
  later : Nat

/-- The line that is written. -/
def Append.line (a : Append) : String :=
  let timestamp := humantime a.now
  let source := a.source
  let message := a.message
  s!"{timestamp} [{source}] {message}\n"

/-- The file is full once the line is written. -/
def LogStorage.fills (st : LogStorage) (a : Append) : Prop :=
  st.maxSize ≤ (st.write a.line).currentSize

instance (st : LogStorage) (a : Append) : Decidable (st.fills a) :=
  inferInstanceAs (Decidable (_ ≤ _))

def LogStorage.append (st : LogStorage) (a : Append) : LogStorage :=
  let written := st.write a.line
  let rotated := if st.fills a then written.rotate a.later else written
  rotated.push { timestamp := a.now, source := a.source, message := a.message }

end Dynamod.Logd
