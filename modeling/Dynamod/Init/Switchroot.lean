/-
The mount of the root device (`switchroot.zig`): the options of
`rootflags=` become mount flags, the other ones a text for the driver of
the file system, and the texts are handed to the kernel with a zero behind
them. Then the removal of the initramfs.

The local arrays are memories of their own with arbitrary bytes in the
beginning (`Locals`). Writes and sums are checked as a safe build checks
them. The call of `mount` itself is a parameter.
-/
import Dynamod.Lib.Bytes
import Dynamod.Lib.Checked
import Dynamod.Lib.Lines
import Dynamod.Init.Iso9660

namespace Dynamod.Init.Switchroot

open Lib Iso9660

-- ==== the options

def msRdonly : UInt32 := 0x01
def msNosuidFlag : UInt32 := 0x02
def msNodevFlag : UInt32 := 0x04
def msNoexecFlag : UInt32 := 0x08
def msSynchronous : UInt32 := 0x10
def msNoatime : UInt32 := 0x400
def msNodiratime : UInt32 := 0x800
def msRelatime : UInt32 := 0x200000
def msStrictatime : UInt32 := 0x1000000

/-- The options that set a flag, in the order in which they are tried. -/
def flagOptions : List (String × UInt32) :=
  [("ro", msRdonly), ("nosuid", msNosuidFlag), ("nodev", msNodevFlag),
    ("noexec", msNoexecFlag), ("sync", msSynchronous), ("noatime", msNoatime),
    ("nodiratime", msNodiratime), ("relatime", msRelatime),
    ("strictatime", msStrictatime)]

/-- The flag that an option sets. -/
def flagOf (opt : List UInt8) : Option UInt32 :=
  (flagOptions.find? fun row => utf8 row.1 = opt).map Prod.snd

/-- `ParsedFlags`. The array `data_buf` has the addresses of
`dataBufArray`. -/
structure ParsedFlags where
  flags : UInt32
  dataBuf : Mem
  dataLen : Nat

theorem array_fits : 0 + 256 < 2 ^ 64 := by
  decide

def dataBufArray : Slice := ⟨0, 256, array_fits⟩

/-- `data_buf[0..data_len]`. -/
def ParsedFlags.data (parsed : ParsedFlags) : List UInt8 :=
  (dataBufArray.bytes parsed.dataBuf).take parsed.dataLen

/-- The comma before a further option. -/
def separate (result : ParsedFlags) : Checked ParsedFlags :=
  if result.dataLen > 0 then do
    let buf ← dataBufArray.write result.dataBuf result.dataLen [Ascii.comma]
    let len ← addWord result.dataLen 1
    return { result with dataBuf := buf, dataLen := len }
  else .ok result

/-- An option that is passed on, where there is room for it. -/
def passOn (result : ParsedFlags) (opt : List UInt8) : Checked ParsedFlags := do
  let sum ← addWord result.dataLen opt.length
  let sum ← addWord sum 1
  if sum < dataBufArray.len then
    let result ← separate result
    let buf ← dataBufArray.write result.dataBuf result.dataLen opt
    let len ← addWord result.dataLen opt.length
    return { result with dataBuf := buf, dataLen := len }
  else return result

/-- The body of the loop over the options. -/
def parseOption (result : ParsedFlags) (opt : List UInt8) : Checked ParsedFlags :=
  if opt = utf8 "rw" then .ok { result with flags := result.flags &&& ~~~msRdonly }
  else
    match flagOf opt with
    | some flag => .ok { result with flags := result.flags ||| flag }
    | none => passOn result opt

def parseRootFlags (undef : Mem) (flagsOpt : Option Text) : Checked ParsedFlags :=
  let result : ParsedFlags := ⟨msRdonly, undef, 0⟩
  match flagsOpt with
  | none => .ok result
  | some flagsStr => (tokens Ascii.comma flagsStr.bytes).foldlM parseOption result

-- ==== the mount

/-- The local arrays of `mountRootDevice` and `parseRootFlags` before
anything is written. -/
structure Locals where
  devZ : Mem
  fstypeZ : Mem
  dataBuf : Mem
  dataZ : Mem

def devZArray : Slice := ⟨0, 256, array_fits⟩
def fstypeZArray : Slice := ⟨0, 32, by decide⟩
def dataZArray : Slice := ⟨0, 256, array_fits⟩

/-- A text in a buffer with a zero behind it. The buffers have room for
one more zero, which is not counted on here. -/
def terminate (undef : Mem) (buf : Slice) (text : List UInt8) : Checked Mem := do
  let mem ← buf.write undef 0 text
  buf.write mem text.length [0]

/-- What the kernel reads from a buffer. -/
def cString (mem : Mem) (buf : Slice) : List UInt8 :=
  (buf.bytes mem).takeWhile fun c => c ≠ 0

/-- The arguments of `mount`. -/
structure MountCall where
  source : List UInt8
  target : List UInt8
  fstype : List UInt8
  flags : UInt32
  data : Option (List UInt8)
  deriving DecidableEq

inductive MountError
  | pathTooLong
  | fsTypeTooLong
  | mountFailed
  deriving DecidableEq

/-- The type of the file system; null where its name is too long. -/
def fstypeArg (undef : Mem) : Option Text → Checked (Option (List UInt8))
  | none => .ok (some (utf8 "ext4"))
  | some ft =>
    if ft.bytes.length ≥ fstypeZArray.len then .ok none
    else do
      let mem ← terminate undef fstypeZArray ft.bytes
      return some (cString mem fstypeZArray)

/-- The text for the driver; null where no option was passed on. -/
def dataArg (undef : Mem) (parsed : ParsedFlags) : Checked (Option (List UInt8)) :=
  if parsed.dataLen > 0 then do
    let data ← dataBufArray.sub 0 parsed.dataLen
    let mem ← terminate undef dataZArray (data.bytes parsed.dataBuf)
    return some (cString mem dataZArray)
  else .ok none

/-- The arguments that `mountRootDevice` computes. -/
def mountArgs (undef : Locals) (devPath : Text) (fstypeOpt flagsOpt : Option Text) :
    Checked (Except MountError MountCall) :=
  if devPath.bytes.length ≥ devZArray.len then .ok (.error .pathTooLong)
  else do
    let dev ← terminate undef.devZ devZArray devPath.bytes
    match ← fstypeArg undef.fstypeZ fstypeOpt with
    | none => return .error .fsTypeTooLong
    | some fstype =>
      let parsed ← parseRootFlags undef.dataBuf flagsOpt
      let data ← dataArg undef.dataZ parsed
      return .ok ⟨cString dev devZArray, utf8 "/newroot", fstype, parsed.flags, data⟩

def mountRootDevice (undef : Locals) (mount : MountCall → Bool) (devPath : Text)
    (fstypeOpt flagsOpt : Option Text) : Checked (Except MountError Unit) := do
  match ← mountArgs undef devPath fstypeOpt flagsOpt with
  | .error e => return .error e
  | .ok call => return if mount call then .ok () else .error .mountFailed

-- ==== the removal

/-- A file that is no directory, or a directory, with its device. -/
inductive Node
  | file (dev : UInt64)
  | dir (dev : UInt64) (entries : List (List UInt8 × Node))

/-- The entries of a directory. -/
abbrev Entries := List (List UInt8 × Node)

/-- The names on a way down, the last one first. -/
abbrev Trail := List (List UInt8)

def Node.dev : Node → UInt64
  | .file dev => dev
  | .dir dev _ => dev

/-- Which calls succeed. The kernel removes no directory that is not
empty. A call of `getdents64` that fails ends the loop over a directory. -/
structure RemovalAnswers where
  /-- How many entries were read before that, if a call fails. -/
  getdents64 : Trail → Option Nat
  fstatat : Trail → Bool
  openat : Trail → Bool
  unlinkat : Trail → Bool

/-- The entry is passed over. -/
def passedOver (k : RemovalAnswers) (rootDev : UInt64) (depth : Nat) (path : Trail)
    (name : List UInt8) (node : Node) : Bool :=
  (depth == 0 && name == utf8 "newroot") || !k.fstatat path || node.dev != rootDev

/-- What the calls leave of an entry that is not. -/
def removeEntry (k : RemovalAnswers) (path : Trail) (recurse : Entries → Entries) :
    Node → Option Node
  | .dir dev entries =>
    let left := if k.openat path then recurse entries else entries
    if left.isEmpty && k.unlinkat path then none else some (.dir dev left)
  | .file dev => if k.unlinkat path then none else some (.file dev)

/-- The entries of a directory that are read, and the others. -/
def readEntries (k : RemovalAnswers) (dir : Trail) (entries : Entries) : Entries × Entries :=
  match k.getdents64 dir with
  | none => (entries, [])
  | some n => entries.splitAt n

/-- What `recursiveDelete` leaves of the directory `dir`. -/
def recursiveDelete (k : RemovalAnswers) (rootDev : UInt64) (depth : Nat) (dir : Trail)
    (entries : Entries) : Entries :=
  if depth > 16 then entries
  else
    ((readEntries k dir entries).1.filterMap fun (name, node) =>
      if passedOver k rootDev depth (name :: dir) name node then some (name, node)
      else (removeEntry k (name :: dir)
        (recursiveDelete k rootDev (depth + 1) (name :: dir)) node).map (name, ·))
      ++ (readEntries k dir entries).2
termination_by 17 - depth

end Dynamod.Init.Switchroot
