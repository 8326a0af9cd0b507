/-
The reader of ISO 9660 volumes (`iso9660.zig`): the extents of a file, found
by reading the volume descriptors and the directories of a device.

Every index, slice bound, sum, product and cast is the checked one of
Lib/Checked.lean, and every `while` loop is a `loop` of Lib/Loops.lean with a
round for each byte that it may move on by; a loop that went on behind its
rounds would be a fault. `return` inside a loop is the last round of it.

A buffer is a value: nothing is written to one while a slice of it is used.
What a reading function reads depends on how many calls of `pread` were made
before, so it takes the number of calls and returns the new one. The messages
to the kernel log are left out.
-/
import Dynamod.Lib.Bytes
import Dynamod.Lib.Lines
import Dynamod.Lib.Loops

namespace Dynamod.Init.Iso9660

open Lib Loops Ascii

-- ==== constants

def logicalSector : Nat := 2048
def vdStartByte : Nat := 16 * logicalSector
def maxVdSectors : Nat := 32
def maxPathDepth : Nat := 8
def maxDirBytes : Nat := 64 <<< 20
def maxExtents : Nat := 8

/-- Set for a directory. -/
def flagDir : UInt8 := 0x02

/-- Set for every record of a file in several extents but the last. -/
def flagMultiExtent : UInt8 := 0x80

-- ==== types

/-- `Extent`: a run of bytes on the device. -/
structure Extent where
  startByte : Nat
  size : Nat
  deriving DecidableEq

/-- `FileExtents`: `extents` is the part of the array that is in use. -/
structure FileExtents where
  extents : List Extent := []
  totalSize : Nat := 0
  deriving DecidableEq

def FileExtents.count (fx : FileExtents) : Nat := fx.extents.length

/-- A text in memory: an object takes less than half of the address space. -/
structure Text where
  bytes : List UInt8
  fits : bytes.length < 2 ^ 63

/-- An open device: what `pread` answers, by the number of the call, the
length of the buffer and the offset. It fails, or it reads as many bytes as
the buffer has room for at most. -/
structure Device where
  pread : Nat → Nat → Nat → Option (List UInt8)
  short : ∀ call len off bytes, pread call len off = some bytes → bytes.length ≤ len

inductive Source
  | fd (device : Device)
  | mem (image : List UInt8)

structure DirLoc where
  lba : UInt32
  size : UInt32
  deriving DecidableEq

structure Volume where
  blockSize : UInt32 := 2048
  pvdRoot : Option DirLoc := none
  jolietRoot : Option DirLoc := none
  deriving DecidableEq

inductive Namespace
  | joliet
  | primary
  deriving DecidableEq

structure DirRecord where
  recLen : UInt8
  extentLba : UInt32
  dataLen : UInt32
  flags : UInt8
  name : List UInt8
  su : List UInt8
  deriving DecidableEq

inductive DirRecordResult
  | padding
  | malformed
  | record (r : DirRecord)
  deriving DecidableEq

inductive RrNameResult
  | none
  | incomplete
  | name (bytes : List UInt8)
  deriving DecidableEq

inductive Found
  | dir (loc : DirLoc)
  | file (fx : FileExtents)
  deriving DecidableEq

-- ==== reading

/-- A round of the loop of `readFull`: `got` is what the buffer holds. -/
def readRound (device : Device) (off len : Nat) :
    List UInt8 × Nat → Prog (Round (List UInt8 × Nat) (Option (List UInt8) × Nat))
  | (got, calls) =>
    if got.length < len then do
      let pos ← addWord off got.length
      match device.pread calls (len - got.length) pos with
      | none => return .done (none, calls + 1)
      | some [] => return .done (none, calls + 1)
      | some (b :: bs) =>
        let _ ← addWord got.length (b :: bs).length
        return .again (got ++ b :: bs, calls + 1)
    else return .done (some got, calls)

/-- `readFull` from an image in memory. -/
def readMem (image : List UInt8) (off len : Nat) : Checked (Option (List UInt8)) :=
  if image.length ≤ off then .ok none
  else do
    let start ← castWidth 64 off
    let rest ← subWord image.length start
    if rest < len then .ok none
    else
      let tail ← cut image start image.length
      let bytes ← cut tail 0 len
      .ok (some bytes)

/-- `readFull`: the buffer of `len` bytes, where it is filled. -/
def readFull (src : Source) (off len calls : Nat) : Prog (Option (List UInt8) × Nat) :=
  match src with
  | .fd device => loop (readRound device off len) (len + 1) ([], calls)
  | .mem image => do
      let bytes ← readMem image off len
      return (bytes, calls)

-- ==== directory records

/-- `readInt` of a little-endian `u32` in `buf[off..][0..4]`. -/
def readU32 (buf : List UInt8) (off : Nat) : Checked UInt32 := do
  let tail ← cut buf off buf.length
  let bytes ← cut tail 0 4
  .ok (UInt32.ofNat (leNat bytes))

/-- The area of a record for the use of the system. -/
def systemUse (buf : List UInt8) (suStart recEnd : Nat) : Checked (List UInt8) :=
  if suStart < recEnd then cut buf suStart recEnd else cut buf 0 0

/-- The fields of a record of `recLen` bytes with a name of `nameLen`. -/
def readFields (buf : List UInt8) (off recLen nameLen : Nat) : Checked DirRecord := do
  let extentLba ← readU32 buf (← addWord off 2)
  let dataLen ← readU32 buf (← addWord off 10)
  let flags ← elemAt buf (← addWord off 25)
  let nameTail ← cut buf (← addWord off 33) buf.length
  let name ← cut nameTail 0 nameLen
  let pad ← subWord 1 (nameLen &&& 1)
  let suStart ← addWord (← addWord (← addWord off 33) nameLen) pad
  let recEnd ← addWord off recLen
  let su ← systemUse buf suStart recEnd
  let first ← elemAt buf off
  .ok { recLen := first, extentLba, dataLen, flags, name, su }

def parseDirRecord (buf : List UInt8) (off : Nat) : Checked DirRecordResult :=
  if buf.length ≤ off then .ok .malformed
  else do
    let first ← elemAt buf off
    let recLen := first.toNat
    if recLen = 0 then .ok .padding
    else if recLen < 34 then .ok .malformed
    else if buf.length < (← addWord off recLen) then .ok .malformed
    else
      let nameLen := (← elemAt buf (← addWord off 32)).toNat
      if nameLen = 0 then .ok .malformed
      else if recLen < (← addWord 33 nameLen) then .ok .malformed
      else
        let r ← readFields buf off recLen nameLen
        .ok (.record r)

-- ==== names

/-- `isSpecialId`: the directory itself, or its parent. -/
def isSpecialId (recordName : List UInt8) : Checked Bool :=
  if recordName.length = 1 then do
    let first ← elemAt recordName 0
    .ok (first = 0x00 ∨ first = 0x01)
  else .ok false

/-- A round of the loop of `matchJolietName` that looks for a version: the
name without it. -/
def versionRound (name : List UInt8) (idx : Nat) : Prog (Round Nat (List UInt8)) := do
  let next ← addWord idx 1
  if next < name.length then
    let high ← elemAt name idx
    let low ← elemAt name next
    if high = 0x00 ∧ low = semicolon then
      let front ← cut name 0 idx
      return .done front
    else return .again (← addWord idx 2)
  else return .done name

/-- The loop of `matchJolietName` over the component, from index `ci` on. -/
def unitsMatch (name : List UInt8) : Nat → List UInt8 → Checked Bool
  | _, [] => .ok true
  | ci, c :: cs => do
      let high ← elemAt name (← mulWord 2 ci)
      if high ≠ 0x00 then .ok false
      else
        let low ← elemAt name (← addWord (← mulWord 2 ci) 1)
        if low ≠ c then .ok false
        else unitsMatch name (ci + 1) cs

def matchJolietName (recordName component : List UInt8) : Prog Bool := do
  if ← isSpecialId recordName then return false
  else
    let name ← loop (versionRound recordName) (recordName.length + 1) 0
    if name.length ≠ (← mulWord component.length 2) then return false
    else unitsMatch name 0 component

/-- The name before its version. -/
def withoutVersion (name : List UInt8) : Checked (List UInt8) :=
  match name.idxOf? semicolon with
  | some i => cut name 0 i
  | none => .ok name

/-- The name without a dot at its end. -/
def withoutDot (name : List UInt8) : Checked (List UInt8) :=
  if 0 < name.length then do
    let last ← elemAt name (← subWord name.length 1)
    if last = dot then cut name 0 (← subWord name.length 1) else .ok name
  else .ok name

def matchPlainName (recordName component : List UInt8) : Checked Bool := do
  if ← isSpecialId recordName then .ok false
  else
    let name ← withoutVersion recordName
    let name ← withoutDot name
    .ok (SameLetters name component)

/-- The variables of the loop of `rrName`: `out` is the part of the buffer
that is in use. -/
structure RrScan where
  i : Nat := 0
  out : List UInt8 := []
  haveNm : Bool := false
  expectingMore : Bool := false
  sawCe : Bool := false

/-- What `rrName` returns behind its loop. -/
def RrScan.result (s : RrScan) : RrNameResult :=
  if s.haveNm then
    if s.expectingMore then .incomplete else .name s.out
  else if s.sawCe then .incomplete
  else .none

/-- The bytes of `out`. -/
def rrNameLen : Nat := 256

/-- An entry `NM` of `len` bytes, the next one being at `next`. -/
def nmRound (su : List UInt8) (len next : Nat) (s : RrScan) :
    Checked (Round RrScan RrNameResult) := do
  let nmFlags ← elemAt su (← addWord s.i 4)
  if nmFlags &&& 0x06 = 0 then
    let payload ← cut su (← addWord s.i 5) (← addWord s.i len)
    let outLen ← addWord s.out.length payload.length
    if rrNameLen < outLen then .ok (.done .incomplete)
    else
      .ok (.again { s with
        i := next
        out := s.out ++ payload
        haveNm := true
        expectingMore := decide (nmFlags &&& 0x01 ≠ 0) })
  else .ok (.again { s with i := next })

/-- A round of the loop of `rrName`. -/
def rrRound (su : List UInt8) (s : RrScan) : Checked (Round RrScan RrNameResult) := do
  if (← addWord s.i 4) ≤ su.length then
    let len := (← elemAt su (← addWord s.i 2)).toNat
    if len < 4 then .ok (.done s.result)
    else
      let next ← addWord s.i len
      if su.length < next then .ok (.done s.result)
      else
        let first ← elemAt su s.i
        let second ← elemAt su (← addWord s.i 1)
        if first = 'S'.toUInt8 ∧ second = 'T'.toUInt8 then .ok (.done s.result)
        else
          let s := { s with
            sawCe := s.sawCe || decide (first = 'C'.toUInt8 ∧ second = 'E'.toUInt8) }
          if first = 'N'.toUInt8 ∧ second = 'M'.toUInt8 ∧ 5 ≤ len then nmRound su len next s
          else .ok (.again { s with i := next })
  else .ok (.done s.result)

def rrName (suArea : List UInt8) (skip : UInt8) : Prog RrNameResult :=
  if suArea.length ≤ skip.toNat then return .none
  else do
    let su ← cut suArea skip.toNat suArea.length
    loop (fun s => liftM (rrRound su s)) (su.length + 1) {}

def rrSkipLen (rootDotSu : List UInt8) : Checked UInt8 := do
  if rootDotSu.length < 7 then .ok 0
  else if (← elemAt rootDotSu 0) ≠ 'S'.toUInt8 then .ok 0
  else if (← elemAt rootDotSu 1) ≠ 'P'.toUInt8 then .ok 0
  else if (← elemAt rootDotSu 2) ≠ 7 then .ok 0
  else if (← elemAt rootDotSu 4) ≠ 0xBE then .ok 0
  else if (← elemAt rootDotSu 5) ≠ 0xEF then .ok 0
  else elemAt rootDotSu 6

def recordMatches (r : DirRecord) (component : List UInt8) (ns : Namespace) (rrSkip : UInt8) :
    Prog Bool :=
  match ns with
  | .joliet => matchJolietName r.name component
  | .primary => do
      match ← rrName r.su rrSkip with
      | .name n => return n = component
      | .incomplete => matchPlainName r.name component
      | .none => matchPlainName r.name component

-- ==== directories

/-- `appendExtent`: nothing, where it returns `false`. -/
def appendExtent (fx : FileExtents) (r : DirRecord) (blockSize : UInt32) :
    Checked (Option FileExtents) :=
  if maxExtents ≤ fx.count then .ok none
  else do
    let startByte ← mulWord r.extentLba.toNat blockSize.toNat
    -- the place at `count` of the array of `maxExtents`
    let extents ← if fx.count < maxExtents
      then .ok (fx.extents ++ [{ startByte, size := r.dataLen.toNat }])
      else .error .outOfBounds
    let _ ← addWidth 8 fx.count 1
    let totalSize ← addWord fx.totalSize r.dataLen.toNat
    .ok (some { extents, totalSize })

/-- How a piece of a directory is left: with a `return`, or on to the next
piece, with what was collected. -/
inductive Left
  | answer (found : Option Found)
  | next (collecting : Option FileExtents)
  deriving DecidableEq

/-- A record of the file: the last one, or one that others follow. -/
def collect (blockSize : UInt32) (fx : FileExtents) (r : DirRecord) : Checked Left := do
  match ← appendExtent fx r blockSize with
  | none => .ok (.answer none)
  | some fx =>
    if r.flags &&& flagMultiExtent = 0 then .ok (.answer (some (.file fx)))
    else .ok (.next (some fx))

/-- A record of a directory, by whether its name is the one looked for. -/
def takeRecord (blockSize : UInt32) (matched : Bool) (collecting : Option FileExtents)
    (r : DirRecord) : Checked Left :=
  match collecting with
  | some fx =>
    if ¬ matched then .ok (.answer none)
    else collect blockSize fx r
  | none =>
    if ¬ matched then .ok (.next none)
    else if r.flags &&& flagDir ≠ 0 then
      if r.flags &&& flagMultiExtent ≠ 0 then .ok (.answer none)
      else .ok (.answer (some (.dir { lba := r.extentLba, size := r.dataLen })))
    else collect blockSize {} r

/-- What a lookup looks for. -/
structure Query where
  blockSize : UInt32
  component : Text
  ns : Namespace
  rrSkip : UInt8

/-- A record that was read. -/
def visitRecord (q : Query) (collecting : Option FileExtents) (r : DirRecord) : Prog Left := do
  let matched ← recordMatches r q.component.bytes q.ns q.rrSkip
  takeRecord q.blockSize matched collecting r

/-- A round of the loop over the records of a sector. -/
def recordRound (q : Query) (chunk : List UInt8) :
    Nat × Option FileExtents → Prog (Round (Nat × Option FileExtents) Left)
  | (off, collecting) =>
    if off < chunk.length then do
      match ← parseDirRecord chunk off with
      | .padding => return .done (.next collecting)
      | .malformed => return .done (.answer none)
      | .record r =>
        match ← visitRecord q collecting r with
        | .answer found => return .done (.answer found)
        | .next collecting =>
          let off ← addWord off r.recLen.toNat
          return .again (off, collecting)
    else return .done (.next collecting)

/-- The records of a sector. -/
def scanSector (q : Query) (chunk : List UInt8) (collecting : Option FileExtents) : Prog Left :=
  loop (recordRound q chunk) (chunk.length + 1) (0, collecting)

/-- The variables of the loop over the sectors of a directory. -/
structure DirScan where
  secStart : Nat
  collecting : Option FileExtents
  calls : Nat

/-- A round of the loop over the sectors of a directory. -/
def sectorRound (src : Source) (q : Query) (dir : DirLoc) (base : Nat) (s : DirScan) :
    Prog (Round DirScan (Option Found × Nat)) :=
  if s.secStart < dir.size.toNat then do
    let left ← subWord dir.size.toNat s.secStart
    let chunk ← castWidth 64 (min logicalSector left)
    let pos ← addWord base s.secStart
    match ← readFull src pos chunk s.calls with
    | (none, calls) => return .done (none, calls)
    | (some bytes, calls) =>
      match ← scanSector q bytes s.collecting with
      | .answer found => return .done (found, calls)
      | .next collecting =>
        let secStart ← addWord s.secStart logicalSector
        return .again { secStart, collecting, calls }
  else return .done (none, s.calls)

def findInDirectory (src : Source) (q : Query) (dir : DirLoc) (calls : Nat) :
    Prog (Option Found × Nat) :=
  if dir.size = 0 ∨ maxDirBytes < dir.size.toNat then return (none, calls)
  else do
    let base ← mulWord dir.lba.toNat q.blockSize.toNat
    loop (sectorRound src q dir base) (dir.size.toNat + 1)
      { secStart := 0, collecting := none, calls }

-- ==== volumes

def readBlockSize (sector : List UInt8) : Checked (Option UInt32) := do
  let bs := leNat (← cut sector 128 130)
  if bs ≠ 512 ∧ bs ≠ 1024 ∧ bs ≠ 2048 then .ok none
  else .ok (some (UInt32.ofNat bs))

def rootDirFromVd (sector : List UInt8) : Checked (Option DirLoc) := do
  match ← parseDirRecord sector 156 with
  | .record r =>
    if r.flags &&& flagDir = 0 then .ok none
    else .ok (some { lba := r.extentLba, size := r.dataLen })
  | .padding => .ok none
  | .malformed => .ok none

def isJolietEscape (esc : List UInt8) : Checked Bool :=
  if 3 ≤ esc.length then do
    let first ← elemAt esc 0
    let second ← elemAt esc 1
    let third ← elemAt esc 2
    .ok (first = 0x25 ∧ second = 0x2F ∧ (third = 0x40 ∨ third = 0x43 ∨ third = 0x45))
  else .ok false

/-- The variables of the loop of `scanVolumeDescriptors`. -/
structure VdScan where
  i : Nat := 0
  vol : Volume := {}
  haveBlockSize : Bool := false
  calls : Nat

/-- A descriptor with a root directory: the block size of the first one
whose block size is supported stays. -/
def takeRoot (sector : List UInt8) (s : VdScan) (put : Volume → Option DirLoc → Volume) :
    Checked VdScan := do
  match ← readBlockSize sector with
  | none => .ok s
  | some bs =>
    let vol := if s.haveBlockSize then s.vol else { s.vol with blockSize := bs }
    let root ← rootDirFromVd sector
    .ok { s with vol := put vol root, haveBlockSize := true }

/-- The `switch` over the kinds of descriptors, but for the terminator. -/
def takeDescriptor (sector : List UInt8) (kind : UInt8) (s : VdScan) : Checked VdScan :=
  if kind = 1 then
    if s.vol.pvdRoot = none then
      takeRoot sector s fun vol root => { vol with pvdRoot := root }
    else .ok s
  else if kind = 2 then
    if s.vol.jolietRoot = none then do
      let esc ← cut sector 88 120
      if ← isJolietEscape esc then
        takeRoot sector s fun vol root => { vol with jolietRoot := root }
      else .ok s
    else .ok s
  else .ok s

/-- A round of the loop over the volume descriptors: the volume when the loop
is left, and nothing for a `return null`. -/
def vdRound (src : Source) (s : VdScan) : Prog (Round VdScan (Option Volume × Nat)) :=
  if s.i < maxVdSectors then do
    let pos ← addWord vdStartByte (← mulWord s.i logicalSector)
    match ← readFull src pos logicalSector s.calls with
    | (none, calls) => return .done (none, calls)
    | (some buf, calls) =>
      let id ← cut buf 1 6
      if id ≠ utf8 "CD001" then
        return .done (if s.i = 0 then none else some s.vol, calls)
      else
        let kind ← elemAt buf 0
        if kind = 255 then return .done (some s.vol, calls)
        else
          let s ← takeDescriptor buf kind { s with calls := calls }
          let i ← addWidth 32 s.i 1
          return .again { s with i := i }
  else return .done (some s.vol, s.calls)

def scanVolumeDescriptors (src : Source) (calls : Nat) : Prog (Option Volume × Nat) := do
  match ← loop (vdRound src) (maxVdSectors + 1) { calls } with
  | (none, calls) => return (none, calls)
  | (some vol, calls) =>
    if vol.pvdRoot = none ∧ vol.jolietRoot = none then return (none, calls)
    else return (some vol, calls)

-- ==== paths

def rootRrSkip (src : Source) (blockSize : UInt32) (root : DirLoc) (calls : Nat) :
    Prog (UInt8 × Nat) := do
  let chunk ← castWidth 64 (min logicalSector root.size.toNat)
  if chunk = 0 then return (0, calls)
  else
    let pos ← mulWord root.lba.toNat blockSize.toNat
    match ← readFull src pos chunk calls with
    | (none, calls) => return (0, calls)
    | (some buf, calls) =>
      match ← parseDirRecord buf 0 with
      | .record r => return (← rrSkipLen r.su, calls)
      | .padding => return (0, calls)
      | .malformed => return (0, calls)

def components (path : Text) : List Text :=
  (tokens slash path.bytes).attach.map fun component =>
    ⟨component.1, by
      have := length_le_of_mem_tokens component.2
      have := path.fits
      omega⟩

/-- The loop of `walkPath`. -/
def walkFrom (src : Source) (blockSize : UInt32) (ns : Namespace) (rrSkip : UInt8) :
    List Text → Nat → DirLoc → Nat → Prog (Option FileExtents × Nat)
  | [], _, _, calls => return (none, calls)
  | component :: rest, depth, cur, calls => do
      let depth ← addWord depth 1
      if maxPathDepth < depth then return (none, calls)
      else
        match ← findInDirectory src { blockSize, component, ns, rrSkip } cur calls with
        | (none, calls) => return (none, calls)
        | (some (.dir d), calls) =>
          if rest.isEmpty then return (none, calls)
          else walkFrom src blockSize ns rrSkip rest depth d calls
        | (some (.file fx), calls) =>
          if ¬ rest.isEmpty then return (none, calls)
          else if fx.totalSize = 0 then return (none, calls)
          else return (some fx, calls)

def walkPath (src : Source) (blockSize : UInt32) (root : DirLoc) (path : Text) (ns : Namespace)
    (calls : Nat) : Prog (Option FileExtents × Nat) := do
  if path.bytes.length < 2 then return (none, calls)
  else if (← elemAt path.bytes 0) ≠ slash then return (none, calls)
  else
    let (rrSkip, calls) ← match ns with
      | .primary => rootRrSkip src blockSize root calls
      | .joliet => pure (0, calls)
    walkFrom src blockSize ns rrSkip (components path) 0 root calls

/-- `walkPath` from a root, where the volume has it. -/
def walkRoot (src : Source) (blockSize : UInt32) (root : Option DirLoc) (path : Text)
    (ns : Namespace) (calls : Nat) : Prog (Option FileExtents × Nat) :=
  match root with
  | none => return (none, calls)
  | some root => walkPath src blockSize root path ns calls

def locateFileInSource (src : Source) (path : Text) (calls : Nat) :
    Prog (Option FileExtents × Nat) := do
  match ← scanVolumeDescriptors src calls with
  | (none, calls) => return (none, calls)
  | (some vol, calls) =>
    match ← walkRoot src vol.blockSize vol.jolietRoot path .joliet calls with
    | (some fx, calls) => return (some fx, calls)
    | (none, calls) => walkRoot src vol.blockSize vol.pvdRoot path .primary calls

end Dynamod.Init.Iso9660
