/-
The copy of the squash file from the raw device to the tmpfs (`live.zig`):
for every extent of the file, chunks are read with `pread` and written
until all bytes of the chunk are written.

The kernel answers every transfer with a failure or a number of bytes,
which may be less than what was asked for. A copy that fails halts the
machine; `halt` and the traps of the arithmetic do not return.
-/
import Dynamod.Lib.Checked
import Dynamod.Init.Iso9660

namespace Dynamod.Init.Live

open Lib Iso9660

/-- What the kernel answers to a transfer. -/
inductive Answer
  | failed
  | moved (n : Nat)

/-- The device, and the answers to the calls of `pread` and of `write`, in
the order of the calls. -/
structure Kernel where
  device : List UInt8
  reads : Nat → Answer
  writes : Nat → Answer

namespace Kernel

/-- `pread`, call number `i`: no more than what is asked for, and than
what there is. -/
def pread (k : Kernel) (i len offset : Nat) : Option (List UInt8) :=
  match k.reads i with
  | .failed => none
  | .moved n => some ((k.device.drop offset).take (min n len))

/-- `write`, call number `i`: how many bytes were written. -/
def write (k : Kernel) (i len : Nat) : Option Nat :=
  match k.writes i with
  | .failed => none
  | .moved n => some (min n len)

end Kernel

/-- Why a call does not return. -/
inductive Stop
  | halt (message : String)
  | trap (t : Trap)
  deriving DecidableEq

/-- A trap of the arithmetic stops the machine. -/
def checked {α : Type} (x : Checked α) : Except Stop α := x.mapError Stop.trap

/-- The destination, the counters of the loops, and the calls made. -/
structure Copying where
  file : List UInt8
  copied : Nat
  nextLogAt : Nat
  reads : Nat
  writes : Nat
  deriving DecidableEq

/-- The bytes of `buf`. -/
def bufLen : Nat := 16384

def logEvery : Nat := 32 * 1024 * 1024

/-- The loop that writes `rest`, the bytes of the chunk from `woff` on.
Every call writes a byte at least, so a round for each of them is enough. -/
def writeChunk (k : Kernel) : Nat → List UInt8 → Copying → Except Stop Copying
  | 0, _, st => .ok st
  | rounds + 1, rest, st =>
    if rest = [] then .ok st
    else
      match k.write st.writes rest.length with
      | none => .error (.halt "dynamod live: write tmpfs squash copy failed")
      | some 0 =>
        .error (.halt "dynamod live: short write copying squashfs (pread path)")
      | some (wr + 1) =>
        writeChunk k rounds (rest.drop (wr + 1))
          { st with
            file := st.file ++ rest.take (wr + 1)
            writes := st.writes + 1 }

/-- The next size to log at, where a log is kept. The message is computed
in signed words. -/
def progress (klog : Bool) (copied nextLogAt : Nat) : Checked Nat :=
  if klog ∧ nextLogAt ≤ copied then do
    let _ ← addWidth 63 copied (1 <<< 20)
    addWord copied logEvery
  else .ok nextLogAt

/-- A round of the loop over an extent: how far it is done now. -/
def copyChunk (k : Kernel) (klog : Bool) (ext : Extent) (done : Nat) (st : Copying) :
    Except Stop (Nat × Copying) := do
  let offset ← checked (addWord ext.startByte done)
  match k.pread st.reads (min bufLen (ext.size - done)) offset with
  | none => .error (.halt "dynamod live: pread squash extent failed")
  | some [] => .error (.halt "dynamod live: short pread copying squashfs")
  | some (b :: bs) => do
      let rd := (b :: bs).length
      let st ← writeChunk k rd (b :: bs) { st with reads := st.reads + 1 }
      let done ← checked (addWord done rd)
      let copied ← checked (addWord st.copied rd)
      let nextLogAt ← checked (progress klog copied st.nextLogAt)
      .ok (done, { st with copied := copied, nextLogAt := nextLogAt })

/-- The loop over an extent. Every round reads a byte at least. -/
def copyExtent (k : Kernel) (klog : Bool) (ext : Extent) :
    Nat → Nat → Copying → Except Stop Copying
  | 0, _, st => .ok st
  | rounds + 1, done, st =>
    if done < ext.size then do
      let (done, st) ← copyChunk k klog ext done st
      copyExtent k klog ext rounds done st
    else .ok st

/-- `copySquashFromBlockDev`: the destination when it returns. The
destination is unlinked and opened with truncation, so it starts empty. -/
def copySquashFromBlockDev (k : Kernel) (klog opensDevice opensFile : Bool)
    (extents : List Extent) : Except Stop (List UInt8) :=
  if ¬ opensDevice then
    .error (.halt "dynamod live: open block device for squash pread failed")
  else if ¬ opensFile then
    .error (.halt "dynamod live: open tmpfs squash copy for write failed")
  else do
    let st ← extents.foldlM (fun st ext => copyExtent k klog ext ext.size 0 st)
      { file := [], copied := 0, nextLogAt := logEvery, reads := 0, writes := 0 }
    if st.copied = 0 then
      .error (.halt "dynamod live: squashfs on media empty or missing")
    else .ok st.file

end Dynamod.Init.Live
