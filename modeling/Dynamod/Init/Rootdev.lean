/-
The search for the root device in the output of `blkid` (`rootdev.zig`):
the lines of the output are scanned for the text `KEY="value"`, and the
device is what stands before the first colon of the line.

The two functions differ in their key and in the case of the letters. The
child that runs `blkid` is not part of the model: a function takes the
file that the child wrote, or nothing where `blkid` is missing, no child
could be forked or the file could not be read.
-/
import Mathlib.Data.List.DropRight
import Dynamod.Lib.Bytes
import Dynamod.Lib.Lines

namespace Dynamod.Init.Rootdev

open Lib

/-- `std.mem.indexOf`, as far as it finds something. -/
def indexOf (needle line : List UInt8) : Bool := needle <:+: line

/-- `std.ascii.indexOfIgnoreCase`, as far as it finds something. -/
def indexOfIgnoreCase (needle line : List UInt8) : Bool :=
  needle.map Ascii.toLower <:+: line.map Ascii.toLower

/-- `std.mem.trim` of blanks and tabs. -/
def trimBlanks (text : List UInt8) : List UInt8 :=
  let blank := fun c => decide (c = Ascii.space ∨ c = Ascii.tab)
  (text.dropWhile blank).rdropWhile blank

/-- The bytes of `ResolvedDevice.path_buf`. -/
def pathBufLen : Nat := 256

/-- What a line that holds the text answers: nothing if it has no colon
or its device does not exist, and then the scan goes on; else the device,
or null if its path is too long. -/
def deviceOnLine (deviceExists : List UInt8 → Bool) (line : List UInt8) :
    Option (Option (List UInt8)) :=
  if Ascii.colon ∈ line then
    let dp := trimBlanks (line.takeWhile fun c => c ≠ Ascii.colon)
    if 5 ≤ dp.length ∧ utf8 "/dev/" <+: dp ∧ deviceExists dp then
      some (if pathBufLen - 1 < dp.length then none else some dp)
    else none
  else none

/-- The loop over the lines. -/
def scanLines (found : List UInt8 → Bool) (deviceExists : List UInt8 → Bool) :
    List (List UInt8) → Option (List UInt8)
  | [] => none
  | line :: lines =>
    if found line then
      (deviceOnLine deviceExists line).getD (scanLines found deviceExists lines)
    else scanLines found deviceExists lines

/-- The text that is searched for. -/
def needleFor (key : String) (value : List UInt8) : List UInt8 :=
  utf8 key ++ Ascii.equals :: Ascii.quote :: (value ++ [Ascii.quote])

/-- The scan of the first 4096 bytes of the output. Behind a last line
feed the loop of the source stops, where the model has an empty line in
which nothing is found. -/
def tryBlkidScan (key : String) (search : List UInt8 → List UInt8 → Bool)
    (deviceExists : List UInt8 → Bool) (output : Option (List UInt8))
    (value : List UInt8) : Option (List UInt8) :=
  output.bind fun file =>
    let readBuf := file.take 4096
    if readBuf = [] then none
    -- the needle is built in a buffer of 300 bytes
    else if 300 < (needleFor key value).length then none
    else
      scanLines (search (needleFor key value)) deviceExists
        (readBuf.splitOn Ascii.lineFeed)

def tryBlkidUuidDevice := tryBlkidScan "UUID" indexOf

def tryBlkidScanLabelDevice := tryBlkidScan "LABEL" indexOfIgnoreCase

end Dynamod.Init.Rootdev
