/-
The fields of `/etc/machine-info` (`dynamod-hostnamed/src/hostname.rs`):
how a field is read, how a setter of the D-Bus interface rewrites the
file, and the properties that are read from it.

Texts are taken apart on their characters. A setter leaves the file that it
writes; a write that fails is an error of the call and not modelled.
-/
import Mathlib.Data.List.DropRight
import Dynamod.Lib.Bytes
import Dynamod.Lib.Lines

namespace Dynamod.Hostnamed

open Lib

/-- The bytes of the file, or nothing where it cannot be read. -/
abbrev File := Option (List UInt8)

def readToString (file : File) : Option String := file.bind fromUtf8

def quote : Char := '\x22'

/-- What a line of the field starts with. -/
def tag (key : String) : List Char := key.toList ++ ['=']

/-- `trim_matches` of quotes. -/
def trimQuotes (text : List Char) : List Char :=
  (text.dropWhile fun c => c = quote).rdropWhile fun c => c = quote

/-- The value on a line of the field. -/
def fieldOn (key : String) (line : List Char) : Option String :=
  ((tag key).isPrefixOf? line).map fun value => String.ofList (trimQuotes value)

def readMachineInfoField (file : File) (key : String) : Option String :=
  (readToString file).bind fun content =>
    (lines '\n' '\r' content.toList).findSome? (fieldOn key)

/-- The line that a setter writes. -/
def entry (key value : String) : List Char :=
  tag key ++ quote :: (value.toList ++ [quote])

def updateMachineInfo (file : File) (key value : String) : File :=
  let content := (readToString file).getD ""
  let kept := (lines '\n' '\r' content.toList).filter fun l => !(tag key).isPrefixOf l
  let lines := if value ≠ "" then kept ++ [entry key value] else kept
  some (utf8 (String.ofList (['\n'].intercalate lines ++ ['\n'])))

-- ==== the interface

/-- The fields that have a setter and a property. -/
inductive Field
  | prettyHostname
  | iconName
  | chassis
  | deployment
  | location
  deriving DecidableEq

def Field.key : Field → String
  | .prettyHostname => "PRETTY_HOSTNAME"
  | .iconName => "ICON_NAME"
  | .chassis => "CHASSIS"
  | .deployment => "DEPLOYMENT"
  | .location => "LOCATION"

/-- `set_pretty_hostname`, `set_icon_name`, `set_chassis`, `set_deployment`
and `set_location`. -/
def setField (file : File) (field : Field) (value : String) : File :=
  updateMachineInfo file field.key value

/-- What a property shows without its field, with what `detect_chassis`
answers. -/
def Field.fallback (detectChassis : Option String) : Field → String
  | .iconName => "computer"
  | .chassis => detectChassis.getD ""
  | .prettyHostname | .deployment | .location => ""

/-- The properties `pretty_hostname`, `icon_name`, `chassis`, `deployment`
and `location`. -/
def property (detectChassis : Option String) (file : File) (field : Field) : String :=
  (readMachineInfoField file field.key).getD (field.fallback detectChassis)

end Dynamod.Hostnamed
