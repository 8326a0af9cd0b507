/-
The PAM module (`pam_dynamod_logind/src/lib.rs`): a login becomes a
call of `CreateSession`, a logout one of `ReleaseSession`.

Read from outside and passed in: the items of the PAM handle, the uid
of the passwd entry, the pid, and what the bus answers. The module
never blocks a login, so an error of either function only goes to the
log and is returned here.
-/
import Dynamod.Logind.Manager

namespace Dynamod.Pam

open Lib Logind

/-- The numbers of the items, as in `mod pam`. -/
inductive Item
  | service
  | user
  | tty
  | rhost
  | ruser
  | xdisplay
  deriving DecidableEq

namespace Item

def number : Item → Nat
  | service => 1
  | user => 2
  | tty => 3
  | rhost => 4
  | ruser => 8
  | xdisplay => 11

end Item

/-- What `pam_get_item` answers: another code than `PAM_SUCCESS`, or the
text, if there is one. -/
abbrev Items := Item → Except Int (Option String)

def getItem (items : Items) (item : Item) : Except String (Option String) :=
  match items item with
  | .error rc =>
    let number := item.number
    .error s!"pam_get_item({number}) = {rc}"
  | .ok text => .ok text

structure ModuleArgs where
  sessionClass : Option String := none
  sessionType : Option String := none
  desktop : Option String := none

/-- `classify_tty`: the number of the virtual terminal, the terminal and
the display. -/
def classifyTty (tty display : String) : Nat × String × String :=
  if startsWith tty ":" then (0, "", tty)
  else
    let ttyClean := trimStartMatches tty "/dev/"
    let vtnr := match stripFront ttyClean "tty" with
      | some rest => (parseU32 rest).getD 0
      | none => 0
    (vtnr, ttyClean, display)

def inferType (display tty : String) : String :=
  if display ≠ "" then "x11"
  else if tty = "" then "unspecified"
  else "tty"

/-- The items of a login, an empty text for one that is not there. -/
structure LoginItems where
  user : String
  service : String
  tty : String
  rhost : String
  ruser : String
  display : String

/-- The items, in the order they are asked for. -/
def loginItems (items : Items) : Except String LoginItems := do
  let user ← getItem items .user
  let user ← user.elim (.error "no PAM_USER") .ok
  let service ← getItem items .service
  let tty ← getItem items .tty
  let rhost ← getItem items .rhost
  let ruser ← getItem items .ruser
  let display ← getItem items .xdisplay
  return { user := user, service := service.getD "", tty := tty.getD "",
           rhost := rhost.getD "", ruser := ruser.getD "", display := display.getD "" }

/-- The login comes from another machine. -/
def LoginItems.remote (login : LoginItems) : Bool :=
  login.rhost ≠ "" ∧ login.rhost ≠ "localhost"

/-- The call of `CreateSession` that a login is turned into. -/
def LoginItems.call (login : LoginItems) (args : ModuleArgs) (uid pid : Nat) :
    CreateCall :=
  let (vtnr, ttyClean, displayOut) := classifyTty login.tty login.display
  { uid := uid
    pid := pid
    service := login.service
    sessionType := args.sessionType.getD (inferType displayOut ttyClean)
    sessionClass := args.sessionClass.getD "user"
    desktop := args.desktop.getD ""
    seatId := if login.remote ∨ vtnr = 0 then "" else "seat0"
    vtnr := vtnr
    tty := ttyClean
    display := displayOut
    remote := login.remote
    remoteUser := login.ruser
    remoteHost := login.rhost }

/-- The part of `do_open_session` before the bus: what is sent. -/
def openCall (items : Items) (args : ModuleArgs) (passwd : String → Option Nat)
    (pid : Nat) : Except String CreateCall :=
  match loginItems items with
  | .error e => .error e
  | .ok login =>
    match passwd login.user with
    | none =>
      let user := login.user
      .error s!"no passwd entry for '{user}'"
    | some uid => .ok (login.call args uid pid)

end Dynamod.Pam
