/-
Calls of `manager.rs` that interleave.

Every D-Bus call is a task of its own, and so is the cleanup that
`finalize_session_removal` starts for a user who is gone. A task takes
the state lock for its critical sections, and makes its other calls
without it. One event is one critical section, or one call outside of
the lock: what happens between two events of a task is up to the
others. `Stage` is where a task stands.

# Cancellation

A login aborts the pending cleanup of its user. tokio drops an aborted
task when it is next polled or returns from a poll, so an aborted task
that sleeps does not wake up; one that is past its sleep can be dropped
where it awaits the lock, and goes on from one await to the next
otherwise. Between the look at the users and the release of the
runtime directory there is no await.

The log and `latest` are kept for the statements; the program has
neither.
-/
import Dynamod.Logind.Manager

namespace Dynamod.Logind

open Lib

/-- Where a task stands. -/
inductive Stage
  /-- `CreateSession`, before its critical section. -/
  | create (call : CreateCall)
  /-- `ActivateSession`, before its critical section. -/
  | activate (sessionId : SessionId)
  /-- `ReleaseSession`, before it looks for the session. -/
  | release (sessionId : SessionId)
  /-- `ReleaseSession`, before `finalize_session_removal`. -/
  | finalize (sessionId : SessionId)
  /-- A call with its lock dropped: what is left to do. -/
  | calls (todo : List Effect)
  /-- A cleanup that waits for `UserStopDelaySec`. -/
  | sleeping (uid : Nat)
  /-- A cleanup before it looks whether the user is still gone. -/
  | checking (uid : Nat)
  /-- A cleanup that found the user gone, before `runtime_dir::release`. -/
  | releasing (uid : Nat)
  /-- A cleanup in `runtime_dir::release`, after the umount. -/
  | removing (uid : Nat)
  /-- A cleanup before `cgroup::release_user_slice`. -/
  | releasingSlice (uid : Nat)
  /-- A cleanup before it takes itself off the pending ones. -/
  | forgetting (uid : Nat)
  | finished

/-- A task, and whether `abort` was called on it. -/
structure Task where
  stage : Stage
  aborted : Bool := false

/-- The daemon with its tasks; a task is known by its position. -/
structure World where
  login : LoginState
  /-- `pending_user_cleanups`. -/
  pendingUserCleanups : HashMap Nat Nat
  nodes : Nodes
  tasks : List Task
  /-- What was done outside of the login state. -/
  log : List Effect
  /-- The task whose critical section was the last to leave ownership
  steps behind. -/
  latest : Option Nat

/-- A call from the bus. -/
inductive Call
  | createSession (call : CreateCall)
  | activateSession (sessionId : SessionId)
  | releaseSession (sessionId : SessionId)

/-- Where a call begins. -/
def Call.stage : Call → Stage
  | .createSession call => .create call
  | .activateSession id => .activate id
  | .releaseSession id => .release id

/-- What a piece of a task reads from outside. -/
structure Answers where
  create : CreateAnswers
  /-- `/run/user/$UID` exists. -/
  dirExists : Bool

inductive Event
  /-- A call comes in. -/
  | call (c : Call)
  /-- A task does its next piece. -/
  | run (i : Nat) (a : Answers)
  /-- An aborted task is dropped. -/
  | drop (i : Nat)

namespace World

/-- The daemon at its start. -/
def start (nodes : Nodes) : World :=
  { login := LoginState.new.createSeat0, pendingUserCleanups := ∅, nodes := nodes,
    tasks := [], log := [], latest := none }

/-- Where a task stands. -/
def stage (w : World) (i : Nat) : Stage :=
  ((w.tasks[i]?).map (·.stage)).getD .finished

/-- A task comes to its next stage. -/
def goto (w : World) (i : Nat) (stage : Stage) : World :=
  { w with tasks := w.tasks.modify i fun t => { t with stage := stage } }

def abort (w : World) (i : Option Nat) : World :=
  match i with
  | some i => { w with tasks := w.tasks.modify i fun t => { t with aborted := true } }
  | none => w

/-- A task leaves its critical section with some calls to make. -/
def leave (w : World) (i : Nat) (todo : List Effect) : World :=
  { w.goto i (.calls todo) with
    latest := if aclSteps todo = [] then w.latest else some i }

/-- A call that is not made under the lock. -/
def perform (fs : Devfs) (w : World) (effect : Effect) : World :=
  { w with
    nodes := match effect with
      | .acl step => step.run fs w.nodes
      | _ => w.nodes
    log := w.log ++ [effect] }

-- ---- critical sections

/-- The critical section of `create_session`. -/
def create (w : World) (i : Nat) (call : CreateCall) (a : CreateAnswers) : World :=
  match createLocked w.login call a with
  | .error _ => w.goto i .finished
  | .ok created =>
    ({ w with
        login := created.login
        pendingUserCleanups := w.pendingUserCleanups.erase call.uid }.abort
      (w.pendingUserCleanups.lookup call.uid)).leave i created.after

/-- The critical section of `activate_session`. -/
def activate (w : World) (i : Nat) (sessionId : SessionId) : World :=
  { w with login := (activateSession w.login sessionId).login }.leave i
    (activateSession w.login sessionId).did

/-- The first critical section of `release_session`. -/
def release (w : World) (i : Nat) (sessionId : SessionId) : World :=
  if sessionId ∈ w.login.sessions then w.goto i (.finalize sessionId)
  else w.goto i .finished

/-- The cleanup for a user who is gone. -/
def spawnCleanup (w : World) (uid : Nat) : World :=
  { w with
    tasks := w.tasks ++ [{ stage := .sleeping uid }]
    pendingUserCleanups := w.pendingUserCleanups.insert uid w.tasks.length }

/-- The critical section of `finalize_session_removal`. -/
def finalize (w : World) (i : Nat) (sessionId : SessionId) : World :=
  match finalizeLocked w.login sessionId with
  | none => w.goto i .finished
  | some f =>
    let removed := { w with
      login := f.login
      log := w.log ++ [Effect.releaseScope f.uid sessionId] }
    (if f.userGone then removed.spawnCleanup f.uid else removed).leave i
      (f.after.map .acl)

-- ---- the step

/-- A task does its next piece. -/
def run (fs : Devfs) (w : World) (i : Nat) (a : Answers) : World :=
  match w.stage i with
  | .create call => w.create i call a.create
  | .activate id => w.activate i id
  | .release id => w.release i id
  | .finalize id => w.finalize i id
  | .calls [] => w.goto i .finished
  | .calls (effect :: todo) => (w.perform fs effect).goto i (.calls todo)
  | .sleeping uid =>
    if ((w.tasks[i]?).map (·.aborted)).getD false then w
    else w.goto i (.checking uid)
  | .checking uid =>
    if uid ∈ w.login.users then w.goto i .finished else w.goto i (.releasing uid)
  | .releasing uid =>
    if a.dirExists then (w.perform fs (.unmount uid)).goto i (.removing uid)
    else w.goto i (.releasingSlice uid)
  | .removing uid => (w.perform fs (.removeDir uid)).goto i (.releasingSlice uid)
  | .releasingSlice uid =>
    (w.perform fs (.releaseUserSlice uid)).goto i (.forgetting uid)
  | .forgetting uid =>
    { w with pendingUserCleanups := w.pendingUserCleanups.erase uid }.goto i .finished
  | .finished => w

/-- An aborted task is dropped where it awaits something. -/
def drop (w : World) (i : Nat) : World :=
  match w.tasks[i]? with
  | some { stage := .sleeping _, aborted := true } => w.goto i .finished
  | some { stage := .checking _, aborted := true } => w.goto i .finished
  | some { stage := .forgetting _, aborted := true } => w.goto i .finished
  | _ => w

def step (fs : Devfs) (w : World) : Event → World
  | .call c => { w with tasks := w.tasks ++ [{ stage := c.stage }] }
  | .run i a => w.run fs i a
  | .drop i => w.drop i

end World

end Dynamod.Logind
