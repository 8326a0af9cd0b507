/-
What the manager's functions can do, said once and at two levels.

# Writes

Everything between two system calls is one write (`Write`), which says what
becomes of the tree, states and intensities included, of the children and of
the log, and is labelled with what it was:

  idle     the clock and the scripts move on
  gaveUp   a supervisor that exceeded its intensity is noted
  started  a fresh process is registered for a worker
  failed   a worker could not be spawned
  stopped  a worker was sent SIGTERM
  exited   a reaped process is unregistered and its worker cleared
  lost     a reaped process was registered for nobody
  decided  a supervisor's strategy was asked about a child
  added    a new worker joins the tree

# Moves

For who owns which process only five kinds of change matter (`Move`): a
process is started, exited or lost, a worker without a process is added, and
whatever else happens is quiet. Every write is a move (`Write.move`), so
every function of the manager is a sequence of moves (`Moves`), and an
invariant that each move keeps holds after every function, whatever the
environment answers.

# Functions

How a function is put together from what it does between two system calls is
proved once, for any relation (`Closed`). A relation that holds across every
single write is closed (`Steps.of_writes`).
-/
import Mathlib.Logic.Relation
import Dynamod.Svmgr.Manager
import Dynamod.Svmgr.Proofs.Shape
import Dynamod.Svmgr.Proofs.Strategy

namespace Dynamod.Svmgr

open Lib Relation

variable {t : SupervisorTree} {w w' w'' v : World} {α : Type} {id sup : NodeId}
  {p : Pid} {exit : ExitInfo} {reap : World → World} {deadline : Instant}

-- ==== cores

/-- A worker up to its lifecycle state. -/
def WorkerNode.core (wk : WorkerNode) : WorkerNode :=
  { wk with state := .stopped }

namespace SupervisorTree

/-- The workers of a tree up to their lifecycle states. -/
def coreOf (t : SupervisorTree) (n : NodeId) : Option WorkerNode :=
  (t.getWorker n).map WorkerNode.core

/-- A change of a worker beside its core is not seen here. -/
theorem coreOf_modifyWorker (t : SupervisorTree) (id n : NodeId)
    {f : WorkerNode → WorkerNode} (hf : ∀ wk, (f wk).core = wk.core) :
    (t.modifyWorker id f).coreOf n = t.coreOf n := by
  unfold coreOf
  rw [getWorker_modifyWorker]
  by_cases hn : n = id
  · rw [if_pos hn, hn, Option.map_map]
    congr 1
    funext wk
    exact hf wk
  · rw [if_neg hn]

theorem coreOf_modifySupervisor (t : SupervisorTree) (id n : NodeId)
    (f : SupervisorNode → SupervisorNode) : (t.modifySupervisor id f).coreOf n = t.coreOf n := by
  unfold coreOf
  rw [getWorker_modifySupervisor]

theorem coreOf_eq_none {n : NodeId} : t.coreOf n = none ↔ t.getWorker n = none := by
  unfold coreOf
  rw [Option.map_eq_none_iff]

/-- Two trees that agree on which process belongs to which worker. -/
structure SameCore (t t' : SupervisorTree) : Prop where
  pidMap : t'.pidMap = t.pidMap
  worker : ∀ n, t'.coreOf n = t.coreOf n

theorem SameCore.refl (t : SupervisorTree) : SameCore t t :=
  ⟨rfl, fun _ => rfl⟩

theorem SameCore.trans {t' t'' : SupervisorTree}
    (h : SameCore t t') (h' : SameCore t' t'') : SameCore t t'' :=
  ⟨h'.pidMap.trans h.pidMap, fun n => (h'.worker n).trans (h.worker n)⟩

/-- So the rest of a worker may change. -/
theorem SameCore.modifyWorker (t : SupervisorTree) (id : NodeId)
    {f : WorkerNode → WorkerNode} (hf : ∀ wk, (f wk).core = wk.core) :
    SameCore t (t.modifyWorker id f) :=
  ⟨rfl, fun n => t.coreOf_modifyWorker id n hf⟩

/-- A strategy decision touches states and intensities only. -/
theorem SameCore.applyStrategy (t : SupervisorTree) (sup child : NodeId)
    (exit : ExitInfo) (now : Instant) : SameCore t (t.applyStrategy sup child exit now).2 :=
  applyStrategy_rel .refl .trans (fun t id _ => .modifyWorker t id fun _ => rfl)
    (fun t id _ => ⟨rfl, fun n => t.coreOf_modifySupervisor id n _⟩) t sup child exit now

end SupervisorTree

open SupervisorTree

-- ==== quiet changes

/-- The effects that say nothing about who owns which process. -/
def Effect.isQuiet : Effect → Bool
  | spawned _ _ | exited _ _ _ _ | frontier _ | launch _ _ | checked _ _
  | awaiting _ | joined _ => false
  | _ => true

/-- The effects of the manager's functions, as opposed to those of the
startup loop around them. -/
def Effect.ofMove : Effect → Bool
  | frontier _ | launch _ _ | checked _ _ | awaiting _
  | exited _ _ _ .startup => false
  | _ => true

/-- What a quiet change logs, a move may log. -/
theorem Effect.ofMove_of_isQuiet {e : Effect} (h : e.isQuiet = true) : e.ofMove = true := by
  cases e with
  | exited n p exit by_ => cases h
  | frontier e => cases h
  | launch n failed => cases h
  | checked n r => cases h
  | awaiting n => cases h
  | _ => rfl

/-- The exit that a wait status reports. -/
def WaitStatus.exitOf : WaitStatus → Option (Pid × ExitInfo)
  | exited pid code => some (pid, ⟨some code, none⟩)
  | signaled pid sig => some (pid, ⟨none, some sig⟩)
  | _ => none

/-- A write of the manager. -/
inductive WriteOp
  | idle
  | gaveUp (sup : NodeId)
  | started (id : NodeId) (p : Pid)
  | failed (id : NodeId)
  | stopped (id : NodeId)
  | exited (id : NodeId) (p : Pid) (exit : ExitInfo) (by_ : Reaper)
  | lost (p : Pid)
  | decided (sup child : NodeId) (exit : ExitInfo) (now : Instant)
  | added (svcDef : ServiceDef) (parentId : NodeId)

/-- The write that adds a node to the tree. -/
def WriteOp.adds : WriteOp → Bool
  | added _ _ => true
  | _ => false

/-- The writes of the manager's functions: not the worker that a reload
adds, nor the exit of a oneshot, which the startup loop books. -/
def WriteOp.ofFunction : WriteOp → Bool
  | added _ _ | exited _ _ _ .startup => false
  | _ => true

variable {op : WriteOp}

namespace World

/-- Nothing changes about who owns which process. -/
structure Quiet (w w' : World) : Prop where
  tree : SameCore w.tree w'.tree
  live : w'.live = w.live
  now : w.now ≤ w'.now
  waits : w'.env.waits <:+ w.env.waits
  log : ∃ es, w'.log = w.log ++ es ∧ ∀ e ∈ es, e.isQuiet = true

theorem Quiet.refl (w : World) : Quiet w w :=
  ⟨.refl w.tree, rfl, le_refl _, List.suffix_refl _, [], (List.append_nil _).symm, by simp⟩

theorem Quiet.trans (h : Quiet w w') (h' : Quiet w' w'') : Quiet w w'' := by
  obtain ⟨es, hes, hq⟩ := h.log
  obtain ⟨es', hes', hq'⟩ := h'.log
  refine ⟨h.tree.trans h'.tree, h'.live.trans h.live,
    le_trans h.now h'.now, h'.waits.trans h.waits, es ++ es', ?_, ?_⟩
  · rw [hes', hes, List.append_assoc]
  · intro e he
    rcases List.mem_append.1 he with he | he
    · exact hq e he
    · exact hq' e he

/-- A note that names no process is quiet. -/
theorem Quiet.note (w : World) {e : Effect} (he : e.isQuiet = true) : Quiet w (w.note e) :=
  ⟨.refl w.tree, rfl, le_refl _, List.suffix_refl _, [e], rfl, by
    intro e' he'
    rw [List.mem_singleton.1 he']
    exact he⟩

/-- So is a write to the tree that keeps the cores. -/
theorem Quiet.withTree (w : World) (h : SameCore w.tree t) : Quiet w { w with tree := t } :=
  ⟨h, rfl, le_refl _, List.suffix_refl _, [], (List.append_nil _).symm, by simp⟩

/-- Only the clock and the scripts move on. -/
structure Idle (w w' : World) : Prop where
  tree : w'.tree = w.tree
  live : w'.live = w.live
  now : w.now ≤ w'.now
  waits : w'.env.waits <:+ w.env.waits
  log : w'.log = w.log
  history : w'.history = w.history

theorem Idle.refl (w : World) : Idle w w :=
  ⟨rfl, rfl, le_refl _, List.suffix_refl _, rfl, rfl⟩

theorem Idle.trans (h : Idle w w') (h' : Idle w' w'') : Idle w w'' :=
  ⟨h'.tree.trans h.tree, h'.live.trans h.live, le_trans h.now h'.now,
    h'.waits.trans h.waits, h'.log.trans h.log, h'.history.trans h.history⟩

/-- Reading from the environment is a quiet change. -/
theorem Idle.quiet (h : Idle w w') : Quiet w w' :=
  ⟨by rw [h.tree]; exact .refl w.tree, h.live, h.now, h.waits,
    [], by rw [h.log, List.append_nil], by simp⟩

theorem Idle.sleep (w : World) (d : Duration) : Idle w (w.sleep d) :=
  ⟨rfl, rfl, Int.le_add_of_nonneg_right (Int.natCast_nonneg d), List.suffix_refl _, rfl, rfl⟩

theorem Idle.readClock (w : World) : Idle w w.readClock.2 := by
  unfold World.readClock
  cases w.env.jitter with
  | nil => exact .refl w
  | cons d rest =>
    exact ⟨rfl, rfl, Int.le_add_of_nonneg_right (Int.natCast_nonneg d),
      List.suffix_refl _, rfl, rfl⟩

theorem Idle.createPipe (w : World) : Idle w w.createPipe.2 := by
  unfold World.createPipe
  cases w.env.pipes with
  | nil => exact .refl w
  | cons fd rest => exact ⟨rfl, rfl, le_refl _, List.suffix_refl _, rfl, rfl⟩

-- ==== moves

/-- A fresh process `p` is registered for worker `id`, which held
`held` before. -/
structure Started (w w' : World) (id : NodeId) (held : Option Pid)
    (p : Pid) : Prop where
  worker : ∃ wk, w.tree.getWorker id = some wk ∧ wk.pid = held
  fresh : p ∉ w.live
  live : w'.live = insert p w.live
  pidMap : w'.tree.pidMap = w.tree.pidMap.insert p id
  core : ∀ n, w'.tree.coreOf n
    = if n = id then (w.tree.coreOf id).map fun wk => { wk with pid := some p }
      else w.tree.coreOf n
  now : w.now ≤ w'.now
  waits : w'.env.waits <:+ w.env.waits
  log : w'.log = w.log ++ [.start id held, .spawned id p]

/-- The reaped process `p` of worker `id` is unregistered. -/
structure Exited (w w' : World) (id : NodeId) (p : Pid) (exit : ExitInfo)
    (by_ : Reaper) : Prop where
  mem : p ∈ w.live
  owner : w.tree.pidMap.lookup p = some id
  live : w'.live = w.live.erase p
  pidMap : w'.tree.pidMap = w.tree.pidMap.erase p
  core : ∀ n, w'.tree.coreOf n
    = if n = id then (w.tree.coreOf id).map fun wk => { wk with pid := none }
      else w.tree.coreOf n
  now : w.now ≤ w'.now
  waits : w'.env.waits <:+ w.env.waits
  log : w'.log = w.log ++ [.exited id p exit by_]

/-- The reaped process `p` was registered for nobody. -/
structure Lost (w w' : World) (p : Pid) : Prop where
  mem : p ∈ w.live
  owner : w.tree.pidMap.lookup p = none
  tree : w'.tree = w.tree
  live : w'.live = w.live.erase p
  now : w.now ≤ w'.now
  waits : w'.env.waits <:+ w.env.waits
  log : w'.log = w.log

/-- A worker without a process joins the tree. -/
structure Added (w w' : World) (id : NodeId) (wk : WorkerNode) :
    Prop where
  absent : w.tree.getWorker id = none
  idle : wk.pid = none
  live : w'.live = w.live
  pidMap : w'.tree.pidMap = w.tree.pidMap
  core : ∀ n, w'.tree.coreOf n
    = if n = id then some wk.core else w.tree.coreOf n
  now : w.now ≤ w'.now
  waits : w'.env.waits <:+ w.env.waits
  log : w'.log = w.log ++ [.joined id]

/-- One change of what supervision is about: of the processes, of the workers,
or of neither. -/
inductive Move : World → World → Prop
  | quiet {w w' : World} : Quiet w w' → Move w w'
  | started {w w' : World} (id : NodeId) (held : Option Pid) (p : Pid) :
      Started w w' id held p → Move w w'
  | exited {w w' : World} (id : NodeId) (p : Pid) (exit : ExitInfo) :
      Exited w w' id p exit .supervisor → Move w w'
  | lost {w w' : World} (p : Pid) : Lost w w' p → Move w w'
  | added {w w' : World} (id : NodeId) (wk : WorkerNode) :
      Added w w' id wk → Move w w'

/-- What a function of the manager does, as a row of moves. -/
abbrev Moves : World → World → Prop := ReflTransGen Move

theorem Quiet.moves (h : Quiet w w') : Moves w w' :=
  .single (.quiet h)

/-- What every move has in common: time passes, the script is used up
and the log grows. -/
structure Later (w w' : World) : Prop where
  now : w.now ≤ w'.now
  waits : w'.env.waits <:+ w.env.waits
  log : w.log <+: w'.log

theorem Later.trans (h : Later w w') (h' : Later w' w'') : Later w w'' :=
  ⟨le_trans h.now h'.now, h'.waits.trans h.waits, h.log.trans h'.log⟩

/-- Time does not run backwards in a move. -/
theorem Move.later (h : Move w w') : Later w w' := by
  cases h with
  | quiet h =>
    obtain ⟨es, hes, -⟩ := h.log
    exact ⟨h.now, h.waits, es, hes.symm⟩
  | started id held p h => exact ⟨h.now, h.waits, _, h.log.symm⟩
  | exited id p exit h => exact ⟨h.now, h.waits, _, h.log.symm⟩
  | lost p h =>
    exact ⟨h.now, h.waits, by rw [h.log]⟩
  | added id wk h => exact ⟨h.now, h.waits, _, h.log.symm⟩

theorem Moves.later (h : Moves w w') : Later w w' := by
  induction h with
  | refl => exact ⟨le_refl _, List.suffix_refl _, List.prefix_refl _⟩
  | tail _ hm ih => exact ih.trans hm.later

/-- A move only adds to the log. -/
theorem Move.appends (h : Move w w') :
    ∃ es, w'.log = w.log ++ es ∧ ∀ e ∈ es, e.ofMove = true := by
  cases h with
  | quiet h =>
    obtain ⟨es, hes, hq⟩ := h.log
    exact ⟨es, hes, fun e he => Effect.ofMove_of_isQuiet (hq e he)⟩
  | started id held p h => exact ⟨_, h.log, by simp [Effect.ofMove]⟩
  | exited id p exit h => exact ⟨_, h.log, by simp [Effect.ofMove]⟩
  | lost p h => exact ⟨[], by rw [h.log, List.append_nil], by simp⟩
  | added id wk h => exact ⟨_, h.log, by simp [Effect.ofMove]⟩

-- ==== writes

/-- `w'` is `w` with another tree, other children, and a longer log. -/
structure Wrote (w w' : World) (tree : SupervisorTree) (live : Finset Pid)
    (log : List Effect) : Prop where
  tree : w'.tree = tree
  live : w'.live = live
  now : w.now ≤ w'.now
  waits : w'.env.waits <:+ w.env.waits
  log : w'.log = w.log ++ log

/-- One write, from the world before to the world after. -/
inductive Write : World → WriteOp → World → Prop
  | idle {w w' : World} : Wrote w w' w.tree w.live [] → Write w .idle w'
  | gaveUp {w w' : World} (sup : NodeId) :
      Wrote w w' w.tree w.live [.gaveUp sup] → Write w (.gaveUp sup) w'
  | started {w w' : World} (id : NodeId) (wk : WorkerNode) (p : Pid) :
      w.tree.getWorker id = some wk → p ∉ w.live →
      Wrote w w' ((w.tree.registerPid id p).modifyWorker id fun wk =>
          { wk with state := .running })
        (insert p w.live) [.start id wk.pid, .spawned id p] →
      Write w (.started id p) w'
  | failed {w w' : World} (id : NodeId) (wk : WorkerNode) :
      w.tree.getWorker id = some wk →
      Wrote w w' (w.tree.modifyWorker id fun wk =>
          { wk with state := .failed none none })
        w.live [.start id wk.pid, .spawnFailed id] →
      Write w (.failed id) w'
  | stopped {w w' : World} (id : NodeId) (wk : WorkerNode) (p : Pid) :
      w.tree.getWorker id = some wk → wk.pid = some p →
      Wrote w w' (w.tree.modifyWorker id fun wk =>
          { wk with state := .stopping none })
        w.live [.kill p .sigterm] →
      Write w (.stopped id) w'
  | exited {w w' : World} (id : NodeId) (p : Pid) (exit : ExitInfo) (by_ : Reaper) :
      p ∈ w.live → w.tree.pidMap.lookup p = some id →
      Wrote w w' ((w.tree.unregisterPid p).modifyWorker id fun wk =>
          { wk with pid := none, state := exit.state })
        (w.live.erase p) [.exited id p exit by_] →
      Write w (.exited id p exit by_) w'
  | lost {w w' : World} (p : Pid) :
      p ∈ w.live → w.tree.pidMap.lookup p = none →
      Wrote w w' w.tree (w.live.erase p) [] → Write w (.lost p) w'
  | decided {w w' : World} (sup child : NodeId) (exit : ExitInfo) (now : Instant) :
      w.tree.parentOf child = some sup →
      (∀ wk, w.tree.getWorker child = some wk → wk.pid = none) →
      w.now ≤ now → now ≤ w'.now →
      Wrote w w' (w.tree.applyStrategy sup child exit now).2 w.live
        (if w.restartDue sup child exit then [.recorded sup] else []) →
      Write w (.decided sup child exit now) w'
  | added {w w' : World} (svcDef : ServiceDef) (parentId : NodeId)
      (tree : SupervisorTree) : w.tree.addWorker svcDef parentId = .ok tree →
      Wrote w w' tree w.live [.joined svcDef.service.name] →
      Write w (.added svcDef parentId) w'

namespace Wrote

/-- A write that leaves the processes alone and keeps the cores. -/
theorem quiet {tree : SupervisorTree} {log : List Effect}
    (h : Wrote w w' tree w.live log) (htree : SameCore w.tree tree)
    (hlog : ∀ e ∈ log, e.isQuiet = true) : Quiet w w' :=
  ⟨h.tree ▸ htree, h.live, h.now, h.waits, log, h.log, hlog⟩

theorem started {wk : WorkerNode} (hwk : w.tree.getWorker id = some wk)
    (hp : p ∉ w.live) (h : Wrote w w' ((w.tree.registerPid id p).modifyWorker id fun wk =>
        { wk with state := .running })
      (insert p w.live) [.start id wk.pid, .spawned id p]) :
    Started w w' id wk.pid p := by
  refine ⟨⟨wk, hwk, rfl⟩, hp, h.live, ?_, ?_, h.now, h.waits, h.log⟩
  · rw [h.tree]
    rfl
  · intro n
    rw [h.tree, coreOf_modifyWorker]
    · unfold coreOf
      rw [getWorker_registerPid]
      by_cases hn : n = id
      · rw [if_pos hn, if_pos hn, Option.map_map, Option.map_map]
        rfl
      · rw [if_neg hn, if_neg hn]
    · intro wk
      rfl

/-- A write with the end of a worker's process. -/
theorem exited {exit : ExitInfo} {by_ : Reaper} (hp : p ∈ w.live)
    (hid : w.tree.pidMap.lookup p = some id)
    (h : Wrote w w' ((w.tree.unregisterPid p).modifyWorker id fun wk =>
        { wk with pid := none, state := exit.state })
      (w.live.erase p) [.exited id p exit by_]) :
    Exited w w' id p exit by_ := by
  refine ⟨hp, hid, h.live, ?_, ?_, h.now, h.waits, h.log⟩
  · rw [h.tree]
    rfl
  · intro n
    rw [h.tree]
    unfold coreOf
    rw [getWorker_modifyWorker]
    by_cases hn : n = id
    · rw [if_pos hn, if_pos hn, Option.map_map, Option.map_map]
      rfl
    · rw [if_neg hn, if_neg hn]
      rfl

theorem added {svcDef : ServiceDef} {parentId : NodeId} {tree : SupervisorTree}
    (h : Wrote w w' tree w.live [.joined svcDef.service.name])
    (hadd : w.tree.addWorker svcDef parentId = .ok tree) :
    ∃ i, Added w w' svcDef.service.name (newWorker svcDef parentId i) := by
  obtain ⟨parent, hi⟩ := addNode_inserted hadd
  refine ⟨parent.children.length, hi.getWorker_absent, rfl, h.live, ?_, ?_, h.now, h.waits, h.log⟩
  · rw [h.tree]
    exact hi.pidMap
  · intro n
    rw [h.tree]
    unfold coreOf
    rw [hi.getWorker]
    by_cases hn : n = svcDef.service.name
    · rw [if_pos hn, if_pos hn]
      rfl
    · rw [if_neg hn, if_neg hn]

end Wrote

/-- A write of a function is one move. -/
theorem Write.move (h : Write w op w') (hop : op.ofFunction = true) : Move w w' := by
  cases h with
  | idle hw => exact .quiet (hw.quiet (.refl _) (List.forall_mem_nil _))
  | gaveUp sup hw => exact .quiet (hw.quiet (.refl _) (by simp [Effect.isQuiet]))
  | started id wk p hwk hp hw => exact .started id _ p (hw.started hwk hp)
  | failed id wk hwk hw =>
    exact .quiet (hw.quiet (.modifyWorker _ id fun _ => rfl) (by simp [Effect.isQuiet]))
  | stopped id wk p hwk hpid hw =>
    exact .quiet (hw.quiet (.modifyWorker _ id fun _ => rfl) (by simp [Effect.isQuiet]))
  | exited id p exit by_ hp hid hw =>
    cases by_ with
    | supervisor => exact .exited id p exit (hw.exited hp hid)
    | startup => cases hop
  | lost p hp hid hw =>
    exact .lost p ⟨hp, hid, hw.tree, hw.live, hw.now, hw.waits, by rw [hw.log, List.append_nil]⟩
  | decided sup child exit now _ _ _ _ hw =>
    refine .quiet (hw.quiet (.applyStrategy _ sup child exit now) ?_)
    split <;> simp [Effect.isQuiet]
  | added svcDef parentId tree _ _ => cases hop

-- ==== starting and stopping

/-- A fork fails, or returns the id of a child that was not there. -/
theorem fork_cases (w : World) : (∃ v, w.fork = (none, v) ∧ Idle w v) ∨
    ∃ p v, w.fork = (some p, { v with live := insert p v.live })
      ∧ Idle w v ∧ p ∉ w.live := by
  unfold World.fork
  cases w.env.forks with
  | nil => exact .inl ⟨w, rfl, .refl w⟩
  | cons answer rest =>
    have hidle : Idle w { w with env := { w.env with forks := rest } } :=
      ⟨rfl, rfl, le_refl _, List.suffix_refl _, rfl, rfl⟩
    cases answer with
    | none => exact .inl ⟨_, rfl, hidle⟩
    | some p =>
      dsimp only
      split
      · exact .inl ⟨_, rfl, hidle⟩
      · next hp => exact .inr ⟨p, _, rfl, hidle, hp⟩

/-- What `spawn_service` does to the world: nothing when it fails, one
more child when it does not. -/
theorem spawnService_cases (w : World) (svcDef : ServiceDef) :
    (∃ e v, w.spawnService svcDef = (.error e, v) ∧ Idle w v) ∨ ∃ sp v, w.spawnService svcDef
        = (.ok sp, { v with live := insert sp.pid v.live })
      ∧ Idle w v ∧ sp.pid ∉ w.live := by
  unfold World.spawnService
  by_cases hexec : svcDef.service.exec = []
  · rw [if_pos hexec]
    exact .inl ⟨_, w, rfl, .refl w⟩
  rw [if_neg hexec]
  cases svcDef.service.exec.find? (fun a => !isCString a) with
  | some a => exact .inl ⟨_, w, rfl, .refl w⟩
  | none =>
    -- the world after the readiness pipe, whether or not there is one
    obtain ⟨fd, v, hv, hidle⟩ : ∃ fd v,
        (if svcDef.readiness.readinessType = .fd then w.createPipe
          else (none, w)) = (fd, v) ∧ Idle w v := by
      split
      · exact ⟨_, _, rfl, .createPipe w⟩
      · exact ⟨_, _, rfl, .refl w⟩
    rw [hv]
    dsimp only
    rcases v.fork_cases with ⟨u, hf, hu⟩ | ⟨p, u, hf, hu, hp⟩
    · rw [hf]
      exact .inl ⟨_, u, rfl, hidle.trans hu⟩
    · rw [hf]
      refine .inr ⟨⟨p, fd⟩, u, rfl, hidle.trans hu, ?_⟩
      rw [← hidle.live]
      exact hp

/-- A successful spawn inside `start_worker`. -/
theorem startWorker_spawned {wk : WorkerNode} {sp : SpawnedProcess}
    (hwk : w.tree.getWorker id = some wk) (hs : (w.note (.start id wk.pid)).spawnService wk.svcDef
      = (.ok sp, { v with live := insert sp.pid v.live }))
    (hv : Idle (w.note (.start id wk.pid)) v) :
    Wrote w (w.startWorker id).2 ((w.tree.registerPid id sp.pid).modifyWorker id fun wk =>
        { wk with state := .running })
      (insert sp.pid w.live) [.start id wk.pid, .spawned id sp.pid]
      ∧ (w.startWorker id).2.env = v.env := by
  unfold World.startWorker
  rw [hwk]
  dsimp only
  rw [hs]
  refine ⟨⟨?_, ?_, hv.now, hv.waits, ?_⟩, rfl⟩
  · rw [hv.tree]
    rfl
  · rw [hv.live]
    rfl
  · rw [hv.log]
    exact List.append_assoc _ _ _

/-- `start_worker` does nothing for an unknown name; otherwise it is one
write, by which it fails to spawn or registers a fresh process. -/
theorem startWorker_write (w : World) (id : NodeId) :
    (w.tree.getWorker id = none ∧ (w.startWorker id).2 = w ∧ w.spawnFails id = false)
      ∨ (Write w (.failed id) (w.startWorker id).2 ∧ w.spawnFails id = true)
      ∨ ∃ p, Write w (.started id p) (w.startWorker id).2 ∧ w.spawnFails id = false := by
  unfold World.spawnFails
  cases hwk : w.tree.getWorker id with
  | none =>
    left
    unfold World.startWorker
    rw [hwk]
    exact ⟨rfl, rfl, rfl⟩
  | some wk =>
    right
    dsimp only
    rcases spawnService_cases (w.note (.start id wk.pid)) wk.svcDef with
      ⟨e, v, hs, hv⟩ | ⟨sp, v, hs, hv, hfresh⟩
    · left
      unfold World.startWorker
      rw [hwk]
      dsimp only
      rw [hs]
      refine ⟨.failed id wk hwk ⟨?_, hv.live, hv.now, hv.waits, ?_⟩, rfl⟩
      · show v.tree.modifyWorker id _ = _
        rw [hv.tree]
        rfl
      · show v.log ++ [_] = _
        rw [hv.log]
        exact List.append_assoc _ _ _
    · right
      rw [hs]
      exact ⟨sp.pid, .started id wk sp.pid hwk hfresh (startWorker_spawned hwk hs hv).1, rfl⟩

/-- The same, in terms of who owns which process. -/
theorem startWorker_cases (w : World) (id : NodeId) :
    (w.tree.getWorker id = none ∧ (w.startWorker id).2 = w
      ∧ w.spawnFails id = false) ∨
    (∃ wk, w.tree.getWorker id = some wk ∧ Quiet w (w.startWorker id).2
      ∧ (w.startWorker id).2.log
          = w.log ++ [.start id wk.pid, .spawnFailed id]
      ∧ w.spawnFails id = true) ∨ ∃ held p, Started w (w.startWorker id).2 id held p
      ∧ w.spawnFails id = false := by
  rcases w.startWorker_write id with h | ⟨h, hfails⟩ | ⟨p, h, hfails⟩
  · exact .inl h
  · cases h with
    | failed _ wk hwk hw =>
      exact .inr (.inl ⟨wk, hwk, hw.quiet (.modifyWorker _ id fun _ => rfl)
        (by simp [Effect.isQuiet]), hw.log, hfails⟩)
  · cases h with
    | started _ wk _ hwk hp hw => exact .inr (.inr ⟨_, p, hw.started hwk hp, hfails⟩)

/-- `stop_worker` does nothing without a process, and is one write with
one. -/
theorem stopWorker_write (w : World) (id : NodeId) :
    w.stopWorker id = w ∨ Write w (.stopped id) (w.stopWorker id) := by
  unfold World.stopWorker
  cases hwk : w.tree.getWorker id with
  | none => exact .inl rfl
  | some wk =>
    dsimp only
    cases hpid : wk.pid with
    | none => exact .inl rfl
    | some p =>
      exact .inr (.stopped id wk p hwk hpid ⟨rfl, rfl, le_refl _, List.suffix_refl _, rfl⟩)

/-- A child is stopped only while it is active. -/
theorem stopChild_cases (w : World) (id : NodeId) :
    w.stopChild id = w ∨ w.stopChild id = w.stopWorker id := by
  unfold World.stopChild
  cases w.tree.getWorker id with
  | none => exact .inl rfl
  | some wk =>
    dsimp only
    split
    · exact .inr rfl
    · exact .inl rfl

/-- The signal to a child ends nothing by itself. -/
theorem Quiet.stopChild (w : World) (id : NodeId) : Quiet w (w.stopChild id) := by
  rcases w.stopChild_cases id with h | h
  · rw [h]
    exact .refl w
  rw [h]
  rcases w.stopWorker_write id with h | h
  · rw [h]
    exact .refl w
  · cases h with
    | stopped _ wk p _ _ hw =>
      exact hw.quiet (.modifyWorker _ id fun _ => rfl) (by simp [Effect.isQuiet])

theorem Quiet.stopChildren (w : World) (xs : List NodeId) : Quiet w
    (xs.foldl World.stopChild w) :=
  List.foldlRecOn xs _ (.refl w) fun v hv x _ => hv.trans (.stopChild v x)

-- ==== deciding

theorem readClock_now (w : World) : w.readClock.2.now = w.readClock.1 := by
  unfold World.readClock
  cases w.env.jitter with
  | nil => rfl
  | cons d rest => rfl

theorem applyStrategy_fst (w : World) (sup child : NodeId) (exit : ExitInfo) :
    (w.applyStrategy sup child exit).1
      = (w.tree.applyStrategy sup child exit w.readClock.1).1 := by
  have hclock := Idle.readClock w
  rw [← hclock.tree]
  rfl

/-- Asking a strategy reads the clock, writes the tree and is noted. -/
theorem applyStrategy_snd (w : World) (sup child : NodeId) (exit : ExitInfo) :
    (w.applyStrategy sup child exit).2 = { w.readClock.2 with
      tree := (w.tree.applyStrategy sup child exit w.readClock.1).2
      log := w.log ++ if w.restartDue sup child exit then [.recorded sup] else []
      history := (w.noteDecision (w.tree.decision sup child exit w.readClock.1)).history } := by
  have hclock := Idle.readClock w
  unfold World.applyStrategy World.noteDecision
  rw [← hclock.tree, ← hclock.log, ← hclock.history]
  dsimp only
  cases w.restartDue sup child exit with
  | true => rfl
  | false =>
    rw [if_neg Bool.false_ne_true, if_neg Bool.false_ne_true, List.append_nil]

/-- What asking a strategy writes: the tree it answers with, and a record if
the supervisor counted a restart. -/
theorem applyStrategy_wrote (w : World) (sup child : NodeId) (exit : ExitInfo) :
    Wrote w (w.applyStrategy sup child exit).2
      (w.tree.applyStrategy sup child exit w.readClock.1).2 w.live
      (if w.restartDue sup child exit then [.recorded sup] else []) := by
  have hclock := Idle.readClock w
  rw [applyStrategy_snd]
  exact ⟨rfl, hclock.live, hclock.now, hclock.waits, rfl⟩

/-- A decision writes only restart windows and worker states. -/
theorem Quiet.applyStrategy (w : World) (sup child : NodeId)
    (exit : ExitInfo) : Quiet w (w.applyStrategy sup child exit).2 := by
  refine (applyStrategy_wrote w sup child exit).quiet (.applyStrategy _ sup child exit _) ?_
  split <;> simp [Effect.isQuiet]

theorem Quiet.escalateFailure (w : World) (sup : NodeId) : Quiet w (w.escalateFailure sup).2 := by
  unfold World.escalateFailure
  cases w.tree.parentOf sup with
  | none => exact .refl w
  | some parentId => exact .applyStrategy w parentId sup ⟨none, none⟩

/-- A supervisor asked about a child of its own, which holds no process. -/
theorem Write.applyStrategy {child : NodeId} (hparent : w.tree.parentOf child = some sup)
    (hpid : ∀ wk, w.tree.getWorker child = some wk → wk.pid = none) (exit : ExitInfo) :
    Write w (.decided sup child exit w.readClock.1) (w.applyStrategy sup child exit).2 := by
  have hwrote := applyStrategy_wrote w sup child exit
  have hnow : (w.applyStrategy sup child exit).2.now = w.readClock.1 := by
    rw [← readClock_now, applyStrategy_snd]
  exact .decided sup child exit _ hparent hpid (hnow ▸ hwrote.now) hnow.ge hwrote

-- ==== reaping

/-- The kernel hands over the exit of child `p`; nothing else has
happened yet. -/
structure Reaped (w w' : World) (p : Pid) : Prop where
  mem : p ∈ w.live
  tree : w'.tree = w.tree
  live : w'.live = w.live.erase p
  now : w.now ≤ w'.now
  waits : w'.env.waits.length < w.env.waits.length
  waits_suffix : w'.env.waits <:+ w.env.waits
  log : w'.log = w.log
  history : w'.history = w.history

/-- `waitpid` reaps a child, or it only uses up an answer. -/
theorem waitpid_cases (w : World) :
    (∃ st p exit v, w.waitpid = (st, v) ∧ st.exitOf = some (p, exit)
      ∧ Reaped w v p) ∨ ∃ st v, w.waitpid = (st, v) ∧ st.exitOf = none ∧ Idle w v
      ∧ (v.env.waits.length < w.env.waits.length
          ∨ w.env.waits = [] ∧ st = .stillAlive ∧ v = w) := by
  unfold World.waitpid
  cases hwaits : w.env.waits with
  | nil => exact .inr ⟨_, w, rfl, rfl, .refl w, .inr ⟨rfl, rfl, rfl⟩⟩
  | cons status rest =>
    have hsuffix : rest <:+ w.env.waits := by
      rw [hwaits]
      exact List.suffix_cons status rest
    have hidle : Idle w { w with env := { w.env with waits := rest } } :=
      ⟨rfl, rfl, le_refl _, hsuffix, rfl, rfl⟩
    have hlen : rest.length < (status :: rest).length := Nat.lt_succ_self _
    cases status with
    | exited p code =>
      dsimp only
      split
      · next hp =>
        refine .inl ⟨_, p, _, _, rfl, rfl, hp, rfl, rfl, le_refl _, ?_, hsuffix, rfl, rfl⟩
        rw [hwaits]
        exact hlen
      · exact .inr ⟨_, _, rfl, rfl, hidle, .inl hlen⟩
    | signaled p sig =>
      dsimp only
      split
      · next hp =>
        refine .inl ⟨_, p, _, _, rfl, rfl, hp, rfl, rfl, le_refl _, ?_, hsuffix, rfl, rfl⟩
        rw [hwaits]
        exact hlen
      · exact .inr ⟨_, _, rfl, rfl, hidle, .inl hlen⟩
    | stillAlive => exact .inr ⟨_, _, rfl, rfl, hidle, .inl hlen⟩
    | echild => exact .inr ⟨_, _, rfl, rfl, hidle, .inl hlen⟩
    | eintr => exact .inr ⟨_, _, rfl, rfl, hidle, .inl hlen⟩
    | other => exact .inr ⟨_, _, rfl, rfl, hidle, .inl hlen⟩

/-- The bookkeeping of an exit, right after the kernel reported it. -/
theorem exitWorker_wrote (h : Reaped w v p) (id : NodeId) (exit : ExitInfo) (by_ : Reaper) :
    Wrote w (v.exitWorker id p exit by_) ((w.tree.unregisterPid p).modifyWorker id fun wk =>
        { wk with pid := none, state := exit.state })
      (w.live.erase p) [.exited id p exit by_] := by
  refine ⟨?_, h.live, h.now, h.waits_suffix, ?_⟩
  · show (v.tree.unregisterPid p).modifyWorker id _ = _
    rw [h.tree]
  · show v.log ++ [_] = _
    rw [h.log]

/-- A reaped process of a worker is taken off the books. -/
theorem exitWorker_exited (h : Reaped w v p) (hid : w.tree.pidMap.lookup p = some id)
    (exit : ExitInfo) (by_ : Reaper) : Exited w (v.exitWorker id p exit by_) id p exit by_ :=
  (exitWorker_wrote h id exit by_).exited h.mem hid

theorem Write.exitWorker (h : Reaped w v p) (hid : w.tree.pidMap.lookup p = some id)
    (exit : ExitInfo) (by_ : Reaper) :
    Write w (.exited id p exit by_) (v.exitWorker id p exit by_) :=
  .exited id p exit by_ h.mem hid (exitWorker_wrote h id exit by_)

/-- One round of `reap_and_handle_exits` that reaps a child. -/
theorem reapAndHandleExits_exit {st : WaitStatus} (hw : w.waitpid = (st, v))
    (hst : st.exitOf = some (p, exit)) (fuel : Nat) : reapAndHandleExits (fuel + 1) w
      = reapAndHandleExits fuel (World.handleChildExit (reapAndHandleExits fuel) v p exit) := by
  rw [World.reapAndHandleExits, hw]
  cases st with
  | exited q code =>
    obtain ⟨rfl, rfl⟩ := Prod.mk.inj (Option.some.inj hst)
    rfl
  | signaled q sig =>
    obtain ⟨rfl, rfl⟩ := Prod.mk.inj (Option.some.inj hst)
    rfl
  | _ => cases hst

/-- One round that reaps nothing: the loop ends, or was interrupted
and goes on. -/
theorem reapAndHandleExits_idle {st : WaitStatus}
    (hw : w.waitpid = (st, v)) (hst : st.exitOf = none) (fuel : Nat) :
    reapAndHandleExits (fuel + 1) w
      = if st = .eintr then reapAndHandleExits fuel v else v := by
  rw [World.reapAndHandleExits, hw]
  cases st with
  | exited q code => cases hst
  | signaled q sig => cases hst
  | _ => rfl

-- ==== what follows an exit

theorem applyStrategy_tree (w : World) (sup child : NodeId) (exit : ExitInfo) :
    (w.applyStrategy sup child exit).2.tree
      = (w.tree.applyStrategy sup child exit w.readClock.1).2 :=
  (applyStrategy_wrote w sup child exit).tree

/-- Only a supervisor gives up, and it is still one afterwards. -/
theorem getSupervisor_of_failed {child : NodeId}
    (h : (w.applyStrategy sup child exit).1.supervisorFailed = true) :
    ∃ s, (w.applyStrategy sup child exit).2.tree.getSupervisor sup = some s := by
  rw [applyStrategy_fst] at h
  obtain ⟨s, hs, hdue, -⟩ := applyStrategy_failed h
  rw [applyStrategy_tree]
  exact ⟨_, (applyStrategy_due hs hdue).trans (if_pos rfl)⟩

/-- Escalating the failure of a supervisor comes to nothing: its parent
has an empty action for it, and the tree stays as it is. -/
theorem escalateFailure_inert {s : SupervisorNode} (hs : w.tree.getSupervisor sup = some s) :
    (∀ q action, (w.escalateFailure sup).1 = some (q, action) → action = {})
      ∧ (w.escalateFailure sup).2.tree = w.tree := by
  unfold World.escalateFailure
  cases w.tree.parentOf sup with
  | none =>
    refine ⟨?_, rfl⟩
    intro q action h
    cases h
  | some parentId =>
    dsimp only
    rw [applyStrategy_fst, applyStrategy_tree, applyStrategy_supervisor hs]
    refine ⟨?_, rfl⟩
    intro q action h
    cases h
    rfl

theorem superviseExit_none (reap : World → World) (hparent : w.tree.parentOf id = none) :
    World.superviseExit reap w id exit = w := by
  unfold World.superviseExit
  rw [hparent]

/-- Without a failure `handle_child_exit` executes the strategy's action. -/
theorem superviseExit_kept (reap : World → World) (hparent : w.tree.parentOf id = some sup)
    (hkeep : (w.applyStrategy sup id exit).1.supervisorFailed = false) :
    World.superviseExit reap w id exit = World.executeStrategyAction reap
      (w.applyStrategy sup id exit).2 (w.applyStrategy sup id exit).1 := by
  unfold World.superviseExit
  rw [hparent]
  dsimp only
  rw [hkeep]
  rfl

/-- The failure of a supervisor is escalated, and nothing is executed: its own
stop list is dropped, and the action of its parent is empty. -/
theorem superviseExit_failed (reap : World → World) (hparent : w.tree.parentOf id = some sup)
    (hfail : (w.applyStrategy sup id exit).1.supervisorFailed = true) :
    World.superviseExit reap w id exit
      = (((w.applyStrategy sup id exit).2.note (.gaveUp sup)).escalateFailure sup).2 := by
  obtain ⟨s, hs⟩ := getSupervisor_of_failed hfail
  obtain ⟨hempty, -⟩ := escalateFailure_inert
    (w := (w.applyStrategy sup id exit).2.note (.gaveUp sup)) hs
  unfold World.superviseExit
  rw [hparent]
  dsimp only
  rw [hfail, if_pos rfl]
  split
  · next q action v heq =>
    rw [heq] at hempty ⊢
    rw [hempty q action rfl]
    rfl
  · next v heq => rw [heq]

/-- The worker of an exit that has been booked holds no process. -/
theorem pid_exitWorker {by_ : Reaper} {wk : WorkerNode}
    (h : (w.exitWorker id p exit by_).tree.getWorker id = some wk) : wk.pid = none := by
  change ((w.tree.unregisterPid p).modifyWorker id _).getWorker id = some wk at h
  rw [getWorker_modifyWorker, if_pos rfl] at h
  obtain ⟨wk', -, rfl⟩ := Option.map_eq_some_iff.1 h
  rfl

-- ==== the functions, for any relation

/-- What the manager does between two system calls, apart from what follows
the exit of a child. -/
structure Between (R : World → World → Prop) : Prop where
  refl : ∀ w, R w w
  trans : ∀ {w w' w''}, R w w' → R w' w'' → R w w''
  idle : ∀ {w w'}, Idle w w' → R w w'
  startWorker : ∀ w id, R w (w.startWorker id).2
  stopWorker : ∀ w id, R w (w.stopWorker id)
  exited : ∀ {w v : World} {p : Pid} {id : NodeId} (exit : ExitInfo), Reaped w v p →
    w.tree.pidMap.lookup p = some id → R w (v.exitWorker id p exit .supervisor)
  lost : ∀ {w v : World} {p : Pid}, Reaped w v p → w.tree.pidMap.lookup p = none → R w v

/-- A relation between worlds that holds across everything the manager
does between two system calls, and so across its functions. -/
structure Closed (R : World → World → Prop) : Prop extends Between R where
  /-- A supervisor is asked about a child without a process, and its action
  is executed. -/
  supervised : ∀ {reap : World → World}, (∀ v, R v (reap v)) →
    ∀ (w : World) (id : NodeId) (exit : ExitInfo),
    (∀ wk, w.tree.getWorker id = some wk → wk.pid = none) → R w (superviseExit reap w id exit)

/-- A relation between worlds that holds where a worker joins the tree. -/
def Adds (R : World → World → Prop) : Prop :=
  ∀ {w : World} {svcDef : ServiceDef} {parentId : NodeId} {tree : SupervisorTree},
    w.tree.addWorker svcDef parentId = .ok tree →
    R w ({ w with tree := tree }.note (.joined svcDef.service.name))

/-- The same, where the decision and every restart can be taken for
themselves: the relation does not ask which restart follows from which
decision. -/
structure Steps (R : World → World → Prop) : Prop extends Between R where
  decided : ∀ {w : World} {sup child : NodeId} (exit : ExitInfo),
    w.tree.parentOf child = some sup →
    (∀ wk, w.tree.getWorker child = some wk → wk.pid = none) →
    R w (w.applyStrategy sup child exit).2
  gaveUp : ∀ w sup, R w (w.note (.gaveUp sup))
  noted : ∀ w id decision, R w (w.noteRestart id decision)

namespace Between

variable {R : World → World → Prop} (hR : Between R)

include hR

theorem foldl {f : World → α → World} (hf : ∀ w a, R w (f w a)) (xs : List α) (w : World) :
    R w (xs.foldl f w) :=
  List.foldlRecOn xs f (hR.refl w) fun v hv x _ => hR.trans hv (hf v x)

theorem stopChild (w : World) (id : NodeId) : R w (w.stopChild id) := by
  rcases w.stopChild_cases id with h | h
  · rw [h]
    exact hR.refl w
  · rw [h]
    exact hR.stopWorker w id

/-- The stops of an action and the reaping behind them. -/
theorem stops (hreap : ∀ v, R v (reap v)) (w : World)
    (toStop : List NodeId) : R w (if toStop = [] then toStop.foldl World.stopChild w
      else reap ((toStop.foldl World.stopChild w).sleep (fromMillis 100))) := by
  have hstop := hR.foldl hR.stopChild toStop w
  split
  · exact hstop
  · exact hR.trans hstop (hR.trans (hR.idle (Idle.sleep _ _)) (hreap _))

end Between

namespace Steps

variable {R : World → World → Prop} (hR : Steps R)

include hR

/-- A restart is a pause and a spawn. -/
theorem restartChild (decision : Nat) (w : World) (id : NodeId) :
    R w (w.restartChild decision id) := by
  unfold World.restartChild
  cases w.tree.getWorker id with
  | none => exact hR.startWorker w id
  | some wk =>
    exact hR.trans (hR.idle (Idle.sleep w _))
      (hR.trans (hR.noted _ id decision) (hR.startWorker _ id))

section

variable (hreap : ∀ v, R v (reap v))

include hreap

/-- The stops, the grace period with its reaping, the restarts. -/
theorem executeStrategyAction (w : World) (action : StrategyAction) :
    R w (executeStrategyAction reap w action) := by
  exact hR.trans (hR.stops hreap w action.toStop)
    (hR.foldl (hR.restartChild w.lastDecision) action.toStart _)

omit hreap in
theorem escalateFailure {s : SupervisorNode}
    (hs : w.tree.getSupervisor sup = some s) : R w (w.escalateFailure sup).2 := by
  unfold World.escalateFailure
  cases hparent : w.tree.parentOf sup with
  | none => exact hR.refl w
  | some parentId =>
    refine hR.decided ⟨none, none⟩ hparent ?_
    intro wk hwk
    rw [getWorker_of_supervisor hs] at hwk
    cases hwk

/-- What follows the strategy's decision on an exit. -/
theorem afterStrategy (hsup : w.tree.parentOf id = some sup) (exit : ExitInfo) :
    R (w.applyStrategy sup id exit).2 (superviseExit reap w id exit) := by
  cases hfail : (w.applyStrategy sup id exit).1.supervisorFailed with
  | true =>
    obtain ⟨s, hs⟩ := getSupervisor_of_failed hfail
    rw [superviseExit_failed reap hsup hfail]
    exact hR.trans (hR.gaveUp _ sup) (hR.escalateFailure hs)
  | false =>
    rw [superviseExit_kept reap hsup hfail]
    exact hR.executeStrategyAction hreap _ _

theorem superviseExit (w : World) (id : NodeId) (exit : ExitInfo)
    (hpid : ∀ wk, w.tree.getWorker id = some wk → wk.pid = none) :
    R w (superviseExit reap w id exit) := by
  cases hsup : w.tree.parentOf id with
  | none =>
    rw [superviseExit_none reap hsup]
    exact hR.refl w
  | some sup =>
    exact hR.trans (hR.decided exit hsup hpid) (hR.afterStrategy hreap hsup exit)

end

theorem closed : Closed R :=
  ⟨hR.toBetween, fun hreap => hR.superviseExit hreap⟩

omit hR in
/-- It is enough to look at the single writes. -/
theorem of_writes (refl : ∀ w, R w w) (trans : ∀ {w w' w''}, R w w' → R w' w'' → R w w'')
    (hwrite : ∀ {w op w'}, Write w op w' → op.ofFunction = true → R w w') : Steps R where
  refl := refl
  trans := trans
  idle := fun h => hwrite (.idle
    ⟨h.tree, h.live, h.now, h.waits, by rw [h.log, List.append_nil]⟩) rfl
  startWorker := by
    intro w id
    rcases w.startWorker_write id with ⟨-, heq, -⟩ | ⟨h, -⟩ | ⟨p, h, -⟩
    · rw [heq]
      exact refl w
    · exact hwrite h rfl
    · exact hwrite h rfl
  stopWorker := by
    intro w id
    rcases w.stopWorker_write id with heq | h
    · rw [heq]
      exact refl w
    · exact hwrite h rfl
  exited := fun exit h hid => hwrite (.exitWorker h hid exit .supervisor) rfl
  lost := fun {_ _ p} h hid => hwrite (.lost p h.mem hid
    ⟨h.tree, h.live, h.now, h.waits_suffix, by rw [h.log, List.append_nil]⟩) rfl
  decided := fun exit hparent hpid => hwrite (.applyStrategy hparent hpid exit) rfl
  gaveUp := fun _ sup =>
    hwrite (.gaveUp sup ⟨rfl, rfl, le_refl _, List.suffix_refl _, rfl⟩) rfl
  noted := fun _ _ _ => hwrite (.idle
    ⟨rfl, rfl, le_refl _, List.suffix_refl _, (List.append_nil _).symm⟩) rfl

end Steps

namespace Closed

variable {R : World → World → Prop} (hR : Closed R)

include hR

/-- A stranger's exit is lost; a worker's goes to its supervisor. -/
theorem handleChildExit (hreap : ∀ v, R v (reap v))
    (h : Reaped w v p) (exit : ExitInfo) : R w (handleChildExit reap v p exit) := by
  unfold World.handleChildExit workerForPid
  rw [h.tree]
  cases hid : w.tree.pidMap.lookup p with
  | none => exact hR.lost h hid
  | some id =>
    exact hR.trans (hR.exited exit h hid)
      (hR.supervised hreap _ id exit fun wk hwk => pid_exitWorker hwk)

/-- The reaping, by induction on the fuel. -/
theorem reapAndHandleExits (fuel : Nat) : ∀ w, R w (reapAndHandleExits fuel w) := by
  induction fuel with
  | zero => exact hR.refl
  | succ fuel ih =>
    intro w
    rcases w.waitpid_cases with ⟨st, p, exit, v, hw, hst, hv⟩ |
      ⟨st, v, hw, hst, hv, -⟩
    · rw [reapAndHandleExits_exit hw hst]
      exact hR.trans (hR.handleChildExit ih hv exit) (ih _)
    · rw [reapAndHandleExits_idle hw hst]
      split
      · exact hR.trans (hR.idle hv) (ih v)
      · exact hR.idle hv

theorem reapChildren (w : World) : R w w.reapChildren :=
  hR.reapAndHandleExits _ w

theorem restartPoll (name : NodeId) (pid : Pid) (deadline : Instant)
    (w : World) : R w (restartPoll name pid deadline w).2 := by
  have hreap := hR.reapChildren w
  unfold World.restartPoll
  dsimp only
  split
  · exact hR.trans hreap (hR.idle (Idle.readClock _))
  · exact hreap

theorem awaitExit (w : World) (name : NodeId) (pid : Pid) : R w (w.awaitExit name pid) := by
  unfold World.awaitExit
  refine hR.trans (hR.idle (Idle.readClock w)) ?_
  apply poll_rel
  · exact hR.refl
  · exact hR.trans
  · exact hR.restartPoll name pid _
  · exact fun v => hR.idle (Idle.sleep v _)

theorem restartService (w : World) (name : NodeId) : R w (w.restartService name) := by
  unfold World.restartService
  have hstop := hR.stopWorker w name
  cases (w.tree.getWorker name).bind WorkerNode.pid with
  | none => exact hR.trans hstop (hR.startWorker _ name)
  | some pid =>
    exact hR.trans hstop (hR.trans (hR.awaitExit _ name pid) (hR.startWorker _ name))

section

-- a reload adds workers as well
variable (hadded : Adds R)

include hadded

theorem reloadAdd (existing : Finset NodeId) (w : World) (svcDef : ServiceDef) :
    R w (reloadAdd existing w svcDef) := by
  unfold World.reloadAdd
  split
  · exact hR.refl w
  · dsimp only
    split
    · exact hR.refl w
    · next t ht => exact hR.trans (hadded ht) (hR.startWorker _ _)

/-- A reload adds workers and nothing else. -/
theorem reloadServices (w : World) : R w w.reloadServices := by
  unfold World.reloadServices
  cases w.env.disk with
  | none => exact hR.refl w
  | some newDefs =>
    refine hR.trans
      (hR.foldl (hR.reloadAdd hadded w.tree.allWorkers) newDefs w) ?_
    apply hR.foldl
    intro v name
    split
    · exact hR.refl v
    · exact hR.stopWorker v name

/-- Every request of the control socket that does not end the manager. -/
theorem dispatch {a : ControlAction} (h : w.dispatchControlAction a = some w') : R w w' := by
  cases a with
  | startService name =>
    cases h
    exact hR.startWorker w name
  | stopService name =>
    cases h
    exact hR.stopWorker w name
  | restartService name =>
    cases h
    exact hR.restartService w name
  | reload =>
    cases h
    exact hR.reloadServices hadded w
  | shutdown => cases h

end

end Closed

-- ==== the functions as moves

theorem Moves.steps : Steps Moves :=
  .of_writes (fun _ => .refl) ReflTransGen.trans fun h hop => .single (h.move hop)

theorem Moves.closed : Closed Moves := Moves.steps.closed

theorem Moves.added {svcDef : ServiceDef} {parentId : NodeId}
    {tree : SupervisorTree} (hadd : w.tree.addWorker svcDef parentId = .ok tree) :
    Moves w ({ w with tree := tree }.note (.joined svcDef.service.name)) := by
  have hwrote : Wrote w ({ w with tree := tree }.note (.joined svcDef.service.name)) tree
      w.live [.joined svcDef.service.name] := ⟨rfl, rfl, le_refl _, List.suffix_refl _, rfl⟩
  obtain ⟨i, h⟩ := hwrote.added hadd
  exact .single (.added _ _ h)

/-- Handling an exit uses up the script like any other function. -/
theorem handleChildExit_waits
    (hreap : ∀ v, Moves v (reap v)) (w : World) (p : Pid) (exit : ExitInfo) :
    (World.handleChildExit reap w p exit).env.waits <:+ w.env.waits := by
  unfold World.handleChildExit
  cases w.tree.workerForPid p with
  | none => exact List.suffix_refl _
  | some id =>
    exact (Moves.closed.supervised hreap _ id exit fun wk hwk => pid_exitWorker hwk).later.waits

-- ==== the fuel never ends the reaping

/-- A strategy action reaps at most once, from a world that comes
later. -/
theorem executeStrategyAction_congr {reap' : World → World}
    {fuel : Nat} (h : ∀ v, v.env.waits.length ≤ fuel → reap v = reap' v)
    (hw : w.env.waits.length ≤ fuel) (action : StrategyAction) :
    World.executeStrategyAction reap w action
      = World.executeStrategyAction reap' w action := by
  unfold World.executeStrategyAction
  have hstop := (Quiet.stopChildren w action.toStop).waits.length_le
  dsimp only
  split
  · rfl
  · rw [h]
    show (action.toStop.foldl World.stopChild w).env.waits.length ≤ fuel
    omega

/-- An exit depends on the reaping behind it only at the waits that are left. -/
theorem handleChildExit_congr {reap' : World → World} {fuel : Nat}
    (h : ∀ v, v.env.waits.length ≤ fuel → reap v = reap' v)
    (hw : w.env.waits.length ≤ fuel) (p : Pid) (exit : ExitInfo) :
    World.handleChildExit reap w p exit
      = World.handleChildExit reap' w p exit := by
  unfold World.handleChildExit
  cases w.tree.workerForPid p with
  | none => rfl
  | some id =>
    dsimp only
    have hv : (w.exitWorker id p exit .supervisor).env.waits.length ≤ fuel :=
      hw
    revert hv
    generalize w.exitWorker id p exit .supervisor = v
    intro hv
    cases hsup : v.tree.parentOf id with
    | none => rw [superviseExit_none reap hsup, superviseExit_none reap' hsup]
    | some sup =>
      cases hfail : (v.applyStrategy sup id exit).1.supervisorFailed with
      | true => rw [superviseExit_failed reap hsup hfail, superviseExit_failed reap' hsup hfail]
      | false =>
        rw [superviseExit_kept reap hsup hfail, superviseExit_kept reap' hsup hfail]
        have happly := (Quiet.applyStrategy v sup id exit).waits.length_le
        exact executeStrategyAction_congr h (le_trans happly hv) _

/-- Fuel for the whole script is enough: more of it changes nothing. -/
theorem reapAndHandleExits_fuel (fuel : Nat) :
    ∀ w : World, w.env.waits.length ≤ fuel →
      reapAndHandleExits (fuel + 1) w = reapAndHandleExits fuel w := by
  induction fuel with
  | zero =>
    intro w hw
    have hnil : w.env.waits = [] :=
      List.eq_nil_of_length_eq_zero (Nat.le_zero.1 hw)
    rcases w.waitpid_cases with ⟨st, p, exit, v, -, -, hv⟩ |
      ⟨st, v, hwait, hst, -, hend⟩
    · have := hv.waits
      omega
    · rcases hend with hlt | ⟨-, rfl, rfl⟩
      · omega
      · rw [reapAndHandleExits_idle hwait hst]
        rfl
  | succ fuel ih =>
    intro w hw
    rcases w.waitpid_cases with ⟨st, p, exit, v, hwait, hst, hv⟩ |
      ⟨st, v, hwait, hst, -, hend⟩
    · have hlen := hv.waits
      rw [reapAndHandleExits_exit hwait hst, reapAndHandleExits_exit hwait hst,
        handleChildExit_congr ih (by omega)]
      apply ih
      have hrest := (handleChildExit_waits
        (Moves.closed.reapAndHandleExits fuel) v p exit).length_le
      omega
    · rw [reapAndHandleExits_idle hwait hst, reapAndHandleExits_idle hwait hst]
      split
      · rcases hend with hlt | ⟨-, rfl, -⟩
        · exact ih v (by omega)
        · next heq => cases heq
      · rfl

-- ==== polls with a deadline end there

/-- A pause of 50 ms brings the deadline closer by a round. -/
private theorem rounds_fall {a b deadline : Int} (hab : a ≤ b) (hb : b < deadline) :
    ((deadline - (b + (50000000 : Nat))).toNat + 49999999) / 50000000
      < ((deadline - a).toNat + 49999999) / 50000000 := by
  omega

/-- The rounds that fit before a deadline. -/
private theorem rounds_start {a deadline : Int} {d : Nat} (h : deadline ≤ a + d) :
    ((deadline - a).toNat + 49999999) / 50000000 < d / 50000000 + 2 := by
  omega

/-- A poll that is silent only before its deadline ends by itself: the
rounds are never what stops it. -/
theorem poll_deadline {body : World → Option α × World} (hbody : ∀ w w', body w = (none, w') →
      w.now ≤ w'.now ∧ w'.now < deadline)
    {d : Duration} (hw : deadline ≤ w.now + d) :
    (poll body pollPause (pollRounds d) w).1.isSome = true := by
  apply poll_isSome
    (fun w => ((deadline - w.now).toNat + 49999999) / 50000000)
  · intro w w' h
    obtain ⟨hle, hlt⟩ := hbody w w' h
    exact rounds_fall hle hlt
  · exact rounds_start hw

/-- A poll that reads the clock and stays silent is before its
deadline. -/
theorem silent_before_deadline {a : α} (h : (if w.readClock.1 ≥ deadline then some a else none,
    w.readClock.2) = (none, v)) : v.now < deadline := by
  obtain ⟨hnone, rfl⟩ := Prod.mk.inj h
  rw [readClock_now]
  by_contra hge
  rw [if_pos (not_lt.1 hge)] at hnone
  cases hnone

/-- A round of the wait that answers: the process is no longer the worker's,
or the deadline has come. -/
theorem restartPoll_answer {name : NodeId} {pid : Pid}
    (h : World.restartPoll name pid deadline w = (some (), v)) :
    v.stillRunning name pid = false ∨ deadline ≤ v.now := by
  unfold World.restartPoll at h
  dsimp only at h
  split at h
  · obtain ⟨hanswer, rfl⟩ := Prod.mk.inj h
    right
    rw [readClock_now]
    by_contra hlt
    rw [if_neg hlt] at hanswer
    cases hanswer
  · next hrunning =>
    obtain ⟨-, rfl⟩ := Prod.mk.inj h
    exact .inl (Bool.eq_false_iff.2 hrunning)

/-- The wait of `RestartService` always ends by itself: the old process
is gone or five seconds have passed. -/
theorem awaitExit_ends (w : World) (name : NodeId) (pid : Pid) :
    let deadline := w.readClock.1 + fromSecs 5
    (poll (World.restartPoll name pid deadline) pollPause (pollRounds (fromSecs 5))
        w.readClock.2).1 = some ()
      ∧ ((w.awaitExit name pid).stillRunning name pid = false
        ∨ deadline ≤ (w.awaitExit name pid).now) := by
  intro deadline
  have hends : (poll (World.restartPoll name pid deadline) pollPause (pollRounds (fromSecs 5))
      w.readClock.2).1.isSome = true := by
    apply poll_deadline
    · intro v v' h
      have hmoves := Moves.closed.restartPoll name pid deadline v
      rw [h] at hmoves
      refine ⟨hmoves.later.now, ?_⟩
      unfold World.restartPoll at h
      dsimp only at h
      split at h
      · exact silent_before_deadline h
      · exact absurd (Prod.mk.inj h).1 (by simp)
    · rw [readClock_now]
  obtain ⟨answer, hanswer⟩ := Option.isSome_iff_exists.1 hends
  obtain ⟨v, hv⟩ := poll_answer _ _ (Prod.ext hanswer rfl)
  exact ⟨hanswer, restartPoll_answer hv⟩

end World

end Dynamod.Svmgr
