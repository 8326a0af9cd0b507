/-
State and process of a worker. `WorkerNode` has both, in two fields
that are written by different statements: `register_pid` and the exit
bookkeeping write `pid`, and nearly every function writes `state`.

# The invariant

`InStep` says that a worker holds a process exactly when its state is
starting, running or stopping, on top of the bookkeeping of `Tracked`.
A worker that counts as stopped then has no live process.

# The writes that break it

Two, and both are in the source: `start_worker` called for a worker
that holds a process, and a supervisor that gives up while children of
it run. Every run of turns without these (`Orderly`) keeps the
invariant.
-/
import Dynamod.Svmgr.Proofs.Build
import Dynamod.Svmgr.Proofs.Tracking
import Dynamod.Svmgr.Proofs.Writes

namespace Dynamod.Svmgr

open Lib SupervisorTree

variable {w w' : World} {t : SupervisorTree} {o : Option WriteOp}

/-- Starting, running or stopping. -/
def ServiceState.isActive : ServiceState → Bool
  | .starting | .running | .stopping _ => true
  | _ => false

theorem ServiceState.isActive_eq (state : ServiceState) : state.isActive = !state.isStopped := by
  cases state <;> rfl

theorem ExitInfo.isActive_state (exit : ExitInfo) : exit.state.isActive = false := by
  unfold ExitInfo.state
  split
  · rfl
  · rfl

theorem ServiceState.isRunning_of_isActive {state : ServiceState}
    (h : state.isActive = false) : state.isRunning = false := by
  cases state <;> first | rfl | cases h

namespace World

/-- A worker holds a process if and only if it is in an active state. -/
def StatesAgree (t : SupervisorTree) : Prop :=
  ∀ n wk, t.getWorker n = some wk → (wk.pid.isSome = true ↔ wk.state.isActive = true)

structure InStep (w : World) : Prop where
  tracked : Tracked w
  states : StatesAgree w.tree

/-- A worker that counts as stopped has no live process. -/
theorem InStep.no_process (h : InStep w) {n : NodeId} {wk : WorkerNode}
    (hwk : w.tree.getWorker n = some wk) (hstopped : wk.state.isStopped = true) :
    ∀ p ∈ w.live, w.tree.pidMap.lookup p ≠ some n := by
  intro p _ hp
  have hpid : w.pidOf n = some p := (h.tracked.pid_iff n p).2 hp
  unfold pidOf at hpid
  rw [hwk] at hpid
  have hactive : wk.state.isActive = true := by
    apply (h.states n wk hwk).1
    rw [show wk.pid = some p from hpid]
    rfl
  rw [ServiceState.isActive_eq, hstopped] at hactive
  cases hactive

-- ==== the guard

/-- The worker `id`, if there is one, holds no process. -/
def Unheld (t : SupervisorTree) (id : NodeId) : Prop :=
  ∀ wk, t.getWorker id = some wk → wk.pid = none

/-- The supervisor `sup`, asked about an exit of `child`, has no restart
left and gives up. -/
def Exhausted (t : SupervisorTree) (sup child : NodeId) (exit : ExitInfo) (now : Instant) : Prop :=
  ∃ s, t.getSupervisor sup = some s ∧ t.shouldRestartChild child exit = true
    ∧ (s.intensity.recordRestartAt now).1 = true

/-- A worker is started only while it holds no process, and a supervisor
gives up only while none of its children does. -/
def Orderly (w : World) : Option WriteOp → Prop
  | some (.started id _) | some (.failed id) => Unheld w.tree id
  | some (.decided sup child exit now) => Exhausted w.tree sup child exit now →
      ∀ c ∈ w.tree.childrenOf sup, Unheld w.tree c
  | _ => True

/-- A turn that meets the guard. -/
def OrderlyTurn (w : World) (o : Option WriteOp) (w' : World) : Prop :=
  Turn w o w' ∧ Orderly w o

-- ==== the states

/-- Every worker of the tree satisfies `P`. -/
def EachWorker (P : WorkerNode → Prop) (t : SupervisorTree) : Prop :=
  ∀ n wk, t.getWorker n = some wk → P wk

namespace EachWorker

variable {P : WorkerNode → Prop} {t' : SupervisorTree}

theorem modifyWorker (h : EachWorker P t) (id : NodeId) {f : WorkerNode → WorkerNode}
    (hf : ∀ wk, t.getWorker id = some wk → P (f wk)) : EachWorker P (t.modifyWorker id f) := by
  intro n wk hwk
  rw [getWorker_modifyWorker] at hwk
  split at hwk
  · obtain ⟨wk', hwk', rfl⟩ := Option.map_eq_some_iff.1 hwk
    exact hf wk' hwk'
  · exact h n wk hwk

theorem modifySupervisor (h : EachWorker P t) (id : NodeId)
    (f : SupervisorNode → SupervisorNode) : EachWorker P (t.modifySupervisor id f) := by
  intro n wk hwk
  rw [getWorker_modifySupervisor] at hwk
  exact h n wk hwk

/-- A new node whose worker, if it is one, satisfies `P`. -/
theorem inserted {name parentId : NodeId} {parent : SupervisorNode} {node : TreeNode}
    (h : EachWorker P t) (hi : Inserted t t' name parentId parent node)
    (hnode : ∀ wk, node.worker? = some wk → P wk) : EachWorker P t' := by
  intro n wk hwk
  rw [hi.getWorker] at hwk
  split at hwk
  · exact hnode wk hwk
  · exact h n wk hwk

theorem addWorker {svcDef : ServiceDef} {parentId : NodeId} (h : EachWorker P t)
    (hadd : t.addWorker svcDef parentId = .ok t')
    (hnew : ∀ i, P (newWorker svcDef parentId i)) : EachWorker P t' := by
  obtain ⟨parent, hi⟩ := addNode_inserted hadd
  apply h.inserted hi
  intro wk hwk
  cases hwk
  exact hnew _

theorem buildTree (hnew : ∀ d parentId i, P (newWorker d parentId i))
    (supervisors : List SupervisorDef) (services : List ServiceDef) :
    EachWorker P (buildTree supervisors services) := by
  apply buildTree_insertions
  · intro n wk hwk
    rw [getWorker_eq, rootTree, lookup_new] at hwk
    split at hwk
    · cases hwk
    · cases hwk
  · exact fun t f _ ht => ht.modifySupervisor "root" f
  · intro t t' d parent hi ht
    apply ht.inserted hi
    intro wk hwk
    cases hwk
  · intro t t' d _ parentId parent i hi ht
    apply ht.inserted hi
    intro wk hwk
    cases hwk
    exact hnew d parentId i

/-- What the writes ask of a property of workers. The state of a worker whose
process is left alone may become inactive where `Q` holds. -/
structure Writable (P Q : WorkerNode → Prop) : Prop where
  running : ∀ (wk : WorkerNode) p, P { wk with pid := some p, state := .running }
  stopping : ∀ (wk : WorkerNode) p, wk.pid = some p → P { wk with state := .stopping none }
  exited : ∀ (wk : WorkerNode) (exit : ExitInfo), P { wk with pid := none, state := exit.state }
  new : ∀ d parentId i, P (newWorker d parentId i)
  marked : ∀ (wk : WorkerNode) state, Q wk → state.isActive = false → P { wk with state := state }
  idle : ∀ wk, wk.pid = none → Q wk
  kept : ∀ (wk : WorkerNode) state, Q wk → Q { wk with state := state }

/-- `Q` holds of the workers that a write marks as failed or abandoned. -/
def Spares (Q : WorkerNode → Prop) (w : World) : Option WriteOp → Prop
  | some (.failed id) => ∀ wk, w.tree.getWorker id = some wk → Q wk
  | some (.decided sup child exit now) => Exhausted w.tree sup child exit now →
      ∀ c ∈ w.tree.childrenOf sup, ∀ wk, w.tree.getWorker c = some wk → Q wk
  | _ => True

section

variable {Q : WorkerNode → Prop} (hP : Writable P Q) (h : EachWorker P t)

include hP h

theorem mark {id : NodeId} (hid : ∀ wk, t.getWorker id = some wk → Q wk)
    {state : ServiceState} (hstate : state.isActive = false) :
    EachWorker P (t.modifyWorker id fun wk => { wk with state := state }) :=
  h.modifyWorker id fun wk hwk => hP.marked wk state (hid wk hwk) hstate

theorem abandon {children : List NodeId}
    (hQ : ∀ c ∈ children, ∀ wk, t.getWorker c = some wk → Q wk) :
    EachWorker P (t.abandon children) := by
  refine (List.foldlRecOn children _ (motive := fun t : SupervisorTree => EachWorker P t
    ∧ ∀ c ∈ children, ∀ wk, t.getWorker c = some wk → Q wk) ⟨h, hQ⟩ ?_).1
  intro t ht c hc
  refine ⟨ht.1.mark hP (ht.2 c hc) rfl, fun d hd wk hwk => ?_⟩
  -- marking a child leaves the others, and `Q` of itself
  rw [getWorker_modifyWorker] at hwk
  split at hwk
  · obtain ⟨wk', hwk', rfl⟩ := Option.map_eq_some_iff.1 hwk
    exact hP.kept wk' _ (ht.2 c hc wk' hwk')
  · exact ht.2 d hd wk hwk

theorem applyStrategy {sup child : NodeId} {exit : ExitInfo} {now : Instant}
    (hchild : Unheld t child) (hgive : Exhausted t sup child exit now →
      ∀ c ∈ t.childrenOf sup, ∀ wk, t.getWorker c = some wk → Q wk) :
    EachWorker P (t.applyStrategy sup child exit now).2 := by
  unfold SupervisorTree.applyStrategy
  cases hs : t.getSupervisor sup with
  | none => exact h
  | some s =>
    dsimp only
    have hrecord : EachWorker P (t.modifySupervisor sup fun s' =>
        { s' with intensity := (s.intensity.recordRestartAt now).2 }) :=
      h.modifySupervisor sup _
    split
    · next hdue =>
      split
      · next hexceeded =>
        apply hrecord.abandon hP
        intro c hc wk hwk
        rw [getWorker_modifySupervisor] at hwk
        rw [← childrenOf_supervisor hs] at hc
        exact hgive ⟨s, hs, hdue, hexceeded⟩ c hc wk hwk
      · exact hrecord
    · exact h.mark hP (fun wk hwk => hP.idle wk (hchild wk hwk)) exit.isActive_state

omit h in
/-- What one turn does to the workers, for any such property. -/
theorem turn (h : EachWorker P w.tree) (hturn : Turn w o w') (ho : Spares Q w o) :
    EachWorker P w'.tree := by
  cases hturn with
  | aside htree => exact htree ▸ h
  | write hwrite =>
    cases hwrite with
    | idle hw => exact hw.tree ▸ h
    | gaveUp sup hw => exact hw.tree ▸ h
    | started id wk p hwk hp hw =>
      have hregistered : EachWorker P (w.tree.registerPid id p) :=
        h.modifyWorker id fun wk _ => hP.running wk p
      rw [hw.tree]
      apply hregistered.modifyWorker
      intro wk' hwk'
      rw [getWorker_registerPid, if_pos rfl] at hwk'
      obtain ⟨wk, -, rfl⟩ := Option.map_eq_some_iff.1 hwk'
      exact hP.running wk p
    | failed id wk hwk hw =>
      rw [hw.tree]
      exact h.mark hP ho rfl
    | stopped id wk p hwk hpid hw =>
      rw [hw.tree]
      apply h.modifyWorker
      intro wk' hwk'
      rw [hwk] at hwk'
      obtain rfl := Option.some.inj hwk'
      exact hP.stopping wk p hpid
    | exited id p exit by_ hp hid hw =>
      rw [hw.tree]
      exact modifyWorker (t := w.tree.unregisterPid p) h id fun wk _ => hP.exited wk exit
    | lost p hp hnone hw => exact hw.tree ▸ h
    | decided sup child exit now _ hchild _ _ hw =>
      rw [hw.tree]
      exact h.applyStrategy hP hchild ho
    | added svcDef parentId tree hadd hw =>
      rw [hw.tree]
      exact h.addWorker hadd fun i => hP.new svcDef parentId i

end

end EachWorker

-- ==== the turns

theorem Tracked.turn (h : Tracked w) (hturn : Turn w o w') (ho : Orderly w o) : Tracked w' := by
  have hquiet : Quiet w w' → Tracked w' := fun hq =>
    h.congr hq.live hq.tree.pidMap hq.pidOf
  cases hturn with
  | aside htree hlive _ =>
    refine h.congr hlive (by rw [htree]) fun n => ?_
    unfold pidOf
    rw [htree]
  | write hwrite =>
    cases hwrite with
    | idle hw => exact hquiet (hw.quiet (.refl _) (by simp))
    | gaveUp sup hw => exact hquiet (hw.quiet (.refl _) (by simp [Effect.isQuiet]))
    | started id wk p hwk hp hw =>
      have hstarted := hw.started hwk hp
      rw [ho wk hwk] at hstarted
      exact h.started hstarted
    | failed id wk hwk hw =>
      exact hquiet (hw.quiet (.modifyWorker _ id fun _ => rfl) (by simp [Effect.isQuiet]))
    | stopped id wk p hwk hpid hw =>
      exact hquiet (hw.quiet (.modifyWorker _ id fun _ => rfl) (by simp [Effect.isQuiet]))
    | exited id p exit by_ hp hid hw => exact h.exited (hw.exited hp hid)
    | lost p hp hnone hw =>
      -- every live process is in the pid map
      obtain ⟨n, hn⟩ := (h.live_iff p).1 hp
      rw [hnone] at hn
      cases hn
    | decided sup child exit now _ _ _ _ hw =>
      refine hquiet (hw.quiet (.applyStrategy _ sup child exit now) ?_)
      split
      · simp [Effect.isQuiet]
      · simp
    | added svcDef parentId tree hadd hw =>
      obtain ⟨i, hadded⟩ := hw.added hadd
      exact h.congr hadded.live hadded.pidMap hadded.pidOf

theorem StatesAgree.writable : EachWorker.Writable
    (fun wk => wk.pid.isSome = true ↔ wk.state.isActive = true) (fun wk => wk.pid = none) where
  running := by simp [ServiceState.isActive]
  stopping := by simp +contextual [ServiceState.isActive]
  exited := by simp [ExitInfo.isActive_state]
  new := by simp [newWorker, ServiceState.isActive]
  marked := by simp +contextual
  idle := fun _ h => h
  kept := fun _ _ h => h

/-- Under the guard an inactive state is written only where no process is
held, and that is all the agreement asks. -/
theorem StatesAgree.turn (h : StatesAgree w.tree)
    (hturn : Turn w o w') (ho : Orderly w o) : StatesAgree w'.tree := by
  refine EachWorker.turn StatesAgree.writable h hturn ?_
  cases o with
  | none => exact True.intro
  | some op => cases op <;> first | exact ho | exact True.intro

-- ==== the half that always holds

/-- A worker that is starting or running holds a process. This half of
the invariant needs no guard. -/
def RunsHeld (t : SupervisorTree) : Prop :=
  EachWorker (fun wk => wk.state.isRunning = true → wk.pid.isSome = true) t

/-- Any state but those two may be written. -/
theorem RunsHeld.writable : EachWorker.Writable
    (fun wk => wk.state.isRunning = true → wk.pid.isSome = true) (fun _ => True) where
  running := fun _ _ _ => rfl
  stopping := fun _ _ _ h => by cases h
  exited := fun _ exit h =>
    absurd h (by simp [ServiceState.isRunning_of_isActive exit.isActive_state])
  new := fun _ _ _ h => by cases h
  marked := fun _ _ _ hstate h => absurd h (by simp [ServiceState.isRunning_of_isActive hstate])
  idle := fun _ _ => True.intro
  kept := fun _ _ _ => True.intro

theorem RunsHeld.turn (h : RunsHeld w.tree) (hturn : Turn w o w') : RunsHeld w'.tree := by
  refine EachWorker.turn RunsHeld.writable h hturn ?_
  cases o with
  | none => exact True.intro
  | some op => cases op <;> simp [EachWorker.Spares]

end World

-- ==== whole runs

open World

theorem boot_inStep (supervisors : List SupervisorDef) (services : List ServiceDef) :
    InStep { tree := buildTree supervisors services } := by
  refine ⟨boot_tracked supervisors services, EachWorker.buildTree ?_ supervisors services⟩
  intro d parentId i
  simp [newWorker, ServiceState.isActive]

/-- In every state of a run in which workers are started only without a
process and supervisors give up only without running children, a worker
holds a process if and only if it is starting, running or stopping, and
one that is stopped, failed or abandoned has no live process. -/
theorem orderly_run_in_step {supervisors : List SupervisorDef}
    {services : List ServiceDef} {os : List (Option WriteOp)} {w : World}
    (h : Path OrderlyTurn { tree := buildTree supervisors services } os w) :
    ∀ n wk, w.tree.getWorker n = some wk →
      (wk.pid.isSome = true ↔ wk.state.isActive = true) ∧
      (wk.state.isStopped = true → ∀ p ∈ w.live, w.tree.pidMap.lookup p ≠ some n) := by
  have hinv : InStep w := h.invariant (boot_inStep supervisors services)
    fun _ _ _ hi hturn =>
      ⟨hi.tracked.turn hturn.1 hturn.2, hi.states.turn hturn.1 hturn.2⟩
  intro n wk hwk
  exact ⟨hinv.states n wk hwk, hinv.no_process hwk⟩

/-- A service is started, stopped and reaped: three orderly turns. -/
theorem solo_stopped_in_step : let boot : World := { tree := buildTree [] [soloDef] }
    ∃ w, Path OrderlyTurn boot [some (.started "a" 100), some (.stopped "a"),
        some (.exited "a" 100 ⟨some 0, none⟩ .supervisor)] w
      ∧ w.tree.getWorker "a" = some (newWorker soloDef "root" 0)
      ∧ ∀ n wk, w.tree.getWorker n = some wk →
        (wk.pid.isSome = true ↔ wk.state.isActive = true) ∧
        (wk.state.isStopped = true →
          ∀ p ∈ w.live, w.tree.pidMap.lookup p ≠ some n) := by
  intro boot
  let wk := newWorker soloDef "root" 0
  have hidle : boot.tree.getWorker "a" = some wk := by decide
  let started : World := { boot with
    tree := (boot.tree.registerPid "a" 100).modifyWorker "a" fun wk =>
      { wk with state := .running }
    live := {100}
    log := [.start "a" none, .spawned "a" 100] }
  have hstart : OrderlyTurn boot (some (.started "a" 100)) started := by
    refine ⟨.write (.started "a" wk 100 hidle (Finset.notMem_empty _)
      ⟨rfl, rfl, le_refl _, List.suffix_refl _, rfl⟩), ?_⟩
    intro wk' hwk'
    rw [hidle] at hwk'
    obtain rfl := Option.some.inj hwk'
    rfl
  have hrunning : started.tree.getWorker "a"
      = some { wk with pid := some 100, state := .running } := by decide
  let stopping : World := { started with
    tree := started.tree.modifyWorker "a" fun wk => { wk with state := .stopping none }
    log := started.log ++ [.kill 100 .sigterm] }
  have hstop : OrderlyTurn started (some (.stopped "a")) stopping :=
    ⟨.write (.stopped "a" _ 100 hrunning rfl
      ⟨rfl, rfl, le_refl _, List.suffix_refl _, rfl⟩), True.intro⟩
  let reaped : World := { stopping with
    tree := (stopping.tree.unregisterPid 100).modifyWorker "a" fun wk =>
      { wk with pid := none, state := .stopped }
    live := ∅
    log := stopping.log ++ [.exited "a" 100 ⟨some 0, none⟩ .supervisor] }
  have hexit : OrderlyTurn stopping
      (some (.exited "a" 100 ⟨some 0, none⟩ .supervisor)) reaped :=
    ⟨.write (.exited "a" 100 _ _ (Finset.mem_singleton_self _) (by decide)
      ⟨rfl, by decide, le_refl _, List.suffix_refl _, rfl⟩), True.intro⟩
  have hrun := ((Path.nil.snoc hstart).snoc hstop).snoc hexit
  exact ⟨reaped, hrun, by decide, orderly_run_in_step hrun⟩

-- ==== the two writes

/-- The manager after a `StartService` request for the running service
`a`, when no process can be forked. -/
def soloRefused : World :=
  (({ soloRunning with
      world := (soloRunning.withEnv {}).world.reapChildren }.withEnv
    {}).world.startWorker "a").2

/-- A supervisor that tolerates no restart, with two services. -/
def brittleDef : SupervisorDef :=
  { supervisor := { name := "brittle" }
    restart := { maxRestarts := 0 } }

def brittlePair : List ServiceDef :=
  ["x", "y"].map fun name =>
    { service := { name, exec := ["/bin/" ++ name], supervisor := "brittle" } }

/-- Its manager after `x` has crashed. -/
def brittleCrashed : World :=
  ((Manager.oneBatch [brittleDef] brittlePair [some 100, some 101]).withEnv
    { waits := [.exited 100 1] }).world.reapChildren

/-- A failed start leaves a running process with a failed worker, and a
supervisor that gives up leaves one with an abandoned worker. -/
theorem state_and_pid_disagree :
    (∃ m wk, Manager.Reachable [] [soloDef] m ∧ m.state.world = soloRefused
      ∧ soloRefused.tree.getWorker "a" = some wk ∧ wk.state = .failed none none
      ∧ wk.pid = some 100 ∧ 100 ∈ soloRefused.live)
    ∧ ∃ m wk, Manager.Reachable [brittleDef] brittlePair m
      ∧ m.state.world = brittleCrashed
      ∧ brittleCrashed.tree.getWorker "y" = some wk ∧ wk.state = .abandoned
      ∧ wk.pid = some 101 ∧ 101 ∈ brittleCrashed.live := by
  constructor
  · have hreap := solo_reachable.step (.mainReap _ {})
    have hlisten := hreap.step (.mainListen _ [.startService "a"])
    have hact := hlisten.step
      (.act _ {} false (.startService "a") [] soloRefused rfl)
    exact ⟨_, { newWorker soloDef "root" 0 with
      pid := some 100, state := .failed none none }, hact, rfl, by decide, rfl, rfl,
      by decide⟩
  · have hacyclic : (DependencyGraph.build brittlePair).Acyclic :=
      DependencyGraph.acyclic_of_rank (fun _ => 0) (by decide)
    have hdone : (Manager.oneBatch [brittleDef] brittlePair [some 100, some 101]).done := by
      unfold Startup.done
      decide
    have hmain := (Manager.oneBatch_reachable hacyclic hdone).step
      (.mainReap _ { waits := [.exited 100 1] })
    have hy : brittleCrashed.tree.getWorker "y"
        = (brittlePair[1]?).map fun d =>
          { newWorker d "brittle" 1 with pid := some 101, state := .abandoned } := by
      decide
    exact ⟨_, _, hmain, rfl, hy, rfl, rfl, by decide⟩

end Dynamod.Svmgr
