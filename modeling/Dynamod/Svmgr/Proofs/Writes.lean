/-
Runs of the manager as rows of writes.

Every function of the manager but a reload is a row of writes that add
nothing (`Rewrites`), and every state of a run of the manager is reached by
writes and by steps that leave the tree and the processes alone
(`Reachable.turns`).

How a run is put together from what the manager does between two system
calls is again proved once, for any relation (`Throughout`).
-/
import Dynamod.Lib.Runs
import Dynamod.Svmgr.Proofs.Shape
import Dynamod.Svmgr.Proofs.StartupMoves

namespace Dynamod.Svmgr

open Lib Relation SupervisorTree

variable {w w' : World} {p : Pid} {op : WriteOp} {m : Manager}

namespace World

/-- The effects between two worlds of a run. -/
def effects (w w' : World) : List Effect := w'.log.drop w.log.length

theorem effects_eq {es : List Effect} (h : w'.log = w.log ++ es) : effects w w' = es := by
  unfold effects
  rw [h, List.drop_left]

/-- Every other write keeps the shape of the tree. -/
theorem Write.sameShape (h : Write w op w')
    (hop : op.adds = false) : SameShape w.tree w'.tree := by
  cases h with
  | idle hw => exact hw.tree ▸ .refl _
  | gaveUp sup hw => exact hw.tree ▸ .refl _
  | started id wk p _ _ hw =>
    rw [hw.tree]
    exact (SameShape.registerPid _ id p).trans (.modifyWorker _ id fun _ => ⟨rfl, rfl⟩)
  | failed id wk _ hw =>
    rw [hw.tree]
    exact .modifyWorker _ id fun _ => ⟨rfl, rfl⟩
  | stopped id wk p _ _ hw =>
    rw [hw.tree]
    exact .modifyWorker _ id fun _ => ⟨rfl, rfl⟩
  | exited id p exit by_ _ _ hw =>
    rw [hw.tree]
    have hfreed : SameShape w.tree (w.tree.unregisterPid p) := ⟨rfl, fun _ => rfl⟩
    exact hfreed.trans (.modifyWorker _ id fun _ => ⟨rfl, rfl⟩)
  | lost p _ _ hw => exact hw.tree ▸ .refl _
  | decided sup child exit now _ _ _ _ hw =>
    rw [hw.tree]
    exact .applyStrategy _ sup child exit now
  | added svcDef parentId tree _ _ => cases hop

/-- A write keeps the shape of the tree, or adds a worker. -/
theorem Write.shape (h : Write w op w') : SameShape w.tree w'.tree
    ∨ ∃ svcDef parentId, w.tree.addWorker svcDef parentId = .ok w'.tree := by
  cases hop : op.adds with
  | false => exact Or.inl (h.sameShape hop)
  | true =>
    cases h with
    | added svcDef parentId tree hadd hw =>
      right
      rw [hw.tree]
      exact ⟨svcDef, parentId, hadd⟩
    | _ => cases hop

/-- A row of writes that add no node. -/
def Rewrites (w w' : World) : Prop :=
  ∃ ops, Path (fun v op v' => Write v op v' ∧ op.adds = false) w ops w'

namespace Rewrites

theorem refl (w : World) : Rewrites w w := ⟨[], .nil⟩

theorem trans {w'' : World} (h : Rewrites w w') (h' : Rewrites w' w'') : Rewrites w w'' := by
  obtain ⟨ops, hops⟩ := h
  obtain ⟨ops', hops'⟩ := h'
  exact ⟨ops ++ ops', hops.append hops'⟩

theorem single (h : Write w op w') (hop : op.adds = false) : Rewrites w w' :=
  ⟨[op], Path.nil.snoc ⟨h, hop⟩⟩

theorem sameShape (h : Rewrites w w') : SameShape w.tree w'.tree := by
  obtain ⟨ops, hops⟩ := h
  exact hops.invariant (I := fun v => SameShape w.tree v.tree) (.refl _)
    fun _ _ _ hv hop => hv.trans (hop.1.sameShape hop.2)

end Rewrites

theorem Rewrites.steps : Steps Rewrites :=
  .of_writes .refl .trans fun {_ op _} h hop => .single h (by cases op <;> first | rfl | cases hop)

theorem Rewrites.closed : Closed Rewrites := Rewrites.steps.closed

-- ==== turns of a whole run

/-- A step of a run of the manager: a write, or bookkeeping of the
startup loop and new answers of the environment, which leave the tree
and the processes alone. -/
inductive Turn : World → Option WriteOp → World → Prop
  | write {w w' : World} {op : WriteOp} : Write w op w' → Turn w (some op) w'
  | aside {w w' : World} : w'.tree = w.tree → w'.live = w.live → w.now ≤ w'.now →
      Turn w none w'

/-- Time does not run backwards. -/
theorem Turn.now_le {o : Option WriteOp} (h : Turn w o w') : w.now ≤ w'.now := by
  cases h with
  | aside _ _ hnow => exact hnow
  | write hwrite => cases hwrite <;> exact Wrote.now ‹_›

def Turns (w w' : World) : Prop := ∃ os, Path Turn w os w'

namespace Turns

theorem refl (w : World) : Turns w w := ⟨[], .nil⟩

theorem trans {w'' : World} (h : Turns w w') (h' : Turns w' w'') : Turns w w'' := by
  obtain ⟨os, hos⟩ := h
  obtain ⟨os', hos'⟩ := h'
  exact ⟨os ++ os', hos.append hos'⟩

theorem aside (htree : w'.tree = w.tree) (hlive : w'.live = w.live)
    (hnow : w.now ≤ w'.now) : Turns w w' :=
  ⟨[none], Path.nil.snoc (.aside htree hlive hnow)⟩

theorem note (w : World) (e : Effect) : Turns w (w.note e) :=
  .aside rfl rfl (le_refl _)

end Turns

theorem Write.turns (h : Write w op w') : Turns w w' :=
  ⟨[some op], Path.nil.snoc (.write h)⟩

/-- Every write is a turn. -/
theorem Turns.steps : Steps Turns :=
  .of_writes .refl .trans fun h _ => h.turns

-- ==== runs, for any relation

/-- A relation that holds across every step of a run: across the functions of
the manager, a reload, the exits of oneshots, and what leaves the tree and the
processes alone, the bookkeeping of the startup loop and new answers of the
environment. -/
structure Throughout (R : World → World → Prop) : Prop extends Closed R where
  added : Adds R
  settled : ∀ {w v : World} {p : Pid} {id : NodeId} (exit : ExitInfo), Reaped w v p →
    w.tree.pidMap.lookup p = some id → R w (v.exitWorker id p exit .startup)
  note : ∀ (w : World) (e : Effect), R w (w.note e)
  env : ∀ (w : World) (env : Env), R w { w with env := env }

namespace Throughout

variable {R : World → World → Prop} (hR : Throughout R)

include hR

/-- Every state of a run before the manager ends. -/
theorem reachable {supervisors : List SupervisorDef} {services : List ServiceDef}
    (h : Manager.Reachable supervisors services m) (hexit : m.phase ≠ .exited) :
    R { tree := buildTree supervisors services } m.state.world :=
  h.invariant (I := fun a => R _ a.1.world) hR.toClosed hR.added (fun _ => hR.refl _)
    (fun _ _ _ hm ha => hR.trans ha
      (hm.world_rel hR.toClosed id hR.trans hR.settled hR.note hR.env)) hexit

end Throughout

/-- So is the bookkeeping of the startup loop. -/
theorem Turns.throughout : Throughout Turns where
  toClosed := Turns.steps.closed
  added := fun {_ svcDef parentId tree} hadd => Write.turns
    (.added svcDef parentId tree hadd ⟨rfl, rfl, le_refl _, List.suffix_refl _, rfl⟩)
  settled := fun exit h hid => (Write.exitWorker h hid exit .startup).turns
  note := Turns.note
  env := fun _ _ => .aside rfl rfl (le_refl _)

end World

open World

/-- Every state of a run before the manager ends is reached by turns. -/
theorem Manager.Reachable.turns {supervisors : List SupervisorDef}
    {services : List ServiceDef}
    (h : Manager.Reachable supervisors services m) (hexit : m.phase ≠ .exited) :
    Turns { tree := buildTree supervisors services } m.state.world :=
  Turns.throughout.reachable h hexit

end Dynamod.Svmgr
