/-
Trees made by `add_supervisor` and `add_worker`, called in any order
with any names and parents. Each call keeps the shape of the tree if it
succeeds and changes nothing if it fails, so the shape holds after
every row of calls, and with it `format_tree` returns.
-/
import Dynamod.Svmgr.Insert
import Dynamod.Svmgr.Proofs.Control
import Dynamod.Svmgr.Proofs.Shape

namespace Dynamod.Svmgr

open Lib Relation SupervisorTree

variable {t : SupervisorTree}

-- ==== one call

theorem wellFormed_addSupervisor {t' : SupervisorTree} {name : String}
    {parentId : NodeId} {strategy : RestartStrategy}
    {intensity : RestartIntensity} (h : t.WellFormed)
    (hadd : t.addSupervisor name parentId strategy intensity = .ok t') : t'.WellFormed := by
  obtain ⟨parent, hi⟩ := addNode_inserted hadd
  refine h.insert hi rfl rfl ?_
  intro w hw
  cases hw

theorem wellFormed_addWorker {t' : SupervisorTree} {svcDef : ServiceDef}
    {parentId : NodeId} (h : t.WellFormed)
    (hadd : t.addWorker svcDef parentId = .ok t') : t'.WellFormed := by
  obtain ⟨parent, hi⟩ := addNode_inserted hadd
  refine h.insert hi rfl rfl ?_
  intro w hw
  obtain rfl := TreeNode.worker.inj hw
  rfl

/-- What a call leaves: the tree the function makes of it, or the tree
as it was. -/
theorem AddCall.left_cases (t : SupervisorTree) (call : AddCall) :
    call.apply t = .ok (call.exec.left t) ∨ call.exec.left t = t := by
  unfold TreeM.left
  rw [AddCall.run_exec]
  cases call.apply t with
  | ok t' => exact Or.inl rfl
  | error e => exact Or.inr rfl

/-- A call that returns an error leaves the tree as it was. -/
theorem AddCall.left_of_error {call : AddCall} {e : TreeError}
    (h : call.exec.error? t = some e) : call.exec.left t = t := by
  unfold TreeM.error? at h
  unfold TreeM.left
  rw [AddCall.run_exec] at h ⊢
  cases happly : call.apply t with
  | ok t' =>
    rw [happly] at h
    cases h
  | error e => rfl

-- ==== all calls

theorem lookup_new (rootName : String) (strategy : RestartStrategy)
    (intensity : RestartIntensity) (n : NodeId) :
    (SupervisorTree.new rootName strategy intensity).nodes.lookup n
      = if n = rootName then
          some (.supervisor { name := rootName, strategy, intensity, parent := none })
        else none := by
  by_cases hn : n = rootName
  · rw [if_pos hn, hn]
    exact Finmap.lookup_singleton_eq
  · rw [if_neg hn]
    exact Finmap.lookup_eq_none.2 fun h => hn ((Finmap.mem_singleton _ _ _).1 h)

theorem wellFormed_new (rootName : String) (strategy : RestartStrategy)
    (intensity : RestartIntensity) :
    (SupervisorTree.new rootName strategy intensity).WellFormed := by
  have hlookup := lookup_new rootName strategy intensity
  have hmem : ∀ n ∈ (SupervisorTree.new rootName strategy intensity).nodes,
      n = rootName := fun n hn => (Finmap.mem_singleton _ _ _).1 hn
  refine ⟨?_, ?_, ?_, ?_, ?_⟩
  · refine ⟨{ name := rootName, strategy, intensity, parent := none }, ?_, rfl⟩
    rw [getSupervisor_eq, hlookup]
    exact congrArg (Option.bind · TreeNode.supervisor?) (if_pos rfl)
  · intro n hn hroot
    exact absurd (hmem n hn) hroot
  · intro p n hn
    rw [childrenOf_eq, hlookup] at hn
    by_cases hp : p = rootName
    · rw [if_pos hp] at hn
      cases hn
    · rw [if_neg hp] at hn
      cases hn
  · intro n w hw
    rw [getWorker_eq, hlookup] at hw
    by_cases hn : n = rootName
    · rw [if_pos hn] at hw
      cases hw
    · rw [if_neg hn] at hw
      cases hw
  · intro n hn
    rw [hmem n hn]
    exact ReflTransGen.refl

/-- What holds of a new tree and is kept by every insertion that
succeeds holds after every row of calls. -/
theorem execAll_induction {P : SupervisorTree → Prop} (hstart : P t)
    (hstep : ∀ t call t', P t → AddCall.apply t call = .ok t' → P t')
    (calls : List AddCall) : P (t.execAll calls) := by
  induction calls generalizing t with
  | nil => exact hstart
  | cons call calls ih =>
    apply ih
    show P (call.exec.left t)
    rcases call.left_cases t with hleft | hleft
    · exact hstep t call _ hstart hleft
    · rw [hleft]
      exact hstart

theorem execAll_grown (rootName : String) (strategy : RestartStrategy)
    (intensity : RestartIntensity) (calls : List AddCall) :
    Grown ((SupervisorTree.new rootName strategy intensity).execAll calls) := by
  refine execAll_induction (Grown.new rootName strategy intensity) ?_ calls
  intro t call t' ht hcall
  cases call with
  | addSupervisor name parentId strategy intensity => exact ht.addSupervisor hcall
  | addWorker svcDef parentId => exact ht.addWorker hcall

/-- On a tree that grew one bound on the depth serves every node. -/
theorem Grown.formatTree_returns_all (h : Grown t) :
    ∃ fuel, ∀ id depth, ∃ text, formatTree t fuel id depth = some text := by
  obtain ⟨hroot, rank, hrank⟩ := h.ranked
  refine ⟨t.nodes.keys.card, fun id depth => ?_⟩
  by_cases hid : id ∈ t.nodes
  · exact formatTree_returns hrank _ id depth hid (Nat.le_add_left _ _)
  · -- an unknown name is one line
    have hpos := hrank.below t.rootId hroot
    obtain ⟨fuel, hfuel⟩ : ∃ fuel, t.nodes.keys.card = fuel + 1 :=
      Nat.exists_eq_succ_of_ne_zero (by omega)
    have hget : t.get id = none := Finmap.lookup_eq_none.2 hid
    rw [hfuel, formatTree, hget]
    exact ⟨_, rfl⟩

/-- After any calls, failing ones included, the tree is well formed,
`format_tree` returns on it, and a further call that returns an error
leaves it as it is. -/
theorem calls_keep_wellFormed (rootName : String) (strategy : RestartStrategy)
    (intensity : RestartIntensity) (calls : List AddCall) :
    let t := (SupervisorTree.new rootName strategy intensity).execAll calls
    t.WellFormed ∧
      (∃ fuel, ∀ id depth, ∃ text, formatTree t fuel id depth = some text) ∧
      ∀ (call : AddCall) (e : TreeError),
        call.exec.error? t = some e → call.exec.left t = t := by
  intro t
  refine ⟨?_, ?_, fun call e h => AddCall.left_of_error h⟩
  · refine execAll_induction (wellFormed_new rootName strategy intensity) ?_ calls
    intro t call t' ht hcall
    cases call with
    | addSupervisor name parentId strategy intensity =>
      exact wellFormed_addSupervisor ht hcall
    | addWorker svcDef parentId => exact wellFormed_addWorker ht hcall
  · exact (execAll_grown rootName strategy intensity calls).formatTree_returns_all

end Dynamod.Svmgr
