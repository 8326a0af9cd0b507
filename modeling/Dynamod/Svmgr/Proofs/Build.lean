/-
The supervisor tree that `main` builds from a configuration, and what
the order of the supervisor definitions does to it.

Each definition is one insertion or none (`addSupervisorDef_inserted`,
`addSupervisorDef_refused`, and the same for services), so the shape
holds of every tree that is built. What an insertion needs is its
parent: a supervisor whose definition comes before that of its parent
is dropped, and its services go to the root. Definitions that all sit
directly under the root can come in any order; as soon as one sits
deeper some order drops it.
-/
import Dynamod.Lib.Forest
import Dynamod.Svmgr.Startup
import Dynamod.Svmgr.Proofs.Insert

namespace Dynamod.Svmgr

open Lib Relation SupervisorTree

variable {t t' : SupervisorTree} {es : List SupervisorDef}

/-- The parent a supervisor definition declares. The root has none; it
stands for itself. -/
def SupervisorDef.parentName (d : SupervisorDef) : NodeId :=
  if d.supervisor.name = "root" then "root" else d.supervisor.parent.getD "root"

/-- The parent `main` chooses for a service: the declared supervisor, or
the root if there is no node of that name. -/
def ServiceDef.parentIn (d : ServiceDef) (t : SupervisorTree) : NodeId :=
  if (t.get d.service.supervisor).isSome then d.service.supervisor else "root"

-- ==== one definition

section

variable {d : SupervisorDef} {svc : ServiceDef}

/-- A definition of the root changes its strategy and its limits. -/
theorem addSupervisorDef_root (h : d.supervisor.name = "root") :
    ∃ f : SupervisorNode → SupervisorNode, addSupervisorDef t d = t.modifySupervisor "root" f
      ∧ ∀ s, (f s).parent = s.parent ∧ (f s).children = s.children
        ∧ (f s).intensity.timestamps = [] := by
  unfold addSupervisorDef
  rw [if_pos h]
  exact ⟨_, rfl, fun _ => ⟨rfl, rfl, rfl⟩⟩

/-- The node that a definition makes. -/
def SupervisorDef.node (d : SupervisorDef) : SupervisorNode where
  name := d.supervisor.name
  strategy := d.supervisor.strategy
  intensity := .new d.restart.maxRestarts
    (fromSecs ((parseDurationSecs d.restart.maxRestartWindow).getD 300))
  parent := some (d.supervisor.parent.getD "root")

theorem SupervisorDef.parentName_of_ne (h : d.supervisor.name ≠ "root") :
    d.parentName = d.supervisor.parent.getD "root" := if_neg h

/-- The call `main` makes for a supervisor other than the root. -/
def SupervisorDef.add (d : SupervisorDef) (t : SupervisorTree) : Except TreeError SupervisorTree :=
  t.addSupervisor d.supervisor.name (d.supervisor.parent.getD "root")
    d.supervisor.strategy d.node.intensity

/-- A call succeeds for a new name under a supervisor. -/
theorem SupervisorDef.add_isOk_iff : (∃ t', d.add t = .ok t') ↔ d.supervisor.name ∉ t.nodes
    ∧ (t.getSupervisor (d.supervisor.parent.getD "root")).isSome := by
  unfold SupervisorDef.add SupervisorTree.addSupervisor
  exact addNode_isOk_iff

/-- A refused call leaves the tree as it is. -/
theorem addSupervisorDef_eq_add (h : d.supervisor.name ≠ "root") :
    addSupervisorDef t d = (d.add t).toOption.getD t := by
  unfold addSupervisorDef
  rw [if_neg h]
  split
  · next t' hadd =>
    rw [show d.add t = .ok t' from hadd]
    rfl
  · next e hadd =>
    rw [show d.add t = .error e from hadd]
    rfl

theorem addServiceDef_eq_addWorker :
    addServiceDef t svc = (t.addWorker svc (svc.parentIn t)).toOption.getD t := by
  unfold addServiceDef
  dsimp only
  rw [← ServiceDef.parentIn]
  split
  · next t' hadd =>
    rw [hadd]
    rfl
  · next e hadd =>
    rw [hadd]
    rfl

/-- A call that succeeds inserts the supervisor. -/
theorem addSupervisorDef_inserted (h : d.supervisor.name ≠ "root")
    (hname : d.supervisor.name ∉ t.nodes) (hparent : (t.getSupervisor d.parentName).isSome) :
    ∃ parent, Inserted t (addSupervisorDef t d) d.supervisor.name d.parentName
      parent (.supervisor d.node) := by
  rw [SupervisorDef.parentName_of_ne h] at hparent ⊢
  obtain ⟨t', ht'⟩ : ∃ t', d.add t = .ok t' :=
    SupervisorDef.add_isOk_iff.2 ⟨hname, hparent⟩
  have heq : addSupervisorDef t d = t' := by
    rw [addSupervisorDef_eq_add h, ht']
    rfl
  rw [heq]
  unfold SupervisorDef.add SupervisorTree.addSupervisor at ht'
  exact addNode_inserted ht'

/-- A definition whose call fails is dropped. -/
theorem addSupervisorDef_refused (h : d.supervisor.name ≠ "root")
    (hcall : ¬ (d.supervisor.name ∉ t.nodes ∧ (t.getSupervisor d.parentName).isSome)) :
    addSupervisorDef t d = t := by
  rw [SupervisorDef.parentName_of_ne h] at hcall
  rw [addSupervisorDef_eq_add h]
  cases hadd : d.add t with
  | ok t' => exact absurd (SupervisorDef.add_isOk_iff.1 ⟨t', hadd⟩) hcall
  | error e => rfl

/-- A call that succeeds inserts the service. -/
theorem addServiceDef_inserted (hname : svc.service.name ∉ t.nodes)
    (hparent : (t.getSupervisor (svc.parentIn t)).isSome) :
    ∃ parent, Inserted t (addServiceDef t svc) svc.service.name (svc.parentIn t) parent
      (.worker (newWorker svc (svc.parentIn t) parent.children.length)) := by
  obtain ⟨t', ht'⟩ : ∃ t', t.addWorker svc (svc.parentIn t) = .ok t' :=
    addNode_isOk_iff.2 ⟨hname, hparent⟩
  have heq : addServiceDef t svc = t' := by
    rw [addServiceDef_eq_addWorker, ht']
    rfl
  rw [heq]
  exact addNode_inserted ht'

/-- A service whose call fails is dropped. -/
theorem addServiceDef_refused (hcall : ¬ (svc.service.name ∉ t.nodes
    ∧ (t.getSupervisor (svc.parentIn t)).isSome)) : addServiceDef t svc = t := by
  rw [addServiceDef_eq_addWorker]
  cases hadd : t.addWorker svc (svc.parentIn t) with
  | ok t' => exact absurd (addNode_isOk_iff.1 ⟨t', hadd⟩) hcall
  | error e => rfl

end

-- ==== all definitions

/-- What holds of the root alone and is kept by every definition holds
of the tree that is built. -/
theorem buildTree_induction {P : SupervisorTree → Prop} (hroot : P rootTree)
    {supervisors : List SupervisorDef} {services : List ServiceDef}
    (hsup : ∀ t, ∀ d ∈ supervisors, P t → P (addSupervisorDef t d))
    (hsvc : ∀ t, ∀ d ∈ services, P t → P (addServiceDef t d)) :
    P (buildTree supervisors services) := by
  have hsups : P (supervisors.foldl addSupervisorDef rootTree) :=
    List.foldlRecOn _ _ hroot fun t ht d hd => hsup t d hd ht
  exact List.foldlRecOn _ _ hsups fun t ht d hd => hsvc t d hd ht

theorem wellFormed_addSupervisorDef (ht : t.WellFormed)
    (d : SupervisorDef) : (addSupervisorDef t d).WellFormed := by
  by_cases hroot : d.supervisor.name = "root"
  · obtain ⟨f, heq, hf⟩ := addSupervisorDef_root (t := t) hroot
    rw [heq]
    exact (SameShape.modifySupervisor t "root" fun s =>
      ⟨(hf s).1, (hf s).2.1⟩).wellFormed ht
  · by_cases hcall : d.supervisor.name ∉ t.nodes ∧ (t.getSupervisor d.parentName).isSome
    · obtain ⟨parent, hi⟩ := addSupervisorDef_inserted hroot hcall.1 hcall.2
      refine ht.insert hi ?_ rfl ?_
      · rw [SupervisorDef.parentName_of_ne hroot]
        rfl
      · intro w hw
        cases hw
    · rw [addSupervisorDef_refused hroot hcall]
      exact ht

theorem wellFormed_addServiceDef (ht : t.WellFormed)
    (d : ServiceDef) : (addServiceDef t d).WellFormed := by
  by_cases hcall : d.service.name ∉ t.nodes ∧ (t.getSupervisor (d.parentIn t)).isSome
  · obtain ⟨parent, hi⟩ := addServiceDef_inserted hcall.1 hcall.2
    refine ht.insert hi rfl rfl ?_
    intro w hw
    obtain rfl := TreeNode.worker.inj hw
    rfl
  · rw [addServiceDef_refused hcall]
    exact ht

/-- The same, in terms of what a definition comes to: the root gets other
limits, a supervisor or a worker is inserted, or nothing happens. -/
theorem buildTree_insertions {P : SupervisorTree → Prop} (hroot : P rootTree)
    (hlimits : ∀ t (f : SupervisorNode → SupervisorNode),
      (∀ s, (f s).intensity.timestamps = []) → P t → P (t.modifySupervisor "root" f))
    (hsup : ∀ t t' (d : SupervisorDef) parent,
      Inserted t t' d.supervisor.name d.parentName parent (.supervisor d.node) → P t → P t')
    {supervisors : List SupervisorDef} {services : List ServiceDef}
    (hsvc : ∀ t t', ∀ d ∈ services, ∀ parentId parent i,
      Inserted t t' d.service.name parentId parent (.worker (newWorker d parentId i)) →
      P t → P t') : P (buildTree supervisors services) := by
  apply buildTree_induction hroot
  · intro t d _ ht
    by_cases hname : d.supervisor.name = "root"
    · obtain ⟨f, heq, hf⟩ := addSupervisorDef_root (t := t) hname
      rw [heq]
      exact hlimits t f (fun s => (hf s).2.2) ht
    · by_cases hcall : d.supervisor.name ∉ t.nodes ∧ (t.getSupervisor d.parentName).isSome
      · obtain ⟨parent, hi⟩ := addSupervisorDef_inserted hname hcall.1 hcall.2
        exact hsup t _ d parent hi ht
      · rw [addSupervisorDef_refused hname hcall]
        exact ht
  · intro t d hd ht
    by_cases hcall : d.service.name ∉ t.nodes ∧ (t.getSupervisor (d.parentIn t)).isSome
    · obtain ⟨parent, hi⟩ := addServiceDef_inserted hcall.1 hcall.2
      exact hsvc t _ d hd _ parent _ hi ht
    · rw [addServiceDef_refused hcall]
      exact ht

/-- The tree is well formed, whatever the definitions. -/
theorem buildTree_wellFormed (supervisors : List SupervisorDef)
    (services : List ServiceDef) : (buildTree supervisors services).WellFormed :=
  buildTree_induction (wellFormed_new _ _ _)
    (fun _ d _ ht => wellFormed_addSupervisorDef ht d)
    (fun _ d _ ht => wellFormed_addServiceDef ht d)

-- ==== the supervisors

/-- The names of supervisor definitions. -/
def SupervisorDef.key (d : SupervisorDef) : NodeId := d.supervisor.name

/-- A tree of supervisors out of `ds`, under their declared parents. -/
structure Declared (ds : List SupervisorDef) (t : SupervisorTree) : Prop where
  wellFormed : t.WellFormed
  rootId : t.rootId = "root"
  kind : ∀ n ∈ t.nodes, (t.getSupervisor n).isSome
  node : ∀ n ∈ t.nodes, n ≠ "root" →
    ∃ d ∈ ds, d.key = n ∧ t.parentOf n = some d.parentName

namespace Declared

variable {ds : List SupervisorDef}

theorem rootTree (ds : List SupervisorDef) : Declared ds rootTree := by
  have hmem : ∀ n ∈ Svmgr.rootTree.nodes, n = "root" :=
    fun n hn => (Finmap.mem_singleton _ _ _).1 hn
  refine ⟨wellFormed_new _ _ _, rfl, ?_, ?_⟩
  · intro n hn
    rw [hmem n hn]
    rfl
  · intro n hn hne
    exact absurd (hmem n hn) hne

theorem root_mem (h : Declared ds t) : "root" ∈ t.nodes := by
  obtain ⟨s, hs, -⟩ := h.wellFormed.root
  rw [h.rootId] at hs
  exact mem_nodes_of_lookup (lookup_of_getSupervisor hs)

/-- The root has no parent. -/
theorem parentOf_root (h : Declared ds t) : t.parentOf "root" = none := by
  obtain ⟨s, hs, hnone⟩ := h.wellFormed.root
  rw [h.rootId] at hs
  rw [parentOf_supervisor hs]
  exact hnone

theorem isSome_getSupervisor (h : Declared ds t) (n : NodeId) :
    (t.getSupervisor n).isSome ↔ n ∈ t.nodes := by
  refine ⟨fun hn => ?_, h.kind n⟩
  obtain ⟨s, hs⟩ := Option.isSome_iff_exists.1 hn
  exact mem_nodes_of_lookup (lookup_of_getSupervisor hs)

theorem getWorker_none (h : Declared ds t) (n : NodeId) : t.getWorker n = none := by
  cases hn : t.getWorker n with
  | none => rfl
  | some w =>
    have hsup := h.kind n (mem_nodes_of_lookup (lookup_of_getWorker hn))
    obtain ⟨s, hs⟩ := Option.isSome_iff_exists.1 hsup
    rw [getWorker_of_supervisor hs] at hn
    cases hn

/-- What one more definition of `ds` makes of the tree: a new node, or
the same nodes as before. -/
theorem step_cases (h : Declared ds t) (d : SupervisorDef) : (d.key ≠ "root" ∧ ∃ parent,
      Inserted t (addSupervisorDef t d) d.key d.parentName parent (.supervisor d.node))
    ∨ SameShape t (addSupervisorDef t d)
      ∧ (d.key = "root" ∨ d.key ∈ t.nodes ∨ d.parentName ∉ t.nodes) := by
  by_cases hroot : d.key = "root"
  · obtain ⟨f, heq, hf⟩ := addSupervisorDef_root (t := t) hroot
    rw [heq]
    exact Or.inr ⟨SameShape.modifySupervisor t "root" fun s =>
      ⟨(hf s).1, (hf s).2.1⟩, Or.inl hroot⟩
  · by_cases hname : d.key ∈ t.nodes
    · rw [addSupervisorDef_refused hroot fun hcall => hcall.1 hname]
      exact Or.inr ⟨SameShape.refl t, Or.inr (Or.inl hname)⟩
    · by_cases hparent : (t.getSupervisor d.parentName).isSome
      · exact Or.inl ⟨hroot, addSupervisorDef_inserted hroot hname hparent⟩
      · rw [addSupervisorDef_refused hroot fun hcall => hparent hcall.2]
        rw [h.isSome_getSupervisor] at hparent
        exact Or.inr ⟨SameShape.refl t, Or.inr (Or.inr hparent)⟩

theorem sameShape (h : Declared ds t) (hs : SameShape t t') : Declared ds t' := by
  refine ⟨hs.wellFormed h.wellFormed, hs.rootId.trans h.rootId, ?_, ?_⟩
  · intro n hn
    obtain ⟨s, hsup⟩ := Option.isSome_iff_exists.1 (h.kind n ((hs.mem n).1 hn))
    obtain ⟨s', hsup', -⟩ := hs.getSupervisor hsup
    exact Option.isSome_iff_exists.2 ⟨s', hsup'⟩
  · intro n hn hne
    rw [hs.parentOf]
    exact h.node n ((hs.mem n).1 hn) hne

/-- One definition more keeps the declared nodes declared. -/
theorem step (h : Declared ds t) {d : SupervisorDef} (hd : d ∈ ds) :
    Declared ds (addSupervisorDef t d) := by
  rcases h.step_cases d with ⟨hroot, parent, hi⟩ | ⟨hs, -⟩
  · refine ⟨wellFormed_addSupervisorDef h.wellFormed d, hi.rootId.trans h.rootId, ?_, ?_⟩
    · intro n hn
      by_cases hname : n = d.key
      · rw [hi.getSupervisor, if_pos hname]
        rfl
      · exact hi.isSome_getSupervisor (h.kind n (((hi.mem n).1 hn).resolve_left hname))
    · intro n hn hne
      rw [hi.parentOf]
      by_cases hname : n = d.key
      · rw [if_pos hname]
        refine ⟨d, hd, hname.symm, ?_⟩
        rw [SupervisorDef.parentName_of_ne hroot]
        rfl
      · rw [if_neg hname]
        exact h.node n (((hi.mem n).1 hn).resolve_left hname) hne
  · exact h.sameShape hs

theorem foldl (h : Declared ds t) (hes : es ⊆ ds) : Declared ds (es.foldl addSupervisorDef t) :=
  List.foldlRecOn es _ h fun _ ht _ he => ht.step (hes he)

theorem mem_foldl (h : Declared ds t) (hes : es ⊆ ds)
    {n : NodeId} (hn : n ∈ t.nodes) : n ∈ (es.foldl addSupervisorDef t).nodes := by
  induction es generalizing t with
  | nil => exact hn
  | cons e es ih =>
    obtain ⟨he, hes⟩ := List.cons_subset.1 hes
    refine ih (h.step he) hes ?_
    rcases h.step_cases e with ⟨-, parent, hi⟩ | ⟨hs, -⟩
    · exact (hi.mem n).2 (Or.inr hn)
    · exact (hs.mem n).2 hn

end Declared

-- ==== every call succeeds

/-- Every `add_supervisor` call for the definitions, in this order,
succeeds; a definition of the root needs none. -/
def SupervisorsAccepted : SupervisorTree → List SupervisorDef → Prop
  | _, [] => True
  | t, d :: ds => (d.key = "root" ∨ ∃ t', d.add t = .ok t')
      ∧ SupervisorsAccepted (addSupervisorDef t d) ds

/-- Definitions whose parents come first, under names not taken yet, are
all accepted, and each becomes a node. -/
theorem Declared.accepted {ds : List SupervisorDef}
    (h : Declared ds t) (hes : es ⊆ ds) (hnames : (es.map SupervisorDef.key).Nodup)
    (hnew : ∀ d ∈ es, d.key ≠ "root" → d.key ∉ t.nodes)
    (hfirst : ParentsFirst SupervisorDef.key SupervisorDef.parentName (· ∈ t.nodes) es) :
    SupervisorsAccepted t es
      ∧ ∀ d ∈ es, d.key ∈ (es.foldl addSupervisorDef t).nodes := by
  induction es generalizing t with
  | nil => exact ⟨True.intro, fun d hd => absurd hd List.not_mem_nil⟩
  | cons e es ih =>
    obtain ⟨he, hsub⟩ := List.cons_subset.1 hes
    obtain ⟨hout, hnodup⟩ := List.nodup_cons.1 hnames
    obtain ⟨hparent, hrest⟩ := hfirst
    have hnext := h.step he
    -- the new node is `e`, and it is the only one
    have hmem : ∀ n, n ∈ (addSupervisorDef t e).nodes ↔ n ∈ t.nodes ∨ n = e.key := by
      intro n
      rcases h.step_cases e with ⟨-, parent, hi⟩ | ⟨hs, hwhy⟩
      · rw [hi.mem, or_comm]
      · rw [hs.mem]
        refine (or_iff_left_of_imp ?_).symm
        rintro rfl
        rcases hwhy with hroot | hmem | hlost
        · exact hroot ▸ h.root_mem
        · exact hmem
        · exact absurd hparent hlost
    have hnew' : ∀ d ∈ es, d.key ≠ "root" → d.key ∉ (addSupervisorDef t e).nodes := by
      intro d hd hroot
      rw [hmem]
      rintro (hold | hsame)
      · exact hnew d (List.mem_cons_of_mem _ hd) hroot hold
      · exact hout (List.mem_map.2 ⟨d, hd, hsame⟩)
    obtain ⟨hacc, hall⟩ := ih hnext hsub hnodup hnew'
      (hrest.mono fun k hk => (hmem k).2 hk)
    refine ⟨⟨?_, hacc⟩, ?_⟩
    · by_cases hroot : e.key = "root"
      · exact Or.inl hroot
      · refine Or.inr (SupervisorDef.add_isOk_iff.2 ⟨hnew e List.mem_cons_self hroot, ?_⟩)
        rw [← SupervisorDef.parentName_of_ne hroot]
        exact h.kind _ hparent
    · intro d hd
      rcases List.mem_cons.1 hd with rfl | hd
      · exact hnext.mem_foldl hsub ((hmem d.key).2 (Or.inr rfl))
      · exact hall d hd

/-- Listed parents first, all supervisors are accepted. -/
theorem accepted_from_root {ds : List SupervisorDef} (hnames : (ds.map SupervisorDef.key).Nodup)
    (hfirst : ParentsFirst SupervisorDef.key SupervisorDef.parentName (· = "root") ds) :
    SupervisorsAccepted rootTree ds
      ∧ ∀ d ∈ ds, d.key ∈ (ds.foldl addSupervisorDef rootTree).nodes := by
  have hmem : ∀ n, n ∈ rootTree.nodes ↔ n = "root" :=
    fun n => Finmap.mem_singleton _ _ _
  refine (Declared.rootTree ds).accepted (List.Subset.refl _) hnames ?_ ?_
  · intro d _ hroot
    rw [hmem]
    exact hroot
  · exact hfirst.mono fun k hk => (hmem k).2 hk

-- ==== the services

/-- The same nodes, of the same kinds, with the same parents. -/
structure SameTree (t t' : SupervisorTree) : Prop where
  supervisor : ∀ n, (t'.getSupervisor n).isSome = (t.getSupervisor n).isSome
  worker : ∀ n, (t'.getWorker n).isSome = (t.getWorker n).isSome
  parent : ∀ n, t'.parentOf n = t.parentOf n

theorem mem_nodes_iff {n : NodeId} :
    n ∈ t.nodes ↔ (t.getSupervisor n).isSome ∨ (t.getWorker n).isSome := by
  rw [← Finmap.lookup_isSome, getSupervisor_eq, getWorker_eq]
  cases t.nodes.lookup n with
  | none => simp
  | some node =>
    cases node with
    | supervisor s => simp [TreeNode.supervisor?]
    | worker w => simp [TreeNode.worker?]

namespace SameTree

theorem mem (h : SameTree t t') (n : NodeId) : n ∈ t'.nodes ↔ n ∈ t.nodes := by
  rw [mem_nodes_iff, mem_nodes_iff, h.supervisor, h.worker]

theorem parentIn (h : SameTree t t') (svc : ServiceDef) : svc.parentIn t' = svc.parentIn t := by
  unfold ServiceDef.parentIn SupervisorTree.get
  have hsup := h.mem svc.service.supervisor
  rw [← Finmap.lookup_isSome, ← Finmap.lookup_isSome] at hsup
  by_cases hmem : (t.nodes.lookup svc.service.supervisor).isSome
  · rw [if_pos hmem, if_pos (hsup.2 hmem)]
  · rw [if_neg hmem, if_neg fun h' => hmem (hsup.1 h')]

end SameTree

/-- What a new worker changes of the kinds and parents. -/
theorem Inserted.worker_reads {name parentId : NodeId}
    {parent : SupervisorNode} {w : WorkerNode}
    (hi : Inserted t t' name parentId parent (.worker w)) (n : NodeId) :
    (t'.getSupervisor n).isSome = (t.getSupervisor n).isSome
      ∧ (t'.getWorker n).isSome = (decide (n = name) || (t.getWorker n).isSome) := by
  by_cases hn : n = name
  · subst hn
    rw [hi.getSupervisor, if_pos rfl, hi.getWorker, if_pos rfl]
    have hnone : t.getSupervisor n = none := by
      rw [getSupervisor_eq, Finmap.lookup_eq_none.2 hi.absent]
      rfl
    rw [hnone]
    simp [TreeNode.worker?, TreeNode.supervisor?]
  · rw [hi.getSupervisor, if_neg hn, hi.getWorker, if_neg hn]
    refine ⟨?_, by simp [hn]⟩
    by_cases hp : n = parentId
    · subst hp
      rw [if_pos rfl, getSupervisor_eq, hi.supervisor]
      rfl
    · rw [if_neg hp]

/-- A service makes no supervisor and takes none away. -/
theorem isSome_getSupervisor_addServiceDef (t : SupervisorTree) (svc : ServiceDef) (n : NodeId) :
    ((addServiceDef t svc).getSupervisor n).isSome = (t.getSupervisor n).isSome := by
  by_cases hcall : svc.service.name ∉ t.nodes ∧ (t.getSupervisor (svc.parentIn t)).isSome
  · obtain ⟨parent, hi⟩ := addServiceDef_inserted hcall.1 hcall.2
    exact (Inserted.worker_reads hi n).1
  · rw [addServiceDef_refused hcall]

/-- A service does the same to two trees that are the same. -/
theorem SameTree.addServiceDef (h : SameTree t t')
    (svc : ServiceDef) : SameTree (addServiceDef t svc) (addServiceDef t' svc) := by
  by_cases hcall : svc.service.name ∉ t.nodes ∧ (t.getSupervisor (svc.parentIn t)).isSome
  · have hcall' : svc.service.name ∉ t'.nodes
        ∧ (t'.getSupervisor (svc.parentIn t')).isSome := by
      rw [h.mem, h.parentIn, h.supervisor]
      exact hcall
    obtain ⟨parent, hi⟩ := addServiceDef_inserted hcall.1 hcall.2
    obtain ⟨parent', hi'⟩ := addServiceDef_inserted hcall'.1 hcall'.2
    refine ⟨fun n => ?_, fun n => ?_, fun n => ?_⟩
    · rw [(Inserted.worker_reads hi n).1, (Inserted.worker_reads hi' n).1]
      exact h.supervisor n
    · rw [(Inserted.worker_reads hi n).2, (Inserted.worker_reads hi' n).2, h.worker]
    · rw [hi.parentOf, hi'.parentOf, h.parent]
      by_cases hn : n = svc.service.name
      · rw [if_pos hn, if_pos hn]
        exact congrArg some (h.parentIn svc)
      · rw [if_neg hn, if_neg hn]
  · have hcall' : ¬ (svc.service.name ∉ t'.nodes
        ∧ (t'.getSupervisor (svc.parentIn t')).isSome) := by
      rw [h.mem, h.parentIn, h.supervisor]
      exact hcall
    rw [addServiceDef_refused hcall, addServiceDef_refused hcall']
    exact h

theorem SameTree.foldl (h : SameTree t t')
    (services : List ServiceDef) : SameTree (services.foldl Svmgr.addServiceDef t)
      (services.foldl Svmgr.addServiceDef t') := by
  induction services generalizing t t' with
  | nil => exact h
  | cons svc services ih => exact ih (h.addServiceDef svc)

theorem isSome_getSupervisor_foldl (services : List ServiceDef) (t : SupervisorTree)
    (n : NodeId) : ((services.foldl Svmgr.addServiceDef t).getSupervisor n).isSome
      = (t.getSupervisor n).isSome :=
  List.foldlRecOn services _
    (motive := fun t' : SupervisorTree => (t'.getSupervisor n).isSome = _) rfl
    fun t' h svc _ => (isSome_getSupervisor_addServiceDef t' svc n).trans h

end Dynamod.Svmgr
