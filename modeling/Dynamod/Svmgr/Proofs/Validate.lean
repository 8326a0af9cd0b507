/-
Whether a configuration without validation errors can be built.

# What the checks leave open

`validate_all` and `main` look at different things. The checks know
the names of each kind and the services' references to supervisors; the
insertions need every parent to be there and every name to be new. No
check reads the parent that a supervisor declares, and none compares the
names of services with those of supervisors. `SoundNames` is what is left
open: where the parents lead, whether a definition of the root declares
one, and which names are shared.

# The two directions

A configuration that passes the checks can be built as declared, in some
order, exactly if it has sound names (`validated_constructible_iff`). Where
all calls succeeded, the way up in the tree is the way along the declared
parents. Where the parents lead to the root, the order is one in which they
come first.
-/
import Dynamod.Svmgr.Validate
import Dynamod.Svmgr.Proofs.BuildOrder

namespace Dynamod.Svmgr

open Lib Relation SupervisorTree

variable {n : NodeId} {svcs services : List ServiceDef} {t : SupervisorTree}
  {ds sups : List SupervisorDef}

-- ==== building as declared

/-- Every `add_worker` call for the definitions, in this order,
succeeds. -/
def ServicesAccepted : SupervisorTree → List ServiceDef → Prop
  | _, [] => True
  | t, svc :: svcs => (∃ t', t.addWorker svc (svc.parentIn t) = .ok t')
      ∧ ServicesAccepted (addServiceDef t svc) svcs

/-- In the order given, all calls succeed, and every definition ends up
under the parent it declares. -/
structure BuildsAsDeclared (supervisors : List SupervisorDef)
    (services : List ServiceDef) : Prop where
  supervisorCalls : SupervisorsAccepted rootTree supervisors
  serviceCalls :
    ServicesAccepted (supervisors.foldl addSupervisorDef rootTree) services
  /-- The root itself is under no parent, so a definition of it may not
  declare one. -/
  supervisor : ∀ d ∈ supervisors,
    ((buildTree supervisors services).getSupervisor d.supervisor.name).isSome
      ∧ (buildTree supervisors services).parentOf d.supervisor.name
        = if d.supervisor.name = "root" then d.supervisor.parent
          else some (d.supervisor.parent.getD "root")
  service : ∀ svc ∈ services,
    ((buildTree supervisors services).getWorker svc.service.name).isSome
      ∧ (buildTree supervisors services).parentOf svc.service.name
        = some svc.service.supervisor

/-- Some order of the definitions builds them as declared. -/
def Constructible (supervisors : List SupervisorDef) (services : List ServiceDef) :
    Prop :=
  ∃ sups svcs, sups.Perm supervisors ∧ svcs.Perm services ∧ BuildsAsDeclared sups svcs

-- ==== the services

/-- A service leaves the nodes that are there alone. -/
theorem addServiceDef_keeps (t : SupervisorTree) (svc : ServiceDef)
    (hn : n ∈ t.nodes) : n ∈ (addServiceDef t svc).nodes
      ∧ (addServiceDef t svc).parentOf n = t.parentOf n
      ∧ (addServiceDef t svc).getWorker n = t.getWorker n := by
  by_cases hcall : svc.service.name ∉ t.nodes ∧ (t.getSupervisor (svc.parentIn t)).isSome
  · obtain ⟨parent, hi⟩ := addServiceDef_inserted hcall.1 hcall.2
    have hne : n ≠ svc.service.name := fun h => hcall.1 (h ▸ hn)
    rw [hi.mem, hi.parentOf, hi.getWorker, if_neg hne, if_neg hne]
    exact ⟨Or.inr hn, rfl, rfl⟩
  · rw [addServiceDef_refused hcall]
    exact ⟨hn, rfl, rfl⟩

theorem foldl_addServiceDef_keeps (svcs : List ServiceDef) (t : SupervisorTree)
    (hn : n ∈ t.nodes) : (svcs.foldl addServiceDef t).parentOf n = t.parentOf n
      ∧ (svcs.foldl addServiceDef t).getWorker n = t.getWorker n := by
  have hkept := List.foldlRecOn svcs addServiceDef (b := t)
    (motive := fun t' : SupervisorTree => n ∈ t'.nodes
      ∧ t'.parentOf n = t.parentOf n ∧ t'.getWorker n = t.getWorker n) ⟨hn, rfl, rfl⟩
    fun t' h svc _ => by
      obtain ⟨hmem, hparent, hworker⟩ := addServiceDef_keeps t' svc h.1
      exact ⟨hmem, hparent.trans h.2.1, hworker.trans h.2.2⟩
  exact hkept.2

/-- Services with new, distinct names under supervisors that are there
are all accepted and end up where they belong. -/
theorem services_accepted (hnames : (svcs.map fun svc => svc.service.name).Nodup)
    (hnew : ∀ svc ∈ svcs, svc.service.name ∉ t.nodes)
    (hsup : ∀ svc ∈ svcs, (t.getSupervisor svc.service.supervisor).isSome) :
    ServicesAccepted t svcs ∧ ∀ svc ∈ svcs,
      ((svcs.foldl addServiceDef t).getWorker svc.service.name).isSome
        ∧ (svcs.foldl addServiceDef t).parentOf svc.service.name
          = some svc.service.supervisor := by
  induction svcs generalizing t with
  | nil => exact ⟨True.intro, fun svc hsvc => absurd hsvc List.not_mem_nil⟩
  | cons svc svcs ih =>
    obtain ⟨hout, hnodup⟩ := List.nodup_cons.1 hnames
    have hname := hnew svc List.mem_cons_self
    have hthere := hsup svc List.mem_cons_self
    -- the declared supervisor is a node, so it is the parent chosen
    have hchosen : svc.parentIn t = svc.service.supervisor := by
      obtain ⟨s, hs⟩ := Option.isSome_iff_exists.1 hthere
      have hget : (t.get svc.service.supervisor).isSome := by
        unfold SupervisorTree.get
        rw [lookup_of_getSupervisor hs]
        rfl
      exact if_pos hget
    have hcall : (t.getSupervisor (svc.parentIn t)).isSome := hchosen ▸ hthere
    obtain ⟨parent, hi⟩ := addServiceDef_inserted hname hcall
    have hnew' : ∀ other ∈ svcs, other.service.name ∉ (addServiceDef t svc).nodes := by
      intro other hother
      rw [hi.mem]
      rintro (hsame | hold)
      · exact hout (List.mem_map.2 ⟨other, hother, hsame⟩)
      · exact hnew other (List.mem_cons_of_mem _ hother) hold
    have hsup' : ∀ other ∈ svcs,
        ((addServiceDef t svc).getSupervisor other.service.supervisor).isSome := by
      intro other hother
      rw [isSome_getSupervisor_addServiceDef]
      exact hsup other (List.mem_cons_of_mem _ hother)
    obtain ⟨hacc, hplaced⟩ := ih hnodup hnew' hsup'
    refine ⟨⟨addNode_isOk_iff.2 ⟨hname, hcall⟩, hacc⟩, ?_⟩
    intro other hother
    rcases List.mem_cons.1 hother with rfl | hother
    · obtain ⟨hparent, hworker⟩ := foldl_addServiceDef_keeps svcs
        (addServiceDef t other) ((hi.mem _).2 (Or.inl rfl))
      rw [List.foldl_cons, hparent, hworker, hi.parentOf, if_pos rfl, hi.getWorker,
        if_pos rfl]
      exact ⟨rfl, congrArg some hchosen⟩
    · exact hplaced other hother

/-- An accepted service has a name that was no node at the start. -/
theorem accepted_service_new (h : ServicesAccepted t svcs) {svc : ServiceDef}
    (hsvc : svc ∈ svcs) :
    svc.service.name ∉ t.nodes := by
  induction svcs generalizing t with
  | nil => cases hsvc
  | cons other svcs ih =>
    obtain ⟨hcall, hrest⟩ := h
    rcases List.mem_cons.1 hsvc with rfl | hsvc
    · exact (addNode_isOk_iff.1 hcall).1
    · intro hmem
      exact ih hrest hsvc (addServiceDef_keeps t other hmem).1

-- ==== the supervisors

theorem accepted_supervisor_mem {es : List SupervisorDef}
    (hdecl : Declared ds t) (hes : es ⊆ ds) (h : SupervisorsAccepted t es)
    {d : SupervisorDef} (hd : d ∈ es) : d.key ∈ (es.foldl addSupervisorDef t).nodes := by
  induction es generalizing t with
  | nil => cases hd
  | cons e es ih =>
    obtain ⟨he, hsub⟩ := List.cons_subset.1 hes
    obtain ⟨hcall, hrest⟩ := h
    rcases List.mem_cons.1 hd with rfl | hd
    · refine (hdecl.step he).mem_foldl hsub ?_
      rcases hcall with hroot | hadd
      · rw [hroot]
        exact (hdecl.step he).root_mem
      · obtain ⟨hname, hparent⟩ := SupervisorDef.add_isOk_iff.1 hadd
        by_cases hroot : d.key = "root"
        · rw [hroot]
          exact (hdecl.step he).root_mem
        · rw [← SupervisorDef.parentName_of_ne hroot] at hparent
          obtain ⟨parent, hi⟩ := addSupervisorDef_inserted hroot hname hparent
          exact (hi.mem _).2 (Or.inl rfl)
    · exact ih (hdecl.step he) hsub hrest hd

/-- With distinct names a node is under the parent its own definition
declares. -/
theorem Declared.parentOf_key (h : Declared ds t) (hnames : (ds.map SupervisorDef.key).Nodup)
    {d : SupervisorDef} (hd : d ∈ ds) (hmem : d.key ∈ t.nodes)
    (hroot : d.key ≠ "root") : t.parentOf d.key = some d.parentName := by
  obtain ⟨e, he, hkey, hparent⟩ := h.node d.key hmem hroot
  rw [hparent, List.inj_on_of_nodup_map hnames he hd hkey]

/-- In a tree of supervisors the way up is the way along the declared
parents. -/
theorem Declared.chain (h : Declared ds t) {a : NodeId} (hn : t.Below n a) :
    ReflTransGen (ParentLink SupervisorDef.key SupervisorDef.parentName ds) n a := by
  refine ReflTransGen.mono (fun m p hmp => ?_) n a hn
  have hmem := mem_nodes_of_parentOf hmp
  have hroot : m ≠ "root" := by
    rintro rfl
    cases h.parentOf_root.symm.trans hmp
  obtain ⟨d, hd, hkey, hparent⟩ := h.node m hmem hroot
  exact ⟨d, hd, hkey, Option.some.inj (hparent.symm.trans hmp)⟩

/-- Accepted supervisors with distinct names have parents that lead to
the root. -/
theorem rooted_of_accepted (hnames : (ds.map SupervisorDef.key).Nodup)
    (h : SupervisorsAccepted rootTree ds) : RootedAtRoot ds := by
  have hdecl : Declared ds (ds.foldl addSupervisorDef rootTree) :=
    (Declared.rootTree ds).foldl (List.Subset.refl _)
  intro d hd
  by_cases hroot : d.key = "root"
  · have : d.parentName = "root" := if_pos hroot
    rw [this]
  · have hmem := accepted_supervisor_mem (Declared.rootTree ds) (List.Subset.refl _) h hd
    have hparent := hdecl.parentOf_key hnames hd hmem hroot
    have hne : d.key ≠ (ds.foldl addSupervisorDef rootTree).rootId := by
      rw [hdecl.rootId]
      exact hroot
    obtain ⟨p, hp, hsup, -⟩ := hdecl.wellFormed.parent d.key hmem hne
    obtain rfl := Option.some.inj (hparent.symm.trans hp)
    have hchain := hdecl.wellFormed.chain _ ((hdecl.isSome_getSupervisor _).1 hsup)
    rw [hdecl.rootId] at hchain
    exact hdecl.chain hchain

theorem RootedAtRoot.perm {es : List SupervisorDef} (h : RootedAtRoot ds)
    (hperm : ds.Perm es) : RootedAtRoot es := by
  intro d hd
  refine ReflTransGen.mono (fun k p hlink => ?_) _ _ (h d (hperm.symm.subset hd))
  obtain ⟨e, he, hkey, hparent⟩ := hlink
  exact ⟨e, hperm.subset he, hkey, hparent⟩

-- ==== the checks

/-- What the checks leave open. -/
structure SoundNames (supervisors : List SupervisorDef) (services : List ServiceDef) :
    Prop where
  rooted : RootedAtRoot supervisors
  /-- A definition of the root declares no parent. -/
  top : ∀ d ∈ supervisors, d.key = "root" → d.supervisor.parent = none
  /-- No service is called like the root or like a supervisor. -/
  apart : ∀ svc ∈ services, svc.service.name ≠ "root"
    ∧ svc.service.name ∉ supervisors.map SupervisorDef.key

/-- Nothing is put above the root. -/
theorem parentOf_root_buildTree (sups : List SupervisorDef) (services : List ServiceDef) :
    (buildTree sups services).parentOf "root" = none := by
  have hdecl : Declared sups (sups.foldl addSupervisorDef rootTree) :=
    (Declared.rootTree sups).foldl (List.Subset.refl _)
  unfold buildTree
  rw [(foldl_addServiceDef_keeps services _ hdecl.root_mem).1, hdecl.parentOf_root]

theorem soundNames_of_builds {supervisors : List SupervisorDef} (hsups : sups.Perm supervisors)
    (hsvcs : svcs.Perm services) (hnames : (sups.map SupervisorDef.key).Nodup)
    (h : BuildsAsDeclared sups svcs) : SoundNames supervisors services := by
  have hdecl : Declared sups (sups.foldl addSupervisorDef rootTree) :=
    (Declared.rootTree sups).foldl (List.Subset.refl _)
  refine ⟨(rooted_of_accepted hnames h.supervisorCalls).perm hsups, fun d hd hroot => ?_, ?_⟩
  · obtain ⟨-, hparent⟩ := h.supervisor d (hsups.symm.subset hd)
    rw [show d.supervisor.name = "root" from hroot, if_pos rfl, parentOf_root_buildTree] at hparent
    exact hparent.symm
  intro svc hsvc
  have hnew := accepted_service_new h.serviceCalls (hsvcs.symm.subset hsvc)
  constructor
  · intro hroot
    exact hnew (hroot ▸ hdecl.root_mem)
  · intro hshared
    obtain ⟨d, hd, hkey⟩ := List.mem_map.1 hshared
    apply hnew
    rw [← hkey]
    exact accepted_supervisor_mem (Declared.rootTree sups) (List.Subset.refl _)
      h.supervisorCalls (hsups.symm.subset hd)

theorem builds_of_soundNames (hvalid : Validated services sups)
    (hsound : SoundNames sups services)
    (hfirst : ParentsFirst SupervisorDef.key SupervisorDef.parentName (· = "root") sups) :
    BuildsAsDeclared sups services := by
  have hnames : (sups.map SupervisorDef.key).Nodup := hvalid.supervisorNames
  obtain ⟨hacc, hall⟩ := accepted_from_root hnames hfirst
  have hdecl : Declared sups (sups.foldl addSupervisorDef rootTree) :=
    (Declared.rootTree sups).foldl (List.Subset.refl _)
  have hnew : ∀ svc ∈ services,
      svc.service.name ∉ (sups.foldl addSupervisorDef rootTree).nodes := by
    intro svc hsvc hmem
    obtain ⟨hroot, hshared⟩ := hsound.apart svc hsvc
    obtain ⟨d, hd, hkey, -⟩ := hdecl.node _ hmem hroot
    exact hshared (List.mem_map.2 ⟨d, hd, hkey⟩)
  have hsup : ∀ svc ∈ services, ((sups.foldl addSupervisorDef rootTree).getSupervisor
      svc.service.supervisor).isSome := by
    intro svc hsvc
    rw [hdecl.isSome_getSupervisor]
    rcases hvalid.supervisor svc hsvc with hroot | hdef
    · rw [hroot]
      exact hdecl.root_mem
    · obtain ⟨d, hd, hkey⟩ := List.mem_map.1 hdef
      rw [← hkey]
      exact hall d hd
  obtain ⟨hcalls, hplaced⟩ := services_accepted hvalid.serviceNames hnew hsup
  refine ⟨hacc, hcalls, ?_, hplaced⟩
  intro d hd
  have hmem : d.supervisor.name ∈ (sups.foldl addSupervisorDef rootTree).nodes := hall d hd
  refine ⟨by rw [buildTree, isSome_getSupervisor_foldl]; exact hdecl.kind _ hmem, ?_⟩
  split
  · next hroot => rw [hroot, parentOf_root_buildTree, hsound.top d hd hroot]
  · next hroot =>
    rw [buildTree, (foldl_addServiceDef_keeps services _ hmem).1,
      ← SupervisorDef.parentName_of_ne hroot]
    exact hdecl.parentOf_key hnames hd hmem hroot

theorem Validated.perm {supervisors : List SupervisorDef}
    (h : Validated services supervisors) (hperm : sups.Perm supervisors) :
    Validated services sups :=
  { h with
    supervisorNames := (hperm.map fun sup => sup.supervisor.name).nodup_iff.2
      h.supervisorNames
    supervisor := fun svc hsvc => (h.supervisor svc hsvc).imp_right
      (hperm.map fun sup => sup.supervisor.name).mem_iff.2 }

/-- A configuration that passes the checks can be built as declared, in
some order, if and only if the supervisors' parents lead to the root, a
definition of the root declares no parent and no service shares a name
with a supervisor or the root. -/
theorem validated_constructible_iff {services : List ServiceDef}
    {supervisors : List SupervisorDef} (h : validateAll services supervisors = []) :
    Constructible supervisors services ↔ SoundNames supervisors services := by
  have hvalid := validateAll_eq_nil.1 h
  constructor
  · rintro ⟨sups, svcs, hsups, hsvcs, hbuilds⟩
    exact soundNames_of_builds hsups hsvcs (hvalid.perm hsups).supervisorNames hbuilds
  · intro hsound
    obtain ⟨sups, hsups, hfirst⟩ := exists_parentsFirst hsound.rooted.leadsTo
    have hapart : ∀ svc ∈ services, svc.service.name ≠ "root"
        ∧ svc.service.name ∉ sups.map SupervisorDef.key := by
      intro svc hsvc
      rw [(hsups.map SupervisorDef.key).mem_iff]
      exact hsound.apart svc hsvc
    exact ⟨sups, services, hsups, List.Perm.refl _, builds_of_soundNames (hvalid.perm hsups)
      ⟨hsound.rooted.perm hsups.symm, fun d hd => hsound.top d (hsups.subset hd), hapart⟩
      hfirst⟩

-- ==== a parent cycle

/-- Two supervisors, each the parent of the other. -/
def cycleSupervisors : List SupervisorDef :=
  [{ supervisor := { name := "a", parent := some "b" } },
   { supervisor := { name := "b", parent := some "a" } }]

/-- The checks find nothing wrong with them, and no order builds them. -/
theorem parent_cycle_validated :
    validateAll [] cycleSupervisors = [] ∧ ¬ Constructible cycleSupervisors [] := by
  refine ⟨by decide, ?_⟩
  rintro ⟨sups, svcs, hsups, hsvcs, hbuilds⟩
  have hnames : (sups.map SupervisorDef.key).Nodup :=
    (hsups.map SupervisorDef.key).nodup_iff.2 (by decide)
  have hrooted := (soundNames_of_builds hsups hsvcs hnames hbuilds).rooted
  -- from `a` and `b` the links lead to `a` and `b` only
  have hstuck : ∀ k p, ReflTransGen (ParentLink SupervisorDef.key
      SupervisorDef.parentName cycleSupervisors) k p →
      k = "a" ∨ k = "b" → p = "a" ∨ p = "b" := by
    intro k p hchain hk
    induction hchain with
    | refl => exact hk
    | tail _ hlink ih =>
      obtain ⟨d, hd, -, rfl⟩ := hlink
      revert d
      decide
  have := hstuck "b" "root" (hrooted _ List.mem_cons_self) (Or.inr rfl)
  revert this
  decide

/-- A supervisor under the root with a service of its own. -/
theorem app_constructible :
    validateAll [{ service := { name := "web", supervisor := "app", exec := ["/bin/web"] } }]
        [appSupervisor] = []
      ∧ Constructible [appSupervisor]
        [{ service := { name := "web", supervisor := "app", exec := ["/bin/web"] } }] := by
  have hvalid : validateAll
      [{ service := { name := "web", supervisor := "app", exec := ["/bin/web"] } }]
      [appSupervisor] = [] := by decide
  refine ⟨hvalid, (validated_constructible_iff hvalid).2 ⟨?_, by decide, by decide⟩⟩
  intro d hd
  rw [List.mem_singleton] at hd
  subst hd
  exact ReflTransGen.refl

end Dynamod.Svmgr
