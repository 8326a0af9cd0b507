/-
Where the cgroups of services are. `service_path` joins the root of the
hierarchy with the name of the service, and nothing in the loading or
the validation of a configuration looks at names: every text is
accepted. So whether the cgroups of a configuration are separate
directories below the root is a matter of the names alone, and is said
here in terms of them (`cgroups_separate_iff`).
-/
import Dynamod.Svmgr.Cgroup
import Dynamod.Svmgr.Validate

namespace Dynamod.Svmgr

open Lib

variable (h : CgroupHierarchy)

/-- The directory of a service's cgroup. -/
def CgroupHierarchy.dirOf (name : String) : List Component :=
  resolve (h.servicePath name)

/-- `path` is strictly below `dir`. -/
def StrictlyBelow (path dir : List Component) : Prop :=
  ∃ tail, tail ≠ [] ∧ path = dir ++ tail

/-- The cgroups of a configuration are below the root, and none is, or
contains, that of a service of another name. -/
structure Separate (services : List ServiceDef) : Prop where
  below : ∀ svc ∈ services, StrictlyBelow (h.dirOf svc.service.name) (resolve h.root)
  apart : ∀ svc ∈ services, ∀ svc' ∈ services, svc.service.name ≠ svc'.service.name →
    ¬ h.dirOf svc.service.name <+: h.dirOf svc'.service.name

/-- The names of a configuration lead below `root`, each somewhere else
and none through another. -/
def NamesSeparate (root : List Component) (services : List ServiceDef) : Prop :=
  ∃ tail : String → List Component,
    (∀ svc ∈ services, tail svc.service.name ≠ []
      ∧ LeadsBelow root svc.service.name (tail svc.service.name))
    ∧ ∀ svc ∈ services, ∀ svc' ∈ services, svc.service.name ≠ svc'.service.name →
      ¬ tail svc.service.name <+: tail svc'.service.name

variable {h}

theorem CgroupHierarchy.dirOf_eq_iff {name : String} {tail : List Component} :
    h.dirOf name = resolve h.root ++ tail ↔ LeadsBelow (resolve h.root) name tail :=
  resolve_join_eq_iff h.absolute tail

variable (h)

/-- The cgroups of a configuration are separate if and only if its names
are. -/
theorem cgroups_separate_iff (services : List ServiceDef) :
    Separate h services ↔ NamesSeparate (resolve h.root) services := by
  constructor
  · intro hsep
    -- what is left of a directory after the root
    let tail := fun name => (h.dirOf name).drop (resolve h.root).length
    have hdir : ∀ svc ∈ services, tail svc.service.name ≠ []
        ∧ h.dirOf svc.service.name = resolve h.root ++ tail svc.service.name := by
      intro svc hsvc
      obtain ⟨rest, hrest, heq⟩ := hsep.below svc hsvc
      have htail : tail svc.service.name = rest := by
        show (h.dirOf svc.service.name).drop _ = rest
        rw [heq, List.drop_left]
      rw [htail]
      exact ⟨hrest, heq⟩
    refine ⟨tail, ?_, ?_⟩
    · intro svc hsvc
      exact ⟨(hdir svc hsvc).1, h.dirOf_eq_iff.1 (hdir svc hsvc).2⟩
    · intro svc hsvc svc' hsvc' hne hpre
      apply hsep.apart svc hsvc svc' hsvc' hne
      rw [(hdir svc hsvc).2, (hdir svc' hsvc').2, List.prefix_append_right_inj]
      exact hpre
  · intro hnames
    obtain ⟨tail, hbelow, hapart⟩ := hnames
    have hdir : ∀ svc ∈ services, h.dirOf svc.service.name
        = resolve h.root ++ tail svc.service.name :=
      fun svc hsvc => h.dirOf_eq_iff.2 (hbelow svc hsvc).2
    constructor
    · intro svc hsvc
      exact ⟨tail svc.service.name, (hbelow svc hsvc).1, hdir svc hsvc⟩
    · intro svc hsvc svc' hsvc' hne hpre
      rw [hdir svc hsvc, hdir svc' hsvc', List.prefix_append_right_inj] at hpre
      exact hapart svc hsvc svc' hsvc' hne hpre

/-- Plain names, each one component, are separate under every root. -/
theorem namesSeparate_of_plain {services : List ServiceDef}
    (hplain : ∀ svc ∈ services, Plain svc.service.name) (root : List Component) :
    NamesSeparate root services := by
  refine ⟨fun name => [name.toList], ?_, ?_⟩
  · intro svc hsvc
    exact ⟨List.cons_ne_nil _ _, LeadsBelow.of_plain (hplain svc hsvc) root⟩
  · intro svc _ svc' _ hne hpre
    have hlen := List.IsPrefix.eq_of_length hpre rfl
    have heq := String.toList_inj.1 (List.head_eq_of_cons_eq hlen)
    exact hne heq

/-- A definition with nothing but a name and a command. -/
def namedDef (name : String) : ServiceDef := { service := { name, exec := ["/bin/true"] } }

/-- The validation accepts every name, and any two different ones. -/
theorem every_name_validated (names : List String) (hnodup : names.Nodup) :
    validateAll (names.map namedDef) [] = [] := by
  have hnames : (names.map namedDef).map (fun svc => svc.service.name) = names := by
    rw [List.map_map]
    exact List.map_id names
  rw [validateAll_eq_nil]
  refine ⟨hnames.symm ▸ hnodup, List.nodup_nil, ?_, ?_, ?_⟩
  · intro svc hsvc
    obtain ⟨name, -, rfl⟩ := List.mem_map.1 hsvc
    simp [validateService, namedDef]
  · intro svc hsvc
    obtain ⟨name, -, rfl⟩ := List.mem_map.1 hsvc
    exact Or.inl rfl
  · intro svc hsvc dep hdep
    obtain ⟨name, -, rfl⟩ := List.mem_map.1 hsvc
    cases hdep

/-- Names that are accepted together need not be separate: one is
the parent of the root, one is outside it, one is the root itself, and
one lies inside another. -/
theorem accepted_names_collide : let names := ["..", "/etc", "", "web", "web/logs"]
    validateAll (names.map namedDef) [] = []
      ∧ CgroupHierarchy.init.dirOf ".." = ["sys", "fs", "cgroup"].map String.toList
      ∧ CgroupHierarchy.init.dirOf "/etc" = [['e', 't', 'c']]
      ∧ CgroupHierarchy.init.dirOf "" = resolve CgroupHierarchy.init.root
      ∧ CgroupHierarchy.init.dirOf "web" <+: CgroupHierarchy.init.dirOf "web/logs"
      ∧ ¬ Separate CgroupHierarchy.init (names.map namedDef) := by
  intro names
  have hinside : CgroupHierarchy.init.dirOf "web"
      <+: CgroupHierarchy.init.dirOf "web/logs" := by decide
  refine ⟨every_name_validated names (by decide), by decide, by decide, by decide, hinside, ?_⟩
  intro hsep
  exact hsep.apart (namedDef "web") (by decide) (namedDef "web/logs") (by decide)
    (by decide) hinside

/-- Two services with plain names have cgroups of their own. -/
theorem plain_names_separate : Separate CgroupHierarchy.init [namedDef "web", namedDef "db"] := by
  apply (cgroups_separate_iff CgroupHierarchy.init _).2
  apply namesSeparate_of_plain
  intro svc hsvc
  rcases List.mem_cons.1 hsvc with rfl | hsvc
  · exact ⟨by decide, by decide, by decide, by decide⟩
  · obtain rfl := List.mem_singleton.1 hsvc
    exact ⟨by decide, by decide, by decide, by decide⟩

end Dynamod.Svmgr
