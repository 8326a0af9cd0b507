/-
What the order of the supervisor definitions does to the tree. They
come in the order of a directory listing, and `main` enters them as
they come.

A supervisor whose definition comes before that of its parent is
dropped, and its services go to the root. Definitions that all sit
directly under the root can come in any order; as soon as one sits
deeper, an order that begins with it makes another tree than an order
in which parents come first.
-/
import Dynamod.Svmgr.Proofs.Build

namespace Dynamod.Svmgr

open Lib Relation SupervisorTree

variable {ds es : List SupervisorDef}

/-- From the parent of every definition the parent links lead to the
root: with distinct names, they form a tree rooted there. -/
def RootedAtRoot (ds : List SupervisorDef) : Prop :=
  ∀ d ∈ ds, ReflTransGen (ParentLink SupervisorDef.key SupervisorDef.parentName ds)
    d.parentName "root"

theorem RootedAtRoot.leadsTo (h : RootedAtRoot ds) :
    LeadsTo SupervisorDef.key SupervisorDef.parentName (· = "root") ds :=
  fun d hd => ⟨"root", h d hd, rfl⟩

-- ==== all under the root

/-- With every supervisor under the root the tree is fixed by the names
alone. -/
theorem flat_supervisors (hnames : (ds.map SupervisorDef.key).Nodup)
    (hflat : ∀ d ∈ ds, d.parentName = "root") : let t := ds.foldl addSupervisorDef rootTree
    Declared ds t
      ∧ (∀ n, n ∈ t.nodes ↔ n = "root" ∨ n ∈ ds.map SupervisorDef.key)
      ∧ ∀ n, t.parentOf n
        = if n ≠ "root" ∧ n ∈ ds.map SupervisorDef.key then some "root" else none := by
  intro t
  have hdecl : Declared ds t := (Declared.rootTree ds).foldl (List.Subset.refl _)
  have hfirst : ∀ (es : List SupervisorDef) (known : NodeId → Prop), es ⊆ ds →
      known "root" → ParentsFirst SupervisorDef.key SupervisorDef.parentName known es := by
    intro es
    induction es with
    | nil => exact fun _ _ _ => True.intro
    | cons e es ih =>
      intro known hes hknown
      obtain ⟨he, hes⟩ := List.cons_subset.1 hes
      exact ⟨hflat e he ▸ hknown, ih _ hes (Or.inl hknown)⟩
  -- all parents are the root, so every definition is accepted
  obtain ⟨-, hall⟩ := accepted_from_root hnames
    (hfirst ds (· = "root") (List.Subset.refl _) rfl)
  have hmem : ∀ n, n ∈ t.nodes ↔ n = "root" ∨ n ∈ ds.map SupervisorDef.key := by
    intro n
    constructor
    · intro hn
      by_cases hroot : n = "root"
      · exact Or.inl hroot
      · obtain ⟨d, hd, hkey, -⟩ := hdecl.node n hn hroot
        exact Or.inr (List.mem_map.2 ⟨d, hd, hkey⟩)
    · rintro (rfl | hn)
      · exact hdecl.root_mem
      · obtain ⟨d, hd, rfl⟩ := List.mem_map.1 hn
        exact hall d hd
  refine ⟨hdecl, hmem, fun n => ?_⟩
  by_cases hroot : n = "root"
  · rw [if_neg fun h => h.1 hroot, hroot]
    exact hdecl.parentOf_root
  · by_cases hn : n ∈ ds.map SupervisorDef.key
    · rw [if_pos ⟨hroot, hn⟩]
      obtain ⟨d, hd, -, hparent⟩ := hdecl.node n ((hmem n).2 (Or.inr hn)) hroot
      rw [hparent, hflat d hd]
    · rw [if_neg fun h => hn h.2]
      cases hp : t.parentOf n with
      | none => rfl
      | some p =>
        have := (hmem n).1 (mem_nodes_of_parentOf hp)
        exact absurd this (by simp [hroot, hn])

theorem sameTree_of_flat (hnames : (ds.map SupervisorDef.key).Nodup)
    (hflat : ∀ d ∈ ds, d.parentName = "root") (hperm : es.Perm ds) (services : List ServiceDef) :
    SameTree (buildTree ds services) (buildTree es services) := by
  have hkeys : (es.map SupervisorDef.key).Perm (ds.map SupervisorDef.key) :=
    hperm.map SupervisorDef.key
  obtain ⟨hdecl, hmem, hparent⟩ := flat_supervisors hnames hflat
  obtain ⟨hdecl', hmem', hparent'⟩ := flat_supervisors (hkeys.nodup_iff.2 hnames)
    fun d hd => hflat d (hperm.subset hd)
  apply SameTree.foldl
  have hnodes : ∀ n, n ∈ (es.foldl addSupervisorDef rootTree).nodes
      ↔ n ∈ (ds.foldl addSupervisorDef rootTree).nodes := by
    intro n
    rw [hmem', hmem, hkeys.mem_iff]
  refine ⟨fun n => ?_, fun n => ?_, fun n => ?_⟩
  · rw [Bool.eq_iff_iff, hdecl.isSome_getSupervisor, hdecl'.isSome_getSupervisor]
    exact hnodes n
  · rw [hdecl.getWorker_none, hdecl'.getWorker_none]
  · rw [hparent, hparent']
    simp only [hkeys.mem_iff]

-- ==== one deeper

/-- A definition that comes first and names another parent than the
root is dropped. -/
theorem first_dropped {d : SupervisorDef} (hnames : ((d :: es).map SupervisorDef.key).Nodup)
    (hdeep : d.parentName ≠ "root") (services : List ServiceDef) :
    ((buildTree (d :: es) services).getSupervisor d.key).isSome = false := by
  have hroot : d.key ≠ "root" := fun h => hdeep (if_pos h)
  have hdrop : addSupervisorDef rootTree d = rootTree := by
    refine addSupervisorDef_refused hroot fun hcall => hdeep ?_
    rw [(Declared.rootTree []).isSome_getSupervisor] at hcall
    exact (Finmap.mem_singleton _ _ _).1 hcall.2
  have hdecl : Declared es (es.foldl addSupervisorDef rootTree) :=
    (Declared.rootTree es).foldl (List.Subset.refl _)
  unfold buildTree
  rw [isSome_getSupervisor_foldl, List.foldl_cons, hdrop, Bool.eq_false_iff]
  intro hsome
  rw [hdecl.isSome_getSupervisor] at hsome
  obtain ⟨e, he, hkey, -⟩ := hdecl.node d.key hsome hroot
  exact (List.nodup_cons.1 hnames).1 (List.mem_map.2 ⟨e, he, hkey⟩)

/-- In an order in which parents come first nothing is dropped. -/
theorem exists_order_keeping_all (hnames : (ds.map SupervisorDef.key).Nodup)
    (hrooted : RootedAtRoot ds) (services : List ServiceDef) : ∃ es, es.Perm ds ∧ ∀ d ∈ ds,
      ((buildTree es services).getSupervisor d.key).isSome = true := by
  obtain ⟨es, hperm, hfirst⟩ := exists_parentsFirst hrooted.leadsTo
  have hnames' : (es.map SupervisorDef.key).Nodup :=
    (hperm.map SupervisorDef.key).nodup_iff.2 hnames
  obtain ⟨-, hall⟩ := accepted_from_root hnames' hfirst
  refine ⟨es, hperm, fun d hd => ?_⟩
  unfold buildTree
  rw [isSome_getSupervisor_foldl]
  exact ((Declared.rootTree es).foldl (List.Subset.refl _)).kind _
    (hall d (hperm.symm.subset hd))

/-- For definitions with distinct names whose parent links form a tree
rooted at the root: every order makes the same tree if and only if every
supervisor sits directly under the root. -/
theorem order_independent_iff_flat (hnames : (ds.map SupervisorDef.key).Nodup)
    (hrooted : RootedAtRoot ds) (services : List ServiceDef) :
    (∀ es, es.Perm ds → SameTree (buildTree ds services) (buildTree es services))
      ↔ ∀ d ∈ ds, d.parentName = "root" := by
  constructor
  · intro hsame d hd
    by_contra hdeep
    obtain ⟨kept, hkept, hall⟩ := exists_order_keeping_all hnames hrooted services
    -- `d` first, and the others after it
    have hfront : (d :: ds.erase d).Perm ds := (List.perm_cons_erase hd).symm
    have hnames' : ((d :: ds.erase d).map SupervisorDef.key).Nodup :=
      (hfront.map SupervisorDef.key).nodup_iff.2 hnames
    have hdropped := first_dropped hnames' hdeep services
    rw [(hsame _ hfront).supervisor, ← (hsame _ hkept).supervisor, hall d hd] at hdropped
    cases hdropped
  · intro hflat es hperm
    exact sameTree_of_flat hnames hflat hperm services

-- ==== a supervisor two levels down

/-- `app` under the root. -/
def appSupervisor : SupervisorDef := { supervisor := { name := "app" } }

/-- `db` under `app`. -/
def dbSupervisor : SupervisorDef :=
  { supervisor := { name := "db", parent := some "app" } }

def dbService : ServiceDef :=
  { service := { name := "postgres", supervisor := "db", exec := ["/bin/postgres"] } }

/-- Listed after its parent, `db` is a supervisor with a service; listed
before it, there is no `db` and the service is under the root. -/
theorem nested_supervisor_dropped : ([appSupervisor, dbSupervisor].map SupervisorDef.key).Nodup
    ∧ RootedAtRoot [appSupervisor, dbSupervisor]
    ∧ (buildTree [appSupervisor, dbSupervisor] [dbService]).parentOf "postgres"
        = some "db"
    ∧ (buildTree [dbSupervisor, appSupervisor] [dbService]).parentOf "postgres"
        = some "root"
    ∧ (buildTree [dbSupervisor, appSupervisor] [dbService]).get "db" = none
    ∧ ¬ SameTree (buildTree [appSupervisor, dbSupervisor] [dbService])
        (buildTree [dbSupervisor, appSupervisor] [dbService]) := by
  refine ⟨by decide, ?_, by decide, by decide, by decide, ?_⟩
  · intro d hd
    have hup : ParentLink SupervisorDef.key SupervisorDef.parentName
        [appSupervisor, dbSupervisor] "app" "root" :=
      ⟨appSupervisor, List.mem_cons_self, rfl, rfl⟩
    rcases List.mem_cons.1 hd with rfl | hd
    · exact ReflTransGen.refl
    · rw [List.mem_singleton] at hd
      subst hd
      exact ReflTransGen.single hup
  · intro h
    have hparent := h.parent "postgres"
    revert hparent
    decide

/-- Two supervisors under the root, in either order. -/
theorem flat_order_irrelevant : let db : SupervisorDef := { supervisor := { name := "db" } }
    SameTree (buildTree [appSupervisor, db] [dbService])
      (buildTree [db, appSupervisor] [dbService]) := by
  intro db
  refine (order_independent_iff_flat (by decide) ?_ [dbService]).2 ?_ _
    (List.Perm.swap appSupervisor db [])
  · intro d hd
    rcases List.mem_cons.1 hd with rfl | hd
    · exact ReflTransGen.refl
    · rw [List.mem_singleton] at hd
      subst hd
      exact ReflTransGen.refl
  · decide

end Dynamod.Svmgr
