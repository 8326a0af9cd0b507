/-
The dependency graph (`dependency/graph.rs`). `Edges` is the data
`DependencyGraph::build` fills in, loop by loop; `DependencyGraph` is
that data with the three facts every consumer relies on, so that a
graph without them cannot be built:

- `reverse_deps` is the converse of `hard_deps`;
- a `requires` edge is also a dependency edge;
- both ends of an edge are services.

`build` establishes them by one invariant (`Edges.Ok`) that each of
the four loops keeps.
-/
import Dynamod.Lib.Maps
import Dynamod.Lib.DepthFirst
import Dynamod.Svmgr.Config

namespace Dynamod.Svmgr

open Lib Relation

variable {s d : String} {S : Finset String}

-- ==== the data

/-- The four collections of `DependencyGraph`. `hardDeps` holds all
dependency edges (requires, wants, after and the converse of before),
`requires` the hard ones alone, `reverseDeps` the converse of
`hardDeps`. -/
structure Edges where
  hardDeps : HashMap String (Finset String)
  requires : HashMap String (Finset String)
  reverseDeps : HashMap String (Finset String)
  services : Finset String

variable {e : Edges}

/-- The set stored under a name, empty for a name without an entry
(`.get(service).unwrap_or(&EMPTY)`). -/
def edgesOf (m : HashMap String (Finset String)) (s : String) : Finset String :=
  (m.lookup s).getD ∅

namespace Edges

/-- Every service starts with three empty sets. -/
def init (defs : List ServiceDef) : Edges :=
  let names := defs.map (·.service.name)
  let empty : HashMap String (Finset String) :=
    names.foldl (fun m name => m.insert name ∅) ∅
  { hardDeps := empty, requires := empty, reverseDeps := empty,
    services := names.toFinset }

/-- `name` depends on `dep`: an ordering edge and its converse. -/
def addOrder (e : Edges) (name dep : String) : Edges :=
  { e with
    hardDeps := e.hardDeps.modify name (insert dep)
    reverseDeps := e.reverseDeps.modify dep (insert name) }

/-- `name` requires `dep`: an ordering edge that also propagates
failure. -/
def addRequire (e : Edges) (name dep : String) : Edges :=
  { e.addOrder name dep with
    requires := e.requires.modify name (insert dep) }

/-- The edges of one definition; a dependency that names no service is
skipped. -/
def addDef (e : Edges) (d : ServiceDef) : Edges :=
  let name := d.service.name
  let e := d.dependencies.requires.foldl
    (fun e dep => if dep ∈ e.services then e.addRequire name dep else e) e
  let e := d.dependencies.wants.foldl
    (fun e dep => if dep ∈ e.services then e.addOrder name dep else e) e
  let e := d.dependencies.after.foldl
    (fun e dep => if dep ∈ e.services then e.addOrder name dep else e) e
  d.dependencies.before.foldl
    (fun e dep => if dep ∈ e.services then e.addOrder dep name else e) e

-- ==== the invariant

/-- What the loops of `build` maintain: every service has its three
entries, and the edge sets agree with one another. -/
structure Ok (e : Edges) : Prop where
  hard_mem : ∀ s ∈ e.services, s ∈ e.hardDeps
  reverse_mem : ∀ s ∈ e.services, s ∈ e.reverseDeps
  converse : ∀ s d, s ∈ edgesOf e.reverseDeps d ↔ d ∈ edgesOf e.hardDeps s
  requires_sub : ∀ s, edgesOf e.requires s ⊆ edgesOf e.hardDeps s
  closed : ∀ s d, d ∈ edgesOf e.hardDeps s → s ∈ e.services ∧ d ∈ e.services

theorem mem_edgesOf_modify {m : HashMap String (Finset String)}
    {k v x : String} : x ∈ edgesOf (m.modify k (insert v)) s
      ↔ x ∈ edgesOf m s ∨ (s = k ∧ x = v ∧ k ∈ m) := by
  unfold edgesOf
  rw [HashMap.lookup_modify, ← Finmap.lookup_isSome]
  by_cases hs : s = k
  · subst hs
    cases m.lookup s with
    | none => simp
    | some e => simp [or_comm]
  · simp [hs]

private theorem mem_foldl_insert_empty (names : List String) :
    ∀ (m : HashMap String (Finset String)) (s : String),
      s ∈ names.foldl (fun m name => m.insert name ∅) m ↔ s ∈ names ∨ s ∈ m := by
  induction names with
  | nil => intro m s; simp
  | cons n names ih =>
    intro m s
    rw [List.foldl_cons, ih, Finmap.mem_insert, List.mem_cons]
    tauto

private theorem edgesOf_foldl_insert_empty (names : List String)
    (m : HashMap String (Finset String)) (hm : ∀ s, edgesOf m s = ∅) :
    ∀ s, edgesOf (names.foldl (fun m name => m.insert name ∅) m) s = ∅ := by
  refine List.foldlRecOn names _ (motive := fun m => ∀ s, edgesOf m s = ∅) hm ?_
  intro m hm name _ s
  unfold edgesOf
  rw [HashMap.lookup_insert_ite]
  split
  · rfl
  · exact hm s

/-- The services have their entries before the first edge is added. -/
theorem init_mem {defs : List ServiceDef} : s ∈ (init defs).hardDeps ↔ s ∈ (init defs).services :=
  (mem_foldl_insert_empty _ _ _).trans
    ((or_iff_left (Finmap.notMem_empty)).trans List.mem_toFinset.symm)

theorem edgesOf_init (defs : List ServiceDef) (s : String) : edgesOf (init defs).hardDeps s = ∅ :=
  edgesOf_foldl_insert_empty _ _ (fun s => by simp [edgesOf]) s

theorem init_ok (defs : List ServiceDef) : (init defs).Ok := by
  refine ⟨fun _ => init_mem.2, fun _ => init_mem.2, fun s d => ?_,
    fun s => Finset.Subset.refl _, fun s d h => ?_⟩
  · show s ∈ edgesOf (init defs).hardDeps d ↔ _
    rw [edgesOf_init, edgesOf_init]
    simp
  · rw [edgesOf_init] at h
    simp at h

theorem addOrder_ok (he : e.Ok) {name dep : String}
    (hn : name ∈ e.services) (hd : dep ∈ e.services) : (e.addOrder name dep).Ok where
  hard_mem s hs := HashMap.mem_modify.2 (he.hard_mem s hs)
  reverse_mem s hs := HashMap.mem_modify.2 (he.reverse_mem s hs)
  converse s d := by
    have h₁ := he.hard_mem name hn
    have h₂ := he.reverse_mem dep hd
    simp only [addOrder, mem_edgesOf_modify, he.converse s d, h₁, h₂]
    tauto
  requires_sub s d h := by
    rw [addOrder, mem_edgesOf_modify]
    exact Or.inl (he.requires_sub s h)
  closed s d h := by
    rw [addOrder, mem_edgesOf_modify] at h
    rcases h with h | ⟨rfl, rfl, -⟩
    · exact he.closed s d h
    · exact ⟨hn, hd⟩

theorem addRequire_ok (he : e.Ok) {name dep : String}
    (hn : name ∈ e.services) (hd : dep ∈ e.services) : (e.addRequire name dep).Ok := by
  have ho := addOrder_ok he hn hd
  refine ⟨ho.hard_mem, ho.reverse_mem, ho.converse, fun s d h => ?_, ho.closed⟩
  rw [addRequire, mem_edgesOf_modify] at h
  rcases h with h | ⟨rfl, rfl, -⟩
  · exact ho.requires_sub s h
  · show d ∈ edgesOf (e.hardDeps.modify s (insert d)) s
    rw [mem_edgesOf_modify]
    exact Or.inr ⟨rfl, rfl, he.hard_mem s hn⟩

/-- The invariant, over services that stay as they are. -/
def OkOver (S : Finset String) (e : Edges) : Prop := e.Ok ∧ e.services = S

/-- One loop of `addDef`, where `add` keeps the invariant between services. -/
private theorem foldl_deps_ok {add : Edges → String → Edges}
    (hadd : ∀ e dep, OkOver S e → dep ∈ S → OkOver S (add e dep)) (deps : List String)
    (he : OkOver S e) :
    OkOver S (deps.foldl (fun e dep => if dep ∈ e.services then add e dep else e) e) := by
  refine List.foldlRecOn deps _ (motive := OkOver S) he ?_
  intro e h dep _
  split
  · next hdep => exact hadd e dep h (h.2 ▸ hdep)
  · exact h

theorem addDef_ok (he : OkOver S e) {d : ServiceDef} (hd : d.service.name ∈ S) :
    OkOver S (e.addDef d) := by
  have hreq : ∀ e dep, OkOver S e → dep ∈ S → OkOver S (e.addRequire d.service.name dep) := by
    intro e dep he hdep
    exact ⟨addRequire_ok he.1 (he.2 ▸ hd) (he.2 ▸ hdep), he.2⟩
  have hafter : ∀ e dep, OkOver S e → dep ∈ S → OkOver S (e.addOrder d.service.name dep) := by
    intro e dep he hdep
    exact ⟨addOrder_ok he.1 (he.2 ▸ hd) (he.2 ▸ hdep), he.2⟩
  have hbefore : ∀ e dep, OkOver S e → dep ∈ S → OkOver S (e.addOrder dep d.service.name) := by
    intro e dep he hdep
    exact ⟨addOrder_ok he.1 (he.2 ▸ hdep) (he.2 ▸ hd), he.2⟩
  have h₁ := foldl_deps_ok hreq d.dependencies.requires he
  have h₂ := foldl_deps_ok hafter d.dependencies.wants h₁
  have h₃ := foldl_deps_ok hafter d.dependencies.after h₂
  exact foldl_deps_ok hbefore d.dependencies.before h₃

/-- The edges of all definitions. -/
def ofDefs (defs : List ServiceDef) : Edges :=
  defs.foldl addDef (init defs)

theorem ofDefs_ok (defs : List ServiceDef) : OkOver (init defs).services (ofDefs defs) := by
  refine List.foldlRecOn defs addDef (motive := OkOver _) ⟨init_ok defs, rfl⟩ ?_
  intro e he d hd
  exact addDef_ok he (List.mem_toFinset.2 (List.mem_map_of_mem hd))

end Edges

-- ==== the graph

/-- A dependency graph: the collections of `Edges` with the agreement
between them that `build` establishes. -/
structure DependencyGraph extends Edges where
  converse : ∀ s d, s ∈ edgesOf reverseDeps d ↔ d ∈ edgesOf hardDeps s
  requires_sub : ∀ s, edgesOf requires s ⊆ edgesOf hardDeps s
  closed : ∀ s d, d ∈ edgesOf hardDeps s → s ∈ services ∧ d ∈ services

namespace DependencyGraph

def build (defs : List ServiceDef) : DependencyGraph where
  toEdges := Edges.ofDefs defs
  converse := (Edges.ofDefs_ok defs).1.converse
  requires_sub := (Edges.ofDefs_ok defs).1.requires_sub
  closed := (Edges.ofDefs_ok defs).1.closed

variable (g : DependencyGraph)

/-- `dependencies_of`: requires, wants, after and converse before. -/
def dependenciesOf (s : String) : Finset String := edgesOf g.hardDeps s

/-- `requires_of`: the hard dependencies. -/
def requiresOf (s : String) : Finset String := edgesOf g.requires s

def dependentsOf (s : String) : Finset String := edgesOf g.reverseDeps s

def allServices : Finset String := g.services

variable {g}

theorem build_allServices (defs : List ServiceDef) :
    (build defs).allServices = (defs.map (·.service.name)).toFinset :=
  (Edges.ofDefs_ok defs).2

theorem mem_dependentsOf : s ∈ g.dependentsOf d ↔ d ∈ g.dependenciesOf s := g.converse s d

theorem requiresOf_subset (h : d ∈ g.requiresOf s) : d ∈ g.dependenciesOf s := g.requires_sub s h

theorem dependent_mem (h : d ∈ g.dependenciesOf s) : s ∈ g.allServices := (g.closed s d h).1

theorem dependency_mem (h : d ∈ g.dependenciesOf s) : d ∈ g.allServices := (g.closed s d h).2

variable (g)

/-- `s` requires `d` directly. -/
def Requires (s d : String) : Prop := d ∈ g.requiresOf s

/-- `s` depends on `d` directly, softly or hard. -/
def DependsOn (s d : String) : Prop := d ∈ g.dependenciesOf s

/-- No chain of dependencies returns to its start. -/
def Acyclic : Prop := ∀ s, ¬ TransGen g.DependsOn s s

variable {g}

/-- Induction over an acyclic graph: what holds of a service whenever
it holds of all its dependencies holds of every service. -/
theorem Acyclic.induction (hac : g.Acyclic) {P : String → Prop}
    (step : ∀ s, (∀ d ∈ g.dependenciesOf s, P d) → P s) (s : String) : P s :=
  acyclic_induction g.allServices (fun _ _ h => dependency_mem h) hac step s

/-- A rank that drops along every dependency rules cycles out. -/
theorem acyclic_of_rank (rank : String → Nat)
    (h : ∀ s ∈ g.allServices, ∀ d ∈ g.dependenciesOf s, rank d < rank s) : g.Acyclic := by
  have hchain : ∀ a b, TransGen g.DependsOn a b → rank b < rank a := by
    intro a b hab
    induction hab with
    | single hd => exact h _ (dependent_mem hd) _ hd
    | tail _ hd ih => exact Nat.lt_trans (h _ (dependent_mem hd) _ hd) ih
  intro s hs
  exact Nat.lt_irrefl _ (hchain s s hs)

end DependencyGraph

end Dynamod.Svmgr
