/-
What `DependencyGraph::build` makes of a list of definitions.

The edges in the maps are those the definitions seen so far declare
(`Holds`): one edge more in the loops over a definition's lists
(`Holds.addOrder`, `Holds.addRequire`), one definition more in the loop
over the definitions (`Holds.addDef`). The maps have an entry for every
service and for nothing else, so the graph is what its edges are, and
the order in which they were added is gone (`Holds.unique`).
-/
import Dynamod.Svmgr.Graph

namespace Dynamod.Svmgr

open Lib

variable {defs : List ServiceDef}

-- ==== what is declared

/-- There is a definition of the service. -/
def IsDefined (defs : List ServiceDef) (s : String) : Prop :=
  ∃ f ∈ defs, f.service.name = s

/-- The definition orders `s` behind `d`. -/
def ServiceDef.Orders (f : ServiceDef) (s d : String) : Prop :=
  f.service.name = s ∧ (d ∈ f.dependencies.requires ∨ d ∈ f.dependencies.wants
      ∨ d ∈ f.dependencies.after)
    ∨ f.service.name = d ∧ s ∈ f.dependencies.before

/-- The definition makes `s` require `d`. -/
def ServiceDef.MakesRequire (f : ServiceDef) (s d : String) : Prop :=
  f.service.name = s ∧ d ∈ f.dependencies.requires

namespace Edges

/-- The services are `S`, each has its three entries, and the edges are
the given ones. -/
structure Holds (S : Finset String) (orders requires : String → String → Prop)
    (e : Edges) : Prop where
  services : e.services = S
  hard_keys : ∀ s, s ∈ e.hardDeps ↔ s ∈ S
  require_keys : ∀ s, s ∈ e.requires ↔ s ∈ S
  reverse_keys : ∀ s, s ∈ e.reverseDeps ↔ s ∈ S
  hard : ∀ s d, d ∈ edgesOf e.hardDeps s ↔ orders s d
  require : ∀ s d, d ∈ edgesOf e.requires s ↔ requires s d

variable {S : Finset String} {orders requires : String → String → Prop} {e : Edges}
  {name : String}

theorem Holds.congr {orders' requires' : String → String → Prop}
    (h : Holds S orders requires e) (ho : ∀ s d, orders s d ↔ orders' s d)
    (hr : ∀ s d, requires s d ↔ requires' s d) : Holds S orders' requires' e where
  services := h.services
  hard_keys := h.hard_keys
  require_keys := h.require_keys
  reverse_keys := h.reverse_keys
  hard s d := (h.hard s d).trans (ho s d)
  require s d := (h.require s d).trans (hr s d)

-- ==== one edge

theorem Holds.addOrder (h : Holds S orders requires e) (hn : name ∈ S) (dep : String) :
    Holds S (fun s d => orders s d ∨ s = name ∧ d = dep) requires (e.addOrder name dep) where
  services := h.services
  hard_keys s := HashMap.mem_modify.trans (h.hard_keys s)
  require_keys := h.require_keys
  reverse_keys s := HashMap.mem_modify.trans (h.reverse_keys s)
  hard s d := by
    have hkey := (h.hard_keys name).2 hn
    rw [Edges.addOrder, mem_edgesOf_modify, h.hard]
    exact or_congr_right (and_congr_right fun _ => and_iff_left hkey)
  require := h.require

theorem Holds.addRequire (h : Holds S orders requires e) (hn : name ∈ S) (dep : String) :
    Holds S (fun s d => orders s d ∨ s = name ∧ d = dep)
      (fun s d => requires s d ∨ s = name ∧ d = dep) (e.addRequire name dep) := by
  have ho := h.addOrder hn dep
  refine ⟨ho.services, ho.hard_keys, fun s => ?_, ho.reverse_keys, ho.hard, fun s d => ?_⟩
  · exact HashMap.mem_modify.trans (h.require_keys s)
  · have hkey := (h.require_keys name).2 hn
    rw [Edges.addRequire, mem_edgesOf_modify, h.require]
    exact or_congr_right (and_congr_right fun _ => and_iff_left hkey)

-- ==== the loops

/-- A loop over the names of one list: each that is a service adds its
edges. -/
theorem Holds.loop {add : Edges → String → Edges} (new newReq : String → String → String → Prop)
    (hadd : ∀ {orders requires e} (dep : String), Holds S orders requires e → dep ∈ S →
      Holds S (fun s d => orders s d ∨ new dep s d) (fun s d => requires s d ∨ newReq dep s d)
        (add e dep)) (deps : List String) : ∀ {orders requires e}, Holds S orders requires e →
      Holds S (fun s d => orders s d ∨ ∃ dep ∈ deps, dep ∈ S ∧ new dep s d)
        (fun s d => requires s d ∨ ∃ dep ∈ deps, dep ∈ S ∧ newReq dep s d)
        (deps.foldl (fun e dep => if dep ∈ e.services then add e dep else e) e) := by
  induction deps with
  | nil =>
    intro orders requires e h
    exact h.congr (fun s d => by simp) fun s d => by simp
  | cons dep deps ih =>
    intro orders requires e h
    rw [List.foldl_cons, h.services]
    by_cases hdep : dep ∈ S
    · rw [if_pos hdep]
      refine (ih (hadd dep h hdep)).congr (fun s d => ?_) fun s d => ?_
      · simp [hdep, or_assoc]
      · simp [hdep, or_assoc]
    · rw [if_neg hdep]
      refine (ih h).congr (fun s d => ?_) fun s d => ?_
      · simp [hdep]
      · simp [hdep]

theorem Holds.requireLoop (h : Holds S orders requires e) (hn : name ∈ S) (deps : List String) :
    Holds S (fun s d => orders s d ∨ s = name ∧ d ∈ deps ∧ d ∈ S)
      (fun s d => requires s d ∨ s = name ∧ d ∈ deps ∧ d ∈ S)
      (deps.foldl (fun e dep => if dep ∈ e.services then e.addRequire name dep else e) e) := by
  have hdep : ∀ s d, (∃ dep ∈ deps, dep ∈ S ∧ s = name ∧ d = dep)
      ↔ s = name ∧ d ∈ deps ∧ d ∈ S := by
    intro s d
    constructor
    · rintro ⟨dep, hmem, hS, hs, rfl⟩
      exact ⟨hs, hmem, hS⟩
    · rintro ⟨hs, hmem, hS⟩
      exact ⟨d, hmem, hS, hs, rfl⟩
  have hloop := Holds.loop _ _ (fun dep h _ => h.addRequire hn dep) deps h
  exact hloop.congr (fun s d => or_congr_right (hdep s d)) fun s d => or_congr_right (hdep s d)

/-- The loops that order the ends of an edge, as they are found from the
name in the list. -/
theorem Holds.orderLoop (h : Holds S orders requires e) (src dst : String → String)
    (hsrc : ∀ dep ∈ S, src dep ∈ S) (deps : List String) :
    Holds S (fun s d => orders s d ∨ ∃ dep ∈ deps, dep ∈ S ∧ s = src dep ∧ d = dst dep) requires
      (deps.foldl (fun e dep => if dep ∈ e.services then e.addOrder (src dep) (dst dep) else e)
        e) := by
  have hadd : ∀ {orders requires e} (dep : String), Holds S orders requires e → dep ∈ S →
      Holds S (fun s d => orders s d ∨ s = src dep ∧ d = dst dep)
        (fun s d => requires s d ∨ False) (e.addOrder (src dep) (dst dep)) := by
    intro orders requires e dep h hdep
    exact (h.addOrder (hsrc dep hdep) _).congr (fun _ _ => Iff.rfl) fun _ _ => by simp
  exact (Holds.loop _ _ hadd deps h).congr (fun _ _ => Iff.rfl) fun _ _ => by simp

theorem Holds.addDef (h : Holds S orders requires e) {f : ServiceDef}
    (hf : f.service.name ∈ S) : Holds S (fun s d => orders s d ∨ s ∈ S ∧ d ∈ S ∧ f.Orders s d)
      (fun s d => requires s d ∨ d ∈ S ∧ f.MakesRequire s d) (e.addDef f) := by
  have h₁ := h.requireLoop hf f.dependencies.requires
  have h₂ := h₁.orderLoop (fun _ => f.service.name) id (fun _ _ => hf) f.dependencies.wants
  have h₃ := h₂.orderLoop (fun _ => f.service.name) id (fun _ _ => hf) f.dependencies.after
  have h₄ := h₃.orderLoop id (fun _ => f.service.name) (fun _ h => h) f.dependencies.before
  refine h₄.congr (fun s d => ?_) fun s d => ?_
  · unfold ServiceDef.Orders
    aesop
  · unfold ServiceDef.MakesRequire
    aesop

theorem Holds.addDefs (defs : List ServiceDef) : ∀ {orders requires e},
    Holds S orders requires e → (∀ f ∈ defs, f.service.name ∈ S) →
      Holds S (fun s d => orders s d ∨ s ∈ S ∧ d ∈ S ∧ ∃ f ∈ defs, f.Orders s d)
        (fun s d => requires s d ∨ d ∈ S ∧ ∃ f ∈ defs, f.MakesRequire s d)
        (defs.foldl Edges.addDef e) := by
  induction defs with
  | nil =>
    intro orders requires e h _
    exact h.congr (fun s d => by simp) fun s d => by simp
  | cons f defs ih =>
    intro orders requires e h hnames
    have hstep := h.addDef (hnames f List.mem_cons_self)
    refine (ih hstep fun f' hf' => hnames f' (List.mem_cons_of_mem _ hf')).congr ?_ ?_
    · intro s d
      rw [List.exists_mem_cons_iff]
      tauto
    · intro s d
      rw [List.exists_mem_cons_iff]
      tauto

-- ==== the whole

theorem init_holds (defs : List ServiceDef) :
    Holds (init defs).services (fun _ _ => False) (fun _ _ => False) (init defs) := by
  have hedges : ∀ s d, d ∈ edgesOf (init defs).hardDeps s ↔ False := by
    intro s d
    rw [edgesOf_init]
    simp
  exact ⟨rfl, fun _ => init_mem, fun _ => init_mem, fun _ => init_mem, hedges, hedges⟩

theorem edgesOf_ext {m m' : HashMap String (Finset String)} (hkeys : ∀ s, s ∈ m ↔ s ∈ m')
    (hedges : ∀ s d, d ∈ edgesOf m s ↔ d ∈ edgesOf m' s) : m = m' := by
  refine Finmap.ext_lookup fun s => ?_
  have hkey := hkeys s
  have hset := Finset.ext (hedges s)
  rw [← Finmap.lookup_isSome, ← Finmap.lookup_isSome] at hkey
  unfold edgesOf at hset
  cases hm : m.lookup s with
  | none =>
    cases hm' : m'.lookup s with
    | none => rfl
    | some _ => simp [hm, hm'] at hkey
  | some _ =>
    cases hm' : m'.lookup s with
    | none => simp [hm, hm'] at hkey
    | some _ =>
      rw [hm, hm'] at hset
      exact congrArg some hset

/-- Collections with the same edges are the same. -/
theorem Holds.unique {e' : Edges} (h : Holds S orders requires e)
    (h' : Holds S orders requires e') (he : e.Ok) (he' : e'.Ok) : e = e' := by
  have hhard : e.hardDeps = e'.hardDeps :=
    edgesOf_ext (fun s => (h.hard_keys s).trans (h'.hard_keys s).symm)
      fun s d => (h.hard s d).trans (h'.hard s d).symm
  have hrequire : e.requires = e'.requires :=
    edgesOf_ext (fun s => (h.require_keys s).trans (h'.require_keys s).symm)
      fun s d => (h.require s d).trans (h'.require s d).symm
  have hreverse : e.reverseDeps = e'.reverseDeps := by
    refine edgesOf_ext (fun s => (h.reverse_keys s).trans (h'.reverse_keys s).symm) ?_
    intro d s
    rw [he.converse, he'.converse, hhard]
  have hservices : e.services = e'.services := h.services.trans h'.services.symm
  cases e
  cases e'
  cases hhard
  cases hrequire
  cases hreverse
  cases hservices
  rfl

theorem ofDefs_holds (defs : List ServiceDef) : Holds (init defs).services
    (fun s d => IsDefined defs s ∧ IsDefined defs d ∧ ∃ f ∈ defs, f.Orders s d)
    (fun s d => IsDefined defs d ∧ ∃ f ∈ defs, f.MakesRequire s d) (ofDefs defs) := by
  have hdefined : ∀ s, s ∈ (init defs).services ↔ IsDefined defs s := by
    intro s
    exact List.mem_toFinset.trans List.mem_map
  refine ((init_holds defs).addDefs defs fun f hf => ?_).congr (fun s d => ?_) fun s d => ?_
  · exact (hdefined _).2 ⟨f, hf, rfl⟩
  · rw [hdefined, hdefined, false_or]
  · rw [hdefined, false_or]

end Edges

namespace DependencyGraph

theorem mem_dependenciesOf_build {s d : String} : d ∈ (build defs).dependenciesOf s ↔
    IsDefined defs s ∧ IsDefined defs d ∧ ∃ f ∈ defs, f.Orders s d :=
  (Edges.ofDefs_holds defs).hard s d

theorem mem_requiresOf_build {s d : String} :
    d ∈ (build defs).requiresOf s ↔ IsDefined defs d ∧ ∃ f ∈ defs, f.MakesRequire s d :=
  (Edges.ofDefs_holds defs).require s d

theorem eq_of_toEdges {g g' : DependencyGraph} (h : g.toEdges = g'.toEdges) : g = g' := by
  cases g
  cases g'
  cases h
  rfl

theorem build_perm {defs' : List ServiceDef} (h : defs.Perm defs') :
    build defs = build defs' := by
  have hmem : ∀ p : ServiceDef → Prop, (∃ f ∈ defs', p f) ↔ ∃ f ∈ defs, p f := fun p =>
    exists_congr fun f => and_congr_left' h.mem_iff.symm
  have hservices : (Edges.init defs').services = (Edges.init defs).services :=
    List.toFinset_eq_of_perm _ _ (h.symm.map _)
  have hholds' := (Edges.ofDefs_holds defs').congr
    (fun s d => and_congr (hmem _) (and_congr (hmem _) (hmem _)))
    fun s d => and_congr (hmem _) (hmem _)
  rw [hservices] at hholds'
  exact eq_of_toEdges ((Edges.ofDefs_holds defs).unique hholds' (Edges.ofDefs_ok defs).1
    (Edges.ofDefs_ok defs').1)

/-- The graph is the one the definitions declare, in any order. -/
theorem build_exact (defs : List ServiceDef) : (∀ s d, d ∈ (build defs).dependenciesOf s ↔
      IsDefined defs s ∧ IsDefined defs d
        ∧ ((∃ f ∈ defs, f.service.name = s ∧ (d ∈ f.dependencies.requires
              ∨ d ∈ f.dependencies.wants ∨ d ∈ f.dependencies.after))
          ∨ ∃ f ∈ defs, f.service.name = d ∧ s ∈ f.dependencies.before))
    ∧ (∀ s d, d ∈ (build defs).requiresOf s ↔ d ∈ (build defs).dependenciesOf s
        ∧ ∃ f ∈ defs, f.service.name = s ∧ d ∈ f.dependencies.requires)
    ∧ (∀ s d, s ∈ (build defs).dependentsOf d ↔ d ∈ (build defs).dependenciesOf s)
    ∧ ∀ defs', defs.Perm defs' → build defs = build defs' := by
  refine ⟨fun s d => ?_, fun s d => ?_, fun s d => mem_dependentsOf, fun _ => build_perm⟩
  · rw [mem_dependenciesOf_build]
    refine and_congr_right fun _ => and_congr_right fun _ => ?_
    unfold ServiceDef.Orders
    simp only [and_or_left, exists_or]
  · constructor
    · intro h
      obtain ⟨-, f, hf, hrequire⟩ := mem_requiresOf_build.1 h
      exact ⟨requiresOf_subset h, f, hf, hrequire⟩
    · rintro ⟨hd, f, hf, hrequire⟩
      exact mem_requiresOf_build.2 ⟨(mem_dependenciesOf_build.1 hd).2.1, f, hf, hrequire⟩

/-- A definition that orders itself before one that comes earlier. -/
theorem build_reversed_pair : build [{ service := { name := "a", exec := [] } },
      { service := { name := "b", exec := [] }, dependencies := { before := ["a"] } }]
    = build [{ service := { name := "b", exec := [] }, dependencies := { before := ["a"] } },
      { service := { name := "a", exec := [] } }] :=
  (build_exact _).2.2.2 _ (List.Perm.swap _ _ _)

end DependencyGraph

end Dynamod.Svmgr
