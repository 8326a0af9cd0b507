/-
The shape of the supervisor tree. Parent links, children lists, start
indices and the node map say the same thing four times over;
`SupervisorTree.WellFormed` is that they agree, and that the parent
links lead to the root.

# What an insertion changes

`addNode` enters one node and lengthens one children list
(`addNode_inserted`). The reads of the new tree are those of the old
one away from the new name (`Inserted.parentOf`, `Inserted.childrenOf`
and so on), and every part of the shape follows from them.

Everything else the manager writes leaves the shape alone
(`SameShape`): it touches states, processes, strategies, intensities.
-/
import Mathlib.Data.List.Count
import Dynamod.Svmgr.Proofs.Strategy

namespace Dynamod.Svmgr

open Lib Relation

variable {n p : NodeId} {s : SupervisorNode}

/-- Where a node stands: its parent, its children and, for a worker,
its index among its parent's children. -/
structure TreeNode.Place where
  startIndex : Option Nat
  parent : Option NodeId
  children : List NodeId

def TreeNode.place : TreeNode → TreeNode.Place
  | .supervisor s => ⟨none, s.parent, s.children⟩
  | .worker w => ⟨some w.startIndex, some w.parent, []⟩

/-- The parent a node names. -/
def TreeNode.parent (node : TreeNode) : Option NodeId := node.place.parent

def TreeNode.children (node : TreeNode) : List NodeId := node.place.children

/-- The worker a node is, if it is one. -/
def TreeNode.worker? : TreeNode → Option WorkerNode
  | .supervisor _ => none
  | .worker w => some w

/-- The supervisor a node is, if it is one. -/
def TreeNode.supervisor? : TreeNode → Option SupervisorNode
  | .supervisor s => some s
  | .worker _ => none

namespace SupervisorTree

-- ==== the shape

/-- `p` is the parent of `n`. -/
def IsParent (t : SupervisorTree) (n p : NodeId) : Prop := t.parentOf n = some p

/-- `n` is `a` or lies below it. -/
def Below (t : SupervisorTree) (n a : NodeId) : Prop :=
  ReflTransGen t.IsParent n a

/-- The representations of the tree agree. -/
structure WellFormed (t : SupervisorTree) : Prop where
  root : ∃ s, t.getSupervisor t.rootId = some s ∧ s.parent = none
  /-- A node other than the root has a parent, a supervisor that lists
  it exactly once. -/
  parent : ∀ n ∈ t.nodes, n ≠ t.rootId → ∃ p, t.parentOf n = some p ∧
    (t.getSupervisor p).isSome ∧ (t.childrenOf p).count n = 1
  /-- A listed child exists and names the supervisor that lists it. -/
  child : ∀ p, ∀ n ∈ t.childrenOf p, n ∈ t.nodes ∧ t.parentOf n = some p
  index : ∀ n w, t.getWorker n = some w →
    (t.childrenOf w.parent)[w.startIndex]? = some n
  chain : ∀ n ∈ t.nodes, t.Below n t.rootId

-- ==== the reads, by the node

theorem parentOf_eq (t : SupervisorTree) (n : NodeId) :
    t.parentOf n = (t.nodes.lookup n).bind TreeNode.parent := by
  unfold parentOf
  cases t.nodes.lookup n with
  | none => rfl
  | some node => cases node <;> rfl

theorem childrenOf_eq (t : SupervisorTree) (n : NodeId) :
    t.childrenOf n = ((t.nodes.lookup n).map TreeNode.children).getD [] := by
  unfold childrenOf
  cases t.nodes.lookup n with
  | none => rfl
  | some node => cases node <;> rfl

theorem getWorker_eq (t : SupervisorTree) (n : NodeId) :
    t.getWorker n = (t.nodes.lookup n).bind TreeNode.worker? := by
  unfold getWorker
  cases t.nodes.lookup n with
  | none => rfl
  | some node => cases node <;> rfl

theorem getSupervisor_eq (t : SupervisorTree) (n : NodeId) :
    t.getSupervisor n = (t.nodes.lookup n).bind TreeNode.supervisor? := by
  unfold getSupervisor
  cases t.nodes.lookup n with
  | none => rfl
  | some node => cases node <;> rfl

variable {t t' : SupervisorTree} {name parentId : NodeId}

theorem mem_nodes_of_lookup {node : TreeNode} (h : t.nodes.lookup n = some node) : n ∈ t.nodes :=
  Finmap.lookup_isSome.1 (h ▸ rfl)

/-- What has a parent is in the tree. -/
theorem mem_nodes_of_parentOf (h : t.parentOf n = some p) : n ∈ t.nodes := by
  rw [parentOf_eq] at h
  obtain ⟨node, hnode, -⟩ := Option.bind_eq_some_iff.1 h
  exact mem_nodes_of_lookup hnode

theorem mem_nodes_of_getSupervisor (h : (t.getSupervisor n).isSome) : n ∈ t.nodes := by
  obtain ⟨s, hs⟩ := Option.isSome_iff_exists.1 h
  exact mem_nodes_of_lookup (lookup_of_getSupervisor hs)

-- ==== an insertion

/-- `t'` is `t` with `node` entered as `name` under the supervisor
`parent`, which is at `parentId`. -/
structure Inserted (t t' : SupervisorTree) (name parentId : NodeId)
    (parent : SupervisorNode) (node : TreeNode) : Prop where
  absent : name ∉ t.nodes
  supervisor : t.nodes.lookup parentId = some (.supervisor parent)
  rootId : t'.rootId = t.rootId
  pidMap : t'.pidMap = t.pidMap
  lookup : ∀ n, t'.nodes.lookup n = if n = name then some node
    else if n = parentId then
      some (.supervisor { parent with children := parent.children ++ [name] })
    else t.nodes.lookup n

/-- All that a successful insertion can do. -/
theorem addNode_inserted {node : Nat → TreeNode} (h : t.addNode name parentId node = .ok t') :
    ∃ parent, Inserted t t' name parentId parent (node parent.children.length) := by
  unfold addNode at h
  split at h
  · cases h
  · next hname =>
    split at h
    · next parent hparent =>
      obtain rfl := Except.ok.inj h
      refine ⟨parent, hname, hparent, rfl, rfl, fun n => ?_⟩
      rw [HashMap.lookup_insert_ite, HashMap.lookup_insert_ite]
    · cases h
    · cases h

/-- An insertion succeeds under a supervisor for a name that is no
node, and only then. -/
theorem addNode_isOk_iff {node : Nat → TreeNode} : (∃ t', t.addNode name parentId node = .ok t') ↔
    name ∉ t.nodes ∧ (t.getSupervisor parentId).isSome := by
  constructor
  · rintro ⟨t', h⟩
    obtain ⟨parent, hi⟩ := addNode_inserted h
    refine ⟨hi.absent, ?_⟩
    rw [getSupervisor_eq, hi.supervisor]
    rfl
  · rintro ⟨hname, hparent⟩
    obtain ⟨s, hs⟩ := Option.isSome_iff_exists.1 hparent
    unfold addNode
    rw [if_neg hname, lookup_of_getSupervisor hs]
    exact ⟨_, rfl⟩

namespace Inserted

variable {parent : SupervisorNode} {node : TreeNode}
  (h : Inserted t t' name parentId parent node)

include h

/-- The new name is none of the old ones. -/
theorem ne_of_mem (hn : n ∈ t.nodes) : n ≠ name := fun e => h.absent (e ▸ hn)

theorem ne : parentId ≠ name := h.ne_of_mem (mem_nodes_of_lookup h.supervisor)

theorem mem (n : NodeId) :
    n ∈ t'.nodes ↔ n = name ∨ n ∈ t.nodes := by
  rw [← Finmap.lookup_isSome, h.lookup]
  by_cases hn : n = name
  · simp [hn]
  · rw [if_neg hn]
    by_cases hp : n = parentId
    · simp [hp, mem_nodes_of_lookup h.supervisor]
    · rw [if_neg hp, Finmap.lookup_isSome]
      simp [hn]

/-- What does not look at children lists reads the new node, and the old
tree elsewhere. -/
theorem read {A : Type} {g : TreeNode → Option A}
    (hg : ∀ s c, g (.supervisor { s with children := c }) = g (.supervisor s)) (n : NodeId) :
    (t'.nodes.lookup n).bind g = if n = name then g node else (t.nodes.lookup n).bind g := by
  rw [h.lookup]
  by_cases hn : n = name
  · rw [if_pos hn, if_pos hn]
    rfl
  · rw [if_neg hn, if_neg hn]
    by_cases hp : n = parentId
    · rw [if_pos hp, hp, h.supervisor]
      exact hg _ _
    · rw [if_neg hp]

/-- Only the new node has a new parent. -/
theorem parentOf (n : NodeId) :
    t'.parentOf n = if n = name then node.parent else t.parentOf n := by
  rw [parentOf_eq, parentOf_eq]
  exact h.read (fun _ _ => rfl) n

theorem getWorker (n : NodeId) :
    t'.getWorker n = if n = name then node.worker? else t.getWorker n := by
  rw [getWorker_eq, getWorker_eq]
  exact h.read (fun _ _ => rfl) n

/-- The parent has a child more, at the end. -/
theorem childrenOf (n : NodeId) :
    t'.childrenOf n = if n = name then node.children
      else if n = parentId then t.childrenOf parentId ++ [name]
      else t.childrenOf n := by
  rw [childrenOf_eq, childrenOf_eq, childrenOf_eq, h.lookup, h.supervisor,
    apply_ite (fun o : Option TreeNode => (o.map TreeNode.children).getD []),
    apply_ite (fun o : Option TreeNode => (o.map TreeNode.children).getD [])]
  rfl

theorem getWorker_absent :
    t.getWorker name = none := by
  rw [getWorker_eq, Finmap.lookup_eq_none.2 h.absent]
  rfl

/-- The supervisors are the old ones, one of them with a longer list,
and the new node if it is one. -/
theorem getSupervisor (n : NodeId) :
    t'.getSupervisor n = if n = name then node.supervisor?
      else if n = parentId then
        some { parent with children := parent.children ++ [name] }
      else t.getSupervisor n := by
  rw [getSupervisor_eq, getSupervisor_eq, h.lookup, apply_ite (Option.bind · _),
    apply_ite (Option.bind · _)]
  rfl

theorem isSome_getSupervisor
    (hn : (t.getSupervisor n).isSome) : (t'.getSupervisor n).isSome := by
  rw [h.getSupervisor, if_neg (h.ne_of_mem (mem_nodes_of_getSupervisor hn))]
  by_cases hp : n = parentId
  · rw [if_pos hp]
    rfl
  · rw [if_neg hp]
    exact hn

/-- An old chain is a chain of the new tree. -/
theorem below {a : NodeId}
    (hn : t.Below n a) : t'.Below n a := by
  refine ReflTransGen.mono (fun m p hmp => ?_) n a hn
  show t'.parentOf m = some p
  rw [h.parentOf, if_neg (h.ne_of_mem (mem_nodes_of_parentOf hmp))]
  exact hmp

end Inserted

-- ==== the shape stays

theorem mem_nodes_of_childrenOf (h : n ∈ t.childrenOf p) : p ∈ t.nodes := by
  rw [childrenOf_eq] at h
  cases hp : t.nodes.lookup p with
  | none =>
    rw [hp] at h
    cases h
  | some node => exact mem_nodes_of_lookup hp

section

variable {parent : SupervisorNode} {node : TreeNode}
  (h : t.WellFormed) (hi : Inserted t t' name parentId parent node)

include h hi

/-- The root stays a supervisor without a parent. -/
private theorem root_inserted : ∃ s, t'.getSupervisor t'.rootId = some s ∧ s.parent = none := by
  obtain ⟨s, hs, hnone⟩ := h.root
  have hmem := mem_nodes_of_lookup (lookup_of_getSupervisor hs)
  rw [hi.rootId, hi.getSupervisor, if_neg (hi.ne_of_mem hmem)]
  by_cases hp : t.rootId = parentId
  · rw [if_pos hp]
    refine ⟨_, rfl, ?_⟩
    have hsup := lookup_of_getSupervisor hs
    rw [hp, hi.supervisor] at hsup
    injection hsup with hsup
    injection hsup with hsup
    rw [hsup]
    exact hnone
  · rw [if_neg hp]
    exact ⟨s, hs, hnone⟩

variable (hparent : node.parent = some parentId)

include hparent

/-- Every node but the root is listed once by its parent. -/
private theorem parent_inserted :
    ∀ n ∈ t'.nodes, n ≠ t'.rootId → ∃ p, t'.parentOf n = some p ∧
      (t'.getSupervisor p).isSome ∧ (t'.childrenOf p).count n = 1 := by
  intro n hn hroot
  rw [hi.rootId] at hroot
  by_cases hname : n = name
  · subst hname
    refine ⟨parentId, ?_, ?_, ?_⟩
    · rw [hi.parentOf, if_pos rfl, hparent]
    · rw [hi.getSupervisor, if_neg hi.ne, if_pos rfl]
      rfl
    · rw [hi.childrenOf, if_neg hi.ne, if_pos rfl, List.count_append,
        List.count_eq_zero.2 fun hc => hi.absent (h.child parentId n hc).1]
      simp
  · have hold : n ∈ t.nodes := ((hi.mem n).1 hn).resolve_left hname
    obtain ⟨p, hp, hsup, hcount⟩ := h.parent n hold hroot
    refine ⟨p, ?_, hi.isSome_getSupervisor hsup, ?_⟩
    · rw [hi.parentOf, if_neg hname]
      exact hp
    · rw [hi.childrenOf, if_neg (hi.ne_of_mem (mem_nodes_of_getSupervisor hsup))]
      by_cases hpp : p = parentId
      · subst hpp
        rw [if_pos rfl, List.count_append, hcount, List.count_eq_zero.2 (by simpa using hname)]
      · rw [if_neg hpp]
        exact hcount

/-- Who is listed as a child has that parent. -/
private theorem child_inserted (hchildren : node.children = []) :
    ∀ p, ∀ n ∈ t'.childrenOf p, n ∈ t'.nodes ∧ t'.parentOf n = some p := by
  intro p n hn
  -- a child of the old tree stays one
  have hold : n ∈ t.childrenOf p → n ∈ t'.nodes ∧ t'.parentOf n = some p := by
    intro hc
    obtain ⟨hmem, hpar⟩ := h.child p n hc
    refine ⟨(hi.mem n).2 (Or.inr hmem), ?_⟩
    rw [hi.parentOf, if_neg (hi.ne_of_mem hmem)]
    exact hpar
  rw [hi.childrenOf] at hn
  by_cases hp : p = name
  · rw [if_pos hp, hchildren] at hn
    cases hn
  · rw [if_neg hp] at hn
    by_cases hpp : p = parentId
    · subst hpp
      rw [if_pos rfl] at hn
      rcases List.mem_append.1 hn with hn | hn
      · exact hold hn
      · rw [List.mem_singleton] at hn
        subst hn
        refine ⟨(hi.mem n).2 (Or.inl rfl), ?_⟩
        rw [hi.parentOf, if_pos rfl]
        exact hparent
    · rw [if_neg hpp] at hn
      exact hold hn

/-- A worker's index is its place among the children. -/
private theorem index_inserted
    (hindex : ∀ w, node = .worker w → w.startIndex = parent.children.length) :
    ∀ n w, t'.getWorker n = some w → (t'.childrenOf w.parent)[w.startIndex]? = some n := by
  intro n w hw
  rw [hi.getWorker] at hw
  by_cases hname : n = name
  · subst hname
    rw [if_pos rfl] at hw
    cases node with
    | supervisor s => cases hw
    | worker v =>
      obtain rfl := Option.some.inj hw
      obtain rfl : v.parent = parentId := Option.some.inj hparent
      have hlist : t.childrenOf v.parent = parent.children := by
        rw [childrenOf_eq, hi.supervisor]
        rfl
      rw [hi.childrenOf, if_neg hi.ne, if_pos rfl, hlist, hindex v rfl]
      simp
  · rw [if_neg hname] at hw
    have hidx := h.index n w hw
    have hmem : w.parent ∈ t.nodes :=
      mem_nodes_of_childrenOf (List.mem_of_getElem? hidx)
    rw [hi.childrenOf, if_neg (hi.ne_of_mem hmem)]
    by_cases hpp : w.parent = parentId
    · rw [if_pos hpp, ← hpp]
      exact List.getElem?_append_left (List.getElem?_eq_some_iff.1 hidx).1 ▸ hidx
    · rw [if_neg hpp]
      exact hidx

/-- A new node that names its parent, lists nobody and, if it is a
worker, knows its position. -/
theorem WellFormed.insert (hchildren : node.children = [])
    (hindex : ∀ w, node = .worker w → w.startIndex = parent.children.length) : t'.WellFormed where
  root := root_inserted h hi
  parent := parent_inserted h hi hparent
  child := child_inserted h hi hparent hchildren
  index := index_inserted h hi hparent hindex
  chain := by
    intro n hn
    rw [hi.rootId]
    rcases (hi.mem n).1 hn with rfl | hold
    · -- one step to the parent, and from there as before
      refine ReflTransGen.head ?_
        (hi.below (h.chain parentId (mem_nodes_of_lookup hi.supervisor)))
      show t'.parentOf n = some parentId
      rw [hi.parentOf, if_pos rfl]
      exact hparent
    · exact hi.below (h.chain n hold)

end

/-- The children of a supervisor, by its list. -/
theorem childrenOf_supervisor (hs : t.getSupervisor p = some s) :
    t.childrenOf p = s.children := by
  rw [childrenOf_eq, lookup_of_getSupervisor hs]
  rfl

theorem WellFormed.count_childrenOf (h : t.WellFormed)
    (hparent : t.parentOf n = some p) : (t.childrenOf p).count n = 1 := by
  have hroot : n ≠ t.rootId := by
    intro e
    obtain ⟨s, hs, hnone⟩ := h.root
    rw [e, parentOf_supervisor hs, hnone] at hparent
    cases hparent
  obtain ⟨q, hq, -, hcount⟩ := h.parent n (mem_nodes_of_parentOf hparent) hroot
  obtain rfl : p = q := Option.some.inj (hparent.symm.trans hq)
  exact hcount

/-- No child is listed twice. -/
theorem WellFormed.nodup_childrenOf (h : t.WellFormed) (p : NodeId) : (t.childrenOf p).Nodup := by
  rw [List.nodup_iff_count_le_one]
  intro n
  by_cases hn : n ∈ t.childrenOf p
  · exact le_of_eq (h.count_childrenOf (h.child p n hn).2)
  · rw [List.count_eq_zero_of_not_mem hn]
    exact Nat.zero_le 1

-- ==== the same shape

/-- `t'` has the nodes of `t`, with the parents, children and indices
they had. -/
structure SameShape (t t' : SupervisorTree) : Prop where
  rootId : t'.rootId = t.rootId
  node : ∀ n, (t'.nodes.lookup n).map TreeNode.place
    = (t.nodes.lookup n).map TreeNode.place

namespace SameShape

theorem refl (t : SupervisorTree) : SameShape t t := ⟨rfl, fun _ => rfl⟩

variable (h : SameShape t t')

include h

theorem trans {t'' : SupervisorTree} (h' : SameShape t' t'') : SameShape t t'' :=
  ⟨h'.rootId.trans h.rootId, fun n => (h'.node n).trans (h.node n)⟩

theorem symm : SameShape t' t :=
  ⟨h.rootId.symm, fun n => (h.node n).symm⟩

theorem mem (n : NodeId) : n ∈ t'.nodes ↔ n ∈ t.nodes := by
  have := congrArg Option.isSome (h.node n)
  rw [Option.isSome_map, Option.isSome_map] at this
  rw [← Finmap.lookup_isSome, ← Finmap.lookup_isSome, this]

theorem parentOf (n : NodeId) : t'.parentOf n = t.parentOf n := by
  have := congrArg (Option.bind · TreeNode.Place.parent) (h.node n)
  rw [Option.bind_map, Option.bind_map] at this
  rw [parentOf_eq, parentOf_eq]
  exact this

theorem childrenOf (n : NodeId) : t'.childrenOf n = t.childrenOf n := by
  have := congrArg (fun o => (o.map TreeNode.Place.children).getD []) (h.node n)
  rw [Option.map_map, Option.map_map] at this
  rw [childrenOf_eq, childrenOf_eq]
  exact this

theorem getSupervisor (hs : t.getSupervisor n = some s) :
    ∃ s', t'.getSupervisor n = some s' ∧ s'.parent = s.parent
      ∧ s'.children = s.children := by
  have hnode := h.node n
  rw [lookup_of_getSupervisor hs] at hnode
  obtain ⟨node, hlook, hplace⟩ := Option.map_eq_some_iff.1 hnode
  cases node with
  | supervisor s' =>
    injection hplace with _ hparent hchildren
    refine ⟨s', ?_, hparent, hchildren⟩
    rw [getSupervisor_eq, hlook]
    rfl
  | worker w => injection hplace with hidx; cases hidx

theorem getWorker {w : WorkerNode}
    (hw : t.getWorker n = some w) : ∃ w', t'.getWorker n = some w' ∧ w'.parent = w.parent
      ∧ w'.startIndex = w.startIndex := by
  have hnode := h.node n
  rw [lookup_of_getWorker hw] at hnode
  obtain ⟨node, hlook, hplace⟩ := Option.map_eq_some_iff.1 hnode
  cases node with
  | supervisor s' => injection hplace with hidx; cases hidx
  | worker w' =>
    injection hplace with hidx hparent
    refine ⟨w', ?_, Option.some.inj hparent, Option.some.inj hidx⟩
    rw [getWorker_eq, hlook]
    rfl

theorem isSome_getSupervisor (n : NodeId) :
    (t'.getSupervisor n).isSome = (t.getSupervisor n).isSome := by
  have hkept : ∀ {t t'}, SameShape t t' → (∃ s, t.getSupervisor n = some s) →
      ∃ s, t'.getSupervisor n = some s := by
    rintro t t' h ⟨s, hs⟩
    obtain ⟨s', hs', -⟩ := h.getSupervisor hs
    exact ⟨s', hs'⟩
  rw [Bool.eq_iff_iff, Option.isSome_iff_exists, Option.isSome_iff_exists]
  exact ⟨hkept h.symm, hkept h⟩

theorem allWorkers : t'.allWorkers = t.allWorkers := by
  have hkept : ∀ {t t'}, SameShape t t' → t.allWorkers ⊆ t'.allWorkers := by
    intro t t' h n hn
    obtain ⟨w, hw⟩ := mem_allWorkers.1 hn
    obtain ⟨w', hw', -⟩ := h.getWorker hw
    exact mem_allWorkers.2 ⟨w', hw'⟩
  exact (hkept h.symm).antisymm (hkept h)

theorem below {a : NodeId} : t'.Below n a ↔ t.Below n a := by
  have hrel : t'.IsParent = t.IsParent := by
    funext m p
    unfold IsParent
    rw [h.parentOf]
  unfold Below
  rw [hrel]

/-- Being well formed is a matter of the shape. -/
theorem wellFormed (ht : t.WellFormed) : t'.WellFormed where
  root := by
    obtain ⟨s, hs, hnone⟩ := ht.root
    obtain ⟨s', hs', hparent, -⟩ := h.getSupervisor hs
    rw [h.rootId]
    exact ⟨s', hs', hparent.trans hnone⟩
  parent := by
    intro n hn hroot
    rw [h.rootId] at hroot
    obtain ⟨p, hp, hsup, hcount⟩ := ht.parent n ((h.mem n).1 hn) hroot
    refine ⟨p, (h.parentOf n).trans hp, (h.isSome_getSupervisor p).trans hsup, ?_⟩
    rw [h.childrenOf]
    exact hcount
  child := by
    intro p n hn
    rw [h.childrenOf] at hn
    rw [h.parentOf, h.mem]
    exact ht.child p n hn
  index := by
    intro n w hw
    obtain ⟨w', hw', hparent, hidx⟩ := h.symm.getWorker hw
    rw [h.childrenOf, ← hparent, ← hidx]
    exact ht.index n w' hw'
  chain := by
    intro n hn
    rw [h.rootId, h.below]
    exact ht.chain n ((h.mem n).1 hn)

omit h

variable (t : SupervisorTree) (id : NodeId)

/-- An update in place that keeps places. -/
theorem modify {f : TreeNode → TreeNode}
    (hf : ∀ node, (f node).place = node.place) :
    SameShape t { t with nodes := t.nodes.modify id f } := by
  refine ⟨rfl, fun n => ?_⟩
  rw [HashMap.lookup_modify]
  by_cases hn : n = id
  · rw [if_pos hn, hn, Option.map_map]
    congr 1
    funext node
    exact hf node
  · rw [if_neg hn]

/-- A worker's place is its parent and its index. -/
theorem modifyWorker {f : WorkerNode → WorkerNode}
    (hf : ∀ w, (f w).parent = w.parent ∧ (f w).startIndex = w.startIndex) :
    SameShape t (t.modifyWorker id f) := by
  apply modify
  intro node
  cases node with
  | supervisor s => rfl
  | worker w =>
    obtain ⟨hparent, hidx⟩ := hf w
    show TreeNode.Place.mk _ _ _ = TreeNode.Place.mk _ _ _
    rw [hparent, hidx]

/-- A supervisor's place is its parent and its children. -/
theorem modifySupervisor
    {f : SupervisorNode → SupervisorNode}
    (hf : ∀ s, (f s).parent = s.parent ∧ (f s).children = s.children) :
    SameShape t (t.modifySupervisor id f) := by
  apply modify
  intro node
  cases node with
  | supervisor s =>
    obtain ⟨hparent, hchildren⟩ := hf s
    show TreeNode.Place.mk _ _ _ = TreeNode.Place.mk _ _ _
    rw [hparent, hchildren]
  | worker w => rfl

theorem registerPid (pid : Pid) :
    SameShape t (t.registerPid id pid) := by
  obtain ⟨hroot, hnode⟩ := modifyWorker t id
    (f := fun w => { w with pid := some pid, state := .running })
    fun _ => ⟨rfl, rfl⟩
  exact ⟨hroot, hnode⟩

/-- A strategy decision writes states and intensities. -/
theorem applyStrategy (sup child : NodeId) (exit : ExitInfo)
    (now : Instant) : SameShape t (t.applyStrategy sup child exit now).2 :=
  applyStrategy_rel refl (fun h h' => h.trans h')
    (fun t id _ => modifyWorker t id fun _ => ⟨rfl, rfl⟩)
    (fun t id _ => modifySupervisor t id fun _ => ⟨rfl, rfl⟩) t sup child exit now

end SameShape

end SupervisorTree

end Dynamod.Svmgr
