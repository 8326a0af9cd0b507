/-
When a request to the control socket is answered.

The response is one frame, and a frame has a largest size. What goes
into the response besides constants is names and texts of the request
and of the tree, so whether it fits is a question about those:
`answerSize` adds up what they take on the wire, and `answered_iff_fits`
says that a request is answered exactly if the sum stays within the
limit.

# The text of the tree

`format_tree` returns on every tree that grew by the writing functions
of the tree: a child is entered after its parent, so along the
recursion the nodes come later and later (`Ranked`), and the number of
nodes bounds the depth.
-/
import Dynamod.Common.Proofs.Receive
import Dynamod.Common.Proofs.Size
import Dynamod.Lib.DepthFirst
import Dynamod.Svmgr.Control

namespace Dynamod.Svmgr

open Lib Common

variable {rank : NodeId → Nat} {t : SupervisorTree}

-- ==== trees that grew

/-- The trees that `new` and the writing functions lead to. -/
inductive Grown : SupervisorTree → Prop
  | new (rootName : String) (strategy : RestartStrategy)
      (intensity : RestartIntensity) : Grown (.new rootName strategy intensity)
  | addSupervisor {t t' : SupervisorTree} {name : String} {parentId : NodeId}
      {strategy : RestartStrategy} {intensity : RestartIntensity} :
      Grown t → t.addSupervisor name parentId strategy intensity = .ok t' →
      Grown t'
  | addWorker {t t' : SupervisorTree} {svcDef : ServiceDef} {parentId : NodeId} :
      Grown t → t.addWorker svcDef parentId = .ok t' → Grown t'
  | modifyWorker {t : SupervisorTree} (id : NodeId) (f : WorkerNode → WorkerNode) :
      Grown t → Grown (t.modifyWorker id f)
  | modifySupervisor {t : SupervisorTree} (id : NodeId)
      (f : SupervisorNode → SupervisorNode)
      (hf : ∀ s, (f s).children = s.children) :
      Grown t → Grown (t.modifySupervisor id f)
  | registerPid {t : SupervisorTree} (id : NodeId) (pid : Pid) :
      Grown t → Grown (t.registerPid id pid)
  | unregisterPid {t : SupervisorTree} (pid : Pid) :
      Grown t → Grown (t.unregisterPid pid)

/-- The nodes come in an order in which children follow their
parents. -/
structure Ranked (nodes : HashMap NodeId TreeNode) (rank : NodeId → Nat) :
    Prop where
  below : ∀ id ∈ nodes, rank id < nodes.keys.card
  descends : ∀ id s, nodes.lookup id = some (.supervisor s) →
    ∀ c ∈ s.children, c ∈ nodes ∧ rank id < rank c

/-- Updating nodes in place without touching a children list. -/
theorem Ranked.modify {nodes : HashMap NodeId TreeNode}
    (h : Ranked nodes rank) (id : NodeId) {f : TreeNode → TreeNode}
    (hf : ∀ n s, f n = .supervisor s → ∃ s', n = .supervisor s' ∧ s.children = s'.children) :
    Ranked (nodes.modify id f) rank := by
  have hkeys : (nodes.modify id f).keys = nodes.keys := by
    ext k
    rw [Finmap.mem_keys, Finmap.mem_keys, HashMap.mem_modify]
  refine ⟨fun k hk => ?_, fun k s hs c hc => ?_⟩
  · rw [hkeys]
    exact h.below k (HashMap.mem_modify.1 hk)
  · rw [HashMap.mem_modify]
    rw [HashMap.lookup_modify] at hs
    split at hs
    · next hk =>
      subst hk
      obtain ⟨n, hn, hfn⟩ := Option.map_eq_some_iff.1 hs
      obtain ⟨s', rfl, hchildren⟩ := hf n s hfn
      exact h.descends k s' hn c (hchildren ▸ hc)
    · exact h.descends k s hs c hc

theorem Ranked.add {nodes : HashMap NodeId TreeNode}
    (h : Ranked nodes rank) {name parentId : NodeId} {parent : SupervisorNode}
    {node : TreeNode} (hname : name ∉ nodes)
    (hparent : nodes.lookup parentId = some (.supervisor parent))
    (hnode : ∀ s, node = .supervisor s → s.children = []) :
    Ranked ((nodes.insert parentId (.supervisor { parent with
        children := parent.children ++ [name] })).insert name node)
      (fun id => if id = name then nodes.keys.card else rank id) := by
  have hmem : parentId ∈ nodes := Finmap.lookup_isSome.1 (hparent ▸ rfl)
  have hne : ∀ id ∈ nodes, id ≠ name := fun id hid e => hname (e ▸ hid)
  have hcard : ((nodes.insert parentId (.supervisor { parent with
      children := parent.children ++ [name] })).insert name node).keys.card
      = nodes.keys.card + 1 := by
    rw [HashMap.keys_insert, HashMap.keys_insert, Finset.insert_eq_of_mem (Finmap.mem_keys.2 hmem)]
    exact Finset.card_insert_of_notMem fun hk => hname (Finmap.mem_keys.1 hk)
  refine ⟨fun id hid => ?_, fun id s hs c hc => ?_⟩
  · rw [hcard]
    split
    · exact Nat.lt_succ_self _
    · next hid' =>
      rw [Finmap.mem_insert, Finmap.mem_insert] at hid
      have hold : id ∈ nodes := by
        rcases hid with rfl | rfl | hid
        · exact absurd rfl hid'
        · exact hmem
        · exact hid
      exact Nat.lt_succ_of_lt (h.below id hold)
  · rw [Finmap.mem_insert, Finmap.mem_insert]
    rw [HashMap.lookup_insert_ite] at hs
    split at hs
    · injection hs with hs
      rw [hnode s hs] at hc
      cases hc
    · next hid =>
      have hin : ∀ s', nodes.lookup id = some (.supervisor s') → id ∈ nodes :=
        fun s' hs' => Finmap.lookup_isSome.1 (hs' ▸ rfl)
      -- an old child is older than the new node
      have hold : ∀ s', nodes.lookup id = some (.supervisor s') →
          c ∈ s'.children →
          (c = name ∨ c = parentId ∨ c ∈ nodes)
            ∧ (if id = name then nodes.keys.card else rank id)
              < if c = name then nodes.keys.card else rank c := by
        intro s' hs' hc'
        obtain ⟨hcn, hlt⟩ := h.descends id s' hs' c hc'
        rw [if_neg hid, if_neg (hne c hcn)]
        exact ⟨Or.inr (Or.inr hcn), hlt⟩
      rw [HashMap.lookup_insert_ite] at hs
      split at hs
      · next hp =>
        subst hp
        injection hs with hs
        cases hs
        rcases List.mem_append.1 hc with hc | hc
        · exact hold parent hparent hc
        · rw [List.mem_singleton.1 hc, if_neg hid, if_pos rfl]
          exact ⟨Or.inl rfl, h.below id hmem⟩
      · exact hold s hs hc

/-- `addNode` adds a node without children under a supervisor. -/
private theorem ranked_addNode {t' : SupervisorTree} {name parentId : NodeId}
    {node : Nat → TreeNode} (hnode : ∀ n s, node n = .supervisor s → s.children = [])
    (hroot : t.rootId ∈ t.nodes) (h : Ranked t.nodes rank)
    (hadd : t.addNode name parentId node = .ok t') :
    t'.rootId ∈ t'.nodes ∧ ∃ rank, Ranked t'.nodes rank := by
  unfold SupervisorTree.addNode at hadd
  split at hadd
  · cases hadd
  next hname =>
  split at hadd
  · next parent hparent =>
    cases hadd
    refine ⟨?_, _, h.add hname hparent (hnode _)⟩
    rw [Finmap.mem_insert, Finmap.mem_insert]
    exact Or.inr (Or.inr hroot)
  · cases hadd
  · cases hadd

/-- Updating a worker leaves the supervisors alone. -/
private theorem Ranked.modifyWorker (h : Ranked t.nodes rank) (id : NodeId)
    (f : WorkerNode → WorkerNode) : Ranked (t.modifyWorker id f).nodes rank := by
  refine h.modify id fun n s hs => ?_
  cases n with
  | supervisor s' =>
    injection hs with hs
    exact ⟨s', rfl, by rw [hs]⟩
  | worker w => cases hs

/-- A new tree has nothing but the supervisor at its root. -/
private theorem node_of_lookup_new {rootName : String} {strategy : RestartStrategy}
    {intensity : RestartIntensity} {id : NodeId} {n : TreeNode}
    (h : (SupervisorTree.new rootName strategy intensity).nodes.lookup id = some n) :
    n = .supervisor { name := rootName, strategy, intensity, parent := none } := by
  have hmem : id ∈ (SupervisorTree.new rootName strategy intensity).nodes :=
    Finmap.mem_of_lookup_eq_some h
  have hid : id = rootName := (Finmap.mem_singleton _ _ _).1 hmem
  subst hid
  unfold SupervisorTree.new at h
  rw [Finmap.lookup_singleton_eq] at h
  injection h with h
  exact h.symm

private theorem ranked_new (rootName : String) (strategy : RestartStrategy)
    (intensity : RestartIntensity) :
    Ranked (SupervisorTree.new rootName strategy intensity).nodes fun _ => 0 := by
  have hroot : rootName ∈ (SupervisorTree.new rootName strategy intensity).nodes :=
    (Finmap.mem_singleton _ _ _).2 rfl
  refine ⟨fun id _ => Finset.card_pos.2 ⟨rootName, Finmap.mem_keys.2 hroot⟩,
    fun id s hs c hc => ?_⟩
  injection node_of_lookup_new hs with hs
  subst hs
  cases hc

/-- Every tree that grew has its root and such an order. -/
theorem Grown.ranked (h : Grown t) : t.rootId ∈ t.nodes ∧ ∃ rank, Ranked t.nodes rank := by
  induction h with
  | new rootName strategy intensity =>
    exact ⟨(Finmap.mem_singleton _ _ _).2 rfl, _, ranked_new rootName strategy intensity⟩
  | addSupervisor _ hadd ih =>
    obtain ⟨hroot, rank, hrank⟩ := ih
    refine ranked_addNode (fun n s hs => ?_) hroot hrank hadd
    injection hs with hs
    rw [← hs]
  | addWorker _ hadd ih =>
    obtain ⟨hroot, rank, hrank⟩ := ih
    refine ranked_addNode (fun n s hs => ?_) hroot hrank hadd
    cases hs
  | modifyWorker id f _ ih =>
    obtain ⟨hroot, rank, hrank⟩ := ih
    exact ⟨HashMap.mem_modify.2 hroot, rank, hrank.modifyWorker id f⟩
  | modifySupervisor id f hf _ ih =>
    obtain ⟨hroot, rank, hrank⟩ := ih
    refine ⟨HashMap.mem_modify.2 hroot, rank, hrank.modify id fun n s hs => ?_⟩
    cases n with
    | supervisor s' =>
      injection hs with hs
      exact ⟨s', rfl, by rw [← hs, hf]⟩
    | worker w => cases hs
  | registerPid id pid _ ih =>
    obtain ⟨hroot, rank, hrank⟩ := ih
    exact ⟨HashMap.mem_modify.2 hroot, rank, hrank.modifyWorker id _⟩
  | unregisterPid pid _ ih => exact ih

-- ==== the text returns

theorem formatTree_mono {fuel fuel' : Nat}
    (hle : fuel ≤ fuel') : ∀ {id : NodeId} {depth : Nat} {text : String},
      formatTree t fuel id depth = some text → formatTree t fuel' id depth = some text := by
  induction fuel generalizing fuel' with
  | zero =>
    intro id depth text h
    cases h
  | succ fuel ih =>
    intro id depth text h
    obtain ⟨fuel', rfl⟩ : ∃ k, fuel' = k + 1 := ⟨fuel' - 1, by omega⟩
    rw [formatTree] at h ⊢
    split at h
    · refine foldlM_below (fun output c out hout => ?_) _ _ _ h
      obtain ⟨sub, hsub, rfl⟩ := Option.map_eq_some_iff.1 hout
      exact Option.map_eq_some_iff.2 ⟨sub, ih (by omega) hsub, rfl⟩
    · exact h
    · exact h

/-- Below a node there are at most as many levels as nodes come after
it. -/
theorem formatTree_returns (h : Ranked t.nodes rank) (fuel : Nat) :
    ∀ id depth, id ∈ t.nodes → t.nodes.keys.card ≤ rank id + fuel →
      ∃ text, formatTree t fuel id depth = some text := by
  induction fuel with
  | zero =>
    intro id depth hid hfuel
    have := h.below id hid
    omega
  | succ fuel ih =>
    intro id depth hid hfuel
    rw [formatTree]
    split
    · next s hs =>
      refine foldlM_returns _ (fun output c hc => ?_) _
      obtain ⟨hcn, hlt⟩ := h.descends id s hs c hc
      obtain ⟨sub, hsub⟩ := ih c (depth + 1) hcn (by omega)
      exact ⟨output ++ sub, Option.map_eq_some_iff.2 ⟨sub, hsub, rfl⟩⟩
    · exact ⟨_, rfl⟩
    · exact ⟨_, rfl⟩

-- ==== the size of it

section

variable (t : SupervisorTree)

/-- The bytes of the text of a tree, line by line. -/
def treeSize : Nat → NodeId → Nat → Nat
  | 0, _, _ => 0
  | fuel + 1, id, depth =>
    match t.get id with
    | some (.supervisor s) =>
      s.children.foldl (fun n c => n + treeSize fuel c (depth + 1))
        (2 * depth + id.utf8ByteSize + s.strategy.debugName.utf8ByteSize + 25)
    | some (.worker w) =>
      2 * depth + id.utf8ByteSize + w.state.displayName.utf8ByteSize
        + (pidText w.pid).utf8ByteSize + 4
    | none => 2 * depth + id.utf8ByteSize + 11

/-- The entry of a worker adds its bytes. -/
def addEntry (n : Nat) (name : NodeId) : Nat :=
  match t.getWorker name with
  | some w => n + entrySize (serviceEntry name w)
  | none => n

/-- The bytes the entries of the workers take in a list. -/
def listSize (names : List NodeId) : Nat := names.foldl (addEntry t) 0

/-- The bytes of the body of an error with a message of `n` bytes. -/
def errorSize (n : Nat) : Nat := 16 + textSize n

/-- The bytes of the body of the answer to a request to act on a
service. -/
def actSize (name : NodeId) : Nat :=
  if (t.getWorker name).isSome then 4 else errorSize (17 + name.utf8ByteSize)

/-- The bytes of the body of the answer to a request. -/
def answerSize (workers : IterOrder t.allWorkers) : MessageBody → Nat
  | .startService name | .stopService name | .restartService name =>
    actSize t name
  | .serviceStatus name =>
    match t.getWorker name with
    | some w =>
      41 + textSize name.utf8ByteSize
        + textSize w.state.displayName.utf8ByteSize
        + pidSize (w.pid.map Int32.ofInt) + textSize w.parent.utf8ByteSize
    | none => errorSize (17 + name.utf8ByteSize)
  | .listServices =>
    23 + (MessagePack.arrayHead workers.list.length).length
      + listSize t workers.list
  | .treeStatus => 12 + textSize (treeSize t t.nodes.keys.card t.rootId 0)
  | .shutdown _ | .reload => 4
  | .getServiceByPid pid =>
    24 + optionalTextSize (t.workerForPid pid.toInt) + pidSize (some pid)
  | _ => errorSize 15

end

-- ---- of the tree

theorem size_indent (depth : Nat) : (indent depth).utf8ByteSize = 2 * depth := by
  have hjoin : ∀ (n : Nat) (s : String),
      ((List.replicate n "  ").foldl (fun r s => r ++ s) s).utf8ByteSize
        = s.utf8ByteSize + 2 * n := by
    intro n
    induction n with
    | zero => exact fun s => rfl
    | succ n ih =>
      intro s
      rw [List.replicate_succ, List.foldl_cons, ih, String.utf8ByteSize_append]
      show s.utf8ByteSize + 2 + 2 * n = _
      omega
  have h := hjoin depth ""
  rw [show "".utf8ByteSize = 0 from rfl, Nat.zero_add] at h
  exact h

/-- The texts below a supervisor follow its line. -/
private theorem size_children {f : NodeId → Option String} {size : NodeId → Nat}
    (hf : ∀ c text, f c = some text → text.utf8ByteSize = size c) (children : List NodeId) :
    ∀ {line text : String} {n : Nat}, line.utf8ByteSize = n →
      children.foldlM (fun output c => (f c).map (output ++ ·)) line = some text →
      text.utf8ByteSize = children.foldl (fun n c => n + size c) n := by
  induction children with
  | nil =>
    intro line text n hn h
    injection h with h
    rw [← h, hn]
    rfl
  | cons c children ih =>
    intro line text n hn h
    rw [List.foldlM_cons] at h
    obtain ⟨out, hout, h⟩ := Option.bind_eq_some_iff.1 h
    obtain ⟨sub, hsub, rfl⟩ := Option.map_eq_some_iff.1 hout
    rw [List.foldl_cons]
    refine ih ?_ h
    rw [String.utf8ByteSize_append, hn, hf c sub hsub]

theorem size_formatTree (fuel : Nat) :
    ∀ {id : NodeId} {depth : Nat} {text : String}, formatTree t fuel id depth = some text →
      text.utf8ByteSize = treeSize t fuel id depth := by
  induction fuel with
  | zero =>
    intro id depth text h
    cases h
  | succ fuel ih =>
    intro id depth text h
    rw [formatTree] at h
    rw [treeSize]
    -- the two matches are on the same node
    cases hnode : t.get id with
    | none =>
      rw [hnode] at h
      injection h with h
      rw [← h]
      simp only [String.utf8ByteSize_append, size_indent]
      rfl
    | some node =>
      rw [hnode] at h
      cases node with
      | supervisor s =>
        refine size_children (fun c text hc => ih hc) _ ?_ h
        simp only [String.utf8ByteSize_append, size_indent]
        show 2 * depth + 13 + id.utf8ByteSize + 11
          + s.strategy.debugName.utf8ByteSize + 1 = _
        omega
      | worker w =>
        injection h with h
        rw [← h]
        simp only [String.utf8ByteSize_append, size_indent]
        show 2 * depth + id.utf8ByteSize + 2 + w.state.displayName.utf8ByteSize
          + 1 + (pidText w.pid).utf8ByteSize + 1 = _
        omega

-- ---- of the bodies

/-- The bytes of a body on the wire. -/
def bodySize (body : MessageBody) : Nat :=
  (MessagePack.encode body.variant.toDatum).length

theorem size_error (message : String) :
    bodySize (.error message) = errorSize message.utf8ByteSize := by
  refine (length_encode_struct "Error" _).trans ?_
  simp only [fieldsSize, length_encode_text, errorSize]
  generalize textSize message.utf8ByteSize = n
  show 1 + (6 + (1 + (8 + n + 0))) = 16 + n
  omega

theorem size_serviceInfo (name status : String) (pid : Option Int32) (supervisor : String) :
    bodySize (.serviceInfo name status pid supervisor)
      = 41 + textSize name.utf8ByteSize + textSize status.utf8ByteSize
        + pidSize pid + textSize supervisor.utf8ByteSize := by
  refine (length_encode_struct "ServiceInfo" _).trans ?_
  simp only [fieldsSize, length_encode_text]
  generalize textSize name.utf8ByteSize = n
  generalize textSize status.utf8ByteSize = k
  generalize textSize supervisor.utf8ByteSize = l
  show 1 + (12 + (1 + (5 + n + (7 + k + (4 + pidSize pid + (11 + l + 0)))))) = _
  omega

theorem size_serviceList (services : List ServiceEntry) : bodySize (.serviceList services)
    = 23 + (MessagePack.arrayHead services.length).length
      + (MessagePack.encodeAll (services.map ServiceEntry.toDatum)).length := by
  refine (length_encode_struct "ServiceList" _).trans ?_
  simp only [fieldsSize]
  rw [MessagePack.encode, List.length_append, List.length_map]
  generalize (MessagePack.arrayHead services.length).length = h
  generalize (MessagePack.encodeAll (services.map ServiceEntry.toDatum)).length = n
  show 1 + (12 + (1 + (9 + (h + n) + 0))) = _
  omega

theorem size_tree (text : String) : bodySize (.tree text) = 12 + textSize text.utf8ByteSize := by
  refine (length_encode_struct "Tree" _).trans ?_
  simp only [fieldsSize, length_encode_text]
  generalize textSize text.utf8ByteSize = n
  show 1 + (5 + (1 + (5 + n + 0))) = _
  omega

theorem size_serviceByPid (name : Option String) (pid : Int32) : bodySize (.serviceByPid name pid)
    = 24 + optionalTextSize name + pidSize (some pid) := by
  refine (length_encode_struct "ServiceByPid" _).trans ?_
  simp only [fieldsSize, length_encode_optional_text]
  generalize optionalTextSize name = n
  show 1 + (13 + (1 + (5 + n + (4 + pidSize (some pid) + 0)))) = _
  omega

theorem size_actOn (name : NodeId) (action : RequestedAction) :
    bodySize (actOn t name action).1 = actSize t name := by
  unfold actOn actSize
  split
  · exact length_encode_unit "Ack"
  · rw [size_error, String.utf8ByteSize_append]
    rfl

/-- The entries of workers, each with its bytes. -/
private theorem size_entries (names : List NodeId) (n : Nat) :
    n + (MessagePack.encodeAll ((names.filterMap fun name =>
        (t.getWorker name).map (serviceEntry name)).map ServiceEntry.toDatum)).length
      = names.foldl (addEntry t) n := by
  induction names generalizing n with
  | nil => rfl
  | cons name names ih =>
    rw [List.foldl_cons, List.filterMap_cons, addEntry]
    cases h : t.getWorker name with
    | none => exact ih n
    | some w =>
      rw [← ih]
      show n + (MessagePack.encodeAll ((serviceEntry name w).toDatum :: _)).length = _
      rw [MessagePack.encodeAll, List.length_append, length_encode_entry, Nat.add_assoc]

private theorem length_entries (workers : IterOrder t.allWorkers) :
    (workers.list.filterMap fun name =>
      (t.getWorker name).map (serviceEntry name)).length = workers.list.length := by
  have hall : ∀ name ∈ workers.list, ∃ w, t.getWorker name = some w :=
    fun name h => SupervisorTree.mem_allWorkers.1 (workers.mem.1 h)
  generalize workers.list = names at hall
  induction names with
  | nil => rfl
  | cons name names ih =>
    obtain ⟨w, hw⟩ := hall name List.mem_cons_self
    rw [List.filterMap_cons, hw]
    exact congrArg (· + 1) (ih fun n h => hall n (List.mem_cons_of_mem _ h))

/-- Every request has an answer, of the size `answerSize` says. -/
theorem handleRequest_size (hgrown : Grown t) (workers : IterOrder t.allWorkers)
    {fuel : Nat} (hfuel : t.nodes.keys.card ≤ fuel) (body : MessageBody) :
    ∃ answer, handleRequest t workers fuel body = some answer
      ∧ bodySize answer.1 = answerSize t workers body := by
  cases body
  case startService name => exact ⟨_, rfl, size_actOn name _⟩
  case stopService name => exact ⟨_, rfl, size_actOn name _⟩
  case restartService name => exact ⟨_, rfl, size_actOn name _⟩
  case serviceStatus name =>
    cases h : t.getWorker name with
    | some w =>
      simp only [handleRequest, answerSize, h]
      exact ⟨_, rfl, size_serviceInfo _ _ _ _⟩
    | none =>
      simp only [handleRequest, answerSize, h]
      refine ⟨_, rfl, ?_⟩
      rw [size_error, String.utf8ByteSize_append]
      rfl
  case listServices =>
    refine ⟨_, rfl, ?_⟩
    have hsize := size_entries (t := t) workers.list 0
    rw [Nat.zero_add] at hsize
    rw [size_serviceList, length_entries, hsize]
    rfl
  case treeStatus =>
    obtain ⟨hroot, rank, hrank⟩ := hgrown.ranked
    obtain ⟨text, htext⟩ := formatTree_returns hrank t.nodes.keys.card t.rootId 0
      hroot (Nat.le_add_left _ _)
    refine ⟨(.tree text, none), ?_, ?_⟩
    · unfold handleRequest
      rw [formatTree_mono hfuel htext]
      rfl
    · rw [size_tree, size_formatTree _ htext]
      rfl
  case shutdown kind => exact ⟨_, rfl, length_encode_unit "Ack"⟩
  case reload => exact ⟨_, rfl, length_encode_unit "Ack"⟩
  case getServiceByPid pid => exact ⟨_, rfl, size_serviceByPid _ _⟩
  -- whatever is no request
  all_goals exact ⟨_, rfl, size_error "unknown command"⟩

-- ==== the response

section

variable {E D I : Type} {rmp : RmpSerde E D} {m : Message} {b : List UInt8}

/-- However the frame of a request is cut into reads, it is received. -/
theorem receiveRequest_pieces {pieces : List (List UInt8)} (later : Incoming I)
    (hframe : Frames rmp m b) (hpieces : pieces.flatten = b) (hne : ∀ p ∈ pieces, p ≠ []) :
    receiveRequest rmp (pieces.map .ok ++ later) = .ok (some m) := by
  unfold receiveRequest
  rw [receiveFrame_pieces hframe hpieces hne]
  dsimp only
  rw [hframe.decode_eq]

/-- The bytes of the response to a request, without the frame. -/
def replySize (t : SupervisorTree) (workers : IterOrder t.allWorkers) (request : Message) : Nat :=
  37 + 2 * uintSize request.id.toNat + answerSize t workers request.body

theorem size_response (id : UInt64) (body : MessageBody) :
    (MessagePack.encode (response id body).toDatum).length
      = 37 + 2 * uintSize id.toNat + bodySize body := by
  rw [length_encode_message]
  show 14 + uintSize id.toNat + (23 + uintSize id.toNat) + bodySize body = _
  omega

/-- The connection got one frame, and it is a response to the
request. -/
def Answered (rmp : RmpSerde E D) (request : Message) (served : Option (Served E D I)) : Prop :=
  ∃ s data resp, served = some s ∧ s.written = [data]
    ∧ decode rmp data = .ok (resp, data.length)
    ∧ resp.id = request.id ∧ resp.kind = .response request.id

variable (hrmp : rmp.StructMap) (hall : rmp.Serializes) (hgrown : Grown t)
  (workers : IterOrder t.allWorkers) {fuel : Nat} (hfuel : t.nodes.keys.card ≤ fuel)
include hrmp hall hgrown hfuel

/-- What a connection comes to that sends a request: an answer, or an
error because the answer is too large for a frame. -/
theorem handleConnection_eq {incoming : Incoming I}
    (hreceived : receiveRequest rmp incoming = .ok (some m)) :
    ∃ answer, handleRequest t workers fuel m.body = some answer
      ∧ (MessagePack.encode (response m.id answer.1).toDatum).length
        = replySize t workers m
      ∧ handleConnection t workers rmp fuel { incoming := incoming }
        = some (if replySize t workers m > maxMessageSize
          then { written := [],
                 result := .error (.encode (.tooLarge (replySize t workers m))) }
          else { written := [frame (MessagePack.encode (response m.id answer.1).toDatum)],
                 result := .ok answer.2 }) := by
  obtain ⟨answer, hanswer, hsize⟩ := handleRequest_size hgrown workers hfuel m.body
  have hlen : (MessagePack.encode (response m.id answer.1).toDatum).length
      = replySize t workers m := by
    rw [size_response, hsize]
    rfl
  refine ⟨answer, hanswer, hlen, ?_⟩
  unfold handleConnection
  rw [hreceived]
  dsimp only
  rw [hanswer, Option.map_some]
  unfold sendResponse
  rw [encode_eq hrmp hall, hlen]
  by_cases hlarge : replySize t workers m > maxMessageSize
  · rw [if_pos hlarge, if_pos hlarge]
  · rw [if_neg hlarge, if_neg hlarge]

/-- A request is answered with one frame, under its own id, exactly if
what the answer has to carry fits into a frame. -/
theorem answered_iff_fits (hb : decode rmp b = .ok (m, b.length))
    {pieces : List (List UInt8)} (hpieces : pieces.flatten = b)
    (hne : ∀ p ∈ pieces, p ≠ []) (later : Incoming I) :
    Answered rmp m (handleConnection t workers rmp fuel
        { incoming := pieces.map .ok ++ later })
      ↔ replySize t workers m ≤ maxMessageSize := by
  obtain ⟨answer, -, hlen, heq⟩ := handleConnection_eq hrmp hall hgrown workers hfuel
    (receiveRequest_pieces later (frames_of_decode hb) hpieces hne)
  rw [heq]
  split
  · next hlarge =>
    refine iff_of_false ?_ (Nat.not_le.2 hlarge)
    rintro ⟨s, data, resp, hs, hwritten, -⟩
    injection hs with hs
    rw [← hs] at hwritten
    cases hwritten
  · next hfits =>
    refine iff_of_true ?_ (Nat.not_lt.1 hfits)
    have hlen := hlen.trans_le (Nat.not_lt.1 hfits)
    have hresp := encode_frames (readsBack_of_structMap hrmp hlen)
      ((encode_eq hrmp hall _).trans (if_neg (Nat.not_lt.2 hlen)))
    exact ⟨_, _, _, rfl, rfl, hresp.decode_eq, rfl, rfl⟩

end

-- ==== a long name

/-- The tree before any configuration. -/
def bareTree : SupervisorTree := .new "root" .oneForOne (.new 20 (fromSecs 600))

theorem bareTree_grown : Grown bareTree := Grown.new _ _ _

private theorem bareTree_getWorker (name : NodeId) : bareTree.getWorker name = none := by
  unfold SupervisorTree.getWorker
  cases h : bareTree.nodes.lookup name with
  | none => rfl
  | some n => rw [node_of_lookup_new h]

/-- The request to start a service. -/
def startRequest (name : NodeId) : Message :=
  { id := 1, kind := .request, body := .startService name }

private theorem length_startRequest (name : NodeId) :
    (MessagePack.encode (startRequest name).toDatum).length
      = 43 + textSize name.utf8ByteSize := by
  have hbody : (MessagePack.encode (startRequest name).body.variant.toDatum).length
      = 1 + (13 + (1 + (5 + textSize name.utf8ByteSize + 0))) := by
    refine (length_encode_struct "StartService" _).trans ?_
    rw [fieldsSize, length_encode_text]
    rfl
  rw [length_encode_message, hbody]
  show 14 + 1 + 8 + _ = _
  omega

private theorem replySize_startRequest (name : NodeId) :
    replySize bareTree (.sorted _) (startRequest name)
      = 39 + errorSize (17 + name.utf8ByteSize) := by
  show 37 + 2 * 1 + actSize bareTree name = _
  rw [actSize, bareTree_getWorker]
  rfl

/-- A name that nearly fills a frame. -/
def longName : NodeId := String.ofList (List.replicate 65480 'a')

private theorem utf8Len_replicate (n : Nat) : String.utf8Len (List.replicate n 'a') = n := by
  induction n with
  | zero => rfl
  | succ n ih =>
    rw [List.replicate_succ, String.utf8Len_cons, ih]
    rfl

private theorem size_longName : longName.utf8ByteSize = 65480 :=
  (String.utf8ByteSize_ofList _).trans (utf8Len_replicate 65480)

/-- The request arrives whole. The answer repeats the name and has no
room for it: nothing is written, and the connection ends in an
error. -/
theorem long_name_unanswered :
    decode reference (frame (MessagePack.encode (startRequest longName).toDatum))
        = .ok (startRequest longName,
          (frame (MessagePack.encode (startRequest longName).toDatum)).length)
      ∧ handleConnection (I := Unit) bareTree (.sorted _) reference 1
          { incoming := [frame (MessagePack.encode (startRequest longName).toDatum)].map .ok }
        = some { written := [], result := .error (.encode (.tooLarge 65555)) } := by
  have hlen : (MessagePack.encode (startRequest longName).toDatum).length
      ≤ maxMessageSize := by
    rw [length_startRequest, size_longName]
    decide
  have hframe := encode_frames (reference_readsBack hlen) (encode_reference hlen)
  have hne : ∀ p ∈ [frame (MessagePack.encode (startRequest longName).toDatum)],
      p ≠ [] := by
    intro p hp
    rw [List.mem_singleton.1 hp]
    exact List.ne_nil_of_length_pos hframe.length_pos
  have hreceived := receiveRequest_pieces (I := Unit) [] hframe (List.append_nil _) hne
  obtain ⟨answer, -, -, heq⟩ := handleConnection_eq reference_structMap
    reference_serializes bareTree_grown (.sorted _) (le_refl 1) hreceived
  have hsize : replySize bareTree (.sorted _) (startRequest longName) = 65555 := by
    rw [replySize_startRequest, size_longName]
    rfl
  rw [hsize] at heq
  exact ⟨hframe.decode_eq, heq⟩

theorem reload_answered :
    Answered (I := Unit) reference { id := 1, kind := .request, body := .reload }
      (handleConnection bareTree (.sorted _) reference 1
        { incoming := [frame (MessagePack.encode
            ({ id := 1, kind := .request, body := .reload } : Message).toDatum)].map
              .ok ++ [] }) := by
  have hlen : (MessagePack.encode
      ({ id := 1, kind := .request, body := .reload } : Message).toDatum).length
        ≤ maxMessageSize := by
    decide
  have hframe := encode_frames (reference_readsBack hlen) (encode_reference hlen)
  exact (answered_iff_fits reference_structMap reference_serializes bareTree_grown
    (.sorted _) (le_refl 1) hframe.decode_eq (List.append_nil _)
    (by decide) []).2 (by decide)

end Dynamod.Svmgr
