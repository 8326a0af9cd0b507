/-
Reloading the service definitions. `reload_services` compares the names
on the disk with the workers of the tree: it adds and starts the new
ones, and sends SIGTERM to the ones that are gone.

# What is left in the tree

A new definition is added unless its name is a supervisor's, or the
supervisor it asks for is a service by the time of its turn
(`servicesAfter`). Nothing is ever taken out of the tree: the node of a
removed service stays, and its exit is an exit like any other, after
which the restart policy may start it again.

So the workers of the tree come to be the names on the disk if and only
if no worker is missing on the disk and every new name finds a place.
-/
import Dynamod.Svmgr.Proofs.Build
import Dynamod.Svmgr.Proofs.Tracking
import Dynamod.Svmgr.Proofs.Writes

namespace Dynamod.Svmgr

open Lib SupervisorTree

variable {defs : List ServiceDef} {w : World}

-- ==== the names

/-- The names of some definitions. -/
def loadedNames (defs : List ServiceDef) : Finset NodeId :=
  (defs.map fun d => d.service.name).toFinset

theorem mem_loadedNames {n : NodeId} : n ∈ loadedNames defs ↔ ∃ d ∈ defs, d.service.name = n := by
  unfold loadedNames
  rw [List.mem_toFinset, List.mem_map]

namespace SupervisorTree

variable {t : SupervisorTree} {n : NodeId} {d : ServiceDef}

/-- The services after the turn of `d`, from those before it. -/
def join (t : SupervisorTree) (services : Finset NodeId) (d : ServiceDef) : Finset NodeId :=
  if (t.getSupervisor d.service.name).isSome ∨ d.service.supervisor ∈ services then
    services
  else insert d.service.name services

/-- The services once every definition has had its turn. -/
def servicesAfter (t : SupervisorTree) (defs : List ServiceDef) : Finset NodeId :=
  defs.foldl t.join t.allWorkers

/-- `n` is no supervisor's name, and a definition of `n` asks for a
supervisor that is not a service by then. -/
def FindsPlace (t : SupervisorTree) (defs : List ServiceDef) (n : NodeId) : Prop :=
  t.getSupervisor n = none ∧ ∃ before d after, defs = before ++ d :: after
    ∧ d.service.name = n ∧ d.service.supervisor ∉ t.servicesAfter before

theorem servicesAfter_concat (defs : List ServiceDef) (d : ServiceDef) :
    t.servicesAfter (defs ++ [d]) = t.join (t.servicesAfter defs) d := by
  unfold servicesAfter
  rw [List.foldl_append]
  rfl

theorem findsPlace_concat : t.FindsPlace (defs ++ [d]) n ↔ t.FindsPlace defs n
    ∨ t.getSupervisor n = none ∧ d.service.name = n
      ∧ d.service.supervisor ∉ t.servicesAfter defs := by
  constructor
  · intro h
    obtain ⟨hsup, before, d', after, hsplit, hname, hplace⟩ := h
    rcases List.eq_nil_or_concat after with rfl | ⟨after, e, rfl⟩
    · obtain ⟨rfl, hd⟩ := List.append_inj' hsplit rfl
      obtain rfl := List.singleton_inj.1 hd
      exact Or.inr ⟨hsup, hname, hplace⟩
    · rw [List.concat_eq_append, ← List.cons_append, ← List.append_assoc] at hsplit
      obtain ⟨rfl, -⟩ := List.append_inj' hsplit rfl
      exact Or.inl ⟨hsup, before, d', after, rfl, hname, hplace⟩
  · intro h
    rcases h with ⟨hsup, before, d', after, rfl, hname, hplace⟩ | ⟨hsup, hname, hplace⟩
    · exact ⟨hsup, before, d', after ++ [d], by simp, hname, hplace⟩
    · exact ⟨hsup, defs, d, [], rfl, hname, hplace⟩

/-- The services are those of the tree and the names that find a
place. -/
theorem mem_servicesAfter :
    n ∈ t.servicesAfter defs ↔ n ∈ t.allWorkers ∨ t.FindsPlace defs n := by
  induction defs using List.reverseRecOn with
  | nil =>
    refine (or_iff_left ?_).symm
    intro h
    obtain ⟨-, before, d, after, hsplit, -⟩ := h
    simp at hsplit
  | append_singleton defs d ih =>
    rw [servicesAfter_concat, findsPlace_concat, ← or_assoc, ← ih]
    unfold SupervisorTree.join
    split
    · next hrefused =>
      refine (or_iff_left ?_).symm
      intro h
      obtain ⟨hsup, rfl, hplace⟩ := h
      rcases hrefused with hrefused | hrefused
      · rw [hsup] at hrefused
        cases hrefused
      · exact hplace hrefused
    · next haccepted =>
      rw [not_or] at haccepted
      have hsup : t.getSupervisor d.service.name = none :=
        Option.not_isSome_iff_eq_none.1 haccepted.1
      rw [Finset.mem_insert, or_comm]
      refine or_congr_right ⟨?_, ?_⟩
      · intro h
        subst h
        exact ⟨hsup, rfl, haccepted.2⟩
      · intro h
        exact h.2.1.symm

-- ==== one new worker

/-- A definition is added if its name is new and its parent will be a
supervisor, that is, not a worker. -/
theorem addWorker_parentIn_iff (hroot : (t.getSupervisor "root").isSome) :
    (∃ t', t.addWorker d (d.parentIn t) = .ok t') ↔
      t.getSupervisor d.service.name = none ∧ d.service.name ∉ t.allWorkers
        ∧ d.service.supervisor ∉ t.allWorkers := by
  have hworker : ∀ n, n ∈ t.allWorkers ↔ (t.getWorker n).isSome := by
    intro n
    rw [mem_allWorkers, Option.isSome_iff_exists]
  have hparent : (t.getSupervisor (d.parentIn t)).isSome
      ↔ d.service.supervisor ∉ t.allWorkers := by
    have hnode : (t.get d.service.supervisor).isSome
        ↔ (t.getSupervisor d.service.supervisor).isSome
          ∨ (t.getWorker d.service.supervisor).isSome := by
      rw [← mem_nodes_iff, ← Finmap.lookup_isSome]
      rfl
    unfold ServiceDef.parentIn
    rw [hworker]
    cases hs : t.getSupervisor d.service.supervisor with
    | some s =>
      rw [hs] at hnode
      rw [if_pos (hnode.2 (Or.inl rfl)), hs, getWorker_of_supervisor hs]
      simp
    | none =>
      rw [hs] at hnode
      cases hwk : t.getWorker d.service.supervisor with
      | some wk =>
        rw [if_pos (hnode.2 (Or.inr (by rw [hwk]; rfl))), hs]
        simp
      | none =>
        rw [if_neg (by rw [hnode, hwk]; simp)]
        simp [hroot]
  rw [show (∃ t', t.addWorker d (d.parentIn t) = .ok t') ↔ _ from addNode_isOk_iff,
    hparent, mem_nodes_iff, ← hworker, not_or, Option.not_isSome_iff_eq_none, and_assoc]

section

variable {t' : SupervisorTree} {name parentId : NodeId} {parent : SupervisorNode}
  {wk : WorkerNode}

theorem Inserted.allWorkers (h : Inserted t t' name parentId parent (.worker wk)) :
    t'.allWorkers = insert name t.allWorkers := by
  ext n
  rw [mem_allWorkers, Finset.mem_insert, mem_allWorkers, h.getWorker]
  by_cases hn : n = name
  · rw [if_pos hn]
    exact iff_of_true ⟨wk, rfl⟩ (Or.inl hn)
  · rw [if_neg hn, or_iff_right hn]

theorem Inserted.isSome_getSupervisor_worker
    (h : Inserted t t' name parentId parent (.worker wk)) (n : NodeId) :
    (t'.getSupervisor n).isSome = (t.getSupervisor n).isSome := by
  rw [Bool.eq_iff_iff]
  refine ⟨?_, h.isSome_getSupervisor⟩
  rw [h.getSupervisor]
  by_cases hn : n = name
  · rw [if_pos hn]
    exact fun hnone => by cases hnone
  · rw [if_neg hn]
    by_cases hp : n = parentId
    · rw [hp, getSupervisor_eq, h.supervisor]
      exact fun _ => rfl
    · rw [if_neg hp]
      exact fun h => h

end

end SupervisorTree

/-- The effect is no signal, and no start of a worker of `t`. -/
def Effect.Spares (t : SupervisorTree) : Effect → Prop
  | .kill _ _ => False
  | .start n _ => n ∉ t.allWorkers
  | _ => True

namespace World

/-- Starting a worker leaves the others as they are. -/
theorem getWorker_startWorker (w : World) {id n : NodeId} (hn : n ≠ id) :
    (w.startWorker id).2.tree.getWorker n = w.tree.getWorker n := by
  rcases w.startWorker_write id with ⟨-, heq, -⟩ | ⟨hwrite, -⟩ | ⟨p, hwrite, -⟩
  · rw [heq]
  · cases hwrite with
    | failed _ wk _ hw => rw [hw.tree, getWorker_modifyWorker, if_neg hn]
  · cases hwrite with
    | started _ wk _ _ _ hw =>
      rw [hw.tree, getWorker_modifyWorker, if_neg hn, getWorker_registerPid, if_neg hn]

theorem startWorker_spares (w : World) {id : NodeId} {t : SupervisorTree}
    (hid : id ∉ t.allWorkers) :
    ∃ es, (w.startWorker id).2.log = w.log ++ es ∧ ∀ e ∈ es, e.Spares t := by
  rcases w.startWorker_write id with ⟨-, heq, -⟩ | ⟨hwrite, -⟩ | ⟨p, hwrite, -⟩
  · rw [heq]
    exact ⟨[], (List.append_nil _).symm, List.forall_mem_nil _⟩
  · cases hwrite with
    | failed _ wk _ hw => exact ⟨_, hw.log, by simp [Effect.Spares, hid]⟩
  · cases hwrite with
    | started _ wk _ _ _ hw => exact ⟨_, hw.log, by simp [Effect.Spares, hid]⟩

-- ==== the add loop

/-- Some definitions have had their turn since `w`: `services` are the
workers by now, and those of `w` are as they were. -/
structure Grew (w : World) (services : Finset NodeId) (v : World) : Prop where
  workers : v.tree.allWorkers = services
  supervisors : ∀ n, (v.tree.getSupervisor n).isSome = (w.tree.getSupervisor n).isSome
  kept : ∀ n wk, w.tree.getWorker n = some wk → v.tree.getWorker n = some wk
  spared : ∃ es, v.log = w.log ++ es ∧ ∀ e ∈ es, e.Spares w.tree

namespace Grew

variable {v : World} {services : Finset NodeId}

theorem refl (w : World) : Grew w w.tree.allWorkers w :=
  ⟨rfl, fun _ => rfl, fun _ _ h => h, [], (List.append_nil _).symm, List.forall_mem_nil _⟩

theorem subset (h : Grew w services v) : w.tree.allWorkers ⊆ services := by
  intro n hn
  obtain ⟨wk, hwk⟩ := mem_allWorkers.1 hn
  rw [← h.workers]
  exact mem_allWorkers.2 ⟨wk, h.kept n wk hwk⟩

/-- A definition that is added and started. -/
theorem added {d : ServiceDef} {parentId : NodeId} {tree : SupervisorTree}
    (h : Grew w services v) (hadd : v.tree.addWorker d parentId = .ok tree) :
    Grew w (insert d.service.name services)
      (({ v with tree := tree }.note (.joined d.service.name)).startWorker d.service.name).2 := by
  obtain ⟨parent, hi⟩ := addNode_inserted hadd
  have hnew : ∀ n wk, v.tree.getWorker n = some wk → n ≠ d.service.name :=
    fun n wk hwk e => hi.absent (e ▸ mem_nodes_of_lookup (lookup_of_getWorker hwk))
  have hshape : SameShape tree _ := (Rewrites.steps.startWorker
    ({ v with tree := tree }.note (.joined d.service.name)) d.service.name).sameShape
  refine ⟨?_, ?_, ?_, ?_⟩
  · rw [hshape.allWorkers, hi.allWorkers, h.workers]
  · intro n
    rw [hshape.isSome_getSupervisor, hi.isSome_getSupervisor_worker, h.supervisors]
  · intro n wk hwk
    have hne := hnew n wk (h.kept n wk hwk)
    rw [getWorker_startWorker _ hne]
    show tree.getWorker n = some wk
    rw [hi.getWorker, if_neg hne]
    exact h.kept n wk hwk
  · have hname : d.service.name ∉ w.tree.allWorkers := by
      intro hmem
      obtain ⟨wk, hwk⟩ := mem_allWorkers.1 hmem
      exact hnew _ wk (h.kept _ wk hwk) rfl
    obtain ⟨es, hlog, hes⟩ := h.spared
    obtain ⟨fs, hstart, hfs⟩ := startWorker_spares
      ({ v with tree := tree }.note (.joined d.service.name)) hname
    refine ⟨es ++ .joined d.service.name :: fs, ?_, ?_⟩
    · rw [hstart]
      show (v.log ++ [_]) ++ fs = _
      rw [hlog, List.append_assoc, List.append_assoc]
      rfl
    · intro e he
      rcases List.mem_append.1 he with he | he
      · exact hes e he
      · rcases List.mem_cons.1 he with rfl | he
        · exact True.intro
        · exact hfs e he

theorem reloadAdd (h : Grew w services v) (hroot : (w.tree.getSupervisor "root").isSome)
    (d : ServiceDef) : Grew w (w.tree.join services d) (reloadAdd w.tree.allWorkers v d) := by
  have hadds := addWorker_parentIn_iff (d := d) (t := v.tree) (h.supervisors _ ▸ hroot)
  rw [h.workers] at hadds
  -- a name that is a service already has nothing to add
  have hsame : d.service.name ∈ services → w.tree.join services d = services := by
    intro hmem
    unfold SupervisorTree.join
    split
    · rfl
    · exact Finset.insert_eq_self.2 hmem
  unfold World.reloadAdd
  split
  · next hexists =>
    rw [hsame (h.subset hexists)]
    exact h
  · dsimp only
    rw [← ServiceDef.parentIn]
    split
    · next e hadd =>
      have hjoin : w.tree.join services d = services := by
        by_cases hmem : d.service.name ∈ services
        · exact hsame hmem
        · unfold SupervisorTree.join
          apply if_pos
          by_contra hrefused
          rw [not_or, ← h.supervisors, Option.not_isSome_iff_eq_none] at hrefused
          obtain ⟨tree, htree⟩ := hadds.2 ⟨hrefused.1, hmem, hrefused.2⟩
          rw [hadd] at htree
          cases htree
      rw [hjoin]
      exact h
    · next tree hadd =>
      obtain ⟨hsup, -, hparent⟩ := hadds.1 ⟨tree, hadd⟩
      have hjoin : w.tree.join services d = insert d.service.name services := by
        unfold SupervisorTree.join
        rw [← h.supervisors, hsup]
        exact if_neg (by simp [hparent])
      rw [hjoin]
      exact h.added hadd

theorem foldl_reloadAdd (hroot : (w.tree.getSupervisor "root").isSome) (defs : List ServiceDef) :
    ∀ {v services}, Grew w services v → Grew w (defs.foldl w.tree.join services)
        (defs.foldl (World.reloadAdd w.tree.allWorkers) v) := by
  induction defs with
  | nil => exact fun h => h
  | cons d ds ih => exact fun h => ih (h.reloadAdd hroot d)

end Grew

-- ==== the whole reload

theorem reloadServices_eq (hdisk : w.env.disk = some defs) :
    w.reloadServices = (w.env.iter .existing w.tree.allWorkers).list.foldl
      (fun v name => if name ∈ defs.map fun d => d.service.name then v
        else v.stopWorker name) (defs.foldl (reloadAdd w.tree.allWorkers) w) := by
  unfold World.reloadServices
  rw [hdisk]

/-- After a reload the workers are those the tree had and those that
found a place. -/
theorem allWorkers_reloadServices (hroot : (w.tree.getSupervisor "root").isSome)
    (hdisk : w.env.disk = some defs) :
    w.reloadServices.tree.allWorkers = w.tree.servicesAfter defs := by
  have hgrew := Grew.foldl_reloadAdd hroot defs (.refl w)
  have hstop := Rewrites.closed.foldl (f := fun (v : World) name =>
      if name ∈ defs.map fun d => d.service.name then v else v.stopWorker name)
    (fun v name => by
      split
      · exact .refl v
      · exact Rewrites.closed.stopWorker v name)
    (w.env.iter .existing w.tree.allWorkers).list
    (defs.foldl (World.reloadAdd w.tree.allWorkers) w)
  rw [reloadServices_eq hdisk, hstop.sameShape.allWorkers, hgrew.workers]
  rfl

/-- If every worker is on the disk, the reload is its first loop. -/
theorem reloadServices_covered (hdisk : w.env.disk = some defs)
    (hcovered : w.tree.allWorkers ⊆ loadedNames defs) :
    w.reloadServices = defs.foldl (reloadAdd w.tree.allWorkers) w := by
  rw [reloadServices_eq hdisk]
  refine List.foldlRecOn _ _ (motive := fun v : World => v = _) rfl fun v hv name hname => ?_
  have hloaded := hcovered ((IterOrder.mem _).1 hname)
  rw [if_pos (List.mem_toFinset.1 hloaded), hv]

/-- With the same names in the tree and on the disk there is nothing to
do. -/
theorem reloadServices_idle (hdisk : w.env.disk = some defs)
    (hsame : w.tree.allWorkers = loadedNames defs) : w.reloadServices = w := by
  rw [reloadServices_covered hdisk (le_of_eq hsame)]
  refine List.foldlRecOn _ _ (motive := fun v : World => v = w) rfl fun v hv d hd => ?_
  have hname : d.service.name ∈ w.tree.allWorkers := by
    rw [hsame]
    exact mem_loadedNames.2 ⟨d, hd, rfl⟩
  unfold reloadAdd
  rw [if_pos hname, hv]

-- ==== the exits it asked for

/-- A status that reports an exit comes from the script. -/
theorem waitpid_mem {v : World} {st : WaitStatus} {p : Pid} {exit : ExitInfo}
    (hw : w.waitpid = (st, v)) (hst : st.exitOf = some (p, exit)) : st ∈ w.env.waits := by
  unfold World.waitpid at hw
  cases hwaits : w.env.waits with
  | nil =>
    rw [hwaits] at hw
    obtain ⟨rfl, -⟩ := Prod.mk.inj hw
    cases hst
  | cons status rest =>
    rw [hwaits] at hw
    cases status with
    | exited q code =>
      dsimp only at hw
      split at hw
      · obtain ⟨rfl, -⟩ := Prod.mk.inj hw
        exact List.mem_cons_self
      · obtain ⟨rfl, -⟩ := Prod.mk.inj hw
        cases hst
    | signaled q sig =>
      dsimp only at hw
      split at hw
      · obtain ⟨rfl, -⟩ := Prod.mk.inj hw
        exact List.mem_cons_self
      · obtain ⟨rfl, -⟩ := Prod.mk.inj hw
        cases hst
    | _ =>
      obtain ⟨rfl, -⟩ := Prod.mk.inj hw
      cases hst

/-- A reap to which no exit is reported only uses up the script. -/
theorem Idle.reapAndHandleExits (fuel : Nat) :
    ∀ {w : World}, (∀ st ∈ w.env.waits, st.exitOf = none) →
      Idle w (reapAndHandleExits fuel w) := by
  induction fuel with
  | zero => exact fun {w} _ => .refl w
  | succ fuel ih =>
    intro w hquiet
    rcases w.waitpid_cases with ⟨st, p, exit, v, hw, hst, -⟩ | ⟨st, v, hw, hst, hv, -⟩
    · rw [hquiet st (waitpid_mem hw hst)] at hst
      cases hst
    · rw [reapAndHandleExits_idle hw hst]
      split
      · exact hv.trans (ih fun s hs => hquiet s (hv.waits.mem hs))
      · exact hv

/-- The main loop reaps, from time to time, and only processes of
`asked` are reported to have exited. -/
inductive Reaps (asked : Pid → Prop) (w : World) : World → Prop
  | done : Reaps asked w w
  | reap {v : World} (now : Instant) (env : Env) : Reaps asked w v → v.now ≤ now →
      (∀ st ∈ env.waits, ∀ p exit, st.exitOf = some (p, exit) → asked p) →
      Reaps asked w { v with now := now, env := env }.reapChildren

namespace Reaps

variable {asked : Pid → Prop} {v : World}

theorem sameShape (h : Reaps asked w v) : SameShape w.tree v.tree := by
  induction h with
  | done => exact .refl _
  | @reap v now env _ _ _ ih =>
    exact ih.trans (Rewrites.closed.reapChildren { v with now := now, env := env }).sameShape

/-- If nobody was asked, nothing happens. -/
theorem nobody (h : Reaps asked w v) (hnone : ∀ p, ¬ asked p) :
    v.tree = w.tree ∧ v.log = w.log := by
  induction h with
  | done => exact ⟨rfl, rfl⟩
  | @reap v now env _ _ hasked ih =>
    have hidle : Idle { v with now := now, env := env }
        { v with now := now, env := env }.reapChildren := by
      apply Idle.reapAndHandleExits
      intro st hst
      cases hexit : st.exitOf with
      | none => rfl
      | some reported => exact absurd (hasked st hst _ _ hexit) (hnone reported.1)
    exact ⟨hidle.tree.trans ih.1, hidle.log.trans ih.2⟩

end Reaps

/-- The root is there in every state of every run. -/
theorem Turns.root {supervisors : List SupervisorDef} {services : List ServiceDef}
    (h : Turns { tree := buildTree supervisors services } w) :
    (w.tree.getSupervisor "root").isSome := by
  obtain ⟨os, hos⟩ := h
  refine hos.invariant (I := fun v => (v.tree.getSupervisor "root").isSome) ?_ ?_
  · apply buildTree_insertions (P := fun t => (t.getSupervisor "root").isSome)
    · decide
    · intro t f _ ht
      rw [getSupervisor_modifySupervisor, if_pos rfl, Option.isSome_map]
      exact ht
    · exact fun t t' d parent hi ht => hi.isSome_getSupervisor ht
    · exact fun t t' d _ parentId parent i hi ht => hi.isSome_getSupervisor ht
  · intro v o v' hv hturn
    cases hturn with
    | aside htree => exact htree ▸ hv
    | write hwrite =>
      rcases hwrite.shape with hshape | ⟨svcDef, parentId, hadd⟩
      · exact (hshape.isSome_getSupervisor "root").trans hv
      · obtain ⟨parent, hi⟩ := addNode_inserted hadd
        exact hi.isSome_getSupervisor hv

/-- The workers are the services on the disk, those that were there are
as they were, and another reload changes nothing. -/
structure Converged (defs : List ServiceDef) (w v : World) : Prop where
  workers : v.tree.allWorkers = loadedNames defs
  spared : ∀ n wk, w.tree.getWorker n = some wk → n ∈ loadedNames defs →
    v.tree.getWorker n = some wk ∧ (∀ held, .start n held ∉ effects w v)
      ∧ ∀ p sig, wk.pid = some p → .kill p sig ∉ effects w v
  settled : ∀ u : World, u.tree = v.tree → u.env.disk = some defs →
    u.reloadServices = u

end World

open World

/-- A reload in any state of any run, and then any part of the handling
of the exits it asked for, all of it included. The reload has converged
if and only if every worker of the tree was on the disk, and every new
name found a place. -/
theorem reload_converged_iff {supervisors : List SupervisorDef}
    {services : List ServiceDef} {w v : World} {defs : List ServiceDef}
    (hrun : Turns { tree := buildTree supervisors services } w)
    (hdisk : w.env.disk = some defs)
    (hexits : Reaps (fun p => .kill p .sigterm ∈ effects w w.reloadServices) w.reloadServices v) :
    Converged defs w v ↔ w.tree.allWorkers ⊆ loadedNames defs
      ∧ ∀ n ∈ loadedNames defs, n ∈ w.tree.allWorkers ∨ w.tree.FindsPlace defs n := by
  have hroot := hrun.root
  have hworkers : v.tree.allWorkers = w.tree.servicesAfter defs := by
    rw [hexits.sameShape.allWorkers, allWorkers_reloadServices hroot hdisk]
  constructor
  · intro h
    have hnames : w.tree.servicesAfter defs = loadedNames defs :=
      hworkers.symm.trans h.workers
    refine ⟨?_, ?_⟩
    · intro n hn
      rw [← hnames]
      exact mem_servicesAfter.2 (Or.inl hn)
    · intro n hn
      rw [← hnames] at hn
      exact mem_servicesAfter.1 hn
  · intro h
    obtain ⟨hcovered, hplaces⟩ := h
    have hnames : w.tree.servicesAfter defs = loadedNames defs := by
      apply Finset.Subset.antisymm
      · intro n hn
        rcases mem_servicesAfter.1 hn with hn | hn
        · exact hcovered hn
        · obtain ⟨-, before, d, after, rfl, hname, -⟩ := hn
          exact mem_loadedNames.2 ⟨d, by simp, hname⟩
      · exact fun n hn => mem_servicesAfter.2 (hplaces n hn)
    have hgrew : Grew w (w.tree.servicesAfter defs) w.reloadServices := by
      rw [reloadServices_covered hdisk hcovered]
      exact Grew.foldl_reloadAdd hroot defs (.refl w)
    obtain ⟨es, hlog, hes⟩ := hgrew.spared
    -- nobody is asked to stop, so no exit is handled
    have hnobody : ∀ p, .kill p .sigterm ∉ effects w w.reloadServices := by
      intro p hp
      rw [effects_eq hlog] at hp
      exact hes _ hp
    obtain ⟨htree, hsame⟩ := hexits.nobody hnobody
    have heffects : effects w v = es := effects_eq (hsame.trans hlog)
    refine ⟨hworkers.trans hnames, ?_, ?_⟩
    · intro n wk hwk _
      refine ⟨?_, ?_, ?_⟩
      · rw [htree]
        exact hgrew.kept n wk hwk
      · intro held hmem
        rw [heffects] at hmem
        exact hes _ hmem (mem_allWorkers.2 ⟨wk, hwk⟩)
      · intro p sig _ hmem
        rw [heffects] at hmem
        exact hes _ hmem
    · intro u hu hfiles
      apply reloadServices_idle hfiles
      rw [hu, hworkers, hnames]

-- ==== two reloads

/-- The manager of `soloRunning` asked to reload with `defs` on the
disk. -/
def soloReloading (defs : List ServiceDef) (forks : List (Option Pid)) : World :=
  ({ soloRunning with
    world := (soloRunning.withEnv {}).world.reapChildren }.withEnv
      { disk := some defs, forks }).world

def extraDef : ServiceDef :=
  { service := { name := "b", exec := ["/bin/b"] } }

theorem soloReloading_turns (defs : List ServiceDef) (forks : List (Option Pid)) :
    Turns { tree := buildTree [] [soloDef] } (soloReloading defs forks) := by
  have hreap := solo_reachable.step (.mainReap _ {})
  exact (hreap.turns (by simp)).trans (.aside rfl rfl (le_refl _))

/-- A second service appears on the disk. -/
theorem solo_gains_service :
    Converged [soloDef, extraDef] (soloReloading [soloDef, extraDef] [some 101])
      (soloReloading [soloDef, extraDef] [some 101]).reloadServices := by
  apply (reload_converged_iff (soloReloading_turns _ _) rfl .done).2
  have hnames : loadedNames [soloDef, extraDef] = {"a", "b"} := by decide
  refine ⟨by decide, ?_⟩
  intro n hn
  rw [hnames, Finset.mem_insert, Finset.mem_singleton] at hn
  rcases hn with rfl | rfl
  · exact Or.inl (by decide)
  · exact Or.inr ⟨by decide, [soloDef], extraDef, [], rfl, rfl, by decide⟩

/-- The only service has gone from the disk, and the exit it was asked
for has been handled. -/
def soloRemoved : World :=
  { (soloReloading [] []).reloadServices.sleep (fromMillis 100) with
    env := { waits := [.signaled 100 15], forks := [some 101] } }.reapChildren

/-- The service is still in the tree, and has been started again. -/
theorem removed_service_restarted :
    ∃ m, Manager.Reachable [] [soloDef] m ∧ m.state.world = soloRemoved
      ∧ effects (soloReloading [] []) soloRemoved
        = [.kill 100 .sigterm, .exited "a" 100 ⟨none, some 15⟩ .supervisor,
          .recorded "root", .start "a" none, .spawned "a" 101]
      ∧ 100 ∉ soloRemoved.live ∧ soloRemoved.tree.allWorkers = {"a"}
      ∧ ¬ Converged [] (soloReloading [] []) soloRemoved := by
  have hreap := solo_reachable.step (.mainReap _ {})
  have hlisten := hreap.step (.mainListen _ [.reload])
  have hreload := hlisten.step (.act _ { disk := some [] } false .reload [] _ rfl)
  have hhandled := (hreload.step (.mainAgain _)).step
    (.mainReap _ { waits := [.signaled 100 15], forks := [some 101] })
  have hworkers : soloRemoved.tree.allWorkers = {"a"} := by decide
  refine ⟨_, hhandled, rfl, by decide, by decide, hworkers, ?_⟩
  intro h
  have hnames := h.workers
  rw [hworkers] at hnames
  exact absurd hnames (by decide)

end Dynamod.Svmgr
