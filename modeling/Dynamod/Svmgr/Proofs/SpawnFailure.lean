/-
What follows when the startup loop fails to spawn a service.

`start_worker` reports the failure only through the worker's state,
which the loop does not read. What becomes of the service depends on
how it was to become ready:

  - at once: it is marked ready, failed spawn or not;
  - by a readiness check: the check runs against whatever answers;
  - by its exit: it is waited for, and settled if some other process of
    the service exits.

`Caused` says for every service which of these a `mark_ready` came
from.
-/
import Dynamod.Svmgr.Proofs.Oneshots
import Dynamod.Svmgr.Proofs.StartupFrontier

namespace Dynamod.Svmgr

open Lib Relation World

/-- Ready as soon as it is launched. -/
def ServiceDef.Immediate (d : ServiceDef) : Prop :=
  d.service.serviceType ≠ .oneshot ∧ d.readiness.readinessType = .none

-- ==== where a mark comes from

/-- The marks of `n` in a history and what they come from, where `d` is
the definition of `n`. -/
structure Caused (n : String) (log : List Effect)
    (d : Option ServiceDef) : Prop where
  launched : .launch n true ∈ log →
    ∃ d', d = some d' ∧ (d'.Immediate → .frontier (.ready n) ∈ log)
  checked : .checked n .ready ∈ log → .frontier (.ready n) ∈ log
  exited : ∀ p exit, exit.isNormal = true →
    .exited n p exit .startup ∈ log → .frontier (.ready n) ∈ log
  ready : .frontier (.ready n) ∈ log →
    (∃ d', d = some d' ∧ d'.Immediate) ∨ .checked n .ready ∈ log
      ∨ ∃ p exit, exit.isNormal = true ∧ .exited n p exit .startup ∈ log

theorem Caused.append {n : String} {log es : List Effect}
    {d d' : Option ServiceDef} (h : Caused n log d) (h' : Caused n es d')
    (hd : ∀ x, d = some x → d' = some x) : Caused n (log ++ es) d' := by
  refine ⟨?_, ?_, ?_, ?_⟩
  · intro hl
    rcases List.mem_append.1 hl with hl | hl
    · obtain ⟨x, hx, himm⟩ := h.launched hl
      exact ⟨x, hd x hx, fun hi => List.mem_append_left _ (himm hi)⟩
    · obtain ⟨x, hx, himm⟩ := h'.launched hl
      exact ⟨x, hx, fun hi => List.mem_append_right _ (himm hi)⟩
  · intro hc
    rcases List.mem_append.1 hc with hc | hc
    · exact List.mem_append_left _ (h.checked hc)
    · exact List.mem_append_right _ (h'.checked hc)
  · intro p exit hn he
    rcases List.mem_append.1 he with he | he
    · exact List.mem_append_left _ (h.exited p exit hn he)
    · exact List.mem_append_right _ (h'.exited p exit hn he)
  · intro hr
    rcases List.mem_append.1 hr with hr | hr
    · rcases h.ready hr with ⟨x, hx, hi⟩ | hc | ⟨p, exit, hn, he⟩
      · exact .inl ⟨x, hd x hx, hi⟩
      · exact .inr (.inl (List.mem_append_left _ hc))
      · exact .inr (.inr ⟨p, exit, hn, List.mem_append_left _ he⟩)
    · rcases h'.ready hr with hi | hc | ⟨p, exit, hn, he⟩
      · exact .inl hi
      · exact .inr (.inl (List.mem_append_right _ hc))
      · exact .inr (.inr ⟨p, exit, hn, List.mem_append_right _ he⟩)

theorem Caused.nil (n : String) (d : Option ServiceDef) : Caused n [] d := by
  refine ⟨?_, ?_, ?_, ?_⟩ <;> simp

theorem Launched.defOf {s : Startup} {name : String} {wk : WorkerNode}
    {w : World} (h : Launched s name wk w) : w.defOf name = some wk.svcDef := by
  have htree : w.tree = (s.world.startWorker name).2.tree := h.idle.tree
  unfold World.defOf
  rw [htree, h.worker]
  rfl

variable {g : DependencyGraph}

/-- Each move of the loop marks `n` for one of the three reasons, or
not at all. -/
theorem StartupMove.caused {a b : Startup × List String}
    {es : List Effect} (hm : StartupMove World.Moves g a es b) (n : String) :
    Caused n es (b.1.world.defOf n) := by
  cases hm with
  | env env => exact .nil n _
  | world w hw => exact .nil n _
  | settled name pid exit v hmem hv howner =>
    cases hexit : exit.isNormal with
    | true =>
      refine ⟨by simp, by simp, ?_, ?_⟩
      · intro p exit' _ hmem
        obtain ⟨rfl, -⟩ : n = name ∧ _ := by simpa using hmem
        simp
      · intro hready
        obtain rfl : n = name := by simpa using hready
        exact .inr (.inr ⟨pid, exit, hexit, by simp⟩)
    | false =>
      refine ⟨by simp, by simp, ?_, by simp⟩
      intro p exit' hnormal hmem
      obtain ⟨-, -, rfl⟩ : n = name ∧ p = pid ∧ exit' = exit := by
        simpa using hmem
      rw [hexit] at hnormal
      cases hnormal
  | took => refine ⟨?_, ?_, ?_, ?_⟩ <;> simp
  | skipped name hnone => refine ⟨?_, ?_, ?_, ?_⟩ <;> simp
  | oneshot name wk w hl ht hr =>
    refine ⟨?_, by simp, by simp, by simp⟩
    intro hn
    obtain ⟨rfl, -⟩ : n = name ∧ _ := by simpa using hn
    exact ⟨wk.svcDef, hl.defOf, fun hi => absurd ht hi.1⟩
  | immediate name wk w hl ht hr =>
    refine ⟨?_, by simp, by simp, ?_⟩
    · intro hn
      obtain ⟨rfl, -⟩ : n = name ∧ _ := by simpa using hn
      exact ⟨wk.svcDef, hl.defOf, fun _ => by simp⟩
    · intro hready
      obtain rfl : n = name := by simpa using hready
      exact .inl ⟨wk.svcDef, hl.defOf, ht, hr⟩
  | tracked name wk w tracker hl hr =>
    refine ⟨?_, by simp, by simp, by simp⟩
    intro hn
    obtain ⟨rfl, -⟩ : n = name ∧ _ := by simpa using hn
    exact ⟨wk.svcDef, hl.defOf, fun hi => absurd hi.2 hr⟩
  | waiting name w hi => refine ⟨?_, ?_, ?_, ?_⟩ <;> simp
  | checkedReady name w hmem hi =>
    refine ⟨by simp, ?_, by simp, ?_⟩
    · intro hc
      obtain rfl : n = name := by simpa using hc
      simp
    · intro hready
      obtain rfl : n = name := by simpa using hready
      exact .inr (.inl (by simp))
  | checkedFailed name w result hmem hi hr =>
    refine ⟨by simp, ?_, by simp, by simp⟩
    intro hc
    obtain ⟨-, hresult⟩ : n = name ∧ .ready = result := by simpa using hc
    exact absurd hresult.symm hr

/-- Every mark in the history of a run has its cause. -/
theorem Manager.Reachable.caused {supervisors : List SupervisorDef}
    {services : List ServiceDef} {m : Manager} (h : Manager.Reachable supervisors services m)
    (hphase : m.phase ≠ .exited) (n : String) :
    Caused n (ownLog m.state.world.log) (m.state.world.defOf n) := by
  refine Manager.Reachable.invariant
    (I := fun a => Caused n (ownLog a.1.world.log) (a.1.world.defOf n))
    World.Moves.closed World.Moves.added (fun _ => .nil n _) ?_ h hphase
  intro a es b hm ih
  rw [hm.own]
  refine ih.append (hm.caused n) ?_
  intro d hd
  obtain ⟨-, heq | ⟨hnone, -⟩⟩ := hm.keepsDef n
  · exact heq.trans hd
  · rw [hnone] at hd
    cases hd

-- ==== the result

/-- The failed service was not passed to `mark_ready`, and the loop has
launched nothing that requires it. -/
structure Contained (g : DependencyGraph) (log : List Effect)
    (n : String) : Prop where
  unready : .frontier (.ready n) ∉ log
  dependents : ∀ d, TransGen g.Requires d n →
    ∀ failed, .launch d failed ∉ log

/-- The failed service is not ready at once, no readiness check of it
succeeds, and no process of it exits with 0 while the loop waits for
it. -/
structure Hopeless (w : World) (n : String) : Prop where
  waits : ∀ d, w.defOf n = some d → ¬ d.Immediate
  unchecked : .checked n .ready ∉ w.log
  unsettled : ∀ p exit, exit.isNormal = true →
    .exited n p exit .startup ∉ w.log

/-- In every state of a run, a service whose spawn failed when the
startup loop launched it is contained exactly when it is hopeless. -/
theorem spawn_failure_contained_iff {supervisors : List SupervisorDef}
    {services : List ServiceDef} {m : Manager} (h : Manager.Reachable supervisors services m)
    (hphase : m.phase ≠ .exited) {n : String} (hfailed : .launch n true ∈ m.state.world.log) :
    Contained (.build services) m.state.world.log n
      ↔ Hopeless m.state.world n := by
  have hcaused := h.caused hphase n
  have hready : .frontier (.ready n) ∈ ownLog m.state.world.log
      ↔ .frontier (.ready n) ∈ m.state.world.log := mem_ownLog rfl
  constructor
  · intro hc
    have hnot : .frontier (.ready n) ∉ ownLog m.state.world.log :=
      fun hr => hc.unready (hready.1 hr)
    refine ⟨?_, ?_, ?_⟩
    · intro d hd himm
      obtain ⟨d', hd', hr⟩ := hcaused.launched ((mem_ownLog rfl).2 hfailed)
      rw [hd] at hd'
      obtain rfl := Option.some.inj hd'
      exact hnot (hr himm)
    · exact fun hch => hnot (hcaused.checked ((mem_ownLog rfl).2 hch))
    · exact fun p exit hn he =>
        hnot (hcaused.exited p exit hn ((mem_ownLog rfl).2 he))
  · intro hh
    have hnot : .frontier (.ready n) ∉ m.state.world.log := by
      intro hr
      rcases hcaused.ready (hready.2 hr) with ⟨d, hd, himm⟩ | hch |
        ⟨p, exit, hn, he⟩
      · exact hh.waits d hd himm
      · exact hh.unchecked ((mem_ownLog rfl).1 hch)
      · exact hh.unsettled p exit hn ((mem_ownLog rfl).1 he)
    refine ⟨hnot, ?_⟩
    intro d hchain failed hl
    exact hnot ((h.booked hphase).launched_requires hl hchain)

-- ==== two failed spawns

/-- A service that requires another. -/
def appDef (dependency : String) : ServiceDef :=
  { service := { name := "app", exec := ["/bin/app"] }
    dependencies := { requires := [dependency] } }

theorem setup_app_acyclic : (DependencyGraph.build [setupDef, appDef "setup"]).Acyclic :=
  DependencyGraph.acyclic_of_rank (fun s => if s = "app" then 1 else 0)
    (by decide)

/-- The fork for the oneshot `setup` fails. -/
def setupUnspawned : Startup := firstBatch [setupDef, appDef "setup"] [none]

theorem setup_unspawned_log : setupUnspawned.world.log
    = [.frontier (.took ["setup"]), .start "setup" none,
        .spawnFailed "setup", .launch "setup" true, .awaiting "setup"] := by
  decide

/-- A oneshot that failed to spawn is waited for, and `app` with it. -/
theorem setup_failure_contained :
    Manager.Reachable [] [setupDef, appDef "setup"] ⟨.poll, setupUnspawned⟩
      ∧ .launch "setup" true ∈ setupUnspawned.world.log
      ∧ Hopeless setupUnspawned.world "setup"
      ∧ Contained (.build [setupDef, appDef "setup"]) setupUnspawned.world.log "setup" := by
  have hreach := firstBatch_reachable setup_app_acyclic [none]
  have hfailed : .launch "setup" true ∈ setupUnspawned.world.log := by decide
  have hdef : setupUnspawned.world.defOf "setup" = some setupDef := by decide
  have hhope : Hopeless setupUnspawned.world "setup" := by
    refine ⟨?_, ?_, ?_⟩
    · intro d hd himm
      rw [hdef] at hd
      cases hd
      exact himm.1 rfl
    · rw [setup_unspawned_log]
      simp
    · intro p exit _
      rw [setup_unspawned_log]
      simp
  exact ⟨hreach, hfailed, hhope, (spawn_failure_contained_iff hreach (by simp) hfailed).2 hhope⟩

theorem solo_app_acyclic : (DependencyGraph.build [soloDef, appDef "a"]).Acyclic :=
  DependencyGraph.acyclic_of_rank (fun s => if s = "app" then 1 else 0)
    (by decide)

/-- The loop's second batch, after the fork for `a` has failed. -/
def soloUnspawned : Startup :=
  let g := DependencyGraph.build [soloDef, appDef "a"]
  let s := ((firstBatch [soloDef, appDef "a"] [none]).withEnv {}).pollReadiness g
  let s := { s with world := s.world.sleep (fromMillis 100) }
  let s := (s.withEnv {}).reapOneshotsDuringStartup g
  (s.withEnv { forks := [some 101] }).startBatch g

/-- A service without a readiness check that failed to spawn is marked
ready, and the service that requires it is launched. -/
theorem solo_failure_spreads : Manager.Reachable [] [soloDef, appDef "a"] ⟨.poll, soloUnspawned⟩
    ∧ .launch "a" true ∈ soloUnspawned.world.log
    ∧ .frontier (.ready "a") ∈ soloUnspawned.world.log
    ∧ (DependencyGraph.build [soloDef, appDef "a"]).Requires "app" "a"
    ∧ .launch "app" false ∈ soloUnspawned.world.log
    ∧ ¬ Contained (.build [soloDef, appDef "a"]) soloUnspawned.world.log "a" := by
  have hready : .frontier (.ready "a") ∈ soloUnspawned.world.log := by decide
  refine ⟨?_, by decide, hready, ?_, by decide, fun h => h.unready hready⟩
  · have hpoll := (firstBatch_reachable solo_app_acyclic [none]).step
      (.poll _ {})
    have hlisten := hpoll.step (.listen _ [] ?_)
    · have hagain := hlisten.step (.again _)
      have hreap := hagain.step (.reap _ {})
      exact hreap.step (.start _ { forks := [some 101] })
    · intro hdone
      exact absurd hdone.1 (by decide)
  · show "a" ∈ (DependencyGraph.build [soloDef, appDef "a"]).requiresOf "app"
    decide

end Dynamod.Svmgr
