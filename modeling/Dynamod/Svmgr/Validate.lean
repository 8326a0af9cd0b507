/-
The checks of a loaded configuration (`config/validate.rs`). `main`
logs what they report and goes on.

The service definitions are checked one by one and against the names of
the others; of the supervisor definitions only the names are looked at.
-/
import Mathlib.Data.Finset.Insert
import Dynamod.Svmgr.Config

namespace Dynamod.Svmgr

inductive ValidationError
  | emptyExec (service : String)
  | missingPort (service : String)
  | missingCheckExec (service : String)
  | unknownSupervisor (service supervisor : String)
  | unknownDependency (service dependency : String)
  | duplicateService (name : String)
  | duplicateSupervisor (name : String)
  deriving DecidableEq

open ValidationError

def validateService (svc : ServiceDef) : List ValidationError :=
  let name := svc.service.name
  (if svc.service.exec = [] then [emptyExec name] else [])
    ++ (if svc.readiness.readinessType = .tcpPort ∧ svc.readiness.port = none
        then [missingPort name] else [])
    ++ (if svc.readiness.readinessType = .exec ∧ svc.readiness.checkExec = none
        then [missingCheckExec name] else [])

/-- The loop over the names of one kind: the names seen, and an error
for each one seen before. -/
def collectNames (error : String → ValidationError) :
    Finset String → List String → Finset String × List ValidationError
  | seen, [] => (seen, [])
  | seen, name :: names =>
    if name ∈ seen then
      let (seen, errors) := collectNames error seen names
      (seen, error name :: errors)
    else collectNames error (insert name seen) names

/-- The checks of one service against the names. -/
def validateReferences (serviceNames supervisorNames : Finset String)
    (svc : ServiceDef) : List ValidationError :=
  (if svc.service.supervisor = "root" ∨ svc.service.supervisor ∈ supervisorNames
    then [] else [unknownSupervisor svc.service.name svc.service.supervisor])
    ++ (svc.dependencies.requires.filter fun dep => dep ∉ serviceNames).map
      (unknownDependency svc.service.name)

def validateAll (services : List ServiceDef) (supervisors : List SupervisorDef) :
    List ValidationError :=
  let (serviceNames, serviceErrors) := collectNames duplicateService ∅
    (services.map fun svc => svc.service.name)
  let (supervisorNames, supervisorErrors) := collectNames duplicateSupervisor ∅
    (supervisors.map fun sup => sup.supervisor.name)
  serviceErrors ++ supervisorErrors
    ++ services.flatMap fun svc =>
      validateService svc ++ validateReferences serviceNames supervisorNames svc

-- ==== what passes the checks

/-- The names seen are those there were and those of the list. -/
theorem mem_collectNames (error : String → ValidationError) (names : List String)
    (seen : Finset String) (n : String) :
    n ∈ (collectNames error seen names).1 ↔ n ∈ seen ∨ n ∈ names := by
  induction names generalizing seen with
  | nil => simp [collectNames]
  | cons name names ih =>
    rw [collectNames]
    by_cases hname : name ∈ seen
    · rw [if_pos hname]
      rw [ih, List.mem_cons]
      constructor
      · rintro (h | h)
        · exact Or.inl h
        · exact Or.inr (Or.inr h)
      · rintro (h | rfl | h)
        · exact Or.inl h
        · exact Or.inl hname
        · exact Or.inr h
    · rw [if_neg hname, ih, Finset.mem_insert, List.mem_cons]
      constructor
      · rintro ((rfl | h) | h)
        · exact Or.inr (Or.inl rfl)
        · exact Or.inl h
        · exact Or.inr (Or.inr h)
      · rintro (h | rfl | h)
        · exact Or.inl (Or.inr h)
        · exact Or.inl (Or.inl rfl)
        · exact Or.inr h

/-- No error means that the names are distinct, and new. -/
theorem collectNames_eq_nil (error : String → ValidationError) (names : List String)
    (seen : Finset String) :
    (collectNames error seen names).2 = [] ↔ names.Nodup ∧ ∀ n ∈ names, n ∉ seen := by
  induction names generalizing seen with
  | nil => simp [collectNames]
  | cons name names ih =>
    rw [collectNames]
    by_cases hname : name ∈ seen
    · rw [if_pos hname]
      simp [hname]
    · rw [if_neg hname, ih, List.nodup_cons]
      simp only [Finset.mem_insert, List.mem_cons, not_or]
      constructor
      · rintro ⟨hnodup, hnew⟩
        refine ⟨⟨fun h => (hnew name h).1 rfl, hnodup⟩, ?_⟩
        rintro n (rfl | hn)
        · exact hname
        · exact (hnew n hn).2
      · rintro ⟨⟨hout, hnodup⟩, hnew⟩
        refine ⟨hnodup, fun n hn => ⟨?_, hnew n (Or.inr hn)⟩⟩
        rintro rfl
        exact hout hn

/-- A configuration without errors: names are distinct among the
services and among the supervisors, every service passes its own checks,
refers to the root or to a defined supervisor, and requires defined
services. -/
structure Validated (services : List ServiceDef) (supervisors : List SupervisorDef) :
    Prop where
  serviceNames : (services.map fun svc => svc.service.name).Nodup
  supervisorNames : (supervisors.map fun sup => sup.supervisor.name).Nodup
  service : ∀ svc ∈ services, validateService svc = []
  supervisor : ∀ svc ∈ services, svc.service.supervisor = "root"
    ∨ svc.service.supervisor ∈ supervisors.map fun sup => sup.supervisor.name
  requires : ∀ svc ∈ services, ∀ dep ∈ svc.dependencies.requires,
    dep ∈ services.map fun svc => svc.service.name

theorem validateReferences_eq_nil {serviceNames supervisorNames : Finset String}
    {svc : ServiceDef} : validateReferences serviceNames supervisorNames svc = [] ↔
      (svc.service.supervisor = "root" ∨ svc.service.supervisor ∈ supervisorNames)
        ∧ ∀ dep ∈ svc.dependencies.requires, dep ∈ serviceNames := by
  unfold validateReferences
  rw [List.append_eq_nil_iff, List.map_eq_nil_iff, List.filter_eq_nil_iff]
  apply and_congr
  · rw [ite_eq_left_iff]
    simp only [reduceCtorEq, imp_false, not_not]
  · simp

theorem validateAll_eq_nil {services : List ServiceDef}
    {supervisors : List SupervisorDef} :
    validateAll services supervisors = [] ↔ Validated services supervisors := by
  unfold validateAll
  simp only [List.append_eq_nil_iff, List.flatMap_eq_nil_iff, collectNames_eq_nil,
    validateReferences_eq_nil, mem_collectNames, Finset.notMem_empty, false_or,
    not_false_eq_true, implies_true, and_true]
  constructor
  · rintro ⟨⟨hsvc, hsup⟩, hall⟩
    exact ⟨hsvc, hsup, fun svc h => (hall svc h).1, fun svc h => (hall svc h).2.1,
      fun svc h => (hall svc h).2.2⟩
  · intro h
    exact ⟨⟨h.serviceNames, h.supervisorNames⟩, fun svc hsvc =>
      ⟨h.service svc hsvc, h.supervisor svc hsvc, h.requires svc hsvc⟩⟩

end Dynamod.Svmgr
