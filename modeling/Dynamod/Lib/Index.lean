/-
Lists that index a table: what an owner keeps beside a table of
entries to find its own ones without walking it. `Indexes xs P` says
that `xs` lists the keys with `P`, each once; `Owned m P` are the keys
of the table `m` whose entry has `P`. The lemmas are how the list of
the owned keys follows the table when an entry joins, leaves, or
changes in a way the owner does not see.
-/
import Mathlib.Data.List.Nodup
import Dynamod.Lib.Maps

namespace Dynamod.Lib

variable {K V : Type}

/-- `xs` lists the elements with `P`, each once. -/
def Indexes (xs : List K) (P : K → Prop) : Prop :=
  xs.Nodup ∧ ∀ x, x ∈ xs ↔ P x

theorem Indexes.congr {xs : List K} {P Q : K → Prop} (h : Indexes xs P)
    (hpq : ∀ x, Q x ↔ P x) : Indexes xs Q :=
  ⟨h.1, fun x => (h.2 x).trans (hpq x).symm⟩

variable [DecidableEq K]

/-- The keys whose entry has `P`. -/
def Owned (m : HashMap K V) (P : V → Prop) (k : K) : Prop :=
  ∃ v, m.lookup k = some v ∧ P v

section Owned

variable {m : HashMap K V} {P : V → Prop} {k a : K} {v : V}

theorem Owned.holds (h : Owned m P k) (hv : m.lookup k = some v) : P v := by
  obtain ⟨w, hw, hP⟩ := h
  rw [hv] at hw
  injection hw with hw
  exact hw ▸ hP

theorem owned_insert (ha : a ∉ m) : Owned (m.insert a v) P k ↔ Owned m P k ∨ (k = a ∧ P v) := by
  unfold Owned
  rw [HashMap.lookup_insert_ite]
  by_cases hk : k = a
  · subst hk
    rw [if_pos rfl, Finmap.lookup_eq_none.2 ha]
    simp
  · rw [if_neg hk]
    simp [hk]

theorem owned_erase : Owned (m.erase a) P k ↔ Owned m P k ∧ k ≠ a := by
  unfold Owned
  rw [HashMap.lookup_erase_ite]
  by_cases hk : k = a
  · rw [if_pos hk]
    simp [hk]
  · rw [if_neg hk]
    simp [hk]

theorem owned_modifyAt {o : Option K} {f : V → V} (hf : ∀ v, P (f v) ↔ P v) :
    Owned (m.modifyAt o f) P k ↔ Owned m P k := by
  unfold Owned
  rw [HashMap.lookup_modifyAt]
  by_cases hk : o = some k
  · rw [if_pos hk]
    simp [hf]
  · rw [if_neg hk]

end Owned

namespace Indexes

variable {m : HashMap K V} {P : V → Prop} {xs : List K} {a : K} {v : V}

/-- A new entry of the owner joins at the end of its list. -/
theorem push (h : Indexes xs (Owned m P)) (ha : a ∉ m) (hv : P v) :
    Indexes (xs ++ [a]) (Owned (m.insert a v) P) := by
  have hout : a ∉ xs := by
    intro hx
    obtain ⟨w, hw, -⟩ := (h.2 a).1 hx
    rw [Finmap.lookup_eq_none.2 ha] at hw
    cases hw
  refine ⟨?_, fun x => ?_⟩
  · refine List.nodup_append.2 ⟨h.1, List.nodup_singleton a, ?_⟩
    intro x hx y hy hxy
    rw [List.mem_singleton] at hy
    exact hout (hy ▸ hxy ▸ hx)
  · rw [List.mem_append, List.mem_singleton, h.2 x, owned_insert ha]
    simp [hv]

theorem insert_other (h : Indexes xs (Owned m P)) (ha : a ∉ m) (hv : ¬ P v) :
    Indexes xs (Owned (m.insert a v) P) :=
  h.congr fun x => by rw [owned_insert ha]; simp [hv]

/-- An entry leaves the table and the list. -/
theorem retain (h : Indexes xs (Owned m P)) (a : K) :
    Indexes (xs.filter fun x => x ≠ a) (Owned (m.erase a) P) := by
  refine ⟨h.1.filter _, fun x => ?_⟩
  rw [List.mem_filter, h.2 x, owned_erase, decide_eq_true_iff]

/-- An entry of somebody else leaves the table. -/
theorem erase_other (h : Indexes xs (Owned m P)) (ha : ¬ Owned m P a) :
    Indexes xs (Owned (m.erase a) P) := by
  refine h.congr fun x => ?_
  rw [owned_erase]
  constructor
  · exact And.left
  · intro hx
    exact ⟨hx, fun hxa => ha (hxa ▸ hx)⟩

end Indexes

end Dynamod.Lib
