/-
Hash maps as finite maps. `Finmap` forgets the order of its entries,
as a hash map does; what is added here is the in-place update of an
entry that is present (`get_mut`) and the lookup equations in the
`if` form the proofs split on.
-/
import Mathlib.Data.Finmap

namespace Dynamod.Lib

abbrev HashMap (K V : Type) := Finmap fun _ : K => V

namespace HashMap

variable {K V : Type} [DecidableEq K]

theorem lookup_insert_ite (m : HashMap K V) (k k' : K) (v : V) :
    (m.insert k v).lookup k' = if k' = k then some v else m.lookup k' := by
  by_cases h : k' = k
  · rw [if_pos h, h]
    exact Finmap.lookup_insert m
  · rw [if_neg h]
    exact Finmap.lookup_insert_of_ne m h

theorem lookup_erase_ite (m : HashMap K V) (k k' : K) :
    (m.erase k).lookup k' = if k' = k then none else m.lookup k' := by
  by_cases h : k' = k
  · rw [if_pos h, h]
    exact Finmap.lookup_erase k m
  · rw [if_neg h]
    exact Finmap.lookup_erase_ne h

theorem lookup_erase_eq_some {m : HashMap K V} {k k' : K} {v : V} :
    (m.erase k).lookup k' = some v ↔ k' ≠ k ∧ m.lookup k' = some v := by
  rw [lookup_erase_ite]
  split
  · next h => exact iff_of_false (Option.some_ne_none v).symm fun h' => h'.1 h
  · next h => exact (and_iff_right h).symm

/-- A map filled by inserting `c k` under each key of a list. -/
theorem lookup_foldl_insert (c : K → V) (xs : List K) :
    ∀ (m : HashMap K V) (k : K), (xs.foldl (fun m k => m.insert k (c k)) m).lookup k
        = if k ∈ xs then some (c k) else m.lookup k := by
  induction xs with
  | nil => intro m k; simp
  | cons x xs ih =>
    intro m k
    rw [List.foldl_cons, ih, lookup_insert_ite]
    by_cases hx : k = x
    · subst hx
      simp
    · simp [hx]

/-- Update the entry at `k` in place; a missing key is left missing. -/
def modify (m : HashMap K V) (k : K) (f : V → V) : HashMap K V :=
  match m.lookup k with
  | some v => m.insert k (f v)
  | none => m

theorem lookup_modify (m : HashMap K V) (k k' : K) (f : V → V) : (m.modify k f).lookup k'
    = if k' = k then (m.lookup k).map f else m.lookup k' := by
  unfold modify
  cases h : m.lookup k with
  | some v => exact lookup_insert_ite m k k' (f v)
  | none =>
    by_cases hk : k' = k
    · rw [if_pos hk, hk, h]
      rfl
    · rw [if_neg hk]

/-- Update the entry of an optional key, where there is one. -/
def modifyAt (m : HashMap K V) (k : Option K) (f : V → V) : HashMap K V :=
  match k with
  | some k => m.modify k f
  | none => m

theorem lookup_modifyAt (m : HashMap K V) (k : Option K) (k' : K) (f : V → V) :
    (m.modifyAt k f).lookup k'
      = if k = some k' then (m.lookup k').map f else m.lookup k' := by
  cases k with
  | none => rfl
  | some k =>
    show (m.modify k f).lookup k' = _
    rw [lookup_modify]
    by_cases hk : k' = k
    · rw [if_pos hk, if_pos (hk ▸ rfl), hk]
    · rw [if_neg hk, if_neg fun h => hk (Option.some.inj h).symm]

theorem modify_modify (m : HashMap K V) (k : K) (f g : V → V) :
    (m.modify k f).modify k g = m.modify k (g ∘ f) := by
  apply Finmap.ext_lookup
  intro k'
  rw [lookup_modify, lookup_modify, lookup_modify, lookup_modify,
    if_pos rfl, Option.map_map]
  by_cases hk : k' = k
  · rw [if_pos hk, if_pos hk]
  · rw [if_neg hk, if_neg hk, if_neg hk]

/-- Erasing an entry forgets that it was inserted. -/
theorem erase_insert_erase (m : HashMap K V) (k : K) (v : V) :
    ((m.erase k).insert k v).erase k = m.erase k := by
  apply Finmap.ext_lookup
  intro k'
  rw [lookup_erase_ite, lookup_insert_ite, lookup_erase_ite]
  by_cases hk : k' = k
  · rw [if_pos hk, if_pos hk]
  · rw [if_neg hk, if_neg hk, if_neg hk]

theorem insert_erase_self (m : HashMap K V) (k : K) (v : V) :
    (m.erase k).insert k v = m.insert k v := by
  refine Finmap.ext_lookup fun k' => ?_
  rw [lookup_insert_ite, lookup_insert_ite, lookup_erase_ite]
  split
  · rfl
  · rfl

theorem erase_insert_comm {m : HashMap K V} {k k' : K} (h : k ≠ k') {v : V} :
    (m.insert k' v).erase k = (m.erase k).insert k' v := by
  refine Finmap.ext_lookup fun i => ?_
  rw [lookup_erase_ite, lookup_insert_ite, lookup_insert_ite, lookup_erase_ite]
  by_cases hi : i = k
  · rw [if_pos hi, if_pos hi, if_neg fun e => h (hi.symm.trans e)]
  · rw [if_neg hi, if_neg hi]

theorem keys_insert (m : HashMap K V) (k : K) (v : V) :
    (m.insert k v).keys = insert k m.keys := by
  ext k'
  rw [Finmap.mem_keys, Finmap.mem_insert, Finset.mem_insert, Finmap.mem_keys]

theorem mem_modify {m : HashMap K V} {k k' : K} {f : V → V} : k' ∈ m.modify k f ↔ k' ∈ m := by
  rw [← Finmap.lookup_isSome, ← Finmap.lookup_isSome, lookup_modify]
  by_cases hk : k' = k
  · rw [if_pos hk, hk, Option.isSome_map]
  · rw [if_neg hk]

theorem mem_modifyAt {m : HashMap K V} {o : Option K} {k : K} {f : V → V} :
    k ∈ m.modifyAt o f ↔ k ∈ m := by
  cases o with
  | none => rfl
  | some k' => exact mem_modify

/-- What an update leaves alone of every entry can be read before or
after it. -/
theorem map_lookup_modifyAt {A : Type} {f : V → V} {g : V → A}
    (hg : ∀ v, g (f v) = g v) (m : HashMap K V) (o : Option K) (k : K) :
    ((m.modifyAt o f).lookup k).map g = (m.lookup k).map g := by
  rw [lookup_modifyAt]
  split
  · rw [Option.map_map]
    exact congrArg (fun h => (m.lookup k).map h) (funext hg)
  · rfl

end HashMap

end Dynamod.Lib
