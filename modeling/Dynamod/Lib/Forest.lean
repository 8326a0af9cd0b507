/-
Entries that name their parents, and an order in which parents come
first. A list of entries has such an order as soon as the parent of
every entry leads, link by link, to something known at the start
(`exists_parentsFirst`): some entry has a known parent, it goes first,
and with its own key known the rest still leads to something known.
-/
import Mathlib.Data.List.Perm.Basic
import Mathlib.Logic.Relation

namespace Dynamod.Lib

open Relation

variable {α K : Type} (key parent : α → K)

/-- Some entry with the first key names the second as its parent. -/
def ParentLink (xs : List α) (k p : K) : Prop :=
  ∃ x ∈ xs, key x = k ∧ parent x = p

/-- From every entry's parent the links lead to something known. -/
def LeadsTo (known : K → Prop) (xs : List α) : Prop :=
  ∀ x ∈ xs, ∃ r, ReflTransGen (ParentLink key parent xs) (parent x) r ∧ known r

/-- The parent of each entry is known when its turn comes. -/
def ParentsFirst : (K → Prop) → List α → Prop
  | _, [] => True
  | known, x :: xs =>
    known (parent x) ∧ ParentsFirst (fun k => known k ∨ k = key x) xs

variable {key parent} {known : K → Prop} {xs : List α}

theorem LeadsTo.exists_ready (h : LeadsTo key parent known xs) (hne : xs ≠ []) :
    ∃ x ∈ xs, known (parent x) := by
  obtain ⟨x, hx⟩ := List.exists_mem_of_ne_nil xs hne
  obtain ⟨r, hchain, hr⟩ := h x hx
  -- walk the chain of `x` up to the first known key
  generalize hk : parent x = k at hchain
  induction hchain using ReflTransGen.head_induction_on generalizing x with
  | refl => exact ⟨x, hx, hk ▸ hr⟩
  | head hlink _ ih =>
    obtain ⟨y, hy, -, hparent⟩ := hlink
    exact ih y hy hparent

theorem ParentsFirst.mono {known' : K → Prop} (h : ParentsFirst key parent known xs)
    (hk : ∀ k, known k → known' k) : ParentsFirst key parent known' xs := by
  induction xs generalizing known known' with
  | nil => exact True.intro
  | cons x xs ih =>
    obtain ⟨hx, hxs⟩ := h
    exact ⟨hk _ hx, ih hxs fun k => Or.imp_left (hk k)⟩

variable [DecidableEq α]

/-- Once `a` is known its link is not needed. -/
theorem chain_erase {a : α} {k r : K}
    (h : ReflTransGen (ParentLink key parent xs) k r) (hr : known r) :
    ∃ r', ReflTransGen (ParentLink key parent (xs.erase a)) k r'
      ∧ (known r' ∨ r' = key a) := by
  induction h using ReflTransGen.head_induction_on with
  | refl => exact ⟨r, ReflTransGen.refl, Or.inl hr⟩
  | head hlink _ ih =>
    obtain ⟨x, hx, hkey, hparent⟩ := hlink
    by_cases hxa : x = a
    · subst hxa
      exact ⟨_, ReflTransGen.refl, Or.inr hkey.symm⟩
    · obtain ⟨r', hchain, hr'⟩ := ih
      have hmem : x ∈ xs.erase a := (List.mem_erase_of_ne hxa).2 hx
      exact ⟨r', ReflTransGen.head ⟨x, hmem, hkey, hparent⟩ hchain, hr'⟩

/-- Entries whose parents lead to what is known can be put in an order
in which parents come first. -/
theorem exists_parentsFirst (h : LeadsTo key parent known xs) :
    ∃ ys, ys.Perm xs ∧ ParentsFirst key parent known ys := by
  induction hn : xs.length generalizing xs known with
  | zero =>
    obtain rfl := List.length_eq_zero_iff.1 hn
    exact ⟨[], List.Perm.refl _, True.intro⟩
  | succ n ih =>
    have hne : xs ≠ [] := by
      rintro rfl
      cases hn
    obtain ⟨a, ha, hready⟩ := h.exists_ready hne
    have hrest : LeadsTo key parent (fun k => known k ∨ k = key a) (xs.erase a) := by
      intro x hx
      obtain ⟨r, hchain, hr⟩ := h x (List.mem_of_mem_erase hx)
      exact chain_erase hchain hr
    have hlen : (xs.erase a).length = n := by
      rw [List.length_erase_of_mem ha, hn]
      rfl
    obtain ⟨ys, hperm, hys⟩ := ih hrest hlen
    exact ⟨a :: ys, (hperm.cons a).trans (List.perm_cons_erase ha).symm, hready, hys⟩

end Dynamod.Lib
