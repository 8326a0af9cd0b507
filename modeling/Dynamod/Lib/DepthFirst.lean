/-
Depth-first search with three colours, reporting the cycles it runs
into. The nodes on the way to the current one are gray and stand on
`path`; a successor that is gray closes a cycle, and the part of the
path from it on is reported.

The search runs on fuel, one unit for each level of the recursion, and
is `none` when that runs out.

# The invariant

`Ok` holds between any two steps: the gray nodes are the path, the path
runs along edges, what was reported is a cycle, and as long as nothing
was reported the black nodes are closed under successors and lie on no
cycle.

# Fuel

Every level of the recursion turns an unvisited node gray, so the
number of unvisited nodes bounds the depth: with one unit of fuel for
each a visit returns and keeps the invariant (`dfs_visits`). More fuel
changes nothing (`dfs_mono`), since a step of the loop over the
successors that returns for less may be replaced by one for more.

# Acyclic relations

Where the search finds no cycle, the edges can be descended only finitely
often: what a node reaches shrinks strictly along every edge, so the
number of nodes it reaches is a rank (`acyclic_induction`).
-/
import Mathlib.Data.Finset.Card
import Mathlib.Data.Fintype.Basic
import Mathlib.Data.List.Chain
import Mathlib.Logic.Relation
import Mathlib.Order.WellFounded
import Dynamod.Lib.Maps

namespace Dynamod.Lib

open Relation

-- ==== loops on fuel

section Fuel

variable {A B : Type}

/-- A loop returns wherever a loop with weaker steps does, and the
same. -/
theorem foldlM_below {e f : B → A → Option B}
    (h : ∀ b a c, e b a = some c → f b a = some c) (xs : List A) :
    ∀ b c, xs.foldlM e b = some c → xs.foldlM f b = some c := by
  induction xs with
  | nil => exact fun b c hb => hb
  | cons x xs ih =>
    intro b c hb
    rw [List.foldlM_cons] at hb ⊢
    obtain ⟨d, hd, hc⟩ := Option.bind_eq_some_iff.1 hb
    exact Option.bind_eq_some_iff.2 ⟨d, h b x d hd, ih d c hc⟩

/-- A loop returns if every step of it does. -/
theorem foldlM_returns {f : B → A → Option B} (xs : List A)
    (h : ∀ b, ∀ a ∈ xs, ∃ c, f b a = some c) :
    ∀ b, ∃ c, xs.foldlM f b = some c := by
  induction xs with
  | nil => exact fun b => ⟨b, rfl⟩
  | cons x xs ih =>
    intro b
    obtain ⟨d, hd⟩ := h b x List.mem_cons_self
    obtain ⟨c, hc⟩ := ih (fun b a ha => h b a (List.mem_cons_of_mem _ ha)) d
    exact ⟨c, by rw [List.foldlM_cons, hd]; exact hc⟩

end Fuel

-- ==== acyclic relations

/-- Induction along the edges of a finite acyclic relation: what holds
of a node whenever it holds of all its successors holds everywhere. -/
theorem acyclic_induction {α : Type} {r : α → α → Prop} (univ : Finset α)
    (huniv : ∀ a b, r a b → b ∈ univ) (hac : ∀ a, ¬ TransGen r a a)
    {P : α → Prop} (step : ∀ a, (∀ b, r a b → P b) → P a) (a : α) : P a := by
  classical
  let rank : α → Nat := fun a => (univ.filter (TransGen r a)).card
  have hrank : ∀ a b, r a b → rank b < rank a := by
    intro a b hab
    refine Finset.card_lt_card (Finset.ssubset_iff_of_subset ?_ |>.2 ?_)
    · intro c hc
      obtain ⟨hcu, hbc⟩ := Finset.mem_filter.1 hc
      exact Finset.mem_filter.2 ⟨hcu, TransGen.head hab hbc⟩
    · refine ⟨b, Finset.mem_filter.2 ⟨huniv a b hab, TransGen.single hab⟩, ?_⟩
      intro hb
      exact hac b (Finset.mem_filter.1 hb).2
  suffices h : ∀ n a, rank a = n → P a from h (rank a) a rfl
  intro n
  induction n using Nat.strong_induction_on with
  | h n ih =>
    intro a ha
    exact step a fun b hab => ih (rank b) (ha ▸ hrank a b hab) b rfl

namespace DepthFirst

-- ==== the search

/-- How far a node is. -/
inductive Color
  /-- Not visited. -/
  | white
  /-- On the current path. -/
  | gray
  /-- Done, with everything behind it. -/
  | black
  deriving DecidableEq

/-- What the search writes to. -/
structure Search (α : Type) where
  colors : HashMap α Color
  path : List α
  cycles : List (List α)

variable {α : Type} [DecidableEq α]

namespace Search

/-- The node comes onto the path. -/
def enter (s : Search α) (node : α) : Search α :=
  { s with colors := s.colors.insert node .gray, path := s.path ++ [node] }

/-- The node leaves the path for good. -/
def leave (s : Search α) (node : α) : Search α :=
  { s with colors := s.colors.insert node .black, path := s.path.dropLast }

/-- The path from `dep` on is a cycle. -/
def report (s : Search α) (dep : α) : Search α :=
  match s.path.idxOf? dep with
  | some start => { s with cycles := s.cycles ++ [s.path.drop start] }
  | none => s

/-- Look at one successor of the last node of the path. -/
def examine (visit : α → Search α → Option (Search α)) (s : Search α)
    (dep : α) : Option (Search α) :=
  match s.colors.lookup dep with
  | some .gray => some (s.report dep)
  | some .white | none => visit dep s
  | some .black => some s

end Search

open Search

/-- Visit a node and everything behind it. -/
def dfs (next : α → List α) : Nat → α → Search α → Option (Search α)
  | 0, _, _ => none
  | fuel + 1, node, s =>
    ((next node).foldlM (examine (dfs next fuel)) (s.enter node)).map
      fun s => s.leave node

/-- Visit a root unless it was met before. -/
def visitRoot (next : α → List α) (fuel : Nat) (s : Search α) (root : α) : Option (Search α) :=
  if s.colors.lookup root = some .white then dfs next fuel root s else some s

/-- Visit all roots. -/
def searchAll (next : α → List α) (fuel : Nat) (roots : List α)
    (s : Search α) : Option (Search α) :=
  roots.foldlM (visitRoot next fuel) s

-- ==== more fuel

/-- `f` returns wherever `e` does, and the same. -/
private def Below {A B : Type} (e f : A → B → Option B) : Prop :=
  ∀ a b c, e a b = some c → f a b = some c

private theorem examine_below {e f : α → Search α → Option (Search α)}
    (h : Below e f) (s : Search α) (dep : α) (t : Search α)
    (he : examine e s dep = some t) : examine f s dep = some t := by
  unfold examine at he ⊢
  split at he
  · exact he
  · exact h _ _ _ he
  · exact h _ _ _ he
  · exact he

/-- A search that returns does so with more fuel. -/
theorem dfs_mono {next : α → List α} {fuel fuel' : Nat} (hle : fuel ≤ fuel') :
    ∀ {node : α} {s t : Search α}, dfs next fuel node s = some t →
      dfs next fuel' node s = some t := by
  induction fuel generalizing fuel' with
  | zero =>
    intro node s t h
    cases h
  | succ fuel ih =>
    intro node s t h
    obtain ⟨fuel', rfl⟩ : ∃ k, fuel' = k + 1 := ⟨fuel' - 1, by omega⟩
    have hbelow : Below (dfs next fuel) (dfs next fuel') :=
      fun _ _ _ h => ih (by omega) h
    rw [dfs] at h ⊢
    obtain ⟨u, hu, rfl⟩ := Option.map_eq_some_iff.1 h
    exact Option.map_eq_some_iff.2
      ⟨u, foldlM_below (examine_below hbelow) _ _ _ hu, rfl⟩

theorem searchAll_mono {next : α → List α} {fuel fuel' : Nat}
    (hle : fuel ≤ fuel') {roots : List α} {s t : Search α}
    (h : searchAll next fuel roots s = some t) : searchAll next fuel' roots s = some t := by
  refine foldlM_below (fun b root c hb => ?_) roots s t h
  unfold visitRoot at hb ⊢
  split at hb
  · next hwhite => rw [if_pos hwhite]; exact dfs_mono hle hb
  · next hwhite => rw [if_neg hwhite]; exact hb

-- ==== the invariant

/-- `b` is a successor of `a`. -/
def Edge (next : α → List α) (a b : α) : Prop := b ∈ next a

/-- The list runs along edges, and one more leads from its end back to
its start. -/
structure IsCycle (next : α → List α) (c : List α) : Prop where
  steps : c.IsChain (Edge next)
  closes : ∃ first last, c.head? = some first ∧ c.getLast? = some last
    ∧ Edge next last first

def Gray (s : Search α) (x : α) : Prop := s.colors.lookup x = some .gray

def Black (s : Search α) (x : α) : Prop := s.colors.lookup x = some .black

/-- Neither on the path nor done. -/
def Fresh (s : Search α) (x : α) : Prop := ¬ Gray s x ∧ ¬ Black s x

/-- What holds between any two steps of the search. -/
structure Ok (next : α → List α) (s : Search α) : Prop where
  gray_iff : ∀ x, Gray s x ↔ x ∈ s.path
  chain : s.path.IsChain (Edge next)
  genuine : ∀ c ∈ s.cycles, IsCycle next c
  settled : s.cycles = [] → ∀ x, Black s x →
    (∀ y ∈ next x, Black s y) ∧ ¬ TransGen (Edge next) x x

/-- What a part of the search leaves behind: the path is as before, and
nothing is forgotten. -/
structure Walked (s t : Search α) : Prop where
  path : t.path = s.path
  black : ∀ x, Black s x → Black t x
  known : ∀ x, s.colors.lookup x ≠ none → t.colors.lookup x ≠ none
  cycles : t.cycles = [] → s.cycles = []

theorem Walked.refl (s : Search α) : Walked s s :=
  ⟨rfl, fun _ h => h, fun _ h => h, fun h => h⟩

theorem Walked.trans {s t u : Search α} (h₁ : Walked s t) (h₂ : Walked t u) : Walked s u :=
  ⟨h₂.path.trans h₁.path, fun x h => h₂.black x (h₁.black x h),
    fun x h => h₂.known x (h₁.known x h), fun h => h₁.cycles (h₂.cycles h)⟩

omit [DecidableEq α] in
/-- A list that comes back to its start proves a cycle. -/
theorem IsCycle.transGen {next : α → List α} {c : List α} (h : IsCycle next c) :
    ∃ x, TransGen (Edge next) x x := by
  obtain ⟨first, last, hfirst, hlast, hedge⟩ := h.closes
  have hne : c ≠ [] := by
    rintro rfl
    cases hfirst
  have hwalk := List.relationReflTransGen_of_exists_isChain c h.steps hne
  have hhead : c.head hne = first := by
    rw [List.head?_eq_some_head hne] at hfirst
    exact Option.some.inj hfirst
  have hend : c.getLast hne = last := by
    rw [List.getLast?_eq_some_getLast hne] at hlast
    exact Option.some.inj hlast
  rw [hhead, hend] at hwalk
  exact ⟨first, TransGen.tail' hwalk hedge⟩

section Steps

variable {next : α → List α} {s t : Search α} {node dep : α}

-- ---- enter

private theorem lookup_enter (x : α) : (s.enter node).colors.lookup x
    = if x = node then some .gray else s.colors.lookup x :=
  HashMap.lookup_insert_ite _ _ _ _

private theorem black_enter (hnode : ¬ Black s node) (x : α) :
    Black (s.enter node) x ↔ Black s x := by
  unfold Black
  rw [lookup_enter]
  split
  · next hx =>
    subst hx
    exact iff_of_false (by simp) hnode
  · exact Iff.rfl

theorem Ok.enter (hok : Ok next s) (hnode : Fresh s node)
    (hlast : ∀ l, s.path.getLast? = some l → Edge next l node) : Ok next (s.enter node) := by
  refine ⟨fun x => ?_, ?_, hok.genuine, fun hnil x hx => ?_⟩
  · show (s.enter node).colors.lookup x = _ ↔ x ∈ s.path ++ [node]
    rw [lookup_enter, List.mem_append, List.mem_singleton, ← hok.gray_iff x]
    split
    · next hx => exact iff_of_true rfl (Or.inr hx)
    · next hx => exact (or_iff_left hx).symm
  · refine List.isChain_append.2 ⟨hok.chain, List.isChain_singleton node, ?_⟩
    intro l hl y hy
    cases hy
    exact hlast l hl
  · obtain ⟨hclosed, hacyclic⟩ :=
      hok.settled hnil x ((black_enter hnode.2 x).1 hx)
    exact ⟨fun y hy => (black_enter hnode.2 y).2 (hclosed y hy), hacyclic⟩

-- ---- leave

private theorem lookup_leave (x : α) : (s.leave node).colors.lookup x
    = if x = node then some .black else s.colors.lookup x :=
  HashMap.lookup_insert_ite _ _ _ _

private theorem black_leave (x : α) : Black (s.leave node) x ↔ x = node ∨ Black s x := by
  unfold Black
  rw [lookup_leave]
  split
  · next hx => exact iff_of_true rfl (Or.inl hx)
  · next hx => exact (or_iff_right hx).symm

private theorem black_of_reach (hclosed : ∀ x, Black s x → ∀ y ∈ next x, Black s y) {x y : α}
    (hx : Black s x) (h : ReflTransGen (Edge next) x y) : Black s y := by
  induction h with
  | refl => exact hx
  | tail _ hedge ih => exact hclosed _ ih _ hedge

theorem Ok.leave {p : List α} (hok : Ok next s) (hpath : s.path = p ++ [node])
    (hnode : node ∉ p) (hdone : s.cycles = [] → ∀ d ∈ next node, Black s d) :
    Ok next (s.leave node) := by
  have hp : (s.leave node).path = p := by
    show s.path.dropLast = p
    rw [hpath, List.dropLast_concat]
  have hgray : Gray s node := by
    rw [hok.gray_iff, hpath]
    exact List.mem_append_right _ List.mem_cons_self
  refine ⟨fun x => ?_, ?_, hok.genuine, fun hnil x hx => ?_⟩
  · rw [hp]
    unfold Gray
    rw [lookup_leave]
    split
    · next hx => exact iff_of_false (by simp) (hx ▸ hnode)
    · next hx =>
      have hmem := hok.gray_iff x
      rw [hpath, List.mem_append, List.mem_singleton, or_iff_left hx] at hmem
      exact hmem
  · exact List.IsChain.dropLast hok.chain
  · have hclosed := fun x hx => (hok.settled hnil x hx).1
    have hwhole : ∀ y, Black s y → Black (s.leave node) y :=
      fun y hy => (black_leave y).2 (Or.inr hy)
    rcases (black_leave x).1 hx with rfl | hx
    · refine ⟨fun y hy => hwhole y (hdone hnil y hy), fun hcycle => ?_⟩
      -- the cycle goes into the black nodes and cannot come back
      obtain ⟨d, hd, hback⟩ := TransGen.head'_iff.1 hcycle
      have hblack := black_of_reach hclosed (hdone hnil d hd) hback
      unfold Black at hblack
      rw [hgray] at hblack
      cases hblack
    · obtain ⟨hnext, hacyclic⟩ := hok.settled hnil x hx
      exact ⟨fun y hy => hwhole y (hnext y hy), hacyclic⟩

-- ---- report

/-- A gray successor of the last node closes a cycle, which is
reported. -/
theorem Ok.report (hok : Ok next s) (hlast : s.path.getLast? = some node)
    (hedge : Edge next node dep) (hgray : Gray s dep) :
    Ok next (s.report dep) ∧ Walked s (s.report dep)
      ∧ (s.report dep).cycles ≠ [] := by
  have hmem := (hok.gray_iff dep).1 hgray
  obtain ⟨start, hstart⟩ : ∃ start, s.path.idxOf? dep = some start := by
    refine Option.ne_none_iff_exists'.1 fun hnone => ?_
    exact List.idxOf?_eq_none_iff.1 hnone hmem
  obtain ⟨hlt, hget, -⟩ := List.idxOf?_eq_some_iff.1 hstart
  have hcycle : IsCycle next (s.path.drop start) := by
    refine ⟨hok.chain.drop start, dep, node, ?_, ?_, hedge⟩
    · rw [List.head?_drop, List.getElem?_eq_getElem hlt, hget]
    · rw [List.getLast?_drop, if_neg (by omega), hlast]
  have heq : s.report dep
      = { s with cycles := s.cycles ++ [s.path.drop start] } := by
    unfold Search.report
    rw [hstart]
  have hne : s.cycles ++ [s.path.drop start] ≠ [] := by simp
  rw [heq]
  refine ⟨⟨hok.gray_iff, hok.chain, fun c hc => ?_, fun h => absurd h hne⟩,
    ⟨rfl, fun _ h => h, fun _ h => h, fun h => absurd h hne⟩, hne⟩
  rcases List.mem_append.1 hc with hc | hc
  · exact hok.genuine c hc
  · rw [List.mem_singleton.1 hc]
    exact hcycle

-- ---- unvisited

/-- The nodes of the universe that were not visited. -/
def unvisited (univ : Finset α) (s : Search α) : Finset α :=
  univ.filter fun x =>
    s.colors.lookup x ≠ some .gray ∧ s.colors.lookup x ≠ some .black

private theorem mem_unvisited {x : α} :
    x ∈ unvisited univ s ↔ x ∈ univ ∧ Fresh s x := Finset.mem_filter

private theorem card_unvisited_enter (hnode : node ∈ univ)
    (hfresh : Fresh s node) : (unvisited univ (s.enter node)).card < (unvisited univ s).card := by
  refine Finset.card_lt_card ((Finset.ssubset_iff_of_subset fun x hx => ?_).2
    ⟨node, mem_unvisited.2 ⟨hnode, hfresh⟩, fun hx => ?_⟩)
  · obtain ⟨hu, hgray, hblack⟩ := mem_unvisited.1 hx
    unfold Gray at hgray
    rw [lookup_enter] at hgray
    split at hgray
    · exact absurd rfl hgray
    · exact mem_unvisited.2
        ⟨hu, hgray, fun hb => hblack ((black_enter hfresh.2 x).2 hb)⟩
  · refine (mem_unvisited.1 hx).2.1 ?_
    unfold Gray
    rw [lookup_enter, if_pos rfl]

private theorem card_unvisited_walked (univ : Finset α) (hs : Ok next s)
    (ht : Ok next t) (h : Walked s t) : (unvisited univ t).card ≤ (unvisited univ s).card := by
  refine Finset.card_le_card fun x hx => ?_
  obtain ⟨hu, hgray, hblack⟩ := mem_unvisited.1 hx
  refine mem_unvisited.2 ⟨hu, fun hg => hgray ?_, fun hb => hblack (h.black x hb)⟩
  rw [ht.gray_iff, h.path]
  exact (hs.gray_iff x).1 hg

-- ---- visit

/-- What a visit of a fresh node does, with `n` nodes or less still
unvisited. -/
def Visits (next : α → List α) (univ : Finset α) (n : Nat)
    (visit : α → Search α → Option (Search α)) : Prop :=
  ∀ node s, node ∈ univ → Ok next s → Fresh s node →
    (∀ l, s.path.getLast? = some l → Edge next l node) → (unvisited univ s).card ≤ n →
    ∃ t, visit node s = some t ∧ Ok next t ∧ Walked s t ∧ Black t node

variable {univ : Finset α} {n : Nat}

section Loop

variable {visit : α → Search α → Option (Search α)} (hvisit : Visits next univ n visit)

include hvisit

private theorem examine_spec (hok : Ok next s) (hlast : s.path.getLast? = some node)
    (hdep : dep ∈ univ) (hedge : Edge next node dep) (hcard : (unvisited univ s).card ≤ n) :
    ∃ t, examine visit s dep = some t ∧ Ok next t ∧ Walked s t
      ∧ (t.cycles = [] → Black t dep) := by
  have hfresh : Fresh s dep → ∃ t, visit dep s = some t ∧ Ok next t ∧ Walked s t
      ∧ (t.cycles = [] → Black t dep) := by
    intro hfresh
    obtain ⟨t, ht, hok', hwalk, hdone⟩ := hvisit dep s hdep hok hfresh
      (fun l hl => Option.some.inj (hlast.symm.trans hl) ▸ hedge) hcard
    exact ⟨t, ht, hok', hwalk, fun _ => hdone⟩
  unfold examine
  split
  · next hgray =>
    obtain ⟨hok', hwalk, hne⟩ := hok.report hlast hedge hgray
    exact ⟨_, rfl, hok', hwalk, fun hnil => absurd hnil hne⟩
  · next h => exact hfresh ⟨by simp [Gray, h], by simp [Black, h]⟩
  · next h => exact hfresh ⟨by simp [Gray, h], by simp [Black, h]⟩
  · next hblack => exact ⟨s, rfl, hok, Walked.refl s, fun _ => hblack⟩

/-- The loop over the successors, from any state it can be in. -/
private theorem foldlM_examine_spec (deps : List α) :
    ∀ s, Ok next s → s.path.getLast? = some node →
      (∀ d ∈ deps, d ∈ univ ∧ Edge next node d) → (unvisited univ s).card ≤ n →
      ∃ t, deps.foldlM (examine visit) s = some t ∧ Ok next t ∧ Walked s t
        ∧ (t.cycles = [] → ∀ d ∈ deps, Black t d) := by
  induction deps with
  | nil =>
    intro s hok _ _ _
    exact ⟨s, rfl, hok, Walked.refl s, fun _ d hd => absurd hd List.not_mem_nil⟩
  | cons d deps ih =>
    intro s hok hlast hedges hcard
    obtain ⟨hduniv, hdedge⟩ := hedges d List.mem_cons_self
    obtain ⟨u, hu, hoku, hwalku, hd⟩ := examine_spec hvisit hok hlast hduniv hdedge hcard
    have hcardu := card_unvisited_walked univ hok hoku hwalku
    obtain ⟨t, ht, hokt, hwalkt, hds⟩ := ih u hoku (hwalku.path ▸ hlast)
      (fun d hd => hedges d (List.mem_cons_of_mem _ hd)) (by omega)
    refine ⟨t, ?_, hokt, hwalku.trans hwalkt, fun hnil e he => ?_⟩
    · rw [List.foldlM_cons, hu]
      exact ht
    rcases List.mem_cons.1 he with rfl | he
    · exact hwalkt.black e (hd (hwalkt.cycles hnil))
    · exact hds hnil e he

end Loop

variable (hnext : ∀ x ∈ univ, ∀ y ∈ next x, y ∈ univ)

include hnext

/-- With one unit of fuel for every unvisited node the search returns.
It keeps its invariant, and a visited node ends black. -/
theorem dfs_visits (fuel : Nat) : Visits next univ fuel (dfs next fuel) := by
  induction fuel with
  | zero =>
    intro node s hnode _ hfresh _ hcard
    have hmem := mem_unvisited.2 ⟨hnode, hfresh⟩
    rw [Finset.card_eq_zero.1 (Nat.le_zero.1 hcard)] at hmem
    exact absurd hmem (Finset.notMem_empty node)
  | succ fuel ih =>
    intro node s hnode hok hfresh hlast hcard
    have hdrop := card_unvisited_enter hnode hfresh
    have hend : (s.enter node).path.getLast? = some node := List.getLast?_concat ..
    obtain ⟨u, hu, hoku, hwalk, hdone⟩ := foldlM_examine_spec ih (next node) _
      (hok.enter hfresh hlast) hend (fun d hd => ⟨hnext node hnode d hd, hd⟩) (by omega)
    have hpath : u.path = s.path ++ [node] := hwalk.path
    have hnew : node ∉ s.path := fun hx => hfresh.1 ((hok.gray_iff node).2 hx)
    refine ⟨u.leave node, by rw [dfs, hu]; rfl, hoku.leave hpath hnew hdone,
      ⟨?_, fun x hx => ?_, fun x hx => ?_, hwalk.cycles⟩, (black_leave node).2 (Or.inl rfl)⟩
    · show u.path.dropLast = s.path
      rw [hpath, List.dropLast_concat]
    · refine (black_leave x).2 (Or.inr (hwalk.black x ?_))
      exact (black_enter hfresh.2 x).2 hx
    · rw [lookup_leave]
      split
      · exact Option.some_ne_none _
      · next hne =>
        refine hwalk.known x ?_
        rw [lookup_enter, if_neg hne]
        exact hx

-- ==== all the roots

/-- Between two roots nothing is on the path, so a root that was entered
into the table is white or black. -/
private theorem visitRoot_spec {root : α} (hok : Ok next s) (hrest : s.path = [])
    (hfuel : (unvisited univ s).card ≤ n) (hroot : root ∈ univ)
    (hknown : s.colors.lookup root ≠ none) :
    ∃ t, visitRoot next n s root = some t ∧ Ok next t ∧ Walked s t
      ∧ Black t root := by
  have hgray : ¬ Gray s root := by
    rw [hok.gray_iff, hrest]
    exact List.not_mem_nil
  have hlast : ∀ l, s.path.getLast? = some l → Edge next l root := by
    intro l hl
    rw [hrest] at hl
    cases hl
  unfold visitRoot
  split
  · next hwhite =>
    have hfresh : Fresh s root := ⟨hgray, by simp [Black, hwhite]⟩
    exact dfs_visits hnext n root s hroot hok hfresh hlast hfuel
  · next hwhite =>
    refine ⟨s, rfl, hok, Walked.refl s, ?_⟩
    unfold Gray at hgray
    unfold Black
    cases hc : s.colors.lookup root with
    | none => exact absurd hc hknown
    | some c =>
      cases c with
      | white => exact absurd hc hwhite
      | gray => exact absurd hc hgray
      | black => rfl

/-- All roots are visited, and the search ends. -/
theorem searchAll_spec (roots : List α) :
    ∀ s, Ok next s → s.path = [] → (unvisited univ s).card ≤ n →
      (∀ r ∈ roots, r ∈ univ ∧ s.colors.lookup r ≠ none) →
      ∃ t, searchAll next n roots s = some t ∧ Ok next t ∧ Walked s t
        ∧ ∀ r ∈ roots, Black t r := by
  induction roots with
  | nil =>
    intro s hok _ _ _
    exact ⟨s, rfl, hok, Walked.refl s, fun r hr => absurd hr List.not_mem_nil⟩
  | cons root roots ih =>
    intro s hok hrest hfuel hroots
    obtain ⟨hroot, hknown⟩ := hroots root List.mem_cons_self
    obtain ⟨u, hu, hoku, hwalku, hblack⟩ :=
      visitRoot_spec hnext hok hrest hfuel hroot hknown
    have hcard := card_unvisited_walked univ hok hoku hwalku
    obtain ⟨t, ht, hokt, hwalkt, hall⟩ := ih u hoku (hwalku.path.trans hrest)
      (by omega) fun r hr =>
        ⟨(hroots r (List.mem_cons_of_mem _ hr)).1,
          hwalku.known r (hroots r (List.mem_cons_of_mem _ hr)).2⟩
    refine ⟨t, ?_, hokt, hwalku.trans hwalkt, fun r hr => ?_⟩
    · unfold searchAll at ht ⊢
      rw [List.foldlM_cons, hu]
      exact ht
    · rcases List.mem_cons.1 hr with rfl | hr
      · exact hwalkt.black r hblack
      · exact hall r hr

-- ==== the whole search

omit hnext

/-- The table before the search. -/
def start (roots : List α) : Search α :=
  { colors := roots.foldl (fun m r => m.insert r .white) ∅, path := [],
    cycles := [] }

private theorem lookup_start (roots : List α) (x : α) :
    (start roots).colors.lookup x = if x ∈ roots then some .white else none := by
  have h := HashMap.lookup_foldl_insert (fun _ => Color.white) roots ∅ x
  rw [Finmap.lookup_empty] at h
  exact h

private theorem start_ok (next : α → List α) (roots : List α) : Ok next (start roots) := by
  refine ⟨fun x => ?_, List.isChain_nil, fun c hc => absurd hc List.not_mem_nil, fun _ x hx => ?_⟩
  · unfold Gray
    rw [lookup_start]
    refine iff_of_false ?_ List.not_mem_nil
    split <;> simp
  · unfold Black at hx
    rw [lookup_start] at hx
    split at hx <;> cases hx

/-- The search over a finite graph whose nodes are the roots: it
returns, every list it reports is a cycle, and if it reports none there
is none. -/
theorem searchAll_start (next : α → List α) (roots : List α) (univ : Finset α)
    (hnext : ∀ x, ∀ y ∈ next x, x ∈ univ ∧ y ∈ univ) (hroots : ∀ x, x ∈ roots ↔ x ∈ univ) :
    ∃ t, (∀ fuel, univ.card ≤ fuel → searchAll next fuel roots (start roots) = some t)
      ∧ (∀ c ∈ t.cycles, IsCycle next c)
      ∧ (t.cycles = [] ↔ ∀ x, ¬ TransGen (Edge next) x x) := by
  have hcard : (unvisited univ (start roots)).card ≤ univ.card :=
    Finset.card_le_card (Finset.filter_subset _ _)
  obtain ⟨t, ht, hok, -, hblack⟩ := searchAll_spec (fun x _ y hy => (hnext x y hy).2)
    roots (start roots) (start_ok next roots) rfl hcard fun r hr =>
      ⟨(hroots r).1 hr, by rw [lookup_start, if_pos hr]; simp⟩
  refine ⟨t, fun fuel hfuel => searchAll_mono hfuel ht, hok.genuine, fun hnil => ?_,
    fun hacyclic => ?_⟩
  · intro x hx
    obtain ⟨y, hy, -⟩ := TransGen.head'_iff.1 hx
    have hmem := (hroots x).2 (hnext x y hy).1
    exact (hok.settled hnil x (hblack x hmem)).2 hx
  · refine List.eq_nil_iff_forall_not_mem.2 fun c hc => ?_
    obtain ⟨x, hx⟩ := (hok.genuine c hc).transGen
    exact hacyclic x hx

end Steps

end DepthFirst

end Dynamod.Lib
