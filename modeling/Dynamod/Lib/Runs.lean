/-
Runs of a machine whose next state is a function of the state and an
event, with a condition on every step. An invariant that holds at the
start and is kept by the steps that meet the condition holds in every
state reached (`Reaches.invariant`); a row of events that meet it, each
in the state it finds, leads to such a state (`Reaches.run`).

Where the next state is not a function of the event, a step is a
relation with the event as its label, and a run is a `Path` with the
events it took. A record of the events that grows at its end is taken
apart with `snoc_split`.
-/
import Mathlib.Data.List.Basic

namespace Dynamod.Lib

variable {S E : Type}

/-- The states reached from an initial one by steps that all meet `ok`. -/
inductive Reaches (initial : S → Prop) (next : S → E → S) (ok : S → E → Prop) :
    S → Prop
  | init {s : S} : initial s → Reaches initial next ok s
  | step {s : S} (e : E) : Reaches initial next ok s → ok s e →
      Reaches initial next ok (next s e)

/-- The events of a row meet `ok`, each in the state it finds. -/
def Allowed (next : S → E → S) (ok : S → E → Prop) : S → List E → Prop
  | _, [] => True
  | s, e :: es => ok s e ∧ Allowed next ok (next s e) es

instance Allowed.decidable (next : S → E → S) (ok : S → E → Prop)
    [∀ s e, Decidable (ok s e)] : (s : S) → (es : List E) → Decidable (Allowed next ok s es)
  | _, [] => .isTrue True.intro
  | s, e :: es =>
    have := decidable next ok (next s e) es
    inferInstanceAs (Decidable (ok s e ∧ Allowed next ok (next s e) es))

theorem allowed_true (next : S → E → S) (s : S) (es : List E) :
    Allowed next (fun _ _ => True) s es := by
  induction es generalizing s with
  | nil => exact True.intro
  | cons e es ih => exact ⟨True.intro, ih (next s e)⟩

/-- Two conditions that agree in every state allow the same rows. -/
theorem allowed_congr {next : S → E → S} {ok ok' : S → E → Prop}
    (h : ∀ s e, ok s e ↔ ok' s e) (s : S) (es : List E) :
    Allowed next ok s es ↔ Allowed next ok' s es := by
  induction es generalizing s with
  | nil => rfl
  | cons e es ih => exact and_congr (h s e) (ih (next s e))

/-- Where the steps that keep `I` are those that meet `ok`, a run has `I`
all along exactly when all its steps meet `ok`. -/
theorem allowed_iff_kept {next : S → E → S} {ok fits : S → E → Prop} {I G : S → Prop}
    (hG : ∀ s e, G s → fits s e → G (next s e))
    (hstep : ∀ s e, G s → fits s e → I s → (I (next s e) ↔ ok s e))
    (es : List E) : ∀ s, G s → I s → Allowed next fits s es →
      (Allowed next ok s es ↔ ∀ pre, pre <+: es → I (pre.foldl next s)) := by
  induction es with
  | nil =>
    intro s _ hI _
    refine iff_of_true True.intro fun pre hpre => ?_
    rw [List.prefix_nil.1 hpre]
    exact hI
  | cons e es ih =>
    intro s hs hI hfits
    have hnext := hstep s e hs hfits.1 hI
    constructor
    · intro hok pre hpre
      cases pre with
      | nil => exact hI
      | cons e' pre =>
        obtain ⟨rfl, hrest⟩ := List.cons_prefix_cons.1 hpre
        exact (ih _ (hG s e' hs hfits.1) (hnext.2 hok.1) hfits.2).1 hok.2 pre hrest
    · intro hall
      have hI' : I (next s e) :=
        hall [e] (List.cons_prefix_cons.2 ⟨rfl, List.nil_prefix⟩)
      refine ⟨hnext.1 hI', (ih _ (hG s e hs hfits.1) hI' hfits.2).2 fun pre hpre => ?_⟩
      exact hall (e :: pre) (List.cons_prefix_cons.2 ⟨rfl, hpre⟩)

namespace Reaches

variable {initial : S → Prop} {next : S → E → S} {ok : S → E → Prop} {s : S}

theorem invariant {I : S → Prop} (h : Reaches initial next ok s) (hinit : ∀ s, initial s → I s)
    (hstep : ∀ s e, I s → ok s e → I (next s e)) : I s := by
  induction h with
  | init hs => exact hinit _ hs
  | step e _ hok ih => exact hstep _ e ih hok

theorem run (h : Reaches initial next ok s) (es : List E)
    (hes : Allowed next ok s es) : Reaches initial next ok (es.foldl next s) := by
  induction es generalizing s with
  | nil => exact h
  | cons e es ih => exact ih (h.step e hes.1) hes.2

end Reaches

-- ==== labelled paths

/-- The steps labelled `es` lead from `s` to the last state. -/
inductive Path (step : S → E → S → Prop) (s : S) : List E → S → Prop
  | nil : Path step s [] s
  | snoc {s' s'' : S} {es : List E} {e : E} :
      Path step s es s' → step s' e s'' → Path step s (es ++ [e]) s''

namespace Path

variable {step : S → E → S → Prop} {s s' s'' : S} {es es' : List E}

theorem append (h : Path step s es s') (h' : Path step s' es' s'') :
    Path step s (es ++ es') s'' := by
  induction h' with
  | nil =>
    rw [List.append_nil]
    exact h
  | snoc _ hstep ih =>
    rw [← List.append_assoc]
    exact ih.snoc hstep

theorem invariant {I : S → Prop} (h : Path step s es s') (hs : I s)
    (hstep : ∀ s e s', I s → step s e s' → I s') : I s' := by
  induction h with
  | nil => exact hs
  | snoc _ he ih => exact hstep _ _ _ ih he

end Path

/-- Where an event of a trace grown by one stands: it is the new one,
or it stood in the trace before. -/
theorem snoc_split {α : Type} {l l₁ l₂ : List α} {e a : α} (h : l ++ [e] = l₁ ++ a :: l₂) :
    (l = l₁ ∧ e = a ∧ l₂ = []) ∨ ∃ l₂', l = l₁ ++ a :: l₂' ∧ l₂ = l₂' ++ [e] := by
  rcases List.eq_nil_or_concat l₂ with rfl | ⟨l₂', e', rfl⟩
  · obtain ⟨h₁, h₂⟩ := List.append_inj' h rfl
    injection h₂ with h₂
    exact Or.inl ⟨h₁, h₂, rfl⟩
  · have h' : l ++ [e] = (l₁ ++ a :: l₂') ++ [e'] := by
      rw [h]
      simp
    obtain ⟨h₁, h₂⟩ := List.append_inj' h' rfl
    injection h₂ with h₂
    exact Or.inr ⟨l₂', h₁, by rw [h₂, List.concat_eq_append]⟩

end Dynamod.Lib
