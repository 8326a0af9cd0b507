/-
Programs with loops that have to end. A program returns a value or it is at
fault: it traps, or a loop is not done when its rounds are used up. A program
that returns a value traps nowhere, and all its loops end.

A round of a loop goes on with a new state, or it is the last one. The rule
of total correctness is `loop_ends`: an invariant that every round keeps, and
a measure that every round but the last lowers.
-/
import Dynamod.Lib.Checked

namespace Dynamod.Lib.Loops

/-- What keeps a program from returning. -/
inductive Fault
  | trap (t : Trap)
  | unfinished
  deriving DecidableEq

abbrev Prog := Except Fault

instance : MonadLift Checked Prog := ⟨fun x => x.mapError .trap⟩

/-- What a round of a loop comes to. -/
inductive Round (σ α : Type)
  | again (s : σ)
  | done (a : α)

variable {σ α β : Type}

/-- A loop of at most the given number of rounds. -/
def loop (body : σ → Prog (Round σ α)) : Nat → σ → Prog α
  | 0, _ => .error .unfinished
  | rounds + 1, s => do
      match ← body s with
      | .again s => loop body rounds s
      | .done a => .ok a

-- ==== rules

/-- The program returns, with a value that satisfies `Q`. -/
def Ends (x : Prog α) (Q : α → Prop) : Prop := ∃ a, x = .ok a ∧ Q a

/-- A round goes on with a state in `P`, or ends with a value in `Q`. -/
def Round.Within (P : σ → Prop) (Q : α → Prop) : Round σ α → Prop
  | .again s => P s
  | .done a => Q a

variable {P : σ → Prop} {Q Q' : α → Prop} {R : β → Prop}

theorem lift_ok (a : α) : (liftM (Except.ok a : Checked α) : Prog α) = .ok a := rfl

namespace Ends

theorem ok {a : α} (h : Q a) : Ends (.ok a) Q := ⟨a, rfl, h⟩

theorem eq_ok {x : Prog α} {a : α} (h : Ends x (· = a)) : x = .ok a := by
  obtain ⟨b, hx, rfl⟩ := h
  exact hx

theorem mono {x : Prog α} (h : Ends x Q) (himp : ∀ a, Q a → Q' a) : Ends x Q' := by
  obtain ⟨a, hx, ha⟩ := h
  exact ⟨a, hx, himp a ha⟩

theorem bind {x : Prog α} {f : α → Prog β} (h : Ends x Q) (hf : ∀ a, Q a → Ends (f a) R) :
    Ends (x >>= f) R := by
  obtain ⟨a, rfl, ha⟩ := h
  exact hf a ha

/-- A checked operation that does not trap is done with its value. -/
theorem lift {x : Checked α} {a : α} {f : α → Prog β} (hx : x = .ok a) (hf : Ends (f a) R) :
    Ends (liftM x >>= f) R := by
  subst hx
  exact hf

theorem lift_last {x : Checked α} {a : α} (hx : x = .ok a) (ha : Q a) :
    Ends (liftM x : Prog α) Q := by
  subst hx
  exact ok ha

end Ends

/-- A loop ends with what its last round ends with, if every round keeps the
invariant and every other round lowers the measure. -/
theorem loop_ends {body : σ → Prog (Round σ α)} (measure : σ → Nat)
    (hbody : ∀ s, P s → Ends (body s) (Round.Within (fun s' => P s' ∧ measure s' < measure s) Q))
    {rounds : Nat} {s : σ} (hs : P s) (hrounds : measure s < rounds) :
    Ends (loop body rounds s) Q := by
  induction rounds generalizing s with
  | zero => exact absurd hrounds (Nat.not_lt_zero _)
  | succ rounds ih =>
    apply Ends.bind (hbody s hs)
    intro round hround
    cases round with
    | again s' => exact ih hround.1 (by have := hround.2; omega)
    | done a => exact Ends.ok hround

end Dynamod.Lib.Loops
