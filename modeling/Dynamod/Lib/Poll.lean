/-
Polling loops. A body is run until it answers, with a pause between
two runs; deadlines live in the body's own answer. The fuel is a bound
on the number of rounds, and `poll_isSome` says when it is never what
ends the loop: some measure falls with every round that gives no
answer.
-/

namespace Dynamod.Lib

section Poll

variable {W α : Type} (body : W → Option α × W) (pause : W → W)

/-- `loop { if let Some(a) = body() { return a } pause() }`; `none`
when the fuel runs out. -/
def poll : Nat → W → Option α × W
  | 0, w => (none, w)
  | fuel + 1, w =>
    match body w with
    | (some a, w) => (some a, w)
    | (none, w) => poll fuel (pause w)

variable {body pause}

/-- A measure that falls with every silent round bounds the rounds. -/
theorem poll_isSome (measure : W → Nat)
    (hfall : ∀ w w', body w = (none, w') → measure (pause w') < measure w) :
    ∀ (fuel : Nat) (w : W), measure w < fuel → (poll body pause fuel w).1.isSome = true := by
  intro fuel
  induction fuel with
  | zero =>
    intro w h
    exact absurd h (Nat.not_lt_zero _)
  | succ fuel ih =>
    intro w h
    unfold poll
    cases hb : body w with
    | mk answer w' =>
      cases answer with
      | some a => rfl
      | none =>
        have := hfall w w' hb
        exact ih (pause w') (by omega)

/-- An answer of the loop is one of the body. -/
theorem poll_answer {a : α} {v : W} : ∀ (fuel : Nat) (w : W),
    poll body pause fuel w = (some a, v) → ∃ u, body u = (some a, v) := by
  intro fuel
  induction fuel with
  | zero =>
    intro w h
    cases h
  | succ fuel ih =>
    intro w h
    unfold poll at h
    cases hb : body w with
    | mk answer w' =>
      rw [hb] at h
      cases answer with
      | some b => exact ⟨w, hb.trans h⟩
      | none => exact ih (pause w') h

/-- Whatever the body and the pause keep to, the loop keeps to. -/
theorem poll_rel {R : W → W → Prop} (hrefl : ∀ w, R w w)
    (htrans : ∀ {a b c}, R a b → R b c → R a c)
    (hbody : ∀ w, R w (body w).2) (hpause : ∀ w, R w (pause w)) :
    ∀ (fuel : Nat) (w : W), R w (poll body pause fuel w).2 := by
  intro fuel
  induction fuel with
  | zero => exact hrefl
  | succ fuel ih =>
    intro w
    have hw := hbody w
    unfold poll
    cases hb : body w with
    | mk answer w' =>
      rw [hb] at hw
      cases answer with
      | some a => exact hw
      | none => exact htrans hw (htrans (hpause w') (ih (pause w')))

/-- A cost that only the pause adds to grows with the fuel at most. -/
theorem poll_cost {cost : W → Int} {c : Nat} (hbody : ∀ w, cost (body w).2 ≤ cost w)
    (hpause : ∀ w, cost (pause w) ≤ cost w + c) :
    ∀ (fuel : Nat) (w : W), cost (poll body pause fuel w).2 ≤ cost w + (fuel * c : Nat) := by
  intro fuel
  induction fuel with
  | zero =>
    intro w
    show cost w ≤ _
    omega
  | succ fuel ih =>
    intro w
    have hw := hbody w
    unfold poll
    rw [Nat.succ_mul]
    cases hb : body w with
    | mk answer w' =>
      rw [hb] at hw
      cases answer with
      | some a =>
        show cost w' ≤ _
        dsimp only at hw
        omega
      | none =>
        have hp := hpause w'
        have hrest := ih (pause w')
        show cost (poll body pause fuel (pause w')).2 ≤ _
        dsimp only at hw
        omega

end Poll

end Dynamod.Lib
