import Mathlib.Logic.Basic

/-!
# Machines that answer inputs

A machine answers an input with an output, or refuses it. A specification machine is
followed when each answer is one it allows. Two machines related by a bisimulation refuse
and answer alike on every sequence of inputs.
-/

namespace Nplex.Common

variable {State Spec Left Right Input Output : Type*}

/-- The answers of a machine to a sequence of inputs, up to the first one it refuses. -/
def outputs (step : State → Input → Option (State × Output)) : State → List Input → List Output
  | _, [] => []
  | s, i :: rest =>
    match step s i with
    | none => []
    | some (next, o) => o :: outputs step next rest

/-- Every answer of the machine is allowed by the specification, whose state follows the
inputs and the answers seen so far. -/
def Follows (step : State → Input → Option (State × Output)) (allows : Spec → Input → Output → Prop)
    (next : Spec → Input → Output → Spec) : State → Spec → List Input → Prop
  | _, _, [] => True
  | s, a, i :: rest =>
    ∀ s' o, step s i = some (s', o) →
      allows a i o ∧ Follows step allows next s' (next a i o) rest

/-- A simulation makes the machine follow the specification on every sequence of inputs. -/
theorem follows_of_simulation {step : State → Input → Option (State × Output)}
    {allows : Spec → Input → Output → Prop} {next : Spec → Input → Output → Spec}
    {R : State → Spec → Prop}
    (hsim : ∀ s a i s' o, R s a → step s i = some (s', o) → allows a i o ∧ R s' (next a i o))
    (s : State) (a : Spec) (h : R s a) (inputs : List Input) :
    Follows step allows next s a inputs := by
  induction inputs generalizing s a with
  | nil => exact trivial
  | cons i rest ih =>
    intro s' o hstep
    obtain ⟨hallows, hnext⟩ := hsim s a i s' o h hstep
    exact ⟨hallows, ih s' _ hnext⟩

/-- Compare the answers of a machine with an executable specification. -/
def checkFollows (step : State → Input → Option (State × Output))
    (check : Spec → Input → Output → Bool) (next : Spec → Input → Output → Spec) :
    State → Spec → List Input → Bool
  | _, _, [] => true
  | s, a, i :: rest =>
    match step s i with
    | none => true
    | some (s', o) => check a i o && checkFollows step check next s' (next a i o) rest

/-- A machine that follows a specification passes every check the specification implies. -/
theorem Follows.check {step : State → Input → Option (State × Output)}
    {allows : Spec → Input → Output → Prop} {check : Spec → Input → Output → Bool}
    {next : Spec → Input → Output → Spec} (himp : ∀ a i o, allows a i o → check a i o = true)
    {s : State} {a : Spec} {inputs : List Input} (h : Follows step allows next s a inputs) :
    checkFollows step check next s a inputs = true := by
  induction inputs generalizing s a with
  | nil => rfl
  | cons i rest ih =>
    rw [checkFollows]
    cases hstep : step s i with
    | none => rfl
    | some answer =>
      obtain ⟨hallows, hrest⟩ := h answer.1 answer.2 hstep
      simp [himp _ _ _ hallows, ih hrest]

/-- Two answers agree: both refused, or the same output and related next states. -/
def Agree (R : Left → Right → Prop) : Option (Left × Output) → Option (Right × Output) → Prop
  | none, none => True
  | some (l, o), some (r, o') => o = o' ∧ R l r
  | _, _ => False

/-- Bisimilar machines give the same answers. -/
theorem outputs_eq_of_bisimulation {left : Left → Input → Option (Left × Output)}
    {right : Right → Input → Option (Right × Output)} {R : Left → Right → Prop}
    (hbisim : ∀ l r i, R l r → Agree R (left l i) (right r i))
    (l : Left) (r : Right) (h : R l r) (inputs : List Input) :
    outputs left l inputs = outputs right r inputs := by
  induction inputs generalizing l r with
  | nil => rfl
  | cons i rest ih =>
    have hagree := hbisim l r i h
    rw [outputs, outputs]
    cases hl : left l i with
    | none =>
      cases hr : right r i with
      | none => rfl
      | some _ => simp [hl, hr, Agree] at hagree
    | some answer =>
      cases hr : right r i with
      | none => simp [hl, hr, Agree] at hagree
      | some answer' =>
        rw [hl, hr] at hagree
        obtain ⟨hout, hnext⟩ := hagree
        dsimp only
        rw [hout, ih _ _ hnext]

end Nplex.Common
