import Mathlib.Logic.Basic
import Mathlib.Tactic.SplitIfs

/-!
# Runs of a partial step function

A system is a step function that may refuse an event. A run is a finite list of
accepted events. Runs carry a condition on the state before each step and its event,
so that a result about the runs of a restricted environment is an instance of the same
induction as a result about all runs.
-/

namespace Nplex.Common

variable {State Event : Type*}

/-- A finite run whose every step is accepted and meets the condition `ok`. -/
inductive Run (step : State → Event → Option State) (ok : State → Event → Prop) :
    State → List Event → State → Prop
  | nil (s : State) : Run step ok s [] s
  | cons {s next last : State} {e : Event} {rest : List Event} (hok : ok s e)
      (hstep : step s e = some next) (hrun : Run step ok next rest last) :
      Run step ok s (e :: rest) last

/-- The condition met by every step of every run. -/
def anyStep : State → Event → Prop := fun _ _ => True

/-- The states a run can reach from an initial state. -/
def Reached (step : State → Event → Option State) (ok : State → Event → Prop)
    (init s : State) : Prop :=
  ∃ events, Run step ok init events s

/-- Execute a list of events, failing at the first one that the system refuses or that does
not pass the check. -/
def execute (step : State → Event → Option State) (check : State → Event → Bool) :
    State → List Event → Option State
  | s, [] => some s
  | s, e :: rest =>
    if check s e then (step s e).bind fun next => execute step check next rest else none

variable {step : State → Event → Option State} {ok weak : State → Event → Prop}

/-- Runs compose. -/
theorem Run.append {s mid last : State} {first second : List Event}
    (hfirst : Run step ok s first mid) (hsecond : Run step ok mid second last) :
    Run step ok s (first ++ second) last := by
  induction hfirst with
  | nil => exact hsecond
  | cons hok hstep _ ih => exact .cons hok hstep (ih hsecond)

/-- A run that meets a condition meets every weaker one. -/
theorem Run.weaken {s last : State} {events : List Event} (hweak : ∀ s e, ok s e → weak s e)
    (hrun : Run step ok s events last) : Run step weak s events last := by
  induction hrun with
  | nil => exact .nil _
  | cons hok hstep _ ih => exact .cons (hweak _ _ hok) hstep ih

/-- What every step preserves holds at the end of every run. -/
theorem Run.invariant {Inv : State → Prop}
    (hinv : ∀ s e next, ok s e → step s e = some next → Inv s → Inv next)
    {s last : State} {events : List Event} (hrun : Run step ok s events last) (hs : Inv s) :
    Inv last := by
  induction hrun with
  | nil => exact hs
  | cons hok hstep _ ih => exact ih (hinv _ _ _ hok hstep hs)

/-- An invariant turns the condition met by the steps of a run into another one. -/
theorem Run.change (Inv : State → Prop) {ok' : State → Event → Prop}
    (hinv : ∀ s e next, ok s e → step s e = some next → Inv s → Inv next)
    (hok : ∀ s e next, Inv s → step s e = some next → ok s e → ok' s e)
    {s last : State} {events : List Event} (hs : Inv s) (hrun : Run step ok s events last) :
    Run step ok' s events last := by
  induction hrun with
  | nil => exact .nil _
  | cons hpass hstep _ ih =>
    exact .cons (hok _ _ _ hs hstep hpass) hstep (ih (hinv _ _ _ hpass hstep hs))

/-- An invariant of all steps makes two conditions on the steps of a run the same. -/
theorem Run.change_iff (Inv : State → Prop) {ok' : State → Event → Prop}
    (hinv : ∀ s e next, step s e = some next → Inv s → Inv next)
    (hok : ∀ s e, Inv s → (ok s e ↔ ok' s e)) {s last : State} {events : List Event} (hs : Inv s) :
    Run step ok s events last ↔ Run step ok' s events last :=
  ⟨Run.change Inv (fun s e next _ => hinv s e next) (fun s e _ h _ => (hok s e h).mp) hs,
    Run.change Inv (fun s e next _ => hinv s e next) (fun s e _ h _ => (hok s e h).mpr) hs⟩

/-- The initial state is reached by the empty run. -/
theorem Reached.refl (init : State) : Reached step ok init init := ⟨[], .nil init⟩

/-- A successful execution is a run. -/
theorem run_of_execute {check : State → Event → Bool} (hcheck : ∀ s e, check s e = true → ok s e)
    {s last : State} {events : List Event} (h : execute step check s events = some last) :
    Run step ok s events last := by
  induction events generalizing s with
  | nil =>
    simp only [execute, Option.some.injEq] at h
    subst h
    exact .nil _
  | cons e rest ih =>
    rw [execute] at h
    split_ifs at h with hpass
    obtain ⟨next, hstep, hrest⟩ := Option.bind_eq_some_iff.mp h
    exact .cons (hcheck s e hpass) hstep (ih hrest)

/-- A successful execution is a run whose end shows what was computed. -/
theorem exists_run_of_execute {A : Type*} {check : State → Event → Bool}
    (hcheck : ∀ s e, check s e = true → ok s e) {f : State → A} {a : A} {s : State}
    {events : List Event} (h : (execute step check s events).map f = some a) :
    ∃ last, Run step ok s events last ∧ f last = a := by
  obtain ⟨last, hlast, hf⟩ := Option.map_eq_some_iff.mp h
  exact ⟨last, run_of_execute hcheck hlast, hf⟩

end Nplex.Common
