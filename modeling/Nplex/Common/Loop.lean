import Mathlib.Data.List.Basic

/-!
# Counted loops that may fail

A loop over 0, 1, …, n - 1 whose body may fail. When the body keeps an invariant indexed by the
count without failing, so does the loop.
-/

namespace Nplex.Common

variable {ε State : Type} {α : Type} {n : ℕ}

/-- The rule of a counted loop. -/
theorem foldlM_range (Inv : ℕ → State → Prop) {body : State → ℕ → Except ε State} {s : State}
    (hstart : Inv 0 s)
    (hbody : ∀ i < n, ∀ s, Inv i s → ∃ s', body s i = .ok s' ∧ Inv (i + 1) s') :
    ∃ s', (List.range n).foldlM body s = .ok s' ∧ Inv n s' := by
  induction n with
  | zero => exact ⟨s, rfl, hstart⟩
  | succ n ih =>
    obtain ⟨s₁, hloop, hinv⟩ := ih fun i hi => hbody i (by omega)
    obtain ⟨s₂, hlast, hinv'⟩ := hbody n (by omega) s₁ hinv
    refine ⟨s₂, ?_, hinv'⟩
    rw [List.range_succ, List.foldlM_append, hloop]
    change (List.foldlM body s₁ [n]) = _
    rw [List.foldlM_cons, hlast]
    rfl

/-- A loop that collects the elements of a list. -/
theorem mapM_range {get : ℕ → Except ε α} {xs : List α}
    (hget : ∀ i (hi : i < xs.length), get i = .ok xs[i]) :
    (List.range xs.length).mapM get = .ok xs := by
  induction xs generalizing get with
  | nil => rfl
  | cons x rest ih =>
    have hrest : (List.range rest.length).mapM (get ∘ Nat.succ) = .ok rest :=
      ih fun i hi => hget (i + 1) (by simpa using hi)
    have hfirst : get 0 = .ok x := hget 0 (Nat.zero_lt_succ _)
    rw [List.length_cons, List.range_succ_eq_map, List.mapM_cons, hfirst, List.mapM_map, hrest]
    rfl

end Nplex.Common
