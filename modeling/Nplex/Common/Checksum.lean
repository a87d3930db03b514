import Mathlib.Logic.Function.Basic
import Mathlib.Data.List.Basic

/-!
# Steps that lose nothing

A checksum folds a step over symbols. When the step is injective in the state and in the symbol,
words that differ in one place end in different states, however long the common rest is.
-/

namespace Nplex.Common

variable {S B : Type*} {step : S → B → S}

/-- A step from which the state and the symbol can each be told when the other one is known. -/
structure Lossless (step : S → B → S) : Prop where
  state : ∀ b, Function.Injective fun s => step s b
  symbol : ∀ s, Function.Injective (step s)

/-- Different states stay different under the same symbols. -/
theorem Lossless.foldl_injective (h : Lossless step) (word : List B) :
    Function.Injective fun s => word.foldl step s := by
  induction word with
  | nil => exact fun _ _ heq => heq
  | cons b rest ih => exact fun _ _ heq => h.state b (ih heq)

/-- Changing one symbol changes the last state. -/
theorem Lossless.foldl_set_ne (h : Lossless step) {word : List B} {i : ℕ} {b : B}
    (hi : i < word.length) (hb : word[i]? ≠ some b) (s : S) :
    (word.set i b).foldl step s ≠ word.foldl step s := by
  induction word generalizing i s with
  | nil => cases hi
  | cons c rest ih =>
    cases i with
    | zero =>
      intro heq
      have hsame := h.symbol s (h.foldl_injective rest heq)
      exact hb (congrArg some hsame.symm)
    | succ i =>
      have hrest : rest[i]? ≠ some b := by simpa using hb
      exact ih (Nat.lt_of_succ_lt_succ hi) hrest (step s c)

end Nplex.Common
