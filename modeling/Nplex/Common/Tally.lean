import Mathlib.Algebra.Order.BigOperators.Group.Finset
import Mathlib.Data.Fintype.BigOperators

/-!
# Counting the entries of a table

A table gives each of finitely many places an entry or none. The number of entries with a
property changes with an update by what the old and the new entry count.
-/

namespace Nplex.Common

variable {ι β : Type*} [Fintype ι]

/-- The number of entries with a property. -/
def tally (table : ι → Option β) (p : β → Bool) : ℕ := ∑ i, ((table i).any p).toNat

/-- An update exchanges the old entry for the new one. -/
theorem tally_update [DecidableEq ι] (table : ι → Option β) (p : β → Bool) (i : ι)
    (entry : Option β) :
    tally (Function.update table i entry) p + ((table i).any p).toNat =
      tally table p + (entry.any p).toNat := by
  have hnew := Finset.add_sum_erase Finset.univ
    (fun j => ((Function.update table i entry j).any p).toNat) (Finset.mem_univ i)
  have hold := Finset.add_sum_erase Finset.univ
    (fun j => ((table j).any p).toNat) (Finset.mem_univ i)
  have hrest : ∑ j ∈ Finset.univ.erase i, ((Function.update table i entry j).any p).toNat =
      ∑ j ∈ Finset.univ.erase i, ((table j).any p).toNat := by
    apply Finset.sum_congr rfl
    intro j hj
    rw [Function.update_of_ne (Finset.ne_of_mem_erase hj)]
  rw [hrest, Function.update_self] at hnew
  rw [tally, tally, ← hnew, ← hold]
  omega

/-- Something is counted exactly when some entry has the property. -/
theorem tally_pos {table : ι → Option β} {p : β → Bool} :
    0 < tally table p ↔ ∃ i entry, table i = some entry ∧ p entry = true := by
  rw [tally, Finset.sum_pos_iff]
  constructor
  · rintro ⟨i, -, hi⟩
    cases hentry : table i with
    | none => simp [hentry] at hi
    | some entry =>
      refine ⟨i, entry, hentry, ?_⟩
      cases hp : p entry with
      | true => rfl
      | false => simp [hentry, hp] at hi
  · rintro ⟨i, entry, hentry, hp⟩
    exact ⟨i, Finset.mem_univ i, by simp [hentry, hp]⟩

/-- The count as the size of a set of places. -/
theorem tally_eq_card [DecidableEq β] (table : ι → Option β) (entry : β) :
    tally table (fun e => decide (e = entry)) =
      (Finset.univ.filter fun i => table i = some entry).card := by
  rw [tally, Finset.card_filter]
  apply Finset.sum_congr rfl
  intro i _
  cases hi : table i with
  | none => simp
  | some e => by_cases he : e = entry <;> simp [he]

/-- A table without entries counts nothing. -/
theorem tally_none (p : β → Bool) : tally (fun _ : ι => none) p = 0 := by
  simp [tally]

end Nplex.Common
