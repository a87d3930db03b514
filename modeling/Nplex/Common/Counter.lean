import Mathlib.Data.List.Basic
import Mathlib.Data.List.Nodup
import Mathlib.Data.Nat.Basic
import Mathlib.Order.Basic

/-!
# The numbers drawn from a counter

A counter hands out its value and then advances. What is drawn while it goes from one value to
another is strictly increasing and lies between the two, so that numbers drawn later are new.
-/

namespace Nplex.Common

/-- The numbers may have been drawn, in this order, while a counter went from `lo` to `hi`. -/
structure Drawn (lo hi : ℕ) (numbers : List ℕ) : Prop where
  increasing : numbers.Pairwise (· < ·)
  bounds : ∀ n ∈ numbers, lo ≤ n ∧ n < hi

variable {lo mid hi : ℕ} {numbers later earlier : List ℕ}

/-- Drawing nothing. -/
theorem Drawn.nil (lo hi : ℕ) : Drawn lo hi [] := ⟨.nil, by simp⟩

/-- Drawing one number. -/
theorem Drawn.single (lo : ℕ) : Drawn lo (lo + 1) [lo] := ⟨by simp, by simp⟩

/-- Drawing goes on where it stopped. -/
theorem Drawn.append (h : Drawn lo mid numbers) (h' : Drawn mid hi later) (hlo : lo ≤ mid)
    (hhi : mid ≤ hi) : Drawn lo hi (numbers ++ later) := by
  refine ⟨List.pairwise_append.mpr ⟨h.increasing, h'.increasing, fun a ha b hb => ?_⟩, fun n hn => ?_⟩
  · exact (h.bounds a ha).2.trans_le (h'.bounds b hb).1
  · rcases List.mem_append.mp hn with hn | hn
    · exact ⟨(h.bounds n hn).1, (h.bounds n hn).2.trans_le hhi⟩
    · exact ⟨hlo.trans (h'.bounds n hn).1, (h'.bounds n hn).2⟩

/-- Numbers drawn after smaller ones keep them increasing. -/
theorem Drawn.pairwise_append (h : Drawn lo hi numbers) (hearlier : earlier.Pairwise (· < ·))
    (hbelow : ∀ n ∈ earlier, n < lo) : (earlier ++ numbers).Pairwise (· < ·) :=
  List.pairwise_append.mpr
    ⟨hearlier, h.increasing, fun a ha b hb => (hbelow a ha).trans_le (h.bounds b hb).1⟩

/-- Numbers drawn after smaller ones keep them distinct. -/
theorem Drawn.nodup_append (h : Drawn lo hi numbers) (hearlier : earlier.Nodup)
    (hbelow : ∀ n ∈ earlier, n < lo) : (earlier ++ numbers).Nodup := by
  refine List.nodup_append.mpr ⟨hearlier, h.increasing.imp fun hlt => hlt.ne, fun a ha b hb => ?_⟩
  exact ((hbelow a ha).trans_le (h.bounds b hb).1).ne

/-- They stay below the counter. -/
theorem Drawn.below_append (h : Drawn lo hi numbers) (hle : lo ≤ hi)
    (hbelow : ∀ n ∈ earlier, n < lo) : ∀ n ∈ earlier ++ numbers, n < hi := by
  intro n hn
  rcases List.mem_append.mp hn with hn | hn
  · exact (hbelow n hn).trans_le hle
  · exact (h.bounds n hn).2

end Nplex.Common
