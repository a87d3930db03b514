import Nplex.Common.SortedMerge

/-!
# The keys with a prefix in a sorted map

In the lexicographic order the keys that start with a prefix are neighbours, and the prefix
itself is not above any of them. A scan that starts at the lower bound of the prefix and
stops at the first key without it therefore meets exactly those keys.
-/

namespace Nplex.Common

variable {E A : Type*} [Ord E] [Std.LawfulEqOrd E]

/-- A prefix is not above the lists that start with it. -/
theorem not_lt_of_isPrefix {pre a : List E} (h : pre <+: a) : compare a pre ≠ .lt := by
  induction pre generalizing a with
  | nil =>
    cases a <;> simp
  | cons p pre ih =>
    obtain ⟨rest, rfl⟩ := h
    rw [List.cons_append, List.compare_cons_cons, Std.LawfulEqOrd.compare_eq_iff_eq.mpr rfl]
    exact ih ⟨rest, rfl⟩

/-- A list between a prefix and a list that starts with the prefix starts with it too. -/
theorem isPrefix_of_between [Std.TransOrd E] {pre a b : List E} (hlow : compare a pre ≠ .lt)
    (hhigh : compare a b = .lt) (h : pre <+: b) : pre <+: a := by
  induction pre generalizing a b with
  | nil => exact List.nil_prefix
  | cons p pre ih =>
    obtain ⟨rest, rfl⟩ := h
    cases a with
    | nil => simp at hlow
    | cons x a =>
      rw [List.compare_cons_cons] at hlow
      rw [List.cons_append, List.compare_cons_cons] at hhigh
      -- the first elements agree, since neither strict order is possible
      have hxp : compare x p = .eq := by
        cases hc : compare x p with
        | lt => simp [hc] at hlow
        | eq => rfl
        | gt => simp [hc] at hhigh
      rw [hxp] at hlow hhigh
      obtain rfl : x = p := Std.LawfulEqOrd.compare_eq_iff_eq.mp hxp
      exact (List.prefix_cons_inj x).mpr (ih hlow hhigh ⟨rest, rfl⟩)

variable [Std.TransOrd E] [BEq E] [LawfulBEq E]

/-- Above a prefix, the entries up to the first key without it are all those that have it. -/
theorem takeWhile_isPrefix_eq_filter {pre : List E} {l : List (List E × A)} (hl : SortedKeys l)
    (hlow : ∀ e ∈ l, compare e.1 pre ≠ .lt) :
    l.takeWhile (fun e => pre.isPrefixOf e.1) = l.filter fun e => pre.isPrefixOf e.1 := by
  induction l with
  | nil => rfl
  | cons e rest ih =>
    obtain ⟨hhead, htail⟩ := List.pairwise_cons.mp hl
    by_cases hpre : pre.isPrefixOf e.1
    · simp only [List.takeWhile_cons, List.filter_cons, hpre, if_true]
      rw [ih htail fun e' he' => hlow e' (List.mem_cons_of_mem _ he')]
    · simp only [List.takeWhile_cons, List.filter_cons, hpre, if_false, Bool.false_eq_true]
      rw [eq_comm, List.filter_eq_nil_iff]
      intro e' he' hpre'
      refine hpre (List.isPrefixOf_iff_prefix.mpr ?_)
      exact isPrefix_of_between (hlow e List.mem_cons_self) (hhead e' he')
        (List.isPrefixOf_iff_prefix.mp hpre')

/-- The scan from the lower bound of a prefix meets exactly the keys with the prefix. -/
theorem prefixScan_eq_filter {pre : List E} {l : List (List E × A)} (hl : SortedKeys l) :
    (l.dropWhile fun e => (compare e.1 pre).isLT).takeWhile (fun e => pre.isPrefixOf e.1) =
      l.filter fun e => pre.isPrefixOf e.1 := by
  induction l with
  | nil => rfl
  | cons e rest ih =>
    obtain ⟨hhead, htail⟩ := List.pairwise_cons.mp hl
    by_cases hlt : compare e.1 pre = .lt
    · have hpre : ¬pre.isPrefixOf e.1 := fun h =>
        not_lt_of_isPrefix (List.isPrefixOf_iff_prefix.mp h) hlt
      rw [List.dropWhile_cons_of_pos (by simp [hlt]), ih htail]
      simp only [List.filter_cons, hpre, if_false, Bool.false_eq_true]
    · rw [List.dropWhile_cons_of_neg (by simpa using hlt)]
      refine takeWhile_isPrefix_eq_filter hl fun e' he' => ?_
      rcases List.mem_cons.mp he' with rfl | he'
      · exact hlt
      · intro hlt'
        exact hlt (Std.TransCmp.lt_trans (hhead e' he') hlt')

end Nplex.Common
