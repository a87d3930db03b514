import Mathlib.Data.List.Basic
import Mathlib.Data.Nat.Basic
import Mathlib.Order.Basic
import Mathlib.Tactic.Cases

/-!
# A log of commits

Commits carry revisions that strictly increase along the log. A follower at some revision takes
the commits after it, in chunks or one at a time. What it has taken and what is still to come
make up the log.
-/

namespace Nplex.Common

variable {A : Type*} (rev : A → ℕ)

/-- The revisions strictly increase. -/
def Ordered (log : List A) : Prop := log.Pairwise fun u v => rev u < rev v

/-- The last revision, or the given one if nothing was committed. -/
def lastRev (start : ℕ) (log : List A) : ℕ := (log.getLast?.map rev).getD start

/-- The commits after a revision. -/
def commitsAfter (r : ℕ) (log : List A) : List A := log.filter fun u => r < rev u

/-- The commits after a revision, up to another one. -/
def commitsBetween (r r' : ℕ) (log : List A) : List A := log.filter fun u => r < rev u && rev u ≤ r'

variable {rev} {log rest : List A} {u : A} {r r' start : ℕ}

/-- The last commit is the one at the end. -/
theorem lastRev_snoc : lastRev rev start (log ++ [u]) = rev u := by
  simp [lastRev]

/-- The commits before the last one do not matter. -/
theorem lastRev_cons : lastRev rev start (u :: log) = lastRev rev (rev u) log := by
  cases log with
  | nil => rfl
  | cons v rest => rw [lastRev, List.getLast?_cons_cons, lastRev, List.getLast?_cons]; rfl

/-- No commit is later than the last one. -/
theorem Ordered.le_lastRev (h : Ordered rev log) (hu : u ∈ log) : rev u ≤ lastRev rev start log := by
  induction log generalizing start u with
  | nil => exact absurd hu List.not_mem_nil
  | cons v rest ih =>
    obtain ⟨hv, hrest⟩ := List.pairwise_cons.mp h
    rw [lastRev_cons]
    rcases List.mem_cons.mp hu with rfl | hu
    · cases rest with
      | nil => exact le_rfl
      | cons w rest => exact (hv w List.mem_cons_self).le.trans (ih hrest List.mem_cons_self)
    · exact ih hrest hu

/-- The last revision is bounded as the commits are. -/
theorem lastRev_le {bound : ℕ} (hstart : start ≤ bound) (hlog : ∀ u ∈ log, rev u ≤ bound) :
    lastRev rev start log ≤ bound := by
  induction log generalizing start with
  | nil => exact hstart
  | cons u rest ih =>
    rw [lastRev_cons]
    exact ih (hlog u List.mem_cons_self) fun v hv => hlog v (List.mem_cons_of_mem u hv)

/-- A later commit keeps the order. -/
theorem Ordered.snoc (h : Ordered rev log) (hu : lastRev rev start log < rev u) :
    Ordered rev (log ++ [u]) := by
  refine List.pairwise_append.mpr ⟨h, List.pairwise_singleton _ _, fun v hv w hw => ?_⟩
  rw [List.mem_singleton.mp hw]
  exact (h.le_lastRev hv).trans_lt hu

/-- A later commit comes after a revision. -/
theorem commitsAfter_snoc (hu : r < rev u) :
    commitsAfter rev r (log ++ [u]) = commitsAfter rev r log ++ [u] := by
  simp [commitsAfter, hu]

/-- It is not between two earlier revisions. -/
theorem commitsBetween_snoc (hu : r' < rev u) :
    commitsBetween rev r r' (log ++ [u]) = commitsBetween rev r r' log := by
  simp [commitsBetween, hu]

/-- Nothing is between a revision and itself. -/
theorem commitsBetween_self : commitsBetween rev r r log = [] := by
  rw [commitsBetween, List.filter_eq_nil_iff]
  intro u hu
  simp only [Bool.and_eq_true, decide_eq_true_eq]
  omega

/-- A log is what is not after a revision, followed by what is. -/
theorem Ordered.split (h : Ordered rev log) (r : ℕ) :
    log = (log.filter fun u => rev u ≤ r) ++ commitsAfter rev r log := by
  induction log with
  | nil => rfl
  | cons u rest ih =>
    obtain ⟨hu, hrest⟩ := List.pairwise_cons.mp h
    by_cases hle : rev u ≤ r
    · have hnot : ¬r < rev u := Nat.not_lt.mpr hle
      simp only [commitsAfter, List.filter_cons, hle, hnot, decide_true, decide_false, if_true,
        Bool.false_eq_true, if_false, List.cons_append]
      exact congrArg (u :: ·) (ih hrest)
    · have hlater : ∀ v ∈ rest, ¬rev v ≤ r := fun v hv => by
        have := hu v hv
        omega
      have hnone : (u :: rest).filter (fun v => decide (rev v ≤ r)) = [] := by
        rw [List.filter_eq_nil_iff]
        intro v hv
        rcases List.mem_cons.mp hv with rfl | hv
        · simpa using hle
        · simpa using hlater v hv
      have hall : commitsAfter rev r (u :: rest) = u :: rest := by
        rw [commitsAfter, List.filter_eq_self]
        intro v hv
        rcases List.mem_cons.mp hv with rfl | hv
        · simpa using hle
        · simpa using hlater v hv
      rw [hnone, hall, List.nil_append]

/-- The first commit after a revision, and what is after that commit. -/
theorem Ordered.next (h : Ordered rev log) (hnext : commitsAfter rev r log = u :: rest) :
    r < rev u ∧ u ∈ log ∧ commitsAfter rev (rev u) log = rest := by
  have hmem : u ∈ commitsAfter rev r log := by
    rw [hnext]
    exact List.mem_cons_self
  obtain ⟨hu, hlt⟩ := List.mem_filter.mp hmem
  have hlt' : r < rev u := of_decide_eq_true hlt
  refine ⟨hlt', hu, ?_⟩
  have hsorted : Ordered rev (u :: rest) := hnext ▸ h.filter _
  obtain ⟨hfirst, -⟩ := List.pairwise_cons.mp hsorted
  have htwice : commitsAfter rev (rev u) log = commitsAfter rev (rev u) (commitsAfter rev r log) := by
    simp only [commitsAfter, List.filter_filter]
    refine List.filter_congr fun v _ => ?_
    by_cases hv : rev u < rev v
    · simp [hv, hlt'.trans hv]
    · simp [hv]
  have hrest : rest.filter (fun v => decide (rev u < rev v)) = rest :=
    List.filter_eq_self.mpr fun v hv => decide_eq_true (hfirst v hv)
  rw [htwice, hnext, commitsAfter, List.filter_cons, if_neg (by simp), hrest]

/-- Taking one more commit. -/
theorem Ordered.between_next (h : Ordered rev log) {r₀ : ℕ} (hle : r₀ ≤ r)
    (hnext : commitsAfter rev r log = u :: rest) :
    commitsBetween rev r₀ (rev u) log = commitsBetween rev r₀ r log ++ [u] := by
  obtain ⟨hlt, -, -⟩ := h.next hnext
  have hsorted : Ordered rev (u :: rest) := hnext ▸ h.filter _
  obtain ⟨hfirst, -⟩ := List.pairwise_cons.mp hsorted
  have hold : (log.filter fun v => rev v ≤ r).filter (fun v => r₀ < rev v && rev v ≤ rev u) =
      (log.filter fun v => rev v ≤ r).filter fun v => r₀ < rev v && rev v ≤ r := by
    refine List.filter_congr fun v hv => ?_
    have hv' : rev v ≤ r := of_decide_eq_true (List.mem_filter.mp hv).2
    simp [hv', hv'.trans hlt.le]
  have hnew : (u :: rest).filter (fun v => r₀ < rev v && rev v ≤ rev u) = [u] := by
    rw [List.filter_cons, if_pos (by simp; omega)]
    congr 1
    rw [List.filter_eq_nil_iff]
    intro v hv
    have := hfirst v hv
    simp only [Bool.and_eq_true, decide_eq_true_eq]
    omega
  have hnone : (u :: rest).filter (fun v => r₀ < rev v && rev v ≤ r) = [] := by
    rw [List.filter_eq_nil_iff]
    intro v hv
    have hv' : rev u ≤ rev v := by
      rcases List.mem_cons.mp hv with rfl | hv
      · exact le_rfl
      · exact (hfirst v hv).le
    simp only [Bool.and_eq_true, decide_eq_true_eq]
    omega
  have hsplit := h.split r
  rw [hnext] at hsplit
  unfold commitsBetween
  conv_lhs => rw [hsplit, List.filter_append, hnew, hold]
  conv_rhs => rw [hsplit, List.filter_append, hnone, List.append_nil]

/-- A chunk of the commits after a revision, and what is left. -/
theorem Ordered.chunk (h : Ordered rev log) (n r : ℕ) :
    commitsAfter rev r log = (commitsAfter rev r log).take n ++
      commitsAfter rev (lastRev rev r ((commitsAfter rev r log).take n)) log := by
  induction n generalizing r with
  | zero => rfl
  | succ n ih =>
    cases hnext : commitsAfter rev r log with
    | nil =>
      rw [List.take_nil, List.nil_append]
      exact hnext.symm
    | cons u rest =>
      obtain ⟨-, -, hrest⟩ := h.next hnext
      have hih := ih (rev u)
      rw [hrest] at hih
      rw [List.take_succ_cons, lastRev_cons, List.cons_append, ← hih]

end Nplex.Common
