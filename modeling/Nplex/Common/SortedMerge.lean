import Mathlib.Data.List.Sort

/-!
# Walking two sorted maps together

Two lists of entries, both strictly sorted by key, are merged into one; where both have an
entry for a key, the left one is taken. The merge is strictly sorted and its entries are
those of the left list and those of the right list at keys the left one lacks, so it is
the list of the union map.
-/

namespace Nplex.Common

variable {K A B : Type*} [Ord K]

/-- Entries in strictly increasing order of their keys. -/
def SortedKeys (l : List (K × A)) : Prop := l.Pairwise fun a b => compare a.1 b.1 = .lt

/-- The merge of two sorted lists of entries, taking the left entry of equal keys. -/
def mergeByKey : List (K × A) → List (K × B) → List (K × (A ⊕ B))
  | [], bs => bs.map fun b => (b.1, .inr b.2)
  | (ka, a) :: as, [] => (ka, .inl a) :: mergeByKey as []
  | (ka, a) :: as, (kb, b) :: bs =>
    match compare ka kb with
    | .lt => (ka, .inl a) :: mergeByKey as ((kb, b) :: bs)
    | .gt => (kb, .inr b) :: mergeByKey ((ka, a) :: as) bs
    | .eq => (ka, .inl a) :: mergeByKey as bs
termination_by as bs => as.length + bs.length

/-- Every key of the merge is a key of one of the lists. -/
theorem mem_keys_mergeByKey {as : List (K × A)} {bs : List (K × B)} {x : K × (A ⊕ B)}
    (hx : x ∈ mergeByKey as bs) : (∃ a ∈ as, a.1 = x.1) ∨ ∃ b ∈ bs, b.1 = x.1 := by
  fun_induction mergeByKey as bs with
  | case1 bs =>
    obtain ⟨b, hb, rfl⟩ := List.mem_map.mp hx
    exact Or.inr ⟨b, hb, rfl⟩
  | case2 ka a as ih =>
    rcases List.mem_cons.mp hx with rfl | hx
    · exact Or.inl ⟨_, List.mem_cons_self, rfl⟩
    · rcases ih hx with ⟨a', ha', hkey⟩ | ⟨b', hb', -⟩
      · exact Or.inl ⟨a', List.mem_cons_of_mem _ ha', hkey⟩
      · simp at hb'
  | case3 ka a as kb b bs hlt ih =>
    rcases List.mem_cons.mp hx with rfl | hx
    · exact Or.inl ⟨_, List.mem_cons_self, rfl⟩
    · rcases ih hx with ⟨a', ha', hkey⟩ | hright
      · exact Or.inl ⟨a', List.mem_cons_of_mem _ ha', hkey⟩
      · exact Or.inr hright
  | case4 ka a as kb b bs hgt ih =>
    rcases List.mem_cons.mp hx with rfl | hx
    · exact Or.inr ⟨_, List.mem_cons_self, rfl⟩
    · rcases ih hx with hleft | ⟨b', hb', hkey⟩
      · exact Or.inl hleft
      · exact Or.inr ⟨b', List.mem_cons_of_mem _ hb', hkey⟩
  | case5 ka a as kb b bs heq ih =>
    rcases List.mem_cons.mp hx with rfl | hx
    · exact Or.inl ⟨_, List.mem_cons_self, rfl⟩
    · rcases ih hx with ⟨a', ha', hkey⟩ | ⟨b', hb', hkey⟩
      · exact Or.inl ⟨a', List.mem_cons_of_mem _ ha', hkey⟩
      · exact Or.inr ⟨b', List.mem_cons_of_mem _ hb', hkey⟩

/-- The left entries of the merge are the entries of the left list. -/
theorem mem_mergeByKey_inl {as : List (K × A)} {bs : List (K × B)} {k : K} {a : A} :
    (k, Sum.inl a) ∈ mergeByKey as bs ↔ (k, a) ∈ as := by
  fun_induction mergeByKey as bs with
  | case1 bs => simp
  | case2 ka a' as ih => simp [ih]
  | case3 ka a' as kb b bs hlt ih => simp [ih]
  | case4 ka a' as kb b bs hgt ih => simp [ih]
  | case5 ka a' as kb b bs heq ih => simp [ih]

/-- A key below both lists is below their merge. -/
theorem lt_mergeByKey {as : List (K × A)} {bs : List (K × B)} {k : K}
    (ha : ∀ a ∈ as, compare k a.1 = .lt) (hb : ∀ b ∈ bs, compare k b.1 = .lt) :
    ∀ x ∈ mergeByKey as bs, compare k x.1 = .lt := by
  intro x hx
  rcases mem_keys_mergeByKey hx with ⟨a, hmem, hkey⟩ | ⟨b, hmem, hkey⟩
  · exact hkey ▸ ha a hmem
  · exact hkey ▸ hb b hmem

variable [Std.TransOrd K]

/-- A key below the first key of a sorted list is below all its keys. -/
theorem SortedKeys.head_lt {e : K × A} {l : List (K × A)} (h : SortedKeys (e :: l))
    {k : K} (hk : compare k e.1 = .lt) : ∀ e' ∈ e :: l, compare k e'.1 = .lt := by
  intro e' he'
  rcases List.mem_cons.mp he' with rfl | he'
  · exact hk
  · exact Std.TransCmp.lt_trans hk ((List.pairwise_cons.mp h).1 e' he')

/-- The merge is strictly sorted. -/
theorem sortedKeys_mergeByKey {as : List (K × A)} {bs : List (K × B)} (ha : SortedKeys as)
    (hb : SortedKeys bs) : SortedKeys (mergeByKey as bs) := by
  fun_induction mergeByKey as bs with
  | case1 bs => exact List.pairwise_map.mpr hb
  | case2 ka a as ih =>
    obtain ⟨hhead, htail⟩ := List.pairwise_cons.mp ha
    exact List.pairwise_cons.mpr ⟨lt_mergeByKey hhead (by simp), ih htail hb⟩
  | case3 ka a as kb b bs hlt ih =>
    obtain ⟨hhead, htail⟩ := List.pairwise_cons.mp ha
    exact List.pairwise_cons.mpr ⟨lt_mergeByKey hhead (hb.head_lt hlt), ih htail hb⟩
  | case4 ka a as kb b bs hgt ih =>
    obtain ⟨hhead, htail⟩ := List.pairwise_cons.mp hb
    have hlt : compare kb ka = .lt := Std.OrientedCmp.lt_of_gt hgt
    exact List.pairwise_cons.mpr ⟨lt_mergeByKey (ha.head_lt hlt) hhead, ih ha htail⟩
  | case5 ka a as kb b bs heq ih =>
    obtain ⟨hheada, htaila⟩ := List.pairwise_cons.mp ha
    obtain ⟨hheadb, htailb⟩ := List.pairwise_cons.mp hb
    refine List.pairwise_cons.mpr ⟨lt_mergeByKey hheada fun b' hb' => ?_, ih htaila htailb⟩
    exact Std.TransCmp.lt_of_eq_of_lt heq (hheadb b' hb')

variable [Std.LawfulEqOrd K]

/-- A sorted list has no entry at a key below its first one. -/
theorem SortedKeys.notMem_of_lt {e : K × A} {l : List (K × A)} (h : SortedKeys (e :: l))
    {k : K} (hk : compare k e.1 = .lt) (a : A) : (k, a) ∉ e :: l := by
  intro hmem
  have hlt : compare k k = .lt := h.head_lt hk (k, a) hmem
  rw [Std.LawfulEqOrd.compare_eq_iff_eq.mpr rfl] at hlt
  cases hlt

/-- The right entries of the merge are those at keys the left list lacks. -/
theorem mem_mergeByKey_inr {as : List (K × A)} {bs : List (K × B)} (ha : SortedKeys as)
    (hb : SortedKeys bs) {k : K} {b : B} :
    (k, Sum.inr b) ∈ mergeByKey as bs ↔ (k, b) ∈ bs ∧ ∀ a, (k, a) ∉ as := by
  fun_induction mergeByKey as bs with
  | case1 bs => simp
  | case2 ka a as ih =>
    simp [ih (List.pairwise_cons.mp ha).2 hb]
  | case3 ka a as kb b' bs hlt ih =>
    rw [List.mem_cons, ih (List.pairwise_cons.mp ha).2 hb]
    constructor
    · rintro (hhead | ⟨hmem, hnone⟩)
      · simp at hhead
      · refine ⟨hmem, fun a' hmem' => ?_⟩
        rcases List.mem_cons.mp hmem' with hhead | htail
        · obtain ⟨rfl, -⟩ := Prod.mk.inj hhead
          exact hb.notMem_of_lt hlt _ hmem
        · exact hnone a' htail
    · rintro ⟨hmem, hnone⟩
      exact Or.inr ⟨hmem, fun a' hmem' => hnone a' (List.mem_cons_of_mem _ hmem')⟩
  | case4 ka a as kb b' bs hgt ih =>
    have hlt : compare kb ka = .lt := Std.OrientedCmp.lt_of_gt hgt
    rw [List.mem_cons, ih ha (List.pairwise_cons.mp hb).2]
    constructor
    · rintro (hhead | ⟨hmem, hnone⟩)
      · simp only [Prod.mk.injEq, Sum.inr.injEq] at hhead
        obtain ⟨rfl, rfl⟩ := hhead
        exact ⟨List.mem_cons_self, fun a' => ha.notMem_of_lt hlt a'⟩
      · exact ⟨List.mem_cons_of_mem _ hmem, hnone⟩
    · rintro ⟨hmem, hnone⟩
      rcases List.mem_cons.mp hmem with hhead | htail
      · obtain ⟨rfl, rfl⟩ := Prod.mk.inj hhead
        exact Or.inl rfl
      · exact Or.inr ⟨htail, hnone⟩
  | case5 ka a as kb b' bs heq ih =>
    have hkey : ka = kb := Std.LawfulEqOrd.compare_eq_iff_eq.mp heq
    subst hkey
    rw [List.mem_cons, ih (List.pairwise_cons.mp ha).2 (List.pairwise_cons.mp hb).2]
    constructor
    · rintro (hhead | ⟨hmem, hnone⟩)
      · simp at hhead
      · refine ⟨List.mem_cons_of_mem _ hmem, fun a' hmem' => ?_⟩
        rcases List.mem_cons.mp hmem' with hhead | htail
        · obtain ⟨rfl, -⟩ := Prod.mk.inj hhead
          have hlt := (List.pairwise_cons.mp hb).1 (k, b) hmem
          rw [heq] at hlt
          cases hlt
        · exact hnone a' htail
    · rintro ⟨hmem, hnone⟩
      refine Or.inr ⟨?_, fun a' hmem' => hnone a' (List.mem_cons_of_mem _ hmem')⟩
      rcases List.mem_cons.mp hmem with hhead | htail
      · obtain ⟨rfl, -⟩ := Prod.mk.inj hhead
        exact absurd List.mem_cons_self (hnone a)
      · exact htail

/-- Sorted lists with the same entries are equal. -/
theorem SortedKeys.ext {l l' : List (K × A)} (h : SortedKeys l) (h' : SortedKeys l')
    (hmem : ∀ e, e ∈ l ↔ e ∈ l') : l = l' := by
  have hne : ∀ {a b : K × A}, compare a.1 b.1 = .lt → a ≠ b := by
    rintro a b hlt rfl
    rw [Std.LawfulEqOrd.compare_eq_iff_eq.mpr rfl] at hlt
    cases hlt
  refine List.Perm.eq_of_pairwise ?_ h h' ?_
  · intro a b _ _ hab hba
    have hgt := Std.OrientedCmp.gt_of_lt hba
    rw [hab] at hgt
    cases hgt
  · exact (List.perm_ext_iff_of_nodup (h.imp hne) (h'.imp hne)).mpr hmem

end Nplex.Common
