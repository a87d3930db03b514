import Nplex.Common.Tally
import Nplex.Deps.CString

/-!
# Shared strings are values

However the accesses of the threads interleave, each counter is the number of objects that
point to its block and of methods that still hold a reference, no memory is used after it was
freed, and when no method is under way the blocks are those that some object points to. To
their users the objects are independent values: sharing is not seen.
-/

namespace Nplex.Deps

open Nplex.Common

set_option linter.unusedSectionVars false

variable {Obj Thread Addr : Type} [DecidableEq Obj] [DecidableEq Thread] [DecidableEq Addr]

/-- A method under way that holds a reference to the block. -/
def Task.holds (a : Addr) : Task Obj Addr → Bool
  | .sub a' _ => decide (a' = a)
  | _ => false

/-- A method under way that is about to free the block. -/
def Task.frees (a : Addr) : Task Obj Addr → Bool
  | .free a' _ => decide (a' = a)
  | _ => false

/-- The string that a method under way relies on its source to point to. -/
def Task.reliesOn : Task Obj Addr → Option (Option Addr)
  | .load _ _ str => some str
  | .add _ _ a => some (some a)
  | _ => none

namespace Strings

variable [Fintype Obj] [Fintype Thread] {c : Strings Obj Thread Addr} {a x : Addr} {t : Thread}
  {d s o : Obj}

/-- The references to a block: objects that point to it and methods that hold it. -/
def refs (c : Strings Obj Thread Addr) (a : Addr) : ℕ :=
  tally c.objects (fun str => decide (str = some a)) + tally c.tasks (Task.holds a)

/-- The methods about to free a block. -/
def freeing (c : Strings Obj Thread Addr) (a : Addr) : ℕ := tally c.tasks (Task.frees a)

/-- Memory that is written leaves the references alone. -/
@[simp] theorem refs_store (b : Option Block) : (c.store a b).refs x = c.refs x := rfl

/-- It leaves the destructors under way alone. -/
@[simp] theorem freeing_store (b : Option Block) : (c.store a b).freeing x = c.freeing x := rfl

/-- So does an object that points elsewhere. -/
@[simp] theorem freeing_point (str : Option (Option Addr)) :
    (c.point d str).freeing x = c.freeing x := rfl

/-- An object that points elsewhere drops one reference and takes another. -/
theorem refs_point (str : Option (Option Addr)) :
    (c.point d str).refs x + ((c.objects d).any fun str => decide (str = some x)).toNat =
      c.refs x + (str.any fun str => decide (str = some x)).toNat := by
  have hupdate := tally_update c.objects (fun str => decide (str = some x)) d str
  simp only [refs, point]
  omega

/-- So does a task that goes on. -/
theorem refs_goto (k : Option (Task Obj Addr)) :
    (c.goto t k).refs x + ((c.tasks t).any (Task.holds x)).toNat =
      c.refs x + (k.any (Task.holds x)).toNat := by
  have hupdate := tally_update c.tasks (Task.holds x) t k
  simp only [refs, goto]
  omega

/-- A task that goes on may begin to free, or be done with it. -/
theorem freeing_goto (k : Option (Task Obj Addr)) :
    (c.goto t k).freeing x + ((c.tasks t).any (Task.frees x)).toNat =
      c.freeing x + (k.any (Task.frees x)).toNat :=
  tally_update c.tasks (Task.frees x) t k

/-- The counter of a block counts its references, and the block without any is about to be freed
by one method. -/
def Counted (c : Strings Obj Thread Addr) (a : Addr) : Prop :=
  match c.heap a with
  | none => c.refs a = 0 ∧ c.freeing a = 0
  | some b => b.counter.toNat = c.refs a ∧ (c.freeing a = if c.refs a = 0 then 1 else 0) ∧
      b.size = getAllocatedLength b.len.toNat ∧ b.len.toNat = b.content.length

/-- A method under way fits the objects: its target is not there, its source is, unchanged, and
stands for the value that the target is to have. -/
structure Fits (c : Strings Obj Thread Addr) (values : Obj → Option Bytes) (k : Task Obj Addr) :
    Prop where
  target : ∀ d, k.target = some d → c.objects d = none
  source : ∀ s, k.source = some s → (c.objects s).isSome
  relies : ∀ s str, k.source = some s → k.reliesOn = some str → c.objects s = some str
  value : ∀ d s, k.target = some d → k.source = some s → values d = values s

/-- The invariant, with the values that the objects stand for. -/
structure Sound (c : Strings Obj Thread Addr) (values : Obj → Option Bytes) : Prop where
  fault : c.fault = false
  counted : ∀ a, c.Counted a
  fits : ∀ t k, c.tasks t = some k → c.Fits values k
  distinct : ∀ t t' k k' d, c.tasks t = some k → c.tasks t' = some k' → k.target = some d →
    k'.target = some d → t = t'
  value : ∀ o str, c.objects o = some str → ∃ v, c.content str = some v ∧ values o = some v
  absent : ∀ o, c.objects o = none → c.Unwritten o → values o = none

/-- What a call means for the values. -/
def nextValues (values : Obj → Option Bytes) : Event Obj Thread Addr → Obj → Option Bytes
  | .create _ d str _ =>
    if maxSize < str.length then values else Function.update values d (some str)
  | .copy _ d s => Function.update values d (values s)
  | .move _ d s => Function.update (Function.update values d (values s)) s (some [])
  | .assign _ d s => Function.update values d (values s)
  | .swap _ d s => Function.update (Function.update values d (values s)) s (values d)
  | .destroy _ d => Function.update values d none
  | .advance _ => values

variable {values values' : Obj → Option Bytes} {c' : Strings Obj Thread Addr}

/-- An object is unwritten if no task has it as its target. -/
theorem unwritten_iff : c.Unwritten o ↔ ∀ t k, c.tasks t = some k → k.target ≠ some o := by
  simp [Unwritten, Option.all_eq_true]

/-- It is unread if no task has it as its source. -/
theorem unread_iff : c.Unread o ↔ ∀ t k, c.tasks t = some k → k.source ≠ some o := by
  simp [Unread, Option.all_eq_true]

/-- A block keeps its count where neither it nor its references change. -/
theorem Counted.of_eq (h : c.Counted x) (hheap : c'.heap x = c.heap x) (hrefs : c'.refs x = c.refs x)
    (hfreeing : c'.freeing x = c.freeing x) : c'.Counted x := by
  unfold Counted at h ⊢
  rwa [hheap, hrefs, hfreeing]

/-- A block is counted by its references. -/
theorem Counted.of_block {b : Block} (ha : c.heap a = some b) (hcounter : b.counter.toNat = c.refs a)
    (hfreeing : c.freeing a = if c.refs a = 0 then 1 else 0)
    (hsize : b.size = getAllocatedLength b.len.toNat) (hlen : b.len.toNat = b.content.length) :
    c.Counted a := by
  rw [Counted, ha]
  exact ⟨hcounter, hfreeing, hsize, hlen⟩

/-- Memory that is not in use has no references. -/
theorem counted_none_iff (ha : c.heap a = none) :
    c.Counted a ↔ c.refs a = 0 ∧ c.freeing a = 0 := by
  rw [Counted, ha]

/-- A block with a reference is there, and nobody is about to free it. -/
theorem Counted.live (h : c.Counted a) (hrefs : 0 < c.refs a) :
    ∃ b, c.heap a = some b ∧ b.counter.toNat = c.refs a ∧ c.freeing a = 0 ∧
      b.size = getAllocatedLength b.len.toNat ∧ b.len.toNat = b.content.length := by
  unfold Counted at h
  cases hb : c.heap a with
  | none =>
    rw [hb] at h
    omega
  | some b =>
    rw [hb] at h
    obtain ⟨hcounter, hfreeing, hsize⟩ := h
    rw [if_neg (by omega)] at hfreeing
    exact ⟨b, rfl, hcounter, hfreeing, hsize⟩

/-- A block about to be freed is there and has no reference. -/
theorem Counted.dead (h : c.Counted a) (hfreeing : 0 < c.freeing a) :
    ∃ b, c.heap a = some b ∧ c.refs a = 0 ∧ c.freeing a = 1 ∧
      b.size = getAllocatedLength b.len.toNat := by
  unfold Counted at h
  cases hb : c.heap a with
  | none =>
    rw [hb] at h
    omega
  | some b =>
    rw [hb] at h
    obtain ⟨-, hcount, hsize, -⟩ := h
    by_cases hzero : c.refs a = 0
    · rw [if_pos hzero] at hcount
      exact ⟨b, rfl, hzero, hcount, hsize⟩
    · rw [if_neg hzero] at hcount
      omega

/-- An object that points to a block is a reference. -/
theorem refs_pos_of_object (ho : c.objects o = some (some a)) : 0 < c.refs a := by
  have hobject : 0 < tally c.objects fun str => decide (str = some a) :=
    tally_pos.mpr ⟨o, some a, ho, by simp⟩
  rw [refs]
  omega

/-- A method that holds a block is a reference. -/
theorem refs_pos_of_task {k : Task Obj Addr} (hk : c.tasks t = some k) (hholds : k.holds a = true) :
    0 < c.refs a := by
  have htask : 0 < tally c.tasks (Task.holds a) := tally_pos.mpr ⟨t, k, hk, hholds⟩
  rw [refs]
  omega

/-- What a step of one thread has to show: the methods of the other threads see nothing of it. -/
theorem Sound.of_step (h : c.Sound values) (t : Thread) (hfault : c'.fault = false)
    (hcounted : ∀ a, c'.Counted a) (htasks : ∀ t', t' ≠ t → c'.tasks t' = c.tasks t')
    (hothers : ∀ t' k o, t' ≠ t → c.tasks t' = some k → k.target = some o ∨ k.source = some o →
      c'.objects o = c.objects o ∧ values' o = values o)
    (hown : ∀ k, c'.tasks t = some k → c'.Fits values' k ∧
      ∀ d t' k', k.target = some d → t' ≠ t → c.tasks t' = some k' → k'.target ≠ some d)
    (hvalue : ∀ o str, c'.objects o = some str →
      ∃ v, c'.content str = some v ∧ values' o = some v)
    (habsent : ∀ o, c'.objects o = none → c'.Unwritten o → values' o = none) :
    c'.Sound values' := by
  refine ⟨hfault, hcounted, ?_, ?_, hvalue, habsent⟩
  · intro t' k hk
    by_cases ht : t' = t
    · subst ht
      exact (hown k hk).1
    · rw [htasks t' ht] at hk
      have hfits := h.fits t' k hk
      have htarget := fun o ho => hothers t' k o ht hk (.inl ho)
      have hsource := fun o ho => hothers t' k o ht hk (.inr ho)
      refine ⟨fun d hd => ?_, fun s hs => ?_, fun s str hs hstr => ?_, fun d s hd hs => ?_⟩
      · rw [(htarget d hd).1, hfits.target d hd]
      · rw [(hsource s hs).1]
        exact hfits.source s hs
      · rw [(hsource s hs).1, hfits.relies s str hs hstr]
      · rw [(htarget d hd).2, (hsource s hs).2, hfits.value d s hd hs]
  · intro t₁ t₂ k₁ k₂ d hk₁ hk₂ hd₁ hd₂
    by_cases ht₁ : t₁ = t
    · by_cases ht₂ : t₂ = t
      · exact ht₁.trans ht₂.symm
      · subst ht₁
        rw [htasks t₂ ht₂] at hk₂
        exact absurd hd₂ ((hown k₁ hk₁).2 d t₂ k₂ hd₁ ht₂ hk₂)
    · rw [htasks t₁ ht₁] at hk₁
      by_cases ht₂ : t₂ = t
      · subst ht₂
        exact absurd hd₁ ((hown k₂ hk₂).2 d t₁ k₁ hd₂ ht₁ hk₁)
      · rw [htasks t₂ ht₂] at hk₂
        exact h.distinct t₁ t₂ k₁ k₂ d hk₁ hk₂ hd₁ hd₂

/-- The methods under way have nothing to do with a new object. -/
theorem Sound.apart_of_fresh (h : c.Sound values) (hd : c.objects d = none) (hnew : c.Unwritten d)
    {t' : Thread} {k : Task Obj Addr} (hk : c.tasks t' = some k)
    (ho : k.target = some o ∨ k.source = some o) : o ≠ d := by
  rintro rfl
  rcases ho with htarget | hsource
  · exact unwritten_iff.mp hnew t' k hk htarget
  · have hlive := (h.fits t' k hk).source o hsource
    simp [hd] at hlive

/-- The methods under way have nothing to do with an object that none of them reads. -/
theorem Sound.apart_of_unread (h : c.Sound values) {str : Option Addr} (hd : c.objects d = some str)
    (hunread : c.Unread d) {t' : Thread} {k : Task Obj Addr} (hk : c.tasks t' = some k)
    (ho : k.target = some o ∨ k.source = some o) : o ≠ d := by
  rintro rfl
  rcases ho with htarget | hsource
  · have hgone := (h.fits t' k hk).target o htarget
    simp [hd] at hgone
  · exact unread_iff.mp hunread t' k hk hsource

/-- The other methods have nothing to do with the target of a method. -/
theorem Sound.apart_of_target (h : c.Sound values) {k : Task Obj Addr} (hk : c.tasks t = some k)
    (hd : k.target = some d) {t' : Thread} {k' : Task Obj Addr} (ht : t' ≠ t)
    (hk' : c.tasks t' = some k') (ho : k'.target = some o ∨ k'.source = some o) : o ≠ d := by
  rintro rfl
  rcases ho with htarget | hsource
  · exact ht (h.distinct t' t k' k o hk' hk htarget hd)
  · have hgone := (h.fits t k hk).target o hd
    have hlive := (h.fits t' k' hk').source o hsource
    simp [hgone] at hlive

/-- An object has one value. -/
theorem Sound.content (h : c.Sound values) {str : Option Addr} (ho : c.objects o = some str) :
    c.content str = values o := by
  obtain ⟨v, hcontent, hv⟩ := h.value o str ho
  rw [hcontent, hv]

/-- Memory that is not in use is nobody's string. -/
theorem content_store_new {str : Option Addr} {v : Bytes} (ha : c.heap a = none) (b : Option Block)
    (hv : c.content str = some v) : (c.store a b).content str = some v := by
  cases str with
  | none => exact hv
  | some a' =>
    have hne : a' ≠ a := by
      rintro rfl
      simp [Strings.content, ha] at hv
    simpa [Strings.content, store, Function.update_of_ne hne] using hv

/-- The counter is not part of the string. -/
theorem content_store_counter {str : Option Addr} {b b' : Block} (ha : c.heap a = some b)
    (hsame : b'.content = b.content) : (c.store a (some b')).content str = c.content str := by
  cases str with
  | none => rfl
  | some a' =>
    by_cases hne : a' = a
    · subst hne
      simp [Strings.content, store, ha, hsame]
    · simp [Strings.content, store, Function.update_of_ne hne]

/-- What a step has to show that leaves the methods under way as they are. -/
theorem Sound.of_objects (h : c.Sound values) (hidle : c.tasks t = none) (hfault : c'.fault = c.fault)
    (hcounted : ∀ a, c'.Counted a) (htasks : c'.tasks = c.tasks)
    (hothers : ∀ t' k o, c.tasks t' = some k → k.target = some o ∨ k.source = some o →
      c'.objects o = c.objects o ∧ values' o = values o)
    (hvalue : ∀ o str, c'.objects o = some str →
      ∃ v, c'.content str = some v ∧ values' o = some v)
    (habsent : ∀ o, c'.objects o = none → c.Unwritten o → values' o = none) :
    c'.Sound values' := by
  refine h.of_step t (hfault.trans h.fault) hcounted (fun t' _ => by rw [htasks])
    (fun t' k o _ => hothers t' k o) (fun k hk => ?_) hvalue fun o ho hunwritten => ?_
  · rw [htasks, hidle] at hk
    cases hk
  · refine habsent o ho ?_
    rw [Unwritten, ← htasks]
    exact hunwritten

/-- The references after an object was pointed elsewhere. -/
theorem refs_point_eq (old str : Option (Option Addr)) (hold : c.objects d = old) :
    (c.point d str).refs x + (if old = some (some x) then 1 else 0) =
      c.refs x + if str = some (some x) then 1 else 0 := by
  have hpoint := refs_point (c := c) (d := d) (x := x) str
  rw [hold] at hpoint
  have hcount : ∀ p : Option (Option Addr), (p.any fun str => decide (str = some x)).toNat =
      if p = some (some x) then 1 else 0 := by
    intro p
    cases p with
    | none => rfl
    | some p => by_cases hp : p = some x <;> simp [hp]
  rwa [hcount, hcount] at hpoint

/-- A new object with characters of its own. -/
theorem Sound.create (h : c.Sound values) {str : Bytes} (hidle : c.tasks t = none)
    (hd : c.objects d = none) (hnew : c.Unwritten d) (hlength : str.length ≤ maxSize)
    (ha : c.heap a = none) :
    ((c.store a (some (Block.new str))).point d (some (some a))).Sound
      (Function.update values d (some str)) := by
  have hrefs : ∀ x, ((c.store a (some (Block.new str))).point d (some (some a))).refs x =
      c.refs x + if x = a then 1 else 0 := by
    intro x
    have hpoint := refs_point_eq (c := c.store a (some (Block.new str))) (x := x) none
      (some (some a)) hd
    by_cases hx : a = x
    · simpa [hx] using hpoint
    · simpa [hx, Ne.symm hx] using hpoint
  obtain ⟨hzero, hfreeing⟩ := (counted_none_iff ha).mp (h.counted a)
  refine h.of_objects hidle rfl (fun x => ?_) rfl (fun t' k o hk ho => ?_) (fun o str' ho => ?_)
    fun o ho hunwritten => ?_
  · by_cases hx : x = a
    · subst hx
      have hlen : (UInt32.ofNat str.length).toNat = str.length := by
        rw [maxSize] at hlength
        exact UInt32.toNat_ofNat_of_lt' (show str.length < 2 ^ 32 by omega)
      refine .of_block (b := Block.new str) (by simp [point, store]) ?_ ?_ ?_ hlen
      · rw [hrefs, if_pos rfl, hzero]
        rfl
      · rw [hrefs, if_pos rfl, hzero]
        exact hfreeing
      · exact congrArg getAllocatedLength hlen.symm
    · apply (h.counted x).of_eq
      · simp [point, store, Function.update_of_ne hx]
      · rw [hrefs, if_neg hx, Nat.add_zero]
      · rfl
  · have hne := h.apart_of_fresh hd hnew hk ho
    simp [point, store, Function.update_of_ne hne]
  · by_cases hne : o = d
    · subst hne
      simp only [point, Function.update_self, Option.some.injEq] at ho ⊢
      subst ho
      exact ⟨str, by simp [Strings.content, store, Block.new], rfl⟩
    · simp only [point, store, Function.update_of_ne hne] at ho ⊢
      obtain ⟨v, hcontent, hv⟩ := h.value o str' ho
      exact ⟨v, content_store_new ha _ hcontent, hv⟩
  · have hne : o ≠ d := by
      rintro rfl
      simp [point] at ho
    rw [Function.update_of_ne hne]
    simp only [point, store, Function.update_of_ne hne] at ho
    exact h.absent o ho hunwritten

/-- A new empty object. -/
theorem Sound.create_empty (h : c.Sound values) (hidle : c.tasks t = none)
    (hd : c.objects d = none) (hnew : c.Unwritten d) :
    (c.point d (some none)).Sound (Function.update values d (some [])) := by
  refine h.of_objects hidle rfl (fun x => ?_) rfl (fun t' k o hk ho => ?_) (fun o str ho => ?_)
    fun o ho hunwritten => ?_
  · refine (h.counted x).of_eq rfl ?_ rfl
    simpa using refs_point_eq (c := c) (x := x) none (some none) hd
  · have hne := h.apart_of_fresh hd hnew hk ho
    simp [point, Function.update_of_ne hne]
  · by_cases hne : o = d
    · subst hne
      simp only [point, Function.update_self, Option.some.injEq] at ho ⊢
      subst ho
      exact ⟨[], rfl, rfl⟩
    · simp only [point, Function.update_of_ne hne] at ho ⊢
      exact h.value o str ho
  · have hne : o ≠ d := by
      rintro rfl
      simp [point] at ho
    rw [Function.update_of_ne hne]
    simp only [point, Function.update_of_ne hne] at ho
    exact h.absent o ho hunwritten

/-- Two objects exchange what they point to, or a new one takes it over from another. -/
theorem Sound.exchange (h : c.Sound values) (hidle : c.tasks t = none) {old str : Option Addr}
    (hd : c.objects d = some old) (hs : c.objects s = some str) (hunread : c.Unread d)
    (hunread' : c.Unread s) :
    ((c.point d (some str)).point s (some old)).Sound
      (Function.update (Function.update values d (values s)) s (values d)) := by
  refine h.of_objects hidle rfl (fun x => ?_) rfl (fun t' k o hk ho => ?_) (fun o str' ho => ?_)
    fun o ho hunwritten => ?_
  · refine (h.counted x).of_eq rfl ?_ rfl
    have hmoved : (c.point d (some str)).objects s = some str := by
      by_cases hsame : s = d
      · subst hsame
        simp [point]
      · simp [point, Function.update_of_ne hsame, hs]
    have hfirst := refs_point_eq (x := x) _ (some str) hd
    have hsecond := refs_point_eq (x := x) _ (some old) hmoved
    omega
  · have hned := h.apart_of_unread hd hunread hk ho
    have hnes := h.apart_of_unread hs hunread' hk ho
    simp [point, Function.update_of_ne hned, Function.update_of_ne hnes]
  · by_cases hos : o = s
    · subst hos
      simp only [point, Function.update_self, Option.some.injEq] at ho ⊢
      subst ho
      obtain ⟨v, hv, hvalue⟩ := h.value d old hd
      exact ⟨v, hv, hvalue⟩
    · by_cases hod : o = d
      · subst hod
        simp only [point, Function.update_of_ne hos, Function.update_self, Option.some.injEq]
          at ho ⊢
        subst ho
        exact h.value s str hs
      · simp only [point, Function.update_of_ne hos, Function.update_of_ne hod] at ho ⊢
        exact h.value o str' ho
  · have hos : o ≠ s := by
      rintro rfl
      simp [point] at ho
    have hod : o ≠ d := by
      rintro rfl
      simp [point, Function.update_of_ne hos] at ho
    rw [Function.update_of_ne hos, Function.update_of_ne hod]
    simp only [point, Function.update_of_ne hos, Function.update_of_ne hod] at ho
    exact h.absent o ho hunwritten

/-- A new object takes over the string of another one, which is empty from then on. -/
theorem Sound.takeover (h : c.Sound values) (hidle : c.tasks t = none) {str : Option Addr}
    (hd : c.objects d = none) (hs : c.objects s = some str) (hnew : c.Unwritten d)
    (hunread : c.Unread s) :
    ((c.point d (some str)).point s (some none)).Sound
      (Function.update (Function.update values d (values s)) s (some [])) := by
  have hempty := h.create_empty hidle hd hnew
  have hne : s ≠ d := by
    rintro rfl
    simp [hd] at hs
  have hhere : (c.point d (some none)).objects d = some none := by simp [point]
  have hthere : (c.point d (some none)).objects s = some str := by
    simp [point, Function.update_of_ne hne, hs]
  have hexchange := hempty.exchange hidle hhere hthere ?_ hunread
  · simpa [point, Function.update_of_ne hne] using hexchange
  · -- a method that reads the new object would need it to be there
    refine unread_iff.mpr fun t' k hk hsource => ?_
    have hlive := (h.fits t' k hk).source d hsource
    simp [hd] at hlive

/-- A method that goes on: its objects stay the same, and only counters change. -/
theorem Sound.of_proceed (h : c.Sound values) {k : Task Obj Addr} (hk : c.tasks t = some k)
    (next : Option (Task Obj Addr)) (hfault : c'.fault = false) (hobjects : c'.objects = c.objects)
    (htasks : c'.tasks = Function.update c.tasks t next) (hcounted : ∀ a, c'.Counted a)
    (hcontent : ∀ o str, c.objects o = some str → c'.content str = c.content str)
    (hnext : ∀ k', next = some k' → k'.target = k.target ∧ k'.source = k.source ∧
      ∀ s str, k'.source = some s → k'.reliesOn = some str → c.objects s = some str)
    (hdone : next = none → k.target = none) : c'.Sound values := by
  have hfits := h.fits t k hk
  have hself : c'.tasks t = next := by rw [htasks, Function.update_self]
  have hother : ∀ t', t' ≠ t → c'.tasks t' = c.tasks t' := fun t' ht => by
    rw [htasks, Function.update_of_ne ht]
  refine h.of_step t hfault hcounted hother (fun _ _ o _ _ _ => ⟨by rw [hobjects], rfl⟩)
    (fun k' hk' => ?_) (fun o str ho => ?_) fun o ho hunwritten => ?_
  · rw [hself] at hk'
    obtain ⟨htarget, hsource, hrelies⟩ := hnext k' hk'
    refine ⟨⟨fun d hd => ?_, fun s hs => ?_, fun s str hs hstr => ?_, fun d s hd hs => ?_⟩,
      fun d t' k'' hd ht hk'' htarget' => ?_⟩
    · rw [hobjects, hfits.target d (htarget ▸ hd)]
    · rw [hobjects]
      exact hfits.source s (hsource ▸ hs)
    · rw [hobjects]
      exact hrelies s str hs hstr
    · exact hfits.value d s (htarget ▸ hd) (hsource ▸ hs)
    · exact ht (h.distinct t' t k'' k d hk'' hk htarget' (htarget ▸ hd))
  · rw [hobjects] at ho
    rw [hcontent o str ho]
    exact h.value o str ho
  · rw [hobjects] at ho
    refine h.absent o ho (unwritten_iff.mpr fun t' k' hk' htarget => ?_)
    by_cases ht : t' = t
    · subst ht
      rw [hk] at hk'
      cases hk'
      cases hnext' : next with
      | none => simp [hdone hnext'] at htarget
      | some k' =>
        rw [← (hnext k' hnext').1] at htarget
        exact unwritten_iff.mp hunwritten t' k' (hself.trans hnext') htarget
    · exact unwritten_iff.mp hunwritten t' k' ((hother t' ht).trans hk') htarget

/-- An object that makes way: a method starts that is to give it another string, or none. -/
theorem Sound.of_leave (h : c.Sound values) (hidle : c.tasks t = none) {old : Option Addr}
    (hd : c.objects d = some old) (hunread : c.Unread d) (value : Option Bytes)
    (next : Option (Task Obj Addr))
    (hcounted : ∀ a, ((c.point d none).goto t next).Counted a)
    (hnext : ∀ k, next = some k → ∀ o, k.target = some o → o = d)
    (hsource : ∀ k, next = some k → ∀ s, k.source = some s → s ≠ d ∧ values s = value ∧
      ∃ str, c.objects s = some str ∧ ∀ str', k.reliesOn = some str' → str = str')
    (hvalue : value = none ∨ ∃ k, next = some k ∧ k.target = some d) :
    ((c.point d none).goto t next).Sound (Function.update values d value) := by
  refine h.of_step t h.fault hcounted (fun t' ht => ?_) (fun t' k o _ hk ho => ?_)
    (fun k hk => ?_) (fun o str ho => ?_) fun o ho hunwritten => ?_
  · simp [goto, point, Function.update_of_ne ht]
  · have hne := h.apart_of_unread hd hunread hk ho
    simp [goto, point, Function.update_of_ne hne]
  · simp only [goto, Function.update_self] at hk
    refine ⟨⟨fun o ho => ?_, fun s hs => ?_, fun s str hs hstr => ?_, fun o s ho hs => ?_⟩,
      fun o t' k' ho ht hk' hk'o => ?_⟩
    · simp [hnext k hk o ho, goto, point]
    · obtain ⟨hne, -, str, hlive, -⟩ := hsource k hk s hs
      simp [goto, point, Function.update_of_ne hne, hlive]
    · obtain ⟨hne, -, str', hlive, hrelies⟩ := hsource k hk s hs
      simp [goto, point, Function.update_of_ne hne, hlive, hrelies str hstr]
    · obtain ⟨hne, hv, -⟩ := hsource k hk s hs
      rw [hnext k hk o ho, Function.update_self, Function.update_of_ne hne, hv]
    · have hgone := (h.fits t' k' hk').target o hk'o
      rw [hnext k hk o ho, hd] at hgone
      simp at hgone
  · have hne : o ≠ d := by
      rintro rfl
      simp [goto, point] at ho
    simp only [goto, point, Function.update_of_ne hne] at ho ⊢
    exact h.value o str ho
  · by_cases hne : o = d
    · subst hne
      rw [Function.update_self]
      rcases hvalue with hnone | ⟨k, hk, htarget⟩
      · exact hnone
      · exact absurd htarget (unwritten_iff.mp hunwritten t k (by simp [goto, hk]))
    · rw [Function.update_of_ne hne]
      simp only [goto, point, Function.update_of_ne hne] at ho
      refine h.absent o ho (unwritten_iff.mpr fun t' k' hk' => ?_)
      have ht : t' ≠ t := by
        rintro rfl
        simp [hidle] at hk'
      exact unwritten_iff.mp hunwritten t' k' (by simp [goto, point, Function.update_of_ne ht, hk'])

/-- A method that ends: its target points to the string of its source. -/
theorem Sound.of_finish (h : c.Sound values) {k : Task Obj Addr} (hk : c.tasks t = some k)
    (htarget : k.target = some d) (hsource : k.source = some s) {str : Option Addr}
    (hs : c.objects s = some str) (hfault : c'.fault = false)
    (hobjects : c'.objects = Function.update c.objects d (some str))
    (htasks : c'.tasks = Function.update c.tasks t none) (hcounted : ∀ a, c'.Counted a)
    (hcontent : ∀ o str, c.objects o = some str → c'.content str = c.content str) :
    c'.Sound values := by
  have hvalue := (h.fits t k hk).value d s htarget hsource
  refine h.of_step t hfault hcounted (fun t' ht => ?_) (fun t' k' o ht hk' ho => ?_)
    (fun k' hk' => ?_) (fun o str' ho => ?_) fun o ho hunwritten => ?_
  · rw [htasks, Function.update_of_ne ht]
  · rw [hobjects, Function.update_of_ne (h.apart_of_target hk htarget ht hk' ho)]
    exact ⟨rfl, rfl⟩
  · rw [htasks, Function.update_self] at hk'
    cases hk'
  · rw [hobjects] at ho
    by_cases hne : o = d
    · subst hne
      rw [Function.update_self, Option.some.injEq] at ho
      subst ho
      rw [hcontent s str hs, hvalue]
      exact h.value s str hs
    · rw [Function.update_of_ne hne] at ho
      rw [hcontent o str' ho]
      exact h.value o str' ho
  · have hne : o ≠ d := by
      rintro rfl
      simp [hobjects] at ho
    rw [hobjects, Function.update_of_ne hne] at ho
    refine h.absent o ho (unwritten_iff.mpr fun t' k' hk' htarget' => ?_)
    by_cases ht : t' = t
    · subst ht
      rw [hk] at hk'
      cases hk'
      exact hne (Option.some.inj (htarget'.symm.trans htarget))
    · exact unwritten_iff.mp hunwritten t' k' (by rw [htasks, Function.update_of_ne ht, hk'])
        htarget'

/-- Where a method that gives up a string goes on. -/
def nextTask (c : Strings Obj Thread Addr) : Option (Obj × Obj) → Option (Task Obj Addr)
  | none => none
  | some (d, s) => (c.objects s).map (.load d s)

/-- An assignment goes on with its next task. -/
theorem resume_eq {assign : Option (Obj × Obj)}
    (hlive : ∀ d s, assign = some (d, s) → (c.objects s).isSome) :
    c.resume t assign = c.goto t (c.nextTask assign) := by
  cases assign with
  | none => rfl
  | some pair =>
    obtain ⟨d, s⟩ := pair
    obtain ⟨str, hs⟩ := Option.isSome_iff_exists.mp (hlive d s rfl)
    simp [resume, nextTask, hs]

/-- A method that goes on to load a counter holds no reference and frees nothing. -/
theorem nextTask_weight (assign : Option (Obj × Obj)) :
    (c.nextTask assign).any (Task.holds x) = false ∧
      (c.nextTask assign).any (Task.frees x) = false := by
  cases assign with
  | none => exact ⟨rfl, rfl⟩
  | some pair => cases hs : c.objects pair.2 <;> simp [nextTask, hs, Task.holds, Task.frees]

/-- What follows a method that gave up a string is about the same objects. -/
theorem nextTask_same {assign : Option (Obj × Obj)} {k : Task Obj Addr}
    (htarget : k.target = assign.map Prod.fst) (hsource : k.source = assign.map Prod.snd)
    (hlive : ∀ d s, assign = some (d, s) → (c.objects s).isSome) :
    (∀ k', c.nextTask assign = some k' → k'.target = k.target ∧ k'.source = k.source ∧
      ∀ s str, k'.source = some s → k'.reliesOn = some str → c.objects s = some str) ∧
    (c.nextTask assign = none → k.target = none) := by
  cases assign with
  | none => exact ⟨fun k' hk' => absurd hk' (by simp [nextTask]), fun _ => htarget⟩
  | some pair =>
    obtain ⟨d, s⟩ := pair
    obtain ⟨str, hs⟩ := Option.isSome_iff_exists.mp (hlive d s rfl)
    constructor
    · intro k' hk'
      simp only [nextTask, hs, Option.map_some, Option.some.injEq] at hk'
      subst hk'
      refine ⟨htarget.symm, hsource.symm, fun s' str' hs' hstr' => ?_⟩
      simp only [Task.source, Option.some.injEq] at hs'
      simp only [Task.reliesOn, Option.some.injEq] at hstr'
      rw [← hs', ← hstr', hs]
    · intro hnone
      simp [nextTask, hs] at hnone

/-- The source of a method under way is there. -/
theorem Sound.assign_live (h : c.Sound values) {k : Task Obj Addr} (hk : c.tasks t = some k)
    (assign : Option (Obj × Obj)) (hsource : k.source = assign.map Prod.snd) :
    ∀ d s, assign = some (d, s) → (c.objects s).isSome := by
  rintro d s rfl
  exact (h.fits t k hk).source s hsource

/-- The references after a method goes on. -/
theorem weights_goto {k : Task Obj Addr} (hk : c.tasks t = some k) (next : Option (Task Obj Addr)) :
    (c.goto t next).refs x + (k.holds x).toNat = c.refs x + (next.any (Task.holds x)).toNat ∧
      (c.goto t next).freeing x + (k.frees x).toNat =
        c.freeing x + (next.any (Task.frees x)).toNat := by
  have hrefs := refs_goto (c := c) (t := t) (x := x) next
  have hfreeing := freeing_goto (c := c) (t := t) (x := x) next
  rw [hk] at hrefs hfreeing
  exact ⟨hrefs, hfreeing⟩

/-- `add`: one more reference, counted before the object is there. -/
theorem Sound.access_add (h : c.Sound values) (hbound : ∀ b, c.heap a = some b → b.counter.toNat + 1 < 2 ^ 32)
    (hk : c.tasks t = some (.add d s a)) : (c.access t (.add d s a)).Sound values := by
  have hs : c.objects s = some (some a) := (h.fits t _ hk).relies s (some a) rfl rfl
  have hd : c.objects d = none := (h.fits t _ hk).target d rfl
  obtain ⟨b, hb, hcounter, hfreeing, hsize, hlen⟩ := (h.counted a).live (refs_pos_of_object hs)
  have hpos := refs_pos_of_object hs
  have hless := hbound b hb
  simp only [access, hb]
  refine h.of_finish hk rfl rfl hs h.fault rfl rfl (fun x => ?_) fun o str ho => ?_
  · have hgoto := weights_goto (c := c.store a (some b.fetchAdd)) (x := x) hk none
    have hpoint := refs_point_eq (c := (c.store a (some b.fetchAdd)).goto t none) (x := x) none
      (some (some a)) hd
    simp only [Task.holds, Task.frees, Bool.toNat_false, Option.any_none, refs_store,
      freeing_store, Nat.add_zero] at hgoto
    by_cases hx : x = a
    · subst hx
      rw [if_pos rfl, if_neg (by simp), Nat.add_zero, hgoto.1] at hpoint
      refine .of_block (b := b.fetchAdd) (by simp [point, goto, store]) ?_ ?_ hsize hlen
      · rw [hpoint, ← hcounter, Block.fetchAdd, UInt32.toNat_add]
        exact Nat.mod_eq_of_lt hless
      · rw [hpoint, if_neg (by omega), freeing_point, hgoto.2, hfreeing]
    · rw [if_neg (by simp), if_neg (by simpa using Ne.symm hx), Nat.add_zero, Nat.add_zero, hgoto.1]
        at hpoint
      refine (h.counted x).of_eq ?_ hpoint ?_
      · simp [point, goto, store, Function.update_of_ne hx]
      · rw [freeing_point, hgoto.2]
  · exact content_store_counter hb rfl

/-- `load` finds a counter above zero, unless the string is empty. -/
theorem Sound.access_load (h : c.Sound values) {str : Option Addr}
    (hk : c.tasks t = some (.load d s str)) : (c.access t (.load d s str)).Sound values := by
  have hs : c.objects s = some str := (h.fits t _ hk).relies s str rfl rfl
  have hd : c.objects d = none := (h.fits t _ hk).target d rfl
  cases str with
  | none =>
    refine h.of_finish hk rfl rfl hs h.fault rfl rfl (fun x => ?_) fun _ _ _ => rfl
    have hgoto := weights_goto (x := x) hk none
    have hpoint := refs_point_eq (c := c.goto t none) (x := x) none (some none) hd
    simp only [Task.holds, Task.frees, Bool.toNat_false, Option.any_none, Nat.add_zero] at hgoto
    rw [if_neg (by simp), if_neg (by simp), Nat.add_zero, Nat.add_zero, hgoto.1] at hpoint
    refine (h.counted x).of_eq rfl hpoint ?_
    rw [access, freeing_point, hgoto.2]
  | some a =>
    have hpos := refs_pos_of_object hs
    obtain ⟨b, hb, hcounter, -⟩ := (h.counted a).live hpos
    have hcount : 0 < b.counter := UInt32.lt_iff_toNat_lt.mpr (hcounter ▸ hpos)
    simp only [access, hb]
    rw [if_pos hcount]
    refine h.of_proceed hk (some (.add d s a)) h.fault rfl rfl (fun x => ?_) (fun _ _ _ => rfl)
      (fun k' hk' => ?_) fun hnone => by simp at hnone
    · have hgoto := weights_goto (x := x) hk (some (.add d s a))
      simp only [Task.holds, Task.frees, Bool.toNat_false, Option.any_some, Nat.add_zero] at hgoto
      exact (h.counted x).of_eq rfl hgoto.1 hgoto.2
    · simp only [Option.some.injEq] at hk'
      subst hk'
      refine ⟨rfl, rfl, fun s' str' hs' hstr' => ?_⟩
      simp only [Task.source, Option.some.injEq] at hs'
      simp only [Task.reliesOn, Option.some.injEq] at hstr'
      rw [← hs', ← hstr', hs]

/-- `sub`: the last reference leaves the block to this method. -/
theorem Sound.access_sub (h : c.Sound values) {assign : Option (Obj × Obj)}
    (hbound : ∀ b, c.heap a = some b → b.counter.toNat + 1 < 2 ^ 32)
    (hk : c.tasks t = some (.sub a assign)) : (c.access t (.sub a assign)).Sound values := by
  have hpos : 0 < c.refs a := refs_pos_of_task hk (by simp [Task.holds])
  obtain ⟨b, hb, hcounter, hfreeing, hsize, hlen⟩ := (h.counted a).live hpos
  have hless := hbound b hb
  have hlive := h.assign_live hk assign rfl
  have hdecrement : b.fetchSub.counter.toNat = b.counter.toNat - 1 := by
    have hone : (1 : UInt32) ≤ b.counter := UInt32.le_iff_toNat_le.mpr (hcounter ▸ hpos)
    exact UInt32.toNat_sub_of_le _ _ hone
  have hlast_iff : b.counter = 1 ↔ b.counter.toNat = 1 := UInt32.toNat_inj.symm
  obtain ⟨next, hnext, hsame, hdone, hholds, hfrees⟩ : ∃ next,
      c.access t (.sub a assign) = (c.store a (some b.fetchSub)).goto t next ∧
      (∀ k', next = some k' → k'.target = (Task.sub a assign).target ∧
        k'.source = (Task.sub a assign).source ∧
        ∀ s str, k'.source = some s → k'.reliesOn = some str → c.objects s = some str) ∧
      (next = none → (Task.sub a assign : Task Obj Addr).target = none) ∧
      (∀ x, next.any (Task.holds x) = false) ∧
      ∀ x, next.any (Task.frees x) = decide (b.counter = 1 ∧ x = a) := by
    simp only [access, hb]
    by_cases hlast : b.counter = 1
    · refine ⟨some (.free a assign), by rw [if_pos hlast], fun k' hk' => ?_, by simp, fun x => rfl,
        fun x => ?_⟩
      · simp only [Option.some.injEq] at hk'
        subst hk'
        exact ⟨rfl, rfl, fun s str _ hstr => by simp [Task.reliesOn] at hstr⟩
      · simp [Task.frees, hlast, eq_comm]
    · have hresume := resume_eq (c := c.store a (some b.fetchSub)) (t := t) hlive
      obtain ⟨hsame, hdone⟩ := nextTask_same (c := c) (k := Task.sub a assign) rfl rfl hlive
      refine ⟨c.nextTask assign, ?_, hsame, hdone, fun x => (nextTask_weight assign).1, fun x => ?_⟩
      · rw [if_neg hlast, hresume]
        cases assign <;> rfl
      · rw [(nextTask_weight assign).2]
        simp [hlast]
  rw [hnext]
  refine h.of_proceed hk next h.fault rfl rfl (fun x => ?_) (fun o str ho => ?_) hsame hdone
  · obtain ⟨hrefs, hfreed⟩ := weights_goto (c := c.store a (some b.fetchSub)) (x := x) hk next
    rw [hholds, Bool.toNat_false, Nat.add_zero, refs_store] at hrefs
    rw [hfrees, freeing_store] at hfreed
    by_cases hx : x = a
    · subst hx
      have hrefs' : c.refs x = b.counter.toNat := hcounter.symm
      simp only [Task.holds, decide_true, Bool.toNat_true] at hrefs
      simp only [Task.frees, Bool.toNat_false, and_true] at hfreed
      refine .of_block (b := b.fetchSub) (by simp [goto, store]) ?_ ?_ hsize hlen
      · omega
      · by_cases hlast : b.counter = 1
        · have hone := hlast_iff.mp hlast
          rw [if_pos (by omega)]
          simpa [hlast, hfreeing] using hfreed
        · have hmore := mt hlast_iff.mpr hlast
          rw [if_neg (by omega)]
          simpa [hlast, hfreeing] using hfreed
    · simp only [Task.holds, decide_eq_false (Ne.symm hx), Bool.toNat_false, Nat.add_zero] at hrefs
      simp only [Task.frees, hx, and_false, decide_false, Bool.toNat_false, Nat.add_zero] at hfreed
      exact (h.counted x).of_eq (by simp [goto, store, Function.update_of_ne hx]) hrefs hfreed
  · exact content_store_counter hb rfl

/-- `free`: the block has no reference left, and its size is the one it was allocated with. -/
theorem Sound.access_free (h : c.Sound values) {assign : Option (Obj × Obj)}
    (hk : c.tasks t = some (.free a assign)) : (c.access t (.free a assign)).Sound values := by
  have hpos : 0 < c.freeing a := tally_pos.mpr ⟨t, _, hk, by simp [Task.frees]⟩
  obtain ⟨b, hb, hzero, hone, hsize⟩ := (h.counted a).dead hpos
  have hlive := h.assign_live hk assign rfl
  obtain ⟨hsame, hdone⟩ := nextTask_same (c := c) (k := Task.free a assign) rfl rfl hlive
  have hnext : c.access t (.free a assign) = (c.store a none).goto t (c.nextTask assign) := by
    simp only [access, hb]
    rw [if_pos hsize, resume_eq (c := c.store a none) (t := t) hlive]
    cases assign <;> rfl
  rw [hnext]
  refine h.of_proceed hk _ h.fault rfl rfl (fun x => ?_) (fun o str ho => ?_) hsame hdone
  · obtain ⟨hrefs, hfreed⟩ :=
      weights_goto (c := c.store a none) (x := x) hk (c.nextTask assign)
    rw [(nextTask_weight assign).1, refs_store] at hrefs
    rw [(nextTask_weight assign).2, freeing_store] at hfreed
    simp only [Task.holds, Task.frees, Bool.toNat_false, Nat.add_zero] at hrefs hfreed
    by_cases hx : x = a
    · subst hx
      rw [counted_none_iff (by simp [goto, store])]
      simp only [decide_true, Bool.toNat_true] at hfreed
      omega
    · simp only [decide_eq_false (Ne.symm hx), Bool.toNat_false, Nat.add_zero] at hfreed
      exact (h.counted x).of_eq (by simp [goto, store, Function.update_of_ne hx]) hrefs hfreed
  · cases str with
    | none => rfl
    | some a' =>
      have hne : a' ≠ a := by
        rintro rfl
        have hrefs := refs_pos_of_object ho
        omega
      simp [Strings.content, goto, store, Function.update_of_ne hne]

/-- A method that takes the string of an object over holds the reference from then on. -/
theorem Sound.counted_leave (h : c.Sound values) (hidle : c.tasks t = none) {old : Option Addr}
    (hd : c.objects d = some old) (next : Option (Task Obj Addr))
    (hholds : ∀ x, (next.any (Task.holds x)).toNat = if old = some x then 1 else 0)
    (hfrees : ∀ x, next.any (Task.frees x) = false) (x : Addr) :
    ((c.point d none).goto t next).Counted x := by
  have hgoto := refs_goto (c := c.point d none) (t := t) (x := x) next
  have hfreeing := freeing_goto (c := c.point d none) (t := t) (x := x) next
  have hpoint := refs_point_eq (x := x) _ none hd
  rw [show (c.point d none).tasks t = none from hidle] at hgoto hfreeing
  rw [hholds] at hgoto
  rw [hfrees] at hfreeing
  refine (h.counted x).of_eq rfl ?_ hfreeing
  simp only [Option.any_none, Bool.toNat_false, Nat.add_zero, Option.some.injEq, reduceCtorEq,
    if_false] at hgoto hpoint
  omega

/-- An object that is destroyed. -/
theorem Sound.destroy (h : c.Sound values) (hidle : c.tasks t = none) {old : Option Addr}
    (hd : c.objects d = some old) (hunread : c.Unread d) :
    ((c.point d none).release t old none).Sound (Function.update values d none) := by
  cases old with
  | none =>
    refine h.of_leave hidle hd hunread none none (h.counted_leave hidle hd none ?_ ?_) ?_ ?_ (.inl rfl)
    · simp
    · simp
    · simp
    · simp
  | some a =>
    refine h.of_leave hidle hd hunread none (some (.sub a none))
      (h.counted_leave hidle hd _ ?_ ?_) ?_ ?_ (.inl rfl)
    · intro x
      by_cases hx : a = x <;> simp [Task.holds, hx]
    · simp [Task.frees]
    · simp [Task.target]
    · simp [Task.source]

/-- An object that gives up its string for that of another object. -/
theorem Sound.assign (h : c.Sound values) (hidle : c.tasks t = none) {old str : Option Addr}
    (hd : c.objects d = some old) (hs : c.objects s = some str) (hunread : c.Unread d)
    (hne : old ≠ str) :
    ((c.point d none).release t old (some (d, s))).Sound
      (Function.update values d (values s)) := by
  have hsd : s ≠ d := by
    rintro rfl
    exact hne (Option.some.inj (hd.symm.trans hs))
  cases old with
  | none =>
    have hstr : (c.point d none).objects s = some str := by
      simp [point, Function.update_of_ne hsd, hs]
    simp only [release, resume, hstr]
    refine h.of_leave hidle hd hunread _ _ (h.counted_leave hidle hd _ ?_ ?_) ?_ ?_
      (.inr ⟨_, rfl, rfl⟩)
    · simp [Task.holds]
    · simp [Task.frees]
    · simp [Task.target]
    · simp [Task.source, Task.reliesOn, hsd, hs]
  | some a =>
    refine h.of_leave hidle hd hunread _ (some (.sub a (some (d, s))))
      (h.counted_leave hidle hd _ ?_ ?_) ?_ ?_ (.inr ⟨_, rfl, rfl⟩)
    · intro x
      by_cases hx : a = x <;> simp [Task.holds, hx]
    · simp [Task.frees]
    · simp [Task.target]
    · simp [Task.source, Task.reliesOn, hsd, hs]

/-- A new object that shares the string of another one. -/
theorem Sound.copy (h : c.Sound values) (hidle : c.tasks t = none) {str : Option Addr}
    (hd : c.objects d = none) (hs : c.objects s = some str) (hnew : c.Unwritten d) :
    (c.goto t (some (.load d s str))).Sound (Function.update values d (values s)) := by
  have hsd : s ≠ d := by
    rintro rfl
    simp [hd] at hs
  have hempty := h.create_empty hidle hd hnew
  have hunread : (c.point d (some none)).Unread d := unread_iff.mpr fun t' k hk hsource => by
    have hlive := (h.fits t' k hk).source d hsource
    simp [hd] at hlive
  have hhere : (c.point d (some none)).objects d = some none := by simp [point]
  have hback : (c.point d (some none)).point d none = c := by
    cases c
    simp only [point, Function.update_idem]
    rw [← hd, Function.update_eq_self]
  have hleave := hempty.of_leave hidle hhere hunread (values s) (some (.load d s str))
    (hempty.counted_leave hidle hhere _ ?_ ?_) ?_ ?_ (.inr ⟨_, rfl, rfl⟩)
  · rwa [hback, Function.update_idem] at hleave
  · simp [Task.holds]
  · simp [Task.frees]
  · simp [Task.target]
  · simp [Task.source, Task.reliesOn, point, hsd, hs]

/-- No counter is about to overflow. -/
def Unsaturated (c : Strings Obj Thread Addr) (_ : Event Obj Thread Addr) : Prop :=
  ∀ a b, c.heap a = some b → b.counter.toNat + 1 < 2 ^ 32

/-- Every call and access keeps the invariant. -/
theorem sound_step {e : Event Obj Thread Addr} (hbound : c.Unsaturated e)
    (hstep : c.step e = some c') (h : c.Sound values) : c'.Sound (nextValues values e) := by
  cases e with
  | create t d str a =>
    simp only [step] at hstep
    split at hstep
    · next hguard =>
      obtain ⟨hidle, hd, hnew⟩ := hguard
      rw [nextValues]
      by_cases hlong : maxSize < str.length
      · rw [if_pos hlong] at hstep ⊢
        cases hstep
        exact h
      · rw [if_neg hlong] at hstep ⊢
        split at hstep
        · next hempty =>
          cases hstep
          rw [hempty]
          exact h.create_empty hidle hd hnew
        · split at hstep
          · next ha =>
            cases hstep
            exact h.create hidle hd hnew (by omega) ha
          · cases hstep
    · cases hstep
  | copy t d s =>
    simp only [step] at hstep
    split at hstep
    · next hguard =>
      obtain ⟨hidle, hd, hnew⟩ := hguard
      obtain ⟨str, hs, rfl⟩ := Option.map_eq_some_iff.mp hstep
      exact h.copy hidle hd hs hnew
    · cases hstep
  | move t d s =>
    simp only [step] at hstep
    split at hstep
    · next hguard =>
      obtain ⟨hidle, hd, hnew, hunread⟩ := hguard
      obtain ⟨str, hs, rfl⟩ := Option.map_eq_some_iff.mp hstep
      exact h.takeover hidle hd hs hnew hunread
    · cases hstep
  | assign t d s =>
    simp only [step] at hstep
    split at hstep
    · next hguard =>
      obtain ⟨hidle, hunread⟩ := hguard
      cases hd : c.objects d with
      | none => simp [hd] at hstep
      | some old =>
        cases hs : c.objects s with
        | none => simp [hd, hs] at hstep
        | some str =>
          simp only [hd, hs] at hstep
          split at hstep
          · next hsame =>
            -- both have the same characters already
            cases hstep
            have hvalue : values s = values d := by
              rw [← h.content hs, ← h.content hd, hsame]
            rwa [nextValues, hvalue, Function.update_eq_self]
          · next hne =>
            cases hstep
            exact h.assign hidle hd hs hunread hne
    · cases hstep
  | swap t d s =>
    simp only [step] at hstep
    split at hstep
    · next hguard =>
      obtain ⟨hidle, hunread, hunread'⟩ := hguard
      cases hd : c.objects d with
      | none => simp [hd] at hstep
      | some old =>
        cases hs : c.objects s with
        | none => simp [hd, hs] at hstep
        | some str =>
          simp only [hd, hs, Option.some.injEq] at hstep
          subst hstep
          exact h.exchange hidle hd hs hunread hunread'
    · cases hstep
  | destroy t d =>
    simp only [step] at hstep
    split at hstep
    · next hguard =>
      obtain ⟨hidle, hunread⟩ := hguard
      obtain ⟨old, hd, rfl⟩ := Option.map_eq_some_iff.mp hstep
      exact h.destroy hidle hd hunread
    · cases hstep
  | advance t =>
    obtain ⟨k, hk, rfl⟩ := Option.map_eq_some_iff.mp hstep
    cases k with
    | load d s str => exact h.access_load hk
    | add d s a => exact h.access_add (hbound a) hk
    | sub a assign => exact h.access_sub (hbound a) hk
    | free a assign => exact h.access_free hk

/-- Nothing is allocated and there are no objects. -/
theorem sound_init : (init Obj Thread Addr).Sound fun _ => none := by
  refine ⟨rfl, fun a => ?_, ?_, ?_, ?_, fun _ _ _ => rfl⟩
  · rw [counted_none_iff rfl]
    exact ⟨by simp [refs, init, tally_none], by simp [freeing, init, tally_none]⟩
  · simp [init]
  · simp [init]
  · simp [init]

/-- The values after a sequence of calls. -/
def valuesOf (events : List (Event Obj Thread Addr)) : Obj → Option Bytes :=
  events.foldl nextValues fun _ => none

/-- The invariant holds after every run. -/
theorem sound_of_run {events : List (Event Obj Thread Addr)}
    (hrun : Run step Unsaturated (init Obj Thread Addr) events c) : c.Sound (valuesOf events) := by
  have hfrom : ∀ {c₁ c₂ : Strings Obj Thread Addr} {events : List (Event Obj Thread Addr)}
      {values : Obj → Option Bytes}, Run step Unsaturated c₁ events c₂ → c₁.Sound values →
      c₂.Sound (events.foldl nextValues values) := by
    intro c₁ c₂ events values hrun
    induction hrun generalizing values with
    | nil => exact id
    | cons hok hstep _ ih => exact fun h => ih (sound_step hok hstep h)
  exact hfrom hrun sound_init

/-- With no method under way only objects refer to blocks, and no block waits to be freed. -/
theorem refs_of_idle (hidle : ∀ t, c.tasks t = none) :
    c.refs a = (Finset.univ.filter fun o => c.objects o = some (some a)).card ∧
      c.freeing a = 0 := by
  have htasks : c.tasks = fun _ => none := funext hidle
  rw [refs, freeing, htasks, tally_none, tally_none, tally_eq_card]
  exact ⟨rfl, rfl⟩

/-- Two threads copy one string at the same time, and then the original is destroyed. -/
def racingCopies : List (Event (Fin 3) Bool Bool) :=
  [.create true 0 [104, 105] false, .copy true 1 0, .copy false 2 0, .advance true, .advance false,
    .advance false, .advance true, .destroy true 0, .advance true]

/-- One of the copies points to the block that the original had. -/
theorem racingCopies_run : ∃ c, Run step Unsaturated (init (Fin 3) Bool Bool) racingCopies c ∧
    c.objects 1 = some (some false) := by
  have hcheck : ∀ (c : Strings (Fin 3) Bool Bool) (e : Event (Fin 3) Bool Bool),
      decide (∀ a, (c.heap a).all fun b => decide (b.counter.toNat + 1 < 2 ^ 32)) = true →
        c.Unsaturated e := by
    intro c e hcheck a b hb
    have hall := of_decide_eq_true hcheck a
    simpa [hb] using hall
  have hexec : (execute step (fun c _ => decide (∀ a, (c.heap a).all fun b =>
      decide (b.counter.toNat + 1 < 2 ^ 32))) (init (Fin 3) Bool Bool) racingCopies).map
      (fun c => c.objects 1) = some (some (some false)) := by decide +kernel
  exact exists_run_of_execute hcheck hexec

/-- Whatever the interleaving, memory is not misused and an object points to a block that is
there. When no method is under way the blocks are those that objects point to, and their
counters are the numbers of these objects. -/
theorem shared_memory {events : List (Event Obj Thread Addr)}
    (hrun : Run step Unsaturated (init Obj Thread Addr) events c) :
    c.fault = false ∧
      (∀ o a, c.objects o = some (some a) → ∃ b, c.heap a = some b ∧ 0 < b.counter.toNat) ∧
      ((∀ t, c.tasks t = none) → ∀ a,
        ((c.heap a).isSome ↔ ∃ o, c.objects o = some (some a)) ∧
        ∀ b, c.heap a = some b → b.counter.toNat =
          (Finset.univ.filter fun o => c.objects o = some (some a)).card) := by
  have h := sound_of_run hrun
  have hlive : ∀ o a, c.objects o = some (some a) → ∃ b, c.heap a = some b ∧ 0 < b.counter.toNat := by
    intro o a ho
    have hpos := refs_pos_of_object ho
    obtain ⟨b, hb, hcounter, -⟩ := (h.counted a).live hpos
    exact ⟨b, hb, by omega⟩
  refine ⟨h.fault, hlive, fun hidle a => ?_⟩
  obtain ⟨hrefs, hfreeing⟩ := refs_of_idle (a := a) hidle
  have hcounted := h.counted a
  refine ⟨⟨fun hblock => ?_, fun hobject => ?_⟩, fun b hb => ?_⟩
  · obtain ⟨b, hb⟩ := Option.isSome_iff_exists.mp hblock
    rw [Counted, hb] at hcounted
    have hpos : 0 < c.refs a := by
      by_contra hzero
      rw [hfreeing, if_pos (by omega)] at hcounted
      simp at hcounted
    rw [hrefs, Finset.card_pos] at hpos
    obtain ⟨o, ho⟩ := hpos
    exact ⟨o, (Finset.mem_filter.mp ho).2⟩
  · obtain ⟨o, ho⟩ := hobject
    obtain ⟨b, hb, -⟩ := hlive o a ho
    simp [hb]
  · rw [Counted, hb] at hcounted
    exact hcounted.1.trans hrefs

/-- The copies keep the block of the destroyed original. -/
theorem shared_memory_copies : ∃ c : Strings (Fin 3) Bool Bool,
    c.fault = false ∧ ∃ b, c.heap false = some b ∧ 0 < b.counter.toNat := by
  obtain ⟨c, hrun, ho⟩ := racingCopies_run
  obtain ⟨hfault, hlive, -⟩ := shared_memory hrun
  exact ⟨c, hfault, hlive 1 false ho⟩

/-- Whatever the interleaving, an object has the characters that the calls gave it, and when no
method is under way there are the objects that the calls made. -/
theorem shared_values {events : List (Event Obj Thread Addr)}
    (hrun : Run step Unsaturated (init Obj Thread Addr) events c) :
    (∀ o str, c.objects o = some str →
      ∃ v, c.content str = some v ∧ valuesOf events o = some v) ∧
    ((∀ t, c.tasks t = none) → ∀ o, (c.objects o).isSome ↔ (valuesOf events o).isSome) := by
  have h := sound_of_run hrun
  refine ⟨h.value, fun hidle o => ?_⟩
  cases ho : c.objects o with
  | none =>
    have habsent := h.absent o ho (unwritten_iff.mpr fun t k hk => by simp [hidle] at hk)
    simp [habsent]
  | some str =>
    obtain ⟨v, -, hv⟩ := h.value o str ho
    simp [hv]

/-- A copy of the destroyed original has its characters. -/
theorem shared_values_copies : ∃ c : Strings (Fin 3) Bool Bool,
    c.content (some false) = some [104, 105] := by
  obtain ⟨c, hrun, ho⟩ := racingCopies_run
  obtain ⟨v, hcontent, hv⟩ := (shared_values hrun).1 1 _ ho
  have hvalues : valuesOf racingCopies 1 = some [104, 105] := by decide
  rw [hvalues] at hv
  exact ⟨c, hcontent.trans hv.symm⟩

end Strings

end Nplex.Deps
