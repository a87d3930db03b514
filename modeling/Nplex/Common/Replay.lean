import Mathlib.Logic.Function.Basic
import Mathlib.Data.List.Basic

/-!
# Exact change lists

A change list is exact between two contents when replaying it on the first gives the
second and every entry names the value it replaces. A content is a partial function from
keys to values. Two facts carry every use: a key that no entry names keeps its value, and
the first entry about a key names the value the key had at the start.
-/

namespace Nplex.Common

variable {K V : Type*} [DecidableEq K]

/-- One entry of a change list: the key, its value before and its value after. -/
structure Delta (K V : Type*) where
  key : K
  old : Option V
  new : Option V

/-- Replaying the entries in order takes the first content to the last. -/
inductive Replays : (K → Option V) → List (Delta K V) → (K → Option V) → Prop
  | nil (f : K → Option V) : Replays f [] f
  | cons {f g : K → Option V} {d : Delta K V} {rest : List (Delta K V)} (hold : f d.key = d.old)
      (hrest : Replays (Function.update f d.key d.new) rest g) : Replays f (d :: rest) g

/-- Change lists compose. -/
theorem Replays.append {f g h : K → Option V} {first second : List (Delta K V)}
    (hfirst : Replays f first g) (hsecond : Replays g second h) :
    Replays f (first ++ second) h := by
  induction hfirst with
  | nil => exact hsecond
  | cons hold _ ih => exact .cons hold (ih hsecond)

/-- A key that no entry names keeps its value. -/
theorem Replays.unchanged {f g : K → Option V} {deltas : List (Delta K V)} (h : Replays f deltas g)
    {k : K} (hk : ∀ d ∈ deltas, d.key ≠ k) : g k = f k := by
  induction h with
  | nil => rfl
  | cons _ _ ih =>
    rw [ih fun d hd => hk d (List.mem_cons_of_mem _ hd)]
    exact Function.update_of_ne (hk _ List.mem_cons_self).symm _ _

/-- The first entry about a key names the value the key had at the start. -/
theorem Replays.first_old {f g : K → Option V} {deltas : List (Delta K V)} (h : Replays f deltas g)
    {k : K} {d : Delta K V} (hd : deltas.find? (fun d => decide (d.key = k)) = some d) :
    d.old = f k := by
  induction h with
  | nil => simp at hd
  | @cons f g head rest hold _ ih =>
    by_cases hkey : head.key = k
    · simp only [List.find?_cons, hkey, decide_true, Option.some.injEq] at hd
      subst hd
      rw [← hkey, hold]
    · simp only [List.find?_cons, hkey, decide_false] at hd
      rw [ih hd, Function.update_of_ne (Ne.symm hkey)]

/-- A key named once ends with the new value of its entry. -/
theorem Replays.new_of_nodup {f g : K → Option V} {deltas : List (Delta K V)}
    (h : Replays f deltas g) (hnodup : (deltas.map Delta.key).Nodup) {d : Delta K V}
    (hd : d ∈ deltas) : g d.key = d.new := by
  induction h with
  | nil => simp at hd
  | @cons f g head rest _ hrest ih =>
    obtain ⟨hhead, htail⟩ := List.nodup_cons.mp hnodup
    rcases List.mem_cons.mp hd with rfl | hd
    · rw [hrest.unchanged, Function.update_self]
      intro d' hd' hkey
      exact hhead (List.mem_map.mpr ⟨d', hd', hkey⟩)
    · exact ih htail hd

/-- One edit of a content: a key and the value it gets, none to drop the key. -/
structure Edit (K V : Type*) where
  key : K
  value : Option V

/-- The content after some edits, applied in order. -/
def applyEdits (f : K → Option V) (edits : List (Edit K V)) : K → Option V :=
  edits.foldl (fun f e => Function.update f e.key e.value) f

/-- The entries that some edits make, in order; dropping an absent key makes none. -/
def editDeltas (f : K → Option V) : List (Edit K V) → List (Delta K V)
  | [] => []
  | e :: rest =>
    match f e.key, e.value with
    | none, none => editDeltas f rest
    | old, new => ⟨e.key, old, new⟩ :: editDeltas (Function.update f e.key new) rest

/-- Dropping an absent key changes nothing. -/
theorem update_absent {f : K → Option V} {k : K} (h : f k = none) : Function.update f k none = f := by
  rw [← h, Function.update_eq_self]

/-- Edits compose. -/
theorem applyEdits_append (f : K → Option V) (first second : List (Edit K V)) :
    applyEdits f (first ++ second) = applyEdits (applyEdits f first) second := by
  rw [applyEdits, List.foldl_append]
  rfl

/-- An edit that drops an absent key makes no entry. -/
theorem editDeltas_cons_absent {f : K → Option V} {e : Edit K V} (rest : List (Edit K V))
    (hold : f e.key = none) (hnew : e.value = none) :
    editDeltas f (e :: rest) = editDeltas f rest := by
  simp only [editDeltas, hold, hnew]

/-- Every other edit makes the entry with the values before and after it. -/
theorem editDeltas_cons_present {f : K → Option V} {e : Edit K V} (rest : List (Edit K V))
    (h : f e.key = none → e.value ≠ none) :
    editDeltas f (e :: rest) =
      ⟨e.key, f e.key, e.value⟩ :: editDeltas (Function.update f e.key e.value) rest := by
  cases hold : f e.key with
  | some old => simp only [editDeltas, hold]
  | none =>
    cases hnew : e.value with
    | some new => simp only [editDeltas, hold, hnew]
    | none => exact absurd hnew (h hold)

/-- The entries of composed edits. -/
theorem editDeltas_append (f : K → Option V) (first second : List (Edit K V)) :
    editDeltas f (first ++ second) =
      editDeltas f first ++ editDeltas (applyEdits f first) second := by
  induction first generalizing f with
  | nil => rfl
  | cons e rest ih =>
    have happly : applyEdits f (e :: rest) = applyEdits (Function.update f e.key e.value) rest := rfl
    rw [List.cons_append, happly]
    by_cases habsent : f e.key = none ∧ e.value = none
    · obtain ⟨hold, hnew⟩ := habsent
      rw [editDeltas_cons_absent _ hold hnew, editDeltas_cons_absent _ hold hnew, ih, hnew,
        update_absent hold]
    · have hpresent : f e.key = none → e.value ≠ none := fun hold hnew => habsent ⟨hold, hnew⟩
      rw [editDeltas_cons_present _ hpresent, editDeltas_cons_present _ hpresent, ih,
        List.cons_append]

/-- The entries of some edits, replayed on the content, give the edited content. -/
theorem replays_editDeltas (f : K → Option V) (edits : List (Edit K V)) :
    Replays f (editDeltas f edits) (applyEdits f edits) := by
  induction edits generalizing f with
  | nil => exact .nil f
  | cons e rest ih =>
    have happly : applyEdits f (e :: rest) = applyEdits (Function.update f e.key e.value) rest := rfl
    rw [happly]
    by_cases habsent : f e.key = none ∧ e.value = none
    · obtain ⟨hold, hnew⟩ := habsent
      rw [editDeltas_cons_absent _ hold hnew, hnew, update_absent hold]
      exact ih f
    · rw [editDeltas_cons_present _ fun hold hnew => habsent ⟨hold, hnew⟩]
      exact .cons rfl (ih _)

/-- An entry is about the key of an edit. -/
theorem editDeltas_key {f : K → Option V} {edits : List (Edit K V)} {d : Delta K V}
    (hd : d ∈ editDeltas f edits) : ∃ e ∈ edits, e.key = d.key := by
  induction edits generalizing f with
  | nil => cases hd
  | cons e rest ih =>
    by_cases habsent : f e.key = none ∧ e.value = none
    · rw [editDeltas_cons_absent _ habsent.1 habsent.2] at hd
      obtain ⟨e', he', hkey⟩ := ih hd
      exact ⟨e', List.mem_cons_of_mem _ he', hkey⟩
    · rw [editDeltas_cons_present _ fun hold hnew => habsent ⟨hold, hnew⟩] at hd
      rcases List.mem_cons.mp hd with rfl | hd
      · exact ⟨e, List.mem_cons_self, rfl⟩
      · obtain ⟨e', he', hkey⟩ := ih hd
        exact ⟨e', List.mem_cons_of_mem _ he', hkey⟩

/-- An entry names a value, before or after. -/
theorem editDeltas_named {f : K → Option V} {edits : List (Edit K V)} {d : Delta K V}
    (hd : d ∈ editDeltas f edits) : d.old = none → d.new ≠ none := by
  induction edits generalizing f with
  | nil => cases hd
  | cons e rest ih =>
    by_cases habsent : f e.key = none ∧ e.value = none
    · rw [editDeltas_cons_absent _ habsent.1 habsent.2] at hd
      exact ih hd
    · have hpresent : f e.key = none → e.value ≠ none := fun hold hnew => habsent ⟨hold, hnew⟩
      rw [editDeltas_cons_present _ hpresent] at hd
      rcases List.mem_cons.mp hd with rfl | hd
      · exact hpresent
      · exact ih hd

/-- A key that no edit names keeps its value. -/
theorem applyEdits_of_not_named {f : K → Option V} {edits : List (Edit K V)} {k : K}
    (hk : ∀ e ∈ edits, e.key ≠ k) : applyEdits f edits k = f k := by
  induction edits generalizing f with
  | nil => rfl
  | cons e rest ih =>
    have happly : applyEdits f (e :: rest) = applyEdits (Function.update f e.key e.value) rest := rfl
    rw [happly, ih fun e' he' => hk e' (List.mem_cons_of_mem _ he')]
    exact Function.update_of_ne (hk e List.mem_cons_self).symm _ _

/-- The content after edits of different keys has the value of each. -/
theorem applyEdits_of_nodup {f : K → Option V} {edits : List (Edit K V)}
    (hnodup : (edits.map Edit.key).Nodup) {e : Edit K V} (he : e ∈ edits) :
    applyEdits f edits e.key = e.value := by
  induction edits generalizing f with
  | nil => cases he
  | cons head rest ih =>
    obtain ⟨hhead, htail⟩ := List.nodup_cons.mp hnodup
    have happly : applyEdits f (head :: rest) =
      applyEdits (Function.update f head.key head.value) rest := rfl
    rw [happly]
    rcases List.mem_cons.mp he with rfl | hrest
    · rw [applyEdits_of_not_named, Function.update_self]
      exact fun e' he' hkey => hhead (List.mem_map.mpr ⟨e', he', hkey⟩)
    · exact ih htail hrest

end Nplex.Common
