import Mathlib.Data.List.Rotate
import Mathlib.Data.Nat.ModEq

/-!
# Lists laid out in a circle of slots

A list occupies the slots of a circle from its front on, past the end of the memory and round to
its start; all the other slots are free. Adding or removing an element at either end writes one
slot. Read from the front the circle is the list followed by free slots.
-/

namespace Nplex.Common

variable {α : Type*} {slots : List (Option α)} {front : ℕ} {xs : List α} {x : α}

/-- The list lies in the slots from the front on, and all the other slots are free. -/
structure Laid (slots : List (Option α)) (front : ℕ) (xs : List α) : Prop where
  front_lt : slots ≠ [] → front < slots.length
  fits : xs.length ≤ slots.length
  slot : ∀ i < slots.length, slots[(front + i) % slots.length]? = some xs[i]?

/-- Steps around a circle are told apart by where they end. -/
theorem circle_inj {n front i j : ℕ} (hi : i < n) (hj : j < n) :
    (front + i) % n = (front + j) % n ↔ i = j := by
  constructor
  · intro h
    have hcongr : Nat.ModEq n i j := Nat.ModEq.add_left_cancel' front h
    exact Nat.ModEq.eq_of_lt_of_lt hcongr hi hj
  · rintro rfl
    rfl

/-- A buffer that holds an element has slots. -/
theorem Laid.length_pos (h : Laid slots front (x :: xs)) : 0 < slots.length := by
  have hfits := h.fits
  rw [List.length_cons] at hfits
  omega

/-- A list with room left occupies no slot beyond its end. -/
theorem Laid.lt_length (hroom : xs.length < slots.length) : slots ≠ [] := by
  rintro rfl
  simp at hroom

/-- The slot of an element. -/
theorem Laid.get (h : Laid slots front xs) {i : ℕ} (hi : i < xs.length) :
    slots[(front + i) % slots.length]? = some (some xs[i]) := by
  rw [h.slot i (hi.trans_le h.fits), List.getElem?_eq_getElem hi]

/-- The slot after the last element is free. -/
theorem Laid.free (h : Laid slots front xs) (hroom : xs.length < slots.length) :
    slots[(front + xs.length) % slots.length]? = some none := by
  rw [h.slot _ hroom, List.getElem?_eq_none le_rfl]

/-- Writing one slot of the circle, seen from the front. -/
theorem set_slot {i j : ℕ} {v : Option α} (hi : i < slots.length) (hj : j < slots.length) :
    (slots.set ((front + j) % slots.length) v)[(front + i) % slots.length]? =
      if i = j then some v else slots[(front + i) % slots.length]? := by
  have hbound : (front + i) % slots.length < slots.length := Nat.mod_lt _ (by omega)
  by_cases hij : i = j
  · subst hij
    rw [if_pos rfl, List.getElem?_set_self hbound]
  · rw [if_neg hij, List.getElem?_set_ne fun h => hij ((circle_inj hj hi).mp h).symm]

/-- Adding at the end. -/
theorem Laid.pushBack (h : Laid slots front xs) (hroom : xs.length < slots.length) :
    Laid (slots.set ((front + xs.length) % slots.length) (some x)) front (xs ++ [x]) := by
  refine ⟨fun _ => ?_, ?_, fun i hi => ?_⟩
  · rw [List.length_set]
    exact h.front_lt (Laid.lt_length hroom)
  · rw [List.length_set, List.length_append, List.length_singleton]
    exact hroom
  · rw [List.length_set] at hi ⊢
    rw [set_slot hi hroom]
    split
    · next hlast => simp [hlast]
    · next hother =>
      rw [h.slot i hi]
      rcases Nat.lt_or_gt_of_ne hother with hbefore | hafter
      · rw [List.getElem?_append_left hbefore]
      · rw [List.getElem?_eq_none hafter.le, List.getElem?_eq_none]
        rw [List.length_append, List.length_singleton]
        exact hafter

/-- Removing at the end. -/
theorem Laid.popBack (h : Laid slots front (xs ++ [x])) :
    Laid (slots.set ((front + xs.length) % slots.length) none) front xs := by
  have hfits : xs.length < slots.length := by
    have hfits := h.fits
    rw [List.length_append, List.length_singleton] at hfits
    exact hfits
  refine ⟨fun _ => ?_, ?_, fun i hi => ?_⟩
  · rw [List.length_set]
    exact h.front_lt (Laid.lt_length hfits)
  · rw [List.length_set]
    exact hfits.le
  · rw [List.length_set] at hi ⊢
    rw [set_slot hi hfits]
    split
    · next hlast => rw [hlast, List.getElem?_eq_none le_rfl]
    · next hother =>
      rw [h.slot i hi]
      rcases Nat.lt_or_gt_of_ne hother with hbefore | hafter
      · rw [List.getElem?_append_left hbefore]
      · rw [List.getElem?_eq_none hafter.le, List.getElem?_eq_none]
        rw [List.length_append, List.length_singleton]
        exact hafter

/-- Removing at the front. -/
theorem Laid.popFront (h : Laid slots front (x :: xs)) :
    Laid (slots.set front none) ((front + 1) % slots.length) xs := by
  have hpos := h.length_pos
  have hfront : front < slots.length := h.front_lt (List.length_pos_iff.mp hpos)
  have hfits : xs.length + 1 ≤ slots.length := h.fits
  have hzero : front = (front + 0) % slots.length := (Nat.mod_eq_of_lt hfront).symm
  refine ⟨fun _ => ?_, ?_, fun i hi => ?_⟩
  · rw [List.length_set]
    exact Nat.mod_lt _ hpos
  · rw [List.length_set]
    omega
  · rw [List.length_set] at hi ⊢
    have hnext : ((front + 1) % slots.length + i) % slots.length =
        (front + (i + 1)) % slots.length := by
      rw [Nat.mod_add_mod, Nat.add_assoc, Nat.add_comm 1 i]
    rw [hnext]
    by_cases hlast : i + 1 = slots.length
    · -- the last slot of the circle is the one just freed
      have hround : (front + (i + 1)) % slots.length = front := by
        rw [hlast, Nat.add_mod_right, Nat.mod_eq_of_lt hfront]
      rw [hround, List.getElem?_set_self hfront, List.getElem?_eq_none (by omega)]
    · have hinside : i + 1 < slots.length := by omega
      have hslot : (slots.set front none)[(front + (i + 1)) % slots.length]? =
          slots[(front + (i + 1)) % slots.length]? := by
        nth_rewrite 1 [hzero]
        rw [set_slot hinside hpos, if_neg (by omega)]
      rw [hslot, h.slot _ hinside, List.getElem?_cons_succ]

/-- Adding in front of the first element. -/
theorem Laid.pushFront (h : Laid slots front xs) (hroom : xs.length < slots.length) :
    Laid (slots.set ((front + (slots.length - 1)) % slots.length) (some x))
      ((front + (slots.length - 1)) % slots.length) (x :: xs) := by
  have hpos : 0 < slots.length := by omega
  have hfirst := Nat.mod_lt (front + (slots.length - 1)) hpos
  refine ⟨fun _ => ?_, ?_, fun i hi => ?_⟩
  · rw [List.length_set]
    exact hfirst
  · rw [List.length_set, List.length_cons]
    exact hroom
  · rw [List.length_set] at hi ⊢
    cases i with
    | zero =>
      rw [Nat.add_zero, Nat.mod_mod, List.getElem?_set_self hfirst, List.getElem?_cons_zero]
    | succ i =>
      have hround : ((front + (slots.length - 1)) % slots.length + (i + 1)) % slots.length =
          (front + i) % slots.length := by
        rw [Nat.mod_add_mod, show front + (slots.length - 1) + (i + 1) = front + i + slots.length by
          omega, Nat.add_mod_right]
      rw [hround, set_slot (by omega) (by omega), if_neg (by omega), h.slot i (by omega),
        List.getElem?_cons_succ]

/-- A circle of free slots has no front. -/
theorem Laid.of_nil (h : Laid slots front []) {f : ℕ} (hfront : slots ≠ [] → f < slots.length) :
    Laid slots f ([] : List α) := by
  refine ⟨hfront, Nat.zero_le _, fun i hi => ?_⟩
  have hpos : 0 < slots.length := by omega
  have hindex := Nat.mod_lt (f + i) hpos
  -- some step from the old front leads to the slot
  obtain ⟨j, hj, hstep⟩ : ∃ j < slots.length,
      (front + j) % slots.length = (f + i) % slots.length := by
    have hlt := h.front_lt (List.length_pos_iff.mp hpos)
    refine ⟨((f + i) % slots.length + (slots.length - front)) % slots.length,
      Nat.mod_lt _ hpos, ?_⟩
    rw [Nat.add_mod_mod, show front + ((f + i) % slots.length + (slots.length - front)) =
      (f + i) % slots.length + slots.length by omega, Nat.add_mod_right, Nat.mod_mod]
  rw [← hstep, h.slot j hj]
  simp

/-- Free slots. -/
theorem laid_replicate (n : ℕ) : Laid (List.replicate n none) 0 ([] : List α) := by
  refine ⟨fun hne => List.length_pos_iff.mpr hne, Nat.zero_le _, fun i hi => ?_⟩
  rw [List.length_replicate] at hi ⊢
  rw [Nat.zero_add, Nat.mod_eq_of_lt hi, List.getElem?_replicate_of_lt hi]
  rfl

/-- Read from the front the circle is the list followed by free slots. -/
theorem Laid.rotate_eq (h : Laid slots front xs) :
    slots.rotate front = xs.map some ++ List.replicate (slots.length - xs.length) none := by
  have hfits := h.fits
  apply List.ext_getElem?
  intro i
  by_cases hi : i < slots.length
  · rw [List.getElem?_rotate hi, Nat.add_comm i front, h.slot i hi]
    by_cases hinside : i < xs.length
    · rw [List.getElem?_append_left (by simpa using hinside), List.getElem?_map,
        List.getElem?_eq_getElem hinside]
      rfl
    · rw [List.getElem?_append_right (by simpa using hinside), List.getElem?_replicate_of_lt,
        List.getElem?_eq_none (by omega)]
      simp only [List.length_map]
      omega
  · have hlength : (xs.map some ++ List.replicate (slots.length - xs.length) none).length =
        slots.length := by
      simp only [List.length_append, List.length_map, List.length_replicate]
      omega
    rw [List.getElem?_eq_none (by rw [List.length_rotate]; omega),
      List.getElem?_eq_none (by rw [hlength]; omega)]

/-- A circle without elements is free throughout. -/
theorem Laid.eq_replicate (h : Laid slots front []) : slots = List.replicate slots.length none := by
  have hrotated := (h.of_nil (f := 0) List.length_pos_iff.mpr).rotate_eq
  simpa using hrotated

/-- The occupied slots hold the elements of the list, each once. -/
theorem Laid.perm (h : Laid slots front xs) : (slots.filterMap id).Perm xs := by
  have hrotated := (List.rotate_perm slots front).symm.filterMap id
  rw [h.rotate_eq] at hrotated
  have hlist : (xs.map some ++ List.replicate (slots.length - xs.length) none).filterMap id = xs := by
    simp [List.filterMap_append, List.filterMap_map]
  rw [hlist] at hrotated
  exact hrotated

end Nplex.Common
