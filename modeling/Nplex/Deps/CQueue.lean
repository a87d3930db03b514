import Nplex.Common.Machine
import Nplex.Common.Circle
import Nplex.Common.Loop

/-!
# The circular queue

The queue behind the pending commands, requests and accepted submits: a circular buffer that
grows when it is full. A slot of its memory is raw or holds an object. Building an object on
another one, reading or destroying raw memory and freeing memory with objects in it are faults.
-/

namespace Nplex.Deps

open Nplex.Common

variable {α : Type}

/-- What goes wrong: the two exceptions of the queue, and a misuse of memory. -/
inductive Fault where
  | lengthError
  | outOfRange
  | memory
  deriving DecidableEq, Repr

/-- Memory slots, each raw or holding an object. -/
abbrev Slots (α : Type) := List (Option α)

/-- Build an object in a raw slot. -/
def construct (slots : Slots α) (i : ℕ) (x : α) : Except Fault (Slots α) :=
  match slots[i]? with
  | some none => .ok (slots.set i (some x))
  | _ => .error .memory

/-- End the life of the object in a slot. -/
def destroy (slots : Slots α) (i : ℕ) : Except Fault (Slots α) :=
  match slots[i]? with
  | some (some _) => .ok (slots.set i none)
  | _ => .error .memory

/-- The object in a slot. -/
def read (slots : Slots α) (i : ℕ) : Except Fault α :=
  match slots[i]? with
  | some (some x) => .ok x
  | _ => .error .memory

/-- Free memory whose objects are all destroyed. -/
def deallocate (slots : Slots α) : Except Fault Unit :=
  if slots.all Option.isNone then .ok () else .error .memory

/-- The default initial memory. -/
def minAllocate : ℕ := 8

/-- The maximum number of elements. -/
def maxCapacity : ℕ := 2 ^ 63 - 1

/-- A circular queue. -/
structure CQueue (α : Type) where
  data : Slots α
  capacity : ℕ
  front : ℕ
  length : ℕ
  deriving DecidableEq, Repr

namespace CQueue

/-- The length of the memory. -/
def reserved (q : CQueue α) : ℕ := q.data.length

/-- An empty queue; capacity 0 means no limit. -/
def new (capacity : ℕ) : Except Fault (CQueue α) :=
  if maxCapacity < capacity then .error .lengthError
  else .ok ⟨[], if capacity = 0 then maxCapacity else capacity, 0, 0⟩

/-- The slot of a position. The sum stays below 2^64: both terms are at most the capacity. -/
def getUncheckedIndex (q : CQueue α) (pos : ℕ) : ℕ :=
  if q.reserved ≤ 1 then 0
  else if q.reserved &&& (q.reserved - 1) = 0 then (q.front + pos) &&& (q.reserved - 1)
  else (q.front + pos) % q.reserved

/-- The slot of a position that holds an element. -/
def getCheckedIndex (q : CQueue α) (pos : ℕ) : Except Fault ℕ :=
  if q.length ≤ pos then .error .outOfRange else .ok (q.getUncheckedIndex pos)

/-- The element at a position. -/
def get (q : CQueue α) (pos : ℕ) : Except Fault α := do
  let index ← q.getCheckedIndex pos
  read q.data index

/-- The position of the last element; it wraps around when there is none. -/
def lastPos (q : CQueue α) : ℕ := (q.length + (2 ^ 64 - 1)) % 2 ^ 64

/-- Double the memory until it holds n elements. -/
def grow (n : ℕ) : ℕ → ℕ → ℕ
  | 0, ret => ret
  | fuel + 1, ret => if ret < n then grow n fuel (ret * 2) else ret

/-- The memory for n elements. -/
def getNewMemoryLength (q : CQueue α) (n : ℕ) : ℕ :=
  let ret := if q.reserved = 0 then min q.capacity minAllocate else q.reserved
  min (grow n n ret) q.capacity

/-- Destroy the elements from the front on. -/
def destroyAll (q : CQueue α) : Except Fault (Slots α) :=
  (List.range q.length).foldlM (fun data i => destroy data (q.getUncheckedIndex i)) q.data

/-- Move the elements into other memory, the front first. -/
def moveAll (q : CQueue α) (tmp : Slots α) : Except Fault (Slots α) :=
  (List.range q.length).foldlM
    (fun tmp i => do construct tmp i (← read q.data (q.getUncheckedIndex i))) tmp

/-- Move the elements into new memory and free the old one. -/
def resize (q : CQueue α) (len : ℕ) : Except Fault (CQueue α) := do
  let tmp ← q.moveAll (List.replicate len none)
  let data ← q.destroyAll
  deallocate data
  return { q with data := tmp, front := 0 }

/-- Make room for n elements. -/
def resizeIfRequired (q : CQueue α) (n : ℕ) : Except Fault (CQueue α) :=
  if n ≤ q.reserved then .ok q
  else if q.capacity < n then .error .lengthError
  else q.resize (q.getNewMemoryLength n)

/-- Ensure a length of the memory. -/
def reserve (q : CQueue α) (n : ℕ) : Except Fault (CQueue α) :=
  if n ≤ q.reserved then .ok q
  else if q.capacity < n then .error .lengthError
  else q.resize n

/-- Remove all elements. -/
def clear (q : CQueue α) : Except Fault (CQueue α) := do
  let data ← q.destroyAll
  return { q with data, front := 0, length := 0 }

/-- Remove all elements and free the memory. -/
def reset (q : CQueue α) : Except Fault (CQueue α) := do
  let q ← q.clear
  deallocate q.data
  return { q with data := [] }

/-- Shrink the memory to the elements. -/
def shrinkToFit (q : CQueue α) : Except Fault (CQueue α) :=
  if q.reserved = 0 then .ok q
  else if q.length = 0 then q.reset
  else if q.length = q.reserved ∨ q.reserved ≤ minAllocate then .ok q
  else q.resize q.length

/-- Insert at the end. -/
def pushBack (q : CQueue α) (x : α) : Except Fault (CQueue α) := do
  let q ← q.resizeIfRequired (q.length + 1)
  let index := q.getUncheckedIndex q.length
  let data ← construct q.data index x
  return { q with data, length := q.length + 1 }

/-- Insert at the front. -/
def pushFront (q : CQueue α) (x : α) : Except Fault (CQueue α) := do
  let q ← q.resizeIfRequired (q.length + 1)
  let index :=
    if q.length = 0 then 0 else (if q.front = 0 then q.reserved else q.front) - 1
  let data ← construct q.data index x
  return { q with data, front := index, length := q.length + 1 }

/-- Remove the front element. -/
def popFront (q : CQueue α) : Except Fault (CQueue α × α) := do
  let ret ← q.get 0
  let data ← destroy q.data q.front
  return ({ q with data, front := q.getUncheckedIndex 1, length := q.length - 1 }, ret)

/-- Remove the back element. -/
def popBack (q : CQueue α) : Except Fault (CQueue α × α) := do
  let ret ← q.get q.lastPos
  let index := q.getUncheckedIndex (q.length - 1)
  let data ← destroy q.data index
  return ({ q with data, length := q.length - 1 }, ret)

/-- The elements as the iterators give them. -/
def items (q : CQueue α) : Except Fault (List α) :=
  (List.range q.length).mapM q.get

/-- Insert the elements of another queue at the positions from 0 on. -/
def pushAll (q : CQueue α) (other : CQueue α) : Except Fault (CQueue α) :=
  (List.range other.length).foldlM (fun q i => do q.pushBack (← other.get i)) q

/-- A copy of a queue. -/
def copy (other : CQueue α) : Except Fault (CQueue α) := do
  let q ← (CQueue.mk [] other.capacity 0 0).resizeIfRequired other.length
  q.pushAll other

/-- Assign a copy of a queue; the elements of this one go with the temporary that takes them. -/
def assign (q : CQueue α) (other : CQueue α) : Except Fault (CQueue α) := do
  let tmp ← other.copy
  let _ ← q.reset
  return tmp

/-- The elements of a queue from the front on, in memory within the capacity. -/
structure Holds (q : CQueue α) (xs : List α) : Prop where
  laid : Laid q.data q.front xs
  length_eq : q.length = xs.length
  reserved_le : q.reserved ≤ q.capacity
  capacity_pos : 0 < q.capacity
  capacity_le : q.capacity ≤ maxCapacity

variable {q : CQueue α} {xs : List α} {x : α} {n : ℕ}

/-- The mask of a power of two and the remainder agree. -/
theorem getUncheckedIndex_eq (hpos : 0 < q.reserved) (pos : ℕ) :
    q.getUncheckedIndex pos = (q.front + pos) % q.reserved := by
  unfold getUncheckedIndex
  split
  · have hone : q.reserved = 1 := by omega
    rw [hone, Nat.mod_one]
  · split
    · next hpower =>
      obtain ⟨k, hk⟩ := (Nat.and_sub_one_eq_zero_iff_isPowerOfTwo (by omega)).mp hpower
      rw [hk, Nat.and_two_pow_sub_one_eq_mod]
    · rfl

/-- Doubling reaches n. -/
theorem grow_ge {fuel ret : ℕ} (hpos : 0 < ret) (hfuel : n ≤ fuel + ret) : n ≤ grow n fuel ret := by
  induction fuel generalizing ret with
  | zero => simpa [grow] using hfuel
  | succ fuel ih =>
    rw [grow]
    split
    · exact ih (by omega) (by omega)
    · omega

/-- The new memory is long enough and within the capacity. -/
theorem getNewMemoryLength_bounds (h : q.Holds xs) (hn : n ≤ q.capacity) :
    n ≤ q.getNewMemoryLength n ∧ q.getNewMemoryLength n ≤ q.capacity := by
  have hpos := h.capacity_pos
  have hstart : 0 < if q.reserved = 0 then min q.capacity minAllocate else q.reserved := by
    split
    · simp [minAllocate, hpos]
    · omega
  have hgrow : n ≤ grow n n _ := grow_ge hstart (by omega)
  simp only [getNewMemoryLength]
  omega

/-- The elements fit into the reserved memory. -/
theorem Holds.length_le (h : q.Holds xs) : xs.length ≤ q.reserved := h.laid.fits

/-- The front is inside of it. -/
theorem Holds.front_lt (h : q.Holds xs) (hpos : 0 < q.reserved) : q.front < q.reserved :=
  h.laid.front_lt (List.length_pos_iff.mp hpos)

/-- The position 0 is the front. -/
theorem Holds.front_mod (h : q.Holds xs) : q.front % q.reserved = q.front := by
  by_cases hzero : q.reserved = 0
  · rw [hzero, Nat.mod_zero]
  · exact Nat.mod_eq_of_lt (h.front_lt (by omega))

/-- Destroying the elements leaves raw memory. -/
theorem destroyAll_eq (h : q.Holds xs) : q.destroyAll = .ok (List.replicate q.reserved none) := by
  have hloop : ∃ data, q.destroyAll = .ok data ∧ data.length = q.reserved ∧
      Laid data ((q.front + q.length) % q.reserved) (xs.drop q.length) := by
    refine foldlM_range (fun i (data : Slots α) => data.length = q.reserved ∧
      Laid data ((q.front + i) % q.reserved) (xs.drop i)) ⟨rfl, ?_⟩ ?_
    · simpa [h.front_mod] using h.laid
    · intro i hi data hinv
      obtain ⟨hlength, hlaid⟩ := hinv
      rw [h.length_eq] at hi
      have hpos : 0 < q.reserved := by
        have hle := h.length_le
        omega
      have hcons := List.drop_eq_getElem_cons hi
      rw [hcons] at hlaid
      have hslot := hlaid.get (i := 0) (Nat.zero_lt_succ _)
      rw [Nat.add_zero, hlength, Nat.mod_mod, ← getUncheckedIndex_eq hpos] at hslot
      refine ⟨data.set (q.getUncheckedIndex i) none, by simp [destroy, hslot], by simp [hlength], ?_⟩
      have hnext := hlaid.popFront
      rw [hlength, Nat.mod_add_mod, ← getUncheckedIndex_eq hpos i] at hnext
      exact hnext
  obtain ⟨data, hdata, hlength, hlaid⟩ := hloop
  rw [h.length_eq, List.drop_length] at hlaid
  rw [hdata, hlaid.eq_replicate, hlength]

/-- Moving the elements into long enough memory lays them out from its start. -/
theorem moveAll_laid (h : q.Holds xs) {len : ℕ} (hlen : xs.length ≤ len) :
    ∃ tmp, q.moveAll (List.replicate len none) = .ok tmp ∧ tmp.length = len ∧ Laid tmp 0 xs := by
  have hloop : ∃ tmp, q.moveAll (List.replicate len none) = .ok tmp ∧ tmp.length = len ∧
      Laid tmp 0 (xs.take q.length) := by
    refine foldlM_range (fun i (tmp : Slots α) => tmp.length = len ∧
      Laid tmp 0 (xs.take i)) ⟨by simp, by simpa using laid_replicate len⟩ ?_
    intro i hi tmp hinv
    obtain ⟨hlength, hlaid⟩ := hinv
    rw [h.length_eq] at hi
    have hpos : 0 < q.reserved := by
      have hle := h.length_le
      omega
    have hread : read q.data (q.getUncheckedIndex i) = .ok xs[i] := by
      have hslot := h.laid.get hi
      rw [getUncheckedIndex_eq hpos]
      simp only [read]
      rw [show q.reserved = q.data.length from rfl, hslot]
    have htake : (xs.take i).length = i := by
      rw [List.length_take]
      omega
    have hfree := hlaid.free (by omega)
    rw [htake, hlength, Nat.zero_add, Nat.mod_eq_of_lt (by omega)] at hfree
    refine ⟨tmp.set i (some xs[i]), ?_, by simp [hlength], ?_⟩
    · rw [hread]
      simp [construct, hfree, bind, Except.bind]
    · have hnext := hlaid.pushBack (x := xs[i]) (by omega)
      rw [htake, hlength, Nat.zero_add, Nat.mod_eq_of_lt (by omega)] at hnext
      rwa [← List.take_concat_get' xs i hi]
  rwa [h.length_eq, List.take_length] at hloop

/-- New memory holds the same elements. -/
theorem Holds.resize (h : q.Holds xs) (len : ℕ) (hlen : xs.length ≤ len) (hcapacity : len ≤ q.capacity) :
    ∃ q', q.resize len = .ok q' ∧ q'.Holds xs ∧ q'.capacity = q.capacity ∧ q'.reserved = len := by
  obtain ⟨tmp, hmove, hlength, hlaid⟩ := moveAll_laid h hlen
  refine ⟨{ q with data := tmp, front := 0 }, ?_, ?_, rfl, hlength⟩
  · simp [CQueue.resize, hmove, destroyAll_eq h, deallocate, bind, Except.bind, pure, Except.pure]
  · exact ⟨hlaid, h.length_eq, by simpa [reserved, hlength] using hcapacity, h.capacity_pos,
      h.capacity_le⟩

/-- Room for n elements, unless they exceed the capacity. -/
theorem Holds.resizeIfRequired (h : q.Holds xs) (hn : xs.length ≤ n) (hcapacity : n ≤ q.capacity) :
    ∃ q', q.resizeIfRequired n = .ok q' ∧ q'.Holds xs ∧ q'.capacity = q.capacity ∧
      n ≤ q'.reserved := by
  unfold CQueue.resizeIfRequired
  split
  · next hroom => exact ⟨q, rfl, h, rfl, hroom⟩
  · obtain ⟨hge, hle⟩ := getNewMemoryLength_bounds h hcapacity
    obtain ⟨q', hresize, hholds, hcap, hlen⟩ := h.resize _ (hn.trans hge) hle
    rw [if_neg (by omega)]
    exact ⟨q', hresize, hholds, hcap, by omega⟩

/-- Beyond the capacity there is no room. -/
theorem Holds.resizeIfRequired_error (h : q.Holds xs) (hcapacity : q.capacity < n) :
    q.resizeIfRequired n = .error .lengthError := by
  have hreserved := h.reserved_le
  unfold CQueue.resizeIfRequired
  rw [if_neg (by omega), if_pos hcapacity]

/-- Clearing leaves an empty queue. -/
theorem Holds.clear (h : q.Holds xs) :
    ∃ q', q.clear = .ok q' ∧ q'.Holds [] ∧ q'.capacity = q.capacity := by
  refine ⟨{ q with data := List.replicate q.reserved none, front := 0, length := 0 }, ?_, ?_, rfl⟩
  · simp [CQueue.clear, destroyAll_eq h, bind, Except.bind, pure, Except.pure]
  · exact ⟨laid_replicate _, rfl, by simpa [reserved] using h.reserved_le, h.capacity_pos,
      h.capacity_le⟩

/-- Resetting destroys every element before it frees the memory. -/
theorem Holds.reset (h : q.Holds xs) : q.reset = .ok { q with data := [], front := 0, length := 0 } := by
  simp [CQueue.reset, CQueue.clear, destroyAll_eq h, deallocate, bind, Except.bind, pure,
    Except.pure]

/-- Ensuring memory keeps the elements. -/
theorem Holds.reserve (h : q.Holds xs) (hcapacity : n ≤ q.capacity) :
    ∃ q', q.reserve n = .ok q' ∧ q'.Holds xs ∧ q'.capacity = q.capacity := by
  unfold CQueue.reserve
  split
  · exact ⟨q, rfl, h, rfl⟩
  · next hmore =>
    have hlen := h.length_le
    obtain ⟨q', hresize, hholds, hcap, -⟩ := h.resize n (by omega) hcapacity
    rw [if_neg (by omega)]
    exact ⟨q', hresize, hholds, hcap⟩

/-- Reserving more than the capacity throws. -/
theorem Holds.reserve_error (h : q.Holds xs) (hcapacity : q.capacity < n) :
    q.reserve n = .error .lengthError := by
  have hreserved := h.reserved_le
  unfold CQueue.reserve
  rw [if_neg (by omega), if_pos hcapacity]

/-- Shrinking keeps the elements. -/
theorem Holds.shrinkToFit (h : q.Holds xs) :
    ∃ q', q.shrinkToFit = .ok q' ∧ q'.Holds xs ∧ q'.capacity = q.capacity := by
  unfold CQueue.shrinkToFit
  split
  · exact ⟨q, rfl, h, rfl⟩
  · split
    · next hempty =>
      have hnil : xs = [] := List.length_eq_zero_iff.mp (h.length_eq.symm.trans hempty)
      subst hnil
      exact ⟨_, h.reset, ⟨laid_replicate 0, rfl, Nat.zero_le _, h.capacity_pos, h.capacity_le⟩, rfl⟩
    · split
      · exact ⟨q, rfl, h, rfl⟩
      · have hlen := h.length_le
        have hreserved := h.reserved_le
        have hlength := h.length_eq
        obtain ⟨q', hresize, hholds, hcap, -⟩ := h.resize q.length (by omega) (by omega)
        exact ⟨q', hresize, hholds, hcap⟩

/-- Inserting at the end, below the capacity. -/
theorem Holds.pushBack (h : q.Holds xs) (hroom : xs.length < q.capacity) :
    ∃ q', q.pushBack x = .ok q' ∧ q'.Holds (xs ++ [x]) ∧ q'.capacity = q.capacity := by
  obtain ⟨q₁, hresize, h₁, hcap, hreserved⟩ :=
    h.resizeIfRequired (n := xs.length + 1) (by omega) (by omega)
  have hfree := h₁.laid.free (by exact hreserved)
  rw [show q₁.data.length = q₁.reserved from rfl, ← getUncheckedIndex_eq (by omega),
    ← h₁.length_eq] at hfree
  refine ⟨{ q₁ with
      data := q₁.data.set (q₁.getUncheckedIndex q₁.length) (some x)
      length := q₁.length + 1 }, ?_, ⟨?_, ?_, ?_, h₁.capacity_pos, h₁.capacity_le⟩, hcap⟩
  · simp [CQueue.pushBack, h.length_eq, hresize, construct, hfree, bind, Except.bind, pure,
      Except.pure]
  · have hlaid := h₁.laid.pushBack (x := x) (by exact hreserved)
    rwa [show q₁.data.length = q₁.reserved from rfl, ← getUncheckedIndex_eq (by omega),
      ← h₁.length_eq] at hlaid
  · simp [h₁.length_eq]
  · simpa [reserved] using h₁.reserved_le

/-- Inserting at the front, below the capacity. -/
theorem Holds.pushFront (h : q.Holds xs) (hroom : xs.length < q.capacity) :
    ∃ q', q.pushFront x = .ok q' ∧ q'.Holds (x :: xs) ∧ q'.capacity = q.capacity := by
  obtain ⟨q₁, hresize, h₁, hcap, hreserved⟩ :=
    h.resizeIfRequired (n := xs.length + 1) (by omega) (by omega)
  obtain ⟨index, hindex, hfree, hlaid⟩ : ∃ index,
      (if q₁.length = 0 then 0 else (if q₁.front = 0 then q₁.reserved else q₁.front) - 1) = index ∧
      q₁.data[index]? = some none ∧ Laid (q₁.data.set index (some x)) index (x :: xs) := by
    by_cases hempty : q₁.length = 0
    · -- an empty queue starts again at the first slot
      have hnil : xs = [] := List.length_eq_zero_iff.mp (h₁.length_eq.symm.trans hempty)
      subst hnil
      have hlaid := h₁.laid.of_nil (f := 0) List.length_pos_iff.mpr
      have hpos : 0 < q₁.data.length := hreserved
      have hfree := hlaid.free (by exact hpos)
      have hnext := hlaid.pushBack (x := x) (by exact hpos)
      rw [List.length_nil, Nat.zero_mod] at hfree hnext
      exact ⟨0, if_pos hempty, hfree, hnext⟩
    · have hroom₁ : xs.length < q₁.data.length := hreserved
      have hfront : q₁.front < q₁.data.length := h₁.front_lt (by exact Nat.zero_lt_of_lt hroom₁)
      have hlast : (if q₁.front = 0 then q₁.reserved else q₁.front) - 1 =
          (q₁.front + (q₁.data.length - 1)) % q₁.data.length := by
        split
        · next hzero =>
          rw [hzero, Nat.zero_add, Nat.mod_eq_of_lt (by omega)]
          rfl
        · rw [show q₁.front + (q₁.data.length - 1) = q₁.front - 1 + q₁.data.length by omega,
            Nat.add_mod_right, Nat.mod_eq_of_lt (by omega)]
      have hfree := h₁.laid.slot (q₁.data.length - 1) (by omega)
      have hbeyond : xs[q₁.data.length - 1]? = none := List.getElem?_eq_none (by omega)
      rw [hbeyond] at hfree
      exact ⟨_, (if_neg hempty).trans hlast, hfree, h₁.laid.pushFront hroom₁⟩
  refine ⟨{ q₁ with data := q₁.data.set index (some x), front := index, length := q₁.length + 1 },
    ?_, ⟨hlaid, ?_, ?_, h₁.capacity_pos, h₁.capacity_le⟩, hcap⟩
  · simp [CQueue.pushFront, h.length_eq, hresize, hindex, construct, hfree, bind, Except.bind, pure,
      Except.pure]
  · simp [h₁.length_eq]
  · simpa [reserved] using h₁.reserved_le

/-- What access to an element that may be missing gives. -/
def access : Option α → Except Fault α
  | some x => .ok x
  | none => .error .outOfRange

/-- The element at a position. -/
theorem Holds.get (h : q.Holds xs) (pos : ℕ) : q.get pos = access xs[pos]? := by
  unfold CQueue.get getCheckedIndex
  by_cases hpos : pos < xs.length
  · rw [List.getElem?_eq_getElem hpos, if_neg (by rw [h.length_eq]; omega)]
    have hle := h.length_le
    have hslot := h.laid.get hpos
    rw [show q.data.length = q.reserved from rfl, ← getUncheckedIndex_eq (by omega)] at hslot
    simp [read, hslot, access, bind, Except.bind]
  · rw [List.getElem?_eq_none (by omega), if_pos (by rw [h.length_eq]; omega)]
    rfl

/-- The last position is that of the last element; without one it is out of range. -/
theorem Holds.get_lastPos (h : q.Holds xs) : q.get q.lastPos = access xs.getLast? := by
  have hbound := h.length_le.trans (h.reserved_le.trans h.capacity_le)
  rw [h.get, lastPos, h.length_eq]
  cases xs using List.reverseRecOn with
  | nil => rfl
  | append_singleton ys x =>
    rw [List.length_append, List.length_singleton, maxCapacity] at hbound
    have hlast : (ys.length + 1 + (2 ^ 64 - 1)) % 2 ^ 64 = ys.length := by omega
    rw [List.length_append, List.length_singleton, hlast, List.getElem?_concat_length,
      List.getLast?_concat]

/-- Removing at the front. -/
theorem Holds.popFront (h : q.Holds (x :: xs)) :
    ∃ q', q.popFront = .ok (q', x) ∧ q'.Holds xs ∧ q'.capacity = q.capacity := by
  have hpos : 0 < q.reserved := h.laid.length_pos
  have hread : q.get 0 = .ok x := h.get 0
  have hslot := h.laid.get (i := 0) (Nat.zero_lt_succ _)
  rw [Nat.add_zero, show q.data.length = q.reserved from rfl, h.front_mod] at hslot
  refine ⟨{ q with
      data := q.data.set q.front none
      front := q.getUncheckedIndex 1
      length := q.length - 1 }, ?_, ⟨?_, ?_, ?_, h.capacity_pos, h.capacity_le⟩, rfl⟩
  · simp [CQueue.popFront, hread, destroy, hslot, bind, Except.bind, pure, Except.pure]
  · rw [getUncheckedIndex_eq hpos]
    exact h.laid.popFront
  · simp [h.length_eq]
  · simpa [reserved] using h.reserved_le

/-- Removing at the end. -/
theorem Holds.popBack (h : q.Holds (xs ++ [x])) :
    ∃ q', q.popBack = .ok (q', x) ∧ q'.Holds xs ∧ q'.capacity = q.capacity := by
  have hread : q.get q.lastPos = .ok x := by
    rw [h.get_lastPos, List.getLast?_concat]
    rfl
  have hlength : q.length - 1 = xs.length := by simp [h.length_eq]
  have hroom : xs.length < q.reserved := by
    have hle := h.length_le
    rw [List.length_append, List.length_singleton] at hle
    exact hle
  have hslot := h.laid.get (i := xs.length) (by simp)
  rw [show q.data.length = q.reserved from rfl, ← getUncheckedIndex_eq (by omega)] at hslot
  refine ⟨{ q with
      data := q.data.set (q.getUncheckedIndex (q.length - 1)) none
      length := q.length - 1 }, ?_, ⟨?_, hlength, ?_, h.capacity_pos, h.capacity_le⟩, rfl⟩
  · simp [CQueue.popBack, hread, destroy, hlength, hslot, bind, Except.bind, pure, Except.pure]
  · rw [getUncheckedIndex_eq (by omega), hlength]
    exact h.laid.popBack
  · simpa [reserved] using h.reserved_le

/-- Without elements there is nothing to remove. -/
theorem Holds.pop_error (h : q.Holds []) :
    q.popFront = .error .outOfRange ∧ q.popBack = .error .outOfRange := by
  have hfirst : q.get 0 = .error .outOfRange := h.get 0
  have hlast : q.get q.lastPos = .error .outOfRange := h.get_lastPos
  simp [CQueue.popFront, CQueue.popBack, hfirst, hlast, bind, Except.bind]

/-- The iterators give the elements. -/
theorem Holds.items (h : q.Holds xs) : q.items = .ok xs := by
  have hget : ∀ i (hi : i < xs.length), q.get i = .ok xs[i] := by
    intro i hi
    rw [h.get, List.getElem?_eq_getElem hi]
    rfl
  rw [CQueue.items, h.length_eq]
  exact mapM_range hget

/-- Copying the elements one by one. -/
theorem Holds.pushAll {other : CQueue α} (h : q.Holds []) (hother : other.Holds xs)
    (hcapacity : q.capacity = other.capacity) :
    ∃ q', q.pushAll other = .ok q' ∧ q'.Holds xs ∧ q'.capacity = q.capacity := by
  have hloop : ∃ q', q.pushAll other = .ok q' ∧
      q'.Holds (xs.take other.length) ∧ q'.capacity = q.capacity := by
    refine foldlM_range (fun i (q' : CQueue α) => q'.Holds (xs.take i) ∧
      q'.capacity = q.capacity) ⟨h, rfl⟩ ?_
    intro i hi q₁ hinv
    obtain ⟨h₁, hcap⟩ := hinv
    rw [hother.length_eq] at hi
    have hbound := hother.length_le.trans hother.reserved_le
    have hread : other.get i = .ok xs[i] := by
      rw [hother.get, List.getElem?_eq_getElem hi]
      rfl
    obtain ⟨q₂, hpush, h₂, hcap₂⟩ := h₁.pushBack (x := xs[i]) (by
      rw [List.length_take]
      omega)
    refine ⟨q₂, by simpa [hread, bind, Except.bind] using hpush, ?_, hcap₂.trans hcap⟩
    rwa [← List.take_concat_get' xs i hi]
  rwa [hother.length_eq, List.take_length] at hloop

/-- A copy holds the same elements. -/
theorem Holds.copy (h : q.Holds xs) :
    ∃ q', q.copy = .ok q' ∧ q'.Holds xs ∧ q'.capacity = q.capacity := by
  have hbound := h.length_le.trans h.reserved_le
  have hnew : (CQueue.mk ([] : Slots α) q.capacity 0 0).Holds [] :=
    ⟨laid_replicate 0, rfl, Nat.zero_le _, h.capacity_pos, h.capacity_le⟩
  obtain ⟨q₁, hresize, h₁, hcap₁, -⟩ :=
    hnew.resizeIfRequired (n := q.length) (Nat.zero_le _) (by rw [h.length_eq]; exact hbound)
  obtain ⟨q₂, hpush, h₂, hcap₂⟩ := h₁.pushAll h hcap₁
  refine ⟨q₂, ?_, h₂, hcap₂.trans hcap₁⟩
  simp [CQueue.copy, hresize, hpush, bind, Except.bind]

/-- A queue assigned from another one holds the elements of that. -/
theorem Holds.assign {other : CQueue α} {ys : List α} (h : q.Holds xs) (hother : other.Holds ys) :
    ∃ q', q.assign other = .ok q' ∧ q'.Holds ys ∧ q'.capacity = other.capacity := by
  obtain ⟨q', hcopy, hholds, hcapacity⟩ := hother.copy
  refine ⟨q', ?_, hholds, hcapacity⟩
  simp [CQueue.assign, hcopy, h.reset, bind, Except.bind, pure, Except.pure]

end CQueue

end Nplex.Deps
