import Nplex.Common.Transition
import Nplex.Deps.CQueue

/-!
# The circular queue as a list

A double-ended queue is a list whose length is limited. Whatever the order of the calls, the
circular queue gives the answers of the list, exceptions included, without a memory fault, and
its memory holds one object for each element.
-/

namespace Nplex.Deps

open Nplex.Common

variable {α : Type}

/-- The methods of a queue. -/
inductive QueueOp (α : Type) where
  | pushBack (x : α)
  | pushFront (x : α)
  | popFront
  | popBack
  | get (pos : ℕ)
  | front
  | back
  | size
  | empty
  | full
  | items
  | reserve (n : ℕ)
  | shrinkToFit
  | clear
  | assignSelf
  deriving DecidableEq, Repr

/-- What a method returns or throws. -/
inductive Answer (α : Type) where
  | done
  | value (x : α)
  | count (n : ℕ)
  | flag (b : Bool)
  | listing (xs : List α)
  | failed (fault : Fault)
  deriving DecidableEq, Repr

/-- A method that threw left the state as it was. -/
def settle {State β : Type} (s : State) (result : Except Fault β) (next : β → State × Answer α) :
    Option (State × Answer α) :=
  match result with
  | .ok b => some (next b)
  | .error fault => some (s, .failed fault)

/-- A method that reads the queue. -/
def observe {State β : Type} (s : State) (result : Except Fault β) (answer : β → Answer α) :
    Option (State × Answer α) :=
  settle s result fun b => (s, answer b)

/-- A method that changes the queue. -/
def change {State : Type} (s : State) (result : Except Fault State) : Option (State × Answer α) :=
  settle s result fun s' => (s', .done)

/-- A call of a method of the circular queue. -/
def CQueue.step (q : CQueue α) : QueueOp α → Option (CQueue α × Answer α)
  | .pushBack x => change q (q.pushBack x)
  | .pushFront x => change q (q.pushFront x)
  | .popFront => settle q q.popFront fun r => (r.1, .value r.2)
  | .popBack => settle q q.popBack fun r => (r.1, .value r.2)
  | .get pos => observe q (q.get pos) .value
  | .front => observe q (q.get 0) .value
  | .back => observe q (q.get q.lastPos) .value
  | .size => some (q, .count q.length)
  | .empty => some (q, .flag (q.length = 0))
  | .full => some (q, .flag (q.length = q.capacity))
  | .items => observe q q.items .listing
  | .reserve n => change q (q.reserve n)
  | .shrinkToFit => change q q.shrinkToFit
  | .clear => change q q.clear
  | .assignSelf => change q (q.assign q)

/-- A list of at most so many elements. -/
structure Deque (α : Type) where
  capacity : ℕ
  items : List α

namespace Deque

/-- An empty list; capacity 0 means the largest one. -/
def new (capacity : ℕ) : Except Fault (Deque α) :=
  if maxCapacity < capacity then .error .lengthError
  else .ok ⟨if capacity = 0 then maxCapacity else capacity, []⟩

/-- An element that may be missing. -/
def lookup : Option α → Answer α
  | some x => .value x
  | none => .failed .outOfRange

/-- A change that needs room for n elements. -/
def within (d : Deque α) (n : ℕ) (items : List α) : Option (Deque α × Answer α) :=
  if n ≤ d.capacity then some ({ d with items }, .done) else some (d, .failed .lengthError)

/-- What a call means for the list. -/
def step (d : Deque α) : QueueOp α → Option (Deque α × Answer α)
  | .pushBack x => d.within (d.items.length + 1) (d.items ++ [x])
  | .pushFront x => d.within (d.items.length + 1) (x :: d.items)
  | .popFront => some ({ d with items := d.items.tail }, lookup d.items.head?)
  | .popBack => some ({ d with items := d.items.dropLast }, lookup d.items.getLast?)
  | .get pos => some (d, lookup d.items[pos]?)
  | .front => some (d, lookup d.items.head?)
  | .back => some (d, lookup d.items.getLast?)
  | .size => some (d, .count d.items.length)
  | .empty => some (d, .flag d.items.isEmpty)
  | .full => some (d, .flag (d.items.length = d.capacity))
  | .items => some (d, .listing d.items)
  | .reserve n => d.within n d.items
  | .shrinkToFit => some (d, .done)
  | .clear => some ({ d with items := [] }, .done)
  | .assignSelf => some (d, .done)

end Deque

/-- A circular queue stands for a list of the same capacity. -/
def Represents (q : CQueue α) (d : Deque α) : Prop := q.Holds d.items ∧ q.capacity = d.capacity

variable {q : CQueue α} {d : Deque α} {n : ℕ} {items : List α}

/-- A change that succeeds within the capacity and throws beyond it. -/
theorem agree_within {result : Except Fault (CQueue α)} (h : Represents q d)
    (hok : n ≤ q.capacity → ∃ q', result = .ok q' ∧ q'.Holds items ∧ q'.capacity = q.capacity)
    (herror : q.capacity < n → result = .error .lengthError) :
    Agree Represents (change q result) (d.within n items) := by
  rw [Deque.within]
  split
  · next hle =>
    obtain ⟨q', hresult, hholds, hcap⟩ := hok (by rwa [h.2])
    rw [hresult]
    exact ⟨rfl, hholds, hcap.trans h.2⟩
  · rw [herror (by rw [h.2]; omega)]
    exact ⟨rfl, h⟩

/-- A change that always succeeds. -/
theorem agree_done {result : Except Fault (CQueue α)} (h : Represents q d)
    (hok : ∃ q', result = .ok q' ∧ q'.Holds items ∧ q'.capacity = q.capacity) :
    Agree Represents (change q result) (some ({ d with items }, (.done : Answer α))) := by
  obtain ⟨q', rfl, hholds, hcap⟩ := hok
  exact ⟨rfl, hholds, hcap.trans h.2⟩

/-- Looking up an element that may be missing. -/
theorem agree_lookup {found : Option α} (h : Represents q d) :
    Agree Represents (observe q (CQueue.access found) .value) (some (d, Deque.lookup found)) := by
  cases found with
  | none => exact ⟨rfl, h⟩
  | some x => exact ⟨rfl, h⟩

/-- Each call on the circular queue answers as on the list. -/
theorem step_agree (h : Represents q d) (op : QueueOp α) :
    Agree Represents (q.step op) (d.step op) := by
  have hholds := h.1
  have hlength := hholds.length_eq
  cases op with
  | pushBack x =>
    exact agree_within h (fun hle => hholds.pushBack hle) fun hlt => by
      simp [CQueue.pushBack, hholds.resizeIfRequired_error (hlength ▸ hlt), bind, Except.bind]
  | pushFront x =>
    exact agree_within h (fun hle => hholds.pushFront hle) fun hlt => by
      simp [CQueue.pushFront, hholds.resizeIfRequired_error (hlength ▸ hlt), bind, Except.bind]
  | popFront =>
    cases hitems : d.items with
    | nil =>
      rw [hitems] at hholds
      rw [CQueue.step, hholds.pop_error.1, Deque.step, hitems]
      exact ⟨rfl, hholds, h.2⟩
    | cons x rest =>
      rw [hitems] at hholds
      obtain ⟨q', hpop, hrest, hcap⟩ := hholds.popFront
      rw [CQueue.step, hpop, Deque.step, hitems]
      exact ⟨rfl, hrest, hcap.trans h.2⟩
  | popBack =>
    cases hitems : d.items using List.reverseRecOn with
    | nil =>
      rw [hitems] at hholds
      rw [CQueue.step, hholds.pop_error.2, Deque.step, hitems]
      exact ⟨rfl, hholds, h.2⟩
    | append_singleton rest x =>
      rw [hitems] at hholds
      obtain ⟨q', hpop, hrest, hcap⟩ := hholds.popBack
      rw [CQueue.step, hpop, Deque.step, hitems, List.getLast?_concat, List.dropLast_concat]
      exact ⟨rfl, hrest, hcap.trans h.2⟩
  | get pos =>
    rw [CQueue.step, hholds.get]
    exact agree_lookup h
  | front =>
    rw [CQueue.step, hholds.get, ← List.head?_eq_getElem?]
    exact agree_lookup h
  | back =>
    rw [CQueue.step, hholds.get_lastPos]
    exact agree_lookup h
  | size => exact ⟨congrArg Answer.count hlength, h⟩
  | empty =>
    refine ⟨?_, h⟩
    rw [hlength]
    cases d.items <;> rfl
  | full =>
    refine ⟨?_, h⟩
    rw [hlength, h.2]
  | items =>
    rw [CQueue.step, hholds.items]
    exact ⟨rfl, h⟩
  | reserve n => exact agree_within h hholds.reserve hholds.reserve_error
  | shrinkToFit => exact agree_done h hholds.shrinkToFit
  | clear => exact agree_done h hholds.clear
  | assignSelf => exact agree_done h (hholds.assign hholds)

/-- New queues represent new lists; the same capacities are refused. -/
theorem new_represents (capacity : ℕ) :
    (CQueue.new (α := α) capacity = .error .lengthError ∧
      Deque.new (α := α) capacity = .error .lengthError) ∨
    ∃ q d, CQueue.new (α := α) capacity = .ok q ∧ Deque.new (α := α) capacity = .ok d ∧
      Represents q d := by
  unfold CQueue.new Deque.new
  split
  · exact .inl ⟨rfl, rfl⟩
  · next hcapacity =>
    refine .inr ⟨_, _, rfl, rfl, ⟨laid_replicate 0, rfl, Nat.zero_le _, ?_, ?_⟩, rfl⟩
    · change 0 < if capacity = 0 then maxCapacity else capacity
      split
      · decide
      · omega
    · change (if capacity = 0 then maxCapacity else capacity) ≤ maxCapacity
      split <;> omega

/-- Whatever the capacity and the calls, the circular queue answers as the list. -/
theorem cqueue_outputs (capacity : ℕ) (ops : List (QueueOp α)) :
    (CQueue.new capacity).map (fun q => outputs CQueue.step q ops) =
      (Deque.new capacity).map (fun d => outputs Deque.step d ops) := by
  obtain ⟨hleft, hright⟩ | ⟨q, d, hleft, hright, h⟩ := new_represents (α := α) capacity
  · rw [hleft, hright]
    rfl
  · rw [hleft, hright]
    exact congrArg Except.ok
      (outputs_eq_of_bisimulation (fun _ _ op h => step_agree h op) q d h ops)

/-- The queue after a call. -/
def CQueue.next (q : CQueue α) (op : QueueOp α) : Option (CQueue α) := (q.step op).map Prod.fst

/-- Calls keep the queue in step with some list. -/
theorem next_represents {q q' : CQueue α} {op : QueueOp α} (hnext : q.next op = some q')
    (h : ∃ d, Represents q d) : ∃ d, Represents q' d := by
  obtain ⟨d, h⟩ := h
  obtain ⟨answer, hstep, rfl⟩ := Option.map_eq_some_iff.mp hnext
  have hagree := step_agree h op
  rw [hstep] at hagree
  cases hd : d.step op with
  | none => exact absurd hagree (by simp [hd, Agree])
  | some other =>
    rw [hd] at hagree
    exact ⟨other.1, hagree.2⟩

/-- After any calls the objects in memory are the elements, each once, within the capacity, and
the destructor destroys them all and frees the memory. -/
theorem cqueue_objects {capacity : ℕ} {q q' : CQueue α} {ops : List (QueueOp α)}
    (hnew : CQueue.new capacity = .ok q) (hrun : Run CQueue.next anyStep q ops q') :
    ∃ xs, q'.items = .ok xs ∧ (q'.data.filterMap id).Perm xs ∧ xs.length ≤ q'.reserved ∧
      q'.reserved ≤ q'.capacity ∧ ∃ q'', q'.reset = .ok q'' ∧ q''.data = [] := by
  have hstart : ∃ d, Represents q d := by
    obtain ⟨herror, -⟩ | ⟨q₀, d, hq₀, -, h⟩ := new_represents (α := α) capacity
    · simp [herror] at hnew
    · rw [hq₀] at hnew
      cases hnew
      exact ⟨d, h⟩
  have hlast : ∃ d, Represents q' d := hrun.invariant
    (fun _ _ _ _ hstep h => next_represents hstep h) hstart
  obtain ⟨d, h, -⟩ := hlast
  exact ⟨d.items, h.items, h.laid.perm, h.length_le, h.reserved_le, _, h.reset, rfl⟩

/-- A queue of two that wrapped around and refused a third element. -/
theorem cqueue_objects_full : ∃ q' : CQueue ℕ,
    q'.items = .ok [7, 5] ∧ (q'.data.filterMap id).Perm [7, 5] ∧ q'.data = [some 5, some 7] := by
  have hnew : CQueue.new 2 = .ok (CQueue.mk ([] : Slots ℕ) 2 0 0) := rfl
  have hexec : (execute CQueue.next (fun _ _ => true) (CQueue.mk ([] : Slots ℕ) 2 0 0)
      [.pushBack 5, .pushFront 7, .pushBack 9]).map (fun q' => (q'.items.toOption, q'.data)) =
      some (some [7, 5], [some 5, some 7]) := by decide +kernel
  obtain ⟨q', hrun, hlast⟩ :=
    exists_run_of_execute (fun s e _ => (trivial : anyStep s e)) hexec
  obtain ⟨xs, hitems, hperm, -⟩ := cqueue_objects hnew hrun
  obtain ⟨hlisted, hdata⟩ := Prod.mk.inj hlast
  rw [hitems] at hlisted
  cases hlisted
  exact ⟨q', hitems, hperm, hdata⟩

end Nplex.Deps
