import Mathlib.Data.Fintype.BigOperators
import Nplex.Common.Transition
import Nplex.Types

/-!
# Shared strings

The strings that keys are made of: objects that point to a shared block with an atomic counter
of its references. Threads run the methods of different objects at the same time. A method is
a sequence of accesses to the counter, and the accesses of all threads interleave.

A method may not run on an object that another method is changing or, unless both only read
it, reading; this is what the language asks of the threads.
-/

namespace Nplex.Deps

open Nplex.Common

/-- The longest string, `max_size`. -/
def maxSize : ℕ := 2 ^ 32 - 2

/-- `get_allocated_length`: the counter, the length and the characters with a final NUL, in
units of four bytes. -/
def getAllocatedLength (len : ℕ) : ℕ := 3 + len / 4

/-- An allocated block: its size in units of four bytes, and what is in it. -/
structure Block where
  size : ℕ
  counter : UInt32
  len : UInt32
  content : Bytes
  deriving DecidableEq, Repr

/-- The block that a constructor fills: one reference, and the length cut to 32 bits. -/
def Block.new (str : Bytes) : Block :=
  ⟨getAllocatedLength str.length, 1, UInt32.ofNat str.length, str⟩

/-- `fetch_add` on the counter. -/
def Block.fetchAdd (b : Block) : Block := { b with counter := b.counter + 1 }

/-- `fetch_sub` on the counter. -/
def Block.fetchSub (b : Block) : Block := { b with counter := b.counter - 1 }

variable (Obj Thread Addr : Type)

/-- What a thread inside a method does next. -/
inductive Task where
  /-- Load the counter of the string that the object `d` takes over from `s`. -/
  | load (d s : Obj) (str : Option Addr)
  /-- Increment the counter after it was loaded. -/
  | add (d s : Obj) (a : Addr)
  /-- Decrement the counter, then perhaps assign `s` to `d`. -/
  | sub (a : Addr) (assign : Option (Obj × Obj))
  /-- Free the block after the last reference was dropped. -/
  | free (a : Addr) (assign : Option (Obj × Obj))
  deriving DecidableEq

/-- The calls of methods by threads, and the next access of a thread inside one. -/
inductive Event where
  | create (t : Thread) (d : Obj) (str : Bytes) (a : Addr)
  | copy (t : Thread) (d s : Obj)
  | move (t : Thread) (d s : Obj)
  | assign (t : Thread) (d s : Obj)
  | swap (t : Thread) (d s : Obj)
  | destroy (t : Thread) (d : Obj)
  | advance (t : Thread)

/-- Blocks, live objects, methods under way, and whether memory was misused. The pointer of an
object is none where it points to `m_empty`, whose counter is 0. -/
structure Strings where
  heap : Addr → Option Block
  objects : Obj → Option (Option Addr)
  tasks : Thread → Option (Task Obj Addr)
  fault : Bool

/-- No objects. -/
def Strings.init : Strings Obj Thread Addr :=
  ⟨fun _ => none, fun _ => none, fun _ => none, false⟩

variable {Obj Thread Addr}

/-- The object that a method under way makes or assigns. -/
def Task.target : Task Obj Addr → Option Obj
  | .load d _ _ => some d
  | .add d _ _ => some d
  | .sub _ assign => assign.map Prod.fst
  | .free _ assign => assign.map Prod.fst

/-- The object that a method under way reads. -/
def Task.source : Task Obj Addr → Option Obj
  | .load _ s _ => some s
  | .add _ s _ => some s
  | .sub _ assign => assign.map Prod.snd
  | .free _ assign => assign.map Prod.snd

namespace Strings

variable [DecidableEq Obj] [DecidableEq Thread] [DecidableEq Addr]

/-- Point a thread to its next access. -/
def goto (c : Strings Obj Thread Addr) (t : Thread) (k : Option (Task Obj Addr)) :
    Strings Obj Thread Addr :=
  { c with tasks := Function.update c.tasks t k }

/-- Let an object point to a string. -/
def point (c : Strings Obj Thread Addr) (d : Obj) (str : Option (Option Addr)) :
    Strings Obj Thread Addr :=
  { c with objects := Function.update c.objects d str }

/-- Write a block, or free its memory. -/
def store (c : Strings Obj Thread Addr) (a : Addr) (b : Option Block) : Strings Obj Thread Addr :=
  { c with heap := Function.update c.heap a b }

/-- Memory that is not a block was accessed. -/
def fail (c : Strings Obj Thread Addr) : Strings Obj Thread Addr := { c with fault := true }

/-- The rest of a method after `release`: the object shares the string of another, or nothing. -/
def resume (c : Strings Obj Thread Addr) (t : Thread) : Option (Obj × Obj) → Strings Obj Thread Addr
  | none => c.goto t none
  | some (d, s) =>
    match c.objects s with
    | none => c.fail
    | some str => c.goto t (some (.load d s str))

/-- `release`, up to its first access. -/
def release (c : Strings Obj Thread Addr) (t : Thread) (str : Option Addr)
    (assign : Option (Obj × Obj)) : Strings Obj Thread Addr :=
  match str with
  | none => c.resume t assign
  | some a => c.goto t (some (.sub a assign))

/-- The next access of a method. -/
def access (c : Strings Obj Thread Addr) (t : Thread) : Task Obj Addr → Strings Obj Thread Addr
  | .load d _ none => (c.goto t none).point d (some none)
  | .load d s (some a) =>
    match c.heap a with
    | none => c.fail
    | some b =>
      if 0 < b.counter then c.goto t (some (.add d s a))
      else (c.goto t none).point d (some (some a))
  | .add d _ a =>
    match c.heap a with
    | none => c.fail
    | some b => ((c.store a (some b.fetchAdd)).goto t none).point d (some (some a))
  | .sub a assign =>
    match c.heap a with
    | none => c.fail
    | some b =>
      let c := c.store a (some b.fetchSub)
      if b.counter = 1 then c.goto t (some (.free a assign)) else c.resume t assign
  | .free a assign =>
    match c.heap a with
    | none => c.fail
    | some b =>
      if b.size = getAllocatedLength b.len.toNat then (c.store a none).resume t assign else c.fail

variable [Fintype Thread]

/-- No method under way makes or assigns the object. -/
def Unwritten (c : Strings Obj Thread Addr) (o : Obj) : Prop :=
  ∀ t, (c.tasks t).all (fun k => decide (k.target ≠ some o)) = true

/-- No method under way reads the object. -/
def Unread (c : Strings Obj Thread Addr) (o : Obj) : Prop :=
  ∀ t, (c.tasks t).all (fun k => decide (k.source ≠ some o)) = true

instance (c : Strings Obj Thread Addr) (o : Obj) : Decidable (c.Unwritten o) :=
  inferInstanceAs (Decidable (∀ _, _))

instance (c : Strings Obj Thread Addr) (o : Obj) : Decidable (c.Unread o) :=
  inferInstanceAs (Decidable (∀ _, _))

/-- One call or access. Calls are refused where the language forbids them, and the allocator
never gives memory that is in use. -/
def step (c : Strings Obj Thread Addr) : Event Obj Thread Addr → Option (Strings Obj Thread Addr)
  | .create t d str a =>
    if c.tasks t = none ∧ c.objects d = none ∧ c.Unwritten d then
      -- `std::length_error`: there is no object
      if maxSize < str.length then some c
      else if str = [] then some (c.point d (some none))
      else if c.heap a = none then
        some ((c.store a (some (Block.new str))).point d (some (some a)))
      else none
    else none
  | .copy t d s =>
    if c.tasks t = none ∧ c.objects d = none ∧ c.Unwritten d then
      (c.objects s).map fun str => c.goto t (some (.load d s str))
    else none
  | .move t d s =>
    if c.tasks t = none ∧ c.objects d = none ∧ c.Unwritten d ∧ c.Unread s then
      (c.objects s).map fun str => (c.point d (some str)).point s (some none)
    else none
  | .assign t d s =>
    if c.tasks t = none ∧ c.Unread d then
      match c.objects d, c.objects s with
      | some old, some str =>
        if old = str then some c else some ((c.point d none).release t old (some (d, s)))
      | _, _ => none
    else none
  | .swap t d s =>
    if c.tasks t = none ∧ c.Unread d ∧ c.Unread s then
      match c.objects d, c.objects s with
      | some old, some str => some ((c.point d (some str)).point s (some old))
      | _, _ => none
    else none
  | .destroy t d =>
    if c.tasks t = none ∧ c.Unread d then
      (c.objects d).map fun old => (c.point d none).release t old none
    else none
  | .advance t => (c.tasks t).map fun k => c.access t k

/-- The characters that a pointer leads to. -/
def content (c : Strings Obj Thread Addr) : Option Addr → Option Bytes
  | none => some []
  | some a => (c.heap a).map Block.content

end Strings

end Nplex.Deps
