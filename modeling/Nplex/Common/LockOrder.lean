import Mathlib.Logic.Relation
import Mathlib.Data.List.Basic

/-!
# Taking locks in order

Threads execute code that takes and releases locks. If every lock is taken above all the locks
the thread already holds, or is one it holds and may take again, then no threads wait for each
other in a cycle: along a chain of waiting threads the wanted locks rise. The order of the locks
that a piece of code takes is checked on its text, scope by scope.
-/

namespace Nplex.Common

/-- One instruction: of a lock, or another act. -/
inductive Instr (Lock Act : Type*)
  | lock (l : Lock)
  | unlock (l : Lock)
  | act (a : Act)
  deriving DecidableEq

section Waiting

variable {Thread Lock : Type*}

/-- The locks that threads hold, and the lock each one wants. -/
structure Locking (Thread Lock : Type*) where
  held : Thread → Lock → Prop
  wanted : Thread → Option Lock
  reentrant : Lock → Prop

/-- A thread waits for the one that holds the lock it wants, which may be itself. -/
def Locking.WaitsFor (s : Locking Thread Lock) (a b : Thread) : Prop :=
  ∃ l, s.wanted a = some l ∧ s.held b l ∧ (a = b → ¬s.reentrant l)

/-- Along a relation that raises a rank there is no cycle. -/
theorem not_transGen_of_rank {R : Thread → Thread → Prop} (rank : Thread → ℕ)
    (hrank : ∀ a b c, R a b → R b c → rank a < rank b) (a : Thread) :
    ¬Relation.TransGen R a a := by
  have hpath : ∀ {a b}, Relation.TransGen R a b → ∀ {c}, R b c → rank a < rank b := by
    intro a b hab
    induction hab with
    | single h => exact fun hc => hrank _ _ _ h hc
    | tail _ h ih => exact fun hc => Nat.lt_trans (ih h) (hrank _ _ _ h hc)
  intro hcycle
  obtain ⟨b, hb, -⟩ := Relation.TransGen.head'_iff.mp hcycle
  exact Nat.lt_irrefl _ (hpath hcycle hb)

/-- Every lock has at most one holder, and is wanted above all that its thread holds. -/
structure Locking.Ordered (s : Locking Thread Lock) (rank : Lock → ℕ) : Prop where
  exclusive : ∀ a b l, s.held a l → s.held b l → a = b
  above : ∀ a m, s.wanted a = some m →
    (∀ l, s.held a l → rank l < rank m) ∨ s.held a m ∧ s.reentrant m

/-- Threads that take their locks in order do not wait for each other in a cycle. -/
theorem Locking.Ordered.no_cycle {s : Locking Thread Lock} {rank : Lock → ℕ}
    (h : s.Ordered rank) (a : Thread) : ¬Relation.TransGen s.WaitsFor a a := by
  refine not_transGen_of_rank (fun a => (s.wanted a).elim 0 rank) ?_ a
  rintro a b c ⟨l, hl, hheld, -⟩ ⟨m, hm, hholder, hself⟩
  simp only [hl, hm, Option.elim_some]
  rcases h.above b m hm with habove | ⟨hmine, hreentrant⟩
  · exact habove l hheld
  · exact absurd hreentrant (hself (h.exclusive _ _ _ hmine hholder))

end Waiting

section Code

variable {Lock Act : Type*} [DecidableEq Lock]

/-- The scope of a lock. -/
def locked (l : Lock) (body : List (Instr Lock Act)) : List (Instr Lock Act) :=
  .lock l :: body ++ [.unlock l]

/-- How locks are to be taken, and where other acts are allowed. -/
structure Discipline (Lock Act : Type*) where
  rank : Lock → ℕ
  reentrant : Lock → Bool
  allows : List Lock → Act → Prop

namespace Discipline

variable (d : Discipline Lock Act)

/-- The lock may be taken by a thread that holds others. -/
def MayTake (held : List Lock) (l : Lock) : Prop :=
  (∀ h ∈ held, d.rank h < d.rank l) ∨ l ∈ held ∧ d.reentrant l = true

/-- The code keeps the discipline when it starts with the given locks. -/
def InOrder : List Lock → List (Instr Lock Act) → Prop
  | _, [] => True
  | held, .lock l :: code => d.MayTake held l ∧ InOrder (l :: held) code
  | held, .unlock l :: code => InOrder (held.erase l) code
  | held, .act a :: code => d.allows held a ∧ InOrder held code

/-- The code keeps the discipline and leaves the locks as they were. -/
def Block (held : List Lock) (body : List (Instr Lock Act)) : Prop :=
  ∀ rest, d.InOrder held rest → d.InOrder held (body ++ rest)

variable {d} {held : List Lock}

/-- No code is a block. -/
theorem Block.nil : d.Block held [] := fun _ h => h

/-- Blocks follow one another. -/
theorem Block.append {first second : List (Instr Lock Act)} (hfirst : d.Block held first)
    (hsecond : d.Block held second) : d.Block held (first ++ second) := by
  intro rest hrest
  rw [List.append_assoc]
  exact hfirst _ (hsecond _ hrest)

/-- Any number of blocks is one. -/
theorem Block.flatMap {A : Type*} {f : A → List (Instr Lock Act)} {as : List A}
    (h : ∀ a ∈ as, d.Block held (f a)) : d.Block held (as.flatMap f) := by
  induction as with
  | nil => exact .nil
  | cons a as ih =>
    exact (h a List.mem_cons_self).append (ih fun b hb => h b (List.mem_cons_of_mem a hb))

/-- An allowed act is a block. -/
theorem Block.act {a : Act} (h : d.allows held a) : d.Block held [.act a] := fun _ hrest => ⟨h, hrest⟩

/-- A scope is a block when its lock may be taken and its body is one. -/
theorem Block.locked {l : Lock} {body : List (Instr Lock Act)} (hl : d.MayTake held l)
    (hbody : d.Block (l :: held) body) : d.Block held (locked l body) := by
  intro rest hrest
  have hunlock : d.InOrder (l :: held) (.unlock l :: rest) := by
    rwa [InOrder, List.erase_cons_head]
  rw [Nplex.Common.locked, List.cons_append, List.cons_append, List.append_assoc]
  exact ⟨hl, hbody _ hunlock⟩

end Discipline

end Code

end Nplex.Common
