import Nplex.Common.LockOrder
import Nplex.Common.Transition

/-!
# The mutexes of the client

The event loop and the users' threads share five kinds of mutexes. Every operation is the code of
its locks: which it takes, in which order and scope, on one of its paths, and where it runs code
of the user or drops a reference to a transaction. The destructor of a transaction discards it,
under the mutex of its promise; it runs when no other reference is left.
-/

namespace Nplex

open Nplex.Common

/-- The mutexes. -/
inductive Mutex
  /-- `client_impl::m_mutex_transactions`. -/
  | transactions
  /-- `transaction_impl::m_mutex_items`, which is recursive. -/
  | items (t : ℕ)
  /-- `store_t::m_mutex`, which is recursive. -/
  | store
  /-- `transaction_impl::m_mutex_promise`. -/
  | promise (t : ℕ)
  /-- `client_impl::m_mutex_commands`. -/
  | commands
  deriving DecidableEq, Repr

/-- What the threads do besides taking and releasing mutexes. -/
inductive Act
  /-- A reference to a transaction is dropped. -/
  | drop (t : ℕ)
  /-- Code of the user: in the callback of `for_each` of a transaction, or outside of it. -/
  | user (visiting : Option ℕ)
  /-- The event loop between two of its callbacks. -/
  | dispatch
  deriving DecidableEq, Repr

/-- The operations of the users. A flag `cached` says that the key is among the items. -/
inductive Op
  /-- `create_tx`, whose `purge_unused_txs` drops the given transactions. -/
  | createTx (purged : List ℕ)
  /-- `push_command`, for `close`, `ping` and `fetch_sessions`. A wait takes the same mutex each
  time it is awake. -/
  | pushCommand
  | rev
  | read (t : ℕ) (cached ensures : Bool)
  /-- `upsert` and `upsert_if_changed`. -/
  | upsert (t : ℕ) (cached : Bool)
  | remove (t : ℕ) (cached : Bool)
  /-- `remove` with a pattern, for each key that it visits. -/
  | removePattern (t : ℕ) (cached : List Bool)
  | ensure (t : ℕ)
  | forEach (t : ℕ)
  /-- `submit`, which may end before `push_command`. -/
  | submit (t : ℕ) (pushes : Bool)
  | discard (t : ℕ)
  /-- The user drops a reference. -/
  | release (t : ℕ)
  deriving DecidableEq, Repr

/-- The functions of the event loop. -/
inductive LoopTask
  /-- `process_update`: the accepted transactions that are discarded, the visited ones with whether
  they are open (else they are dropped), the purged ones, and the confirmed one. -/
  | processUpdate (discarded : List ℕ) (visits : List (ℕ × Bool)) (purged : Option (List ℕ))
      (confirmed : Option ℕ)
  /-- A turn of `process_commands`; a submit may be refused. -/
  | processCommand (refused : Option ℕ)
  | processSnapshotResp
  | processUpdatesResp
  /-- `process_submit_resp`: the skipped requests and the completed one. -/
  | processSubmitResp (skipped : List ℕ) (t : ℕ)
  | cancelRequests (ts : List ℕ)
  /-- `set_state` with CLOSED: the queued transactions and the registered ones. -/
  | setClosed (queued registered : List ℕ)
  /-- `abort`, which empties the commands again. -/
  | abort (queued registered late : List ℕ)
  /-- A callback of the manager or the reactor. -/
  | callback
  deriving DecidableEq, Repr

/-- The code of a thread. -/
abbrev Code := List (Instr Mutex Act)

/-- References are dropped one after the other. -/
def dropAll (ts : List ℕ) : Code := ts.flatMap fun t => [.act (.drop t)]

/-- `client_impl::purge_unused_txs`. -/
def purgeCode (purged : List ℕ) : Code := locked .transactions (dropAll purged)

/-- A key is looked up in the items and, unless it is there, in the store. -/
def lookupCode (t : ℕ) (cached : Bool) (rest : Code) : Code :=
  locked (.items t) (if cached then rest else locked .store rest)

/-- The code of an operation. -/
def Op.code : Op → Code
  | .createTx purged => purgeCode purged ++ locked .transactions (locked .store [])
  | .pushCommand => locked .commands []
  | .rev => locked .store []
  | .read t cached ensures => lookupCode t cached (if ensures then locked (.items t) [] else [])
  | .upsert t cached => lookupCode t cached []
  | .remove t cached => lookupCode t cached []
  | .removePattern t cached =>
    locked (.items t) (locked .store (locked (.items t) (locked .store
      (cached.flatMap fun c => lookupCode t c []))))
  | .ensure t => locked (.items t) []
  | .forEach t => locked (.items t) (locked .store [.act (.user (some t))])
  | .submit t pushes =>
    locked (.items t) (locked (.promise t) (if pushes then locked .commands [] else []))
  | .discard t => locked (.promise t) []
  | .release t => [.act (.drop t)]

/-- `set_submit_result` or `confirm_commit`, and the end of the request. -/
def completeCode (t : ℕ) : Code := locked (.promise t) [] ++ [.act (.drop t)]

/-- `client_impl::set_state` with CLOSED. -/
def setClosedCode (queued registered : List ℕ) : Code :=
  locked .transactions (locked .commands (dropAll queued)) ++ dropAll registered

/-- The code of a function of the event loop. -/
def LoopTask.code : LoopTask → Code
  | .processUpdate discarded visits purged confirmed =>
    locked .store [] ++ discarded.flatMap completeCode ++
      locked .transactions (visits.flatMap fun visit =>
        if visit.2 then locked (.items visit.1) [] else [.act (.drop visit.1)]) ++
      purged.toList.flatMap purgeCode ++ confirmed.toList.flatMap completeCode ++
      [.act (.user none)]
  | .processCommand refused => locked .commands [] ++ refused.toList.flatMap completeCode
  | .processSnapshotResp => locked .store [] ++ [.act (.user none)]
  | .processUpdatesResp => locked .store []
  | .processSubmitResp skipped t => dropAll skipped ++ completeCode t
  | .cancelRequests ts => ts.flatMap completeCode
  | .setClosed queued registered => setClosedCode queued registered
  | .abort queued registered late =>
    setClosedCode queued registered ++ locked .commands (dropAll late)
  | .callback => [.act (.user none)]

namespace Mutex

/-- The order of the mutexes. -/
def rank : Mutex → ℕ
  | .transactions => 0
  | .items _ => 1
  | .store => 2
  | .promise _ => 3
  | .commands => 4

/-- A recursive mutex. -/
def reentrant : Mutex → Bool
  | .items _ | .store => true
  | .transactions | .promise _ | .commands => false

/-- The transaction the mutex is part of. -/
def tx : Mutex → Option ℕ
  | .items t | .promise t => some t
  | .transactions | .store | .commands => none

/-- The mutex may be taken in the callback of `for_each` of a transaction: it is neither that of
the transactions nor that of the items of another one. -/
def fits (t : ℕ) : Mutex → Bool
  | .transactions => false
  | .items u => u = t
  | .store | .promise _ | .commands => true

end Mutex

/-- A thread: what it has left to do, and the mutexes it holds. -/
structure LockThread where
  code : Code
  held : List Mutex := []
  deriving DecidableEq

/-- The thread refers to a transaction, in what it holds or has left to do. -/
def LockThread.refersTo (thread : LockThread) (t : ℕ) : Bool :=
  thread.held.any (fun m => m.tx = some t) ||
    thread.code.any fun
      | .lock m | .unlock m => m.tx = some t
      | .act (.drop u) => u = t
      | .act (.user visiting) => visiting = some t
      | .act .dispatch => false

/-- The threads; the first one is the event loop. -/
structure Threads where
  threads : List LockThread
  deriving DecidableEq

namespace Threads

/-- The event loop and some users. -/
def start (users : ℕ) : Threads :=
  ⟨{ code := [.act .dispatch] } :: List.replicate users { code := [.act (.user none)] }⟩

/-- What a thread does next. -/
inductive Event
  /-- It takes or releases a mutex. -/
  | next (n : ℕ)
  /-- It drops a reference, which may be the last one. -/
  | drop (n : ℕ) (last : Bool)
  /-- The user's code calls an operation. -/
  | call (n : ℕ) (op : Op)
  /-- The user's code returns. -/
  | back (n : ℕ)
  /-- The event loop calls one of its functions. -/
  | dispatch (n : ℕ) (task : LoopTask)
  deriving DecidableEq

/-- No other thread holds the mutex, and the thread does not hold it unless it is recursive. -/
def isFree (s : Threads) (n : ℕ) (m : Mutex) : Bool :=
  s.threads.zipIdx.all fun thread => !thread.1.held.contains m || thread.2 = n && m.reentrant

/-- One step of a thread. -/
def step (s : Threads) : Event → Option Threads
  | .next n =>
    match s.threads[n]? with
    | some ⟨.lock m :: rest, held⟩ =>
      if s.isFree n m then some ⟨s.threads.set n ⟨rest, m :: held⟩⟩ else none
    | some ⟨.unlock m :: rest, held⟩ => some ⟨s.threads.set n ⟨rest, held.erase m⟩⟩
    | _ => none
  | .drop n last =>
    match s.threads[n]? with
    | some ⟨.act (.drop t) :: rest, held⟩ =>
      if !last then some ⟨s.threads.set n ⟨rest, held⟩⟩
      -- The destructor takes the mutex of the promise, which is free: nobody refers to it.
      else if (s.threads.set n ⟨rest, held⟩).all fun thread => !thread.refersTo t then
        some ⟨s.threads.set n ⟨.unlock (.promise t) :: rest, .promise t :: held⟩⟩
      else none
    | _ => none
  | .call n op =>
    match s.threads[n]? with
    | some ⟨.act (.user visiting) :: rest, held⟩ =>
      some ⟨s.threads.set n ⟨op.code ++ .act (.user visiting) :: rest, held⟩⟩
    | _ => none
  | .back n =>
    match s.threads[n]? with
    | some ⟨.act (.user _) :: rest, held⟩ => some ⟨s.threads.set n ⟨rest, held⟩⟩
    | _ => none
  | .dispatch n task =>
    match s.threads[n]? with
    | some ⟨.act .dispatch :: rest, held⟩ =>
      some ⟨s.threads.set n ⟨task.code ++ .act .dispatch :: rest, held⟩⟩
    | _ => none

/-- The callbacks of `for_each` take neither the mutex of the transactions nor that of the items
of another transaction. -/
def keepsOrder (s : Threads) : Event → Prop
  | .call n op => ∀ t rest held, s.threads[n]? = some ⟨.act (.user (some t)) :: rest, held⟩ →
      ∀ m, .lock m ∈ op.code → m.fits t = true
  | _ => True

/-- The same, checked. -/
def checkOrder (s : Threads) : Event → Bool
  | .call n op =>
    match s.threads[n]? with
    | some ⟨.act (.user (some t)) :: _, _⟩ => op.code.all fun
      | .lock m => m.fits t
      | _ => true
    | _ => true
  | _ => true

/-- An order that was checked is kept. -/
theorem keepsOrder_of_checkOrder {s : Threads} {e : Event} (h : s.checkOrder e = true) :
    s.keepsOrder e := by
  cases e with
  | call n op =>
    intro t rest held hthread m hm
    simp only [checkOrder, hthread] at h
    exact List.all_eq_true.mp h _ hm
  | _ => trivial

/-- The mutexes held and wanted. -/
def locking (s : Threads) : Locking ℕ Mutex where
  held n m := ∃ thread, s.threads[n]? = some thread ∧ m ∈ thread.held
  wanted n :=
    match s.threads[n]? with
    | some ⟨.lock m :: _, _⟩ => some m
    | _ => none
  reentrant m := m.reentrant = true

/-- The discipline: the order of the mutexes, and no mutex is held where the user's code runs, but
for those of `for_each`. -/
def discipline : Discipline Mutex Act where
  rank := Mutex.rank
  reentrant := Mutex.reentrant
  allows held
    | .drop _ => True
    | .user none | .dispatch => held = []
    | .user (some t) => Mutex.items t ∈ held ∧ Mutex.store ∈ held ∧
        ∀ m ∈ held, m = .items t ∨ m = .store

/-- The invariant: all that is left to do keeps the discipline, and nobody shares a mutex. -/
structure Orderly (s : Threads) : Prop where
  inOrder : ∀ (n : ℕ) (thread : LockThread), s.threads[n]? = some thread →
    discipline.InOrder thread.held thread.code
  exclusive : ∀ (a b : ℕ) (m : Mutex), s.locking.held a m → s.locking.held b m → a = b

section Blocks

variable {held : List Mutex} {t u : ℕ}

/-- Operations on the transaction may start: its items may be taken, then the store, and nothing
above the store is held. -/
structure Ready (held : List Mutex) (t : ℕ) : Prop where
  items : discipline.MayTake held (.items t)
  store : discipline.MayTake held .store
  storeInItems : discipline.MayTake (.items t :: held) .store
  low : ∀ m ∈ held, m.rank ≤ 2

/-- A thread that holds nothing is ready for any transaction. -/
theorem ready_nil (t : ℕ) : Ready [] t :=
  ⟨Or.inl (by simp), Or.inl (by simp), Or.inl (by simp [discipline, Mutex.rank]), by simp⟩

/-- In the callback of `for_each`, for the same transaction. -/
theorem ready_visiting (hitems : Mutex.items t ∈ held) (hstore : Mutex.store ∈ held)
    (hheld : ∀ m ∈ held, m = .items t ∨ m = .store) : Ready held t := by
  refine ⟨Or.inr ⟨hitems, rfl⟩, Or.inr ⟨hstore, rfl⟩,
    Or.inr ⟨List.mem_cons_of_mem _ hstore, rfl⟩, fun m hm => ?_⟩
  rcases hheld m hm with rfl | rfl <;> simp [Mutex.rank]

/-- Taking the items once more. -/
theorem Ready.cons_items (h : Ready held t) : Ready (.items t :: held) t := by
  refine ⟨Or.inr ⟨List.mem_cons_self, rfl⟩, h.storeInItems, ?_, fun m hm => ?_⟩
  · rcases h.storeInItems with hbelow | ⟨hmem, hreentrant⟩
    · refine Or.inl fun m hm => ?_
      rcases List.mem_cons.mp hm with rfl | hm
      · simp [discipline, Mutex.rank]
      · exact hbelow m hm
    · exact Or.inr ⟨List.mem_cons_of_mem _ hmem, hreentrant⟩
  · rcases List.mem_cons.mp hm with rfl | hm
    · simp [Mutex.rank]
    · exact h.low m hm

/-- Taking the store, with the items held. -/
theorem Ready.cons_store (h : Ready held t) (hitems : Mutex.items t ∈ held) :
    Ready (.store :: held) t := by
  refine ⟨Or.inr ⟨List.mem_cons_of_mem _ hitems, rfl⟩, Or.inr ⟨List.mem_cons_self, rfl⟩,
    Or.inr ⟨List.mem_cons_of_mem _ List.mem_cons_self, rfl⟩, fun m hm => ?_⟩
  rcases List.mem_cons.mp hm with rfl | hm
  · simp [Mutex.rank]
  · exact h.low m hm

/-- The mutex of a promise may be taken then. -/
theorem Ready.promise (h : Ready held t) (u : ℕ) : discipline.MayTake held (.promise u) :=
  Or.inl fun m hm => Nat.lt_succ_of_le (h.low m hm)

/-- The lookup of an item goes on as a block if what follows does. -/
theorem block_lookupCode (h : Ready held t) (cached : Bool) {rest : Code}
    (hrest : ∀ held, Ready held t → discipline.Block held rest) :
    discipline.Block held (lookupCode t cached rest) := by
  refine .locked h.items ?_
  split
  · exact hrest _ h.cons_items
  · exact .locked h.storeInItems (hrest _ (h.cons_items.cons_store List.mem_cons_self))

/-- Dropping the transactions is a block. -/
theorem block_dropAll (held : List Mutex) (ts : List ℕ) : discipline.Block held (dropAll ts) :=
  .flatMap fun _ _ => .act trivial

/-- What is held where the user's code runs. -/
theorem ready_of_allows {visiting : Option ℕ} (h : discipline.allows held (.user visiting))
    (hfits : ∀ t, visiting = some t → (Mutex.items u).fits t = true) :
    Ready held u ∧ ∀ m ∈ held, m = .items u ∨ m = .store := by
  cases visiting with
  | none =>
    obtain rfl : held = [] := h
    exact ⟨ready_nil u, by simp⟩
  | some t =>
    obtain ⟨hitems, hstore, hheld⟩ := h
    obtain rfl : u = t := by simpa [Mutex.fits] using hfits t rfl
    exact ⟨ready_visiting hitems hstore hheld, hheld⟩

/-- An operation that the user's code may call keeps the discipline. -/
theorem block_code {visiting : Option ℕ} (h : discipline.allows held (.user visiting)) {op : Op}
    (hfits : ∀ t, visiting = some t → ∀ m, .lock m ∈ op.code → m.fits t = true) :
    discipline.Block held op.code := by
  have hready : ∀ {u}, .lock (.items u) ∈ op.code →
      Ready held u ∧ ∀ m ∈ held, m = .items u ∨ m = .store :=
    fun hlock => ready_of_allows h fun t ht => hfits t ht _ hlock
  have hlow : ∀ m ∈ held, m.rank ≤ 2 := by
    cases visiting with
    | none => simp [show held = [] from h]
    | some t => exact (ready_visiting h.1 h.2.1 h.2.2).low
  have hstore : discipline.MayTake held .store := by
    cases visiting with
    | none => exact Or.inl (by simp [show held = [] from h])
    | some t => exact Or.inr ⟨h.2.1, rfl⟩
  have habove : ∀ m : Mutex, 2 < m.rank → discipline.MayTake held m :=
    fun m hm => Or.inl fun m' hm' => Nat.lt_of_le_of_lt (hlow m' hm') hm
  cases op with
  | createTx purged =>
    have hnone : held = [] := by
      cases visiting with
      | none => exact h
      | some t =>
        have hlock := hfits t rfl .transactions (by simp [Op.code, purgeCode, locked])
        cases hlock
    subst hnone
    refine .append (.locked (Or.inl (by simp)) (block_dropAll _ _)) (.locked (Or.inl (by simp)) ?_)
    exact .locked (Or.inl (by simp [discipline, Mutex.rank])) .nil
  | pushCommand => exact .locked (habove _ (by decide)) .nil
  | rev => exact .locked hstore .nil
  | read t cached ensures =>
    refine block_lookupCode (hready (by simp [Op.code, lookupCode, locked])).1 cached
      fun held' hheld' => ?_
    split
    · exact .locked hheld'.items .nil
    · exact .nil
  | upsert t cached =>
    exact block_lookupCode (hready (by simp [Op.code, lookupCode, locked])).1 cached fun _ _ => .nil
  | remove t cached =>
    exact block_lookupCode (hready (by simp [Op.code, lookupCode, locked])).1 cached fun _ _ => .nil
  | removePattern t cached =>
    have hfirst := (hready (u := t) (by simp [Op.code, locked])).1.cons_items
    have hsecond := hfirst.cons_store List.mem_cons_self
    have hthird := hsecond.cons_items
    refine .locked (hready (by simp [Op.code, locked])).1.items (.locked hfirst.store
      (.locked hsecond.items (.locked hthird.store (.flatMap fun c _ => ?_))))
    exact block_lookupCode (hthird.cons_store List.mem_cons_self) c fun _ _ => .nil
  | ensure t => exact .locked (hready (by simp [Op.code, locked])).1.items .nil
  | forEach t =>
    obtain ⟨hfirst, hheld⟩ := hready (u := t) (by simp [Op.code, locked])
    refine .locked hfirst.items (.locked hfirst.storeInItems (.act ⟨by simp, by simp, ?_⟩))
    simpa using hheld
  | submit t pushes =>
    have hfirst := (hready (u := t) (by simp [Op.code, locked])).1
    refine .locked hfirst.items (.locked (hfirst.cons_items.promise t) ?_)
    split
    · refine .locked (Or.inl fun m hm => ?_) .nil
      rcases List.mem_cons.mp hm with rfl | hm
      · simp [discipline, Mutex.rank]
      · exact Nat.lt_of_le_of_lt (hfirst.cons_items.low m hm) (by simp [discipline, Mutex.rank])
    · exact .nil
  | discard t => exact .locked (habove (.promise t) (by simp [Mutex.rank])) .nil
  | release t => exact .act trivial

/-- So is the completion of one. -/
theorem block_completeCode (t : ℕ) : discipline.Block [] (completeCode t) :=
  .append (.locked (Or.inl (by simp)) .nil) (.act trivial)

/-- So is `set_state(CLOSED)`. -/
theorem block_setClosedCode (queued registered : List ℕ) :
    discipline.Block [] (setClosedCode queued registered) :=
  .append (.locked (Or.inl (by simp))
    (.locked (Or.inl (by simp [discipline, Mutex.rank])) (block_dropAll _ _))) (block_dropAll _ _)

/-- The functions of the event loop keep the discipline. -/
theorem block_task (task : LoopTask) : discipline.Block [] task.code := by
  have hany : ∀ m, discipline.MayTake [] m := fun m => Or.inl (by simp)
  cases task with
  | processUpdate discarded visits purged confirmed =>
    refine .append (.append (.append (.append (.append (.locked (hany _) .nil)
      (.flatMap fun t _ => block_completeCode t)) (.locked (hany _) (.flatMap fun visit _ => ?_)))
      (.flatMap fun ts _ => .locked (hany _) (block_dropAll _ ts)))
      (.flatMap fun t _ => block_completeCode t)) (.act rfl)
    split
    · exact .locked (Or.inl (by simp [discipline, Mutex.rank])) .nil
    · exact .act trivial
  | processCommand refused =>
    exact .append (.locked (hany _) .nil) (.flatMap fun t _ => block_completeCode t)
  | processSnapshotResp => exact .append (.locked (hany _) .nil) (.act rfl)
  | processUpdatesResp => exact .locked (hany _) .nil
  | processSubmitResp skipped t => exact .append (block_dropAll _ _) (block_completeCode t)
  | cancelRequests ts => exact .flatMap fun t _ => block_completeCode t
  | setClosed queued registered => exact block_setClosedCode queued registered
  | abort queued registered late =>
    exact .append (block_setClosedCode _ _) (.locked (hany _) (block_dropAll _ _))
  | callback => exact .act rfl

end Blocks

section Steps

variable {s s' : Threads}

/-- A free mutex is held by no other thread. -/
theorem isFree_spec {n : ℕ} {m : Mutex} (h : s.isFree n m = true) {k : ℕ}
    (hk : s.locking.held k m) : k = n ∧ m.reentrant = true := by
  obtain ⟨thread, hthread, hm⟩ := hk
  have hall := List.all_eq_true.mp h (thread, k) (List.mk_mem_zipIdx_iff_getElem?.mpr hthread)
  simpa [hm] using hall

/-- One thread goes on, and holds at most one more mutex, a free one. -/
theorem Orderly.set (h : Orderly s) {n : ℕ} {thread : LockThread} (hn : n < s.threads.length)
    (horder : discipline.InOrder thread.held thread.code)
    (hheld : ∀ m ∈ thread.held, s.locking.held n m ∨ ∀ k, s.locking.held k m → k = n) :
    Orderly ⟨s.threads.set n thread⟩ := by
  have hget : ∀ k, (s.threads.set n thread)[k]? = if n = k then some thread else s.threads[k]? := by
    intro k
    rw [List.getElem?_set]
    split <;> simp_all
  have hlocked : ∀ k m, (Threads.mk (s.threads.set n thread)).locking.held k m →
      k ≠ n ∧ s.locking.held k m ∨ k = n ∧ m ∈ thread.held := by
    rintro k m ⟨other, hother, hm⟩
    rw [show (Threads.mk (s.threads.set n thread)).threads[k]? = _ from hget k] at hother
    split_ifs at hother with hk
    · obtain rfl := Option.some.inj hother
      exact Or.inr ⟨hk.symm, hm⟩
    · exact Or.inl ⟨Ne.symm hk, other, hother, hm⟩
  refine ⟨fun k other hother => ?_, fun a b m ha hb => ?_⟩
  · rw [show (Threads.mk (s.threads.set n thread)).threads[k]? = _ from hget k] at hother
    split_ifs at hother with hk
    · obtain rfl := Option.some.inj hother
      exact horder
    · exact h.inOrder k other hother
  · have halone : ∀ k, k ≠ n → s.locking.held k m → m ∉ thread.held := by
      intro k hk hkm hm
      rcases hheld m hm with hmine | hfree
      · exact hk (h.exclusive _ _ _ hkm hmine)
      · exact hk (hfree k hkm)
    rcases hlocked a m ha with ⟨han, haold⟩ | ⟨han, hanew⟩
    · rcases hlocked b m hb with ⟨-, hbold⟩ | ⟨-, hbnew⟩
      · exact h.exclusive a b m haold hbold
      · exact absurd hbnew (halone a han haold)
    · rcases hlocked b m hb with ⟨hbn, hbold⟩ | ⟨hbn, -⟩
      · exact absurd hanew (halone b hbn hbold)
      · rw [han, hbn]

/-- A thread that holds no more than before. -/
theorem Orderly.set_of_subset (h : Orderly s) {n : ℕ} {code rest : Code} {held held' : List Mutex}
    (hthread : s.threads[n]? = some ⟨code, held⟩) (horder : discipline.InOrder held' rest)
    (hsub : ∀ m ∈ held', m ∈ held) : Orderly ⟨s.threads.set n ⟨rest, held'⟩⟩ :=
  h.set (List.getElem?_eq_some_iff.mp hthread).1 horder
    fun m hm => Or.inl ⟨_, hthread, hsub m hm⟩

/-- Every step keeps the invariant. -/
theorem orderly_step {e : Event} (h : Orderly s) (hguard : s.keepsOrder e)
    (hstep : s.step e = some s') : Orderly s' := by
  cases e with
  | next n =>
    simp only [step] at hstep
    split at hstep
    · next m rest held hthread =>
      split_ifs at hstep with hfree
      obtain rfl := Option.some.inj hstep
      refine h.set (List.getElem?_eq_some_iff.mp hthread).1 (h.inOrder n _ hthread).2
        fun m' hm' => ?_
      rcases List.mem_cons.mp hm' with rfl | hheld
      · exact Or.inr fun k hk => (isFree_spec hfree hk).1
      · exact Or.inl ⟨_, hthread, hheld⟩
    · next m rest held hthread =>
      obtain rfl := Option.some.inj hstep
      exact h.set_of_subset hthread (h.inOrder n _ hthread) fun m' hm' => List.mem_of_mem_erase hm'
    · cases hstep
  | drop n last =>
    simp only [step] at hstep
    split at hstep
    · next t rest held hthread =>
      have horder := (h.inOrder n _ hthread).2
      split_ifs at hstep with hlast hfree
      · obtain rfl := Option.some.inj hstep
        exact h.set_of_subset hthread horder fun m hm => hm
      · obtain rfl := Option.some.inj hstep
        have hlength := (List.getElem?_eq_some_iff.mp hthread).1
        refine h.set hlength ?_ fun m hm => ?_
        · rwa [Discipline.InOrder, List.erase_cons_head]
        · rcases List.mem_cons.mp hm with rfl | hheld
          · refine Or.inr fun k hlocked => ?_
            obtain ⟨other, hother, hk⟩ := hlocked
            by_contra hkn
            have hmem : other ∈ s.threads.set n ⟨rest, held⟩ :=
              List.mem_of_getElem? (i := k) (by rw [List.getElem?_set_ne (Ne.symm hkn), hother])
            have hrefers := List.all_eq_true.mp hfree other hmem
            have hself : other.refersTo t = true :=
              Bool.or_eq_true_iff.mpr (Or.inl (List.any_eq_true.mpr ⟨_, hk, by simp [Mutex.tx]⟩))
            simp [hself] at hrefers
          · exact Or.inl ⟨_, hthread, hheld⟩
    · cases hstep
  | call n op =>
    simp only [step] at hstep
    split at hstep
    · next visiting rest held hthread =>
      obtain rfl := Option.some.inj hstep
      have horder := h.inOrder n _ hthread
      refine h.set_of_subset hthread (block_code horder.1 (fun t ht => ?_) _ horder)
        fun m hm => hm
      subst ht
      exact hguard t rest held hthread
    · cases hstep
  | back n =>
    simp only [step] at hstep
    split at hstep
    · next visiting rest held hthread =>
      obtain rfl := Option.some.inj hstep
      exact h.set_of_subset hthread (h.inOrder n _ hthread).2 fun m hm => hm
    · cases hstep
  | dispatch n task =>
    simp only [step] at hstep
    split at hstep
    · next rest held hthread =>
      obtain rfl := Option.some.inj hstep
      have horder := h.inOrder n _ hthread
      obtain rfl : held = [] := horder.1
      exact h.set_of_subset hthread (block_task task _ horder) fun m hm => hm
    · cases hstep

/-- At the start every thread is about to act, and holds nothing. -/
theorem orderly_start (users : ℕ) : Orderly (start users) := by
  have hidle : ∀ thread ∈ (start users).threads, thread.held = [] ∧
      discipline.InOrder thread.held thread.code := by
    intro thread hthread
    rcases List.mem_cons.mp hthread with rfl | hthread
    · exact ⟨rfl, rfl, trivial⟩
    · obtain rfl := List.eq_of_mem_replicate hthread
      exact ⟨rfl, rfl, trivial⟩
  refine ⟨fun n thread hthread => (hidle thread (List.mem_of_getElem? hthread)).2, ?_⟩
  rintro a b m ⟨thread, hthread, hm⟩ -
  rw [(hidle thread (List.mem_of_getElem? hthread)).1] at hm
  cases hm

/-- Threads that keep the discipline take their mutexes in order. -/
theorem Orderly.ordered (h : Orderly s) : s.locking.Ordered Mutex.rank := by
  refine ⟨h.exclusive, fun n m hwanted => ?_⟩
  dsimp only [locking] at hwanted
  split at hwanted
  · next l rest held hthread =>
    obtain rfl := Option.some.inj hwanted
    rcases (h.inOrder n _ hthread).1 with hbelow | ⟨hheld, hreentrant⟩
    · left
      rintro l' ⟨thread, hthread', hl'⟩
      rw [hthread] at hthread'
      obtain rfl := Option.some.inj hthread'
      exact hbelow l' hl'
    · exact Or.inr ⟨⟨_, hthread, hheld⟩, hreentrant⟩
  · cases hwanted

end Steps

/-- As long as the callbacks of `for_each` take neither the mutex of the transactions nor that of
the items of another transaction, no threads wait for each other in a cycle. -/
theorem deadlock_free {users : ℕ} {events : List Event} {s : Threads}
    (hrun : Run step keepsOrder (start users) events s) (n : ℕ) :
    ¬Relation.TransGen s.locking.WaitsFor n n := by
  have horderly := hrun.invariant (fun _ _ _ hguard hstep h => orderly_step h hguard hstep)
    (orderly_start users)
  exact horderly.ordered.no_cycle n

/-- A callback of `for_each` updates and submits its own transaction while a commit waits for the
items. -/
theorem deadlock_free_same_transaction : ∃ (events : List Event) (s : Threads),
    Run step keepsOrder (start 1) events s ∧ s.locking.wanted 0 = some (.items 0) ∧
      ∀ n, ¬Relation.TransGen s.locking.WaitsFor n n := by
  have hexec : (execute step checkOrder (start 1)
      [.dispatch 0 (.processUpdate [] [(0, true)] none none), .next 0, .next 0, .next 0,
        .call 1 (.forEach 0), .next 1, .next 1, .call 1 (.upsert 0 false), .next 1, .next 1,
        .next 1, .next 1, .call 1 (.submit 0 true), .next 1, .next 1, .next 1]).map
      (fun s => decide (s.locking.wanted 0 = some (.items 0))) = some true := by
    decide
  obtain ⟨s, hrun, hend⟩ := exists_run_of_execute (fun _ _ => keepsOrder_of_checkOrder) hexec
  exact ⟨_, s, hrun, of_decide_eq_true hend, deadlock_free hrun⟩

/-- A callback of `for_each` calls `create_tx` while a commit waits for the items: the two threads
wait for each other. -/
theorem create_in_callback :
    ¬∀ (users : ℕ) (events : List Event) (s : Threads), Run step anyStep (start users) events s →
      ∀ n, ¬Relation.TransGen s.locking.WaitsFor n n := by
  intro h
  have hexec : (execute step (fun _ _ => true) (start 1)
      [.dispatch 0 (.processUpdate [] [(0, true)] none none), .next 0, .next 0, .next 0,
        .call 1 (.forEach 0), .next 1, .next 1, .call 1 (.createTx [])]).map
      (fun s => decide (s.locking.wanted 0 = some (.items 0) ∧
        s.locking.wanted 1 = some .transactions ∧
        s.threads.map (·.held) = [[.transactions], [.store, .items 0]])) = some true := by
    decide
  obtain ⟨s, hrun, hend⟩ := exists_run_of_execute (fun _ _ _ => trivial) hexec
  obtain ⟨hloop, huser, hheld⟩ := of_decide_eq_true hend
  have hholds : ∀ n held, (s.threads.map (·.held))[n]? = some held → ∀ m ∈ held,
      s.locking.held n m := by
    intro n held hget m hm
    rw [List.getElem?_map] at hget
    obtain ⟨thread, hthread, rfl⟩ := Option.map_eq_some_iff.mp hget
    exact ⟨thread, hthread, hm⟩
  have hfirst : s.locking.WaitsFor 0 1 :=
    ⟨_, hloop, hholds 1 [.store, .items 0] (by rw [hheld]; rfl) _ (by simp), by simp⟩
  have hsecond : s.locking.WaitsFor 1 0 :=
    ⟨_, huser, hholds 0 [.transactions] (by rw [hheld]; rfl) _ (by simp), by simp⟩
  exact h 1 _ s hrun 0 (.tail (.single hfirst) hsecond)

end Threads

end Nplex
