import Nplex.Transaction.Patterns
import Nplex.Transaction.Lifecycle

/-!
# What `for_each` visits

A transaction in any use: the event loop loads snapshots, applies commits and delivers them,
also some time after they were applied; the owner calls the methods, submits, gets any answer
and goes on after a TRY_LATER. In every such state the merge loop of `for_each_internal` agrees
with `read`, key by key, for the patterns whose literal prefix means the same to the matcher.
-/

namespace Nplex

open Nplex.Common

/-- The store, a transaction on it, and the changes applied but not yet delivered to it. -/
structure LiveTx where
  store : Store
  tx : Transaction
  undelivered : List (List Change) := []

/-- What the event loop and the owner may do. -/
inductive LiveEvent
  /-- The store is loaded from a snapshot. -/
  | load (snapshot : Option Snapshot)
  /-- A commit is applied, or refused. -/
  | commit (u : Update)
  /-- The oldest undelivered changes reach the transaction. -/
  | deliver
  /-- The transaction is created, in place of the previous one. -/
  | create (isolation : Isolation) (readOnly : Bool) (user : Option User)
  /-- A method of the owner. -/
  | use (i : TxInput)
  | submit (force client pushes : Bool)
  | answer (code : SubmitCode)
  | fail (e : TxException)
  | confirm
  | discard

namespace LiveTx

/-- A transaction created on an empty store. -/
def start (isolation : Isolation) (readOnly : Bool) (user : Option User) : LiveTx :=
  { store := Store.empty, tx := Transaction.create Store.empty isolation readOnly user }

/-- An operation on the transaction. -/
def operate (globMatch : Glob) (s : LiveTx) (op : TxOp) : LiveTx :=
  { s with tx := (s.tx.apply globMatch op).1 }

/-- One event. -/
def step (globMatch : Glob) (s : LiveTx) : LiveEvent → LiveTx
  | .load snapshot => { s with store := (Store.load snapshot).1 }
  | .commit u =>
    match s.store.update u with
    | (store, .ok (changes, _)) =>
      { s with store := store, undelivered := s.undelivered ++ [changes] }
    | (store, .error _) => { s with store := store }
  | .deliver =>
    match s.undelivered with
    | [] => s
    | changes :: rest => { s.operate globMatch (.update changes) with undelivered := rest }
  | .create isolation readOnly user =>
    { s with tx := Transaction.create s.store isolation readOnly user }
  | .use i => s.operate globMatch (.use s.store i)
  | .submit force client pushes => s.operate globMatch (.submit force client pushes)
  | .answer code => s.operate globMatch (.setSubmitResult code)
  | .fail e => s.operate globMatch (.setSubmitException e)
  | .confirm => s.operate globMatch .confirmCommit
  | .discard => s.operate globMatch .discard

end LiveTx

namespace Store

/-- Every stored key is valid. -/
def ValidKeys (s : Store) : Prop := ∀ k v, s.data[k]? = some v → isValidKey k = true

variable {s : Store}

/-- The empty store has valid keys. -/
theorem validKeys_empty : Store.empty.ValidKeys := by
  intro k v hv
  simp [Store.empty] at hv

/-- Valid keys are a matter of the data. -/
theorem ValidKeys.congr {s' : Store} (h : s.ValidKeys) (hdata : s'.data = s.data) : s'.ValidKeys := by
  intro k v hv
  rw [hdata] at hv
  exact h k v hv

/-- An entry with a valid key keeps them. -/
theorem ValidKeys.upsertEntry (h : s.ValidKeys) (k d : Bytes) (m : Meta) :
    (s.upsertEntry k d m).1.ValidKeys := by
  cases hentry : s.upsertEntry k d m with
  | mk s' result =>
    cases result with
    | error e =>
      unfold Store.upsertEntry at hentry
      split at hentry
      · exact (Prod.mk.inj hentry).1 ▸ h
      · split at hentry <;> simp at hentry
    | ok c =>
      obtain ⟨hvalid, hdata, -⟩ := upsertEntry_ok hentry
      intro k' v hv
      rw [hdata, lookup_insert] at hv
      split_ifs at hv with hk
      · exact hk ▸ hvalid
      · exact h k' v hv

/-- So does the removal of an entry. -/
theorem ValidKeys.deleteEntry (h : s.ValidKeys) (k : Bytes) : (s.deleteEntry k).1.ValidKeys := by
  cases hentry : s.deleteEntry k with
  | mk s' result =>
    cases result with
    | error e =>
      unfold Store.deleteEntry at hentry
      split at hentry
      · exact (Prod.mk.inj hentry).1 ▸ h
      · split at hentry <;> simp at hentry
    | ok c =>
      obtain ⟨-, hdata, -⟩ := deleteEntry_ok hentry
      intro k' v hv
      rw [hdata, lookup_erase] at hv
      split_ifs at hv
      exact h k' v hv

/-- So do the upserts of an update. -/
theorem ValidKeys.upsertAll (h : s.ValidKeys) (m : Meta) (kvs : List KeyValue)
    (changes : List Change) : (Store.upsertAll m kvs s changes).1.ValidKeys := by
  induction kvs generalizing s changes with
  | nil => exact h
  | cons kv rest ih =>
    unfold Store.upsertAll
    split
    · next key data _ _ =>
      have hentry := h.upsertEntry (cStr key) data m
      split
      · next s' c heq =>
        rw [heq] at hentry
        exact ih hentry _
      · next s' e heq =>
        rw [heq] at hentry
        exact hentry
    · exact h

/-- So do its deletes. -/
theorem ValidKeys.deleteAll (h : s.ValidKeys) (m : Meta) (keys : List (Option Bytes))
    (changes : List Change) : (Store.deleteAll m keys s changes).1.ValidKeys := by
  induction keys generalizing s changes with
  | nil => exact h
  | cons key rest ih =>
    unfold Store.deleteAll
    split
    · next _ key =>
      have hentry := h.deleteEntry (cStr key)
      split
      · next s' c heq =>
        rw [heq] at hentry
        exact ih hentry _
      · next s' e heq =>
        rw [heq] at hentry
        exact hentry
    · exact h

/-- A commit keeps the stored keys valid, also when it fails half way. -/
theorem ValidKeys.update (h : s.ValidKeys) (u : Update) : (s.update u).1.ValidKeys := by
  unfold Store.update updateInternal
  split
  · exact h
  · simp only [createMeta_snd]
    have hstart : ValidKeys { (s.createMeta u).1 with rev := u.rev } := h.congr (by simp)
    have hupserts := hstart.upsertAll u.metadata u.upserts []
    split
    · next s' e heq =>
      rw [heq] at hupserts
      exact hupserts
    · next s' changes heq =>
      rw [heq] at hupserts
      have hdeletes := hupserts.deleteAll u.metadata u.deletes changes
      split
      · next s'' e heq' =>
        rw [heq'] at hdeletes
        exact hdeletes
      · next s'' all heq' =>
        rw [heq'] at hdeletes
        exact hdeletes.congr (by simp)

/-- So does the load of a snapshot. -/
theorem ValidKeys.loadAll (h : s.ValidKeys) (rev : ℕ) (updates : List Update) :
    (Store.loadAll rev updates s).1.ValidKeys := by
  induction updates generalizing s with
  | nil => exact h
  | cons u rest ih =>
    unfold Store.loadAll
    split
    · exact h
    · have hupdate : (s.updateInternal u).1.ValidKeys := h.update u
      split
      · next s' r heq =>
        rw [heq] at hupdate
        exact ih hupdate
      · next s' e heq =>
        rw [heq] at hupdate
        exact hupdate

/-- The keys of a loaded snapshot are valid, also when the load fails half way. -/
theorem validKeys_load (snapshot : Option Snapshot) : (Store.load snapshot).1.ValidKeys := by
  unfold Store.load
  split
  · exact validKeys_empty
  · next snapshot =>
    have hload := validKeys_empty.loadAll snapshot.rev snapshot.updates
    split
    · next s' e heq =>
      rw [heq] at hload
      exact hload
    · next s' heq =>
      rw [heq] at hload
      exact hload.congr rfl

end Store

namespace Transaction

/-- The key of every item is valid. -/
def ValidItems (tx : Transaction) : Prop := ∀ k e, tx.items[k]? = some e → isValidKey k = true

/-- Every item has the property. -/
def ItemsHave (tx : Transaction) (P : Key → Entry → Prop) : Prop :=
  ∀ k e, tx.items[k]? = some e → P k e

/-- A property of the items that every method keeps. -/
structure Maintained (P : Key → Entry → Prop) : Prop where
  /-- New items have valid keys, and a value when they are upserts. -/
  fresh : ∀ k e, isValidKey k = true → e.holdsWrite → P k e
  observed : ∀ k e, P k e → P k e.observed

variable {globMatch : Glob} {tx tx' : Transaction} {store : Store} {k : Key}

/-- That the key is valid is such a property. -/
theorem maintained_valid : Maintained fun k _ => isValidKey k = true :=
  ⟨fun _ _ hvalid _ => hvalid, fun _ _ hvalid => hvalid⟩

/-- That an upsert has a value is such a property. -/
theorem maintained_holdsWrite : Maintained fun _ e => e.holdsWrite := by
  refine ⟨fun _ _ _ hwrite => hwrite, fun _ e hwrite hupsert => ?_⟩
  obtain ⟨hvalue, haction, -⟩ := e.observed_keeps
  rw [hvalue]
  exact hwrite (haction.mp hupsert)

section ItemsHave

variable {P : Key → Entry → Prop}

/-- A new transaction has no items. -/
theorem itemsHave_create (store : Store) (isolation : Isolation) (readOnly : Bool)
    (user : Option User) : (create store isolation readOnly user).ItemsHave P := by
  intro k e he
  simp [create] at he

/-- What the keys have is a matter of the items. -/
theorem ItemsHave.congr (h : tx.ItemsHave P) (hitems : tx'.items = tx.items) : tx'.ItemsHave P := by
  intro k e he
  rw [hitems] at he
  exact h k e he

/-- Only the item of one key may be new. -/
theorem ItemsHave.keyed (h : tx.ItemsHave P) (hnew : ∀ e, tx'.items[k]? = some e → P k e)
    (hitems : ∀ k', k ≠ k' → tx'.items[k']? = tx.items[k']?) : tx'.ItemsHave P := by
  intro k' e he
  by_cases hk : k = k'
  · subst hk
    exact hnew e he
  · rw [hitems k' hk] at he
    exact h k' e he

variable (hP : Maintained P)

include hP

/-- An item that records what was read has it. -/
theorem Maintained.pin (hvalid : isValidKey k = true) (v : Option Value) : P k (pin v) :=
  hP.fresh k _ hvalid fun hupsert => by cases hupsert

/-- Reading a key pins it or observes its item. -/
theorem ItemsHave.read {ensure : Bool} {v : Option Value} (h : tx.ItemsHave P)
    (hstep : ReadStep tx store k ensure v tx') : tx'.ItemsHave P := by
  refine h.keyed (fun e he => ?_) fun k' hk => by rw [hstep.items, if_neg hk]
  rw [hstep.items, if_pos rfl] at he
  unfold itemAfterRead at he
  cases hitem : tx.items[k]? with
  | some e' =>
    have hkept := h k e' hitem
    rw [hitem] at he
    dsimp only at he
    split_ifs at he
    · exact Option.some.inj he ▸ hkept
    · exact Option.some.inj he ▸ hP.observed k e' hkept
  | none =>
    rw [hitem] at he
    dsimp only at he
    split_ifs at he
    exact Option.some.inj he ▸ hP.pin hstep.valid _

/-- Writing a key gives it a value. -/
theorem ItemsHave.upsert {data : Bytes} {force b : Bool} (h : tx.ItemsHave P)
    (hstep : UpsertStep globMatch tx store k data force b tx') : tx'.ItemsHave P := by
  have hvalid : isValidKey k = true := by
    have hkey := hstep.valid
    rw [Bool.or_eq_false_iff] at hkey
    simpa using hkey.1
  cases b with
  | true =>
    refine h.keyed (fun e he => ?_) fun k' hk => by rw [hstep.written rfl, if_neg hk]
    rw [hstep.written rfl, if_pos rfl] at he
    obtain rfl := Option.some.inj he
    exact hP.fresh k _ hvalid fun _ => rfl
  | false =>
    refine h.keyed (fun e he => ?_) fun k' hk => by
      rw [hstep.unchanged rfl, if_neg]
      exact fun hpinned => hk hpinned.1
    rw [hstep.unchanged rfl] at he
    split_ifs at he
    · obtain rfl := Option.some.inj he
      exact hP.pin hvalid _
    · exact h k e he

/-- Deleting a key writes its item. -/
theorem ItemsHave.remove {b : Bool} (h : tx.ItemsHave P)
    (hstep : RemoveStep globMatch tx store k b tx') : tx'.ItemsHave P := by
  cases b with
  | true =>
    refine h.keyed (fun e he => ?_) fun k' hk => by rw [hstep.removed rfl, if_neg hk]
    rw [hstep.removed rfl, if_pos rfl] at he
    obtain rfl := Option.some.inj he
    exact hP.fresh k _ hstep.valid fun hupsert => by cases hupsert
  | false => exact h.congr (by rw [hstep.unchanged rfl])

/-- Collecting keys pins them and observes their items. -/
theorem ItemsHave.forEach {pattern : Bytes} {ret : List (Key × Value)} (h : tx.ItemsHave P)
    (hstore : store.ValidKeys) (hstep : Collected globMatch tx store pattern ret tx') :
    tx'.ItemsHave P := by
  intro k e he
  rw [hstep.items] at he
  cases hitem : tx.items[k]? with
  | some e' =>
    rw [hitem] at he
    dsimp only at he
    split_ifs at he
    · obtain rfl := Option.some.inj he
      exact hP.observed k e' (h k e' hitem)
    · obtain rfl := Option.some.inj he
      exact h k e' hitem
  | none =>
    rw [hitem] at he
    dsimp only at he
    split_ifs at he
    obtain ⟨v, hv, rfl⟩ := Option.map_eq_some_iff.mp he
    exact hP.pin (hstore k v hv) _

/-- Delivered changes are about valid keys. -/
theorem ItemsHave.update {changes : List Change} (h : tx.ItemsHave P)
    (hwf : ∀ c ∈ changes, c.wellFormed) : (tx.update globMatch changes).ItemsHave P := by
  by_cases hopen : tx.state = .opened
  · have hstep := update_spec globMatch hopen hwf
    intro k e he
    rw [hstep.items] at he
    cases hitem : tx.items[k]? with
    | some e' =>
      rw [hitem] at he
      have heq : e = e' := by
        split_ifs at he <;> simpa using he.symm
      exact heq ▸ h k e' hitem
    | none =>
      rw [hitem] at he
      split_ifs at he
      obtain ⟨c, hc, hsnapshot⟩ := Option.map_eq_some_iff.mp (by simpa using he)
      obtain ⟨hmem, hkey⟩ := firstChange_eq_some hc
      refine hP.fresh k e (hkey ▸ (hwf c hmem).1) fun hupsert => ?_
      rw [← hsnapshot] at hupsert
      cases hupsert
  · rw [update_of_not_open hopen]
    exact h

/-- A method of the owner adds items under valid keys only. -/
theorem ItemsHave.use (h : tx.ItemsHave P) (hstore : store.ValidKeys) (i : TxInput) :
    (tx.apply globMatch (.use store i)).1.ItemsHave P := by
  unfold apply
  dsimp only
  have hstep : ∀ (s : OpenTx) (o : TxAnswer), OpenTx.step globMatch ⟨store, tx, []⟩ i = some (s, o) →
      s.tx.ItemsHave P := by
    intro s o hs
    cases OpenTx.step_effect hs with
    | commit _ hupdate htx _ =>
      rw [htx]
      exact h.update hP (Store.update_ok hupdate).2.wellFormed
    | read _ htx => exact h.read hP htx
    | upsert _ htx => exact h.upsert hP htx
    | upsertIfChanged _ htx => exact h.upsert hP htx
    | remove _ htx => exact h.remove hP htx
    | forEach _ _ _ htx => exact h.forEach hP hstore htx
    | ensure _ htx => exact h.congr (by rw [htx])
    | empty hsame => exact h.congr (by rw [hsame])
    | visit _ hsame => exact h.congr (by rw [hsame])
    | stop _ hsame => exact h.congr (by rw [hsame])
    | thrown hsame => exact h.congr (by rw [hsame])
  split
  · exact h
  · next s e heq => exact hstep s _ heq
  · next s o _ heq => exact hstep s _ heq

end ItemsHave

/-- A state is not about the items. -/
@[simp] theorem setState_items (tx : Transaction) (state : TxState) :
    (tx.setState state).items = tx.items := by
  unfold setState
  split_ifs <;> rfl

/-- Closing is not about the items. -/
@[simp] theorem close_items (tx : Transaction) (state : TxState) (o : Outcome) :
    (tx.close state o).1.items = tx.items := by
  obtain ⟨p, hp⟩ := close_eq tx state o
  rw [hp]
  exact setState_items tx state

/-- Nor is an exception. -/
@[simp] theorem setSubmitException_items (tx : Transaction) (e : TxException) :
    (tx.setSubmitException e).1.items = tx.items := by
  unfold setSubmitException
  split_ifs
  · rfl
  · exact close_items _ _ _

/-- Nor is the commit. -/
@[simp] theorem confirmCommit_items (tx : Transaction) : tx.confirmCommit.1.items = tx.items := by
  unfold confirmCommit
  split_ifs
  · rfl
  · exact close_items _ _ _

/-- Nor is a result. -/
@[simp] theorem setSubmitResult_items (tx : Transaction) (code : SubmitCode) :
    (tx.setSubmitResult code).1.items = tx.items := by
  unfold setSubmitResult
  split_ifs
  · rfl
  · cases code with
    | tryLater =>
      have hclose := close_items tx .opened (.value .tryLater)
      dsimp only
      split <;> simp_all
    | _ => simp

/-- Nor does discarding. -/
@[simp] theorem discard_items (tx : Transaction) : tx.discard.items = tx.items := by
  unfold discard
  dsimp only
  split <;> simp

/-- A submit leaves the items. -/
theorem submit_items (tx : Transaction) (force client pushes : Bool) :
    (tx.apply globMatch (.submit force client pushes)).1.items = tx.items := by
  unfold apply
  dsimp only
  split
  · rfl
  · next tx' hdone =>
    obtain ⟨-, result, state, -, rfl⟩ := submit_done hdone
    rfl
  · next tx' hpush =>
    obtain ⟨-, -, -, rfl, -⟩ := submit_push hpush
    split <;> rfl

end Transaction

namespace LiveTx

variable {globMatch : Glob} {s : LiveTx}

/-- All the keys around are valid. -/
structure Valid (s : LiveTx) : Prop where
  store : s.store.ValidKeys
  items : s.tx.ValidItems
  changes : ∀ changes ∈ s.undelivered, ∀ c ∈ changes, c.wellFormed

/-- Every event keeps such a property of the items. -/
theorem Valid.itemsHave_step {P : Key → Entry → Prop} (hP : Transaction.Maintained P) (h : s.Valid)
    (hitems : s.tx.ItemsHave P) (e : LiveEvent) : (s.step globMatch e).tx.ItemsHave P := by
  cases e with
  | load snapshot => exact hitems
  | commit u =>
    unfold LiveTx.step
    dsimp only
    split <;> exact hitems
  | deliver =>
    unfold LiveTx.step
    dsimp only
    split
    · exact hitems
    · next changes rest heq =>
      have hchanges := h.changes changes (heq ▸ List.mem_cons_self)
      exact hitems.update hP hchanges
  | create isolation readOnly user => exact Transaction.itemsHave_create _ _ _ _
  | use i => exact hitems.use hP h.store i
  | submit force client pushes => exact hitems.congr (Transaction.submit_items _ _ _ _)
  | answer code => exact hitems.congr (Transaction.setSubmitResult_items _ _)
  | fail e => exact hitems.congr (Transaction.setSubmitException_items _ _)
  | confirm => exact hitems.congr (Transaction.confirmCommit_items _)
  | discard => exact hitems.congr (Transaction.discard_items _)

/-- Every event keeps the keys valid. -/
theorem Valid.step (h : s.Valid) (e : LiveEvent) : (s.step globMatch e).Valid := by
  have hitems : (s.step globMatch e).tx.ValidItems :=
    h.itemsHave_step Transaction.maintained_valid h.items e
  revert hitems
  cases e with
  | load snapshot => exact fun hitems => ⟨Store.validKeys_load snapshot, hitems, h.changes⟩
  | commit u =>
    have hstore := h.store.update u
    unfold LiveTx.step
    dsimp only
    split
    · next store changes m heq =>
      rw [heq] at hstore
      refine fun hitems => ⟨hstore, hitems, fun changes' hmem => ?_⟩
      rcases List.mem_append.mp hmem with hold | hnew
      · exact h.changes changes' hold
      · obtain rfl := List.mem_singleton.mp hnew
        exact (Store.update_ok heq).2.wellFormed
    · next store e heq =>
      rw [heq] at hstore
      exact fun hitems => ⟨hstore, hitems, h.changes⟩
  | deliver =>
    unfold LiveTx.step
    dsimp only
    split
    · exact fun _ => h
    · next changes rest heq =>
      have hchanges := h.changes
      rw [heq] at hchanges
      exact fun hitems =>
        ⟨h.store, hitems, fun changes' hmem => hchanges changes' (List.mem_cons_of_mem _ hmem)⟩
  | _ => exact fun hitems => ⟨h.store, hitems, h.changes⟩

/-- At the start all the keys are valid. -/
theorem valid_start (isolation : Isolation) (readOnly : Bool) (user : Option User) :
    (start isolation readOnly user).Valid :=
  ⟨Store.validKeys_empty, Transaction.itemsHave_create _ _ _ _, by simp [start]⟩

/-- The keys are valid after any events. -/
theorem Valid.run (h : s.Valid) (events : List LiveEvent) :
    (events.foldl (LiveTx.step globMatch) s).Valid := by
  induction events generalizing s with
  | nil => exact h
  | cons e rest ih => exact ih (h.step e)

/-- Such a property of the items holds after any events. -/
theorem Valid.itemsHave_run {P : Key → Entry → Prop} (hP : Transaction.Maintained P) (h : s.Valid)
    (hitems : s.tx.ItemsHave P) (events : List LiveEvent) :
    (events.foldl (LiveTx.step globMatch) s).tx.ItemsHave P := by
  induction events generalizing s with
  | nil => exact hitems
  | cons e rest ih => exact ih (h.step e) (h.itemsHave_step hP hitems e)

end LiveTx

namespace Transaction

variable {S : Type} {tx tx' : Transaction} {store : Store} {pattern : Bytes} {callback : Callback S}
  {s : S}

/-- The callback leaves the transaction alone. -/
def Callback.quiet (callback : Callback S) : Prop := ∀ k v s tx, (callback k v s tx).2.1 = tx

/-- The agreement of `for_each` with `read`, for a callback that always returns true. -/
structure VisitsReads (tx : Transaction) (store : Store) (pattern : Bytes) (callback : Callback S)
    (s : S) : Prop where
  /-- The record of its calls changes nothing else. -/
  recording : (tx.forEach Match.globMatch store pattern callback.recording (s, [])).2 =
    (tx.forEach Match.globMatch store pattern callback s).2
  /-- The keys come in strictly increasing order. -/
  sorted : SortedKeys (tx.visited Match.globMatch store pattern callback s)
  /-- They are the matching keys for which `read` returns a value, with that value. -/
  reads : ∀ (k : Key) (v : Value) (ensure : Bool),
    (k, v) ∈ tx.visited Match.globMatch store pattern callback s ↔
      Match.globMatch k pattern = true ∧ ∃ tx', tx.read store k ensure = .ok (some v, tx')
  /-- `for_each` returns their number. -/
  counted : tx.state = .opened → (tx.forEach Match.globMatch store pattern callback s).2.2 =
    .ok (tx.visited Match.globMatch store pattern callback s).length
  /-- Above read-committed each is recorded with its value, and every later `read` repeats it. -/
  recorded : callback.quiet → tx.isolation ≠ .readCommitted → ∀ (k : Key) (v : Value),
    (k, v) ∈ tx.visited Match.globMatch store pattern callback s →
      (∃ e, (tx.forEach Match.globMatch store pattern callback s).2.1.items[k]? = some e ∧
        e.value = some v) ∧
      ∀ (store' : Store) (ensure : Bool), ∃ tx',
        (tx.forEach Match.globMatch store pattern callback s).2.1.read store' k ensure =
          .ok (some v, tx')
  /-- No item of a matching key is left as a snapshot. -/
  observed : callback.quiet → tx.state = .opened → ∀ (k : Key) (e : Entry),
    Match.globMatch k pattern = true →
    (tx.forEach Match.globMatch store pattern callback s).2.1.items[k]? = some e →
      e.action ≠ .snapshot
  /-- The own writes are kept. -/
  writes : callback.quiet → ∀ (k : Key) (e : Entry), tx.items[k]? = some e →
    (e.action = .upsert ∨ e.action = .delete) →
      (tx.forEach Match.globMatch store pattern callback s).2.1.items[k]? = some e

/-- A callback that leaves the transaction alone leaves it as it was collected. -/
theorem callEach_quiet (hquiet : callback.quiet) (kvs : List (Key × Value)) (n : ℕ) (s : S)
    (tx : Transaction) : (callEach callback kvs n s tx).2.1 = tx := by
  induction kvs generalizing n s tx with
  | nil => rfl
  | cons kv rest ih =>
    obtain ⟨k, v⟩ := kv
    have hsame := hquiet k v s tx
    rw [callEach]
    generalize callback k v s tx = r at hsame ⊢
    obtain ⟨s', tx', result⟩ := r
    obtain rfl : tx' = tx := hsame
    cases result with
    | error e => rfl
    | ok goes =>
      cases goes with
      | false => rfl
      | true => exact ih (n + 1) s' tx'

/-- `read` returns what is visible, on an open transaction and for a valid key. -/
theorem read_iff {k : Key} {v : Value} {ensure : Bool} :
    (∃ tx', tx.read store k ensure = .ok (some v, tx')) ↔
      tx.state = .opened ∧ isValidKey k = true ∧ tx.visible store k = some v := by
  constructor
  · rintro ⟨tx', hread⟩
    have hstep := read_ok hread
    exact ⟨hstep.opened, hstep.valid, hstep.value.symm⟩
  · rintro ⟨hopen, hvalid, hvisible⟩
    obtain ⟨v', tx', hread⟩ := read_succeeds hopen hvalid store ensure
    have hvalue := (read_ok hread).value
    rw [hvisible] at hvalue
    exact ⟨tx', hvalue ▸ hread⟩

/-- What is visible has a valid key. -/
theorem ValidItems.visible (h : tx.ValidItems) (hstore : store.ValidKeys) {k : Key} {v : Value}
    (hvisible : tx.visible store k = some v) : isValidKey k = true := by
  unfold Transaction.visible at hvisible
  split at hvisible
  · next e hitem => exact h k e hitem
  · exact hstore k v hvisible

/-- The matching keys of a valid transaction are those of the scan. -/
theorem scans_of_literal {k : Key} (hpattern : ∀ b ∈ pattern, b ≠ 0 ∧ b ≠ 91 ∧ b ≠ 92) :
    scans Match.globMatch pattern k = Match.globMatch k pattern := by
  cases hmatch : Match.globMatch k pattern with
  | false => simp [scans, hmatch]
  | true =>
    have hstarts := startsWith_of_globMatch
      (fun b hb => hpattern b ((List.takeWhile_prefix _).subset hb)) hmatch
    simp [scans, hmatch, hstarts]

/-- Collecting a non-empty pattern on an open transaction agrees with `read`. -/
theorem visitsReads_of_open (hopen : tx.state = .opened) (hne : pattern ≠ [])
    (hitems : tx.ValidItems) (hstore : store.ValidKeys)
    (hpattern : ∀ b ∈ pattern, b ≠ 0 ∧ b ≠ 91 ∧ b ≠ 92) (hgoes : callback.goesOn) :
    tx.VisitsReads store pattern callback s := by
  have hcollected : Collected Match.globMatch tx store pattern _ _ :=
    forEachInternal_collected hne
  have hvisited := visited_of_goesOn Match.globMatch store hopen hne hgoes s
  have hforEach : tx.forEach Match.globMatch store pattern callback s = _ :=
    forEach_eq hopen hne callback s
  have hafter : callback.quiet → (tx.forEach Match.globMatch store pattern callback s).2.1 =
      (tx.forEachInternal Match.globMatch store pattern).2 := fun hquiet => by
    rw [hforEach, callEach_quiet hquiet]
  have hmem : ∀ k v, (k, v) ∈ tx.visited Match.globMatch store pattern callback s ↔
      Match.globMatch k pattern = true ∧ tx.visible store k = some v := by
    intro k v
    rw [hvisited, hcollected.mem_ret, scans_of_literal hpattern]
  have hkept : ∀ k, (tx.forEachInternal Match.globMatch store pattern).2.items[k]? = _ :=
    hcollected.items
  simp only [scans_of_literal hpattern] at hkept
  refine ⟨(forEach_recording callback s).2, ?_, fun k v ensure => ?_, fun _ => ?_, fun hquiet hiso k v hkv => ?_,
    fun hquiet _ k e hmatch he => ?_, fun hquiet k e he hwrite => ?_⟩
  · rw [hvisited]
    exact hcollected.sorted
  · rw [hmem, read_iff]
    constructor
    · rintro ⟨hmatch, hv⟩
      exact ⟨hmatch, hopen, hitems.visible hstore hv, hv⟩
    · rintro ⟨hmatch, -, -, hv⟩
      exact ⟨hmatch, hv⟩
  · rw [hforEach, callEach_of_goesOn hgoes, hvisited, Nat.zero_add]
  · obtain ⟨hmatch, hv⟩ := (hmem k v).mp hkv
    rw [hafter hquiet]
    have hrecorded : ∃ e : Entry, (tx.forEachInternal Match.globMatch store pattern).2.items[k]? =
        some e ∧ e.value = some v ∧ e.action ≠ .delete := by
      rw [hkept, if_pos hmatch]
      unfold Transaction.visible at hv
      cases hitem : tx.items[k]? with
      | some e =>
        rw [hitem] at hv
        unfold Entry.shown at hv
        dsimp only at hv
        split_ifs at hv with hdelete
        refine ⟨e.observed, rfl, ?_, ?_⟩
        · unfold Entry.observed
          split_ifs <;> exact hv
        · unfold Entry.observed
          split_ifs
          · simp
          · exact hdelete
      | none =>
        rw [hitem] at hv
        dsimp only at hv
        exact ⟨pin (some v), by simp [hiso, hv], rfl, by simp [pin]⟩
    obtain ⟨e, he, hvalue, hdelete⟩ := hrecorded
    refine ⟨⟨e, he, hvalue⟩, fun store' ensure => read_iff.mpr ⟨?_, hitems.visible hstore hv, ?_⟩⟩
    · rw [hcollected.frame]
      exact hopen
    · rw [Transaction.visible, he]
      simp [Entry.shown, hdelete, hvalue]
  · rw [hafter hquiet, hkept, if_pos hmatch] at he
    cases hitem : tx.items[k]? with
    | some e' =>
      rw [hitem] at he
      obtain rfl := Option.some.inj he
      unfold Entry.observed
      split_ifs with hsnap
      · simp
      · exact hsnap
    | none =>
      rw [hitem] at he
      dsimp only at he
      split_ifs at he
      obtain ⟨v, -, rfl⟩ := Option.map_eq_some_iff.mp he
      simp [pin]
  · rw [hafter hquiet, hkept, he]
    have hsame : e.observed = e := by
      unfold Entry.observed
      rcases hwrite with haction | haction <;> simp [haction]
    simp [hsame]

/-- Nothing is visited on a transaction that is not open, nor for the empty pattern. -/
theorem visitsReads_of_idle (hidle : tx.state ≠ .opened ∨ pattern = []) (hitems : tx.ValidItems) :
    tx.VisitsReads store pattern callback s := by
  have hvisited : tx.visited Match.globMatch store pattern callback s = [] := by
    unfold visited forEach
    rcases hidle with hclosed | rfl
    · simp only [if_pos hclosed]
      split_ifs <;> rfl
    · simp
  have hsame : (tx.forEach Match.globMatch store pattern callback s).2.1 = tx := by
    unfold forEach
    rcases hidle with hclosed | rfl
    · simp only [if_pos hclosed]
      split_ifs <;> rfl
    · simp
  have hmatches : ∀ k, tx.state = .opened → isValidKey k = true →
      Match.globMatch k pattern = true → False := by
    intro k hopen hvalid hmatch
    rcases hidle with hclosed | rfl
    · exact hclosed hopen
    · have hk := Match.eq_nil_of_globMatch_nil hmatch
      rw [cStr_of_isValidKey hvalid] at hk
      exact isValidKey_ne_nil hvalid hk
  refine ⟨(forEach_recording callback s).2, ?_, fun k v ensure => ?_, fun hopen => ?_, fun _ _ k v hkv => ?_,
    fun _ hopen k e hmatch he => ?_, fun _ k e he _ => ?_⟩
  · rw [hvisited]
    exact List.Pairwise.nil
  · rw [hvisited, read_iff]
    constructor
    · exact fun hmem => absurd hmem List.not_mem_nil
    · rintro ⟨hmatch, hopen, hvalid, -⟩
      exact (hmatches k hopen hvalid hmatch).elim
  · rcases hidle with hclosed | rfl
    · exact absurd hopen hclosed
    · simp [hvisited, forEach]
  · rw [hvisited] at hkv
    exact absurd hkv List.not_mem_nil
  · rw [hsame] at he
    exact (hmatches k hopen (hitems k e he) hmatch).elim
  · rw [hsame]
    exact he

/-- In every state of a transaction, `for_each` visits what `read` returns, for the patterns
without `[` and backslash. -/
theorem visits_what_read_returns (isolation : Isolation) (readOnly : Bool) (user : Option User)
    (events : List LiveEvent) (pattern : Bytes)
    (hpattern : ∀ b ∈ pattern, b ≠ 0 ∧ b ≠ 91 ∧ b ≠ 92) {S : Type} (callback : Callback S)
    (captured : S) (hgoes : callback.goesOn) :
    let s := events.foldl (LiveTx.step Match.globMatch) (LiveTx.start isolation readOnly user)
    s.tx.VisitsReads s.store pattern callback captured := by
  intro s
  have hvalid : s.Valid := (LiveTx.valid_start isolation readOnly user).run events
  by_cases hopen : s.tx.state = .opened
  · by_cases hne : pattern = []
    · exact visitsReads_of_idle (Or.inr hne) hvalid.items
    · exact visitsReads_of_open hopen hne hvalid.items hvalid.store hpattern hgoes
  · exact visitsReads_of_idle (Or.inl hopen) hvalid.items

/-- A serializable transaction with a write and a snapshot, on two committed keys. -/
def visitedEvents : List LiveEvent :=
  [.commit (Update.writing 1 [[97], [98]] [49]), .deliver, .create .serializable false none,
    .use (.upsert [99] [50]), .commit (Update.writing 2 [[98]] [51]), .deliver]

/-- A scan that counts its calls, after commits and an own write. -/
theorem visits_what_read_returns_star :
    let s := visitedEvents.foldl (LiveTx.step Match.globMatch)
      (LiveTx.start .serializable false none)
    s.tx.VisitsReads s.store [42, 42] (fun _ _ n tx => (n + 1, tx, .ok true)) 0 :=
  visits_what_read_returns .serializable false none visitedEvents [42, 42] (by simp)
    (fun _ _ n tx => (n + 1, tx, .ok true)) 0 (fun _ _ _ _ => rfl)

end Transaction

end Nplex
