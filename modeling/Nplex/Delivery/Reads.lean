import Nplex.Transaction.OpenTx
import Nplex.Common.Transition

/-!
# Reads among commits

A serializable transaction should read the content at its creation revision. A commit is
applied in two steps: `store_t::update` under the store mutex, then the delivery of its
changes to the registered transactions under their mutex. Between the two the store is
ahead of the transactions. A transaction created there is told of changes it has already
seen, and one that reads a changed key for the first time there pins the new value.

Creating a transaction takes the revision of the store and registers it under the mutex of
the transactions, so no delivery falls in between; an operation holds the mutex of the
items. Each is one step here.
-/

namespace Nplex

open Nplex.Common

/-- A registered transaction, its running `for_each` calls and the keys it has written. -/
structure Reader where
  tx : Transaction
  iterating : List (List (Key × Value)) := []
  written : List Key := []

/-- What one call saw of each key: nothing, its absence or its value. -/
abbrev Sight := Key → Option (Option Value)

/-- The event loop and the registered transactions. -/
structure Reading where
  store : Store
  /-- The changes applied to the store and not delivered yet. -/
  pending : Option (List Change) := none
  readers : List Reader := []
  /-- The content at each revision the store has had, the latest first. -/
  history : List (ℕ × KeyMap Value)
  /-- What serializable transactions saw of the keys they had not written. -/
  reads : List (ℕ × Sight) := []

/-- The steps of the event loop and of the user's threads. -/
inductive ReadEvent
  /-- `store_t::update` of a commit. -/
  | apply (u : Update)
  /-- The delivery of its changes to all the registered transactions. -/
  | deliver
  /-- `create_tx`. -/
  | create (isolation : Isolation) (readOnly : Bool) (user : Option User)
  /-- An operation on a transaction. -/
  | use (n : ℕ) (i : TxInput)

/-- The key an answered input writes. -/
def writtenKeys : TxInput → TxAnswer → List Key
  | .upsert k _, .done => [k]
  | .upsertIfChanged k _, .flag true => [k]
  | .remove k, .flag true => [k]
  | _, _ => []

/-- What an answered input sees. A `for_each` sees all the keys its pattern collects, also those
it finds absent. -/
def sight (globMatch : Glob) : TxInput → TxAnswer → Sight
  | .read k _, .value v => fun k' => if k' = k then some v else none
  | .forEach pattern, .collected ret => fun k =>
    if pattern ≠ [] ∧ scans globMatch pattern k = true then some (ret.lookup k) else none
  | _, _ => fun _ => none

namespace Reading

/-- A store that no transaction uses yet. -/
def start (store : Store) : Reading :=
  { store := store, history := [(store.rev, store.data)] }

/-- The content the store had at a revision. -/
def contentAt (s : Reading) (rev : ℕ) : Option (KeyMap Value) :=
  (s.history.find? fun h => h.1 = rev).map Prod.snd

/-- A reader as an open transaction on the store. -/
def openTx (s : Reading) (r : Reader) : OpenTx := ⟨s.store, r.tx, r.iterating⟩

/-- A reader after an answered input. -/
def Reader.after (r : Reader) (i : TxInput) (run : OpenTx) (o : TxAnswer) : Reader :=
  ⟨run.tx, run.iterating, r.written ++ writtenKeys i o⟩

/-- What a serializable transaction sees of the keys it has not written. -/
def newReads (globMatch : Glob) (n : ℕ) (r : Reader) (i : TxInput) (o : TxAnswer) :
    List (ℕ × Sight) :=
  if r.tx.isolation = .serializable then
    [(n, fun k => if k ∈ r.written then none else sight globMatch i o k)]
  else []

/-- One step. A running `for_each` holds the mutexes of the store and of its transaction. -/
def step (globMatch : Glob) (s : Reading) : ReadEvent → Option Reading
  | .apply u =>
    if s.pending ≠ none ∨ s.readers.any (fun r => r.iterating ≠ []) then none
    else
      match s.store.update u with
      | (store, .ok (changes, _)) =>
        some { s with
          store := store
          pending := some changes
          history := (u.rev, store.data) :: s.history }
      | (_, .error _) => none
  | .deliver =>
    if s.readers.any (fun r => r.iterating ≠ []) then none
    else
      s.pending.map fun changes =>
        { s with
          pending := none
          readers := s.readers.map fun r => { r with tx := r.tx.update globMatch changes } }
  | .create isolation readOnly user =>
    some { s with
      readers := s.readers ++ [{ tx := Transaction.create s.store isolation readOnly user }] }
  | .use _ (.commit _) => none
  | .use n i =>
    match s.readers[n]? with
    | none => none
    | some r =>
      ((s.openTx r).step globMatch i).map fun answer =>
        { s with
          readers := s.readers.set n (Reader.after r i answer.1 answer.2)
          reads := s.reads ++ newReads globMatch n r i answer.2 }

/-- The changes not delivered yet leave a key with the value it had before them. -/
def settled (s : Reading) (k : Key) : Bool :=
  match Transaction.firstChange (s.pending.getD []) k with
  | none => true
  | some c => c.oldValue = s.store.data[k]?

/-- The steps that do not meet a commit half way: no serializable transaction is created while an
undelivered commit has changed some key, and none reads such a key for the first time. -/
def untorn (globMatch : Glob) (s : Reading) : ReadEvent → Bool
  | .create .serializable _ _ => (changedKeys (s.pending.getD [])).all s.settled
  | .use n (.read k _) =>
    match s.readers[n]? with
    | none => true
    | some r => r.tx.isolation ≠ .serializable || k ∈ r.tx.items || s.settled k
  | .use n (.forEach pattern) =>
    match s.readers[n]? with
    | none => true
    | some r => r.tx.isolation ≠ .serializable || (changedKeys (s.pending.getD [])).all fun k =>
      !scans globMatch pattern k || k ∈ r.tx.items || s.settled k
  | _ => true

/-- The value of a key before the changes not delivered yet. -/
def undelivered (s : Reading) (k : Key) : Option Value :=
  match Transaction.firstChange (s.pending.getD []) k with
  | none => s.store.data[k]?
  | some c => c.oldValue

/-- What the item of a key says about the content at creation. -/
def KeySound (s : Reading) (r : Reader) (d : KeyMap Value) (k : Key) : Prop :=
  match r.tx.items[k]? with
  | some e => k ∈ r.written ∨ (e.value = d[k]? ∧ (e.action = .read ∨ e.action = .snapshot))
  | none => s.undelivered k = d[k]?

/-- The items of a transaction and the undelivered changes account for the content at its
creation. -/
def ReaderSound (s : Reading) (r : Reader) : Prop :=
  ∃ d, s.contentAt r.tx.revCreation = some d ∧ ∀ k, KeySound s r d k

/-- What a transaction saw agrees with the content at its creation. -/
def SightSound (s : Reading) (n : ℕ) (seen : Sight) : Prop :=
  ∃ r d, s.readers[n]? = some r ∧ s.contentAt r.tx.revCreation = some d ∧
    ∀ k v, seen k = some v → v = d[k]?

/-- What holds between the steps. -/
structure Sound (s : Reading) : Prop where
  wellFormed : ∀ c ∈ s.pending.getD [], c.wellFormed
  latest : s.contentAt s.store.rev = some s.store.data
  past : ∀ h ∈ s.history, h.1 ≤ s.store.rev
  opened : ∀ r ∈ s.readers, r.tx.state = .opened
  readers : ∀ r ∈ s.readers, r.tx.isolation = .serializable → ReaderSound s r
  reads : ∀ n seen, (n, seen) ∈ s.reads → SightSound s n seen

section Keys

variable {globMatch : Glob} {s s' : Reading} {r : Reader} {d : KeyMap Value} {k : Key}

/-- A settled key has its undelivered value in the store. -/
theorem undelivered_of_settled (h : s.settled k = true) : s.undelivered k = s.store.data[k]? := by
  unfold settled at h
  unfold undelivered
  cases hc : Transaction.firstChange (s.pending.getD []) k with
  | none => rfl
  | some c => simpa [hc] using h

/-- A key that the undelivered changes do not name is settled. -/
theorem settled_of_notMem (h : k ∉ changedKeys (s.pending.getD [])) : s.settled k = true := by
  rw [settled, Transaction.firstChange_eq_none.mpr h]

/-- With nothing to deliver the store holds the undelivered values. -/
theorem undelivered_of_idle (h : s.pending = none) (k : Key) :
    s.undelivered k = s.store.data[k]? := by
  simp [undelivered, h, Transaction.firstChange]

/-- Applying a commit leaves the undelivered values as they were. -/
theorem undelivered_apply {u : Update} {changes : List Change} {m : Meta} (hidle : s.pending = none)
    (hpending : s'.pending = some changes)
    (hstore : s.store.update u = (s'.store, .ok (changes, m))) (k : Key) :
    s'.undelivered k = s.undelivered k := by
  have hreplay := (Store.update_ok hstore).2.replays
  rw [undelivered_of_idle hidle, undelivered, hpending, Option.getD_some]
  cases hc : Transaction.firstChange changes k with
  | none => exact Transaction.data_of_firstChange_none hreplay hc
  | some c => exact Transaction.firstChange_oldValue hreplay hc

/-- A key without a write of the transaction shows its item's value. -/
theorem KeySound.shown {e : Entry} (h : KeySound s r d k) (hitem : r.tx.items[k]? = some e)
    (hunwritten : k ∉ r.written) : e.value = d[k]? ∧ e.shown = d[k]? := by
  simp only [KeySound, hitem] at h
  obtain ⟨hvalue, haction⟩ := h.resolve_left hunwritten
  refine ⟨hvalue, ?_⟩
  rcases haction with haction | haction <;> simp [Entry.shown, haction, hvalue]

/-- A key without a write of the transaction, recorded or settled, shows its value at creation. -/
theorem KeySound.visible (h : KeySound s r d k) (hunwritten : k ∉ r.written)
    (hknown : k ∈ r.tx.items ∨ s.settled k = true) : r.tx.visible s.store k = d[k]? := by
  rw [Transaction.visible]
  cases hitem : r.tx.items[k]? with
  | some e => exact (h.shown hitem hunwritten).2
  | none =>
    have hsettled := hknown.resolve_left (by simpa using hitem)
    simp only [KeySound, hitem] at h
    exact (undelivered_of_settled hsettled).symm.trans h

/-- An observed item stays sound. -/
theorem KeySound.observed {r' : Reader} {e : Entry} (h : KeySound s r d k)
    (hitem : r.tx.items[k]? = some e) (hitem' : r'.tx.items[k]? = some e.observed)
    (hwritten : ∀ k ∈ r.written, k ∈ r'.written) : KeySound s r' d k := by
  simp only [KeySound, hitem] at h
  simp only [KeySound, hitem']
  refine h.imp (hwritten k) fun ⟨hvalue, haction⟩ => ?_
  by_cases hsnap : e.action = .snapshot
  · simpa [Entry.observed, hsnap] using hvalue
  · simpa [Entry.observed, hsnap] using ⟨hvalue, haction.resolve_right hsnap⟩

/-- A key whose item stays as it was stays sound. -/
theorem KeySound.same {r' : Reader} (h : KeySound s r d k)
    (hitem : r'.tx.items[k]? = r.tx.items[k]?) (hwritten : ∀ k ∈ r.written, k ∈ r'.written) :
    KeySound s r' d k := by
  simp only [KeySound, hitem]
  simp only [KeySound] at h
  cases hi : r.tx.items[k]? with
  | some e => simpa [hi] using (by simpa [hi] using h : _ ∨ _).imp_left (hwritten k)
  | none => simpa [hi] using h

/-- The stored value of a settled key is a sound pin. -/
theorem KeySound.pinned {r' : Reader} (h : KeySound s r d k) (hitem : r.tx.items[k]? = none)
    (hsettled : s.settled k = true) (hitem' : r'.tx.items[k]? = some (pin s.store.data[k]?)) :
    KeySound s r' d k := by
  simp only [KeySound, hitem] at h
  simp only [KeySound, hitem', pin]
  exact Or.inr ⟨(undelivered_of_settled hsettled).symm.trans h, by simp⟩

/-- A written key is sound whatever its item. -/
theorem KeySound.wrote {e : Entry} (hitem : r.tx.items[k]? = some e) (hwritten : k ∈ r.written) :
    KeySound s r d k := by
  simp only [KeySound, hitem]
  exact Or.inl hwritten

end Keys

section Use

variable {globMatch : Glob} {s : Reading} {r : Reader} {d : KeyMap Value} {i : TxInput}
  {run : OpenTx} {o : TxAnswer} {n : ℕ}

/-- The written keys are never forgotten. -/
theorem written_after (r : Reader) (i : TxInput) (run : OpenTx) (o : TxAnswer) :
    ∀ k ∈ r.written, k ∈ (Reader.after r i run o).written := fun _ hk =>
  List.mem_append_left _ hk

/-- The keys that an untorn `read` meets are recorded or settled. -/
theorem known_of_untorn_read {k : Key} {ensure : Bool} (hr : s.readers[n]? = some r)
    (hiso : r.tx.isolation = .serializable)
    (huntorn : s.untorn globMatch (.use n (.read k ensure)) = true) :
    k ∈ r.tx.items ∨ s.settled k = true := by
  simpa [untorn, hr, hiso] using huntorn

/-- The keys that an untorn `for_each` collects are recorded or settled. -/
theorem known_of_untorn_forEach {pattern : Bytes} {k : Key} (hr : s.readers[n]? = some r)
    (hiso : r.tx.isolation = .serializable)
    (huntorn : s.untorn globMatch (.use n (.forEach pattern)) = true)
    (hscan : scans globMatch pattern k = true) : k ∈ r.tx.items ∨ s.settled k = true := by
  by_cases hmem : k ∈ changedKeys (s.pending.getD [])
  · have hall : ∀ k ∈ changedKeys (s.pending.getD []),
        (scans globMatch pattern k = false ∨ k ∈ r.tx.items) ∨ s.settled k = true := by
      simpa [untorn, hr, hiso] using huntorn
    simpa [hscan] using hall k hmem
  · exact Or.inr (settled_of_notMem hmem)

/-- An untorn operation keeps the items of a serializable transaction sound. -/
theorem keySound_use (hr : s.readers[n]? = some r) (hiso : r.tx.isolation = .serializable)
    (huntorn : s.untorn globMatch (.use n i) = true) (hcommit : ∀ u, i ≠ .commit u)
    (hstep : (s.openTx r).step globMatch i = some (run, o)) (hsound : ∀ k, KeySound s r d k)
    (k : Key) : KeySound s (Reader.after r i run o) d k := by
  have hwritten := written_after r i run o
  cases OpenTx.step_effect hstep with
  | @commit u _ _ _ _ _ _ => exact absurd rfl (hcommit u)
  | @read k' _ v _ htx =>
    by_cases hk : k' = k
    · subst hk
      have hitems := htx.items k'
      rw [if_pos rfl, Transaction.itemAfterRead] at hitems
      cases hitem : r.tx.items[k']? with
      | some e =>
        simp only [openTx, hitem] at hitems
        by_cases hnone : e.value = none
        · rw [if_pos hnone] at hitems
          exact (hsound k').same (hitems.trans hitem.symm) hwritten
        · rw [if_neg hnone] at hitems
          exact (hsound k').observed hitem hitems hwritten
      | none =>
        simp only [openTx, hitem, hiso, reduceCtorEq, if_false] at hitems
        have hknown := known_of_untorn_read hr hiso huntorn
        exact (hsound k').pinned hitem (hknown.resolve_left (by simpa using hitem)) hitems
    · exact (hsound k).same ((htx.items k).trans (if_neg hk)) hwritten
  | @upsert k' data _ htx =>
    by_cases hk : k' = k
    · subst hk
      exact .wrote ((htx.written rfl k').trans (if_pos rfl)) (by simp [Reader.after, writtenKeys])
    · exact (hsound k).same ((htx.written rfl k).trans (if_neg hk)) hwritten
  | @upsertIfChanged k' data b _ htx =>
    cases b with
    | false =>
      refine (hsound k).same ((htx.unchanged rfl k).trans (if_neg ?_)) hwritten
      simp [openTx, hiso]
    | true =>
      by_cases hk : k' = k
      · subst hk
        exact .wrote ((htx.written rfl k').trans (if_pos rfl)) (by simp [Reader.after, writtenKeys])
      · exact (hsound k).same ((htx.written rfl k).trans (if_neg hk)) hwritten
  | @remove k' b _ htx =>
    cases b with
    | false =>
      refine (hsound k).same ?_ hwritten
      rw [Reader.after, htx.unchanged rfl]
      rfl
    | true =>
      by_cases hk : k' = k
      · subst hk
        exact .wrote ((htx.removed rfl k').trans (if_pos rfl)) (by simp [Reader.after, writtenKeys])
      · exact (hsound k).same ((htx.removed rfl k).trans (if_neg hk)) hwritten
  | @forEach pattern ret _ _ _ htx =>
    have hitems := htx.items k
    by_cases hscan : scans globMatch pattern k = true
    · rw [if_pos hscan] at hitems
      cases hitem : r.tx.items[k]? with
      | some e =>
        simp only [openTx, hitem] at hitems
        exact (hsound k).observed hitem hitems hwritten
      | none =>
        simp only [openTx, hitem, hiso, reduceCtorEq, if_false] at hitems
        have hknown := known_of_untorn_forEach hr hiso huntorn hscan
        have hsettled := hknown.resolve_left (by simpa using hitem)
        cases hvalue : s.store.data[k]? with
        | none =>
          simp only [hvalue, Option.map_none] at hitems
          exact (hsound k).same (hitems.trans hitem.symm) hwritten
        | some v =>
          simp only [hvalue, Option.map_some] at hitems
          exact (hsound k).pinned hitem hsettled (by rw [hvalue]; exact hitems)
    · rw [if_neg hscan] at hitems
      exact (hsound k).same hitems hwritten
  | ensure _ htx => exact (hsound k).same (by rw [Reader.after, htx]; rfl) hwritten
  | empty hsame => exact (hsound k).same (by rw [Reader.after, hsame]; rfl) hwritten
  | visit _ hsame => exact (hsound k).same (by rw [Reader.after, hsame]; rfl) hwritten
  | stop _ hsame => exact (hsound k).same (by rw [Reader.after, hsame]; rfl) hwritten
  | thrown hsame => exact (hsound k).same (by rw [Reader.after, hsame]; rfl) hwritten

/-- What an untorn operation of a serializable transaction sees of the keys it has not written
are the values at creation. -/
theorem sight_use (hr : s.readers[n]? = some r) (hiso : r.tx.isolation = .serializable)
    (huntorn : s.untorn globMatch (.use n i) = true)
    (hstep : (s.openTx r).step globMatch i = some (run, o)) (hsound : ∀ k, KeySound s r d k)
    {k : Key} {v : Option Value} (hunwritten : k ∉ r.written)
    (hseen : sight globMatch i o k = some v) : v = d[k]? := by
  cases OpenTx.step_effect hstep with
  | @read k' _ w _ htx =>
    simp only [sight] at hseen
    split_ifs at hseen with hk
    subst hk
    obtain rfl : w = v := by simpa using hseen
    rw [htx.value]
    exact (hsound k).visible hunwritten (known_of_untorn_read hr hiso huntorn)
  | @forEach pattern ret _ _ _ htx =>
    simp only [sight] at hseen
    split_ifs at hseen with hscan
    have hvisible : r.tx.visible s.store k = d[k]? :=
      (hsound k).visible hunwritten (known_of_untorn_forEach hr hiso huntorn hscan.2)
    obtain rfl : ret.lookup k = v := by simpa using hseen
    rw [← hvisible]
    cases hlookup : ret.lookup k with
    | some w =>
      have hmem : (k, w) ∈ ret := by
        obtain ⟨l₁, l₂, rfl, -⟩ := List.lookup_eq_some_iff.mp hlookup
        simp
      exact ((htx.mem_ret k w).mp hmem).2.symm
    | none =>
      cases hv : r.tx.visible s.store k with
      | none => rfl
      | some w =>
        have hmem := (htx.mem_ret k w).mpr ⟨hscan.2, hv⟩
        have hne := List.lookup_eq_none_iff.mp hlookup (k, w) hmem
        simp at hne
  | empty _ => simp [sight] at hseen
  | commit => simp [sight] at hseen
  | upsert => simp [sight] at hseen
  | upsertIfChanged => simp [sight] at hseen
  | remove => simp [sight] at hseen
  | ensure => simp [sight] at hseen
  | visit => simp [sight] at hseen
  | stop => simp [sight] at hseen
  | thrown => cases i <;> simp [sight] at hseen

end Use

section Steps

variable {globMatch : Glob} {s s' : Reading}

/-- A transaction whose items are unchanged is as sound after a step that keeps the content of its
creation revision and the undelivered values. -/
theorem ReaderSound.mono {r : Reader} (h : ReaderSound s r)
    (hcontent : ∀ rev d, s.contentAt rev = some d → s'.contentAt rev = some d)
    (hundelivered : ∀ k, s'.undelivered k = s.undelivered k) : ReaderSound s' r := by
  obtain ⟨d, hd, hkeys⟩ := h
  refine ⟨d, hcontent _ _ hd, fun k => ?_⟩
  have hkey := hkeys k
  unfold KeySound at hkey ⊢
  rwa [hundelivered]

/-- What was seen stays right while the transaction keeps its creation revision. -/
theorem SightSound.mono {n : ℕ} {seen : Sight} (h : SightSound s n seen)
    (hcontent : ∀ rev d, s.contentAt rev = some d → s'.contentAt rev = some d)
    (hreaders : ∀ r, s.readers[n]? = some r → ∃ r', s'.readers[n]? = some r' ∧
      r'.tx.revCreation = r.tx.revCreation) : SightSound s' n seen := by
  obtain ⟨r, d, hr, hd, hseen⟩ := h
  obtain ⟨r', hr', hrev⟩ := hreaders r hr
  exact ⟨r', d, hr', hcontent _ _ (hrev ▸ hd), hseen⟩

/-- Applying a commit keeps the content at the earlier revisions. -/
theorem contentAt_apply {u : Update} {changes : List Change} {m : Meta} (hsound : Sound s)
    (hstore : s.store.update u = (s'.store, .ok (changes, m)))
    (hhistory : s'.history = (u.rev, s'.store.data) :: s.history) {rev : ℕ} {d : KeyMap Value}
    (h : s.contentAt rev = some d) : s'.contentAt rev = some d := by
  obtain ⟨entry, hfind, rfl⟩ := Option.map_eq_some_iff.mp h
  have hrev : entry.1 = rev := by simpa using List.find?_some hfind
  have hpast := hsound.past entry (List.mem_of_find?_eq_some hfind)
  have hnewer := (Store.update_ok hstore).2.newer
  rw [contentAt, hhistory, List.find?_cons_of_neg (by simp; omega), hfind]
  rfl

/-- Applying a commit keeps the invariant. -/
theorem Sound.apply {u : Update} {changes : List Change} {m : Meta} (hsound : Sound s)
    (hidle : s.pending = none) (hstore : s.store.update u = (s'.store, .ok (changes, m)))
    (hsame : s' = { s with
      store := s'.store, pending := some changes, history := (u.rev, s'.store.data) :: s.history }) :
    Sound s' := by
  obtain ⟨-, hupdated⟩ := Store.update_ok hstore
  have hpending : s'.pending = some changes := by rw [hsame]
  have hhistory : s'.history = (u.rev, s'.store.data) :: s.history := by
    conv_lhs => rw [hsame]
  have hreaders : s'.readers = s.readers := by rw [hsame]
  have hcontent : ∀ rev d, s.contentAt rev = some d → s'.contentAt rev = some d := fun _ _ =>
    contentAt_apply hsound hstore hhistory
  refine ⟨?_, ?_, ?_, hreaders ▸ hsound.opened, ?_, ?_⟩
  · rw [hpending]
    exact hupdated.wellFormed
  · simp [contentAt, hhistory, hupdated.rev]
  · rw [hhistory, hupdated.rev]
    intro h hh
    rcases List.mem_cons.mp hh with rfl | hh
    · exact le_rfl
    · exact (hsound.past h hh).trans hupdated.newer.le
  · rw [hreaders]
    exact fun r hr hiso => (hsound.readers r hr hiso).mono hcontent
      (undelivered_apply hidle hpending hstore)
  · intro n seen hseen
    rw [hsame] at hseen
    exact (hsound.reads n seen hseen).mono hcontent fun r hr => ⟨r, hreaders ▸ hr, rfl⟩

/-- A delivery gives a serializable transaction the old values of the keys it has no item for. -/
theorem ReaderSound.deliver {r : Reader} {changes : List Change} (h : ReaderSound s r)
    (hopen : r.tx.state = .opened) (hiso : r.tx.isolation = .serializable)
    (hwf : ∀ c ∈ changes, c.wellFormed) (hpending : s.pending = some changes)
    (hstore : s'.store = s.store) (hhistory : s'.history = s.history)
    (hidle : s'.pending = none) :
    ReaderSound s' { r with tx := r.tx.update globMatch changes } := by
  have hupdate := Transaction.update_spec globMatch hopen hwf
  obtain ⟨d, hd, hkeys⟩ := h
  refine ⟨d, ?_, fun k => ?_⟩
  · rw [contentAt, hhistory, hupdate.frame]
    exact hd
  · have hitems := hupdate.items k
    rw [if_pos hiso] at hitems
    have hkey := hkeys k
    unfold KeySound at hkey ⊢
    dsimp only
    rw [hitems]
    cases hitem : r.tx.items[k]? with
    | some e => simpa [hitem] using hkey
    | none =>
      simp only [hitem, undelivered, hpending, Option.getD_some] at hkey
      cases hc : Transaction.firstChange changes k with
      | some c => simpa [hc, Transaction.snapshotOf] using Or.inr hkey
      | none => simpa [hc, undelivered_of_idle hidle, hstore] using hkey

/-- A delivery keeps the invariant. -/
theorem Sound.deliver {changes : List Change} (hsound : Sound s) (hpending : s.pending = some changes)
    (hsame : s' = { s with
      pending := none
      readers := s.readers.map fun r => { r with tx := r.tx.update globMatch changes } }) :
    Sound s' := by
  have hwf : ∀ c ∈ changes, c.wellFormed := by
    have hall := hsound.wellFormed
    rwa [hpending] at hall
  have hframe : ∀ r ∈ s.readers,
      Transaction.UpdateStep globMatch r.tx changes (r.tx.update globMatch changes) := fun r hr =>
    Transaction.update_spec globMatch (hsound.opened r hr) hwf
  subst hsame
  refine ⟨by simp, hsound.latest, hsound.past, ?_, ?_, ?_⟩
  · intro r' hr'
    obtain ⟨r, hr, rfl⟩ := List.mem_map.mp hr'
    dsimp only
    rw [(hframe r hr).frame]
    exact hsound.opened r hr
  · intro r' hr' hiso
    obtain ⟨r, hr, rfl⟩ := List.mem_map.mp hr'
    have hiso' : r.tx.isolation = .serializable := by
      dsimp only at hiso
      rwa [(hframe r hr).frame] at hiso
    exact (hsound.readers r hr hiso').deliver (hsound.opened r hr) hiso' hwf hpending rfl rfl rfl
  · refine fun n seen hseen => (hsound.reads n seen hseen).mono (fun _ _ h => h) fun r hr => ?_
    refine ⟨{ r with tx := r.tx.update globMatch changes }, ?_, ?_⟩
    · simp [hr]
    · dsimp only
      rw [(hframe r (List.mem_of_getElem? hr)).frame]

/-- Creating a transaction while all the keys are settled keeps the invariant. -/
theorem Sound.create {isolation : Isolation} {readOnly : Bool} {user : Option User} (hsound : Sound s)
    (hsettled : isolation = .serializable → ∀ k, s.settled k = true)
    (hsame : s' = { s with
      readers := s.readers ++ [{ tx := Transaction.create s.store isolation readOnly user }] }) :
    Sound s' := by
  subst hsame
  refine ⟨hsound.wellFormed, hsound.latest, hsound.past, ?_, ?_, ?_⟩
  · intro r hr
    rcases List.mem_append.mp hr with hr | hr
    · exact hsound.opened r hr
    · rw [List.mem_singleton.mp hr]
      rfl
  · intro r hr hiso
    rcases List.mem_append.mp hr with hr | hr
    · exact (hsound.readers r hr hiso).mono (fun _ _ h => h) fun _ => rfl
    · obtain rfl := List.mem_singleton.mp hr
      refine ⟨s.store.data, hsound.latest, fun k => ?_⟩
      have hitem : (Transaction.create s.store isolation readOnly user).items[k]? = none := by
        simp [Transaction.create]
      simp only [KeySound, hitem]
      exact undelivered_of_settled (hsettled hiso k)
  · refine fun n seen hseen => (hsound.reads n seen hseen).mono (fun _ _ h => h) fun r hr => ?_
    refine ⟨r, ?_, rfl⟩
    rw [List.getElem?_append_left]
    · exact hr
    · exact (List.getElem?_eq_some_iff.mp hr).1

/-- An untorn operation keeps the invariant, and what it sees is right. -/
theorem Sound.use {n : ℕ} {i : TxInput} {r : Reader} {run : OpenTx} {o : TxAnswer} (hsound : Sound s)
    (hr : s.readers[n]? = some r) (hcommit : ∀ u, i ≠ .commit u)
    (huntorn : s.untorn globMatch (.use n i) = true)
    (hstep : (s.openTx r).step globMatch i = some (run, o))
    (hsame : s' = { s with
      readers := s.readers.set n (Reader.after r i run o)
      reads := s.reads ++ newReads globMatch n r i o }) : Sound s' := by
  have hmem := List.mem_of_getElem? hr
  have hopen : (s.openTx r).tx.state = .opened := hsound.opened r hmem
  have hframe : Transaction.SameFrame r.tx run.tx := OpenTx.step_sameFrame hstep
  have hset : (s.readers.set n (Reader.after r i run o))[n]? = some (Reader.after r i run o) := by
    rw [List.getElem?_set_self (List.getElem?_eq_some_iff.mp hr).1]
  have hrev : (Reader.after r i run o).tx.revCreation = r.tx.revCreation := by
    rw [Reader.after, hframe]
  subst hsame
  refine ⟨hsound.wellFormed, hsound.latest, hsound.past, ?_, ?_, ?_⟩
  · intro r' hr'
    rcases List.mem_or_eq_of_mem_set hr' with hr' | rfl
    · exact hsound.opened r' hr'
    · exact (OpenTx.step_state hstep).trans hopen
  · intro r' hr' hiso
    rcases List.mem_or_eq_of_mem_set hr' with hr' | rfl
    · exact (hsound.readers r' hr' hiso).mono (fun _ _ h => h) fun _ => rfl
    · have hiso' : r.tx.isolation = .serializable := by
        rwa [Reader.after, hframe] at hiso
      obtain ⟨d, hd, hkeys⟩ := hsound.readers r hmem hiso'
      have hsound' : ReaderSound s (Reader.after r i run o) :=
        ⟨d, hrev ▸ hd, keySound_use hr hiso' huntorn hcommit hstep hkeys⟩
      exact hsound'.mono (fun _ _ h => h) fun _ => rfl
  · intro m seen hseen
    rcases List.mem_append.mp hseen with hseen | hseen
    · refine (hsound.reads m seen hseen).mono (fun _ _ h => h) fun r' hr' => ?_
      by_cases hm : m = n
      · subst hm
        obtain rfl : r' = r := Option.some.inj (hr'.symm.trans hr)
        exact ⟨_, hset, hrev⟩
      · exact ⟨r', (List.getElem?_set_ne (Ne.symm hm)).trans hr', rfl⟩
    · unfold newReads at hseen
      split_ifs at hseen with hiso
      · obtain ⟨rfl, rfl⟩ := Prod.mk.inj (List.mem_singleton.mp hseen)
        obtain ⟨d, hd, hkeys⟩ := hsound.readers r hmem hiso
        refine ⟨_, d, hset, hrev ▸ hd, fun k v hv => ?_⟩
        dsimp only at hv
        split_ifs at hv with hunwritten
        exact sight_use hr hiso huntorn hstep hkeys hunwritten hv
      · simp at hseen

/-- Every untorn step keeps the invariant. -/
theorem Sound.step {e : ReadEvent} (hsound : Sound s) (huntorn : s.untorn globMatch e = true)
    (hstep : s.step globMatch e = some s') : Sound s' := by
  cases e with
  | apply u =>
    simp only [Reading.step] at hstep
    split_ifs at hstep with hbusy
    have hidle : s.pending = none := by
      by_contra hne
      exact hbusy (Or.inl hne)
    cases hupdate : s.store.update u with
    | mk store result =>
      cases result with
      | error e => simp [hupdate] at hstep
      | ok p =>
        obtain ⟨changes, m⟩ := p
        simp only [hupdate, Option.some.injEq] at hstep
        subst hstep
        exact hsound.apply hidle hupdate rfl
  | deliver =>
    simp only [Reading.step] at hstep
    split_ifs at hstep with hbusy
    obtain ⟨changes, hpending, rfl⟩ := Option.map_eq_some_iff.mp hstep
    exact hsound.deliver hpending rfl
  | create isolation readOnly user =>
    simp only [Reading.step, Option.some.injEq] at hstep
    refine hsound.create (fun hiso k => ?_) hstep.symm
    subst hiso
    have hall : ∀ k ∈ changedKeys (s.pending.getD []), s.settled k = true := by
      simpa [untorn] using huntorn
    by_cases hmem : k ∈ changedKeys (s.pending.getD [])
    · exact hall k hmem
    · exact settled_of_notMem hmem
  | use n i =>
    have hcommit : ∀ u, i ≠ .commit u := by
      rintro u rfl
      simp [Reading.step] at hstep
    have hstep' : (match s.readers[n]? with
        | none => none
        | some r => ((s.openTx r).step globMatch i).map fun answer =>
          { s with
            readers := s.readers.set n (Reader.after r i answer.1 answer.2)
            reads := s.reads ++ newReads globMatch n r i answer.2 }) = some s' := by
      cases i with
      | commit u => exact absurd rfl (hcommit u)
      | _ => exact hstep
    cases hr : s.readers[n]? with
    | none => simp [hr] at hstep'
    | some r =>
      simp only [hr] at hstep'
      obtain ⟨⟨run, o⟩, hrun, rfl⟩ := Option.map_eq_some_iff.mp hstep'
      exact hsound.use hr hcommit huntorn hrun rfl

/-- A store that no transaction uses yet is sound. -/
theorem sound_start (store : Store) : Sound (start store) :=
  ⟨by simp [start], by simp [contentAt, start], by simp [start], by simp [start], by simp [start],
    by simp [start]⟩

end Steps

/-- What serializable transactions see of the keys they have not written is the content at their
creation, in every run that does not meet a commit half way. -/
theorem reads_at_creation (globMatch : Glob) (store : Store) (events : List ReadEvent)
    (s : Reading)
    (hrun : Run (step globMatch) (fun s e => s.untorn globMatch e = true) (start store) events s)
    (n : ℕ) (seen : Sight) (hseen : (n, seen) ∈ s.reads) :
    ∃ r d, s.readers[n]? = some r ∧ s.contentAt r.tx.revCreation = some d ∧
      ∀ k v, seen k = some v → v = d[k]? :=
  (hrun.invariant (fun _ _ _ huntorn hstep hsound => hsound.step huntorn hstep)
    (sound_start store)).reads n seen hseen

/-- A transaction created between the application of a commit and its delivery is told of a change
it has already seen, and reads the value before it. -/
theorem created_before_delivery_reads_old_value :
    ¬∀ (events : List ReadEvent) (s : Reading),
      Run (step fun _ _ => true) anyStep (start Store.empty) events s →
        ∀ n seen, (n, seen) ∈ s.reads →
          ∃ r d, s.readers[n]? = some r ∧ s.contentAt r.tx.revCreation = some d ∧
            ∀ k v, seen k = some v → v = d[k]? := by
  intro h
  have hexec : (execute (step fun _ _ => true) (fun _ _ => true) (start Store.empty)
      [.apply (.writing 1 [[97]] [1]), .create .serializable false none, .deliver,
        .use 0 (.read [97] false)]).map (fun s =>
          (s.reads.map fun p => (p.1, p.2 [97]), (s.readers[0]?).map (·.tx.revCreation),
            (s.contentAt 1).map (·[([97] : Key)]?.isSome))) =
      some ([(0, some none)], some 1, some true) := by
    decide +kernel
  obtain ⟨s, hrun, hend⟩ := exists_run_of_execute (fun _ _ _ => trivial) hexec
  simp only [Prod.mk.injEq] at hend
  obtain ⟨hreads, hreader, hvalue⟩ := hend
  obtain ⟨⟨n, seen⟩, hmem, heq⟩ :=
    List.mem_map.mp (hreads ▸ List.mem_singleton_self (0, (some none : Option (Option Value))))
  obtain ⟨rfl, hseen⟩ := Prod.mk.inj heq
  obtain ⟨r, d, hr, hd, hall⟩ := h _ s hrun 0 seen hmem
  have hrev : r.tx.revCreation = 1 := by simpa [hr] using hreader
  have habsent := hall [97] none hseen
  rw [hrev] at hd
  rw [hd, Option.map_some, ← habsent] at hvalue
  simp at hvalue

/-- A transaction created before a commit and reading its key after the delivery. -/
theorem reads_at_creation_delivered : ∃ s,
    Run (step fun _ _ => true) (fun s e => s.untorn (fun _ _ => true) e = true) (start Store.empty)
        [.create .serializable false none, .apply (.writing 1 [[97]] [1]), .deliver,
          .use 0 (.read [97] false)] s ∧
      s.reads.length = 1 ∧
      ∀ n seen, (n, seen) ∈ s.reads →
        ∃ r d, s.readers[n]? = some r ∧ s.contentAt r.tx.revCreation = some d ∧
          ∀ k v, seen k = some v → v = d[k]? := by
  have hexec : (execute (step fun _ _ => true) (fun s e => s.untorn (fun _ _ => true) e)
      (start Store.empty)
      [.create .serializable false none, .apply (.writing 1 [[97]] [1]), .deliver,
        .use 0 (.read [97] false)]).map (·.reads.length) = some 1 := by
    decide +kernel
  obtain ⟨s, hrun, hlength⟩ := exists_run_of_execute (fun _ _ h => h) hexec
  exact ⟨s, hrun, hlength, reads_at_creation _ _ _ s hrun⟩

end Reading

end Nplex
