import Nplex.Transaction.OpenTx
import Nplex.Common.Transition

/-!
# Conflicts between a transaction and the commits it sees

A conflict is a commit that changes a key the transaction has accessed: after the access,
or at any time since the creation of a serializable transaction. Every access should leave
behind an item that `update` recognises, or mark the transaction dirty when it touches a
snapshot; then a transaction that is not dirty has no conflict.

Three branches do neither. A removal that finds nothing records nothing, a serializable
`upsert_if_changed` that finds the value already there records nothing, and reading or
removing a snapshot of an absent key, or removing any snapshot, does not mark the
transaction. On the runs that take none of them no conflict is missed.
-/

namespace Nplex

open Nplex.Common

/-- The keys an answered input accesses. -/
def accesses (isolation : Isolation) : TxInput → TxAnswer → List Key
  | .upsert k _, .done => [k]
  | .upsertIfChanged k _, .flag b => if b || isolation ≠ .readCommitted then [k] else []
  | .remove k, .flag b => if b || isolation ≠ .readCommitted then [k] else []
  | .read k _, .value _ => if isolation ≠ .readCommitted then [k] else []
  | .visit, .called k _ => if isolation ≠ .readCommitted then [k] else []
  | _, _ => []

/-- The keys a delivered commit changes. -/
def deliveredKeys : TxAnswer → List Key
  | .delivered changes => changedKeys changes
  | _ => []

/-- An open transaction with the keys it has accessed, the keys that commits have changed since
its creation, and the keys in conflict. -/
structure Audit where
  run : OpenTx
  accessed : List Key := []
  changed : List Key := []
  conflicts : List Key := []

namespace Audit

/-- The audit of a transaction just created. -/
def start (store : Store) (isolation : Isolation) (readOnly : Bool) (user : Option User) : Audit :=
  { run := OpenTx.start store isolation readOnly user }

/-- Record an answered input. A changed key is in conflict when it was accessed before, and an
accessed key of a serializable transaction when it was changed before. -/
def record (a : Audit) (i : TxInput) (run : OpenTx) (o : TxAnswer) : Audit :=
  let isolation := a.run.tx.isolation
  { run := run
    accessed := a.accessed ++ accesses isolation i o
    changed := a.changed ++ deliveredKeys o
    conflicts := a.conflicts ++ (deliveredKeys o).filter (fun k => k ∈ a.accessed) ++
      if isolation = .serializable then
        (accesses isolation i o).filter fun k => k ∈ a.changed
      else [] }

/-- One input. -/
def step (globMatch : Glob) (a : Audit) (i : TxInput) : Option Audit :=
  (a.run.step globMatch i).map fun answer => a.record i answer.1 answer.2

end Audit

/-- The calls that succeed and leave neither an item nor the dirty flag behind. -/
def leavesNoTrace (globMatch : Glob) (s : OpenTx) : TxInput → Bool
  | .remove k =>
    isValidKey k && !s.tx.readOnly && authorized globMatch s.tx.user CRUD_DELETE k &&
      s.tx.isolation ≠ .readCommitted &&
      (s.tx.snapshotAt k || (s.tx.items[k]? = none && s.store.data[k]? = none))
  | .upsertIfChanged k data =>
    !(!isValidKey k || data.isEmpty) && !s.tx.readOnly &&
      authorized globMatch s.tx.user CRUD_UPDATE k && s.tx.isolation = .serializable &&
      s.tx.items[k]? = none && (s.store.data[k]?).map Value.data = some data
  | .read k _ =>
    isValidKey k && s.tx.isolation = .serializable && s.tx.items[k]? = some ⟨.snapshot, none⟩
  | _ => false

/-- The condition on a step: the transaction is dirty already, or the branch is not taken. -/
def tracesStep (globMatch : Glob) (a : Audit) (i : TxInput) : Bool :=
  a.run.tx.dirty || !leavesNoTrace globMatch a.run i

namespace Transaction

/-- The key has an item that `update` recognises. -/
def Recorded (tx : Transaction) (k : Key) : Prop :=
  ∃ e : Entry, tx.items[k]? = some e ∧ (tx.isolation = .serializable → e.action ≠ .snapshot)

/-- Some item is an upsert or a removal. -/
theorem hasModifications_iff (tx : Transaction) : tx.hasModifications = true ↔
    ∃ (k : Key) (e : Entry), tx.items[k]? = some e ∧ e.action ≠ .read ∧ e.action ≠ .snapshot := by
  rw [hasModifications, List.any_eq_true]
  constructor
  · rintro ⟨⟨k, e⟩, hmem, he⟩
    exact ⟨k, e, mem_toList.mp hmem, by simpa using he⟩
  · rintro ⟨k, e, hitem, he⟩
    exact ⟨(k, e), mem_toList.mpr hitem, by simpa using he⟩

/-- A recorded key has an item. -/
theorem Recorded.mem {tx : Transaction} {k : Key} (h : tx.Recorded k) : k ∈ tx.items := by
  obtain ⟨e, he, -⟩ := h
  exact mem_keyMap.mpr ⟨e, he⟩

/-- A serializable transaction holds no snapshot of a recorded key. -/
theorem Recorded.snapshotAt {tx : Transaction} {k : Key} (h : tx.Recorded k)
    (hiso : tx.isolation = .serializable) : tx.snapshotAt k = false := by
  obtain ⟨e, he, hsnap⟩ := h
  simp [Transaction.snapshotAt, he, hsnap hiso]

end Transaction

namespace Audit

open Transaction

/-- What holds of a transaction that is not dirty. -/
structure Clean (a : Audit) : Prop where
  /-- No key is in conflict. -/
  conflicts : a.conflicts = []
  /-- The accessed keys are recorded. -/
  accessed : ∀ k ∈ a.accessed, a.run.tx.Recorded k
  /-- The pairs still to visit are recorded, unless the level is read-committed. -/
  iterating : a.run.tx.isolation ≠ .readCommitted →
    ∀ kvs ∈ a.run.iterating, ∀ kv ∈ kvs, a.run.tx.Recorded kv.1
  /-- The changed keys of a serializable transaction are snapshots. -/
  changed : a.run.tx.isolation = .serializable → ∀ k ∈ a.changed, a.run.tx.snapshotAt k = true

/-- The transaction is open with a pending promise, a read-only one has no modifications, and
it is clean unless it is dirty. -/
structure Sound (a : Audit) : Prop where
  opened : a.run.tx.state = .opened
  pending : a.run.tx.promise.result = none
  writable : a.run.tx.hasModifications = true → a.run.tx.readOnly = false
  clean : a.run.tx.dirty = true ∨ Clean a

variable {globMatch : Glob} {a a' : Audit} {run' : OpenTx} {i : TxInput} {o : TxAnswer}

/-- The step creates no modification. -/
def NoNewWrites (tx tx' : Transaction) : Prop :=
  ∀ (k : Key) (e : Entry), tx'.items[k]? = some e → e.action ≠ .read → e.action ≠ .snapshot →
    tx.items[k]? = some e

/-- An observed item is a modification only if it was one before. -/
theorem observed_eq_of_write {e : Entry} (hread : e.observed.action ≠ .read) : e.observed = e := by
  unfold Entry.observed at hread ⊢
  split_ifs at hread ⊢ with hsnap
  · exact absurd rfl hread
  · rfl

/-- `read` writes nothing. -/
theorem noNewWrites_read {tx tx' : Transaction} {store : Store} {k : Key} {ensure : Bool}
    {v : Option Value}
    (h : ReadStep tx store k ensure v tx') : NoNewWrites tx tx' := by
  intro k' e hitem hread hsnap
  rw [h.items] at hitem
  split_ifs at hitem with hk
  · subst hk
    unfold itemAfterRead at hitem
    split at hitem
    · next e' hbefore =>
      rw [hbefore]
      simp only [Option.some.injEq] at hitem
      subst hitem
      split_ifs at hread ⊢ with hvalue
      · rfl
      · rw [observed_eq_of_write hread]
    · split_ifs at hitem
      simp only [Option.some.injEq] at hitem
      subst hitem
      exact absurd rfl hread
  · exact hitem

/-- `for_each` writes nothing. -/
theorem noNewWrites_forEach {tx tx' : Transaction} {store : Store} {pattern : Bytes}
    {ret : List (Key × Value)} (h : Collected globMatch tx store pattern ret tx') :
    NoNewWrites tx tx' := by
  intro k e hitem hread hsnap
  rw [h.items] at hitem
  by_cases hscan : scans globMatch pattern k = true
  · rw [if_pos hscan] at hitem
    cases hbefore : tx.items[k]? with
    | some e' =>
      simp only [hbefore, Option.some.injEq] at hitem
      subst hitem
      rw [observed_eq_of_write hread]
    | none =>
      simp only [hbefore, Option.ite_none_left_eq_some, Option.map_eq_some_iff] at hitem
      obtain ⟨-, v, -, rfl⟩ := hitem
      exact absurd rfl hread
  · rwa [if_neg hscan] at hitem

/-- A delivered commit writes nothing. -/
theorem noNewWrites_update {tx tx' : Transaction} {changes : List Change}
    (h : UpdateStep globMatch tx changes tx') : NoNewWrites tx tx' := by
  intro k e hitem hread hsnap
  rw [h.items] at hitem
  cases hbefore : tx.items[k]? with
  | some e' => simpa [hbefore] using hitem
  | none =>
    rw [hbefore] at hitem
    simp only [Option.none_or, Option.ite_none_right_eq_some, Option.map_eq_some_iff] at hitem
    obtain ⟨-, c, -, rfl⟩ := hitem
    exact absurd rfl hsnap

/-- Only a transaction that may write gets modifications. -/
theorem writable_step (h : a.Sound) (hstep : a.run.step globMatch i = some (run', o)) :
    run'.tx.hasModifications = true → run'.tx.readOnly = false := by
  have hframe := OpenTx.step_sameFrame hstep
  have hreadOnly : run'.tx.readOnly = a.run.tx.readOnly := by rw [hframe]
  rw [hreadOnly]
  have hold : NoNewWrites a.run.tx run'.tx → run'.tx.hasModifications = true →
      a.run.tx.readOnly = false := by
    intro hnew hmods
    obtain ⟨k, e, hitem, hread, hsnap⟩ := (hasModifications_iff _).mp hmods
    exact h.writable ((hasModifications_iff _).mpr ⟨k, e, hnew k e hitem hread hsnap, hread, hsnap⟩)
  cases OpenTx.step_effect hstep with
  | upsert _ htx => exact fun _ => htx.writable
  | upsertIfChanged _ htx => exact fun _ => htx.writable
  | remove _ htx => exact fun _ => htx.writable
  | commit _ hstore htx _ =>
    have hwf := (Store.update_ok hstore).2.wellFormed
    exact hold (htx ▸ noNewWrites_update (update_spec globMatch h.opened hwf))
  | read _ htx => exact hold (noNewWrites_read htx)
  | forEach _ _ _ htx => exact hold (noNewWrites_forEach htx)
  | ensure _ htx => exact hold fun k e hitem _ _ => by rwa [htx] at hitem
  | empty hsame => exact hold fun k e hitem _ _ => by rwa [hsame] at hitem
  | visit _ hsame => exact hold fun k e hitem _ _ => by rwa [hsame] at hitem
  | stop _ hsame => exact hold fun k e hitem _ _ => by rwa [hsame] at hitem
  | thrown hsame => exact hold fun k e hitem _ _ => by rwa [hsame] at hitem

/-- A recorded key stays recorded when its item does not become a snapshot. -/
theorem recorded_of_item {tx tx' : Transaction} {k : Key} (h : tx.Recorded k)
    (hiso : tx'.isolation = tx.isolation)
    (hitem : ∀ e : Entry, tx.items[k]? = some e → ∃ e' : Entry, tx'.items[k]? = some e' ∧
      (e'.action = .snapshot → e.action = .snapshot)) : tx'.Recorded k := by
  obtain ⟨e, he, hsnap⟩ := h
  obtain ⟨e', he', hsnap'⟩ := hitem e he
  exact ⟨e', he', fun hlevel heq => hsnap (hiso ▸ hlevel) (hsnap' heq)⟩

/-- What a step has to keep for a transaction to stay clean. -/
theorem Clean.record (h : a.Clean) (hiso : run'.tx.isolation = a.run.tx.isolation)
    (hkept : ∀ k, a.run.tx.Recorded k → run'.tx.Recorded k)
    (hnew : ∀ k ∈ accesses a.run.tx.isolation i o, run'.tx.Recorded k)
    (hnewUnchanged : a.run.tx.isolation = .serializable →
      ∀ k ∈ accesses a.run.tx.isolation i o, a.run.tx.snapshotAt k = false)
    (hdelivered : ∀ k ∈ deliveredKeys o, k ∉ a.accessed ∧
      (a.run.tx.isolation = .serializable → run'.tx.snapshotAt k = true))
    (hsnaps : a.run.tx.isolation = .serializable →
      ∀ k, a.run.tx.snapshotAt k = true → run'.tx.snapshotAt k = true)
    (hiter : a.run.tx.isolation ≠ .readCommitted → ∀ kvs ∈ run'.iterating,
      kvs ∈ a.run.iterating ∨ ∀ kv ∈ kvs, run'.tx.Recorded kv.1) :
    (a.record i run' o).Clean := by
  refine ⟨?_, ?_, ?_, ?_⟩
  · simp only [Audit.record, h.conflicts, List.nil_append, List.append_eq_nil_iff,
      List.filter_eq_nil_iff, decide_eq_true_eq]
    refine ⟨fun k hk => (hdelivered k hk).1, ?_⟩
    split_ifs with hlevel
    · rw [List.filter_eq_nil_iff]
      intro k hk hchanged
      have hsnap := h.changed hlevel k (by simpa using hchanged)
      rw [hnewUnchanged hlevel k hk] at hsnap
      cases hsnap
    · rfl
  · intro k hk
    rcases List.mem_append.mp hk with hk | hk
    · exact hkept k (h.accessed k hk)
    · exact hnew k hk
  · intro hlevel kvs hkvs kv hkv
    have hlevel' : a.run.tx.isolation ≠ .readCommitted := fun heq => hlevel (hiso.trans heq)
    rcases hiter hlevel' kvs hkvs with hmem | hrecorded
    · exact hkept _ (h.iterating hlevel' kvs hmem kv hkv)
    · exact hrecorded kv hkv
  · intro hlevel k hk
    have hlevel' : a.run.tx.isolation = .serializable := hiso.symm.trans hlevel
    rcases List.mem_append.mp hk with hk | hk
    · exact hsnaps hlevel' k (h.changed hlevel' k hk)
    · exact (hdelivered k hk).2 hlevel'

/-- A step that keeps the items and accesses nothing keeps the transaction clean. -/
theorem Clean.unchanged (h : a.Clean) (hiso : run'.tx.isolation = a.run.tx.isolation)
    (hitems : run'.tx.items = a.run.tx.items) (hnew : accesses a.run.tx.isolation i o = [])
    (hdelivered : deliveredKeys o = [])
    (hiter : ∀ kvs ∈ run'.iterating, kvs ∈ a.run.iterating ∨ kvs = []) :
    (a.record i run' o).Clean := by
  have hsame : ∀ k, run'.tx.snapshotAt k = a.run.tx.snapshotAt k := fun k => by
    rw [Transaction.snapshotAt, hitems, Transaction.snapshotAt]
  refine h.record hiso (fun k hk => recorded_of_item hk hiso fun e he => ⟨e, by rwa [hitems], id⟩)
    (by simp [hnew]) (by simp [hnew]) (by simp [hdelivered]) (fun _ k hk => by rwa [hsame]) ?_
  intro _ kvs hkvs
  rcases hiter kvs hkvs with hmem | rfl
  · exact Or.inl hmem
  · exact Or.inr (by simp)

/-- A delivered commit that does not mark the transaction leaves it clean. -/
theorem Clean.commit {u : Update} {changes : List Change} (h : a.Clean) (htx : UpdateStep globMatch a.run.tx changes run'.tx)
    (hiter : run'.iterating = a.run.iterating) (hdirty : run'.tx.dirty = false) :
    (a.record (.commit u) run' (.delivered changes)).Clean := by
  have hiso : run'.tx.isolation = a.run.tx.isolation := by rw [htx.frame]
  have hmiss : ∀ k ∈ changedKeys changes, k ∉ a.run.tx.items := by
    intro k hk hmem
    obtain ⟨c, hc, rfl⟩ := mem_changedKeys.mp hk
    have : run'.tx.dirty = true := htx.dirty.mpr (Or.inr (Or.inl ⟨c, hc, hmem⟩))
    rw [hdirty] at this
    cases this
  -- items that were there stay as they were
  have hold : ∀ (k : Key) (e : Entry), a.run.tx.items[k]? = some e → run'.tx.items[k]? = some e := by
    intro k e he
    rw [htx.items, he]
    simp
  refine h.record hiso (fun k hk => recorded_of_item hk hiso fun e he => ⟨e, hold k e he, id⟩)
    (by simp [accesses]) (by simp [accesses]) ?_ ?_ (fun _ kvs hkvs => Or.inl (hiter ▸ hkvs))
  · intro k hk
    refine ⟨fun hacc => hmiss k hk (h.accessed k hacc).mem, fun hlevel => ?_⟩
    have hnone : a.run.tx.items[k]? = none := by
      simpa using hmiss k hk
    cases hfirst : firstChange changes k with
    | none => exact absurd hk (firstChange_eq_none.mp hfirst)
    | some c => simp [snapshotAt, htx.items, hlevel, hnone, hfirst, snapshotOf]
  · intro _ k hk
    unfold snapshotAt at hk ⊢
    cases hitem : a.run.tx.items[k]? with
    | none => simp [hitem] at hk
    | some e =>
      rw [hold k e hitem]
      simpa [hitem] using hk

/-- A step about one key that is no snapshot keeps the transaction clean. -/
theorem Clean.keyed {k : Key} (h : a.Clean) (hsame : run' = { a.run with tx := run'.tx })
    (hiso : run'.tx.isolation = a.run.tx.isolation)
    (hothers : ∀ k', k ≠ k' → run'.tx.items[k']? = a.run.tx.items[k']?)
    (hkey : a.run.tx.Recorded k → run'.tx.Recorded k)
    (hfresh : a.run.tx.isolation = .serializable → a.run.tx.snapshotAt k = false)
    (hnew : ∀ k' ∈ accesses a.run.tx.isolation i o, k' = k ∧ run'.tx.Recorded k)
    (hdelivered : deliveredKeys o = []) : (a.record i run' o).Clean := by
  refine h.record hiso ?_ ?_ ?_ (by simp [hdelivered]) ?_ ?_
  · intro k' hk'
    by_cases hk : k = k'
    · subst hk
      exact hkey hk'
    · exact recorded_of_item hk' hiso fun e he => ⟨e, by rwa [hothers k' hk], id⟩
  · intro k' hk'
    obtain ⟨rfl, hrecorded⟩ := hnew k' hk'
    exact hrecorded
  · intro hlevel k' hk'
    obtain ⟨rfl, -⟩ := hnew k' hk'
    exact hfresh hlevel
  · intro hlevel k' hk'
    have hk : k ≠ k' := by
      rintro rfl
      rw [hfresh hlevel] at hk'
      cases hk'
    rw [snapshotAt, hothers k' hk]
    exact hk'
  · intro _ kvs hkvs
    rw [hsame] at hkvs
    exact Or.inl hkvs

/-- `read` keeps a transaction clean unless it marks it or leaves no trace. -/
theorem Clean.read {k : Key} {ensure : Bool} {v : Option Value} (h : a.Clean)
    (hsame : run' = { a.run with tx := run'.tx }) (htx : ReadStep a.run.tx a.run.store k ensure v run'.tx)
    (hdirty : run'.tx.dirty = false) (htrace : leavesNoTrace globMatch a.run (.read k ensure) = false) :
    (a.record (.read k ensure) run' (.value v)).Clean := by
  have hiso : run'.tx.isolation = a.run.tx.isolation := by rw [htx.frame]
  have hnoread : (a.run.tx.snapshotAt k && v.isSome) = false := by
    have hd := htx.dirty
    rw [hdirty, eq_comm, Bool.or_eq_false_iff] at hd
    exact hd.2
  have hfresh : a.run.tx.isolation = .serializable → a.run.tx.snapshotAt k = false := by
    intro hlevel
    unfold snapshotAt at hnoread ⊢
    cases hitem : a.run.tx.items[k]? with
    | none => rfl
    | some e =>
      obtain ⟨action, value⟩ := e
      have hv : v = Entry.shown ⟨action, value⟩ := by simpa [visible, hitem] using htx.value
      rw [hitem] at hnoread
      by_contra hsnap
      obtain rfl : action = .snapshot := by simpa using hsnap
      -- a snapshot that was read without marking is a snapshot of an absent key
      have hnone : value = none := by simpa [hv, Entry.shown] using hnoread
      simp [leavesNoTrace, htx.valid, hlevel, hitem, hnone] at htrace
  have hrecorded : a.run.tx.isolation ≠ .readCommitted ∨ a.run.tx.Recorded k →
      run'.tx.Recorded k := by
    intro hcase
    unfold Recorded
    rw [htx.items, if_pos rfl, itemAfterRead]
    cases hitem : a.run.tx.items[k]? with
    | none =>
      have hlevel : a.run.tx.isolation ≠ .readCommitted := by
        rcases hcase with hlevel | ⟨e, he, -⟩
        · exact hlevel
        · rw [hitem] at he
          cases he
      exact ⟨_, by simp [hlevel]; rfl, by simp [pin]⟩
    | some e =>
      refine ⟨_, rfl, fun hlevel => ?_⟩
      have hsnap := hfresh (hiso ▸ hlevel)
      simp only [snapshotAt, hitem, decide_eq_false_iff_not] at hsnap
      split_ifs
      · exact hsnap
      · rw [Entry.observed, if_neg hsnap]
        exact hsnap
  refine h.keyed hsame hiso (fun k' hk => by rw [htx.items, if_neg hk]) (fun hr => hrecorded (Or.inr hr))
    hfresh ?_ rfl
  intro k' hk'
  simp only [accesses] at hk'
  split_ifs at hk' with hlevel
  · exact ⟨by simpa using hk', hrecorded (Or.inl hlevel)⟩
  · simp at hk'

/-- `upsert_internal` keeps a transaction clean unless it marks it or leaves no trace. -/
theorem Clean.upsert {k data : Bytes} {force b : Bool} (h : a.Clean)
    (hsame : run' = { a.run with tx := run'.tx })
    (htx : UpsertStep globMatch a.run.tx a.run.store k data force b run'.tx)
    (hdirty : run'.tx.dirty = false)
    (hnew : ∀ k' ∈ accesses a.run.tx.isolation i o,
      k' = k ∧ (b = true ∨ a.run.tx.isolation ≠ .readCommitted))
    (hdelivered : deliveredKeys o = [])
    (htrace : b = false → leavesNoTrace globMatch a.run (.upsertIfChanged k data) = false) :
    (a.record i run' o).Clean := by
  have hiso : run'.tx.isolation = a.run.tx.isolation := by rw [htx.frame]
  have hsnap : a.run.tx.snapshotAt k = false := by
    have hd := htx.dirty
    rw [hdirty, eq_comm, Bool.or_eq_false_iff] at hd
    exact hd.2
  cases b with
  | true =>
    have hrecorded : run'.tx.Recorded k := ⟨_, by rw [htx.written rfl, if_pos rfl], by simp⟩
    exact h.keyed hsame hiso (fun k' hk => by rw [htx.written rfl, if_neg hk]) (fun _ => hrecorded)
      (fun _ => hsnap) (fun k' hk' => ⟨(hnew k' hk').1, hrecorded⟩) hdelivered
  | false =>
    have hitems := htx.unchanged rfl
    have hkept : a.run.tx.Recorded k → run'.tx.Recorded k := fun hr =>
      recorded_of_item hr hiso fun e he => ⟨e, by simp [hitems, he], id⟩
    refine h.keyed hsame hiso (fun k' hk => by rw [hitems, if_neg fun hc => hk hc.1]) hkept
      (fun _ => hsnap) (fun k' hk' => ?_) hdelivered
    obtain ⟨rfl, hlevel⟩ := hnew k' hk'
    refine ⟨rfl, ?_⟩
    cases hitem : a.run.tx.items[k']? with
    | some e =>
      refine hkept ⟨e, hitem, fun _ => ?_⟩
      simpa [snapshotAt, hitem] using hsnap
    | none =>
      have hlevel : a.run.tx.isolation ≠ .readCommitted := by simpa using hlevel
      -- only a repeatable-read transaction records the key
      have hrr : a.run.tx.isolation = .repeatableRead := by
        cases hl : a.run.tx.isolation with
        | readCommitted => exact absurd hl hlevel
        | repeatableRead => rfl
        | serializable =>
          have hvalue := (htx.flag.mp rfl).2
          rw [visible, hitem] at hvalue
          have := htrace rfl
          simp only [leavesNoTrace, htx.valid, htx.writable, htx.allowed rfl, hl, hitem] at this
          simp [hvalue] at this
      exact ⟨_, by rw [hitems, if_pos ⟨rfl, hitem, hrr⟩], by simp [pin]⟩

/-- `remove` keeps a transaction clean unless it leaves no trace. -/
theorem Clean.remove {k : Key} {b : Bool} (h : a.Clean) (hsame : run' = { a.run with tx := run'.tx })
    (htx : RemoveStep globMatch a.run.tx a.run.store k b run'.tx)
    (htrace : leavesNoTrace globMatch a.run (.remove k) = false) :
    (a.record (.remove k) run' (.flag b)).Clean := by
  have hiso : run'.tx.isolation = a.run.tx.isolation := by rw [htx.frame]
  have hleft : a.run.tx.isolation ≠ .readCommitted → a.run.tx.snapshotAt k = false ∧
      ¬(a.run.tx.items[k]? = none ∧ a.run.store.data[k]? = none) := by
    intro hlevel
    simpa [leavesNoTrace, htx.valid, htx.writable, htx.allowed, hlevel] using htrace
  have hfresh : a.run.tx.isolation = .serializable → a.run.tx.snapshotAt k = false := fun hlevel =>
    (hleft (by simp [hlevel])).1
  have haccess : ∀ k' ∈ accesses a.run.tx.isolation (.remove k) (.flag b),
      k' = k ∧ (b = true ∨ a.run.tx.isolation ≠ .readCommitted) := by
    intro k' hk'
    simp only [accesses] at hk'
    split_ifs at hk' with hcase
    · exact ⟨by simpa using hk', by simpa using hcase⟩
    · simp at hk'
  cases b with
  | true =>
    have hrecorded : run'.tx.Recorded k := ⟨_, by rw [htx.removed rfl, if_pos rfl], by simp⟩
    exact h.keyed hsame hiso (fun k' hk => by rw [htx.removed rfl, if_neg hk]) (fun _ => hrecorded)
      hfresh (fun k' hk' => ⟨(haccess k' hk').1, hrecorded⟩) rfl
  | false =>
    have heq := htx.unchanged rfl
    refine h.keyed hsame hiso (fun k' _ => by rw [heq]) (fun hr => by rwa [heq]) hfresh ?_ rfl
    intro k' hk'
    obtain ⟨rfl, hlevel⟩ := haccess k' hk'
    have hlevel : a.run.tx.isolation ≠ .readCommitted := by simpa using hlevel
    refine ⟨rfl, ?_⟩
    rw [heq]
    obtain ⟨hsnap, hpresent⟩ := hleft hlevel
    cases hitem : a.run.tx.items[k']? with
    | some e => exact ⟨e, hitem, fun _ => by simpa [snapshotAt, hitem] using hsnap⟩
    | none =>
      -- a removal that answers false found neither an item nor a stored value
      have hflag := htx.flag fun e he => by
        rw [hitem] at he
        cases he
      rw [visible, hitem, eq_comm, Option.isSome_eq_false_iff, Option.isNone_iff_eq_none] at hflag
      exact absurd ⟨hitem, hflag⟩ hpresent

/-- `for_each` keeps a transaction clean unless it marks it. -/
theorem Clean.forEach {pattern : Bytes} {ret : List (Key × Value)} (h : a.Clean)
    (hsame : run' = { a.run with tx := run'.tx, iterating := ret :: a.run.iterating })
    (htx : Collected globMatch a.run.tx a.run.store pattern ret run'.tx)
    (hdirty : run'.tx.dirty = false) :
    (a.record (.forEach pattern) run' (.collected ret)).Clean := by
  have hiso : run'.tx.isolation = a.run.tx.isolation := by rw [htx.frame]
  have hnosnap : ∀ (k : Key) (e : Entry), scans globMatch pattern k = true →
      a.run.tx.items[k]? = some e → e.action ≠ .snapshot := by
    intro k e hscan hitem hsnap
    have : run'.tx.dirty = true := htx.dirty.mpr (Or.inr ⟨k, e, hscan, hitem, hsnap⟩)
    rw [hdirty] at this
    cases this
  -- without a snapshot among the collected items, all items stay as they were
  have hold : ∀ (k : Key) (e : Entry), a.run.tx.items[k]? = some e → run'.tx.items[k]? = some e := by
    intro k e he
    rw [htx.items, he]
    by_cases hscan : scans globMatch pattern k = true
    · simp [hscan, Entry.observed, hnosnap k e hscan he]
    · simp [hscan]
  refine h.record hiso (fun k hk => recorded_of_item hk hiso fun e he => ⟨e, hold k e he, id⟩)
    (by simp [accesses]) (by simp [accesses]) (by simp [deliveredKeys]) ?_ ?_
  · intro _ k hk
    unfold snapshotAt at hk ⊢
    cases hitem : a.run.tx.items[k]? with
    | none => simp [hitem] at hk
    | some e =>
      rw [hold k e hitem]
      simpa [hitem] using hk
  · intro hlevel kvs hkvs
    rw [hsame] at hkvs
    rcases List.mem_cons.mp hkvs with rfl | hkvs
    · refine Or.inr fun kv hkv => ?_
      obtain ⟨hscan, hvisible⟩ := (htx.mem_ret kv.1 kv.2).mp hkv
      unfold visible at hvisible
      cases hitem : a.run.tx.items[kv.1]? with
      | some e => exact ⟨e, hold kv.1 e hitem, fun _ => hnosnap kv.1 e hscan hitem⟩
      | none =>
        rw [hitem] at hvisible
        exact ⟨_, by rw [htx.items, if_pos hscan, hitem]; simp [hlevel, hvisible]; rfl,
          by simp [pin]⟩
    · exact Or.inl hkvs

/-- A visit accesses a key that was recorded when it was collected. -/
theorem Clean.visit {k : Key} {v : Value} {rest : List (Key × Value)}
    {outer : List (List (Key × Value))} (h : a.Clean)
    (hiter : a.run.iterating = ((k, v) :: rest) :: outer)
    (hsame : run' = { a.run with iterating := rest :: outer }) :
    (a.record .visit run' (.called k v)).Clean := by
  have htx : run'.tx = a.run.tx := by rw [hsame]
  have hiter' : run'.iterating = rest :: outer := by rw [hsame]
  have hpending : a.run.tx.isolation ≠ .readCommitted →
      ∀ kv ∈ (k, v) :: rest, a.run.tx.Recorded kv.1 := fun hlevel =>
    h.iterating hlevel _ (by rw [hiter]; exact List.mem_cons_self)
  have haccess : ∀ k' ∈ accesses a.run.tx.isolation .visit (.called k v),
      a.run.tx.Recorded k' := by
    intro k' hk'
    simp only [accesses] at hk'
    split_ifs at hk' with hlevel
    · obtain rfl : k' = k := by simpa using hk'
      exact hpending hlevel _ List.mem_cons_self
    · simp at hk'
  refine h.record (by rw [htx]) (by simp [htx]) (by rwa [htx])
    (fun hlevel k' hk' => (haccess k' hk').snapshotAt hlevel) (by simp [deliveredKeys])
    (by simp [htx]) ?_
  intro hlevel kvs hkvs
  rw [hiter'] at hkvs
  rcases List.mem_cons.mp hkvs with rfl | hkvs
  · refine Or.inr fun kv hkv => ?_
    rw [htx]
    exact hpending hlevel kv (List.mem_cons_of_mem _ hkv)
  · exact Or.inl (by rw [hiter]; exact List.mem_cons_of_mem _ hkvs)

/-- One input keeps a clean transaction clean, unless it marks it or leaves no trace. -/
theorem clean_step (hopen : a.run.tx.state = .opened) (h : a.Clean)
    (hstep : a.run.step globMatch i = some (run', o)) (hdirty : run'.tx.dirty = false)
    (htrace : leavesNoTrace globMatch a.run i = false) : (a.record i run' o).Clean := by
  cases OpenTx.step_effect hstep with
  | commit _ hstore htx hiter =>
    have hupdate := update_spec globMatch hopen (Store.update_ok hstore).2.wellFormed
    exact h.commit (htx ▸ hupdate) hiter hdirty
  | read hsame htx => exact h.read hsame htx hdirty htrace
  | upsert hsame htx =>
    exact h.upsert hsame htx hdirty (by simp [accesses]) rfl (by simp)
  | @upsertIfChanged k data b hsame htx =>
    refine h.upsert hsame htx hdirty (fun k' hk' => ?_) rfl (fun _ => htrace)
    simp only [accesses] at hk'
    split_ifs at hk' with hcase
    · exact ⟨by simpa using hk', by simpa using hcase⟩
    · simp at hk'
  | remove hsame htx => exact h.remove hsame htx htrace
  | forEach _ _ hsame htx => exact h.forEach hsame htx hdirty
  | ensure hsame htx =>
    exact h.unchanged (by rw [htx]) (by rw [htx]) rfl rfl fun kvs hkvs => by
      rw [hsame] at hkvs
      exact Or.inl hkvs
  | empty hsame =>
    refine h.unchanged (by rw [hsame]) (by rw [hsame]) rfl rfl fun kvs hkvs => ?_
    rw [hsame] at hkvs
    exact (List.mem_cons.mp hkvs).symm
  | visit hiter hsame => exact h.visit hiter hsame
  | stop hiter hsame =>
    refine h.unchanged (by rw [hsame]) (by rw [hsame]) rfl rfl fun kvs hkvs => Or.inl ?_
    rw [hsame] at hkvs
    rw [hiter]
    exact List.mem_cons_of_mem _ hkvs
  | @thrown i e hsame =>
    refine h.unchanged (by rw [hsame]) (by rw [hsame]) (by cases i <;> rfl) rfl fun kvs hkvs => ?_
    rw [hsame] at hkvs
    exact Or.inl hkvs

/-- Every step that leaves a trace keeps the audit sound. -/
theorem Sound.step (h : a.Sound) (htrace : tracesStep globMatch a i = true)
    (hstep : a.step globMatch i = some a') : a'.Sound := by
  obtain ⟨⟨run', o⟩, hrun, rfl⟩ := Option.map_eq_some_iff.mp hstep
  have hframe := OpenTx.step_sameFrame hrun
  refine ⟨?_, ?_, writable_step h hrun, ?_⟩
  · change run'.tx.state = _
    rw [hframe]
    exact h.opened
  · change run'.tx.promise.result = _
    rw [hframe]
    exact h.pending
  · rcases h.clean with hdirty | hclean
    · exact Or.inl (OpenTx.step_dirty hrun hdirty)
    · by_cases hbefore : a.run.tx.dirty = true
      · exact Or.inl (OpenTx.step_dirty hrun hbefore)
      · cases hafter : run'.tx.dirty with
        | true => exact Or.inl hafter
        | false =>
          refine Or.inr (clean_step h.opened hclean hrun hafter ?_)
          simpa [tracesStep, hbefore] using htrace

/-- A transaction just created is sound. -/
theorem sound_start (store : Store) (isolation : Isolation) (readOnly : Bool) (user : Option User) :
    (start store isolation readOnly user).Sound := by
  refine ⟨rfl, rfl, ?_, Or.inr ⟨rfl, by simp [start], by simp [start, OpenTx.start],
    by simp [start]⟩⟩
  intro hmods
  obtain ⟨k, e, hitem, -⟩ := (hasModifications_iff _).mp hmods
  simp [start, OpenTx.start, Transaction.create] at hitem

/-- A submit without force of a dirty transaction with modifications is refused. -/
theorem Sound.submit_of_dirty (h : a.Sound) (hdirty : a.run.tx.dirty = true)
    (hmods : a.run.tx.hasModifications = true) (client : Bool) :
    ∃ tx, a.run.tx.submit false client = .ok (.done tx) ∧
      tx.promise.result = some (.value .rejectedIntegrity) := by
  refine ⟨{ a.run.tx.setState .rejected with
    promise := { result := some (.value .rejectedIntegrity), retrieved := true } }, ?_, rfl⟩
  have hset : a.run.tx.promise.set (.value .rejectedIntegrity) =
      .ok { a.run.tx.promise with result := some (.value .rejectedIntegrity) } := by
    simp [Promise.set, h.pending]
  simp [submit, h.opened, h.writable hmods, hmods, hdirty, finish, hset, Except.map]

/-- On every run that takes none of the branches that leave no trace, a transaction in conflict
is dirty, and its submit is refused. -/
theorem dirty_of_conflict (globMatch : Glob) (store : Store) (isolation : Isolation)
    (readOnly : Bool) (user : Option User) (inputs : List TxInput) (a : Audit)
    (hrun : Run (step globMatch) (fun a i => tracesStep globMatch a i = true)
      (start store isolation readOnly user) inputs a) (hconflict : a.conflicts ≠ []) :
    a.run.tx.dirty = true ∧
      (a.run.tx.hasModifications = true → ∀ client, ∃ tx,
        a.run.tx.submit false client = .ok (.done tx) ∧
          tx.promise.result = some (.value .rejectedIntegrity)) := by
  have hsound : a.Sound := hrun.invariant (fun _ _ _ hok hstep h => h.step hok hstep)
    (sound_start store isolation readOnly user)
  have hdirty : a.run.tx.dirty = true := by
    rcases hsound.clean with hdirty | hclean
    · exact hdirty
    · exact absurd hclean.conflicts hconflict
  exact ⟨hdirty, fun hmods client => hsound.submit_of_dirty hdirty hmods client⟩

/-- A repeatable-read removal of an absent key that a commit then creates: the transaction has
modifications, is in conflict and is not dirty. -/
theorem removal_leaves_no_trace :
    ¬∀ (inputs : List TxInput) (a : Audit),
      Run (step fun _ _ => true) anyStep (start Store.empty .repeatableRead false none) inputs a →
        a.conflicts ≠ [] → a.run.tx.dirty = true := by
  intro h
  have hexec : (execute (step fun _ _ => true) (fun _ _ => true)
      (start Store.empty .repeatableRead false none)
      [.remove [97], .upsert [98] [1], .commit (.writing 1 [[97]] [1])]).map
        (fun a => (a.conflicts, a.run.tx.dirty)) = some ([[97]], false) := by
    decide +kernel
  obtain ⟨a, hrun, hend⟩ := exists_run_of_execute (fun _ _ _ => trivial) hexec
  obtain ⟨hconflicts, hdirty⟩ := Prod.mk.inj hend
  have := h _ a hrun (by simp [hconflicts])
  rw [hdirty] at this
  cases this

/-- An upsert that a commit overtakes: the conflict is found. -/
theorem dirty_of_conflict_upsert : ∃ a,
    Run (step fun _ _ => true) (fun a i => tracesStep (fun _ _ => true) a i = true)
        (start Store.empty .repeatableRead false none)
        [.upsert [97] [1], .commit (.writing 1 [[97]] [2])] a ∧
      a.run.tx.dirty = true := by
  have hexec : (execute (step fun _ _ => true) (tracesStep fun _ _ => true)
      (start Store.empty .repeatableRead false none)
      [.upsert [97] [1], .commit (.writing 1 [[97]] [2])]).map (·.conflicts) = some [[97]] := by
    decide +kernel
  obtain ⟨a, hrun, hend⟩ := exists_run_of_execute (fun _ _ h => h) hexec
  exact ⟨a, hrun, (dirty_of_conflict _ _ _ _ _ _ a hrun (by simp [hend])).1⟩

end Audit

end Nplex
