import Nplex.Transaction.ForEach
import Nplex.Store.Update

/-!
# What each operation on a transaction does

One specification for every method that touches the items: what it returns in terms of the
shown values, the item it leaves under its key, when it marks the transaction dirty, and
what it leaves alone. Later proofs use these and never unfold the methods.
-/

namespace Nplex

/-- An upserted item holds a value. -/
def Entry.holdsWrite (e : Entry) : Prop := e.action = .upsert → e.value.isSome = true

namespace Transaction

variable {globMatch : Glob} {tx tx' : Transaction} {store : Store} {k : Key}

/-- The transaction holds a snapshot of a key. -/
def snapshotAt (tx : Transaction) (k : Key) : Bool :=
  match tx.items[k]? with
  | some e => e.action = .snapshot
  | none => false

/-- The transactions differ in items, ensures and dirty flag only. -/
def SameFrame (tx tx' : Transaction) : Prop :=
  tx' = { tx with items := tx'.items, ensures := tx'.ensures, dirty := tx'.dirty }

/-- Registering an ensure pattern leaves everything else alone. -/
theorem addEnsure_eq (tx : Transaction) (pattern : Bytes) :
    tx.addEnsure pattern = { tx with ensures := (tx.addEnsure pattern).ensures } := by
  unfold addEnsure
  split_ifs <;> rfl

/-- Registering a pattern adds it to the ensure patterns. -/
theorem mem_addEnsure (tx : Transaction) (pattern e : Bytes) :
    e ∈ (tx.addEnsure pattern).ensures ↔ e = pattern ∨ e ∈ tx.ensures := by
  unfold addEnsure
  split_ifs with hmem
  · constructor
    · exact Or.inr
    · rintro (rfl | he)
      · exact hmem
      · exact he
  · rw [Std.ExtTreeSet.mem_insert, Std.LawfulEqCmp.compare_eq_iff_eq]
    exact or_congr_left eq_comm

/-- An ensure is not about the items. -/
@[simp] theorem addEnsure_items (tx : Transaction) (pattern : Bytes) :
    (tx.addEnsure pattern).items = tx.items := by
  rw [addEnsure_eq]

/-- It does not mark the transaction. -/
@[simp] theorem addEnsure_dirty (tx : Transaction) (pattern : Bytes) :
    (tx.addEnsure pattern).dirty = tx.dirty := by
  rw [addEnsure_eq]

/-- The item under a key after it was read. -/
def itemAfterRead (tx : Transaction) (store : Store) (k : Key) : Option Entry :=
  match tx.items[k]? with
  | some e => some (if e.value = none then e else e.observed)
  | none => if tx.isolation = .readCommitted then none else some (pin store.data[k]?)

/-- What a successful `read` does. -/
structure ReadStep (tx : Transaction) (store : Store) (k : Key) (ensure : Bool) (v : Option Value)
    (tx' : Transaction) : Prop where
  opened : tx.state = .opened
  valid : isValidKey k = true
  value : v = tx.visible store k
  items : ∀ k', tx'.items[k']? = if k = k' then tx.itemAfterRead store k else tx.items[k']?
  dirty : tx'.dirty = (tx.dirty || (tx.snapshotAt k && v.isSome))
  ensures : tx'.ensures = if ensure && v.isSome then (tx.addEnsure k).ensures else tx.ensures
  frame : SameFrame tx tx'

/-- Registering the key afterwards keeps the specification of `read`. -/
theorem ReadStep.ensured {v : Value} {ensure : Bool} (h : ReadStep tx store k false (some v) tx') :
    ReadStep tx store k ensure (some v) (if ensure then tx'.addEnsure k else tx') := by
  have hens : tx'.ensures = tx.ensures := h.ensures
  cases ensure with
  | false => exact h
  | true =>
    refine ⟨h.opened, h.valid, h.value, by simpa using h.items, by simpa using h.dirty, ?_, ?_⟩
    · simp only [if_true, addEnsure, hens, Option.isSome_some, Bool.and_self]
      split_ifs
      · exact hens
      · rfl
    · rw [if_pos rfl, SameFrame, addEnsure_eq, h.frame]

/-- An absent key is never registered. -/
theorem ReadStep.absent {ensure : Bool} (h : ReadStep tx store k false none tx') :
    ReadStep tx store k ensure none tx' :=
  ⟨h.opened, h.valid, h.value, h.items, h.dirty, by simpa using h.ensures, h.frame⟩

/-- Reading an item that is no snapshot of a value changes nothing. -/
theorem ReadStep.unchanged (store : Store) {e : Entry} (hopen : tx.state = .opened) (hvalid : isValidKey k = true)
    (hitem : tx.items[k]? = some e) (he : e.action = .snapshot → e.value = none) :
    ReadStep tx store k false e.shown tx := by
  refine ⟨hopen, hvalid, by simp [visible, hitem], fun k' => ?_, ?_, rfl, rfl⟩
  · by_cases hk : k = k'
    · subst hk
      by_cases hsnap : e.action = .snapshot
      · simp [itemAfterRead, hitem, he hsnap]
      · simp [itemAfterRead, hitem, Entry.observed, hsnap]
    · simp [hk]
  · by_cases hsnap : e.action = .snapshot
    · simp [Entry.shown, he hsnap, hsnap]
    · simp [snapshotAt, hitem, hsnap]

/-- Reading a snapshot of a value turns it into a read and marks the transaction dirty. -/
theorem ReadStep.snapshot {v : Value} (hopen : tx.state = .opened) (hvalid : isValidKey k = true)
    (hitem : tx.items[k]? = some ⟨.snapshot, some v⟩) :
    ReadStep tx store k false (some v)
      { tx with items := tx.items.insert k ⟨.read, some v⟩, dirty := true } := by
  refine ⟨hopen, hvalid, by simp [visible, hitem, Entry.shown], fun k' => ?_, ?_, rfl, rfl⟩
  · rw [lookup_insert]
    by_cases hk : k = k'
    · subst hk
      simp [itemAfterRead, hitem, Entry.observed]
    · simp [hk]
  · simp [snapshotAt, hitem]

/-- Reading a key without an item pins its stored value. -/
theorem ReadStep.pinned (store : Store) (hopen : tx.state = .opened) (hvalid : isValidKey k = true)
    (hitem : tx.items[k]? = none) (hiso : tx.isolation ≠ .readCommitted) :
    ReadStep tx store k false store.data[k]?
      { tx with items := tx.items.insertIfNew k ⟨.read, store.data[k]?⟩ } := by
  refine ⟨hopen, hvalid, by simp [visible, hitem], fun k' => ?_, ?_, rfl, rfl⟩
  · rw [lookup_insertIfNew]
    by_cases hk : k = k'
    · subst hk
      simp [itemAfterRead, hitem, hiso, pin]
    · simp [hk]
  · simp [snapshotAt, hitem]

/-- A read-committed read of a key without an item leaves no trace. -/
theorem ReadStep.committed (store : Store) (hopen : tx.state = .opened) (hvalid : isValidKey k = true)
    (hitem : tx.items[k]? = none) (hiso : tx.isolation = .readCommitted) :
    ReadStep tx store k false store.data[k]? tx := by
  refine ⟨hopen, hvalid, by simp [visible, hitem], fun k' => ?_, ?_, rfl, rfl⟩
  · by_cases hk : k = k'
    · subst hk
      simp [itemAfterRead, hitem, hiso]
    · simp [hk]
  · simp [snapshotAt, hitem]

/-- A successful `read` meets its specification. -/
theorem read_ok {v : Option Value} {ensure : Bool} (h : tx.read store k ensure = .ok (v, tx')) :
    ReadStep tx store k ensure v tx' := by
  unfold read at h
  by_cases hvalid : isValidKey k = true
  swap
  · simp [hvalid] at h
  by_cases hopen : tx.state = .opened
  swap
  · simp [hvalid, hopen] at h
  rw [if_neg (by simp [hvalid]), if_neg (by simp [hopen])] at h
  cases hitem : tx.items[k]? with
  | some e =>
    obtain ⟨action, value⟩ := e
    rw [hitem] at h
    dsimp only at h
    by_cases hdelete : action = .delete
    · subst hdelete
      simp only [if_true, Except.ok.injEq, Prod.mk.injEq] at h
      obtain ⟨rfl, rfl⟩ := h
      exact (ReadStep.unchanged store hopen hvalid hitem (by simp)).absent
    · rw [if_neg hdelete] at h
      cases value with
      | none =>
        simp only [Except.ok.injEq, Prod.mk.injEq] at h
        obtain ⟨rfl, rfl⟩ := h
        have hread := ReadStep.unchanged store hopen hvalid hitem (by simp)
        rw [Entry.shown, if_neg hdelete] at hread
        exact hread.absent
      | some w =>
        simp only [Except.ok.injEq, Prod.mk.injEq] at h
        obtain ⟨rfl, rfl⟩ := h
        by_cases hsnap : action = .snapshot
        · subst hsnap
          rw [if_pos rfl]
          exact (ReadStep.snapshot hopen hvalid hitem).ensured
        · rw [if_neg hsnap]
          have hread := ReadStep.unchanged store hopen hvalid hitem
            (fun h => absurd h hsnap)
          rw [Entry.shown, if_neg hdelete] at hread
          exact hread.ensured
  | none =>
    rw [hitem] at h
    dsimp only at h
    by_cases hiso : tx.isolation = .readCommitted
    · rw [if_neg (by simp [hiso])] at h
      have hread := ReadStep.committed store hopen hvalid hitem hiso
      cases hfound : store.data[k]? with
      | none =>
        simp only [hfound, Except.ok.injEq, Prod.mk.injEq] at h
        obtain ⟨rfl, rfl⟩ := h
        exact (hfound ▸ hread).absent
      | some w =>
        simp only [hfound, Except.ok.injEq, Prod.mk.injEq] at h
        obtain ⟨rfl, rfl⟩ := h
        exact (hfound ▸ hread).ensured
    · rw [if_pos hiso] at h
      have hread := ReadStep.pinned store hopen hvalid hitem hiso
      cases hfound : store.data[k]? with
      | none =>
        simp only [hfound, Except.ok.injEq, Prod.mk.injEq] at h
        obtain ⟨rfl, rfl⟩ := h
        exact (hfound ▸ hread).absent
      | some w =>
        simp only [hfound, Except.ok.injEq, Prod.mk.injEq] at h
        obtain ⟨rfl, rfl⟩ := h
        exact (hfound ▸ hread).ensured

/-- `read` of a valid key on an open transaction succeeds. -/
theorem read_succeeds (hopen : tx.state = .opened) (hvalid : isValidKey k = true) (store : Store)
    (ensure : Bool) : ∃ v tx', tx.read store k ensure = .ok (v, tx') := by
  unfold read
  rw [if_neg (by simp [hvalid]), if_neg (by simp [hopen])]
  split
  · next e _ =>
    by_cases hdelete : e.action = .delete
    · rw [if_pos hdelete]
      exact ⟨_, _, rfl⟩
    · rw [if_neg hdelete]
      split <;> exact ⟨_, _, rfl⟩
  · dsimp only
    split <;> exact ⟨_, _, rfl⟩

/-- What a successful `upsert_internal` does; the flag says whether something was written. -/
structure UpsertStep (globMatch : Glob) (tx : Transaction) (store : Store) (k : Key) (data : Bytes)
    (force b : Bool) (tx' : Transaction) : Prop where
  opened : tx.state = .opened
  valid : (!isValidKey k || data.isEmpty) = false
  writable : tx.readOnly = false
  allowed : b = false → authorized globMatch tx.user CRUD_UPDATE k = true
  flag : b = false ↔ force = false ∧ (tx.visible store k).map Value.data = some data
  written : b = true → ∀ k', tx'.items[k']? =
    if k = k' then some ⟨.upsert, some ⟨data, none⟩⟩ else tx.items[k']?
  unchanged : b = false → ∀ k', tx'.items[k']? =
    if k = k' ∧ tx.items[k]? = none ∧ tx.isolation = .repeatableRead
    then some (pin store.data[k]?) else tx.items[k']?
  dirty : tx'.dirty = (tx.dirty || tx.snapshotAt k)
  ensures : tx'.ensures = tx.ensures
  frame : SameFrame tx tx'

section Upsert

variable {data : Bytes} {force : Bool} {items : KeyMap Entry} {dirty : Bool}

/-- The branches of `upsert_internal` that write. -/
theorem UpsertStep.wrote (hopen : tx.state = .opened)
    (hvalid : (!isValidKey k || data.isEmpty) = false)
    (hwritable : tx.readOnly = false)
    (hflag : ¬(force = false ∧ (tx.visible store k).map Value.data = some data))
    (hitems : ∀ k', items[k']? =
      if k = k' then some ⟨.upsert, some ⟨data, none⟩⟩ else tx.items[k']?)
    (hdirty : dirty = (tx.dirty || tx.snapshotAt k)) :
    UpsertStep globMatch tx store k data force true { tx with items := items, dirty := dirty } :=
  ⟨hopen, hvalid, hwritable, by simp, by simpa using hflag, fun _ => hitems, by simp, hdirty, rfl,
    rfl⟩

/-- The branches of `upsert_internal` that find the value already there. -/
theorem UpsertStep.kept (hopen : tx.state = .opened)
    (hvalid : (!isValidKey k || data.isEmpty) = false) (hwritable : tx.readOnly = false)
    (hallowed : authorized globMatch tx.user CRUD_UPDATE k = true)
    (hflag : force = false ∧ (tx.visible store k).map Value.data = some data)
    (hitems : ∀ k', items[k']? =
      if k = k' ∧ tx.items[k]? = none ∧ tx.isolation = .repeatableRead
      then some (pin store.data[k]?) else tx.items[k']?)
    (hdirty : dirty = (tx.dirty || tx.snapshotAt k)) :
    UpsertStep globMatch tx store k data force false { tx with items := items, dirty := dirty } :=
  ⟨hopen, hvalid, hwritable, fun _ => hallowed, by simpa using hflag, by simp, fun _ => hitems,
    hdirty, rfl, rfl⟩

/-- Inserting over an item. -/
theorem lookup_upserted (items : KeyMap Entry) (k k' : Key) (data : Bytes) :
    (items.insert k ⟨.upsert, some ⟨data, none⟩⟩)[k']? =
      if k = k' then some ⟨.upsert, some ⟨data, none⟩⟩ else items[k']? := lookup_insert _ _ _ _

/-- Inserting where there is no item. -/
theorem lookup_insertIfNew_of_none {items : KeyMap Entry} {k : Key} (h : items[k]? = none)
    (e : Entry) (k' : Key) :
    (items.insertIfNew k e)[k']? = if k = k' then some e else items[k']? := by
  rw [lookup_insertIfNew]
  by_cases hk : k = k'
  · subst hk
    rw [if_pos rfl, if_pos rfl, h]
    rfl
  · rw [if_neg hk, if_neg hk]

/-- A successful `upsert_internal` meets its specification. -/
theorem upsertInternal_ok {b : Bool}
    (h : tx.upsertInternal globMatch store k data force = .ok (b, tx')) :
    UpsertStep globMatch tx store k data force b tx' := by
  unfold upsertInternal at h
  by_cases hguard : (!isValidKey k || data.isEmpty) = true
  · rw [if_pos hguard] at h
    cases h
  have hvalid : (!isValidKey k || data.isEmpty) = false := by simpa using hguard
  rw [if_neg hguard] at h
  by_cases hreadOnly : tx.readOnly = true
  · rw [if_pos hreadOnly] at h
    cases h
  have hwritable : tx.readOnly = false := by simpa using hreadOnly
  by_cases hopen : tx.state = .opened
  swap
  · simp [hwritable, hopen] at h
  rw [if_neg hreadOnly, if_neg (by simp [hopen])] at h
  dsimp only at h
  cases hitem : tx.items[k]? with
  | some e =>
    obtain ⟨action, value⟩ := e
    have hsnapshotAt : tx.snapshotAt k = decide (action = .snapshot) := by
      simp [snapshotAt, hitem]
    have hvisible : tx.visible store k = if action = .delete then none else value := by
      simp [visible, hitem, Entry.shown]
    -- the comparison of the source and the view of the key say the same
    have hflag : (!force && action ≠ .delete && value.map Value.data == some data) = true ↔
        force = false ∧ (tx.visible store k).map Value.data = some data := by
      rw [hvisible]
      by_cases hdelete : action = .delete <;> simp [hdelete]
    rw [hitem] at h
    dsimp only at h
    split_ifs at h with hauth hsame hsnap hsnap
    all_goals
      simp only [Except.ok.injEq, Prod.mk.injEq] at h
      obtain ⟨rfl, rfl⟩ := h
    · exact .kept hopen hvalid hwritable (by simpa using hauth) (hflag.mp hsame) (by simp [hitem])
        (by simp [hsnapshotAt, hsnap])
    · exact .kept hopen hvalid hwritable (by simpa using hauth) (hflag.mp hsame) (by simp [hitem])
        (by simp [hsnapshotAt, hsnap])
    · exact .wrote hopen hvalid hwritable (mt hflag.mpr hsame) (fun k' => lookup_upserted _ _ _ _)
        (by simp [hsnapshotAt, hsnap])
    · exact .wrote hopen hvalid hwritable (mt hflag.mpr hsame) (fun k' => lookup_upserted _ _ _ _)
        (by simp [hsnapshotAt, hsnap])
  | none =>
    have hsnapshotAt : tx.snapshotAt k = false := by simp [snapshotAt, hitem]
    have hvisible : tx.visible store k = store.data[k]? := by simp [visible, hitem]
    have hdirty : tx.dirty = (tx.dirty || tx.snapshotAt k) := by simp [hsnapshotAt]
    rw [hitem] at h
    dsimp only at h
    cases hstored : store.data[k]? with
    | none =>
      simp only [hstored] at h
      split_ifs at h with hauth
      simp only [Except.ok.injEq, Prod.mk.injEq] at h
      obtain ⟨rfl, rfl⟩ := h
      exact .wrote hopen hvalid hwritable (by simp [hvisible, hstored])
        (lookup_insertIfNew_of_none hitem _) hdirty
    | some stored =>
      simp only [hstored] at h
      have hflag : (!force && stored.data == data) = true ↔
          force = false ∧ (tx.visible store k).map Value.data = some data := by
        simp [hvisible, hstored]
      split_ifs at h with hauth hsame hiso
      all_goals
        simp only [Except.ok.injEq, Prod.mk.injEq] at h
        obtain ⟨rfl, rfl⟩ := h
      · refine .kept hopen hvalid hwritable (by simpa using hauth) (hflag.mp hsame) (fun k' => ?_)
          hdirty
        rw [lookup_insertIfNew_of_none hitem, hstored]
        simp [hitem, hiso, pin]
      · exact .kept hopen hvalid hwritable (by simpa using hauth) (hflag.mp hsame) (by simp [hiso])
          hdirty
      · exact .wrote hopen hvalid hwritable (mt hflag.mpr hsame)
          (lookup_insertIfNew_of_none hitem _) hdirty

end Upsert

/-- What a successful `remove` of a key does; the flag says whether it was present. -/
structure RemoveStep (globMatch : Glob) (tx : Transaction) (store : Store) (k : Key) (b : Bool)
    (tx' : Transaction) : Prop where
  opened : tx.state = .opened
  valid : isValidKey k = true
  writable : tx.readOnly = false
  allowed : authorized globMatch tx.user CRUD_DELETE k = true
  flag : (∀ e, tx.items[k]? = some e → Entry.holdsWrite e) → b = (tx.visible store k).isSome
  removed : b = true → ∀ k', tx'.items[k']? = if k = k' then some ⟨.delete, none⟩ else tx.items[k']?
  unchanged : b = false → tx' = tx
  dirty : tx'.dirty = tx.dirty
  ensures : tx'.ensures = tx.ensures
  frame : SameFrame tx tx'

/-- A successful `remove` meets its specification. -/
theorem remove_ok {b : Bool} (h : tx.remove globMatch store k = .ok (b, tx')) :
    RemoveStep globMatch tx store k b tx' := by
  unfold remove at h
  split_ifs at h with hinvalid hreadOnly hclosed hauth
  have hvalid : isValidKey k = true := by simpa using hinvalid
  have hwritable : tx.readOnly = false := by simpa using hreadOnly
  have hopen : tx.state = .opened := by simpa using hclosed
  have hallowed : authorized globMatch tx.user CRUD_DELETE k = true := by simpa using hauth
  cases hitem : tx.items[k]? with
  | some e =>
    obtain ⟨action, value⟩ := e
    rw [hitem] at h
    dsimp only at h
    split_ifs at h with habsent hdelete
    all_goals
      simp only [Except.ok.injEq, Prod.mk.injEq] at h
      obtain ⟨rfl, rfl⟩ := h
    · refine ⟨hopen, hvalid, hwritable, hallowed, fun _ => ?_, by simp, fun _ => rfl, rfl, rfl, rfl⟩
      obtain ⟨haction, hvalue⟩ := by simpa using habsent
      rcases haction with rfl | rfl <;> simp [visible, hitem, Entry.shown, hvalue]
    · refine ⟨hopen, hvalid, hwritable, hallowed, fun _ => ?_, by simp, fun _ => rfl, rfl, rfl, rfl⟩
      simp [visible, hitem, Entry.shown, hdelete]
    · refine ⟨hopen, hvalid, hwritable, hallowed, fun hwf => ?_, fun _ k' => lookup_insert _ _ _ _, by simp,
        rfl, rfl, rfl⟩
      have hwrite := hwf _ hitem
      cases action <;> cases value <;>
        simp_all [visible, Entry.shown, Entry.holdsWrite]
  | none =>
    rw [hitem] at h
    dsimp only at h
    cases hstored : store.data[k]? with
    | none =>
      simp only [hstored, Except.ok.injEq, Prod.mk.injEq] at h
      obtain ⟨rfl, rfl⟩ := h
      exact ⟨hopen, hvalid, hwritable, hallowed, fun _ => by simp [visible, hitem, hstored], by simp,
        fun _ => rfl, rfl, rfl, rfl⟩
    | some stored =>
      simp only [hstored, Except.ok.injEq, Prod.mk.injEq] at h
      obtain ⟨rfl, rfl⟩ := h
      exact ⟨hopen, hvalid, hwritable, hallowed, fun _ => by simp [visible, hitem, hstored],
        fun _ => lookup_insertIfNew_of_none hitem _, by simp, rfl, rfl, rfl⟩

/-- The first change about a key. -/
def firstChange (changes : List Change) (k : Key) : Option Change :=
  changes.find? fun c => decide (c.key = k)

/-- The snapshot a change leaves behind. -/
def snapshotOf (c : Change) : Entry := ⟨.snapshot, c.oldValue⟩

/-- A key that no change names has no first change. -/
theorem firstChange_eq_none {changes : List Change} :
    firstChange changes k = none ↔ k ∉ changedKeys changes := by
  simp [firstChange, mem_changedKeys]

/-- The first change about a key is one of the changes and is about it. -/
theorem firstChange_eq_some {changes : List Change} {c : Change}
    (h : firstChange changes k = some c) : c ∈ changes ∧ c.key = k :=
  ⟨List.mem_of_find?_eq_some h, by simpa using List.find?_some h⟩

/-- The first change about a key names the value the key had before the changes. -/
theorem firstChange_oldValue {store' : Store} {changes : List Change} {c : Change}
    (h : Common.Replays store.content (changes.map Change.delta) store'.content)
    (hc : firstChange changes k = some c) : c.oldValue = store.data[k]? := by
  have hfind : (changes.map Change.delta).find? (fun d => decide (d.key = k)) = some c.delta := by
    rw [List.find?_map]
    simpa [firstChange, Function.comp_def, Change.delta] using ⟨c, hc, rfl, rfl, rfl⟩
  exact h.first_old hfind

/-- A key that no change names keeps its stored value. -/
theorem data_of_firstChange_none {store' : Store} {changes : List Change}
    (h : Common.Replays store.content (changes.map Change.delta) store'.content)
    (hc : firstChange changes k = none) : store'.data[k]? = store.data[k]? := by
  refine h.unchanged fun d hd => ?_
  obtain ⟨c, hc', rfl⟩ := List.mem_map.mp hd
  intro hk
  exact firstChange_eq_none.mp hc (mem_changedKeys.mpr ⟨c, hc', hk⟩)

/-- One turn of `update_serializable`: an unknown key gets its old value as a snapshot. -/
theorem snapshotChange_eq (tx : Transaction) {c : Change} (hwf : c.wellFormed) :
    tx.snapshotChange c =
      if c.key ∈ tx.items then { tx with dirty := true }
      else { tx with items := tx.items.insertIfNew c.key (snapshotOf c) } := by
  unfold snapshotChange
  split_ifs with hmem
  · rfl
  · cases haction : c.action with
    | create => simp [snapshotOf, hwf.2.1 haction]
    | update => rfl
    | delete => rfl

/-- What `update_serializable` does. -/
theorem updateSerializable_spec (tx : Transaction) {changes : List Change} (hwf : ∀ c ∈ changes, c.wellFormed) :
    (∀ k, (tx.updateSerializable changes).items[k]? =
      (tx.items[k]?).or ((firstChange changes k).map snapshotOf)) ∧
    ((tx.updateSerializable changes).dirty = true ↔
      tx.dirty = true ∨ (∃ c ∈ changes, c.key ∈ tx.items) ∨ ¬(changedKeys changes).Nodup) ∧
    tx.updateSerializable changes =
      { tx with
        items := (tx.updateSerializable changes).items
        dirty := (tx.updateSerializable changes).dirty } := by
  induction changes generalizing tx with
  | nil => exact ⟨by simp [updateSerializable, firstChange], by simp [updateSerializable, changedKeys],
      rfl⟩
  | cons c rest ih =>
    have hhead := snapshotChange_eq tx (hwf c List.mem_cons_self)
    obtain ⟨hitems, hdirty, hframe⟩ :=
      ih (tx.snapshotChange c) fun c' hc' => hwf c' (List.mem_cons_of_mem _ hc')
    have hfold : tx.updateSerializable (c :: rest) =
        (tx.snapshotChange c).updateSerializable rest := rfl
    rw [hfold]
    by_cases hmem : c.key ∈ tx.items
    · rw [if_pos hmem] at hhead
      refine ⟨fun k => ?_, ?_, ?_⟩
      · rw [hitems, hhead]
        by_cases hk : c.key = k
        · subst hk
          obtain ⟨e, he⟩ := mem_keyMap.mp hmem
          simp [he]
        · simp [firstChange, hk]
      · rw [hdirty, hhead]
        simp [hmem]
      · rw [hframe, hhead]
    · rw [if_neg hmem] at hhead
      have hnone : tx.items[c.key]? = none := by simpa using hmem
      refine ⟨fun k => ?_, ?_, ?_⟩
      · rw [hitems, hhead]
        dsimp only
        rw [lookup_insertIfNew_of_none hnone]
        by_cases hk : c.key = k
        · subst hk
          simp [firstChange, hnone]
        · simp [firstChange, hk]
      · -- a second change about the same key meets the snapshot of the first
        have hmem' : ∀ k', k' ∈ tx.items.insertIfNew c.key (snapshotOf c) ↔
            c.key = k' ∨ k' ∈ tx.items := fun k' => by
          rw [Std.ExtTreeMap.mem_insertIfNew, Std.LawfulEqCmp.compare_eq_iff_eq]
        have hkeys : changedKeys (c :: rest) = c.key :: changedKeys rest := rfl
        rw [hdirty, hhead, hkeys, List.nodup_cons, mem_changedKeys]
        simp only [hmem', List.exists_mem_cons_iff, hmem, false_or]
        constructor
        · rintro (hd | ⟨c', hc', hkey | hitem⟩ | hdup)
          · exact Or.inl hd
          · exact Or.inr (Or.inr fun h => h.1 ⟨c', hc', hkey.symm⟩)
          · exact Or.inr (Or.inl ⟨c', hc', hitem⟩)
          · exact Or.inr (Or.inr fun h => hdup h.2)
        · rintro (hd | ⟨c', hc', hitem⟩ | hdup)
          · exact Or.inl hd
          · exact Or.inr (Or.inl ⟨c', hc', Or.inr hitem⟩)
          · by_cases hsame : ∃ c' ∈ rest, c'.key = c.key
            · obtain ⟨c', hc', hkey⟩ := hsame
              exact Or.inr (Or.inl ⟨c', hc', Or.inl hkey.symm⟩)
            · exact Or.inr (Or.inr fun hnodup => hdup ⟨hsame, hnodup⟩)
      · rw [hframe, hhead]

/-- What `update` does to an open transaction. -/
structure UpdateStep (globMatch : Glob) (tx : Transaction) (changes : List Change)
    (tx' : Transaction) : Prop where
  items : ∀ k, tx'.items[k]? =
    if tx.isolation = .serializable then (tx.items[k]?).or ((firstChange changes k).map snapshotOf)
    else tx.items[k]?
  dirty : tx'.dirty = true ↔ tx.dirty = true ∨ (∃ c ∈ changes, c.key ∈ tx.items) ∨
    (tx.isolation = .serializable ∧ ¬(changedKeys changes).Nodup) ∨
      tx.ensureBroken globMatch changes = true
  frame : tx' = { tx with items := tx'.items, dirty := tx'.dirty }

/-- No ensure pattern is broken when there is none. -/
theorem ensureBroken_of_isEmpty (tx : Transaction) {changes : List Change} (h : tx.ensures.isEmpty = true) :
    tx.ensureBroken globMatch changes = false := by
  have hnil : tx.ensures.toList = [] := by
    rw [← List.isEmpty_iff, Std.ExtTreeSet.isEmpty_toList, h]
  simp [ensureBroken, hnil]

/-- The check of the ensure patterns at the end of `update`. -/
theorem checkEnsures_eq (tx : Transaction) (changes : List Change) :
    (if tx.dirty || tx.ensures.isEmpty then tx
      else if tx.ensureBroken globMatch changes then { tx with dirty := true } else tx) =
      { tx with dirty := tx.dirty || tx.ensureBroken globMatch changes } := by
  obtain ⟨isolation, readOnly, user, revCreation, type, items, ensures, state, dirty, promise,
    earlier⟩ := tx
  cases dirty with
  | true => simp
  | false =>
    by_cases hempty : ensures.isEmpty = true
    · simp [hempty, ensureBroken_of_isEmpty ⟨_, _, _, _, _, _, ensures, _, _, _, _⟩ hempty]
    · split_ifs <;> simp_all

/-- What `update_default` does. -/
theorem updateDefault_eq (tx : Transaction) (changes : List Change) :
    tx.updateDefault changes =
      { tx with dirty := tx.dirty || changes.any fun c => decide (c.key ∈ tx.items) } := by
  obtain ⟨isolation, readOnly, user, revCreation, type, items, ensures, state, dirty, promise⟩ := tx
  unfold updateDefault
  cases dirty with
  | true => simp
  | false =>
    dsimp only
    cases changes.any fun c => decide (c.key ∈ items) <;> simp

/-- Only the ensure patterns matter for a broken ensure. -/
theorem ensureBroken_congr {changes : List Change} (h : tx'.ensures = tx.ensures) :
    tx'.ensureBroken globMatch changes = tx.ensureBroken globMatch changes := by
  rw [ensureBroken, ensureBroken, h]

/-- The serializable branch of `update`. -/
theorem UpdateStep.serializable {changes : List Change} (hiso : tx.isolation = .serializable)
    (hwf : ∀ c ∈ changes, c.wellFormed) :
    UpdateStep globMatch tx changes
      { tx.updateSerializable changes with
        dirty := (tx.updateSerializable changes).dirty ||
          (tx.updateSerializable changes).ensureBroken globMatch changes } := by
  obtain ⟨hitems, hdirty, hframe⟩ := updateSerializable_spec tx hwf
  have hbroken : (tx.updateSerializable changes).ensureBroken globMatch changes =
      tx.ensureBroken globMatch changes := ensureBroken_congr (by rw [hframe])
  refine ⟨fun k => ?_, ?_, ?_⟩
  · rw [if_pos hiso, ← hitems]
  · rw [Bool.or_eq_true, hdirty, hbroken]
    simp [hiso, or_assoc]
  · dsimp only
    rw [hframe]

/-- The other branch of `update`. -/
theorem UpdateStep.default {changes : List Change} (hiso : tx.isolation ≠ .serializable) :
    UpdateStep globMatch tx changes
      { tx.updateDefault changes with
        dirty := (tx.updateDefault changes).dirty ||
          (tx.updateDefault changes).ensureBroken globMatch changes } := by
  have hbroken : (tx.updateDefault changes).ensureBroken globMatch changes =
      tx.ensureBroken globMatch changes := ensureBroken_congr (by rw [updateDefault_eq])
  rw [hbroken, updateDefault_eq]
  refine ⟨fun k => by simp [hiso], ?_, rfl⟩
  simp [hiso, or_assoc]

/-- `update` meets its specification. -/
theorem update_spec (globMatch : Glob) {changes : List Change} (hopen : tx.state = .opened)
    (hwf : ∀ c ∈ changes, c.wellFormed) :
    UpdateStep globMatch tx changes (tx.update globMatch changes) := by
  unfold update
  rw [if_neg (by simp [hopen])]
  dsimp only
  rw [checkEnsures_eq]
  cases hlevel : tx.isolation with
  | serializable => exact .serializable hlevel hwf
  | readCommitted => exact .default (by simp [hlevel])
  | repeatableRead => exact .default (by simp [hlevel])

/-- A transaction that is not open ignores updates. -/
theorem update_of_not_open {changes : List Change} (hopen : tx.state ≠ .opened) :
    tx.update globMatch changes = tx := by
  rw [update, if_pos hopen]

/-- A submit that ends on the user's thread sends no request. -/
theorem finish_ne_push (tx : Transaction) (result : SubmitResult) (state : TxState)
    (tx' : Transaction) : (tx.finish result state).map SubmitStep.done ≠ .ok (.push tx') := by
  cases tx.finish result state <;> simp [Except.map]

/-- The end of a submit on the user's thread. -/
theorem finish_ok {result : SubmitResult} {state : TxState} (hopen : tx.state = .opened)
    (hstate : state ≠ .opened) (h : tx.finish result state = .ok tx') :
    tx' = { tx with state := state, promise := ⟨some (.value result), true⟩ } := by
  have hset : tx.setState state = { tx with state := state } := by
    simp [setState, hopen, TxState.isClosed, hstate]
  cases hpromise : tx.promise.set (.value result) with
  | error e => simp [finish, hpromise] at h
  | ok p =>
    simp only [finish, hpromise, Except.ok.injEq] at h
    rw [← h, hset]
    have hp : p.result = some (.value result) := by
      unfold Promise.set at hpromise
      split at hpromise
      · simp only [Except.ok.injEq] at hpromise
        rw [← hpromise]
      · cases hpromise
    simp [hp]

/-- A submit that sends no request closes the open transaction with a result. -/
theorem submit_done {force client : Bool} (h : tx.submit force client = .ok (.done tx')) :
    tx.state = .opened ∧ ∃ result state, (state = .discarded ∨ state = .rejected) ∧
      tx' = { tx with state := state, promise := ⟨some (.value result), true⟩ } := by
  unfold submit at h
  by_cases hopen : tx.state = .opened
  swap
  · simp [hopen] at h
  rw [if_neg (by simp [hopen])] at h
  have hfinish : ∀ {result : SubmitResult} {state : TxState}, state ≠ .opened →
      (tx.finish result state).map SubmitStep.done = .ok (.done tx') →
      tx' = { tx with state := state, promise := ⟨some (.value result), true⟩ } := by
    intro result state hstate hmap
    cases hf : tx.finish result state with
    | error e => simp [hf, Except.map] at hmap
    | ok t =>
      simp only [hf, Except.map, Except.ok.injEq, SubmitStep.done.injEq] at hmap
      exact finish_ok hopen hstate (hmap ▸ hf)
  refine ⟨hopen, ?_⟩
  split_ifs at h
  · exact ⟨_, _, Or.inl rfl, hfinish (by simp) h⟩
  · exact ⟨_, _, Or.inl rfl, hfinish (by simp) h⟩
  · exact ⟨_, _, Or.inr rfl, hfinish (by simp) h⟩
  · exact ⟨_, _, Or.inr rfl, hfinish (by simp) h⟩
  · simp at h

/-- A submit that sends a request: the transaction was open and could be submitted, and only its
state changes. -/
theorem submit_push {force client : Bool} (h : tx.submit force client = .ok (.push tx')) :
    tx.state = .opened ∧ tx.readOnly = false ∧ client = true ∧
      tx' = { tx with state := .submitted } ∧
      (force = false → tx.dirty = false ∧ tx.hasModifications = true) := by
  unfold submit at h
  by_cases hopen : tx.state = .opened
  swap
  · simp [hopen] at h
  rw [if_neg (by simp [hopen])] at h
  split_ifs at h with hreadOnly hmods hdirty hclient hpermission
  · exact absurd h (finish_ne_push _ _ _ _)
  · exact absurd h (finish_ne_push _ _ _ _)
  · exact absurd h (finish_ne_push _ _ _ _)
  · exact absurd h (finish_ne_push _ _ _ _)
  · simp only [Except.ok.injEq, SubmitStep.push.injEq] at h
    subst h
    refine ⟨hopen, by simpa using hreadOnly, by simpa using hclient, ?_, fun hforce => ?_⟩
    · simp [setState, hopen, TxState.isClosed]
    · subst hforce
      exact ⟨by simpa using hdirty, by simpa using hmods⟩

/-- Closing a transaction touches its state and its promise only. -/
theorem close_eq (tx : Transaction) (state : TxState) (o : Outcome) :
    ∃ p, (tx.close state o).1 = { tx.setState state with promise := p } := by
  unfold close
  dsimp only
  cases (tx.setState state).promise.set o with
  | ok p => exact ⟨p, rfl⟩
  | error e => exact ⟨(tx.setState state).promise, rfl⟩

/-- An exception aborts a submitted transaction. -/
theorem setSubmitException_submitted (hsubmitted : tx.state = .submitted) (e : TxException) :
    ∃ p, (tx.setSubmitException e).1 = { tx with state := .aborted, promise := p } := by
  obtain ⟨p, hp⟩ := close_eq tx .aborted (.exception e)
  refine ⟨p, ?_⟩
  rw [setSubmitException, if_neg (by simp [hsubmitted]), hp]
  simp [setState, hsubmitted, TxState.isClosed]

/-- TRY_LATER puts a submitted transaction back to open with a new promise. -/
theorem setSubmitResult_tryLater (hsubmitted : tx.state = .submitted)
    (h : tx.setSubmitResult .tryLater = (tx', none)) :
    ∃ earlier, tx' = { tx with state := .opened, promise := {}, earlier := earlier } := by
  have hset : tx.setState .opened = { tx with state := .opened } := by
    simp [setState, hsubmitted, TxState.isClosed]
  unfold setSubmitResult close at h
  rw [if_neg (by simp [hsubmitted]), hset] at h
  dsimp only at h
  cases hpromise : tx.promise.set (.value .tryLater) with
  | ok p =>
    rw [hpromise] at h
    simp only [Prod.mk.injEq, and_true] at h
    exact ⟨_, h.symm⟩
  | error e => simp [hpromise] at h

end Transaction

end Nplex
