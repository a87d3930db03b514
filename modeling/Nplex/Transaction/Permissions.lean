import Nplex.Transaction.OpenTx
import Nplex.Common.Transition
import Nplex.Match

/-!
# The permission an upsert asks for

An upsert of a key that the transaction has not written should ask for CREATE when the key is
absent from the transaction's view and for UPDATE when it is present, so that looking at the key
first never changes whether the upsert is allowed. The source asks for CREATE only when it has
no item for the key at all. An item that holds null records that the key is absent, and makes
the upsert ask for UPDATE.
-/

namespace Nplex

open Nplex.Common

namespace Transaction

/-- An upsert passes. -/
def Allows (tx : Transaction) (store : Store) (k : Key) (data : Bytes) (force : Bool) : Prop :=
  ∃ r, tx.upsertInternal Match.globMatch store k data force = .ok r

/-- Whoever the user is, the upserts of a key pass when the user has the permission. -/
def Asks (tx : Transaction) (store : Store) (k : Key) (mode : UInt8) : Prop :=
  ∀ (user : Option User) (data : Bytes) (force : Bool), data ≠ [] →
    ({ tx with user := user }.Allows store k data force ↔
      authorized Match.globMatch user mode k = true)

/-- The permission that the view of a key calls for. -/
def viewMode (tx : Transaction) (store : Store) (k : Key) : UInt8 :=
  if (tx.visible store k).isSome then CRUD_UPDATE else CRUD_CREATE

/-- The permission that `upsert_internal` checks. -/
def checkedMode (tx : Transaction) (store : Store) (k : Key) : UInt8 :=
  if k ∈ tx.items ∨ k ∈ store.data then CRUD_UPDATE else CRUD_CREATE

/-- The transaction has written the key. -/
def writes (tx : Transaction) (k : Key) : Bool :=
  match tx.items[k]? with
  | some e => e.action = .upsert || e.action = .delete
  | none => false

/-- The item of the key holds null. -/
def holdsNull (tx : Transaction) (k : Key) : Bool :=
  match tx.items[k]? with
  | some e => e.value = none
  | none => false

/-- A user with one permission on every key. -/
def granted (mode : UInt8) : User := ⟨[], [⟨mode, [42, 42]⟩], false, false⟩

variable {tx tx' : Transaction} {store : Store} {k : Key}

/-- What such a user may do. -/
theorem authorized_granted (mode mode' : UInt8) (k : Key) :
    authorized Match.globMatch (some (granted mode)) mode' k =
      (!(mode' == 0) && mode' &&& mode == mode') := by
  have hall : Match.globMatch k (cStr [42, 42]) = true := Match.globMatch_all k
  simp only [authorized, granted, User.isAuthorized, List.find?_cons, hall]
  split_ifs with hzero <;> simp [hzero]

/-- An upsert with a valid key and data on an open transaction passes with the permission checked. -/
theorem allows_iff {data : Bytes} (hopen : tx.state = .opened) (hwritable : tx.readOnly = false)
    (hvalid : isValidKey k = true) (hdata : data ≠ []) (force : Bool) :
    tx.Allows store k data force ↔
      authorized Match.globMatch tx.user (tx.checkedMode store k) k = true := by
  have hguard : ¬(!isValidKey k || data.isEmpty) = true := by simp [hvalid, hdata]
  unfold Allows upsertInternal
  rw [if_neg hguard, if_neg (by simp [hwritable]), if_neg (by simp [hopen])]
  dsimp only
  cases hitem : tx.items[k]? with
  | some e =>
    have hmode : tx.checkedMode store k = CRUD_UPDATE :=
      if_pos (Or.inl (mem_keyMap.mpr ⟨e, hitem⟩))
    dsimp only
    rw [hmode]
    cases hauth : authorized Match.globMatch tx.user CRUD_UPDATE k with
    | false => simp
    | true =>
      simp only [Bool.not_true, Bool.false_eq_true, if_false, iff_true]
      split_ifs <;> exact ⟨_, rfl⟩
  | none =>
    have hnone : k ∉ tx.items := by simpa using hitem
    dsimp only
    cases hstored : store.data[k]? with
    | some stored =>
      have hmode : tx.checkedMode store k = CRUD_UPDATE :=
        if_pos (Or.inr (mem_keyMap.mpr ⟨stored, hstored⟩))
      dsimp only
      rw [hmode]
      cases hauth : authorized Match.globMatch tx.user CRUD_UPDATE k with
      | false => simp
      | true =>
        simp only [Bool.not_true, Bool.false_eq_true, if_false, iff_true]
        split_ifs <;> exact ⟨_, rfl⟩
    | none =>
      have hmode : tx.checkedMode store k = CRUD_CREATE :=
        if_neg (by simpa [hnone] using hstored)
      dsimp only
      rw [hmode]
      cases authorized Match.globMatch tx.user CRUD_CREATE k <;> simp

/-- Some user tells the two permissions apart. -/
theorem mode_eq_of_authorized {mode mode' : UInt8} (hmode : mode = CRUD_CREATE ∨ mode = CRUD_UPDATE)
    (hmode' : mode' = CRUD_CREATE ∨ mode' = CRUD_UPDATE)
    (h : ∀ user, authorized Match.globMatch user mode k = true ↔
      authorized Match.globMatch user mode' k = true) : mode = mode' := by
  have hgrant := h (some (granted CRUD_CREATE))
  rw [authorized_granted, authorized_granted] at hgrant
  rcases hmode with rfl | rfl <;> rcases hmode' with rfl | rfl
  · rfl
  · exact absurd hgrant (by decide)
  · exact absurd hgrant (by decide)
  · rfl

/-- The source asks for one of the two permissions. -/
theorem checkedMode_cases (tx : Transaction) (store : Store) (k : Key) :
    tx.checkedMode store k = CRUD_CREATE ∨ tx.checkedMode store k = CRUD_UPDATE := by
  unfold checkedMode
  split_ifs
  · exact Or.inr rfl
  · exact Or.inl rfl

/-- So does the view. -/
theorem viewMode_cases (tx : Transaction) (store : Store) (k : Key) :
    tx.viewMode store k = CRUD_CREATE ∨ tx.viewMode store k = CRUD_UPDATE := by
  unfold viewMode
  split_ifs
  · exact Or.inr rfl
  · exact Or.inl rfl

/-- The upserts ask for the permission that is checked, and for no other. -/
theorem asks_iff {mode : UInt8} (hopen : tx.state = .opened) (hwritable : tx.readOnly = false)
    (hvalid : isValidKey k = true) (hmode : mode = CRUD_CREATE ∨ mode = CRUD_UPDATE) :
    tx.Asks store k mode ↔ tx.checkedMode store k = mode := by
  have hallows : ∀ (user : Option User) (data : Bytes) (force : Bool), data ≠ [] →
      ({ tx with user := user }.Allows store k data force ↔
        authorized Match.globMatch user (tx.checkedMode store k) k = true) :=
    fun user data force hdata =>
      @allows_iff { tx with user := user } store k data hopen hwritable hvalid hdata force
  constructor
  · intro h
    refine mode_eq_of_authorized (k := k) (tx.checkedMode_cases store k) hmode fun user => ?_
    have hdata : ([1] : Bytes) ≠ [] := by simp
    exact (hallows user [1] true hdata).symm.trans (h user [1] true hdata)
  · rintro rfl user data force hdata
    exact hallows user data force hdata

/-- On a key that was not written, the permissions agree unless its item holds null. -/
theorem checkedMode_eq_viewMode_iff (hunwritten : tx.writes k = false) :
    tx.checkedMode store k = tx.viewMode store k ↔ tx.holdsNull k = false := by
  have hdistinct : CRUD_UPDATE ≠ CRUD_CREATE := by decide
  cases hitem : tx.items[k]? with
  | some e =>
    have hdelete : e.action ≠ .delete := by
      rintro hdelete
      simp [writes, hitem, hdelete] at hunwritten
    have hchecked : tx.checkedMode store k = CRUD_UPDATE :=
      if_pos (Or.inl (mem_keyMap.mpr ⟨e, hitem⟩))
    have hvisible : tx.visible store k = e.value := by
      simp only [visible, hitem, Entry.shown, if_neg hdelete]
    have hnull : tx.holdsNull k = decide (e.value = none) := by
      simp only [holdsNull, hitem]
    rw [hchecked, hnull, viewMode, hvisible]
    cases e.value <;> simp [hdistinct]
  | none =>
    have hnone : k ∉ tx.items := by simpa using hitem
    have hvisible : tx.visible store k = store.data[k]? := by
      simp only [visible, hitem]
    have hnull : tx.holdsNull k = false := by
      simp only [holdsNull, hitem]
    rw [hnull, viewMode, hvisible]
    cases hstored : store.data[k]? with
    | some stored =>
      have hmem : k ∈ store.data := mem_keyMap.mpr ⟨stored, hstored⟩
      simp [checkedMode, hmem]
    | none =>
      have habsent : k ∉ store.data := by simpa using hstored
      simp [checkedMode, hnone, habsent]

end Transaction

/-- The calls that look at keys: a read of one key, and `for_each` with a callback that only looks. -/
def TxInput.looksAt (k : Key) : TxInput → Bool
  | .read k' _ => k' = k
  | .forEach _ | .visit | .stop => true
  | _ => false

/-- The call reads a key. -/
def TxInput.reads (k : Key) : TxInput → Bool
  | .read k' _ => k' = k
  | _ => false

namespace OpenTx

open Transaction

/-- The state after an input. -/
def next (globMatch : Glob) (s : OpenTx) (i : TxInput) : Option OpenTx :=
  (s.step globMatch i).map Prod.fst

/-- What observations leave of a key that was not written. Reading it while it is absent leaves an
item with null, unless the level is read-committed. -/
structure Observed (k : Key) (wasRead : Bool) (s s' : OpenTx) : Prop where
  store : s'.store = s.store
  frame : SameFrame s.tx s'.tx
  unwritten : s'.tx.writes k = false
  visible : s'.tx.visible s'.store k = s.tx.visible s.store k
  null : s'.tx.holdsNull k = true ↔ s.tx.holdsNull k = true ∨
    (wasRead = true ∧ s.tx.isolation ≠ .readCommitted ∧ s.tx.visible s.store k = none)

variable {globMatch : Glob} {s s' s'' : OpenTx} {k : Key}

/-- A step that keeps the item of the key. -/
theorem Observed.same (hunwritten : s.tx.writes k = false) (hstore : s'.store = s.store)
    (hframe : SameFrame s.tx s'.tx) (hitem : s'.tx.items[k]? = s.tx.items[k]?) :
    Observed k false s s' := by
  refine ⟨hstore, hframe, ?_, ?_, ?_⟩
  · rw [← hunwritten, writes, hitem, writes]
  · rw [Transaction.visible, hitem, hstore, Transaction.visible]
  · rw [holdsNull, hitem, holdsNull]
    simp

/-- A step that observes the item of the key. -/
theorem Observed.item {e e' : Entry} {wasRead : Bool} (hunwritten : s.tx.writes k = false)
    (hstore : s'.store = s.store) (hframe : SameFrame s.tx s'.tx)
    (hitem : s.tx.items[k]? = some e) (hitem' : s'.tx.items[k]? = some e')
    (he' : e' = e ∨ e' = e.observed) : Observed k wasRead s s' := by
  have hwritten : e.action ≠ .upsert ∧ e.action ≠ .delete := by
    simpa [writes, hitem] using hunwritten
  obtain ⟨hvalue, hupsert, hdelete⟩ : e'.value = e.value ∧ e'.action ≠ .upsert ∧
      e'.action ≠ .delete := by
    rcases he' with rfl | rfl
    · exact ⟨rfl, hwritten⟩
    · obtain ⟨hvalue, hupsert, hdelete⟩ := e.observed_keeps
      exact ⟨hvalue, mt hupsert.mp hwritten.1, mt hdelete.mp hwritten.2⟩
  have hvisible : s.tx.visible s.store k = e.value := by
    simp only [Transaction.visible, hitem, Entry.shown, if_neg hwritten.2]
  refine ⟨hstore, hframe, ?_, ?_, ?_⟩
  · simp [writes, hitem', hupsert, hdelete]
  · rw [hvisible]
    simp only [Transaction.visible, hitem', Entry.shown, if_neg hdelete, hvalue]
  · rw [hvisible]
    simp only [holdsNull, hitem, hitem', hvalue, decide_eq_true_eq]
    constructor
    · exact Or.inl
    · rintro (hnull | ⟨-, -, hnull⟩) <;> exact hnull

/-- A step that pins the stored value of the key. -/
theorem Observed.pinned {wasRead : Bool} (hstore : s'.store = s.store)
    (hframe : SameFrame s.tx s'.tx) (hitem : s.tx.items[k]? = none)
    (hitem' : s'.tx.items[k]? = some (pin s.store.data[k]?)) (hiso : s.tx.isolation ≠ .readCommitted)
    (hread : s.store.data[k]? = none → wasRead = true) : Observed k wasRead s s' := by
  have hvisible : s.tx.visible s.store k = s.store.data[k]? := by
    simp only [Transaction.visible, hitem]
  have hnull : s.tx.holdsNull k = false := by
    simp only [holdsNull, hitem]
  refine ⟨hstore, hframe, ?_, ?_, ?_⟩
  · simp [writes, hitem', pin]
  · rw [hvisible]
    simp [Transaction.visible, hitem', Entry.shown, pin]
  · rw [hvisible, hnull]
    simp only [holdsNull, hitem', pin, decide_eq_true_eq, Bool.false_eq_true, false_or]
    exact ⟨fun h => ⟨hread h, hiso, h⟩, fun h => h.2.2⟩

/-- One observation. -/
theorem observed_step {i : TxInput} {o : TxAnswer} (hopen : s.tx.state = .opened)
    (hvalid : isValidKey k = true) (hunwritten : s.tx.writes k = false)
    (hlooks : i.looksAt k = true) (hstep : s.step globMatch i = some (s', o)) :
    Observed k (i.reads k) s s' := by
  have hframe := step_sameFrame hstep
  cases step_effect hstep with
  | commit => cases hlooks
  | upsert => cases hlooks
  | upsertIfChanged => cases hlooks
  | remove => cases hlooks
  | ensure => cases hlooks
  | @read k' ensure v hsame htx =>
    obtain rfl : k' = k := by simpa [TxInput.looksAt] using hlooks
    have hstore : s'.store = s.store := by rw [hsame]
    have hitem' : s'.tx.items[k']? = s.tx.itemAfterRead s.store k' := by
      rw [htx.items, if_pos rfl]
    have hreads : (TxInput.read k' ensure).reads k' = true := by simp [TxInput.reads]
    rw [hreads]
    cases hitem : s.tx.items[k']? with
    | some e =>
      have hread : s'.tx.items[k']? = some (if e.value = none then e else e.observed) := by
        simp only [hitem', itemAfterRead, hitem]
      refine Observed.item hunwritten hstore hframe hitem hread ?_
      split_ifs
      · exact Or.inl rfl
      · exact Or.inr rfl
    | none =>
      by_cases hiso : s.tx.isolation = .readCommitted
      · have hkept := Observed.same hunwritten hstore hframe
          (by simp only [hitem', itemAfterRead, hitem, if_pos hiso])
        refine ⟨hkept.store, hkept.frame, hkept.unwritten, hkept.visible, ?_⟩
        rw [hkept.null]
        simp [hiso]
      · exact Observed.pinned hstore hframe hitem
          (by simp only [hitem', itemAfterRead, hitem, if_neg hiso]) hiso fun _ => rfl
  | @forEach pattern ret hpattern _ hsame htx =>
    have hstore : s'.store = s.store := by rw [hsame]
    have hitem' := htx.items k
    have hreads : (TxInput.forEach pattern).reads k = false := rfl
    rw [hreads]
    by_cases hscan : scans globMatch pattern k = true
    · rw [if_pos hscan] at hitem'
      cases hitem : s.tx.items[k]? with
      | some e =>
        rw [hitem] at hitem'
        exact Observed.item hunwritten hstore hframe hitem hitem' (Or.inr rfl)
      | none =>
        simp only [hitem] at hitem'
        by_cases hiso : s.tx.isolation = .readCommitted
        · rw [if_pos hiso] at hitem'
          exact Observed.same hunwritten hstore hframe (hitem'.trans hitem.symm)
        · rw [if_neg hiso] at hitem'
          cases hstored : s.store.data[k]? with
          | none =>
            rw [hstored] at hitem'
            exact Observed.same hunwritten hstore hframe (hitem'.trans hitem.symm)
          | some v =>
            rw [hstored] at hitem'
            exact Observed.pinned hstore hframe hitem (by rw [hitem', hstored]; rfl) hiso
              fun h => by rw [hstored] at h; cases h
    · rw [if_neg hscan] at hitem'
      exact Observed.same hunwritten hstore hframe hitem'
  | empty hsame => exact Observed.same hunwritten (by rw [hsame]) hframe (by rw [hsame])
  | visit _ hsame => exact Observed.same hunwritten (by rw [hsame]) hframe (by rw [hsame])
  | stop _ hsame => exact Observed.same hunwritten (by rw [hsame]) hframe (by rw [hsame])
  | @thrown _ e hsame =>
    have hkept : Observed k false s s' :=
      Observed.same hunwritten (by rw [hsame]) hframe (by rw [hsame])
    cases i with
    | read k' ensure =>
      -- an open transaction reads every valid key
      obtain rfl : k' = k := by simpa [TxInput.looksAt] using hlooks
      obtain ⟨v, tx, hread⟩ := read_succeeds hopen hvalid s.store ensure
      simp [step, answer, hread] at hstep
    | _ => exact hkept

/-- Nothing observed. -/
theorem Observed.refl (hunwritten : s.tx.writes k = false) : Observed k false s s :=
  .same hunwritten rfl rfl rfl

/-- Observations compose. -/
theorem Observed.trans {first second : Bool} (h : Observed k first s s')
    (h' : Observed k second s' s'') : Observed k (first || second) s s'' := by
  have hiso : s'.tx.isolation = s.tx.isolation := by rw [h.frame]
  refine ⟨h'.store.trans h.store, ?_, h'.unwritten, h'.visible.trans h.visible, ?_⟩
  · rw [SameFrame, h'.frame, h.frame]
  · rw [h'.null, h.null, h.visible, hiso, Bool.or_eq_true]
    tauto

/-- What a run of observations leaves behind. -/
theorem observed_run {calls : List TxInput} (hopen : s.tx.state = .opened)
    (hvalid : isValidKey k = true) (hunwritten : s.tx.writes k = false)
    (hrun : Run (next globMatch) (fun _ i => i.looksAt k = true) s calls s') :
    Observed k (calls.any (·.reads k)) s s' := by
  induction hrun with
  | nil => exact .refl hunwritten
  | @cons s mid last i rest hlooks hstep _ ih =>
    obtain ⟨⟨mid', o⟩, hanswer, rfl⟩ := Option.map_eq_some_iff.mp hstep
    have hhead := observed_step hopen hvalid hunwritten hlooks hanswer
    have hopen' : mid'.tx.state = .opened := by rw [hhead.frame, hopen]
    exact hhead.trans (ih hopen' hhead.unwritten)

/-- Before and after some observations, the upserts of a key ask for the permission that the view
calls for, and are allowed to the same users. -/
def PermissionFollowsView (k : Key) (s s' : OpenTx) : Prop :=
  s.tx.Asks s.store k (s.tx.viewMode s.store k) ∧
    s'.tx.Asks s'.store k (s'.tx.viewMode s'.store k) ∧
    ∀ (user : Option User) (data : Bytes) (force : Bool), data ≠ [] →
      ({ s.tx with user := user }.Allows s.store k data force ↔
        { s'.tx with user := user }.Allows s'.store k data force)

/-- When both states ask for what the view calls for, observations change nothing. -/
theorem permissionFollowsView_iff_asks (hvisible : s'.tx.visible s'.store k = s.tx.visible s.store k) :
    PermissionFollowsView k s s' ↔ s.tx.Asks s.store k (s.tx.viewMode s.store k) ∧
      s'.tx.Asks s'.store k (s'.tx.viewMode s'.store k) := by
  constructor
  · rintro ⟨h, h', -⟩
    exact ⟨h, h'⟩
  · rintro ⟨h, h'⟩
    refine ⟨h, h', fun user data force hdata => ?_⟩
    have hmode : s'.tx.viewMode s'.store k = s.tx.viewMode s.store k := by
      rw [viewMode, viewMode, hvisible]
    rw [h user data force hdata, h' user data force hdata, hmode]

/-- The permission follows the view, before and after any number of reads of the key and
`for_each` calls, exactly when no item of the key holds null: none did before, and the key was
not read while it was absent, unless the level is read-committed. -/
theorem permission_follows_view_iff {calls : List TxInput} (hopen : s.tx.state = .opened)
    (hwritable : s.tx.readOnly = false) (hvalid : isValidKey k = true)
    (hunwritten : s.tx.writes k = false)
    (hrun : Run (next Match.globMatch) (fun _ i => i.looksAt k = true) s calls s') :
    PermissionFollowsView k s s' ↔ s.tx.holdsNull k = false ∧
      (s.tx.isolation = .readCommitted ∨ s.tx.visible s.store k ≠ none ∨
        ∀ i ∈ calls, i.reads k = false) := by
  have hobserved := observed_run hopen hvalid hunwritten hrun
  have hopen' : s'.tx.state = .opened := by rw [hobserved.frame, hopen]
  have hwritable' : s'.tx.readOnly = false := by rw [hobserved.frame, hwritable]
  have hasks : s.tx.Asks s.store k (s.tx.viewMode s.store k) ↔ s.tx.holdsNull k = false := by
    rw [asks_iff hopen hwritable hvalid (viewMode_cases _ _ _),
      checkedMode_eq_viewMode_iff hunwritten]
  have hasks' : s'.tx.Asks s'.store k (s'.tx.viewMode s'.store k) ↔ s'.tx.holdsNull k = false := by
    rw [asks_iff hopen' hwritable' hvalid (viewMode_cases _ _ _),
      checkedMode_eq_viewMode_iff hobserved.unwritten]
  have hreads : calls.any (·.reads k) = true ↔ ¬∀ i ∈ calls, i.reads k = false := by
    simp
  have hnull := hobserved.null
  rw [hreads] at hnull
  rw [permissionFollowsView_iff_asks hobserved.visible, hasks, hasks', ← Bool.not_eq_true,
    ← Bool.not_eq_true, hnull]
  tauto

/-- A user who may create keys only reads an absent key: before the read the upsert is allowed,
after it is not. -/
theorem read_changes_permission :
    ¬∀ (s s' : OpenTx) (calls : List TxInput) (k : Key),
      Reached (next Match.globMatch) anyStep (start Store.empty .repeatableRead false none) s →
      isValidKey k = true → s.tx.writes k = false →
      Run (next Match.globMatch) (fun _ i => i.looksAt k = true) s calls s' →
        PermissionFollowsView k s s' := by
  intro h
  have hexec : (execute (next Match.globMatch) (fun _ i => i.looksAt [97])
      (start Store.empty .repeatableRead false none) [.read [97] false]).map
        (fun s => s.tx.items[([97] : Key)]?) = some (some ⟨.read, none⟩) := by
    decide +kernel
  obtain ⟨s', hrun, hitem⟩ := exists_run_of_execute (fun _ _ h => h) hexec
  obtain ⟨-, hasks, -⟩ := h _ s' _ [97] (Reached.refl _) (by decide +kernel) rfl hrun
  have hobserved := observed_run rfl (by decide +kernel) rfl hrun
  have hopen : s'.tx.state = .opened := by
    rw [hobserved.frame]
    rfl
  have hwritable : s'.tx.readOnly = false := by
    rw [hobserved.frame]
    rfl
  rw [asks_iff hopen hwritable (by decide +kernel) (viewMode_cases _ _ _),
    checkedMode_eq_viewMode_iff hobserved.unwritten] at hasks
  simp [holdsNull, hitem] at hasks

/-- A read-committed read of an absent key changes no permission. -/
theorem permission_follows_view_committed : ∃ s',
    Run (next Match.globMatch) (fun _ i => i.looksAt [97] = true)
        (start Store.empty .readCommitted false none) [.read [97] false] s' ∧
      PermissionFollowsView [97] (start Store.empty .readCommitted false none) s' := by
  have hexec : (execute (next Match.globMatch) (fun _ i => i.looksAt [97])
      (start Store.empty .readCommitted false none) [.read [97] false]).map
        (fun s => s.tx.dirty) = some false := by
    decide +kernel
  obtain ⟨s', hrun, -⟩ := exists_run_of_execute (fun _ _ h => h) hexec
  exact ⟨s', hrun, (permission_follows_view_iff rfl rfl (by decide +kernel) rfl hrun).mpr
    ⟨rfl, Or.inl rfl⟩⟩

end OpenTx

end Nplex
