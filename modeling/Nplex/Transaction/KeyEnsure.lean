import Nplex.Literal
import Nplex.Transaction.Lifecycle

/-!
# A key as an ensure pattern

`read` with the ensure flag registers the key it read as an ensure pattern, byte for byte, and
`update` later hands it to `glob_match`. The ensure persists whatever happens to the
transaction, and a delivered commit marks the transaction when a changed key matches. So the
protection of the key is that of its pattern: right for the keys that match themselves and
nothing else, which the keys without special characters do, and the others without stars do not.
-/

namespace Nplex

open Match

/-- As a pattern, the key matches itself and no other valid key. -/
def SelfOnly (k : Key) : Prop :=
  ∀ k', isValidKey k' = true → (globMatch k' k = true ↔ k' = k)

/-- No byte of the key means something else in a pattern. -/
def literalKey (k : Key) : Bool := k.all isLiteral

/-- Valid keys are matched as they are. -/
theorem globMatch_of_valid {k k' : Key} (hk : isValidKey k = true) (hk' : isValidKey k' = true) :
    globMatch k' k = matchPlain k' k := by
  unfold globMatch matchPlain
  congr 1
  simp [cStr_of_isValidKey hk, cStr_of_isValidKey hk']

/-- A key without special characters matches itself only. -/
theorem selfOnly_of_literalKey {k : Key} (hvalid : isValidKey k = true)
    (hliteral : literalKey k = true) : SelfOnly k := by
  intro k' hk'
  rw [globMatch_of_valid hvalid hk']
  exact matchPlain_of_literal (List.all_eq_true.mp hliteral) k'

/-- Filling leaves a text alone only when it has no `?`. -/
theorem ne_of_fillAny_eq {l : Bytes} (h : fillAny l = l) : ∀ b ∈ l, b ≠ 63 := by
  rintro b hb rfl
  have hfixed : ∀ c ∈ l, fillByte c = c := List.map_inj_left.mp (h.trans (List.map_id l).symm)
  exact absurd (hfixed 63 hb) (by decide)

/-- Without stars, only the keys without special characters match themselves only. -/
theorem selfOnly_iff_literalKey {k : Key} (hvalid : isValidKey k = true) (hstar : 42 ∉ k) :
    SelfOnly k ↔ literalKey k = true := by
  refine ⟨fun h => ?_, selfOnly_of_literalKey hvalid⟩
  have hne : ∀ b ∈ k, b ≠ 42 := fun b hb => ne_of_mem_of_not_mem hb hstar
  have hself : matchPlain k k = true := by
    rw [← globMatch_of_valid hvalid hvalid]
    exact (h k hvalid).mpr rfl
  have hplain := (matchPlain_length hne hself).2 rfl
  have hsimple : ∀ b ∈ k, isSimple b = true := by
    intro b hb
    simp [isSimple, hne b hb, hplain b hb]
  have hfilled : fillAny k = k := by
    apply (h _ (isValidKey_fillAny hvalid)).mp
    rw [globMatch_of_valid hvalid (isValidKey_fillAny hvalid)]
    exact matchPlain_fillAny hsimple
  refine List.all_eq_true.mpr fun b hb => ?_
  simp [isLiteral, hne b hb, hplain b hb, ne_of_fillAny_eq hfilled b hb]

namespace Transaction

variable {tx tx' : Transaction}

/-- The transaction keeps its ensure patterns and its mark. -/
structure Guards (tx tx' : Transaction) : Prop where
  ensures : ∀ e ∈ tx.ensures, e ∈ tx'.ensures
  dirty : tx.dirty = true → tx'.dirty = true

/-- Keeping both composes. -/
theorem Guards.trans {tx'' : Transaction} (h : Guards tx tx') (h' : Guards tx' tx'') :
    Guards tx tx'' :=
  ⟨fun e he => h'.ensures e (h.ensures e he), fun hd => h'.dirty (h.dirty hd)⟩

/-- Changing neither keeps both. -/
theorem Guards.of_eq (hensures : tx'.ensures = tx.ensures) (hdirty : tx'.dirty = tx.dirty) :
    Guards tx tx' :=
  ⟨fun _ he => hensures ▸ he, fun hd => hdirty.trans hd⟩

/-- One change adds no ensure and takes no mark. -/
theorem snapshotChange_guards (tx : Transaction) (c : Change) :
    (tx.snapshotChange c).ensures = tx.ensures ∧
      (tx.dirty = true → (tx.snapshotChange c).dirty = true) := by
  unfold snapshotChange
  split_ifs
  · exact ⟨rfl, fun _ => rfl⟩
  · split
    · exact ⟨rfl, id⟩
    · exact ⟨rfl, id⟩
    · exact ⟨rfl, id⟩

/-- Nor do the changes of a commit. -/
theorem updateSerializable_guards (tx : Transaction) (changes : List Change) :
    (tx.updateSerializable changes).ensures = tx.ensures ∧
      (tx.dirty = true → (tx.updateSerializable changes).dirty = true) := by
  unfold updateSerializable
  induction changes generalizing tx with
  | nil => exact ⟨rfl, id⟩
  | cons c changes ih =>
    obtain ⟨hensures, hdirty⟩ := snapshotChange_guards tx c
    obtain ⟨hensures', hdirty'⟩ := ih (tx.snapshotChange c)
    exact ⟨hensures'.trans hensures, fun hd => hdirty' (hdirty hd)⟩

/-- What `update` does on an open transaction, whatever the changes are. -/
theorem update_guards (globMatch : Glob) (tx : Transaction) (changes : List Change)
    (hopen : tx.state = .opened) :
    (tx.update globMatch changes).ensures = tx.ensures ∧
      (tx.dirty = true ∨ tx.ensureBroken globMatch changes = true →
        (tx.update globMatch changes).dirty = true) := by
  unfold update
  rw [if_neg (by simp [hopen])]
  dsimp only
  rw [checkEnsures_eq]
  have hgoal : ∀ mid : Transaction, mid.ensures = tx.ensures →
      (tx.dirty = true → mid.dirty = true) →
      mid.ensures = tx.ensures ∧ (tx.dirty = true ∨ tx.ensureBroken globMatch changes = true →
        (mid.dirty || mid.ensureBroken globMatch changes) = true) := by
    intro mid hensures hdirty
    refine ⟨hensures, fun h => ?_⟩
    rw [ensureBroken_congr hensures, Bool.or_eq_true]
    exact h.imp_left hdirty
  have hdefault := hgoal (tx.updateDefault changes) (by rw [updateDefault_eq])
    (by rw [updateDefault_eq]; simp +contextual)
  obtain ⟨hensures, hdirty⟩ := updateSerializable_guards tx changes
  cases tx.isolation with
  | readCommitted => exact hdefault
  | repeatableRead => exact hdefault
  | serializable => exact hgoal _ hensures hdirty

/-- A new state keeps both. -/
theorem setState_guards (tx : Transaction) (state : TxState) : Guards tx (tx.setState state) := by
  unfold setState
  split_ifs <;> exact .of_eq rfl rfl

/-- So does closing a transaction, also when its promise throws. -/
theorem close_guards (tx : Transaction) (state : TxState) (o : Outcome) :
    Guards tx (tx.close state o).1 := by
  obtain ⟨p, hp⟩ := close_eq tx state o
  rw [hp]
  exact (setState_guards tx state).trans (.of_eq rfl rfl)

/-- So does a discard. -/
theorem discard_guards (tx : Transaction) : Guards tx tx.discard := by
  unfold discard
  dsimp only
  split
  · exact (setState_guards tx .discarded).trans (.of_eq rfl rfl)
  · exact setState_guards tx .discarded

/-- So does a submit, whether it ends on the user's thread or not. -/
theorem submit_guards {step : SubmitStep} {force client : Bool}
    (h : tx.submit force client = .ok step) :
    (∀ tx', step = .done tx' → Guards tx tx') ∧ ∀ tx', step = .push tx' → Guards tx tx' := by
  constructor
  · rintro tx' rfl
    obtain ⟨-, result, state, -, rfl⟩ := submit_done h
    exact .of_eq rfl rfl
  · rintro tx' rfl
    obtain ⟨-, -, -, rfl, -⟩ := submit_push h
    exact .of_eq rfl rfl

/-- So does a response; a TRY_LATER replaces the promise only. -/
theorem setSubmitResult_guards (tx : Transaction) (code : SubmitCode) :
    Guards tx (tx.setSubmitResult code).1 := by
  unfold setSubmitResult
  split_ifs
  · exact .of_eq rfl rfl
  · cases code with
    | accepted => exact setState_guards tx .accepted
    | tryLater =>
      have hclose := close_guards tx .opened (.value .tryLater)
      dsimp only
      split
      next tx' hok =>
        rw [hok] at hclose
        exact hclose.trans (.of_eq rfl rfl)
      next tx' e herror =>
        rw [herror] at hclose
        exact hclose
    | _ => exact close_guards tx _ _

/-- No operation takes an ensure or the mark from a transaction. -/
theorem apply_guards (globMatch : Glob) (tx : Transaction) (op : TxOp) :
    Guards tx (tx.apply globMatch op).1 := by
  cases op with
  | use store i =>
    unfold apply
    dsimp only
    cases hstep : OpenTx.step globMatch ⟨store, tx, []⟩ i with
    | none => exact .of_eq rfl rfl
    | some r =>
      have hguards : Guards tx r.1.tx := ⟨OpenTx.step_ensures hstep, OpenTx.step_dirty hstep⟩
      obtain ⟨s, o⟩ := r
      cases o <;> exact hguards
  | update changes =>
    by_cases hopen : tx.state = .opened
    · obtain ⟨hensures, hdirty⟩ := update_guards globMatch tx changes hopen
      exact ⟨fun e he => hensures ▸ he, fun hd => hdirty (Or.inl hd)⟩
    · exact .of_eq (by rw [apply, update_of_not_open hopen]) (by rw [apply, update_of_not_open hopen])
  | discard => exact discard_guards tx
  | submit force client pushes =>
    unfold apply
    dsimp only
    cases hsubmit : tx.submit force client with
    | error e => exact .of_eq rfl rfl
    | ok step =>
      obtain ⟨hdone, hpush⟩ := submit_guards hsubmit
      cases step with
      | done tx' => exact hdone tx' rfl
      | push tx' =>
        dsimp only
        split_ifs
        · exact (hpush tx' rfl).trans (.of_eq rfl rfl)
        · exact hpush tx' rfl
  | setSubmitResult code => exact setSubmitResult_guards tx code
  | setSubmitException e =>
    change Guards tx (tx.setSubmitException e).1
    unfold setSubmitException
    split_ifs
    · exact .of_eq rfl rfl
    · exact close_guards tx _ _
  | confirmCommit =>
    change Guards tx tx.confirmCommit.1
    unfold confirmCommit
    split_ifs
    · exact .of_eq rfl rfl
    · exact close_guards tx _ _

/-- Nor does any sequence of them. -/
theorem applyAll_guards (globMatch : Glob) (tx : Transaction) (ops : List TxOp) :
    Guards tx (tx.applyAll globMatch ops) := by
  induction ops generalizing tx with
  | nil => exact .of_eq rfl rfl
  | cons op ops ih => exact (apply_guards globMatch tx op).trans (ih _)

/-- A delivered change that matches an ensure pattern marks the transaction. -/
theorem dirty_of_ensure {globMatch : Glob} {e : Bytes} {k : Key} {changes : List Change}
    (hopen : tx.state = .opened) (he : e ∈ tx.ensures) (hmatch : globMatch k e = true)
    (hk : k ∈ changedKeys changes) : (tx.update globMatch changes).dirty = true := by
  refine (update_guards globMatch tx changes hopen).2 (Or.inr ?_)
  obtain ⟨c, hc, rfl⟩ := mem_changedKeys.mp hk
  exact List.any_eq_true.mpr ⟨c, hc, List.any_eq_true.mpr ⟨e, Std.ExtTreeSet.mem_toList.mpr he, hmatch⟩⟩

end Transaction

/-- A commit that writes one valid key is delivered as one change of the key. -/
theorem Store.update_writing (s : Store) {k : Key} (hvalid : isValidKey k = true) (rev : ℕ)
    (hrev : s.rev < rev) (data : Bytes) :
    ∃ s' c m v, s.update (.writing rev [k] data) = (s', .ok ([c], m)) ∧ c.key = k ∧
      s'.rev = rev ∧ s'.data[k]? = some v := by
  have hkey : cStr k = k := cStr_of_isValidKey hvalid
  have hwf : (Update.writing rev [k] data).wellFormed := by
    constructor
    · intro kv hkv
      obtain rfl : kv = ⟨some k, some data⟩ := by simpa [Update.writing] using hkv
      exact ⟨k, data, rfl, hkey.symm ▸ hvalid⟩
    · simp [Update.writing]
  obtain ⟨s', changes, hupdate⟩ := Store.update_succeeds (s := s) hrev hwf
  obtain ⟨-, -, hrev', -, hcontent, hchanges, -⟩ := Store.update_loops hupdate
  have hedits : (Update.writing rev [k] data).edits =
      [⟨k, some ⟨data, some (Update.writing rev [k] data).metadata⟩⟩] := by
    simp [Update.edits, Update.writing, upsertEdits, deleteEdits, hkey]
  have hdeltas : ∀ v : Value, Common.editDeltas s.content [⟨k, some v⟩] = [⟨k, s.content k, some v⟩] := by
    intro v
    cases h : s.content k <;> simp [Common.editDeltas, h]
  have hfound : s'.content k = some ⟨data, some (Update.writing rev [k] data).metadata⟩ := by
    rw [hcontent, hedits]
    simp [Common.applyEdits]
  rw [hedits, hdeltas] at hchanges
  subst hchanges
  exact ⟨s', _, _, _, hupdate, rfl, hrev', hfound⟩

/-- What `read` with the ensure flag promises of a key it returns the value of: any commit on the
key that is delivered to the transaction while it is open marks it for good, and the ensure that
is added guards no other key. -/
def EnsureProtects (k : Key) : Prop :=
  ∀ (isolation : Isolation) (readOnly : Bool) (user : Option User) (created store : Store)
    (before : List TxOp) (v : Value) (tx tx' : Transaction),
    tx = (Transaction.create created isolation readOnly user).applyAll globMatch before →
    tx.read store k true = .ok (some v, tx') →
    (∀ (after later : List TxOp) (s s' : Store) (u : Update) (changes : List Change) (m : Meta),
      (tx'.applyAll globMatch after).state = .opened → s.update u = (s', .ok (changes, m)) →
      k ∈ changedKeys changes →
      (((tx'.applyAll globMatch after).update globMatch changes).applyAll globMatch later).dirty =
        true) ∧
    ∀ e ∈ tx'.ensures, e ∉ tx.ensures →
      ∀ k', isValidKey k' = true → globMatch k' e = true → k' = k

/-- A key that matches itself only is protected. -/
theorem ensureProtects_of_selfOnly {k : Key} (h : SelfOnly k) : EnsureProtects k := by
  intro isolation readOnly user created store before v tx tx' _ hread
  have hstep := Transaction.read_ok hread
  have hensures : tx'.ensures = (tx.addEnsure k).ensures := by
    simpa using hstep.ensures
  refine ⟨fun after later s s' u changes m hopen _ hchanged => ?_, fun e he hnew k' hk' hmatch => ?_⟩
  · have hmem : k ∈ tx'.ensures := by
      rw [hensures, Transaction.mem_addEnsure]
      exact Or.inl rfl
    have hkept := (Transaction.applyAll_guards globMatch tx' after).ensures k hmem
    have hdirty := Transaction.dirty_of_ensure hopen hkept ((h k hstep.valid).mpr rfl) hchanged
    exact (Transaction.applyAll_guards globMatch _ later).dirty hdirty
  · rw [hensures, Transaction.mem_addEnsure] at he
    obtain rfl := he.resolve_right hnew
    exact (h k' hk').mp hmatch

/-- A read-committed transaction shows what the pattern of a key does: it has no item of the key,
so only the ensure can mark it. -/
theorem selfOnly_of_ensureProtects {k : Key} (hvalid : isValidKey k = true) (h : EnsureProtects k) :
    SelfOnly k := by
  obtain ⟨store, -, -, v, -, -, hrev, hv⟩ := Store.update_writing Store.empty hvalid 1 (by decide) [1]
  obtain ⟨store', c, m, -, hupdate, hc, -⟩ :=
    Store.update_writing store hvalid 2 (by omega) [2]
  -- read-committed pins nothing, so the ensure is all the read leaves
  have hread : (Transaction.create store .readCommitted false none).read store k true =
      .ok (some v, (Transaction.create store .readCommitted false none).addEnsure k) := by
    simp [Transaction.read, Transaction.create, hvalid, hv]
  have hmem : k ∈ ((Transaction.create store .readCommitted false none).addEnsure k).ensures := by
    rw [Transaction.mem_addEnsure]
    exact Or.inl rfl
  obtain ⟨hmarks, honly⟩ := h .readCommitted false none store store [] v _ _ rfl hread
  have hself : globMatch k k = true := by
    have hdirty := hmarks [] [] store store' _ [c] m rfl hupdate (by simp [changedKeys, hc])
    by_contra hmiss
    simp [Transaction.applyAll, Transaction.update, Transaction.addEnsure, Transaction.create,
      Transaction.updateDefault, Transaction.ensureBroken, hc, hmiss] at hdirty
  intro k' hk'
  constructor
  · have hnew : k ∉ (Transaction.create store .readCommitted false none).ensures :=
      Std.ExtTreeSet.not_mem_empty
    exact honly k hmem hnew k' hk'
  · intro hk
    exact hk ▸ hself

/-- Reading with the ensure flag protects a valid key exactly when `glob_match` takes the key for
a pattern that matches itself only. A key without special characters is protected, and of the
keys without stars no other is. -/
theorem ensure_protects_iff {k : Key} (hvalid : isValidKey k = true) :
    (EnsureProtects k ↔ SelfOnly k) ∧ (literalKey k = true → EnsureProtects k) ∧
      (42 ∉ k → (EnsureProtects k ↔ literalKey k = true)) := by
  have hiff : EnsureProtects k ↔ SelfOnly k :=
    ⟨selfOnly_of_ensureProtects hvalid, ensureProtects_of_selfOnly⟩
  refine ⟨hiff, fun hliteral => hiff.mpr (selfOnly_of_literalKey hvalid hliteral), fun hstar => ?_⟩
  exact hiff.trans (selfOnly_iff_literalKey hvalid hstar)

/-- The key `a/b` is protected. -/
theorem ensure_protects_path : EnsureProtects [97, 47, 98] :=
  (ensure_protects_iff (by decide +kernel)).2.1 (by decide)

/-- The keys `a[` and `a*` are not: the one is no match for itself, the other guards `ab`. -/
theorem special_keys_unprotected :
    (isValidKey [97, 91] = true ∧ ¬EnsureProtects [97, 91]) ∧
      isValidKey [97, 42] = true ∧ ¬EnsureProtects [97, 42] := by
  have hbracket : isValidKey [97, 91] = true := by decide +kernel
  have hstar : isValidKey [97, 42] = true := by decide +kernel
  refine ⟨⟨hbracket, fun h => ?_⟩, hstar, fun h => ?_⟩
  · have hself := (selfOnly_of_ensureProtects hbracket h [97, 91] hbracket).mpr rfl
    have hmiss : globMatch [97, 91] [97, 91] = false := globMatch_of_turns 8 (by decide +kernel)
    exact Bool.false_ne_true (hmiss.symm.trans hself)
  · have hother : globMatch [97, 98] [97, 42] = true := globMatch_of_turns 8 (by decide +kernel)
    have hsame := (selfOnly_of_ensureProtects hstar h [97, 98] (by decide +kernel)).mp hother
    exact absurd hsame (by decide)

end Nplex
