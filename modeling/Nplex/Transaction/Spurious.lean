import Nplex.Transaction.Conflict

/-!
# Conflicts that are none

A transaction should be marked dirty only by a commit that changes a key it touched, or a key
that one of its ensure patterns guards. The items of a serializable transaction also hold the
snapshots that earlier commits left of keys it never touched, and `update_serializable` takes
every key with an item for a touched one: the second change of such a key, in a later commit or
in the same one, marks the transaction. On the runs whose commits repeat no key, and on no
others, every mark comes from a conflict.
-/

namespace Nplex

open Nplex.Common

/-- The keys that an answered input touches; a `for_each` touches the keys it collects. -/
def touches (globMatch : Glob) (s : OpenTx) : TxInput → TxAnswer → List Key
  | .read k _, .value _ => [k]
  | .upsert k _, .done => [k]
  | .upsertIfChanged k _, .flag _ => [k]
  | .remove k, .flag _ => [k]
  | .visit, .called k _ => [k]
  | .forEach pattern, .collected _ =>
    (s.tx.items.keys ++ s.store.data.keys).filter fun k => scans globMatch pattern k
  | _, _ => []

namespace OpenTx

open Transaction

variable {globMatch : Glob} {s s' : OpenTx} {o : TxAnswer} {i : TxInput}

/-- What an input of the owner leaves behind: new items are of touched keys, it makes no
snapshots, and it marks the transaction only when it touches one. -/
structure OwnerStep (s s' : OpenTx) (touched : List Key) : Prop where
  frame : SameFrame s.tx s'.tx
  items : ∀ k, k ∈ s'.tx.items → k ∈ s.tx.items ∨ k ∈ touched
  snapshots : ∀ k, s'.tx.snapshotAt k = true → s.tx.snapshotAt k = true
  dirty : s'.tx.dirty = true → s.tx.dirty = true ∨ ∃ k ∈ touched, s.tx.snapshotAt k = true

/-- An input that leaves the items and the mark alone. -/
theorem OwnerStep.same {touched : List Key} (hframe : SameFrame s.tx s'.tx)
    (hitems : s'.tx.items = s.tx.items) (hdirty : s'.tx.dirty = s.tx.dirty) :
    OwnerStep s s' touched :=
  ⟨hframe, fun k hk => Or.inl (hitems ▸ hk), fun k hk => by rwa [snapshotAt, hitems] at hk,
    fun hd => Or.inl (hdirty ▸ hd)⟩

/-- An input about one key. -/
theorem OwnerStep.keyed {k : Key} (hframe : SameFrame s.tx s'.tx)
    (hothers : ∀ k', k ≠ k' → s'.tx.items[k']? = s.tx.items[k']?)
    (hkey : s'.tx.snapshotAt k = true → s.tx.snapshotAt k = true)
    (hdirty : s'.tx.dirty = true → s.tx.dirty = true ∨ s.tx.snapshotAt k = true) :
    OwnerStep s s' [k] := by
  refine ⟨hframe, fun k' hk' => ?_, fun k' hk' => ?_, fun hd => ?_⟩
  · by_cases hk : k = k'
    · exact Or.inr (by simp [hk])
    · obtain ⟨e, he⟩ := mem_keyMap.mp hk'
      exact Or.inl (mem_keyMap.mpr ⟨e, by rw [← hothers k' hk, he]⟩)
  · by_cases hk : k = k'
    · subst hk
      exact hkey hk'
    · rwa [snapshotAt, hothers k' hk] at hk'
  · exact (hdirty hd).imp_right fun hsnap => ⟨k, List.mem_singleton_self k, hsnap⟩

/-- An upsert touches its key. -/
theorem OwnerStep.upsert {k data : Bytes} {force b : Bool}
    (htx : UpsertStep globMatch s.tx s.store k data force b s'.tx) : OwnerStep s s' [k] := by
  have hdirty : s'.tx.dirty = true → s.tx.dirty = true ∨ s.tx.snapshotAt k = true := fun hd => by
    simpa [htx.dirty] using hd
  cases b with
  | true =>
    refine .keyed htx.frame (fun k' hk => by rw [htx.written rfl, if_neg hk]) (fun hsnap => ?_) hdirty
    simp [snapshotAt, htx.written rfl] at hsnap
  | false =>
    refine .keyed htx.frame (fun k' hk => by rw [htx.unchanged rfl, if_neg fun h => hk h.1])
      (fun hsnap => ?_) hdirty
    rw [snapshotAt, htx.unchanged rfl] at hsnap
    split_ifs at hsnap with hpinned
    · simp [pin] at hsnap
    · exact hsnap

/-- Every input but a commit is one of the owner. -/
theorem step_owner (hstep : s.step globMatch i = some (s', o)) (hi : ∀ u, i ≠ .commit u) :
    OwnerStep s s' (touches globMatch s i o) := by
  have hframe := step_sameFrame hstep
  cases step_effect hstep with
  | @commit u => exact absurd rfl (hi u)
  | @read k ensure v _ htx =>
    refine .keyed hframe (fun k' hk => by rw [htx.items, if_neg hk]) (fun hsnap => ?_)
      (fun hd => ?_)
    · rw [snapshotAt, htx.items, if_pos rfl, itemAfterRead] at hsnap
      cases hitem : s.tx.items[k]? with
      | none =>
        simp only [hitem] at hsnap
        by_cases hiso : s.tx.isolation = .readCommitted <;> simp [hiso, pin] at hsnap
      | some e =>
        simp only [hitem, decide_eq_true_eq] at hsnap
        simp only [snapshotAt, hitem, decide_eq_true_eq]
        split_ifs at hsnap with hvalue
        · exact hsnap
        · exact absurd hsnap e.observed_ne_snapshot
    · rw [htx.dirty, Bool.or_eq_true, Bool.and_eq_true] at hd
      exact hd.imp_right And.left
  | upsert _ htx => exact .upsert htx
  | upsertIfChanged _ htx => exact .upsert htx
  | @remove k b _ htx =>
    cases b with
    | true =>
      refine .keyed hframe (fun k' hk => by rw [htx.removed rfl, if_neg hk]) (fun hsnap => ?_)
        (fun hd => Or.inl (htx.dirty ▸ hd))
      simp [snapshotAt, htx.removed rfl] at hsnap
    | false => exact .same hframe (by rw [htx.unchanged rfl]) htx.dirty
  | @forEach pattern ret _ _ _ htx =>
    have htouched : ∀ k, scans globMatch pattern k = true →
        (k ∈ s.tx.items ∨ k ∈ s.store.data) →
        k ∈ touches globMatch s (.forEach pattern) (.collected ret) := by
      intro k hscan hk
      simp only [touches, List.mem_filter, List.mem_append, Std.ExtTreeMap.mem_keys]
      exact ⟨hk, hscan⟩
    refine ⟨hframe, fun k hk => ?_, fun k hk => ?_, fun hd => ?_⟩
    · obtain ⟨e, he⟩ := mem_keyMap.mp hk
      rw [htx.items] at he
      cases hitem : s.tx.items[k]? with
      | some e' => exact Or.inl (mem_keyMap.mpr ⟨e', hitem⟩)
      | none =>
        by_cases hscan : scans globMatch pattern k = true
        · simp only [hscan, if_true, hitem, Option.ite_none_left_eq_some,
            Option.map_eq_some_iff] at he
          obtain ⟨-, v, hv, -⟩ := he
          exact Or.inr (htouched k hscan (Or.inr (mem_keyMap.mpr ⟨v, hv⟩)))
        · rw [if_neg hscan, hitem] at he
          cases he
    · rw [snapshotAt, htx.items] at hk
      by_cases hscan : scans globMatch pattern k = true
      · rw [if_pos hscan] at hk
        cases hitem : s.tx.items[k]? with
        | some e =>
          simp only [hitem, decide_eq_true_eq] at hk
          exact absurd hk e.observed_ne_snapshot
        | none =>
          by_cases hiso : s.tx.isolation = .readCommitted
          · simp [hitem, hiso] at hk
          · cases hstored : s.store.data[k]? <;> simp [hitem, hiso, hstored, pin] at hk
      · rwa [if_neg hscan] at hk
    · refine (htx.dirty.mp hd).imp_right ?_
      rintro ⟨k, e, hscan, hitem, hsnap⟩
      exact ⟨k, htouched k hscan (Or.inl (mem_keyMap.mpr ⟨e, hitem⟩)),
        by simp [snapshotAt, hitem, hsnap]⟩
  | ensure _ htx => exact .same hframe (by rw [htx]) (by rw [htx])
  | empty hsame => exact .same hframe (by rw [hsame]) (by rw [hsame])
  | visit _ hsame => exact .same hframe (by rw [hsame]) (by rw [hsame])
  | stop _ hsame => exact .same hframe (by rw [hsame]) (by rw [hsame])
  | thrown hsame => exact .same hframe (by rw [hsame]) (by rw [hsame])

end OpenTx

/-- An open transaction with the keys it has touched, the keys that commits have changed, and the
keys that were changed after they had been touched. -/
structure Footprint where
  run : OpenTx
  touched : List Key := []
  changed : List Key := []
  overtaken : List Key := []

namespace Footprint

open Transaction

/-- The footprint of a transaction just created. -/
def start (store : Store) (isolation : Isolation) (readOnly : Bool) (user : Option User) : Footprint :=
  { run := OpenTx.start store isolation readOnly user }

/-- Record an answered input. -/
def record (globMatch : Glob) (a : Footprint) (i : TxInput) (run : OpenTx) (o : TxAnswer) :
    Footprint :=
  { run := run
    touched := a.touched ++ touches globMatch a.run i o
    changed := a.changed ++ deliveredKeys o
    overtaken := a.overtaken ++ (deliveredKeys o).filter fun k => k ∈ a.touched }

/-- One input. -/
def step (globMatch : Glob) (a : Footprint) (i : TxInput) : Option Footprint :=
  (a.run.step globMatch i).map fun answer => a.record globMatch i answer.1 answer.2

/-- Some ensure pattern guards the key. -/
def guards (globMatch : Glob) (tx : Transaction) (k : Key) : Bool :=
  tx.ensures.toList.any fun e => globMatch k e

/-- A delivered commit changed a key touched before, at the level SERIALIZABLE also one touched
later, or a guarded key. -/
def conflicted (globMatch : Glob) (a : Footprint) : Bool :=
  a.overtaken ≠ [] ||
    (a.run.tx.isolation = .serializable && a.changed.any fun k => k ∈ a.touched) ||
    a.changed.any (guards globMatch a.run.tx)

/-- A dirty transaction is in conflict. -/
def Honest (globMatch : Glob) (a : Footprint) : Prop :=
  a.run.tx.dirty = true → a.conflicted globMatch = true

/-- A commit to a serializable transaction that is neither dirty nor in conflict yet: it changes a
touched or guarded key, or it repeats no key, neither of an earlier commit nor of its own. -/
def commitsOnce (globMatch : Glob) (a : Footprint) : TxInput → Bool
  | .commit u =>
    a.run.tx.isolation ≠ .serializable || a.run.tx.dirty || a.conflicted globMatch ||
      match a.run.store.update u with
      | (_, .ok (changes, _)) =>
        ((changedKeys changes).any fun k => k ∈ a.touched || guards globMatch a.run.tx k) ||
          ((changedKeys changes).Nodup && (changedKeys changes).all fun k => k ∉ a.changed)
      | (_, .error _) => true
  | _ => true

/-- What holds in every run. -/
structure Traced (a : Footprint) : Prop where
  opened : a.run.tx.state = .opened
  /-- An item is of a touched key, or the snapshot of a changed one. -/
  items : ∀ k ∈ a.run.tx.items,
    k ∈ a.touched ∨ a.run.tx.isolation = .serializable ∧ k ∈ a.changed
  /-- A snapshot is of a changed key. -/
  snapshots : ∀ k, a.run.tx.snapshotAt k = true →
    a.run.tx.isolation = .serializable ∧ k ∈ a.changed
  /-- A serializable transaction has items for the changed keys. -/
  held : a.run.tx.isolation = .serializable → ∀ k ∈ a.changed, k ∈ a.run.tx.items

variable {globMatch : Glob} {a a' : Footprint} {run' : OpenTx} {i : TxInput} {o : TxAnswer}

/-- A transaction just created has touched nothing. -/
theorem traced_start (store : Store) (isolation : Isolation) (readOnly : Bool) (user : Option User) :
    (start store isolation readOnly user).Traced := by
  refine ⟨rfl, fun k hk => ?_, fun k hk => ?_, fun _ k hk => ?_⟩
  · simp [start, OpenTx.start, Transaction.create] at hk
  · simp [start, OpenTx.start, Transaction.create, snapshotAt] at hk
  · simp [start] at hk

/-- An ensure pattern is never dropped. -/
theorem guards_step (hstep : a.run.step globMatch i = some (run', o)) {k : Key}
    (hk : guards globMatch a.run.tx k = true) : guards globMatch run'.tx k = true := by
  have hkept : ∀ e ∈ a.run.tx.ensures, e ∈ run'.tx.ensures := OpenTx.step_ensures hstep
  unfold guards at hk ⊢
  rw [List.any_eq_true] at hk ⊢
  obtain ⟨e, he, hmatch⟩ := hk
  exact ⟨e, by simpa using hkept e (by simpa using he), hmatch⟩

/-- The three kinds of conflict. -/
theorem conflicted_iff : a.conflicted globMatch = true ↔
    a.overtaken ≠ [] ∨ (a.run.tx.isolation = .serializable ∧ ∃ k ∈ a.changed, k ∈ a.touched) ∨
      ∃ k ∈ a.changed, guards globMatch a.run.tx k = true := by
  simp [conflicted, or_assoc]

/-- A conflict stays. -/
theorem conflicted_record (hstep : a.run.step globMatch i = some (run', o))
    (h : a.conflicted globMatch = true) : (a.record globMatch i run' o).conflicted globMatch = true := by
  have hiso : run'.tx.isolation = a.run.tx.isolation := by rw [OpenTx.step_sameFrame hstep]
  rw [conflicted_iff] at h ⊢
  dsimp only [record]
  rcases h with hovertaken | ⟨hlevel, k, hchanged, htouched⟩ | ⟨k, hchanged, hguard⟩
  · exact Or.inl (by simp [hovertaken])
  · exact Or.inr (Or.inl ⟨hiso.trans hlevel, k, List.mem_append_left _ hchanged,
      List.mem_append_left _ htouched⟩)
  · exact Or.inr (Or.inr ⟨k, List.mem_append_left _ hchanged, guards_step hstep hguard⟩)

/-- An input of the owner delivers nothing. -/
theorem deliveredKeys_owner (hstep : a.run.step globMatch i = some (run', o))
    (hi : ∀ u, i ≠ .commit u) : deliveredKeys o = [] := by
  cases OpenTx.step_effect hstep with
  | @commit u => exact absurd rfl (hi u)
  | _ => rfl

/-- An input of the owner keeps the trace. -/
theorem Traced.owner (h : a.Traced) (hstep : a.run.step globMatch i = some (run', o))
    (hi : ∀ u, i ≠ .commit u) : (a.record globMatch i run' o).Traced := by
  have howner := OpenTx.step_owner hstep hi
  have hiso : run'.tx.isolation = a.run.tx.isolation := by rw [howner.frame]
  have hchanged : (a.record globMatch i run' o).changed = a.changed := by
    simp [record, deliveredKeys_owner hstep hi]
  refine ⟨?_, fun k hk => ?_, fun k hk => ?_, fun hlevel k hk => ?_⟩
  · dsimp only [record]
    rw [howner.frame]
    exact h.opened
  · rw [hchanged]
    dsimp only [record] at hk ⊢
    rw [hiso, List.mem_append]
    rcases howner.items k hk with hk | hk
    · exact (h.items k hk).imp_left Or.inl
    · exact Or.inl (Or.inr hk)
  · rw [hchanged]
    dsimp only [record] at hk ⊢
    rw [hiso]
    exact h.snapshots k (howner.snapshots k hk)
  · rw [hchanged] at hk
    exact OpenTx.step_items hstep (h.held (hiso ▸ hlevel) k hk)

/-- A delivered commit keeps the trace. -/
theorem Traced.commit {u : Update} {changes : List Change} (h : a.Traced)
    (htx : UpdateStep globMatch a.run.tx changes run'.tx) :
    (a.record globMatch (.commit u) run' (.delivered changes)).Traced := by
  have hiso : run'.tx.isolation = a.run.tx.isolation := by rw [htx.frame]
  have hchanged : (a.record globMatch (.commit u) run' (.delivered changes)).changed =
      a.changed ++ changedKeys changes := rfl
  have htouched : (a.record globMatch (.commit u) run' (.delivered changes)).touched =
      a.touched := by simp [record, touches]
  -- an item is an old one or the snapshot of a changed key
  have hnew : ∀ k e, run'.tx.items[k]? = some e → a.run.tx.items[k]? = some e ∨
      a.run.tx.isolation = .serializable ∧ k ∈ changedKeys changes := by
    intro k e he
    rw [htx.items] at he
    split_ifs at he with hlevel
    · cases hitem : a.run.tx.items[k]? with
      | some e' => exact Or.inl (by simpa [hitem] using he)
      | none =>
        cases hfirst : firstChange changes k with
        | none => simp [hitem, hfirst] at he
        | some c =>
          obtain ⟨hc, rfl⟩ := firstChange_eq_some hfirst
          exact Or.inr ⟨hlevel, mem_changedKeys.mpr ⟨c, hc, rfl⟩⟩
    · exact Or.inl he
  refine ⟨?_, fun k hk => ?_, fun k hk => ?_, fun hlevel k hk => ?_⟩
  · dsimp only [record]
    rw [htx.frame]
    exact h.opened
  · rw [hchanged, htouched, List.mem_append]
    dsimp only [record] at hk ⊢
    rw [hiso]
    obtain ⟨e, he⟩ := mem_keyMap.mp hk
    rcases hnew k e he with hold | ⟨hlevel, hk⟩
    · exact (h.items k (mem_keyMap.mpr ⟨e, hold⟩)).imp_right (And.imp_right Or.inl)
    · exact Or.inr ⟨hlevel, Or.inr hk⟩
  · rw [hchanged, List.mem_append]
    dsimp only [record] at hk ⊢
    rw [hiso]
    unfold snapshotAt at hk
    cases hitem : run'.tx.items[k]? with
    | none => simp [hitem] at hk
    | some e =>
      rcases hnew k e hitem with hold | ⟨hlevel, hk⟩
      · have hsnap : a.run.tx.snapshotAt k = true := by simpa [snapshotAt, hold, hitem] using hk
        exact (h.snapshots k hsnap).imp_right Or.inl
      · exact ⟨hlevel, Or.inr hk⟩
  · have hlevel : a.run.tx.isolation = .serializable := hiso.symm.trans hlevel
    rw [hchanged, List.mem_append] at hk
    dsimp only [record]
    rw [mem_keyMap, htx.items, if_pos hlevel]
    rcases hk with hk | hk
    · obtain ⟨e, he⟩ := mem_keyMap.mp (h.held hlevel k hk)
      exact ⟨e, by rw [he]; rfl⟩
    · cases hitem : a.run.tx.items[k]? with
      | some e => exact ⟨e, rfl⟩
      | none =>
        cases hfirst : firstChange changes k with
        | none => exact absurd hk (firstChange_eq_none.mp hfirst)
        | some c => exact ⟨_, rfl⟩

/-- Every input keeps the trace. -/
theorem Traced.step (h : a.Traced) (hstep : a.step globMatch i = some a') : a'.Traced := by
  obtain ⟨⟨run', o⟩, hrun, rfl⟩ := Option.map_eq_some_iff.mp hstep
  by_cases hi : ∀ u, i ≠ .commit u
  · exact h.owner hrun hi
  · push Not at hi
    obtain ⟨u, rfl⟩ := hi
    cases OpenTx.step_effect hrun with
    | commit _ hstore htx _ =>
      have hupdate := update_spec globMatch h.opened (Store.update_ok hstore).2.wellFormed
      exact h.commit (htx ▸ hupdate)
    | thrown hsame =>
      refine ⟨?_, ?_, ?_, ?_⟩ <;> simp only [record, hsame, touches, deliveredKeys, List.append_nil]
      · exact h.opened
      · exact h.items
      · exact h.snapshots
      · exact h.held

/-- A broken ensure is a changed key that is guarded. -/
theorem ensureBroken_iff {tx : Transaction} {changes : List Change} :
    tx.ensureBroken globMatch changes = true ↔
      ∃ k ∈ changedKeys changes, guards globMatch tx k = true := by
  simp [ensureBroken, guards, changedKeys]

/-- An input of the owner marks the transaction only for a conflict. -/
theorem Honest.owner (htraced : a.Traced) (h : a.Honest globMatch)
    (hstep : a.run.step globMatch i = some (run', o)) (hi : ∀ u, i ≠ .commit u) :
    (a.record globMatch i run' o).Honest globMatch := by
  intro hdirty
  have howner := OpenTx.step_owner hstep hi
  rcases howner.dirty hdirty with hdirty | ⟨k, htouched, hsnap⟩
  · exact conflicted_record hstep (h hdirty)
  · -- a snapshot is touched, of a key that an earlier commit changed
    obtain ⟨hlevel, hchanged⟩ := htraced.snapshots k hsnap
    have hiso : run'.tx.isolation = a.run.tx.isolation := by rw [howner.frame]
    exact conflicted_iff.mpr (Or.inr (Or.inl ⟨hiso.trans hlevel, k, List.mem_append_left _ hchanged,
      List.mem_append_right _ htouched⟩))

section Commit

variable {u : Update} {changes : List Change}

/-- After a delivered commit: the conflicts before it, and the touched and guarded keys it
changes. -/
theorem conflicted_commit (htx : UpdateStep globMatch a.run.tx changes run'.tx)
    (hnone : a.conflicted globMatch ≠ true) :
    (a.record globMatch (.commit u) run' (.delivered changes)).conflicted globMatch = true ↔
      ∃ k ∈ changedKeys changes, k ∈ a.touched ∨ guards globMatch a.run.tx k = true := by
  have hiso : run'.tx.isolation = a.run.tx.isolation := by rw [htx.frame]
  have hguards : ∀ k, guards globMatch run'.tx k = guards globMatch a.run.tx k := fun k => by
    rw [guards, htx.frame, guards]
  rw [Ne, conflicted_iff] at hnone
  rw [conflicted_iff]
  push Not at hnone
  obtain ⟨hovertaken, hserializable, hguarded⟩ := hnone
  have hrecord : a.record globMatch (.commit u) run' (.delivered changes) =
      ⟨run', a.touched, a.changed ++ changedKeys changes,
        (changedKeys changes).filter fun k => k ∈ a.touched⟩ := by
    simp [record, touches, deliveredKeys, hovertaken]
  rw [hrecord]
  dsimp only
  rw [hiso]
  simp only [hguards]
  constructor
  · rintro (hfilter | ⟨hlevel, k, hk, htouched⟩ | ⟨k, hk, hguard⟩)
    · obtain ⟨k, hk⟩ := List.exists_mem_of_ne_nil _ hfilter
      obtain ⟨hk, htouched⟩ := List.mem_filter.mp hk
      exact ⟨k, hk, Or.inl (by simpa using htouched)⟩
    · rcases List.mem_append.mp hk with hk | hk
      · exact absurd htouched (hserializable hlevel k hk)
      · exact ⟨k, hk, Or.inl htouched⟩
    · rcases List.mem_append.mp hk with hk | hk
      · exact absurd hguard (hguarded k hk)
      · exact ⟨k, hk, Or.inr hguard⟩
  · rintro ⟨k, hk, htouched | hguard⟩
    · exact Or.inl (List.ne_nil_of_mem (List.mem_filter.mpr ⟨hk, by simpa using htouched⟩))
    · exact Or.inr (Or.inr ⟨k, List.mem_append_right _ hk, hguard⟩)

/-- A transaction that is not serializable is marked for touched and guarded keys only. -/
theorem Honest.commit_default (htraced : a.Traced)
    (htx : UpdateStep globMatch a.run.tx changes run'.tx)
    (hnone : a.conflicted globMatch ≠ true) (hclean : a.run.tx.dirty ≠ true)
    (hlevel : a.run.tx.isolation ≠ .serializable) :
    (a.record globMatch (.commit u) run' (.delivered changes)).Honest globMatch := by
  intro hdirty
  rw [conflicted_commit htx hnone]
  rcases htx.dirty.mp hdirty with hdirty | ⟨c, hc, hmem⟩ | ⟨hser, -⟩ | hbroken
  · exact absurd hdirty hclean
  · rcases htraced.items c.key hmem with htouched | ⟨hser, -⟩
    · exact ⟨c.key, mem_changedKeys.mpr ⟨c, hc, rfl⟩, Or.inl htouched⟩
    · exact absurd hser hlevel
  · exact absurd hser hlevel
  · obtain ⟨k, hk, hguard⟩ := ensureBroken_iff.mp hbroken
    exact ⟨k, hk, Or.inr hguard⟩

/-- A serializable transaction is marked for touched and guarded keys, and for repeated ones. -/
theorem dirty_commit_serializable (htraced : a.Traced)
    (htx : UpdateStep globMatch a.run.tx changes run'.tx) (hclean : a.run.tx.dirty ≠ true)
    (hlevel : a.run.tx.isolation = .serializable) :
    run'.tx.dirty = true ↔
      (∃ k ∈ changedKeys changes, k ∈ a.touched ∧ k ∈ a.run.tx.items) ∨
        (∃ k ∈ changedKeys changes, guards globMatch a.run.tx k = true) ∨
        ¬((changedKeys changes).Nodup ∧ ∀ k ∈ changedKeys changes, k ∉ a.changed) := by
  rw [htx.dirty]
  constructor
  · rintro (hdirty | ⟨c, hc, hmem⟩ | ⟨-, hrepeated⟩ | hbroken)
    · exact absurd hdirty hclean
    · have hk : c.key ∈ changedKeys changes := mem_changedKeys.mpr ⟨c, hc, rfl⟩
      rcases htraced.items c.key hmem with htouched | ⟨-, hchanged⟩
      · exact Or.inl ⟨c.key, hk, htouched, hmem⟩
      · exact Or.inr (Or.inr fun h => h.2 c.key hk hchanged)
    · exact Or.inr (Or.inr fun h => hrepeated h.1)
    · exact Or.inr (Or.inl (ensureBroken_iff.mp hbroken))
  · rintro (⟨k, hk, -, hmem⟩ | hguarded | hrepeated)
    · obtain ⟨c, hc, rfl⟩ := mem_changedKeys.mp hk
      exact Or.inr (Or.inl ⟨c, hc, hmem⟩)
    · exact Or.inr (Or.inr (Or.inr (ensureBroken_iff.mpr hguarded)))
    · by_cases hnodup : (changedKeys changes).Nodup
      · simp only [hnodup, true_and, not_forall, not_not] at hrepeated
        obtain ⟨k, hk, hchanged⟩ := hrepeated
        obtain ⟨c, hc, rfl⟩ := mem_changedKeys.mp hk
        exact Or.inr (Or.inl ⟨c, hc, htraced.held hlevel _ hchanged⟩)
      · exact Or.inr (Or.inr (Or.inl ⟨hlevel, hnodup⟩))

/-- A delivered commit leaves the transaction honest exactly when it meets the condition. -/
theorem honest_commit_iff {m : Meta} {store : Store} (htraced : a.Traced) (h : a.Honest globMatch)
    (hstore : a.run.store.update u = (store, .ok (changes, m)))
    (htx : UpdateStep globMatch a.run.tx changes run'.tx)
    (hstep : a.run.step globMatch (.commit u) = some (run', .delivered changes)) :
    (a.record globMatch (.commit u) run' (.delivered changes)).Honest globMatch ↔
      commitsOnce globMatch a (.commit u) = true := by
  by_cases hnone : a.conflicted globMatch = true
  · exact iff_of_true (fun _ => conflicted_record hstep hnone) (by simp [commitsOnce, hnone])
  have hclean : a.run.tx.dirty ≠ true := fun hdirty => hnone (h hdirty)
  by_cases hlevel : a.run.tx.isolation = .serializable
  swap
  · exact iff_of_true (Honest.commit_default htraced htx hnone hclean hlevel)
      (by simp [commitsOnce, hlevel])
  have hcheck : commitsOnce globMatch a (.commit u) = true ↔
      (∃ k ∈ changedKeys changes, k ∈ a.touched ∨ guards globMatch a.run.tx k = true) ∨
        ((changedKeys changes).Nodup ∧ ∀ k ∈ changedKeys changes, k ∉ a.changed) := by
    simp [commitsOnce, hlevel, hclean, hnone, hstore]
  have hdirty : run'.tx.dirty = true ↔ _ := dirty_commit_serializable htraced htx hclean hlevel
  unfold Honest
  rw [conflicted_commit htx hnone, hcheck]
  dsimp only [record]
  rw [hdirty]
  constructor
  · intro hhonest
    by_cases honce : (changedKeys changes).Nodup ∧ ∀ k ∈ changedKeys changes, k ∉ a.changed
    · exact Or.inr honce
    · exact Or.inl (hhonest (Or.inr (Or.inr honce)))
  · rintro (hconflict | honce)
    · exact fun _ => hconflict
    · rintro (⟨k, hk, htouched, -⟩ | ⟨k, hk, hguard⟩ | hrepeated)
      · exact ⟨k, hk, Or.inl htouched⟩
      · exact ⟨k, hk, Or.inr hguard⟩
      · exact absurd honce hrepeated

end Commit

/-- A step leaves the transaction honest exactly when it meets the condition. -/
theorem honest_step_iff (htraced : a.Traced) (h : a.Honest globMatch)
    (hstep : a.step globMatch i = some a') :
    a'.Honest globMatch ↔ commitsOnce globMatch a i = true := by
  obtain ⟨⟨run', o⟩, hrun, rfl⟩ := Option.map_eq_some_iff.mp hstep
  by_cases hi : ∀ u, i ≠ .commit u
  · refine iff_of_true (h.owner htraced hrun hi) ?_
    cases i with
    | commit u => exact absurd rfl (hi u)
    | _ => rfl
  · push Not at hi
    obtain ⟨u, rfl⟩ := hi
    cases OpenTx.step_effect hrun with
    | commit _ hstore htx _ =>
      have hupdate := update_spec globMatch htraced.opened (Store.update_ok hstore).2.wellFormed
      exact honest_commit_iff htraced h hstore (htx ▸ hupdate) hrun
    | thrown =>
      -- a commit never throws on the owner's thread
      simp only [OpenTx.step] at hrun
      split_ifs at hrun
      split at hrun <;> simp at hrun

/-- The step leaves the transaction honest. -/
def staysHonest (globMatch : Glob) (a : Footprint) (i : TxInput) : Prop :=
  ∀ a', a.step globMatch i = some a' → a'.Honest globMatch

/-- Along a run the transaction is never dirty without a conflict exactly when every commit meets
the condition. -/
theorem no_spurious_conflict_iff (globMatch : Glob) (store : Store) (isolation : Isolation)
    (readOnly : Bool) (user : Option User) (inputs : List TxInput) (a : Footprint) :
    Run (step globMatch) (staysHonest globMatch) (start store isolation readOnly user) inputs a ↔
      Run (step globMatch) (fun a i => commitsOnce globMatch a i = true)
        (start store isolation readOnly user) inputs a := by
  have hstart : (start store isolation readOnly user).Traced ∧
      (start store isolation readOnly user).Honest globMatch :=
    ⟨traced_start store isolation readOnly user, fun hdirty => by cases hdirty⟩
  constructor
  · refine Run.change (fun a => a.Traced ∧ a.Honest globMatch) ?_ ?_ hstart
    · rintro a i a' hstays hstep ⟨htraced, -⟩
      exact ⟨htraced.step hstep, hstays a' hstep⟩
    · rintro a i a' ⟨htraced, hhonest⟩ hstep hstays
      exact (honest_step_iff htraced hhonest hstep).mp (hstays a' hstep)
  · refine Run.change (fun a => a.Traced ∧ a.Honest globMatch) ?_ ?_ hstart
    · rintro a i a' honce hstep ⟨htraced, hhonest⟩
      exact ⟨htraced.step hstep, (honest_step_iff htraced hhonest hstep).mpr honce⟩
    · rintro a i a' ⟨htraced, hhonest⟩ hstep honce a'' hstep'
      obtain rfl : a' = a'' := Option.some.inj (hstep.symm.trans hstep')
      exact (honest_step_iff htraced hhonest hstep).mpr honce

/-- A serializable transaction that has touched nothing, and two commits that change the same key:
it is dirty. -/
theorem untouched_key_changed_twice :
    ¬∀ (inputs : List TxInput) (a : Footprint),
      Run (step fun _ _ => false) anyStep (start Store.empty .serializable false none) inputs a →
        a.Honest fun _ _ => false := by
  intro h
  have hexec : (execute (step fun _ _ => false) (fun _ _ => true)
      (start Store.empty .serializable false none)
      [.commit (.writing 1 [[97]] [1]), .commit (.writing 2 [[97]] [2])]).map
        (fun a => (a.run.tx.dirty, a.conflicted fun _ _ => false)) = some (true, false) := by
    decide +kernel
  obtain ⟨a, hrun, hend⟩ := exists_run_of_execute (fun _ _ _ => trivial) hexec
  obtain ⟨hdirty, hconflict⟩ := Prod.mk.inj hend
  have hhonest := h _ a hrun hdirty
  rw [hconflict] at hhonest
  cases hhonest

end Footprint

end Nplex
