import Nplex.Transaction.Facts
import Nplex.Common.Machine

/-!
# An open transaction in use

One transaction used by its owner while commits arrive: every commit is applied by
`store_t::update` and delivered at once by `transaction_impl::update`. A `for_each` runs in
several inputs, so that its callback can do anything: it first collects its pairs, then
calls the callback on one pair after the other, and ends when the callback stops it or no
pair is left. It holds the store mutex all along, so no commit is applied meanwhile.
-/

namespace Nplex

/-- The store, the transaction, and the pairs that the running `for_each` calls have still to
visit, innermost call first. -/
structure OpenTx where
  store : Store
  tx : Transaction
  iterating : List (List (Key × Value)) := []

/-- What the owner and the event loop may do. -/
inductive TxInput
  /-- A commit is applied and delivered. -/
  | commit (u : Update)
  | read (key : Key) (ensure : Bool)
  | upsert (key data : Bytes)
  | upsertIfChanged (key data : Bytes)
  | remove (key : Key)
  | ensure (pattern : Option Bytes)
  /-- `for_each` collects its pairs. -/
  | forEach (pattern : Bytes)
  /-- The innermost `for_each` calls its callback on the next pair. -/
  | visit
  /-- The innermost `for_each` ends. -/
  | stop
  deriving DecidableEq, Repr

/-- What they get back. -/
inductive TxAnswer
  | thrown (e : TxError)
  | value (v : Option Value)
  | flag (b : Bool)
  | done
  | collected (ret : List (Key × Value))
  | called (key : Key) (value : Value)
  | delivered (changes : List Change)
  deriving DecidableEq, Repr

namespace OpenTx

/-- A transaction just created. -/
def start (store : Store) (isolation : Isolation) (readOnly : Bool) (user : Option User) : OpenTx :=
  { store := store, tx := Transaction.create store isolation readOnly user }

/-- Answer a method that returns the transaction and a result. -/
def answer {A : Type} (s : OpenTx) (f : A → TxAnswer) (r : Except TxError (A × Transaction)) :
    Option (OpenTx × TxAnswer) :=
  match r with
  | .ok (a, tx) => some ({ s with tx := tx }, f a)
  | .error e => some (s, .thrown e)

/-- One input. A commit that the store refuses, a commit during a `for_each`, and a visit or an
end without a `for_each` are not inputs. -/
def step (globMatch : Glob) (s : OpenTx) : TxInput → Option (OpenTx × TxAnswer)
  | .commit u =>
    if s.iterating ≠ [] then none
    else
      match s.store.update u with
      | (store, .ok (changes, _)) =>
        some ({ s with store := store, tx := s.tx.update globMatch changes }, .delivered changes)
      | (_, .error _) => none
  | .read key ensure => s.answer .value (s.tx.read s.store key ensure)
  | .upsert key data =>
    s.answer (fun _ => .done) ((s.tx.upsert globMatch s.store key data).map fun tx => ((), tx))
  | .upsertIfChanged key data =>
    s.answer .flag (s.tx.upsertIfChanged globMatch s.store key data)
  | .remove key => s.answer .flag (s.tx.remove globMatch s.store key)
  | .ensure pattern => s.answer .flag (s.tx.ensure pattern)
  | .forEach pattern =>
    if pattern.isEmpty then some ({ s with iterating := [] :: s.iterating }, .collected [])
    else if s.tx.state ≠ .opened then some (s, .thrown .notOpen)
    else
      let (kvs, tx) := s.tx.forEachInternal globMatch s.store pattern
      some ({ s with tx := tx, iterating := kvs :: s.iterating }, .collected kvs)
  | .visit =>
    match s.iterating with
    | ((key, value) :: rest) :: outer =>
      some ({ s with iterating := rest :: outer }, .called key value)
    | _ => none
  | .stop =>
    match s.iterating with
    | _ :: outer => some ({ s with iterating := outer }, .done)
    | [] => none

variable {globMatch : Glob} {s s' : OpenTx} {o : TxAnswer}

/-- What an input does, one case for each kind of effect. -/
inductive Effect (globMatch : Glob) (s s' : OpenTx) : TxInput → TxAnswer → Prop
  | commit {u : Update} {changes : List Change} {m : Meta} (hidle : s.iterating = [])
      (hstore : s.store.update u = (s'.store, .ok (changes, m)))
      (htx : s'.tx = s.tx.update globMatch changes) (hiter : s'.iterating = s.iterating) :
      Effect globMatch s s' (.commit u) (.delivered changes)
  | read {k : Key} {ensure : Bool} {v : Option Value} (hsame : s' = { s with tx := s'.tx })
      (htx : Transaction.ReadStep s.tx s.store k ensure v s'.tx) :
      Effect globMatch s s' (.read k ensure) (.value v)
  | upsert {k data : Bytes} (hsame : s' = { s with tx := s'.tx })
      (htx : Transaction.UpsertStep globMatch s.tx s.store k data true true s'.tx) :
      Effect globMatch s s' (.upsert k data) .done
  | upsertIfChanged {k data : Bytes} {b : Bool} (hsame : s' = { s with tx := s'.tx })
      (htx : Transaction.UpsertStep globMatch s.tx s.store k data false b s'.tx) :
      Effect globMatch s s' (.upsertIfChanged k data) (.flag b)
  | remove {k : Key} {b : Bool} (hsame : s' = { s with tx := s'.tx })
      (htx : Transaction.RemoveStep globMatch s.tx s.store k b s'.tx) :
      Effect globMatch s s' (.remove k) (.flag b)
  | forEach {pattern : Bytes} {ret : List (Key × Value)} (hpattern : pattern ≠ [])
      (hopen : s.tx.state = .opened)
      (hsame : s' = { s with tx := s'.tx, iterating := ret :: s.iterating })
      (htx : Transaction.Collected globMatch s.tx s.store pattern ret s'.tx) :
      Effect globMatch s s' (.forEach pattern) (.collected ret)
  | ensure {pattern : Option Bytes} {b : Bool} (hsame : s' = { s with tx := s'.tx })
      (htx : s'.tx = { s.tx with ensures := s'.tx.ensures }) :
      Effect globMatch s s' (.ensure pattern) (.flag b)
  | empty (hsame : s' = { s with iterating := [] :: s.iterating }) :
      Effect globMatch s s' (.forEach []) (.collected [])
  | visit {k : Key} {v : Value} {rest : List (Key × Value)} {outer : List (List (Key × Value))}
      (hiter : s.iterating = ((k, v) :: rest) :: outer)
      (hsame : s' = { s with iterating := rest :: outer }) :
      Effect globMatch s s' .visit (.called k v)
  | stop {inner : List (Key × Value)} {outer : List (List (Key × Value))}
      (hiter : s.iterating = inner :: outer) (hsame : s' = { s with iterating := outer }) :
      Effect globMatch s s' .stop .done
  | thrown {i : TxInput} {e : TxError} (hsame : s' = s) : Effect globMatch s s' i (.thrown e)

/-- A method either throws and changes nothing, or returns a result and the transaction. -/
theorem answer_eq {A : Type} {f : A → TxAnswer} {r : Except TxError (A × Transaction)}
    (h : s.answer f r = some (s', o)) :
    (∃ e, r = .error e ∧ s' = s ∧ o = .thrown e) ∨
      ∃ a tx, r = .ok (a, tx) ∧ s' = { s with tx := tx } ∧ o = f a := by
  rcases r with e | ⟨a, tx⟩
  · simp only [answer, Option.some.injEq, Prod.mk.injEq] at h
    exact Or.inl ⟨e, rfl, h.1.symm, h.2.symm⟩
  · simp only [answer, Option.some.injEq, Prod.mk.injEq] at h
    exact Or.inr ⟨a, tx, rfl, h.1.symm, h.2.symm⟩

/-- Every answered input has its effect. -/
theorem step_effect {i : TxInput} (h : s.step globMatch i = some (s', o)) :
    Effect globMatch s s' i o := by
  cases i with
  | commit u =>
    simp only [step] at h
    split_ifs at h with hidle
    cases hupdate : s.store.update u with
    | mk store result =>
      cases result with
      | error e => simp [hupdate] at h
      | ok r =>
        obtain ⟨changes, m⟩ := r
        simp only [hupdate, Option.some.injEq, Prod.mk.injEq] at h
        obtain ⟨rfl, rfl⟩ := h
        exact .commit (by simpa using hidle) hupdate rfl rfl
  | read k ensure =>
    rcases answer_eq h with ⟨e, -, rfl, rfl⟩ | ⟨v, tx, hread, rfl, rfl⟩
    · exact .thrown rfl
    · exact .read rfl (Transaction.read_ok hread)
  | upsert k data =>
    rcases answer_eq h with ⟨e, -, rfl, rfl⟩ | ⟨_, tx, hupsert, rfl, rfl⟩
    · exact .thrown rfl
    · unfold Transaction.upsert at hupsert
      cases hinternal : s.tx.upsertInternal globMatch s.store k data true with
      | error e => simp [hinternal, Except.map] at hupsert
      | ok r =>
        obtain ⟨b, tx₁⟩ := r
        simp only [hinternal, Except.map, Except.ok.injEq, Prod.mk.injEq, true_and] at hupsert
        subst hupsert
        have hstep := Transaction.upsertInternal_ok hinternal
        -- a forced upsert always writes
        have hb : b = true := by
          by_contra hb
          simpa using (hstep.flag.mp (by simpa using hb)).1
        subst hb
        exact .upsert rfl hstep
  | upsertIfChanged k data =>
    rcases answer_eq h with ⟨e, -, rfl, rfl⟩ | ⟨b, tx, hupsert, rfl, rfl⟩
    · exact .thrown rfl
    · exact .upsertIfChanged rfl (Transaction.upsertInternal_ok hupsert)
  | remove k =>
    rcases answer_eq h with ⟨e, -, rfl, rfl⟩ | ⟨b, tx, hremove, rfl, rfl⟩
    · exact .thrown rfl
    · exact .remove rfl (Transaction.remove_ok hremove)
  | ensure pattern =>
    rcases answer_eq h with ⟨e, -, rfl, rfl⟩ | ⟨b, tx, hensure, rfl, rfl⟩
    · exact .thrown rfl
    · refine .ensure rfl ?_
      cases pattern with
      | none =>
        simp only [Transaction.ensure, Except.ok.injEq, Prod.mk.injEq] at hensure
        obtain ⟨-, rfl⟩ := hensure
        rfl
      | some p =>
        simp only [Transaction.ensure] at hensure
        split_ifs at hensure with hopen
        simp only [Except.ok.injEq, Prod.mk.injEq] at hensure
        obtain ⟨-, rfl⟩ := hensure
        exact Transaction.addEnsure_eq _ _
  | forEach pattern =>
    simp only [step] at h
    split_ifs at h with hempty hopen
    · simp only [Option.some.injEq, Prod.mk.injEq] at h
      obtain ⟨rfl, rfl⟩ := h
      obtain rfl : pattern = [] := by simpa using hempty
      exact .empty rfl
    · simp only [Option.some.injEq, Prod.mk.injEq] at h
      obtain ⟨rfl, rfl⟩ := h
      exact .thrown rfl
    · simp only [Option.some.injEq, Prod.mk.injEq] at h
      obtain ⟨rfl, rfl⟩ := h
      have hpattern : pattern ≠ [] := by simpa using hempty
      exact .forEach hpattern (by simpa using hopen) rfl (Transaction.forEachInternal_collected hpattern)
  | visit =>
    simp only [step] at h
    split at h
    · next k v rest outer hiter =>
      simp only [Option.some.injEq, Prod.mk.injEq] at h
      obtain ⟨rfl, rfl⟩ := h
      exact .visit hiter rfl
    · simp at h
  | stop =>
    simp only [step] at h
    split at h
    · next inner outer hiter =>
      simp only [Option.some.injEq, Prod.mk.injEq] at h
      obtain ⟨rfl, rfl⟩ := h
      exact .stop hiter rfl
    · simp at h

/-- What a delivered commit does to a transaction, open or not. -/
theorem update_cases {u : Update} {store : Store} {changes : List Change} {m : Meta}
    (h : s.store.update u = (store, .ok (changes, m))) (tx : Transaction) :
    tx.update globMatch changes = tx ∨
      Transaction.UpdateStep globMatch tx changes (tx.update globMatch changes) := by
  by_cases hopen : tx.state = .opened
  · exact Or.inr (Transaction.update_spec globMatch hopen (Store.update_ok h).2.wellFormed)
  · exact Or.inl (Transaction.update_of_not_open hopen)

/-- An input touches the items, ensure patterns and dirty flag of the transaction only. -/
theorem step_sameFrame {i : TxInput} (h : s.step globMatch i = some (s', o)) :
    Transaction.SameFrame s.tx s'.tx := by
  cases step_effect h with
  | commit _ hstore htx _ =>
    rw [htx]
    rcases update_cases hstore s.tx with hsame | hupdate
    · rw [hsame, Transaction.SameFrame]
    · rw [Transaction.SameFrame, hupdate.frame]
  | read _ htx => exact htx.frame
  | upsert _ htx => exact htx.frame
  | upsertIfChanged _ htx => exact htx.frame
  | remove _ htx => exact htx.frame
  | forEach _ _ _ htx => rw [Transaction.SameFrame, htx.frame]
  | ensure _ htx => rw [Transaction.SameFrame, htx]
  | empty hsame => rw [Transaction.SameFrame, hsame]
  | visit _ hsame => rw [Transaction.SameFrame, hsame]
  | stop _ hsame => rw [Transaction.SameFrame, hsame]
  | thrown hsame => rw [Transaction.SameFrame, hsame]

/-- No input changes the state of the transaction. -/
theorem step_state {i : TxInput} (h : s.step globMatch i = some (s', o)) :
    s'.tx.state = s.tx.state := by
  rw [step_sameFrame h]

/-- A dirty transaction stays dirty. -/
theorem step_dirty {i : TxInput} (h : s.step globMatch i = some (s', o))
    (hdirty : s.tx.dirty = true) : s'.tx.dirty = true := by
  cases step_effect h with
  | commit _ hstore htx _ =>
    rw [htx]
    rcases update_cases hstore s.tx with hsame | hupdate
    · rw [hsame]
      exact hdirty
    · exact hupdate.dirty.mpr (Or.inl hdirty)
  | read _ htx => simp [htx.dirty, hdirty]
  | upsert _ htx => simp [htx.dirty, hdirty]
  | upsertIfChanged _ htx => simp [htx.dirty, hdirty]
  | remove _ htx => rw [htx.dirty, hdirty]
  | forEach _ _ _ htx => exact htx.dirty.mpr (Or.inl hdirty)
  | ensure _ htx => rw [htx]; exact hdirty
  | empty hsame => rw [hsame]; exact hdirty
  | visit _ hsame => rw [hsame]; exact hdirty
  | stop _ hsame => rw [hsame]; exact hdirty
  | thrown hsame => rw [hsame]; exact hdirty

/-- An ensure pattern is never dropped. -/
theorem step_ensures {i : TxInput} (h : s.step globMatch i = some (s', o)) :
    ∀ e ∈ s.tx.ensures, e ∈ s'.tx.ensures := by
  intro e he
  have heffect := step_effect h
  cases i with
  | ensure pattern =>
    rcases answer_eq h with ⟨_, -, rfl, -⟩ | ⟨b, tx, hensure, rfl, -⟩
    · exact he
    · cases pattern with
      | none =>
        simp only [Transaction.ensure, Except.ok.injEq, Prod.mk.injEq] at hensure
        obtain ⟨-, rfl⟩ := hensure
        exact he
      | some p =>
        simp only [Transaction.ensure] at hensure
        split_ifs at hensure
        simp only [Except.ok.injEq, Prod.mk.injEq] at hensure
        obtain ⟨-, rfl⟩ := hensure
        exact (Transaction.mem_addEnsure _ _ _).mpr (Or.inr he)
  | commit u =>
    cases heffect with
    | commit _ hstore htx _ =>
      rw [htx]
      rcases update_cases hstore s.tx with hsame | hupdate
      · rwa [hsame]
      · rwa [hupdate.frame]
    | thrown hsame => rwa [hsame]
  | read k ensure =>
    cases heffect with
    | read _ htx =>
      rw [htx.ensures]
      split_ifs
      · exact (Transaction.mem_addEnsure _ _ _).mpr (Or.inr he)
      · exact he
    | thrown hsame => rwa [hsame]
  | upsert k data =>
    cases heffect with
    | upsert _ htx => rwa [htx.ensures]
    | thrown hsame => rwa [hsame]
  | upsertIfChanged k data =>
    cases heffect with
    | upsertIfChanged _ htx => rwa [htx.ensures]
    | thrown hsame => rwa [hsame]
  | remove k =>
    cases heffect with
    | remove _ htx => rwa [htx.ensures]
    | thrown hsame => rwa [hsame]
  | forEach pattern =>
    cases heffect with
    | forEach _ _ _ htx => rwa [htx.frame]
    | empty hsame => rwa [hsame]
    | thrown hsame => rwa [hsame]
  | visit =>
    cases heffect with
    | visit _ hsame => rwa [hsame]
    | thrown hsame => rwa [hsame]
  | stop =>
    cases heffect with
    | stop _ hsame => rwa [hsame]
    | thrown hsame => rwa [hsame]

/-- An item is never dropped. -/
theorem step_items {i : TxInput} (h : s.step globMatch i = some (s', o)) {k : Key}
    (hk : k ∈ s.tx.items) : k ∈ s'.tx.items := by
  obtain ⟨e, he⟩ := mem_keyMap.mp hk
  rw [mem_keyMap]
  cases step_effect h with
  | commit _ hstore htx _ =>
    rw [htx]
    rcases update_cases hstore s.tx with hsame | hupdate
    · exact ⟨e, by rw [hsame, he]⟩
    · exact ⟨e, by rw [hupdate.items, he]; simp⟩
  | @read k' _ _ _ htx =>
    rw [htx.items]
    by_cases hkey : k' = k
    · subst hkey
      exact ⟨_, by rw [if_pos rfl, Transaction.itemAfterRead, he]⟩
    · exact ⟨e, by rw [if_neg hkey, he]⟩
  | @upsert k' _ _ htx =>
    rw [htx.written rfl]
    split_ifs
    · exact ⟨_, rfl⟩
    · exact ⟨e, he⟩
  | @upsertIfChanged k' _ b _ htx =>
    cases b with
    | true =>
      rw [htx.written rfl]
      split_ifs
      · exact ⟨_, rfl⟩
      · exact ⟨e, he⟩
    | false =>
      rw [htx.unchanged rfl]
      split_ifs
      · exact ⟨_, rfl⟩
      · exact ⟨e, he⟩
  | @remove k' b _ htx =>
    cases b with
    | true =>
      rw [htx.removed rfl]
      split_ifs
      · exact ⟨_, rfl⟩
      · exact ⟨e, he⟩
    | false => exact ⟨e, by rw [htx.unchanged rfl, he]⟩
  | forEach _ _ _ htx =>
    rw [htx.items, he]
    split_ifs
    · exact ⟨_, rfl⟩
    · exact ⟨_, rfl⟩
    · exact ⟨e, rfl⟩
  | ensure _ htx => exact ⟨e, by rw [htx, he]⟩
  | empty hsame => exact ⟨e, by rw [hsame, he]⟩
  | visit _ hsame => exact ⟨e, by rw [hsame, he]⟩
  | stop _ hsame => exact ⟨e, by rw [hsame, he]⟩
  | thrown hsame => exact ⟨e, by rw [hsame, he]⟩

end OpenTx

end Nplex
