import Nplex.Transaction.OpenTx

/-!
# The life of a transaction

All the operations on a transaction, each taken as one step and in any order: those of its owner,
the delivery of commits, every way a submit can go, the answers of the server, the confirmation
and the discard. The state and the promise stay in agreement, so that a promise is satisfied
once, by the operation that closes the transaction or puts it back to open.
-/

namespace Nplex

/-- The operations. -/
inductive TxOp
  /-- A method of the owner other than `submit` and `discard`; a `for_each` is its collection. -/
  | use (store : Store) (i : TxInput)
  | update (changes : List Change)
  | discard
  /-- `client` says that the client is alive, `pushes` that `push_command` does not throw. -/
  | submit (force client pushes : Bool)
  | setSubmitResult (code : SubmitCode)
  | setSubmitException (e : TxException)
  | confirmCommit

/-- How an operation ends. -/
inductive TxReport
  | returned
  /-- `submit` returns `get_future` of the promise. -/
  | future
  /-- "command queue overflow" -/
  | overflow
  | thrown (e : TxError)
  deriving DecidableEq, Repr

/-- The report of a method that may throw. -/
def TxReport.ofError (e : Option TxError) : TxReport := e.elim .returned .thrown

namespace Transaction

/-- One operation. -/
def apply (globMatch : Glob) (tx : Transaction) : TxOp → Transaction × TxReport
  | .use store i =>
    match OpenTx.step globMatch ⟨store, tx, []⟩ i with
    | none => (tx, .returned)
    | some (s, .thrown e) => (s.tx, .thrown e)
    | some (s, _) => (s.tx, .returned)
  | .update changes => (tx.update globMatch changes, .returned)
  | .discard => (tx.discard, .returned)
  | .submit force client pushes =>
    match tx.submit force client with
    | .error e => (tx, .thrown e)
    | .ok (.done tx) => (tx, .future)
    | .ok (.push tx) => if pushes then (tx.takeFuture, .future) else (tx, .overflow)
  | .setSubmitResult code => (tx.setSubmitResult code).map id .ofError
  | .setSubmitException e => (tx.setSubmitException e).map id .ofError
  | .confirmCommit => tx.confirmCommit.map id .ofError

/-- A sequence of operations. -/
def applyAll (globMatch : Glob) (tx : Transaction) (ops : List TxOp) : Transaction :=
  ops.foldl (fun tx op => (tx.apply globMatch op).1) tx

end Transaction

/-- The results of a rejected transaction. -/
def SubmitResult.isRejection : SubmitResult → Bool
  | .rejectedPermission | .rejectedOldRevision | .rejectedIntegrity | .rejectedEnsure
  | .rejectedOther => true
  | .noModifications | .committed | .tryLater => false

/-- What the promise of a transaction holds in each of its states. -/
def TxState.agrees : TxState → Option Outcome → Prop
  | .opened, o | .submitted, o | .accepted, o => o = none
  | .committed, o => o = some (.value .committed)
  | .rejected, o => ∃ r : SubmitResult, r.isRejection = true ∧ o = some (.value r)
  | .discarded, o => o = some (.value .noModifications) ∨ o = some (.exception .discarded)
  | .aborted, o => ∃ e, o = some (.exception e)

/-- A promise is satisfied exactly in the closed states. -/
theorem TxState.agrees.closed_iff {state : TxState} {o : Option Outcome} (h : state.agrees o) :
    state.isClosed = true ↔ o ≠ none := by
  cases state with
  | opened => simp_all [agrees, isClosed]
  | submitted => simp_all [agrees, isClosed]
  | accepted => simp_all [agrees, isClosed]
  | committed => simp_all [agrees, isClosed]
  | rejected =>
    obtain ⟨r, -, rfl⟩ := h
    simp [isClosed]
  | discarded => rcases h with rfl | rfl <;> simp [isClosed]
  | aborted =>
    obtain ⟨e, rfl⟩ := h
    simp [isClosed]

namespace Transaction

/-- The promise agrees with the state. -/
def Settled (tx : Transaction) : Prop := tx.state.agrees tx.promise.result

/-- The agreement of a transaction with its promises. -/
structure Coherent (tx : Transaction) : Prop where
  settled : tx.Settled
  /-- No future was taken from the promise of an open transaction. -/
  fresh : tx.state = .opened → tx.promise.retrieved = false
  earlier : ∀ p ∈ tx.earlier, p.result = some (.value .tryLater)

/-- A new transaction is coherent. -/
theorem create_coherent (store : Store) (isolation : Isolation) (readOnly : Bool)
    (user : Option User) : (create store isolation readOnly user).Coherent :=
  ⟨rfl, fun _ => rfl, by simp [create]⟩

/-- What an operation does to the state and the promise of a settled transaction. -/
inductive Turn (tx : Transaction) : TxOp → Transaction → TxReport → Prop
  | same {op : TxOp} {tx' : Transaction} {report : TxReport} (hstate : tx'.state = tx.state)
      (hpromise : tx'.promise = tx.promise) (hearlier : tx'.earlier = tx.earlier)
      (hfuture : report ≠ .future) (hthrown : report ≠ .thrown .promiseSatisfied) :
      Turn tx op tx' report
  /-- The transaction is closed with an outcome; only a submit takes the future, before it was
  taken. -/
  | closed {op : TxOp} {tx' : Transaction} {report : TxReport}
      (hopen : tx.state.isClosed = false) (hclosed : tx'.state.isClosed = true)
      (hagrees : tx'.state.agrees tx'.promise.result) (hearlier : tx'.earlier = tx.earlier)
      (hfuture : report = .future → tx.state = .opened)
      (hthrown : report ≠ .thrown .promiseSatisfied) : Turn tx op tx' report
  /-- A submit sends its request. -/
  | submitted {force client pushes : Bool} {tx' : Transaction} {report : TxReport}
      (hopen : tx.state = .opened) (hstate : tx'.state = .submitted)
      (hresult : tx'.promise.result = tx.promise.result) (hearlier : tx'.earlier = tx.earlier)
      (hthrown : report ≠ .thrown .promiseSatisfied) :
      Turn tx (.submit force client pushes) tx' report
  | accepted (hsubmitted : tx.state = .submitted) :
      Turn tx (.setSubmitResult .accepted) { tx with state := .accepted } .returned
  | reopened {p : Promise} (hsubmitted : tx.state = .submitted)
      (hp : p.result = some (.value .tryLater)) :
      Turn tx (.setSubmitResult .tryLater)
        { tx with state := .opened, promise := {}, earlier := tx.earlier ++ [p] } .returned

section Methods

variable {globMatch : Glob} {tx tx' : Transaction}

/-- Closing a transaction whose promise is not satisfied. -/
theorem close_of_unset (hopen : tx.state.isClosed = false) (hunset : tx.promise.result = none)
    (state : TxState) (o : Outcome) :
    tx.close state o =
      ({ tx with state := state, promise := { tx.promise with result := some o } }, none) := by
  have hset : tx.setState state = { tx with state := state } := by
    unfold setState
    by_cases hsame : state = tx.state
    · simp [hsame]
    · simp [hopen, hsame]
  simp [close, hset, Promise.set, hunset]

/-- Ending a submit on the user's thread. -/
theorem finish_of_unset (hopen : tx.state.isClosed = false) (hunset : tx.promise.result = none)
    (result : SubmitResult) {state : TxState} (hstate : state ≠ tx.state) :
    tx.finish result state =
      .ok { tx with state := state, promise := ⟨some (.value result), true⟩ } := by
  simp [finish, Promise.set, hunset, setState, hopen, hstate]

/-- One change leaves the state and the promises alone. -/
theorem snapshotChange_sameFrame (tx : Transaction) (c : Change) :
    SameFrame tx (tx.snapshotChange c) := by
  unfold snapshotChange
  split
  · rfl
  · split <;> rfl

/-- The delivery to a SERIALIZABLE transaction keeps state and promise. -/
theorem updateSerializable_sameFrame (tx : Transaction) (changes : List Change) :
    SameFrame tx (tx.updateSerializable changes) := by
  unfold updateSerializable
  induction changes generalizing tx with
  | nil => rfl
  | cons c rest ih =>
    have hhead := snapshotChange_sameFrame tx c
    have htail := ih (tx.snapshotChange c)
    rw [SameFrame] at hhead htail ⊢
    rw [List.foldl_cons, htail, hhead]

/-- The delivery of a commit leaves the state and the promises alone. -/
theorem update_sameFrame (globMatch : Glob) (tx : Transaction) (changes : List Change) :
    SameFrame tx (tx.update globMatch changes) := by
  unfold update
  split
  · rfl
  · dsimp only
    rw [checkEnsures_eq]
    cases tx.isolation with
    | serializable =>
      have hframe := updateSerializable_sameFrame tx changes
      rw [SameFrame] at hframe ⊢
      dsimp only
      rw [hframe]
    | readCommitted => simp [SameFrame, updateDefault_eq]
    | repeatableRead => simp [SameFrame, updateDefault_eq]

/-- The turn of an operation that leaves the state and the promises alone. -/
theorem Turn.of_sameFrame {op : TxOp} {report : TxReport} (hframe : SameFrame tx tx')
    (hfuture : report ≠ .future) (hthrown : report ≠ .thrown .promiseSatisfied) :
    Turn tx op tx' report := by
  rw [SameFrame] at hframe
  exact .same (by rw [hframe]) (by rw [hframe]) (by rw [hframe]) hfuture hthrown

/-- The result of a method is not the error of a satisfied promise. -/
def Throws {A : Type} (r : Except TxError A) : Prop := r ≠ .error .promiseSatisfied

/-- `read` does not fail on a satisfied promise. -/
theorem read_throws (store : Store) (key : Bytes) (ensure : Bool) :
    Throws (tx.read store key ensure) := by
  unfold Throws read
  split
  · simp
  · split
    · simp
    · split
      · split
        · simp
        · split <;> simp
      · dsimp only
        split <;> simp

/-- Nor does `upsert_internal`. -/
theorem upsertInternal_throws (store : Store) (key data : Bytes) (force : Bool) :
    Throws (tx.upsertInternal globMatch store key data force) := by
  unfold Throws upsertInternal
  split
  · simp
  · split
    · simp
    · split
      · simp
      · dsimp only
        split
        · split
          · simp
          · split <;> simp
        · split
          · split <;> simp
          · split
            · simp
            · split <;> simp

/-- Nor does `remove`. -/
theorem remove_throws (store : Store) (key : Bytes) : Throws (tx.remove globMatch store key) := by
  unfold Throws remove
  split
  · simp
  · split
    · simp
    · split
      · simp
      · split
        · simp
        · split
          · split
            · simp
            · split <;> simp
          · split <;> simp

/-- Nor does `ensure`. -/
theorem ensure_throws (pattern : Option Bytes) : Throws (tx.ensure pattern) := by
  unfold Throws ensure
  split
  · simp
  · split_ifs <;> simp

/-- The answer to a method throws as the method does. -/
theorem answer_thrown {A : Type} {f : A → TxAnswer} (hf : ∀ a e, f a ≠ .thrown e) {s s' : OpenTx}
    {r : Except TxError (A × Transaction)} (hr : Throws r) {e : TxError}
    (h : s.answer f r = some (s', .thrown e)) : e ≠ .promiseSatisfied := by
  rcases OpenTx.answer_eq h with ⟨e', rfl, -, he⟩ | ⟨a, tx', -, -, he⟩
  · rintro rfl
    obtain rfl := TxAnswer.thrown.inj he
    exact hr rfl
  · exact absurd he.symm (hf a e)

/-- No method of the owner throws because of the promise. -/
theorem use_thrown {store : Store} {i : TxInput} {s : OpenTx} {e : TxError}
    (h : OpenTx.step globMatch ⟨store, tx, []⟩ i = some (s, .thrown e)) : e ≠ .promiseSatisfied := by
  cases i with
  | commit u =>
    simp only [OpenTx.step] at h
    split_ifs at h
    split at h <;> simp at h
  | read key ensure => exact answer_thrown (by simp) (read_throws store key ensure) h
  | upsert key data =>
    refine answer_thrown (by simp) (fun hthrows => ?_) h
    have hinternal : Throws (tx.upsertInternal globMatch store key data true) :=
      upsertInternal_throws store key data true
    unfold upsert at hthrows
    cases hresult : tx.upsertInternal globMatch store key data true with
    | error e' =>
      simp only [hresult, Except.map, Except.error.injEq] at hthrows
      exact hinternal (hthrows ▸ hresult)
    | ok r => simp [hresult, Except.map] at hthrows
  | upsertIfChanged key data =>
    exact answer_thrown (by simp) (upsertInternal_throws store key data false) h
  | remove key => exact answer_thrown (by simp) (remove_throws store key) h
  | ensure pattern => exact answer_thrown (by simp) (ensure_throws pattern) h
  | forEach pattern =>
    simp only [OpenTx.step] at h
    split_ifs at h <;> simp_all
    simp [← h.2]
  | visit =>
    simp only [OpenTx.step] at h
    simp at h
  | stop =>
    simp only [OpenTx.step] at h
    simp at h

/-- A use of the transaction is a turn of its life. -/
theorem turn_use (store : Store) (i : TxInput) :
    Turn tx (.use store i) (tx.apply globMatch (.use store i)).1
      (tx.apply globMatch (.use store i)).2 := by
  unfold apply
  dsimp only
  cases hstep : OpenTx.step globMatch ⟨store, tx, []⟩ i with
  | none => exact .of_sameFrame rfl (by simp) (by simp)
  | some r =>
    obtain ⟨s, o⟩ := r
    have hframe : SameFrame tx s.tx := OpenTx.step_sameFrame hstep
    cases o with
    | thrown e => exact .of_sameFrame hframe (by simp) (by simpa using use_thrown hstep)
    | _ => exact .of_sameFrame hframe (by simp) (by simp)

/-- The promise of a transaction that is not closed is not satisfied. -/
theorem Settled.unset (h : tx.Settled) (hopen : tx.state.isClosed = false) :
    tx.promise.result = none := by
  by_contra hne
  rw [TxState.agrees.closed_iff h |>.mpr hne] at hopen
  cases hopen

/-- A discarded transaction is closed. -/
theorem discard_closed (tx : Transaction) : tx.discard.state.isClosed = true := by
  have hclosed : (tx.setState .discarded).state.isClosed = true := by
    unfold setState
    split
    · next h =>
      rcases Bool.or_eq_true_iff.mp h with h | h
      · exact h
      · rw [← of_decide_eq_true h]
        rfl
    · rfl
  unfold discard
  dsimp only
  split <;> exact hclosed

/-- So is its destruction. -/
theorem turn_discard (h : tx.Settled) : Turn tx .discard tx.discard .returned := by
  have hunset := TxState.agrees.closed_iff h
  unfold discard
  by_cases hclosed : tx.state.isClosed = true
  · obtain ⟨o, ho⟩ := Option.ne_none_iff_exists'.mp (hunset.mp hclosed)
    simp only [setState, hclosed, Bool.true_or, if_true, Promise.set, ho]
    exact .of_sameFrame rfl (by simp) (by simp)
  · have hopen : tx.state.isClosed = false := by simpa using hclosed
    have hnone : tx.promise.result = none := by
      by_contra hne
      exact hclosed (hunset.mpr hne)
    have hstate : TxState.discarded ≠ tx.state := by
      intro hstate
      simp [← hstate, TxState.isClosed] at hopen
    simp only [setState, hopen, hstate, decide_false, Bool.false_or, Bool.false_eq_true, if_false,
      Promise.set, hnone]
    exact .closed hopen rfl (Or.inr rfl) rfl (by simp) (by simp)

/-- A submit of an open transaction closes it, sends its request, or finds the client gone. -/
theorem submit_cases (h : tx.Settled) (hopen : tx.state = .opened) (force client : Bool) :
    tx.submit force client = .error .clientGone ∨
      tx.submit force client = .ok (.push { tx with state := .submitted }) ∨
      ∃ (state : TxState) (r : SubmitResult), state.isClosed = true ∧
        state.agrees (some (.value r)) ∧ tx.submit force client =
          .ok (.done { tx with state := state, promise := ⟨some (.value r), true⟩ }) := by
  have hnotClosed : tx.state.isClosed = false := by simp [hopen, TxState.isClosed]
  have hend : ∀ {result : SubmitResult} {state : TxState}, state.isClosed = true →
      state.agrees (some (.value result)) →
      ∃ (state' : TxState) (r : SubmitResult), state'.isClosed = true ∧
        state'.agrees (some (.value r)) ∧ (tx.finish result state).map SubmitStep.done =
          .ok (.done { tx with state := state', promise := ⟨some (.value r), true⟩ }) := by
    intro result state hclosed hagrees
    refine ⟨state, result, hclosed, hagrees, ?_⟩
    rw [finish_of_unset hnotClosed (h.unset hnotClosed) result fun hsame => ?_]
    · rfl
    · rw [hsame, hnotClosed] at hclosed
      cases hclosed
  unfold submit
  rw [if_neg (by simp [hopen])]
  split_ifs
  · exact Or.inr (Or.inr (hend rfl (Or.inl rfl)))
  · exact Or.inr (Or.inr (hend rfl (Or.inl rfl)))
  · exact Or.inr (Or.inr (hend rfl ⟨.rejectedIntegrity, rfl, rfl⟩))
  · exact Or.inl rfl
  · exact Or.inr (Or.inr (hend rfl ⟨.rejectedPermission, rfl, rfl⟩))
  · exact Or.inr (Or.inl (by simp [setState, hopen, TxState.isClosed]))

/-- So is a submit. -/
theorem turn_submit (h : tx.Settled) (force client pushes : Bool) :
    Turn tx (.submit force client pushes) (tx.apply globMatch (.submit force client pushes)).1
      (tx.apply globMatch (.submit force client pushes)).2 := by
  by_cases hopen : tx.state = .opened
  · have hnotClosed : tx.state.isClosed = false := by simp [hopen, TxState.isClosed]
    unfold apply
    rcases submit_cases h hopen force client with hgone | hpush | ⟨state, r, hclosed, hagrees, hdone⟩
    · simp only [hgone]
      exact .of_sameFrame rfl (by simp) (by simp)
    · simp only [hpush]
      cases pushes with
      | true => exact .submitted hopen rfl rfl rfl (by simp)
      | false => exact .submitted hopen rfl rfl rfl (by simp)
    · simp only [hdone]
      exact .closed hnotClosed hclosed hagrees rfl (fun _ => hopen) (by simp)
  · simp only [apply, submit, if_pos hopen]
    exact .of_sameFrame rfl (by simp) (by simp)

/-- The turn of an answer that closes the transaction. -/
theorem turn_close (h : tx.Settled) (hopen : tx.state.isClosed = false) (op : TxOp)
    {state : TxState} {o : Outcome} (hclosed : state.isClosed = true)
    (hagrees : state.agrees (some o)) :
    Turn tx op ((tx.close state o).map id TxReport.ofError).1
      ((tx.close state o).map id TxReport.ofError).2 := by
  rw [close_of_unset hopen (h.unset hopen)]
  exact .closed hopen hclosed hagrees rfl (by simp [TxReport.ofError]) (by simp [TxReport.ofError])

/-- So is the result of its submit. -/
theorem turn_setSubmitResult (h : tx.Settled) (code : SubmitCode) :
    Turn tx (.setSubmitResult code) (tx.apply globMatch (.setSubmitResult code)).1
      (tx.apply globMatch (.setSubmitResult code)).2 := by
  unfold apply setSubmitResult
  dsimp only
  split
  · exact .of_sameFrame rfl (by simp [TxReport.ofError]) (by simp [TxReport.ofError])
  · next hstate =>
    have hsubmitted : tx.state = .submitted := by simpa using hstate
    have hopen : tx.state.isClosed = false := by simp [hsubmitted, TxState.isClosed]
    split
    · simpa [setState, hsubmitted, TxState.isClosed, TxReport.ofError] using
        Turn.accepted hsubmitted
    · rw [close_of_unset hopen (h.unset hopen)]
      exact .reopened hsubmitted rfl
    · exact turn_close h hopen _ rfl (Or.inl rfl)
    all_goals exact turn_close h hopen _ rfl ⟨_, rfl, rfl⟩

/-- So is an exception in its place. -/
theorem turn_setSubmitException (h : tx.Settled) (e : TxException) :
    Turn tx (.setSubmitException e) (tx.apply globMatch (.setSubmitException e)).1
      (tx.apply globMatch (.setSubmitException e)).2 := by
  unfold apply setSubmitException
  dsimp only
  split
  · exact .of_sameFrame rfl (by simp [TxReport.ofError]) (by simp [TxReport.ofError])
  · next hstate =>
    have hsubmitted : tx.state = .submitted := by simpa using hstate
    exact turn_close h (by simp [hsubmitted, TxState.isClosed]) _ rfl ⟨e, rfl⟩

/-- So is its commit. -/
theorem turn_confirmCommit (h : tx.Settled) :
    Turn tx .confirmCommit (tx.apply globMatch .confirmCommit).1
      (tx.apply globMatch .confirmCommit).2 := by
  unfold apply confirmCommit
  dsimp only
  split
  · exact .of_sameFrame rfl (by simp [TxReport.ofError]) (by simp [TxReport.ofError])
  · next hstate =>
    have haccepted : tx.state = .accepted := by simpa using hstate
    exact turn_close h (by simp [haccepted, TxState.isClosed]) _ rfl rfl

/-- What any operation does to a settled transaction. -/
theorem apply_turn (globMatch : Glob) (h : tx.Settled) (op : TxOp) :
    Turn tx op (tx.apply globMatch op).1 (tx.apply globMatch op).2 := by
  cases op with
  | use store i => exact turn_use store i
  | update changes =>
    have hframe := update_sameFrame globMatch tx changes
    exact .of_sameFrame hframe (by simp [apply]) (by simp [apply])
  | discard => exact turn_discard h
  | submit force client pushes => exact turn_submit h force client pushes
  | setSubmitResult code => exact turn_setSubmitResult h code
  | setSubmitException e => exact turn_setSubmitException h e
  | confirmCommit => exact turn_confirmCommit h

/-- Every operation leaves a settled transaction. -/
theorem Turn.settled {op : TxOp} {report : TxReport} (h : Turn tx op tx' report)
    (hsettled : tx.Settled) : tx'.Settled := by
  cases h with
  | same hstate hpromise =>
    rw [Settled, hstate, hpromise]
    exact hsettled
  | closed _ _ hagrees => exact hagrees
  | submitted hopen hstate hresult =>
    rw [Settled, hstate, hresult]
    exact hsettled.unset (by simp [hopen, TxState.isClosed])
  | accepted hsubmitted => exact hsettled.unset (by simp [hsubmitted, TxState.isClosed])
  | reopened => exact rfl

/-- Every operation keeps the agreement. -/
theorem Coherent.apply (globMatch : Glob) (h : tx.Coherent) (op : TxOp) :
    (tx.apply globMatch op).1.Coherent := by
  have hturn := apply_turn globMatch h.settled op
  have hsettled := hturn.settled h.settled
  generalize tx.apply globMatch op = r at hturn hsettled ⊢
  obtain ⟨tx', report⟩ := r
  refine ⟨hsettled, ?_, ?_⟩
  · intro hopen
    cases hturn with
    | same hstate hpromise =>
      rw [hpromise]
      exact h.fresh (hstate ▸ hopen)
    | closed _ hclosed =>
      rw [hopen] at hclosed
      cases hclosed
    | submitted _ hstate =>
      rw [hstate] at hopen
      cases hopen
    | accepted => cases hopen
    | reopened => rfl
  · cases hturn with
    | same _ _ hearlier => rw [hearlier]; exact h.earlier
    | closed _ _ _ hearlier => rw [hearlier]; exact h.earlier
    | submitted _ _ _ hearlier => rw [hearlier]; exact h.earlier
    | accepted => exact h.earlier
    | @reopened p _ hp =>
      intro q hq
      rcases List.mem_append.mp hq with hq | hq
      · exact h.earlier q hq
      · obtain rfl := List.mem_singleton.mp hq
        exact hp

/-- Any sequence of operations keeps the agreement. -/
theorem Coherent.applyAll (globMatch : Glob) (h : tx.Coherent) (ops : List TxOp) :
    (tx.applyAll globMatch ops).Coherent := by
  induction ops generalizing tx with
  | nil => exact h
  | cons op rest ih => exact ih (h.apply globMatch op)

/-- A closed transaction keeps its state and its outcome. -/
theorem Turn.absorbing {op : TxOp} {report : TxReport} (h : Turn tx op tx' report)
    (hclosed : tx.state.isClosed = true) : tx'.state = tx.state ∧ tx'.promise = tx.promise := by
  cases h with
  | same hstate hpromise => exact ⟨hstate, hpromise⟩
  | closed hopen => simp [hopen] at hclosed
  | submitted hopen => simp [hopen, TxState.isClosed] at hclosed
  | accepted hsubmitted => simp [hsubmitted, TxState.isClosed] at hclosed
  | reopened hsubmitted => simp [hsubmitted, TxState.isClosed] at hclosed

/-- The promise is never satisfied twice. -/
theorem Turn.not_satisfied {op : TxOp} {report : TxReport} (h : Turn tx op tx' report) :
    report ≠ .thrown .promiseSatisfied := by
  cases h with
  | same _ _ _ _ hthrown => exact hthrown
  | closed _ _ _ _ _ hthrown => exact hthrown
  | submitted _ _ _ _ hthrown => exact hthrown
  | accepted => simp
  | reopened => simp

/-- Only an open transaction gives its future. -/
theorem Turn.opened_of_future {op : TxOp} {report : TxReport} (h : Turn tx op tx' report)
    (hfuture : report = .future) : tx.state = .opened := by
  cases h with
  | same _ _ _ hreport => exact absurd hfuture hreport
  | closed _ _ _ _ hopen => exact hopen hfuture
  | submitted hopen => exact hopen
  | accepted => cases hfuture
  | reopened => cases hfuture

/-- A submit that ends on the user's thread takes the future. -/
theorem finish_retrieved {result : SubmitResult} {state : TxState}
    (h : (tx.finish result state).map SubmitStep.done = .ok (.done tx')) :
    tx'.promise.retrieved = true := by
  unfold finish at h
  split at h
  · simp only [Except.map, Except.ok.injEq, SubmitStep.done.injEq] at h
    simp [← h]
  · simp [Except.map] at h

/-- A submit that is done at once returns its future. -/
theorem submit_done_retrieved {force client : Bool} (h : tx.submit force client = .ok (.done tx')) :
    tx'.promise.retrieved = true := by
  unfold submit at h
  split_ifs at h
  · exact finish_retrieved h
  · exact finish_retrieved h
  · exact finish_retrieved h
  · exact finish_retrieved h
  · simp at h

/-- The future that an operation gives is the one of the promise it leaves. -/
theorem retrieved_of_future (globMatch : Glob) (op : TxOp)
    (h : (tx.apply globMatch op).2 = .future) :
    (tx.apply globMatch op).1.promise.retrieved = true := by
  have herror : ∀ e : Option TxError, TxReport.ofError e ≠ .future := by
    intro e
    cases e <;> simp [TxReport.ofError]
  cases op with
  | use store i =>
    unfold apply at h
    dsimp only at h
    split at h <;> simp at h
  | update changes => simp [apply] at h
  | discard => simp [apply] at h
  | submit force client pushes =>
    unfold apply at h ⊢
    dsimp only at h ⊢
    split at h
    · simp at h
    · next tx' hdone => simpa only [hdone] using submit_done_retrieved hdone
    · next tx' hpush =>
      split at h
      · next hpushes =>
        simp only [if_pos hpushes]
        rfl
      · simp at h
  | setSubmitResult code => exact absurd h (herror _)
  | setSubmitException e => exact absurd h (herror _)
  | confirmCommit => exact absurd h (herror _)

/-- A promise is only replaced by TRY_LATER, which reports on it and reopens the transaction. -/
theorem Turn.earlier {op : TxOp} {report : TxReport} (h : Turn tx op tx' report) :
    tx'.earlier = tx.earlier ∨ op = .setSubmitResult .tryLater ∧ tx.state = .submitted ∧
      tx'.state = .opened ∧ tx'.promise = {} ∧
      ∃ p : Promise, p.result = some (.value .tryLater) ∧ tx'.earlier = tx.earlier ++ [p] := by
  cases h with
  | same _ _ hearlier => exact Or.inl hearlier
  | closed _ _ _ hearlier => exact Or.inl hearlier
  | submitted _ _ _ hearlier => exact Or.inl hearlier
  | accepted => exact Or.inl rfl
  | @reopened p hsubmitted hp => exact Or.inr ⟨rfl, hsubmitted, rfl, rfl, p, hp, rfl⟩

/-- After any operations the promise is satisfied exactly in the closed states, which are final,
with an outcome that agrees with the state. No operation satisfies it a second time or takes its
future a second time, and TRY_LATER is reported by going back to open with a new promise. -/
theorem outcome_follows_state (globMatch : Glob) (store : Store) (isolation : Isolation)
    (readOnly : Bool) (user : Option User) (ops : List TxOp) (tx tx' : Transaction) (op : TxOp)
    (report : TxReport) (htx : tx = (create store isolation readOnly user).applyAll globMatch ops)
    (hop : tx.apply globMatch op = (tx', report)) :
    (tx.state.isClosed = true ↔ tx.promise.result ≠ none) ∧
      tx.state.agrees tx.promise.result ∧
      (∀ p ∈ tx.earlier, p.result = some (.value .tryLater)) ∧
      (tx.state.isClosed = true → tx'.state = tx.state ∧ tx'.promise = tx.promise) ∧
      report ≠ .thrown .promiseSatisfied ∧
      (report = .future → tx.promise.retrieved = false ∧ tx'.promise.retrieved = true) ∧
      (tx'.earlier = tx.earlier ∨ op = .setSubmitResult .tryLater ∧ tx.state = .submitted ∧
        tx'.state = .opened ∧ tx'.promise = {} ∧
        ∃ p : Promise, p.result = some (.value .tryLater) ∧ tx'.earlier = tx.earlier ++ [p]) := by
  have hcoherent : tx.Coherent :=
    htx ▸ (create_coherent store isolation readOnly user).applyAll globMatch ops
  have hturn : Turn tx op tx' report := by
    have hturn := apply_turn globMatch hcoherent.settled op
    rwa [hop] at hturn
  refine ⟨TxState.agrees.closed_iff hcoherent.settled, hcoherent.settled, hcoherent.earlier,
    hturn.absorbing,
    hturn.not_satisfied, fun hfuture => ⟨hcoherent.fresh (hturn.opened_of_future hfuture), ?_⟩,
    hturn.earlier⟩
  have hretrieved : (tx.apply globMatch op).2 = .future → _ := retrieved_of_future globMatch op
  rw [hop] at hretrieved
  exact hretrieved hfuture

/-- A transaction that TRY_LATER reopened gives a second future, from a second promise. -/
theorem outcome_follows_state_retry : ∃ tx tx' : Transaction,
    tx = (create Store.empty .serializable false none).applyAll (fun _ _ => true)
        [.use Store.empty (.upsert [97] [1]), .submit false true true,
          .setSubmitResult .tryLater] ∧
      tx.apply (fun _ _ => true) (.submit false true true) = (tx', .future) ∧
      tx.promise.retrieved = false ∧ tx'.promise.retrieved = true := by
  have hreport : (((create Store.empty .serializable false none).applyAll (fun _ _ => true)
      [.use Store.empty (.upsert [97] [1]), .submit false true true,
        .setSubmitResult .tryLater]).apply (fun _ _ => true) (.submit false true true)).2 =
      .future := by
    decide +kernel
  obtain ⟨-, -, -, -, -, hfuture, -⟩ := outcome_follows_state (fun _ _ => true) Store.empty
    .serializable false none _ _ _ _ _ rfl (Prod.ext rfl hreport)
  exact ⟨_, _, rfl, Prod.ext rfl hreport, (hfuture rfl).1, (hfuture rfl).2⟩

end Methods

end Transaction

end Nplex
