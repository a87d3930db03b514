import Nplex.Client.Frame

/-!
# What a step can do

One case for each way a step is accepted, with its guards and its result. Every invariant of the
client is derived from these cases.
-/

namespace Nplex

namespace Client

/-- The result of an accepted step before the transactions without references are destroyed. -/
inductive Effect (globMatch : Glob) (c : Client) : Event → Client → Prop
  | start {refused : Option ℕ} (hphase : c.phase = .ready) (hstate : c.state = .offline) :
      Effect globMatch c (.start refused) (c.startRun refused)
  | connected {i : ℕ} {con : Connection} (hphase : c.phase = .running)
      (hidle : c.activity = .idle) (hcon : c.connections[i]? = some con)
      (hstate : con.state = .connecting) :
      Effect globMatch c (.connected i)
        (onConnectionEstablished
          { c with connections := c.connections.set i { con with state := .connected } } i)
  | failed {i : ℕ} {cause : DisconnectCause} (hphase : c.phase = .running) :
      Effect globMatch c (.failed i cause) (c.disconnect i cause)
  | closed {i : ℕ} {delay : Option Int} {retry : Option Bool} {refused : Option ℕ}
      {con : Connection} (hphase : c.phase = .running) (hidle : c.activity = .idle)
      (hcon : c.connections[i]? = some con) (hstate : con.state ≠ .closed) :
      Effect globMatch c (.closed i delay retry refused)
        (onConnectionClosed { c with connections := c.connections.set i con.onClose } i delay retry
          refused)
  | read {i : ℕ} {con : Connection} (hphase : c.phase = .running) (hidle : c.activity = .idle)
      (hcon : c.connections[i]? = some con) (hstate : con.state = .connected) :
      Effect globMatch c (.read i) { c with activity := .reading i }
  | message {i : ℕ} {msg : Option ServerMsg} {throws : Bool} (hreading : c.activity = .reading i) :
      Effect globMatch c (.message msg throws) (c.onMsgReceived i msg throws)
  | malformed {i : ℕ} (hreading : c.activity = .reading i) :
      Effect globMatch c .malformed (disconnect { c with activity := .idle } i .msgError)
  | readEnd {i : ℕ} (hreading : c.activity = .reading i) :
      Effect globMatch c .readEnd { c with activity := .idle }
  | update {i crev : ℕ} {u : Update} {rest : List Update}
      (hpushing : c.activity = .pushing i crev (u :: rest)) :
      Effect globMatch c .update
        (pushUpdate globMatch { c with activity := .pushing i crev rest } crev u)
  | updatesEnd {i crev : ℕ} (hpushing : c.activity = .pushing i crev []) :
      Effect globMatch c .update { c with activity := .reading i }
  | timerConLost (hphase : c.phase = .running) (hidle : c.activity = .idle) :
      Effect globMatch c .timerConLost c.onConnectionLost
  | timerReconnect {refused : Option ℕ} (hphase : c.phase = .running) (hidle : c.activity = .idle)
      (htimer : c.timerReconnect = true) :
      Effect globMatch c (.timerReconnect refused)
        (tryToConnect { c with timerReconnect := false } refused)
  | sigint (hphase : c.phase = .running) (hidle : c.activity = .idle) :
      Effect globMatch c .sigint c.abort
  | asyncClosed (hphase : c.phase = .running) (hidle : c.activity = .idle)
      (hclosed : c.state = .closed) : Effect globMatch c .async { c with async := false }
  | async (hphase : c.phase = .running) (hidle : c.activity = .idle)
      (hopen : c.state ≠ .closed) :
      Effect globMatch c .async { c with async := false, activity := .draining }
  | command {command : Command} {rest : List Command} (hdraining : c.activity = .draining)
      (hcommands : c.commands = command :: rest) :
      Effect globMatch c .command (processCommand { c with commands := rest } command)
  | commandsEnd (hdraining : c.activity = .draining) :
      Effect globMatch c .commandsEnd { c with activity := .idle }
  | unwind (hphase : c.phase = .running) (hactivity : c.activity = .thrown ∨ c.activity = .idle) :
      Effect globMatch c .unwind c.unwindRun
  | finish (hphase : c.phase = .unwinding) : Effect globMatch c .finish c.finishRun
  | createTx {isolation : Isolation} {readOnly : Bool} :
      Effect globMatch c (.createTx isolation readOnly) (c.createTx isolation readOnly)
  | use {t : ℕ} {i : TxInput} {cell : TxCell} {run : OpenTx} {o : TxAnswer}
      (hcell : c.txs[t]? = some cell) (hcommit : ∀ u, i ≠ .commit u)
      (hstep : OpenTx.step globMatch ⟨c.store, cell.tx, []⟩ i = some (run, o)) :
      Effect globMatch c (.use t i) { c with txs := c.txs.set t { cell with tx := run.tx } }
  | discard {t : ℕ} {cell : TxCell} (hcell : c.txs[t]? = some cell) :
      Effect globMatch c (.discard t) (c.onTx t fun tx => (tx.discard, none))
  | release {t : ℕ} {cell : TxCell} (hcell : c.txs[t]? = some cell) :
      Effect globMatch c (.release t) { c with txs := c.txs.set t { cell with held := false } }
  | submit {t : ℕ} {force : Bool} {cell : TxCell} (hcell : c.txs[t]? = some cell) :
      Effect globMatch c (.submit t force) (c.submitTx t cell force)
  | close : Effect globMatch c .close { c with pushes := c.pushes ++ [{ command := .close }] }
  | stop (hphase : c.phase = .running) :
      Effect globMatch c .stop { c with pushes := c.pushes ++ [{ command := .close, stop := true }] }
  | pingRefused {payload : Bytes} (hclosed : c.state = .closed) : Effect globMatch c (.ping payload) c
  | ping {payload : Bytes} (hopen : c.state ≠ .closed) :
      Effect globMatch c (.ping payload) (c.pushRequest fun ticket => .ping ticket payload)
  | fetchRefused {enableStream : Bool} : Effect globMatch c (.fetchSessions enableStream) c
  | fetchSessions {enableStream : Bool} (hopen : c.state ≠ .closed) :
      Effect globMatch c (.fetchSessions enableStream)
        (c.pushRequest fun ticket => .sessions ticket enableStream)
  | loopPing {payload : Bytes} (hphase : c.phase = .running) (hopen : c.state ≠ .closed) :
      Effect globMatch c (.loopPing payload)
        (processPingCmd { c with tickets := c.tickets + 1 } c.tickets payload)
  | loopFetchSessions {enableStream : Bool} (hphase : c.phase = .running)
      (hopen : c.state ≠ .closed) :
      Effect globMatch c (.loopFetchSessions enableStream)
        (processSessionsCmd { c with tickets := c.tickets + 1 } c.tickets enableStream)
  | pushClosed {n : ℕ} {p : Push} (hpush : c.pushes[n]? = some p) (hclosed : c.state = .closed) :
      Effect globMatch c (.pushCheck n) (endPush { c with pushes := c.pushes.eraseIdx n } p)
  | pushCheck {n : ℕ} {p : Push} (hpush : c.pushes[n]? = some p) (hopen : c.state ≠ .closed) :
      Effect globMatch c (.pushCheck n) { c with pushes := c.pushes.set n { p with checked := true } }
  | pushLocked {n : ℕ} {p : Push} (hpush : c.pushes[n]? = some p) (hchecked : p.checked = true) :
      Effect globMatch c (.pushLocked n) (pushLocked { c with pushes := c.pushes.eraseIdx n } p)

variable {globMatch : Glob} {c c' : Client}

/-- A callback runs only on the idle event loop. -/
theorem callback_eq {f : Client → Client} (h : c.callback f = some c') :
    c.phase = .running ∧ c.activity = .idle ∧ c' = f c := by
  unfold callback at h
  split_ifs at h with hidle
  · exact ⟨hidle.1, hidle.2, (Option.some.inj h).symm⟩

/-- A client that is not CLOSED, as the handlers test it. -/
theorem isClosed_eq_false : c.isClosed = false ↔ c.state ≠ .closed := by
  simp [isClosed]

/-- `is_closed` is the state CLOSED. -/
theorem isClosed_eq_true : c.isClosed = true ↔ c.state = .closed := by
  simp [isClosed]

/-- A method of a transaction. -/
theorem stepRaw_use {t : ℕ} {i : TxInput} (hcommit : ∀ u, i ≠ .commit u) :
    c.stepRaw globMatch (.use t i) = (c.txs[t]?).bind fun cell =>
      if !cell.held then none
      else
        (OpenTx.step globMatch ⟨c.store, cell.tx, []⟩ i).map fun answer =>
          { c with txs := c.txs.set t { cell with tx := answer.1.tx } } := by
  cases i with
  | commit u => exact absurd rfl (hcommit u)
  | _ =>
    simp only [stepRaw]
    cases c.txs[t]? <;> rfl

/-- Every accepted step has its effect. -/
theorem stepRaw_effect {e : Event} (h : c.stepRaw globMatch e = some c') :
    Effect globMatch c e c' := by
  cases e with
  | start refused =>
    simp only [stepRaw] at h
    split_ifs at h with hready
    obtain rfl := Option.some.inj h
    exact .start hready.1 hready.2
  | connected i =>
    simp only [stepRaw] at h
    split at h
    · cases h
    · next con hcon =>
      split_ifs at h with hstate
      obtain ⟨hphase, hidle, rfl⟩ := callback_eq h
      exact .connected hphase hidle hcon hstate.1
  | failed i cause =>
    simp only [stepRaw] at h
    split_ifs at h with hphase
    obtain rfl := Option.some.inj h
    exact .failed hphase
  | closed i delay retry refused =>
    simp only [stepRaw] at h
    split at h
    · cases h
    · next con hcon =>
      split_ifs at h with hstate
      obtain ⟨hphase, hidle, rfl⟩ := callback_eq h
      exact .closed hphase hidle hcon fun hclosed => hstate (Or.inl (by simp [Connection.isClosed, hclosed]))
  | read i =>
    simp only [stepRaw] at h
    split at h
    · cases h
    · next con hcon =>
      split_ifs at h with hstate
      obtain ⟨hphase, hidle, rfl⟩ := callback_eq h
      exact .read hphase hidle hcon hstate.1
  | message msg throws =>
    simp only [stepRaw] at h
    split at h
    · next i hreading =>
      obtain rfl := Option.some.inj h
      exact .message hreading
    · cases h
  | malformed =>
    simp only [stepRaw] at h
    split at h
    · next i hreading =>
      obtain rfl := Option.some.inj h
      exact .malformed hreading
    · cases h
  | readEnd =>
    simp only [stepRaw] at h
    split at h
    · next i hreading =>
      obtain rfl := Option.some.inj h
      exact .readEnd hreading
    · cases h
  | update =>
    simp only [stepRaw] at h
    split at h
    · next i crev hpushing =>
      obtain rfl := Option.some.inj h
      exact .updatesEnd hpushing
    · next i crev u rest hpushing =>
      obtain rfl := Option.some.inj h
      exact .update hpushing
    · cases h
  | timerConLost =>
    simp only [stepRaw] at h
    split_ifs at h with htimer
    obtain ⟨hphase, hidle, rfl⟩ := callback_eq h
    exact .timerConLost hphase hidle
  | timerReconnect refused =>
    simp only [stepRaw] at h
    split_ifs at h with htimer
    obtain ⟨hphase, hidle, rfl⟩ := callback_eq h
    exact .timerReconnect hphase hidle htimer
  | sigint =>
    obtain ⟨hphase, hidle, rfl⟩ := callback_eq h
    exact .sigint hphase hidle
  | async =>
    simp only [stepRaw] at h
    split_ifs at h with hasync
    obtain ⟨hphase, hidle, rfl⟩ := callback_eq h
    by_cases hclosed : c.state = .closed
    · simpa [isClosed, hclosed] using Effect.asyncClosed hphase hidle hclosed
    · simpa [isClosed, hclosed] using Effect.async hphase hidle hclosed
  | command =>
    simp only [stepRaw] at h
    split at h
    · next command rest hdraining hcommands =>
      obtain rfl := Option.some.inj h
      exact .command hdraining hcommands
    · cases h
  | commandsEnd =>
    simp only [stepRaw] at h
    split_ifs at h with hdraining
    obtain rfl := Option.some.inj h
    exact .commandsEnd hdraining.1
  | unwind =>
    simp only [stepRaw] at h
    split_ifs at h with hrunning
    obtain rfl := Option.some.inj h
    exact .unwind hrunning.1 (hrunning.2.imp_right And.left)
  | finish =>
    simp only [stepRaw] at h
    split_ifs at h with hphase
    obtain rfl := Option.some.inj h
    exact .finish hphase
  | createTx isolation readOnly =>
    obtain rfl := Option.some.inj h
    exact .createTx
  | use t i =>
    have hcommit : ∀ u, i ≠ .commit u := by
      rintro u rfl
      cases h
    rw [stepRaw_use hcommit] at h
    obtain ⟨cell, hcell, hcalled⟩ := Option.bind_eq_some_iff.mp h
    split_ifs at hcalled with hheld
    obtain ⟨answer, hstep, rfl⟩ := Option.map_eq_some_iff.mp hcalled
    exact .use hcell hcommit hstep
  | discard t =>
    simp only [stepRaw] at h
    split at h
    · cases h
    · next cell hcell =>
      split_ifs at h with hheld
      obtain rfl := Option.some.inj h
      exact .discard hcell
  | release t =>
    obtain ⟨cell, hcell, rfl⟩ := Option.map_eq_some_iff.mp h
    exact .release hcell
  | submit t force =>
    simp only [stepRaw] at h
    split at h
    · cases h
    · next cell hcell =>
      split_ifs at h with hheld
      obtain rfl := Option.some.inj h
      exact .submit hcell
  | close =>
    obtain rfl := Option.some.inj h
    exact .close
  | stop =>
    simp only [stepRaw] at h
    split_ifs at h with hphase
    obtain rfl := Option.some.inj h
    exact .stop hphase
  | ping payload =>
    simp only [stepRaw] at h
    split_ifs at h with hclosed
    · obtain rfl := Option.some.inj h
      exact .pingRefused (isClosed_eq_true.mp hclosed)
    · obtain rfl := Option.some.inj h
      exact .ping (isClosed_eq_false.mp (by simpa using hclosed))
  | fetchSessions enableStream =>
    simp only [stepRaw] at h
    split_ifs at h with hmay
    · obtain rfl := Option.some.inj h
      refine .fetchSessions (isClosed_eq_false.mp ?_)
      simp only [mayFetchSessions, Bool.and_eq_true, Bool.not_eq_true'] at hmay
      exact hmay.1.2
    · obtain rfl := Option.some.inj h
      exact .fetchRefused
  | loopPing payload =>
    simp only [stepRaw] at h
    split_ifs at h with hmay
    obtain rfl := Option.some.inj h
    exact .loopPing hmay.1 (isClosed_eq_false.mp hmay.2.2)
  | loopFetchSessions enableStream =>
    simp only [stepRaw] at h
    split_ifs at h with hmay
    obtain rfl := Option.some.inj h
    refine .loopFetchSessions hmay.1 (isClosed_eq_false.mp ?_)
    have hmay' := hmay.2.2
    simp only [mayFetchSessions, Bool.and_eq_true, Bool.not_eq_true'] at hmay'
    exact hmay'.1.2
  | pushCheck n =>
    simp only [stepRaw] at h
    split at h
    · cases h
    · next p hpush =>
      split_ifs at h with hclosed
      · obtain rfl := Option.some.inj h
        exact .pushClosed hpush (isClosed_eq_true.mp hclosed)
      · obtain rfl := Option.some.inj h
        exact .pushCheck hpush (isClosed_eq_false.mp (by simpa using hclosed))
  | pushLocked n =>
    simp only [stepRaw] at h
    split at h
    · cases h
    · next p hpush =>
      split_ifs at h with hchecked
      obtain rfl := Option.some.inj h
      exact .pushLocked hpush hchecked

/-- An accepted step has its effect and destroys the transactions without references. -/
theorem step_effect {e : Event} (h : c.step globMatch e = some c') :
    c.activity ≠ .crashed ∧ ∃ c₁, Effect globMatch c e c₁ ∧ c' = c₁.reap := by
  unfold step at h
  split_ifs at h with hcrashed
  obtain ⟨c₁, hraw, rfl⟩ := Option.map_eq_some_iff.mp h
  exact ⟨hcrashed, c₁, stepRaw_effect hraw, rfl⟩

end Client

end Nplex
