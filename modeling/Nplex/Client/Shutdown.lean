import Nplex.Client.Commands
import Nplex.Client.Futures
import Nplex.Client.Responses
import Nplex.Client.SessionLoss

/-!
# The futures at the end of a run

Becoming CLOSED clears the commands, the requests and the accepted submits before
`cancel_requests` runs, and a `push_command` on a closed client returns as if it had pushed. The
futures of the transactions in these places are never made ready: `run` returns with every future
ready when no step closes the client while one is waited for, and no submit comes too late.
-/

namespace Nplex

open Nplex.Common

/-- The steps that are about the call of `submit`. -/
def Event.submitting : Event → Bool
  | .submit _ _ | .pushCheck _ | .pushLocked _ => true
  | _ => false

namespace Client

instance (c : Client) (resp : SnapshotResponse) (throws : Bool) :
    Decidable (c.abortsOn resp throws) :=
  inferInstanceAs (Decidable (c.state = .loadingSnapshot ∧ resp.cid = c.dataCid ∧
    resp.accepted = true ∧ (c.loadSnapshot resp.snapshot).broken = false ∧ c.hasReactor = true ∧
    throws = true))

/-- The step takes an open client to CLOSED, where it stays: the manager does not reconnect, the
reactor throws on its first call, a signal or a close arrives, or `uv_run` is over. -/
def closing (c : Client) (e : Event) : Bool :=
  !c.isClosed &&
    match e with
    | .closed i delay retry _ =>
      match c.con with
      | none => (c.connections.eraseIdx i).all (·.isClosed) && delay.getD (-1) < 0
      | some j => j = i && !retry.getD false
    | .message (some (.snapshotResponse resp)) throws =>
      match c.activity with
      | .reading i => c.con = some i && c.abortsOn resp throws
      | _ => false
    | .sigint | .unwind => true
    | .command => c.commands.head? = some .close
    | _ => false

/-- The step cancels the submit of the transaction: its request is in `m_requests` when the session
is lost. -/
def cancelsOn (c : Client) (e : Event) (t : ℕ) (cell : TxCell) : Bool :=
  match e with
  | .closed _ _ _ _ => c.con.isSome && cell.tx.state = .submitted && c.requested t
  | _ => false

/-- The command is the submit of a transaction without a result. -/
def unresolved (c : Client) : Command → Bool
  | .request (.submit t _) => c.txs[t]?.any (·.tx.promise.result.isNone)
  | .request (.ping _ _) | .request (.sessions _ _) | .close => false

/-- The step closes the client only when the user waits for no future but those it cancels, and
takes the future of no submit that the closed client has not got: `push_command` returns without a
push, or pushes after `process_commands` has come to its end. -/
def closesInTime (c : Client) (e : Event) : Bool :=
  (!c.closing e || c.txs.zipIdx.all fun cell =>
    !(cell.1.held && cell.1.tx.blocks) || c.cancelsOn e cell.2 cell.1) &&
  match e with
  | .pushCheck n => !c.isClosed || c.pushes[n]?.all fun p => !c.unresolved p.command
  | .pushLocked n => !c.isClosed || c.activity = .draining || c.commandLimit ≤ c.commands.length ||
      c.pushes[n]?.all fun p => !c.unresolved p.command
  | _ => true

/-- A client that has just become CLOSED: nothing is queued and no transaction is registered. -/
structure Vacated (c : Client) : Prop where
  commands : c.commands = []
  requests : c.requests = []
  accepted : c.accepted = []
  txs : ∀ cell ∈ c.txs, cell.registered = false

section Closing

variable {globMatch : Glob} {c c' : Client}

/-- An aborted client has left nothing in its queues. -/
theorem vacated_abort (hopen : c.state ≠ .closed) : c.abort.Vacated := by
  have hledger := abort_ledger hopen
  refine ⟨congrArg Ledger.commands hledger, congrArg Ledger.requests hledger,
    congrArg Ledger.accepted hledger, fun cell hcell => ?_⟩
  have htxs : c.abort.txs = c.txs.map fun cell => { cell with registered := false } :=
    congrArg Ledger.txs hledger
  rw [htxs] at hcell
  obtain ⟨_, -, rfl⟩ := List.mem_map.mp hcell
  rfl

/-- `cancel_requests` finds nothing once the client is CLOSED. -/
theorem cancelRequests_of_empty (hrequests : c.requests = []) (haccepted : c.accepted = []) :
    c.cancelRequests = c := by
  unfold cancelRequests
  rw [hrequests]
  unfold cancelPending andThen
  split
  · rfl
  · change cancelAccepted c.accepted c = c
    rw [haccepted]
    rfl

/-- So has one whose `run` is on its way out. -/
theorem vacated_unwindRun (hopen : c.state ≠ .closed) : c.unwindRun.Vacated := by
  unfold unwindRun
  dsimp only
  rw [setState_closed (c := { c with phase := .unwinding, activity := .idle }) hopen,
    cancelRequests_of_empty rfl rfl]
  refine ⟨rfl, rfl, rfl, fun cell hcell => ?_⟩
  obtain ⟨_, -, rfl⟩ := List.mem_map.mp hcell
  rfl

/-- The request for updates does not close the client. -/
theorem requestUpdates_open (c : Client) (rev : ℕ) : (c.requestUpdates rev).state ≠ .closed := by
  have hstate : (c.requestUpdates rev).state = .syncing :=
    (state_of_link (send_link _ _)).trans (setState_state c .syncing)
  simp [hstate]

/-- Nor does the rest of a login. -/
theorem startSession_open (c : Client) (resp : LoginResponse) :
    (c.startSession resp).state ≠ .closed := by
  unfold startSession
  dsimp only
  split
  · exact requestUpdates_open _ _
  · split
    · exact requestUpdates_open _ _
    · unfold requestSnapshot
      rw [state_of_link (send_link _ _)]
      simp

/-- The callback of a connection that is closed. -/
theorem closing_onConnectionClosed (hopen : c.state ≠ .closed) {i : ℕ} {con : Connection}
    {delay : Option Int} {retry : Option Bool} {refused : Option ℕ}
    {c₀ : Client} (hc₀ : { c with connections := c.connections.set i con.onClose } = c₀)
    (hclosed : (c₀.onConnectionClosed i delay retry refused).state = .closed) :
    c.closing (.closed i delay retry refused) = true ∧
      (c₀.onConnectionClosed i delay retry refused).Vacated := by
  have hopen₀ : c₀.state ≠ .closed := by rwa [← hc₀]
  have hcon₀ : c₀.con = c.con := by rw [← hc₀]
  have hnotClosed : c.isClosed = false := isClosed_eq_false.mpr hopen
  unfold onConnectionClosed at hclosed ⊢
  rw [if_neg (by simp [isClosed, hopen₀])] at hclosed ⊢
  split at hclosed
  · next hall =>
    rw [if_pos hall]
    simp only [Bool.and_eq_true, decide_eq_true_eq, List.all_eq_true] at hall
    split at hclosed
    · next hdelay =>
      rw [if_pos hdelay]
      refine ⟨?_, vacated_abort hopen₀⟩
      have hothers : (c.connections.eraseIdx i).all (·.isClosed) = true := by
        rw [List.all_eq_true]
        intro other hother
        obtain ⟨j, hj, hget⟩ := List.mem_eraseIdx_iff_getElem?.mp hother
        refine hall.2 other (List.mem_of_getElem? (i := j) ?_)
        rw [← hc₀]
        exact (List.getElem?_set_ne (Ne.symm hj)).trans hget
      simp [closing, hnotClosed, ← hcon₀, hall.1, hothers, hdelay]
    · have hstate : c₀.scheduleReconnect.state = c₀.state := by
        unfold scheduleReconnect
        rw [if_neg (by simp [isClosed, hopen₀]), write_of_open hopen₀]
      exact absurd (hstate.symm.trans hclosed) hopen₀
  · next hall =>
    rw [if_neg hall]
    split at hclosed
    · exact absurd hclosed hopen₀
    · next hsession =>
      rw [if_neg hsession]
      have hlost : c₀.loseSession.state ≠ .closed := by simp [(loseSession_spec hopen₀).2.1]
      have hcon' : c.con = some i := by rw [← hcon₀]; simpa using hsession
      unfold andThen at hclosed ⊢
      split at hclosed
      · exact absurd hclosed hlost
      · next hgoes =>
        rw [if_neg hgoes]
        have hrest : state { c₀.loseSession with timerConLost := false } ≠ .closed := hlost
        dsimp only at hclosed ⊢
        split at hclosed
        · exact absurd hclosed (staysOpen_tryToConnect _ _ hrest).1
        · next hretry =>
          rw [if_neg hretry]
          refine ⟨?_, vacated_abort hrest⟩
          simp [closing, hnotClosed, hcon', hretry]

/-- The snapshot response. -/
theorem closing_processSnapshotResp (hopen : c.state ≠ .closed) {i : ℕ} {resp : SnapshotResponse}
    {throws : Bool} (hreading : c.activity = .reading i) (hcon : c.con = some i)
    (hclosed : (c.processSnapshotResp resp throws).state = .closed) :
    c.closing (.message (some (.snapshotResponse resp)) throws) = true ∧
      (c.processSnapshotResp resp throws).Vacated := by
  have hdisconnect : ∀ cause, (c.disconnectCon cause).state ≠ .closed := fun cause =>
    ((acts_disconnectCon c cause).staysOpen rfl hopen).1
  unfold processSnapshotResp at hclosed ⊢
  split at hclosed
  · exact absurd hclosed (hdisconnect _)
  · next hexpected =>
    rw [if_neg hexpected]
    push Not at hexpected
    split at hclosed
    · exact absurd hclosed (hdisconnect _)
    · next haccepted =>
      rw [if_neg haccepted]
      have hload : (c.loadSnapshot resp.snapshot).state ≠ .closed :=
        (loadSnapshot_state c resp.snapshot).trans_ne hopen
      unfold andThen at hclosed ⊢
      split at hclosed
      · exact absurd hclosed hload
      · next hgoes =>
        rw [if_neg hgoes]
        have hcall : ((c.loadSnapshot resp.snapshot).call .initialData).state ≠ .closed :=
          (call_state _ _).trans_ne hload
        dsimp only at hclosed ⊢
        split at hclosed
        · next hthrows =>
          rw [if_pos hthrows]
          refine ⟨?_, vacated_abort ((acts_disconnectCon _ _).staysOpen rfl hcall).1⟩
          have haborts : c.abortsOn resp throws := by
            have hreactor : ((c.loadSnapshot resp.snapshot).call .initialData).hasReactor =
                c.hasReactor := by
              unfold call loadSnapshot throw
              split <;> split <;> try split
              all_goals rfl
            rw [Bool.and_eq_true, hreactor] at hthrows
            exact ⟨hexpected.1, hexpected.2, by simpa using haccepted, by simpa using hgoes,
              hthrows.1, hthrows.2⟩
          simp [closing, isClosed, hopen, hreading, hcon, haborts]
        · refine absurd hclosed ?_
          unfold finishSnapshot
          exact requestUpdates_open _ _

/-- A message closes the client only in the answer to the first request of data. -/
theorem closing_onMsgReceived (hopen : c.state ≠ .closed) {i : ℕ} {msg : Option ServerMsg}
    {throws : Bool} (hreading : c.activity = .reading i)
    (hclosed : (c.onMsgReceived i msg throws).state = .closed) :
    c.closing (.message msg throws) = true ∧ (c.onMsgReceived i msg throws).Vacated := by
  have hacts : ∀ {kinds : List ActionKind} {c₁ : Client}, Acts kinds c c₁ →
      kinds.all ActionKind.staysOpen = true → c₁.state ≠ .closed :=
    fun hacts hkinds => (hacts.staysOpen hkinds hopen).1
  unfold onMsgReceived at hclosed ⊢
  split at hclosed
  · exact absurd hclosed hopen
  · next resp =>
    refine absurd hclosed ?_
    unfold processLoginResp
    split
    · exact hopen
    · split
      · exact hopen
      · split
        · exact hopen
        · exact startSession_open _ _
  · split at hclosed
    · exact absurd hclosed hopen
    · next hsession =>
      rw [if_neg hsession]
      split at hclosed
      · exact absurd hclosed (hacts (acts_processSubmitResp c _) rfl)
      · exact closing_processSnapshotResp hopen hreading (by simpa using hsession) hclosed
      · exact absurd hclosed (hacts (acts_processUpdatesResp c _) rfl)
      · exact absurd hclosed (hacts (acts_processUpdatesPush c i _) rfl)
      · exact absurd hclosed hopen
      · exact absurd hclosed (hacts (acts_processPingResp c _) rfl)
      · exact absurd hclosed (hacts (acts_processSessionsResp c _ _) rfl)
      · exact absurd hclosed (hacts (acts_processSessionsPush c _ _) rfl)
      · exact absurd hclosed hopen
      · exact absurd hclosed hopen

/-- An open client becomes CLOSED in a closing step only, which leaves nothing queued. -/
theorem closing_effect {e : Event} (heffect : Effect globMatch c e c') (hended : c.ClosedAfterRun)
    (hopen : c.state ≠ .closed) (hclosed : c'.state = .closed) :
    c.closing e = true ∧ c'.Vacated := by
  have hnotClosed : c.isClosed = false := isClosed_eq_false.mpr hopen
  have hsame : ∀ {c₁ : Client}, c₁.link = c.link → c₁.state ≠ .closed := fun hlink =>
    (state_of_link hlink).trans_ne hopen
  have hacts : ∀ {kinds : List ActionKind} {c₁ c₂ : Client}, Acts kinds c₁ c₂ → c₁.state ≠ .closed →
      kinds.all ActionKind.staysOpen = true → c₂.state ≠ .closed :=
    fun hacts hopen hkinds => (hacts.staysOpen hkinds hopen).1
  cases heffect with
  | start => exact absurd hclosed (staysOpen_tryToConnect { c with phase := .running, con := none } _ hopen).1
  | @connected i con =>
    have hestablished := acts_onConnectionEstablished
      { c with connections := c.connections.set i { con with state := .connected } } i
    exact absurd hclosed (hacts hestablished hopen rfl)
  | failed => exact absurd hclosed hopen
  | closed => exact closing_onConnectionClosed hopen rfl hclosed
  | read => exact absurd hclosed hopen
  | message hreading => exact closing_onMsgReceived hopen hreading hclosed
  | malformed => exact absurd hclosed hopen
  | readEnd => exact absurd hclosed hopen
  | @update i crev u rest =>
    have hpush := acts_pushUpdate globMatch { c with activity := .pushing i crev rest } crev u
    exact absurd hclosed (hacts hpush hopen rfl)
  | updatesEnd => exact absurd hclosed hopen
  | timerConLost => exact absurd hclosed (hacts (acts_onConnectionLost c) hopen rfl)
  | timerReconnect =>
    exact absurd hclosed (staysOpen_tryToConnect { c with timerReconnect := false } _ hopen).1
  | sigint => exact ⟨by simp [closing, hnotClosed], vacated_abort hopen⟩
  | asyncClosed => exact absurd hclosed hopen
  | async => exact absurd hclosed hopen
  | @command command rest hdraining hcommands =>
    cases command with
    | close =>
      exact ⟨by simp [closing, hnotClosed, hcommands],
        vacated_abort (c := { c with commands := rest }) hopen⟩
    | request kind => exact absurd hclosed (hacts (acts_nextRequest c kind rest) hopen rfl)
  | commandsEnd => exact absurd hclosed hopen
  | unwind => exact ⟨by simp [closing, hnotClosed], vacated_unwindRun hopen⟩
  | finish hphase => exact absurd (hended (Or.inl hphase)) hopen
  | createTx => exact absurd hclosed (hsame (createTx_link c _ _))
  | use => exact absurd hclosed hopen
  | discard => exact absurd hclosed (hsame (onTx_link c _ _))
  | release => exact absurd hclosed hopen
  | submit => exact absurd hclosed (hsame (submitTx_link c _ _ _))
  | close => exact absurd hclosed hopen
  | stop => exact absurd hclosed hopen
  | pingRefused => exact absurd hclosed hopen
  | ping => exact absurd hclosed hopen
  | fetchRefused => exact absurd hclosed hopen
  | fetchSessions => exact absurd hclosed hopen
  | loopPing => exact absurd hclosed (hacts (acts_loopPing c _) hopen rfl)
  | loopFetchSessions => exact absurd hclosed (hacts (acts_loopFetchSessions c _) hopen rfl)
  | pushClosed _ hstate => exact absurd hstate hopen
  | pushCheck => exact absurd hclosed hopen
  | @pushLocked n p => exact absurd hclosed (hacts (acts_pushEnded c n p) hopen rfl)

end Closing

/-- The invariant of the futures. On a closed client the user waits only for submits that the last
turns of `process_commands` refuse. -/
structure Served (c : Client) : Prop where
  pushing : ∀ (t : ℕ) (cell : TxCell), c.txs[t]? = some cell → cell.tx.blocks = true →
    c.pushing t = false
  earlier : ∀ cell ∈ c.txs, ∀ p ∈ cell.tx.earlier, p.blocks = false
  closed : c.state = .closed → ∀ (t : ℕ) (cell : TxCell), c.txs[t]? = some cell →
    cell.tx.blocks = true → c.activity = .draining ∧ ∃ command ∈ c.commands, command.submits t = true

section Steps

variable {globMatch : Glob} {c c' : Client}

/-- No earlier promise blocks after what takes no future. -/
theorem earlier_eases (h : ∀ cell ∈ c.txs, ∀ p ∈ cell.tx.earlier, p.blocks = false)
    (heases : Eases c c') : ∀ cell ∈ c'.txs, ∀ p ∈ cell.tx.earlier, p.blocks = false := by
  intro cell' hcell' p hp
  by_contra hne
  have hwaits : p.blocks = true := by simpa using hne
  have hblocks : cell'.tx.blocks = true := by
    rw [Transaction.blocks, Bool.or_eq_true]
    exact Or.inr (List.any_eq_true.mpr ⟨p, hp, hwaits⟩)
  obtain ⟨t, ht⟩ := List.mem_iff_getElem?.mp hcell'
  obtain ⟨cell, hcell, hsubsides, -⟩ := heases.txs t cell' ht hblocks
  have hold := h cell (List.mem_of_getElem? hcell) p (hsubsides.earlier p hp hwaits)
  exact hne hold

/-- What takes no future keeps the invariant, as long as it keeps that of a closed client. -/
theorem Served.eases (h : c.Served) (heases : Eases c c')
    (hclosed : c'.state = .closed → ∀ (t : ℕ) (cell : TxCell), c'.txs[t]? = some cell →
      cell.tx.blocks = true →
        c'.activity = .draining ∧ ∃ command ∈ c'.commands, command.submits t = true) : c'.Served where
  pushing t cell' hcell' hblocks := by
    obtain ⟨cell, hcell, hsubsides, -⟩ := heases.txs t cell' hcell' hblocks
    by_contra hpushing
    have hbefore := heases.pushing t (by simpa using hpushing)
    rw [h.pushing t cell hcell (hsubsides.blocks hblocks)] at hbefore
    cases hbefore
  earlier := earlier_eases h.earlier heases
  closed := hclosed

/-- What takes no future and leaves the event loop alone keeps the invariant. -/
theorem Served.of_eases (h : c.Served) (heases : Eases c c') (hstate : c'.state = c.state)
    (hactivity : c'.activity = c.activity) (hcommands : ∀ command ∈ c.commands, command ∈ c'.commands) :
    c'.Served :=
  h.eases heases fun hclosed t cell' hcell' hblocks => by
    obtain ⟨cell, hcell, hsubsides, -⟩ := heases.txs t cell' hcell' hblocks
    obtain ⟨hdraining, command, hmem, hsubmits⟩ :=
      h.closed (hstate.symm.trans hclosed) t cell hcell (hsubsides.blocks hblocks)
    exact ⟨hactivity.trans hdraining, command, hcommands command hmem, hsubmits⟩

/-- The transactions that are destroyed block nobody. -/
theorem Served.reap (h : c.Served) : c.reap.Served :=
  h.of_eases (eases_reap c) rfl rfl fun _ hmem => hmem

/-- A future that blocks is that of a promise without a result. -/
theorem unset_of_blocks {tx : Transaction} (hearlier : ∀ p ∈ tx.earlier, p.blocks = false)
    (hblocks : tx.blocks = true) : tx.promise.result = none := by
  have hnone : tx.earlier.any Promise.blocks = false :=
    List.any_eq_false.mpr fun p hp => by simp [hearlier p hp]
  rw [Transaction.blocks, hnone, Bool.or_false] at hblocks
  by_contra hresult
  rw [Transaction.blocks_of_result hresult] at hblocks
  cases hblocks

/-- Once the transactions without references are destroyed, a client that has just become CLOSED
and blocks nobody that holds a transaction blocks nobody. -/
theorem Vacated.ready (hvacated : c.Vacated)
    (hearlier : ∀ cell ∈ c.txs, ∀ p ∈ cell.tx.earlier, p.blocks = false)
    (hpushing : ∀ (t : ℕ) (cell : TxCell), c.txs[t]? = some cell → cell.tx.blocks = true →
      c.pushing t = false)
    (hheld : ∀ cell ∈ c.txs, cell.held = true → cell.tx.blocks = false) :
    ∀ cell ∈ c.reap.txs, cell.tx.blocks = false := by
  intro cell' hcell'
  obtain ⟨t, ht⟩ := List.mem_iff_getElem?.mp hcell'
  unfold reap at ht
  rw [List.getElem?_mapIdx] at ht
  obtain ⟨cell, hcell, rfl⟩ := Option.map_eq_some_iff.mp ht
  have hmem := List.mem_of_getElem? hcell
  split
  · next hused =>
    rw [hvacated.txs cell hmem, Bool.false_or] at hused
    by_contra hne
    have hblocks : cell.tx.blocks = true := by simpa using hne
    have hnot := hpushing t cell hcell hblocks
    rcases Bool.or_eq_true_iff.mp hused with hyes | hrefers
    · exact hne (hheld cell hmem hyes)
    · unfold refersTo at hrefers
      rw [hvacated.commands, hvacated.requests, hvacated.accepted] at hrefers
      unfold Client.pushing at hnot
      simp [hnot] at hrefers
  · exact Transaction.discard_ready (hearlier cell hmem)

/-- A push that is not a submit begins. -/
theorem eases_push {p : Push} (hp : ∀ t, p.command.submits t = false) {tickets : ℕ} :
    Eases c { c with tickets := tickets, pushes := c.pushes ++ [p] } := by
  refine ⟨fun t ht => ?_, fun _ cell hcell _ => ⟨cell, hcell, .refl _, id⟩⟩
  unfold Client.pushing at ht
  rw [List.any_append, Bool.or_eq_true] at ht
  rcases ht with hold | hlast
  · exact hold
  · simp [hp t] at hlast

/-- All other steps take no future. -/
theorem eases_effect {e : Event} (hsubmitting : e.submitting = false)
    (heffect : Effect globMatch c e c') : Eases c c' := by
  cases heffect with
  | start => exact .of_ledger (tryToConnect_ledger _ _)
  | @connected i con =>
    have hbegin : Eases c
        { c with connections := c.connections.set i { con with state := .connected } } :=
      .of_same rfl rfl
    exact hbegin.trans ((acts_onConnectionEstablished _ i).eases rfl)
  | failed => exact .of_same rfl rfl
  | @closed i delay retry refused con =>
    have hbegin : Eases c { c with connections := c.connections.set i con.onClose } :=
      .of_same rfl rfl
    exact hbegin.trans ((acts_onConnectionClosed _ i delay retry refused).eases rfl)
  | read => exact .of_same rfl rfl
  | message => exact (acts_onMsgReceived c _ _ _).eases rfl
  | malformed => exact .of_same rfl rfl
  | readEnd => exact .of_same rfl rfl
  | @update i crev u rest =>
    have hbegin : Eases c { c with activity := .pushing i crev rest } := .of_same rfl rfl
    exact hbegin.trans ((acts_pushUpdate globMatch _ crev u).eases rfl)
  | updatesEnd => exact .of_same rfl rfl
  | timerConLost => exact (acts_onConnectionLost c).eases rfl
  | timerReconnect => exact .of_ledger (tryToConnect_ledger _ _)
  | sigint => exact eases_abort c
  | asyncClosed => exact .of_same rfl rfl
  | async => exact .of_same rfl rfl
  | @command command rest =>
    have hbegin : Eases c { c with commands := rest } := .of_same rfl rfl
    exact hbegin.trans ((acts_processCommand _ command).eases rfl)
  | commandsEnd => exact .of_same rfl rfl
  | unwind => exact (acts_unwindRun c).eases rfl
  | finish => exact .of_unregistered rfl rfl
  | createTx => exact eases_createTx c _ _
  | use hcell _ hstep => exact eases_set hcell (OpenTx.step_sameFrame hstep).subsides id
  | discard => exact eases_onTx c _ Transaction.subsides_discard
  | release hcell => exact eases_set hcell (.refl _) fun hheld => absurd hheld (by simp)
  | submit => cases hsubmitting
  | close => exact eases_push fun _ => rfl
  | stop => exact eases_push fun _ => rfl
  | pingRefused => exact .refl c
  | ping => exact eases_push fun _ => rfl
  | fetchRefused => exact .refl c
  | fetchSessions => exact eases_push fun _ => rfl
  | @loopPing payload =>
    have hbegin : Eases c { c with tickets := c.tickets + 1 } := .of_same rfl rfl
    exact hbegin.trans ((acts_processPingCmd _ c.tickets payload).eases rfl)
  | @loopFetchSessions stream =>
    have hbegin : Eases c { c with tickets := c.tickets + 1 } := .of_same rfl rfl
    exact hbegin.trans ((acts_processSessionsCmd _ c.tickets stream).eases rfl)
  | pushClosed => cases hsubmitting
  | pushCheck => cases hsubmitting
  | pushLocked => cases hsubmitting

/-- Without a session `process_submit_cmd` refuses the submit. -/
theorem processSubmitCmd_refused (hcon : c.con = none) {t : ℕ} {cell : TxCell}
    (hcell : c.txs[t]? = some cell) (hsettled : cell.tx.Settled) (force : Bool) :
    c.processSubmitCmd t force = { c with
      txs := c.txs.set t { cell with tx := (cell.tx.setSubmitException .notConnected).1 } } := by
  unfold processSubmitCmd
  rw [hcell]
  dsimp only
  unfold processRequest
  rw [if_pos hcon]
  exact onTx_of_cell hcell _ (congrArg Prod.snd (Transaction.setSubmitException_eq hsettled _))

/-- The turns of `process_commands` on a closed client: a submit is refused, and the others wait for
their turns. -/
theorem closed_command (hqueued : c.Queued) (hcon : c.con = none) (hclosed : c.state = .closed)
    (hdraining : c.activity = .draining) {command : Command} {rest : List Command}
    (hcommands : c.commands = command :: rest) {t : ℕ} {cell' : TxCell}
    (hcell' : (processCommand { c with commands := rest } command).txs[t]? = some cell')
    (hunset : cell'.tx.promise.result = none)
    (hwaits : ∃ command ∈ c.commands, command.submits t = true) :
    (processCommand { c with commands := rest } command).activity = .draining ∧
      ∃ command' ∈ (processCommand { c with commands := rest } command).commands,
        command'.submits t = true := by
  have hrest : command.submits t = false → ∃ command ∈ rest, command.submits t = true := by
    intro hnot
    obtain ⟨other, hother, hsubmits⟩ := hwaits
    rw [hcommands] at hother
    rcases List.mem_cons.mp hother with rfl | hother
    · rw [hnot] at hsubmits
      cases hsubmits
    · exact ⟨other, hother, hsubmits⟩
  cases command with
  | close =>
    have hsame : processCommand { c with commands := rest } .close = { c with commands := rest } :=
      abort_of_closed (c := { c with commands := rest }) hclosed
    rw [hsame]
    exact ⟨hdraining, hrest rfl⟩
  | request kind =>
    cases kind with
    | submit u force =>
      have hpending : c.pending u ≠ 0 := by
        have hcount := carried_popCommand hcommands (·.submits u)
        rw [if_pos (by simp [Command.carries, RequestKind.submits])] at hcount
        unfold pending
        omega
      obtain ⟨cell, hcell⟩ : ∃ cell, c.txs[u]? = some cell :=
        ⟨_, List.getElem?_eq_getElem (hqueued.known u hpending)⟩
      have hsettled := hqueued.settled cell (List.mem_of_getElem? hcell)
      have hsame : processCommand { c with commands := rest } (.request (.submit u force)) =
          { c with
            commands := rest
            txs := c.txs.set u { cell with tx := (cell.tx.setSubmitException .notConnected).1 } } :=
        processSubmitCmd_refused (c := { c with commands := rest }) hcon hcell hsettled force
      rw [hsame] at hcell' ⊢
      refine ⟨hdraining, hrest ?_⟩
      by_contra hne
      obtain rfl : u = t := by simpa [Command.submits, RequestKind.submits] using hne
      rw [List.getElem?_set_self (List.getElem?_eq_some_iff.mp hcell).1] at hcell'
      obtain rfl := Option.some.inj hcell'
      rw [Transaction.setSubmitException_eq hsettled] at hunset
      rcases hqueued.submitted u cell hcell hpending with hsubmitted | hfinal
      · simp [hsubmitted] at hunset
      · have hnot : cell.tx.state ≠ .submitted := by
          intro hsubmitted
          simp [hsubmitted, TxState.isClosed] at hfinal
        simp only [if_neg hnot] at hunset
        exact hsettled.closed_iff.mp hfinal hunset
    | ping ticket payload =>
      have hsame : processCommand { c with commands := rest } (.request (.ping ticket payload)) =
          reply { c with commands := rest } ticket .notConnected := if_pos hcon
      rw [hsame]
      exact ⟨hdraining, hrest rfl⟩
    | sessions ticket stream =>
      have hsame : processCommand { c with commands := rest } (.request (.sessions ticket stream)) =
          reply { c with commands := rest } ticket .notConnected := if_pos hcon
      rw [hsame]
      exact ⟨hdraining, hrest rfl⟩

/-- What a closed client does, apart from the calls of `submit`: whoever still waits does so for the
turns of `process_commands`. -/
theorem closed_effect {e : Event} (hqueued : c.Queued) (hsound : c.Sound) (h : c.Served)
    (hclosed : c.state = .closed) (hsubmitting : e.submitting = false)
    (hend : e = .commandsEnd → c.commands = []) (heffect : Effect globMatch c e c') {t : ℕ}
    {cell' : TxCell} (hcell' : c'.txs[t]? = some cell') (hblocks : cell'.tx.blocks = true) :
    c'.activity = .draining ∧ ∃ command ∈ c'.commands, command.submits t = true := by
  have heases := eases_effect hsubmitting heffect
  obtain ⟨cell, hcell, hsubsides, -⟩ := heases.txs t cell' hcell' hblocks
  have hwaits := h.closed hclosed t cell hcell (hsubsides.blocks hblocks)
  have hrunning : c.phase = .running := hsound.busy (by simp [hwaits.1])
  have hidle : c.activity ≠ .idle := by simp [hwaits.1]
  cases heffect with
  | start hphase =>
    rw [hphase] at hrunning
    cases hrunning
  | connected _ hactivity => exact absurd hactivity hidle
  | failed => exact hwaits
  | closed _ hactivity => exact absurd hactivity hidle
  | read _ hactivity => exact absurd hactivity hidle
  | message hreading => simp [hwaits.1] at hreading
  | malformed hreading => simp [hwaits.1] at hreading
  | readEnd hreading => simp [hwaits.1] at hreading
  | update hpushing => simp [hwaits.1] at hpushing
  | updatesEnd hpushing => simp [hwaits.1] at hpushing
  | timerConLost _ hactivity => exact absurd hactivity hidle
  | timerReconnect _ hactivity => exact absurd hactivity hidle
  | sigint _ hactivity => exact absurd hactivity hidle
  | asyncClosed _ hactivity => exact absurd hactivity hidle
  | async _ hactivity => exact absurd hactivity hidle
  | command hdraining hcommands =>
    have hunset := unset_of_blocks
      (earlier_eases h.earlier heases cell' (List.mem_of_getElem? hcell')) hblocks
    exact closed_command hqueued (hsound.free hrunning hclosed) hclosed hdraining hcommands hcell'
      hunset hwaits.2
  | commandsEnd =>
    obtain ⟨-, command, hmem, -⟩ := hwaits
    rw [hend rfl] at hmem
    cases hmem
  | unwind _ hactivity => simp [hwaits.1] at hactivity
  | finish hphase =>
    rw [hphase] at hrunning
    cases hrunning
  | createTx =>
    have hsame : ∀ isolation readOnly, c.createTx isolation readOnly = c := fun _ _ =>
      if_pos (isClosed_eq_true.mpr hclosed)
    rw [hsame]
    exact hwaits
  | use => exact hwaits
  | discard hcell =>
    rw [onTx_of_cell hcell _ rfl]
    exact hwaits
  | release => exact hwaits
  | submit => cases hsubmitting
  | close => exact hwaits
  | stop => exact hwaits
  | pingRefused => exact hwaits
  | ping hopen => exact absurd hclosed hopen
  | fetchRefused => exact hwaits
  | fetchSessions hopen => exact absurd hclosed hopen
  | loopPing _ hopen => exact absurd hclosed hopen
  | loopFetchSessions _ hopen => exact absurd hclosed hopen
  | pushClosed => cases hsubmitting
  | pushCheck => cases hsubmitting
  | pushLocked => cases hsubmitting

/-- The loss of the session that closes the client makes the futures of the requests ready. -/
theorem canceled_ready (hqueued : c.Queued) (hidle : c.activity = .idle) (hopen : c.state ≠ .closed)
    {i : ℕ} (hi : c.con = some i) (con : Connection) (delay : Option Int) {retry : Option Bool}
    (hretry : retry.getD false = false) (refused : Option ℕ) {t : ℕ} {cell cell' : TxCell}
    (hcell : c.txs[t]? = some cell) (hsubmitted : cell.tx.state = .submitted)
    (hrequested : c.requested t = true)
    (hcell' : (onConnectionClosed { c with connections := c.connections.set i con.onClose } i delay
      retry refused).txs[t]? = some cell') : cell'.tx.promise.result ≠ none := by
  rw [onConnectionClosed_of_session hopen hi con delay retry refused] at hcell'
  obtain ⟨canceled, hcanceled, -, e, hresult⟩ :=
    sessionLost_aborts hqueued.settled hidle i con hcell hsubmitted hrequested
  have hlost : (c.sessionLost i con).state ≠ .closed := by
    have hspec := loseSession_spec
      (c := { c with connections := c.connections.set i con.onClose }) hopen
    unfold sessionLost
    simp [hspec.2.1]
  have hgoes : (c.sessionLost i con).broken = false := by
    have hactivity := (sessionLost_cancels hqueued.settled hidle i con).1.activity
    simp [broken, hactivity, hidle]
  generalize c.sessionLost i con = c₁ at hcell' hcanceled hlost hgoes
  have hledger := abort_ledger (c := { c₁ with timerConLost := false }) hlost
  have hafter : c₁.andThen (afterLoss retry refused) = abort { c₁ with timerConLost := false } := by
    unfold andThen afterLoss
    simp [hgoes, hretry]
  have htxs : (abort { c₁ with timerConLost := false }).txs =
      c₁.txs.map fun cell => { cell with registered := false } := congrArg Ledger.txs hledger
  rw [hafter, htxs, List.getElem?_map, hcanceled] at hcell'
  obtain rfl := Option.some.inj hcell'
  simp [hresult]

/-- A step that closes an open client in time leaves no future that blocks. -/
theorem ready_of_closing {e : Event} (hqueued : c.Queued) (hended : c.ClosedAfterRun) (h : c.Served)
    (hguard : c.closesInTime e = true) (hopen : c.state ≠ .closed) (hsubmitting : e.submitting = false)
    (heffect : Effect globMatch c e c') (hclosed : c'.state = .closed) :
    ∀ cell ∈ c'.reap.txs, cell.tx.blocks = false := by
  obtain ⟨hclosing, hvacated⟩ := closing_effect heffect hended hopen hclosed
  have heases := eases_effect hsubmitting heffect
  have hearlier := earlier_eases h.earlier heases
  refine hvacated.ready hearlier (fun t cell' hcell' hblocks => ?_) fun cell' hcell' hheld' => ?_
  · obtain ⟨cell, hcell, hsubsides, -⟩ := heases.txs t cell' hcell' hblocks
    have hnot := h.pushing t cell hcell (hsubsides.blocks hblocks)
    by_contra hpushing
    rw [heases.pushing t (by simpa using hpushing)] at hnot
    cases hnot
  · by_contra hne
    have hblocks' : cell'.tx.blocks = true := by simpa using hne
    obtain ⟨t, ht⟩ := List.mem_iff_getElem?.mp hcell'
    obtain ⟨cell, hcell, hsubsides, hheld⟩ := heases.txs t cell' ht hblocks'
    have hblocks := hsubsides.blocks hblocks'
    have hunset := unset_of_blocks (hearlier cell' hcell') hblocks'
    unfold closesInTime at hguard
    rw [hclosing, Bool.and_eq_true, Bool.not_true, Bool.false_or, List.all_eq_true] at hguard
    have hcancels := hguard.1 (cell, t) (List.mem_zipIdx_iff_getElem?.mpr hcell)
    simp only [hheld hheld', hblocks, Bool.and_self, Bool.not_true, Bool.false_or] at hcancels
    cases heffect with
    | @closed i delay retry refused con _ hidle =>
      simp only [cancelsOn, Bool.and_eq_true, decide_eq_true_eq] at hcancels
      obtain ⟨⟨hcon, hsubmitted⟩, hrequested⟩ := hcancels
      obtain ⟨j, hj⟩ := Option.isSome_iff_exists.mp hcon
      simp only [closing, hj, Bool.and_eq_true, decide_eq_true_eq, Bool.not_eq_true'] at hclosing
      obtain ⟨-, rfl, hretry⟩ := hclosing
      exact canceled_ready hqueued hidle hopen hj con delay hretry refused hcell hsubmitted hrequested
        ht hunset
    | _ => cases hcancels

/-- The start of a submit: it throws, makes its future ready, or begins its push. -/
theorem served_submitTx (hqueued : c.Queued) (h : c.Served) {t : ℕ} {cell : TxCell}
    (hcell : c.txs[t]? = some cell) (force : Bool) : (c.submitTx t cell force).Served := by
  have hmem := List.mem_of_getElem? hcell
  have hsettled := hqueued.settled cell hmem
  unfold submitTx
  by_cases hopen : cell.tx.state = .opened
  · rcases Transaction.submit_cases hsettled hopen force true with
      hgone | hpush | ⟨state, r, -, -, hdone⟩
    · rw [hgone]
      exact h
    · rw [hpush]
      have hquiet : cell.tx.blocks = false := by
        have hearlier : cell.tx.earlier.any Promise.blocks = false :=
          List.any_eq_false.mpr fun p hp => by simp [h.earlier cell hmem p hp]
        rw [Transaction.blocks, hearlier, Promise.blocks, hqueued.fresh cell hmem hopen]
        rfl
      have hsame : Eases c
          { c with txs := c.txs.set t { cell with tx := { cell.tx with state := .submitted } } } :=
        eases_set hcell ⟨id, fun _ hp _ => hp⟩ id
      have hserved := h.of_eases hsame rfl rfl fun _ hmem => hmem
      refine ⟨fun u cell' hcell' hblocks => ?_, hserved.earlier, hserved.closed⟩
      have hne : t ≠ u := by
        rintro rfl
        rw [List.getElem?_set_self (List.getElem?_eq_some_iff.mp hcell).1] at hcell'
        obtain rfl := Option.some.inj hcell'
        change cell.tx.blocks = true at hblocks
        rw [hquiet] at hblocks
        cases hblocks
      have hold := hserved.pushing u cell' hcell' hblocks
      unfold Client.pushing at hold ⊢
      rw [List.any_append, hold]
      simp [Command.submits, RequestKind.submits, hne]
    · rw [hdone]
      refine h.of_eases (eases_set hcell ⟨fun hblocks => ?_, fun _ hp _ => hp⟩ id) rfl rfl
        fun _ hmem => hmem
      simp [Promise.blocks] at hblocks
  · have hthrows : cell.tx.submit force true = .error .notOpen := if_pos hopen
    rw [hthrows]
    exact h

/-- A push that ends was one. -/
theorem pushing_erase {n t : ℕ} (h : (c.pushes.eraseIdx n).any (·.command.submits t) = true) :
    c.pushing t = true := by
  obtain ⟨p, hp, hsubmits⟩ := List.any_eq_true.mp h
  exact List.any_eq_true.mpr ⟨p, (List.eraseIdx_sublist _ _).subset hp, hsubmits⟩

/-- The check of `push_command` takes no future. -/
theorem eases_pushCheck {n : ℕ} {p : Push} (hpush : c.pushes[n]? = some p) :
    Eases c { c with pushes := c.pushes.set n { p with checked := true } } := by
  refine ⟨fun t ht => ?_, fun _ cell hcell _ => ⟨cell, hcell, .refl _, id⟩⟩
  have hany : ∀ pushes : List Push, pushes.any (·.command.submits t) =
      (pushes.map Push.command).any (·.submits t) := fun pushes => by
    rw [List.any_map]
    rfl
  unfold Client.pushing at ht ⊢
  rwa [hany, pushCheck_commands hpush, ← hany] at ht

/-- The end of a push whose future, if it is that of a submit, is ready. -/
theorem eases_endPush {p : Push} (hresolved : c.unresolved p.command = false) :
    Eases c (c.endPush p) := by
  unfold endPush
  split
  · next t force hcommand =>
    rw [hcommand] at hresolved
    unfold onTx
    split
    · exact .refl c
    · next cell hcell =>
      refine eases_set hcell ⟨fun hblocks => ?_, fun _ hp _ => hp⟩ id
      simp only [unresolved, hcell, Option.any_some] at hresolved
      simp [Transaction.takeFuture, Promise.blocks, hresolved] at hblocks
  · exact .refl c

/-- The end of a push changes the transactions only. -/
theorem endPush_eq (c : Client) (p : Push) : c.endPush p = { c with txs := (c.endPush p).txs } := by
  unfold endPush
  split
  · unfold onTx
    split <;> rfl
  · rfl

/-- The future of a submit is taken that the event loop will still answer. -/
theorem served_takeFuture (h : c.Served) {t : ℕ} (hpushing : c.pushing t = false)
    (hanswered : c.state = .closed →
      c.activity = .draining ∧ ∃ command ∈ c.commands, command.submits t = true) :
    (c.onTx t fun tx => (tx.takeFuture, none)).Served := by
  unfold onTx
  split
  · exact h
  · next cell hcell =>
    have hknown := (List.getElem?_eq_some_iff.mp hcell).1
    refine ⟨fun u cell' hcell' hblocks => ?_, fun cell' hcell' => ?_,
      fun hclosed u cell' hcell' hblocks => ?_⟩
    · by_cases hu : t = u
      · exact hu ▸ hpushing
      · exact h.pushing u cell' ((List.getElem?_set_ne hu).symm.trans hcell') hblocks
    · rcases List.mem_or_eq_of_mem_set hcell' with hold | rfl
      · exact h.earlier cell' hold
      · exact h.earlier cell (List.mem_of_getElem? hcell)
    · by_cases hu : t = u
      · exact hu ▸ hanswered hclosed
      · exact h.closed hclosed u cell' ((List.getElem?_set_ne hu).symm.trans hcell') hblocks

/-- No other `submit` of the transaction is in its `push_command`. -/
theorem Queued.pushed_once (hqueued : c.Queued) {n t : ℕ} {p : Push} (hpush : c.pushes[n]? = some p)
    (hsubmits : p.command.submits t = true) :
    (c.pushes.eraseIdx n).any (·.command.submits t) = false := by
  have honce := hqueued.once t
  have hcount := countP_eraseIdx_add hpush fun p => p.command.submits t
  simp only [pending, carried, ← submits_eq_carries] at honce
  rw [if_pos hsubmits] at hcount
  have hnone : (c.pushes.eraseIdx n).countP (fun p => p.command.submits t) = 0 := by omega
  rw [List.any_eq_false]
  exact List.countP_eq_zero.mp hnone

/-- The last part of a push on a client that is open, or whose commands are still taken. -/
theorem served_pushLocked (hqueued : c.Queued) (h : c.Served) {n : ℕ} {p : Push}
    (hpush : c.pushes[n]? = some p) (hguard : c.closesInTime (.pushLocked n) = true) :
    (pushLocked { c with pushes := c.pushes.eraseIdx n } p).Served := by
  have herased : ∀ {c₁ : Client}, c₁.txs = c.txs → c₁.pushes = c.pushes.eraseIdx n → Eases c c₁ := by
    intro c₁ htxs hpushes
    refine ⟨fun t ht => pushing_erase (n := n) ?_, fun _ cell hcell _ => ⟨cell, ?_, .refl _, id⟩⟩
    · rw [← hpushes]
      exact ht
    · rw [← htxs]
      exact hcell
  unfold pushLocked enqueue
  split
  · split <;> exact h.of_eases (herased rfl rfl) rfl rfl fun _ hmem => hmem
  · next hroom =>
    dsimp only
    generalize hpushed : (if c.commands.length + 1 = 1 then _ else _ : Client) = c₁
    obtain ⟨htxs, hpushes, hcommands, hstate, hactivity⟩ : c₁.txs = c.txs ∧
        c₁.pushes = c.pushes.eraseIdx n ∧ c₁.commands = c.commands ++ [p.command] ∧
        c₁.state = c.state ∧ c₁.activity = c.activity := by
      rw [← hpushed]
      split <;> exact ⟨rfl, rfl, rfl, rfl, rfl⟩
    have hserved : c₁.Served := h.of_eases (herased htxs hpushes) hstate hactivity fun _ hmem => by
      rw [hcommands]
      exact List.mem_append_left _ hmem
    by_cases hresolved : c₁.unresolved p.command = false
    · have hend := endPush_eq c₁ p
      refine hserved.of_eases (eases_endPush hresolved) ?_ ?_ fun _ hmem => ?_
      all_goals rw [hend]
      exact hmem
    · cases hcommand : p.command with
      | close => simp [hcommand, unresolved] at hresolved
      | request kind =>
        cases kind with
        | submit t force =>
          have hsubmits : p.command.submits t = true := by
            simp [hcommand, Command.submits, RequestKind.submits]
          have htaken : c₁.endPush p = c₁.onTx t fun tx => (tx.takeFuture, none) := by
            unfold endPush
            rw [hcommand]
          rw [htaken]
          refine served_takeFuture hserved ?_ fun hclosed => ⟨?_, p.command, ?_, hsubmits⟩
          · unfold Client.pushing
            rw [hpushes]
            exact hqueued.pushed_once hpush hsubmits
          · have hunresolved : c.unresolved p.command = true := by
              have hsame : c₁.unresolved p.command = c.unresolved p.command := by
                unfold unresolved
                rw [htxs]
              rw [← hsame]
              simpa using hresolved
            rw [hactivity]
            rw [hstate] at hclosed
            have hlimit : ¬c.commandLimit ≤ c.commands.length := hroom
            simpa [closesInTime, closing, isClosed, hclosed, hlimit, hpush, hunresolved] using hguard
          · rw [hcommands]
            simp
        | ping ticket payload => simp [hcommand, unresolved] at hresolved
        | sessions ticket stream => simp [hcommand, unresolved] at hresolved

/-- A step in time keeps the invariant of the futures. -/
theorem served_step {e : Event} (hqueued : c.Queued) (hsound : c.Sound) (hended : c.ClosedAfterRun)
    (h : c.Served) (hguard : c.closesInTime e = true) (hstep : c.step globMatch e = some c') :
    c'.Served := by
  obtain ⟨-, c₁, heffect, rfl⟩ := step_effect hstep
  by_cases hsubmitting : e.submitting = true
  · refine Served.reap ?_
    cases heffect with
    | submit hcell => exact served_submitTx hqueued h hcell _
    | @pushClosed n p hpush hclosed =>
      have hresolved : unresolved { c with pushes := c.pushes.eraseIdx n } p.command = false := by
        have hnot : c.unresolved p.command = false := by
          simpa [closesInTime, closing, isClosed, hclosed, hpush] using hguard
        exact hnot
      have herased : Eases c { c with pushes := c.pushes.eraseIdx n } :=
        ⟨fun _ ht => pushing_erase ht, fun _ cell hcell _ => ⟨cell, hcell, .refl _, id⟩⟩
      have hend := endPush_eq { c with pushes := c.pushes.eraseIdx n } p
      refine h.of_eases (herased.trans (eases_endPush hresolved)) ?_ ?_ fun _ hmem => ?_
      all_goals rw [hend]
      exact hmem
    | pushCheck hpush => exact h.of_eases (eases_pushCheck hpush) rfl rfl fun _ hmem => hmem
    | pushLocked hpush => exact served_pushLocked hqueued h hpush hguard
    | _ => cases hsubmitting
  · have hother : e.submitting = false := by simpa using hsubmitting
    have heases := eases_effect hother heffect
    by_cases hclosed' : c₁.state = .closed
    · by_cases hclosed : c.state = .closed
      · have hend : e = .commandsEnd → c.commands = [] := by
          rintro rfl
          unfold step at hstep
          split_ifs at hstep
          obtain ⟨c₂, hraw, -⟩ := Option.map_eq_some_iff.mp hstep
          simp only [stepRaw] at hraw
          split_ifs at hraw with hdone
          exact hdone.2
        refine (h.eases heases fun _ t cell hcell hblocks => ?_).reap
        exact closed_effect hqueued hsound h hclosed hother hend heffect hcell hblocks
      · have hready := ready_of_closing hqueued hended h hguard hclosed hother heffect hclosed'
        refine h.eases (heases.trans (eases_reap c₁)) fun _ t cell hcell hblocks => ?_
        rw [hready cell (List.mem_of_getElem? hcell)] at hblocks
        cases hblocks
    · exact (h.eases heases fun hclosed => absurd hclosed hclosed').reap

/-- All that the invariant of the futures rests on. -/
structure Secured (c : Client) : Prop where
  queued : c.Queued
  sound : c.Sound
  ended : c.ClosedAfterRun
  served : c.Served

/-- A new client is secured. -/
theorem secured_create (user password : Bytes) (maxActiveTxs rev0 servers : ℕ) (hasReactor : Bool) :
    (create user password maxActiveTxs rev0 servers hasReactor).Secured := by
  refine ⟨queued_create _ _ _ _ _ _, sound_create _ _ _ _ _ _, ?_, ⟨?_, ?_, ?_⟩⟩
  · rintro (hended | hended) <;> cases hended
  all_goals simp [create]

/-- So is the client after every step that meets the condition. -/
theorem secured_step {e : Event} (h : c.Secured) (hguard : c.closesInTime e = true)
    (hstep : c.step globMatch e = some c') : c'.Secured := by
  refine ⟨queued_step h.queued hstep, sound_step h.sound hstep, ?_,
    served_step h.queued h.sound h.ended h.served hguard hstep⟩
  obtain ⟨-, c₁, heffect, rfl⟩ := step_effect hstep
  have hended : c₁.ClosedAfterRun := closedAfterRun_effect h.sound h.ended heffect
  exact hended

/-- On every run whose steps close the client in time, once `run` has returned the client is CLOSED,
and every future that `submit` returned is ready. -/
theorem futures_ready_after_run (globMatch : Glob) (user password : Bytes)
    (maxActiveTxs rev0 servers : ℕ) (hasReactor : Bool) (events : List Event) (c : Client)
    (hrun : Run (step globMatch) (fun c e => c.closesInTime e = true)
      (create user password maxActiveTxs rev0 servers hasReactor) events c)
    (hphase : c.phase = .finished) :
    c.state = .closed ∧ ∀ cell ∈ c.txs, ∀ p ∈ cell.tx.promise :: cell.tx.earlier,
      p.retrieved = true → p.result ≠ none := by
  have hlast : c.Secured := hrun.invariant
    (fun _ _ _ hguard hstep h => secured_step h hguard hstep) (secured_create _ _ _ _ _ _)
  have hclosed : c.state = .closed := hlast.ended (Or.inr hphase)
  refine ⟨hclosed, fun cell hcell p hp hretrieved hresult => ?_⟩
  have hblocks : cell.tx.blocks = true := by
    have hp' : p.blocks = true := by simp [Promise.blocks, hretrieved, hresult]
    rw [Transaction.blocks, Bool.or_eq_true, List.any_eq_true]
    rcases List.mem_cons.mp hp with rfl | hp
    · exact Or.inl hp'
    · exact Or.inr ⟨p, hp, hp'⟩
  obtain ⟨t, ht⟩ := List.mem_iff_getElem?.mp hcell
  obtain ⟨hdraining, -⟩ := hlast.served.closed hclosed t cell ht hblocks
  have hrunning := hlast.sound.busy (by simp [hdraining])
  rw [hphase] at hrunning
  cases hrunning

/-- The user submits and then closes the client: the request is sent, the close clears it without an
answer, and the future is not ready when `run` has returned. -/
theorem close_forgets_submit :
    ¬∀ (events : List Event) (c : Client),
      Run (step fun _ _ => true) anyStep (create [1] [2] 0 0 1 false) events c →
      c.phase = .finished → c.state = .closed →
      ∀ cell ∈ c.txs, ∀ p ∈ cell.tx.promise :: cell.tx.earlier, p.retrieved = true →
        p.result ≠ none := by
  intro h
  have hexec : (execute (step fun _ _ => true) (fun _ _ => true) (create [1] [2] 0 0 1 false)
      (acceptedSubmit.take 12 ++ [.close, .pushCheck 0, .pushLocked 0, .async, .command, .commandsEnd,
        .unwind, .finish])).map (fun c => decide (c.phase = .finished ∧ c.state = .closed ∧
        c.txs.map (·.tx.promise) = [⟨none, true⟩])) = some true := by
    decide +kernel
  obtain ⟨c, hrun, hend⟩ := exists_run_of_execute (fun _ _ _ => trivial) hexec
  obtain ⟨hphase, hstate, hpromises⟩ := of_decide_eq_true hend
  obtain ⟨cell, hcell, hpromise⟩ := List.mem_map.mp (hpromises ▸ List.mem_singleton_self _)
  refine h _ c hrun hphase hstate cell hcell cell.tx.promise (List.mem_cons_self ..) ?_ ?_
  all_goals rw [hpromise]

/-- The connection is lost before the answer, and the manager does not reconnect: the future gets
the exception of a canceled request. -/
theorem futures_ready_after_run_lost : ∃ c : Client,
    Run (step fun _ _ => true) (fun c e => c.closesInTime e = true) (create [1] [2] 0 0 1 false)
        (acceptedSubmit.take 12 ++ [.failed 0 .closedByPeer, .closed 0 none (some false) none,
          .unwind, .finish]) c ∧
      c.txs.map (·.tx.promise) = [⟨some (.exception .requestCanceled), true⟩] ∧
      c.state = .closed ∧ ∀ cell ∈ c.txs, ∀ p ∈ cell.tx.promise :: cell.tx.earlier,
        p.retrieved = true → p.result ≠ none := by
  have hexec : (execute (step fun _ _ => true) (fun c e => c.closesInTime e)
      (create [1] [2] 0 0 1 false) (acceptedSubmit.take 12 ++ [.failed 0 .closedByPeer,
        .closed 0 none (some false) none, .unwind, .finish])).map (fun c => decide
        (c.phase = .finished ∧
        c.txs.map (·.tx.promise) = [⟨some (.exception .requestCanceled), true⟩])) = some true := by
    decide +kernel
  obtain ⟨c, hrun, hend⟩ := exists_run_of_execute (fun _ _ h => h) hexec
  obtain ⟨hphase, hpromises⟩ := of_decide_eq_true hend
  exact ⟨c, hrun, hpromises, futures_ready_after_run _ _ _ _ _ _ _ _ c hrun hphase⟩

end Steps

end Client

end Nplex
