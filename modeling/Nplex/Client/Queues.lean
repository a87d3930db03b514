import Nplex.Client.Session
import Nplex.Transaction.Lifecycle

/-!
# The queues of the submits

A submit passes from the user's thread to the commands, from there to the requests and, once the
server has accepted it, to the accepted ones. Each submitted transaction is in one place at
most, so that the answer to a request finds the transaction as the request left it. The handlers
that answer nothing only shorten the queues.
-/

namespace Nplex

open Nplex.Common

/-- The transactions and the queues that refer to them. -/
structure Ledger where
  txs : List TxCell
  pushes : List Push
  commands : List Command
  requests : List Request
  accepted : List Accepted
  tickets : ℕ

/-- The actions that do not concern the queues. -/
def ActionKind.keepsLedger : ActionKind → Bool
  | .aside | .login | .data | .state | .revive | .fetch | .join | .leave | .connect | .timer | .stop
  | .turn | .wake => true
  | .settle | .ask | .submit | .answer | .close | .shut | .queue | .take => false

/-- The actions that answer nothing. -/
def ActionKind.drains : ActionKind → Bool
  | .ask | .submit | .answer | .queue | .take => false
  | _ => true

/-- The request is the ping or sessions request with the ticket. -/
def RequestKind.asks (kind : RequestKind) (ticket : ℕ) : Bool :=
  match kind with
  | .submit _ _ => false
  | .ping n _ | .sessions n _ => n = ticket

/-- The command is a request of a kind. -/
def Command.carries (command : Command) (p : RequestKind → Bool) : Bool :=
  match command with
  | .close => false
  | .request kind => p kind

/-- The operations of the event loop but for the answer of the server, and those of the owner
but for submit. -/
def TxOp.calm : TxOp → Bool
  | .use _ _ | .update _ | .discard | .setSubmitException _ | .confirmCommit => true
  | .submit _ _ _ | .setSubmitResult _ => false

namespace Transaction

/-- What a method does to a settled transaction that it neither submits nor reopens. -/
structure Calms (tx tx' : Transaction) : Prop where
  settled : tx'.Settled
  state : tx'.state = tx.state ∨ tx.state.isClosed = false ∧ tx'.state.isClosed = true
  retrieved : tx'.state = .opened → tx'.promise.retrieved = tx.promise.retrieved

variable {tx tx' tx'' : Transaction}

/-- A settled transaction left alone. -/
theorem Calms.refl (h : tx.Settled) : Calms tx tx := ⟨h, Or.inl rfl, fun _ => rfl⟩

/-- Operations calm one after the other. -/
theorem Calms.trans (h : Calms tx tx') (h' : Calms tx' tx'') : Calms tx tx'' := by
  refine ⟨h'.settled, ?_, fun hopen => ?_⟩
  · rcases h'.state with hsame | ⟨hopen, hclosed⟩
    · rw [hsame]
      exact h.state
    · rcases h.state with hsame | ⟨-, hclosed'⟩
      · exact Or.inr ⟨hsame ▸ hopen, hclosed⟩
      · rw [hopen] at hclosed'
        cases hclosed'
  · have hopen' : tx'.state = .opened := by
      rcases h'.state with hsame | ⟨-, hclosed⟩
      · exact hsame.symm.trans hopen
      · rw [hopen] at hclosed
        cases hclosed
    exact (h'.retrieved hopen).trans (h.retrieved hopen')

/-- A calm operation submits and reopens nothing. -/
theorem apply_calms (globMatch : Glob) (op : TxOp) (hcalm : op.calm = true) (h : tx.Settled) :
    Calms tx (tx.apply globMatch op).1 := by
  have hturn := apply_turn globMatch h op
  have hsettled := hturn.settled h
  generalize tx.apply globMatch op = r at hturn hsettled ⊢
  obtain ⟨tx', report⟩ := r
  cases hturn with
  | same hstate hpromise => exact ⟨hsettled, Or.inl hstate, fun _ => by rw [hpromise]⟩
  | closed hopen hclosed =>
    refine ⟨hsettled, Or.inr ⟨hopen, hclosed⟩, fun hopen' => ?_⟩
    rw [hopen'] at hclosed
    cases hclosed
  | submitted => cases hcalm
  | accepted => cases hcalm
  | reopened => cases hcalm

/-- An exception aborts a submitted transaction, and is ignored otherwise. -/
theorem setSubmitException_eq (h : tx.Settled) (e : TxException) :
    tx.setSubmitException e =
      (if tx.state = .submitted then
        { tx with state := .aborted, promise := { tx.promise with result := some (.exception e) } }
      else tx, none) := by
  unfold setSubmitException
  by_cases hsubmitted : tx.state = .submitted
  · have hopen : tx.state.isClosed = false := by simp [hsubmitted, TxState.isClosed]
    rw [if_neg (by simp [hsubmitted]), if_pos hsubmitted, close_of_unset hopen (h.unset hopen)]
  · rw [if_pos hsubmitted, if_neg hsubmitted]

/-- A confirmation commits an accepted transaction, and is ignored otherwise. -/
theorem confirmCommit_eq (h : tx.Settled) :
    tx.confirmCommit =
      (if tx.state = .accepted then
        { tx with state := .committed, promise := { tx.promise with result := some (.value .committed) } }
      else tx, none) := by
  unfold confirmCommit
  by_cases haccepted : tx.state = .accepted
  · have hopen : tx.state.isClosed = false := by simp [haccepted, TxState.isClosed]
    rw [if_neg (by simp [haccepted]), if_pos haccepted, close_of_unset hopen (h.unset hopen)]
  · rw [if_pos haccepted, if_neg haccepted]

/-- The response to a submit does not throw. It leaves a transaction that was submitted accepted,
open with a new promise, or closed. -/
theorem setSubmitResult_spec (h : tx.Settled) (code : SubmitCode) :
    (tx.setSubmitResult code).2 = none ∧ (tx.setSubmitResult code).1.Settled ∧
      (tx.state ≠ .submitted → (tx.setSubmitResult code).1 = tx) ∧
      (tx.state = .submitted →
        code = .accepted ∧ (tx.setSubmitResult code).1 = { tx with state := .accepted } ∨
        code = .tryLater ∧ (tx.setSubmitResult code).1.state = .opened ∧
          (tx.setSubmitResult code).1.promise = {} ∨
        code ≠ .accepted ∧ (tx.setSubmitResult code).1.state.isClosed = true) := by
  have hsettled : (tx.setSubmitResult code).1.Settled :=
    (apply_turn (fun _ _ => true) h (.setSubmitResult code)).settled h
  by_cases hsubmitted : tx.state = .submitted
  · have hopen : tx.state.isClosed = false := by simp [hsubmitted, TxState.isClosed]
    have hclose := close_of_unset hopen (h.unset hopen)
    refine ⟨?_, hsettled, fun hnot => absurd hsubmitted hnot, fun _ => ?_⟩
    · cases code <;> simp [setSubmitResult, hsubmitted, hclose]
    · cases code <;>
        simp [setSubmitResult, hsubmitted, hclose, setState, TxState.isClosed]
  · have hsame : tx.setSubmitResult code = (tx, none) := by
      unfold Transaction.setSubmitResult
      rw [if_pos hsubmitted]
    exact ⟨by rw [hsame], hsettled, fun _ => by rw [hsame], fun h => absurd h hsubmitted⟩

/-- Such a method is calm and does not throw. -/
theorem Closing.calms {f : Transaction → Transaction × Option TxError} (hf : Closing f)
    (h : tx.Settled) : Calms tx (f tx).1 ∧ (f tx).2 = none := by
  cases hf with
  | setSubmitException e =>
    refine ⟨apply_calms (fun _ _ => true) (.setSubmitException e) rfl h, ?_⟩
    exact congrArg Prod.snd (setSubmitException_eq h e)
  | confirmCommit =>
    refine ⟨apply_calms (fun _ _ => true) .confirmCommit rfl h, ?_⟩
    exact congrArg Prod.snd (confirmCommit_eq h)
  | discard => exact ⟨apply_calms (fun _ _ => true) .discard rfl h, rfl⟩

end Transaction

namespace Client

/-- The ledger of the client. -/
def ledger (c : Client) : Ledger :=
  { txs := c.txs
    pushes := c.pushes
    commands := c.commands
    requests := c.requests
    accepted := c.accepted
    tickets := c.tickets }

/-- The number of requests of a kind on their way to the server's answer. -/
def carried (c : Client) (p : RequestKind → Bool) : ℕ :=
  c.pushes.countP (·.command.carries p) + c.commands.countP (·.carries p) +
    c.requests.countP fun r => p r.kind

/-- The number of submits of a transaction on their way to the server's answer. -/
def pending (c : Client) (t : ℕ) : ℕ := c.carried (·.submits t)

/-- A request is carried. -/
theorem carried_of_request {c : Client} {p : RequestKind → Bool} {r : Request}
    (hr : r ∈ c.requests) (hkind : p r.kind = true) : c.carried p ≠ 0 := by
  have hcount : 0 < c.requests.countP fun r => p r.kind := List.countP_pos_iff.mpr ⟨r, hr, hkind⟩
  unfold carried
  omega

/-- A submit is carried by the commands, requests and pushes that refer to its transaction. -/
theorem submits_eq_carries (command : Command) (t : ℕ) :
    command.submits t = command.carries (·.submits t) := by
  cases command <;> rfl

/-- What refers to a transaction is a submit on its way to the answer, or an accepted one. -/
theorem refersTo_iff {c : Client} {t : ℕ} :
    c.refersTo t = true ↔ c.pending t ≠ 0 ∨ ∃ a ∈ c.accepted, a.tx = t := by
  have hcount : c.pending t ≠ 0 ↔ (0 < c.pushes.countP (·.command.carries (·.submits t)) ∨
      0 < c.commands.countP (·.carries (·.submits t)) ∨
      0 < c.requests.countP fun r => r.kind.submits t) := by
    unfold pending carried
    dsimp only
    omega
  rw [hcount, List.countP_pos_iff, List.countP_pos_iff, List.countP_pos_iff]
  simp only [refersTo, Bool.or_eq_true, List.any_eq_true, submits_eq_carries, decide_eq_true_eq]
  constructor
  · rintro (((hcommand | hrequest) | haccepted) | hpush)
    · exact Or.inl (Or.inr (Or.inl hcommand))
    · exact Or.inl (Or.inr (Or.inr hrequest))
    · exact Or.inr haccepted
    · exact Or.inl (Or.inl hpush)
  · rintro ((hpush | hcommand | hrequest) | haccepted)
    · exact Or.inr hpush
    · exact Or.inl (Or.inl (Or.inl hcommand))
    · exact Or.inl (Or.inl (Or.inr hrequest))
    · exact Or.inl (Or.inr haccepted)

/-- The invariant of the queues. -/
structure Queued (c : Client) : Prop where
  settled : ∀ cell ∈ c.txs, cell.tx.Settled
  /-- No future was taken from the promise of an open transaction. -/
  fresh : ∀ cell ∈ c.txs, cell.tx.state = .opened → cell.tx.promise.retrieved = false
  once : ∀ t, c.pending t ≤ 1
  ticket_once : ∀ ticket, c.carried (·.asks ticket) ≤ 1
  ticket_known : ∀ ticket, c.carried (·.asks ticket) ≠ 0 → ticket < c.tickets
  known : ∀ t, c.pending t ≠ 0 → t < c.txs.length
  accepted_known : ∀ a ∈ c.accepted, a.tx < c.txs.length
  submitted : ∀ (t : ℕ) (cell : TxCell), c.txs[t]? = some cell → c.pending t ≠ 0 →
    cell.tx.state = .submitted ∨ cell.tx.state.isClosed = true
  accepted : ∀ (a : Accepted) (cell : TxCell), a ∈ c.accepted → c.txs[a.tx]? = some cell →
    cell.tx.state = .accepted ∨ cell.tx.state.isClosed = true

/-- What a handler does that answers nothing: transactions are closed at most, and queues get
shorter. -/
structure Drains (c c' : Client) : Prop where
  length : c'.txs.length = c.txs.length
  txs : ∀ (t : ℕ) (cell' : TxCell), c'.txs[t]? = some cell' → ∃ cell : TxCell,
    c.txs[t]? = some cell ∧ (cell'.held = true → cell.held = true) ∧
      (cell.tx.Settled → cell.tx.Calms cell'.tx)
  carried : ∀ p, c'.carried p ≤ c.carried p
  accepted : ∀ a ∈ c'.accepted, a ∈ c.accepted
  tickets : c.tickets ≤ c'.tickets

section Relations

variable {c c' c'' : Client}

/-- What is carried is part of the ledger. -/
theorem carried_of_ledger (h : c'.ledger = c.ledger) (p : RequestKind → Bool) :
    c'.carried p = c.carried p := by
  have hpushes : c'.pushes = c.pushes := congrArg Ledger.pushes h
  have hcommands : c'.commands = c.commands := congrArg Ledger.commands h
  have hrequests : c'.requests = c.requests := congrArg Ledger.requests h
  unfold carried
  rw [hpushes, hcommands, hrequests]

/-- A handler that leaves the ledger as it is. -/
theorem Drains.of_ledger (h : c'.ledger = c.ledger) : Drains c c' where
  length := congrArg (fun l : Ledger => l.txs.length) h
  txs t cell' hcell' := by
    have htxs : c'.txs = c.txs := congrArg Ledger.txs h
    exact ⟨cell', htxs ▸ hcell', id, fun hsettled => .refl hsettled⟩
  carried p := (carried_of_ledger h p).le
  accepted a ha := by
    have haccepted : c'.accepted = c.accepted := congrArg Ledger.accepted h
    exact haccepted ▸ ha
  tickets := (congrArg Ledger.tickets h).ge

/-- Doing nothing answers nothing. -/
theorem Drains.refl (c : Client) : Drains c c := .of_ledger rfl

/-- Handlers answer nothing one after the other. -/
theorem Drains.trans (h : Drains c c') (h' : Drains c' c'') : Drains c c'' where
  length := h'.length.trans h.length
  txs t cell'' hcell'' := by
    obtain ⟨cell', hcell', hheld', hcalms'⟩ := h'.txs t cell'' hcell''
    obtain ⟨cell, hcell, hheld, hcalms⟩ := h.txs t cell' hcell'
    refine ⟨cell, hcell, hheld ∘ hheld', fun hsettled => ?_⟩
    have hfirst := hcalms hsettled
    exact hfirst.trans (hcalms' hfirst.settled)
  carried p := (h'.carried p).trans (h.carried p)
  accepted a ha := h.accepted a (h'.accepted a ha)
  tickets := h.tickets.trans h'.tickets

/-- What answers nothing keeps the invariant of the queues. -/
theorem Queued.drains (h : c.Queued) (hdrains : Drains c c') : c'.Queued where
  settled cell' hcell' := by
    obtain ⟨t, ht⟩ := List.mem_iff_getElem?.mp hcell'
    obtain ⟨cell, hcell, -, hcalms⟩ := hdrains.txs t cell' ht
    exact (hcalms (h.settled cell (List.mem_of_getElem? hcell))).settled
  fresh cell' hcell' hopen := by
    obtain ⟨t, ht⟩ := List.mem_iff_getElem?.mp hcell'
    obtain ⟨cell, hcell, -, hcalms⟩ := hdrains.txs t cell' ht
    have hmem := List.mem_of_getElem? hcell
    have hcalm := hcalms (h.settled cell hmem)
    rw [hcalm.retrieved hopen]
    rcases hcalm.state with hsame | ⟨-, hclosed⟩
    · exact h.fresh cell hmem (hsame ▸ hopen)
    · rw [hopen] at hclosed
      cases hclosed
  once t := (hdrains.carried _).trans (h.once t)
  ticket_once ticket := (hdrains.carried _).trans (h.ticket_once ticket)
  ticket_known ticket hticket := by
    have hle := hdrains.carried (·.asks ticket)
    have hknown := h.ticket_known ticket (by omega)
    exact hknown.trans_le hdrains.tickets
  known t ht := by
    have hle : c'.pending t ≤ c.pending t := hdrains.carried _
    rw [hdrains.length]
    exact h.known t (by omega)
  accepted_known a ha := by
    rw [hdrains.length]
    exact h.accepted_known a (hdrains.accepted a ha)
  submitted t cell' hcell' ht := by
    obtain ⟨cell, hcell, -, hcalms⟩ := hdrains.txs t cell' hcell'
    have hle : c'.pending t ≤ c.pending t := hdrains.carried _
    rcases (hcalms (h.settled cell (List.mem_of_getElem? hcell))).state with hsame | ⟨-, hclosed⟩
    · rw [hsame]
      exact h.submitted t cell hcell (by omega)
    · exact Or.inr hclosed
  accepted a cell' ha hcell' := by
    obtain ⟨cell, hcell, -, hcalms⟩ := hdrains.txs a.tx cell' hcell'
    rcases (hcalms (h.settled cell (List.mem_of_getElem? hcell))).state with hsame | ⟨-, hclosed⟩
    · rw [hsame]
      exact h.accepted a cell (hdrains.accepted a ha) hcell
    · exact Or.inr hclosed

end Relations

section Ledgers

variable (c : Client)

/-- Sending is not about the queues. -/
theorem send_ledger (msg : ClientMsg) : (c.send msg).ledger = c.ledger :=
  (congrArg Client.ledger (send_fields c msg)).trans rfl

/-- Nor is a state other than CLOSED. -/
theorem setState_ledger {s : ClientState} (hs : s ≠ .closed) : (c.setState s).ledger = c.ledger :=
  (congrArg Client.ledger (setState_open_fields c hs)).trans rfl

/-- Nor is a call of the reactor. -/
theorem call_ledger (r : ReactorCall) : (c.call r).ledger = c.ledger :=
  (congrArg Client.ledger (call_fields c r)).trans rfl

/-- Nor is trying to connect. -/
theorem tryToConnect_ledger (refused : Option ℕ) : (c.tryToConnect refused).ledger = c.ledger :=
  (congrArg Client.ledger (tryToConnect_fields c refused)).trans rfl

/-- The actions that do not concern the queues. -/
theorem Action.ledger {k : ActionKind} {c c' : Client} (h : Action k c c')
    (hk : k.keepsLedger = true) : c'.ledger = c.ledger := by
  cases h with
  | aside h =>
    have hledger : c'.central.ledger = c.central.ledger := congrArg Client.ledger h.central
    exact hledger
  | login => exact (congrArg Client.ledger (sendOn_fields _ _ _)).trans rfl
  | load => rfl
  | tell => exact call_ledger _ _
  | setState _ _ hs => exact setState_ledger _ (fun heq => by rw [heq] at hs; cases hs)
  | revive _ hs => exact setState_ledger _ (fun heq => by rw [heq] at hs; cases hs)
  | startTimer => exact (congrArg Client.ledger (startTimerConLost_fields _ _)).trans rfl
  | fetch => exact send_ledger _ _
  | join => exact (congrArg Client.ledger (acceptLogin_fields _ _ _)).trans rfl
  | leave => exact setState_ledger _ (by simp)
  | connect => exact tryToConnect_ledger _ _
  | reconnect => exact (congrArg Client.ledger (scheduleReconnect_fields _)).trans rfl
  | stopTimer => rfl
  | turn => rfl
  | wake => rfl
  | request _ _ hrequest => cases hrequest <;> cases hk
  | _ => cases hk

/-- A handler made of actions that do not concern the queues leaves them alone. -/
theorem Acts.ledger {kinds : List ActionKind} {c c' : Client} (h : Acts kinds c c')
    (hkinds : kinds.all ActionKind.keepsLedger = true) : c'.ledger = c.ledger :=
  h.frame (R := fun c c' => c'.ledger = c.ledger) hkinds (fun _ => rfl) (fun h h' => h'.trans h)
    Action.ledger

end Ledgers

section Handlers

variable {c c' : Client}

/-- Shorter queues and the same transactions, but for their registration. -/
theorem Drains.of_shorter (htxs : c'.txs = c.txs ∨ c'.txs = c.txs.map fun cell =>
      { cell with registered := false })
    (hpushes : c'.pushes.Sublist c.pushes) (hcommands : c'.commands.Sublist c.commands)
    (hrequests : c'.requests.Sublist c.requests) (haccepted : c'.accepted.Sublist c.accepted)
    (htickets : c.tickets ≤ c'.tickets) : Drains c c' where
  length := by
    rcases htxs with htxs | htxs <;> simp [htxs]
  txs t cell' hcell' := by
    rcases htxs with htxs | htxs
    · exact ⟨cell', htxs ▸ hcell', id, fun hsettled => .refl hsettled⟩
    · rw [htxs, List.getElem?_map] at hcell'
      obtain ⟨cell, hcell, rfl⟩ := Option.map_eq_some_iff.mp hcell'
      exact ⟨cell, hcell, id, fun hsettled => .refl hsettled⟩
  carried p := by
    unfold Client.carried
    have hp := hpushes.countP_le (p := fun push => push.command.carries p)
    have hc := hcommands.countP_le (p := fun command => command.carries p)
    have hr := hrequests.countP_le (p := fun r => p r.kind)
    omega
  accepted a ha := haccepted.subset ha
  tickets := htickets

/-- A change of the transactions one by one. -/
theorem Drains.of_txs {f : ℕ → TxCell → TxCell} (htxs : c'.txs = c.txs.mapIdx f)
    (hheld : ∀ t cell, (f t cell).held = true → cell.held = true)
    (hcalms : ∀ (t : ℕ) (cell : TxCell), cell.tx.Settled → cell.tx.Calms (f t cell).tx)
    (hpushes : c'.pushes = c.pushes) (hcommands : c'.commands = c.commands)
    (hrequests : c'.requests = c.requests) (haccepted : c'.accepted = c.accepted)
    (htickets : c'.tickets = c.tickets) : Drains c c' where
  length := by simp [htxs]
  txs t cell' hcell' := by
    rw [htxs, List.getElem?_mapIdx] at hcell'
    obtain ⟨cell, hcell, rfl⟩ := Option.map_eq_some_iff.mp hcell'
    exact ⟨cell, hcell, hheld t cell, hcalms t cell⟩
  carried p := by
    unfold Client.carried
    rw [hpushes, hcommands, hrequests]
  accepted a ha := haccepted ▸ ha
  tickets := htickets.ge

/-- A transaction is replaced by what a calm operation makes of it. -/
theorem drains_set {t : ℕ} {cell : TxCell} {tx : Transaction} (hcell : c.txs[t]? = some cell)
    (hcalms : cell.tx.Settled → cell.tx.Calms tx) :
    Drains c { c with txs := c.txs.set t { cell with tx := tx } } := by
  refine ⟨by simp, fun u cell' hcell' => ?_, fun _ => le_rfl, fun _ ha => ha, le_rfl⟩
  rw [List.getElem?_set] at hcell'
  split_ifs at hcell' with hu hlength
  · subst hu
    obtain rfl := Option.some.inj hcell'
    exact ⟨cell, hcell, id, hcalms⟩
  · exact ⟨cell', hcell', id, fun hsettled => .refl hsettled⟩

/-- A method that closes its transaction drains. -/
theorem drains_onTx (c : Client) (t : ℕ) {f : Transaction → Transaction × Option TxError}
    (hf : Transaction.Closing f) : Drains c (c.onTx t f) := by
  unfold onTx
  split
  · exact .refl c
  · next cell hcell =>
    have hset : Drains c { c with txs := c.txs.set t { cell with tx := (f cell.tx).1 } } :=
      drains_set hcell fun hsettled => (hf.calms hsettled).1
    dsimp only
    split
    · exact hset.trans (.of_ledger rfl)
    · exact hset

/-- Setting a state drops the queues at most. -/
theorem drains_setState (c : Client) (s : ClientState) : Drains c (c.setState s) := by
  by_cases hs : s = .closed
  · subst hs
    unfold setState
    by_cases hclosed : c.state = .closed
    · rw [if_pos hclosed]
      exact .refl c
    · rw [if_neg hclosed, write_of_open hclosed]
      exact .of_shorter (Or.inr rfl) (.refl _) (List.nil_sublist _) (List.nil_sublist _)
        (List.nil_sublist _) le_rfl
  · exact .of_ledger (setState_ledger c hs)

/-- Aborting drops them. -/
theorem drains_abort (c : Client) : Drains c c.abort := by
  unfold abort
  split
  · exact .refl c
  · dsimp only
    refine Drains.trans ?_ (Drains.trans (drains_setState _ .closed)
      (.of_shorter (Or.inl rfl) (.refl _) (List.nil_sublist _) (.refl _) (.refl _) le_rfl))
    exact .of_ledger rfl

/-- Purging touches registrations only. -/
theorem drains_purgeUnusedTxs (c : Client) : Drains c c.purgeUnusedTxs :=
  .of_txs rfl (fun _ _ => id) (fun _ _ hsettled => .refl hsettled) rfl rfl rfl rfl rfl

/-- The delivery touches open transactions only. -/
theorem drains_deliver (globMatch : Glob) (changes : List Change) (c : Client) :
    Drains c (deliver globMatch changes c) := by
  have hupdate : Drains c
      { c with
        txs := c.txs.mapIdx fun t cell =>
          if cell.registered && c.isUsed t cell then
            { cell with tx := cell.tx.update globMatch changes }
          else cell } := by
    refine .of_txs rfl (fun t cell => ?_) (fun t cell hsettled => ?_) rfl rfl rfl rfl rfl
    · split <;> exact id
    · split
      · exact Transaction.apply_calms globMatch (.update changes) rfl hsettled
      · exact .refl hsettled
  unfold deliver
  dsimp only
  split
  · exact hupdate.trans (drains_purgeUnusedTxs _)
  · exact hupdate

/-- The actions that answer nothing. -/
theorem Action.drains {k : ActionKind} (h : Action k c c') (hk : k.drains = true) : Drains c c' := by
  by_cases hledger : k.keepsLedger = true
  · exact .of_ledger (h.ledger hledger)
  cases h with
  | drop _ hrequests haccepted =>
    exact .of_shorter (Or.inl rfl) (.refl _) (.refl _) hrequests haccepted le_rfl
  | @settle _ requests accepted hrequests haccepted t hawaits f hf =>
    have hdrop : Drains c { c with requests := requests, accepted := accepted } :=
      .of_shorter (Or.inl rfl) (.refl _) (.refl _) hrequests haccepted le_rfl
    exact hdrop.trans (drains_onTx _ _ hf)
  | deliver => exact drains_deliver _ _ _
  | close => exact drains_abort c
  | shut =>
    have hbegin : Drains c { c with phase := .unwinding, activity := .idle } := .of_ledger rfl
    exact hbegin.trans (drains_setState _ .closed)
  | request _ _ hrequest => cases hrequest <;> cases hk
  | refuse => cases hk
  | answer => cases hk
  | queue => cases hk
  | takeFuture => cases hk
  | _ => exact absurd rfl hledger

/-- A handler made of draining actions drains. -/
theorem Acts.drains {kinds : List ActionKind} (h : Acts kinds c c')
    (hkinds : kinds.all ActionKind.drains = true) : Drains c c' :=
  h.frame hkinds .refl .trans Action.drains

/-- The end of `run` drops the queues. -/
theorem drains_finishRun (c : Client) : Drains c c.finishRun :=
  .of_shorter (Or.inr rfl) (.refl _) (List.nil_sublist _) (List.nil_sublist _)
    (List.nil_sublist _) le_rfl

/-- Destroying transactions without references closes them at most. -/
theorem drains_reap (c : Client) : Drains c c.reap := by
  refine .of_txs rfl (fun t cell => ?_) (fun t cell hsettled => ?_) rfl rfl rfl rfl rfl
  · split <;> exact id
  · split
    · exact .refl hsettled
    · exact Transaction.apply_calms (fun _ _ => true) .discard rfl hsettled

/-- Counting without one element. -/
theorem countP_eraseIdx_add {A : Type} {l : List A} {n : ℕ} {a : A} (h : l[n]? = some a)
    (p : A → Bool) : (l.eraseIdx n).countP p + (if p a then 1 else 0) = l.countP p := by
  obtain ⟨hn, rfl⟩ := List.getElem?_eq_some_iff.mp h
  rw [← (List.getElem_cons_eraseIdx_perm hn).countP_eq, List.countP_cons]

/-- A push that is over leaves the queue of pushes. -/
theorem carried_erasePush {n : ℕ} {p : Push} (hp : c.pushes[n]? = some p)
    (f : RequestKind → Bool) :
    carried { c with pushes := c.pushes.eraseIdx n } f + (if p.command.carries f then 1 else 0) =
      c.carried f := by
  have hcount := countP_eraseIdx_add hp fun p => p.command.carries f
  unfold carried
  dsimp only at hcount ⊢
  omega

/-- A request that is sent or refused, and was carried in another way. -/
theorem drains_processRequest {c₀ : Client} {kind : RequestKind} (hdrains : Drains c c₀)
    (hcarried : ∀ p, c₀.carried p + (if p kind then 1 else 0) ≤ c.carried p)
    {refuse : Client → Client} (hrefuse : Drains c₀ (refuse c₀)) (msg : ℕ → ClientMsg) :
    Drains c (c₀.processRequest kind refuse msg) := by
  unfold processRequest
  split
  · exact hdrains.trans hrefuse
  · dsimp only
    have hledger := send_ledger { c₀ with correlation := c₀.correlation + 1 } (msg c₀.correlation)
    have hcarried' := carried_of_ledger hledger
    have hsent := hdrains.trans (.of_ledger hledger)
    generalize send { c₀ with correlation := c₀.correlation + 1 } (msg c₀.correlation) = c₁
      at hcarried' hsent
    unfold andThen
    split
    · exact hsent
    · refine ⟨hsent.length, hsent.txs, fun p => ?_, hsent.accepted, hsent.tickets⟩
      have hbefore : c₁.carried p = c₀.carried p := hcarried' p
      have hle := hcarried p
      unfold Client.carried at hbefore hle ⊢
      simp only [List.countP_append, List.countP_cons, List.countP_nil]
      omega

/-- The command at the head leaves the commands. -/
theorem carried_popCommand {command : Command} {rest : List Command}
    (h : c.commands = command :: rest) (p : RequestKind → Bool) :
    carried { c with commands := rest } p + (if command.carries p then 1 else 0) = c.carried p := by
  unfold carried
  rw [h, List.countP_cons]
  dsimp only
  omega

/-- A command leaves the queue and becomes a request at most. -/
theorem drains_processCommand {command : Command} {rest : List Command}
    (h : c.commands = command :: rest) :
    Drains c (processCommand { c with commands := rest } command) := by
  have hpop : Drains c { c with commands := rest } := by
    refine .of_shorter (Or.inl rfl) (.refl _) ?_ (.refl _) (.refl _) le_rfl
    rw [h]
    exact List.sublist_cons_self _ rest
  have hcarried := carried_popCommand h
  cases command with
  | close => exact hpop.trans (drains_abort _)
  | request kind =>
    have hkind : ∀ p, carried { c with commands := rest } p + (if p kind then 1 else 0) ≤
        c.carried p := fun p => (hcarried p).le
    cases kind with
    | submit t force =>
      have hrefuse := drains_onTx { c with commands := rest } t (.setSubmitException .notConnected)
      change Drains c (processSubmitCmd _ t force)
      unfold processSubmitCmd
      split
      · exact hpop
      · exact drains_processRequest hpop hkind hrefuse _
    | ping ticket payload =>
      have hrefuse : Drains { c with commands := rest }
          (reply { c with commands := rest } ticket .notConnected) := .of_ledger rfl
      change Drains c (processPingCmd _ ticket payload)
      exact drains_processRequest hpop hkind hrefuse _
    | sessions ticket stream =>
      have hrefuse : Drains { c with commands := rest }
          (reply { c with commands := rest } ticket .notConnected) := .of_ledger rfl
      change Drains c (processSessionsCmd _ ticket stream)
      exact drains_processRequest hpop hkind hrefuse _

/-- The owner uses the transaction. -/
theorem drains_use {globMatch : Glob} {t : ℕ} {cell : TxCell} {i : TxInput} {run : OpenTx}
    {o : TxAnswer} (hcell : c.txs[t]? = some cell)
    (hstep : OpenTx.step globMatch ⟨c.store, cell.tx, []⟩ i = some (run, o)) :
    Drains c { c with txs := c.txs.set t { cell with tx := run.tx } } := by
  refine drains_set hcell fun hsettled => ?_
  have happly : (cell.tx.apply globMatch (.use c.store i)).1 = run.tx := by
    unfold Transaction.apply
    dsimp only
    rw [hstep]
    cases o <;> rfl
  rw [← happly]
  exact Transaction.apply_calms globMatch (.use c.store i) rfl hsettled

end Handlers

section Answers

variable {c c' : Client}

/-- Calling a method on a transaction of the client. -/
theorem onTx_of_cell {t : ℕ} {cell : TxCell} (hcell : c.txs[t]? = some cell)
    (f : Transaction → Transaction × Option TxError) (hnone : (f cell.tx).2 = none) :
    c.onTx t f = { c with txs := c.txs.set t { cell with tx := (f cell.tx).1 } } := by
  unfold onTx
  rw [hcell]
  dsimp only
  rw [hnone]
  rfl

/-- A transaction of the client replaced by one that fits the queues. -/
theorem Queued.set (h : c.Queued) {t : ℕ} {cell : TxCell} (tx : Transaction)
    (hsettled : tx.Settled) (hfresh : tx.state = .opened → tx.promise.retrieved = false)
    (hsubmitted : c.pending t ≠ 0 → tx.state = .submitted ∨ tx.state.isClosed = true)
    (haccepted : (∃ a ∈ c.accepted, a.tx = t) → tx.state = .accepted ∨ tx.state.isClosed = true) :
    Queued { c with txs := c.txs.set t { cell with tx := tx } } := by
  have hget : ∀ {u : ℕ} {cell' : TxCell}, (c.txs.set t { cell with tx := tx })[u]? = some cell' →
      u = t ∧ cell'.tx = tx ∨ c.txs[u]? = some cell' := by
    intro u cell' hcell'
    rw [List.getElem?_set] at hcell'
    split_ifs at hcell' with hu hlength
    · obtain rfl := Option.some.inj hcell'
      exact Or.inl ⟨hu.symm, rfl⟩
    · exact Or.inr hcell'
  refine ⟨fun cell' hcell' => ?_, fun cell' hcell' hopen => ?_, h.once, h.ticket_once,
    h.ticket_known, fun u hu => ?_, fun a ha => ?_, fun u cell' hcell' hu => ?_,
    fun a cell' ha hcell' => ?_⟩
  · obtain ⟨u, hu⟩ := List.mem_iff_getElem?.mp hcell'
    rcases hget hu with ⟨-, htx⟩ | hold
    · rw [htx]
      exact hsettled
    · exact h.settled cell' (List.mem_of_getElem? hold)
  · obtain ⟨u, hu⟩ := List.mem_iff_getElem?.mp hcell'
    rcases hget hu with ⟨-, htx⟩ | hold
    · rw [htx] at hopen ⊢
      exact hfresh hopen
    · exact h.fresh cell' (List.mem_of_getElem? hold) hopen
  · simpa using h.known u hu
  · simpa using h.accepted_known a ha
  · rcases hget hcell' with ⟨rfl, htx⟩ | hold
    · rw [htx]
      exact hsubmitted hu
    · exact h.submitted u cell' hold hu
  · rcases hget hcell' with ⟨htx, hsame⟩ | hold
    · rw [hsame]
      exact haccepted ⟨a, ha, htx⟩
    · exact h.accepted a cell' ha hold

/-- A submit that the server accepts. -/
theorem Queued.accept (h : c.Queued) {a : Accepted} (hknown : a.tx < c.txs.length)
    (hstate : ∀ cell, c.txs[a.tx]? = some cell →
      cell.tx.state = .accepted ∨ cell.tx.state.isClosed = true) :
    Queued { c with accepted := c.accepted ++ [a] } := by
  refine ⟨h.settled, h.fresh, h.once, h.ticket_once, h.ticket_known, h.known, fun b hb => ?_,
    h.submitted, fun b cell hb hcell => ?_⟩
  · rcases List.mem_append.mp hb with hb | hb
    · exact h.accepted_known b hb
    · obtain rfl := List.mem_singleton.mp hb
      exact hknown
  · rcases List.mem_append.mp hb with hb | hb
    · exact h.accepted b cell hb hcell
    · obtain rfl := List.mem_singleton.mp hb
      exact hstate cell hcell

/-- A command that begins its way. -/
theorem carried_push (c : Client) (p : Push) (f : RequestKind → Bool) :
    carried { c with pushes := c.pushes ++ [p] } f =
      c.carried f + if p.command.carries f then 1 else 0 := by
  unfold carried
  simp only [List.countP_append, List.countP_cons, List.countP_nil]
  omega

/-- A command that begins, with a transaction or a ticket that no other command has. -/
theorem Queued.push (h : c.Queued) {p : Push}
    (hsubmits : ∀ t, p.command.carries (·.submits t) = true → c.pending t = 0 ∧ t < c.txs.length ∧
      ∀ cell : TxCell, c.txs[t]? = some cell →
        cell.tx.state = .submitted ∨ cell.tx.state.isClosed = true)
    (hasks : ∀ ticket, p.command.carries (·.asks ticket) = true →
      c.carried (·.asks ticket) = 0 ∧ ticket < c.tickets) :
    Queued { c with pushes := c.pushes ++ [p] } := by
  have hpending : ∀ t, pending { c with pushes := c.pushes ++ [p] } t =
      c.pending t + if p.command.carries (·.submits t) then 1 else 0 := fun t => carried_push c p _
  refine ⟨h.settled, h.fresh, fun t => ?_, fun ticket => ?_, fun ticket hticket => ?_,
    fun t ht => ?_, h.accepted_known, fun t cell hcell ht => ?_, h.accepted⟩
  · rw [hpending]
    split
    · next hp => simp [(hsubmits t hp).1]
    · exact h.once t
  · rw [carried_push]
    split
    · next hp => simp [(hasks ticket hp).1]
    · exact h.ticket_once ticket
  · rw [carried_push] at hticket
    split at hticket
    · next hp => exact (hasks ticket hp).2
    · exact h.ticket_known ticket hticket
  · rw [hpending] at ht
    split at ht
    · next hp => exact (hsubmits t hp).2.1
    · exact h.known t ht
  · rw [hpending] at ht
    split at ht
    · next hp => exact (hsubmits t hp).2.2 cell hcell
    · exact h.submitted t cell hcell ht

/-- A ping or sessions request begins with the next ticket. -/
theorem Queued.pushRequest (h : c.Queued) {kind : ℕ → RequestKind}
    (hsubmits : ∀ ticket t, (kind ticket).submits t = false)
    (hasks : ∀ ticket n, (kind ticket).asks n = true → ticket = n) : (c.pushRequest kind).Queued := by
  have hnext : Queued { c with tickets := c.tickets + 1 } :=
    h.drains (.of_shorter (Or.inl rfl) (.refl _) (.refl _) (.refl _) (.refl _) (Nat.le_succ _))
  refine hnext.push (p := { command := .request (kind c.tickets) }) (fun t ht => ?_)
    fun ticket hticket => ?_
  · rw [Command.carries, hsubmits] at ht
    cases ht
  · obtain rfl := hasks c.tickets ticket hticket
    refine ⟨?_, Nat.lt_succ_self _⟩
    by_contra hne
    exact absurd (h.ticket_known c.tickets hne) (lt_irrefl _)

/-- A ping or sessions request that a callback sends itself. -/
theorem queued_loopRequest (h : c.Queued) (kind : ℕ → RequestKind)
    (hsubmits : ∀ ticket t, (kind ticket).submits t = false)
    (hasks : ∀ ticket n, (kind ticket).asks n = true → ticket = n)
    (refuse : Reply) (msg : ℕ → ClientMsg) :
    (processRequest { c with tickets := c.tickets + 1 } (kind c.tickets)
      (·.reply c.tickets refuse) msg).Queued := by
  have hpushed := h.pushRequest hsubmits hasks
  refine hpushed.drains (drains_processRequest ?_ (fun p => ?_) (.of_ledger rfl) msg)
  · exact .of_shorter (Or.inl rfl) (List.sublist_append_left _ _) (.refl _) (.refl _) (.refl _) le_rfl
  · exact (carried_push { c with tickets := c.tickets + 1 } { command := .request (kind c.tickets) } p).ge

/-- The response to a submit keeps the invariant of the queues. -/
theorem queued_processSubmitResp (h : c.Queued) (resp : SubmitResponse) :
    (c.processSubmitResp resp).Queued := by
  have hdrop : ∀ {rest : List Request}, rest.Sublist c.requests →
      Drains c { c with requests := rest } := fun hrest =>
    .of_shorter (Or.inl rfl) (.refl _) (.refl _) hrest (.refl _) le_rfl
  unfold processSubmitResp
  split
  · exact h.drains (hdrop (List.nil_sublist _))
  · next r rest hcons =>
    have hsub : (r :: rest).Sublist c.requests := by
      rw [← hcons]
      exact List.dropWhile_sublist _
    split
    · exact h.drains (hdrop hsub)
    · have hpop : Queued { c with requests := rest } :=
        h.drains (hdrop ((List.sublist_cons_self r rest).trans hsub))
      dsimp only
      split
      · next t force hkind =>
        have hcount : c.pending t ≤ 1 := h.once t
        have hrequests : rest.countP (fun r => r.kind.submits t) + 1 ≤
            c.requests.countP fun r => r.kind.submits t := by
          have hle := hsub.countP_le (p := fun r => r.kind.submits t)
          simpa [List.countP_cons, hkind, RequestKind.submits] using hle
        have hbefore : c.pending t ≠ 0 := by
          unfold pending carried
          dsimp only
          omega
        have hnone : pending { c with requests := rest } t = 0 := by
          unfold pending carried at hcount ⊢
          dsimp only at hcount ⊢
          omega
        have hknown := h.known t hbefore
        obtain ⟨cell, hcell⟩ : ∃ cell, c.txs[t]? = some cell := ⟨_, List.getElem?_eq_getElem hknown⟩
        have hstate := h.submitted t cell hcell hbefore
        obtain ⟨hthrows, hsettled, hother, hresult⟩ := Transaction.setSubmitResult_spec
          (h.settled cell (List.mem_of_getElem? hcell)) resp.code
        have honTx : onTx { c with requests := rest } t (·.setSubmitResult resp.code) =
            { c with
              requests := rest
              txs := c.txs.set t { cell with tx := (cell.tx.setSubmitResult resp.code).1 } } :=
          onTx_of_cell (c := { c with requests := rest }) hcell _ hthrows
        have hset : Queued { c with
            requests := rest
            txs := c.txs.set t { cell with tx := (cell.tx.setSubmitResult resp.code).1 } } := by
          refine hpop.set _ hsettled (fun hopen => ?_) (fun hne => absurd hnone hne) fun hin => ?_
          · rcases hstate with hsubmitted | hclosed
            · rcases hresult hsubmitted with ⟨-, htx⟩ | ⟨-, -, hpromise⟩ | ⟨-, hclosed⟩
              · rw [htx] at hopen
                cases hopen
              · rw [hpromise]
              · rw [hopen] at hclosed
                cases hclosed
            · rw [hother (by rintro heq; rw [heq] at hclosed; cases hclosed)] at hopen
              rw [hopen] at hclosed
              cases hclosed
          · obtain ⟨a, ha, rfl⟩ := hin
            have hclosed : cell.tx.state.isClosed = true := by
              rcases h.accepted a cell ha hcell with haccepted | hclosed
              · rcases hstate with hsubmitted | hclosed
                · rw [hsubmitted] at haccepted
                  cases haccepted
                · exact hclosed
              · exact hclosed
            rw [hother (by rintro heq; rw [heq] at hclosed; cases hclosed)]
            exact Or.inr hclosed
        rw [honTx]
        unfold andThen
        split
        · exact hset
        · split
          · next hcode =>
            refine hset.accept (a := ⟨t, resp.erev⟩) (by simpa using hknown) fun cell' hcell' => ?_
            rw [List.getElem?_set_self hknown] at hcell'
            obtain rfl := Option.some.inj hcell'
            rcases hstate with hsubmitted | hclosed
            · rcases hresult hsubmitted with ⟨-, htx⟩ | ⟨hlater, -⟩ | ⟨hne, -⟩
              · rw [htx]
                exact Or.inl rfl
              · rw [hcode] at hlater
                cases hlater
              · exact absurd hcode hne
            · rw [hother (by rintro heq; rw [heq] at hclosed; cases hclosed)]
              exact Or.inr hclosed
          · exact hset
      · exact hpop.drains (.of_ledger rfl)
      · exact hpop.drains (.of_ledger rfl)

/-- The future of a transaction that is not open is taken. -/
theorem queued_takeFuture (h : c.Queued) (t : ℕ)
    (hidle : ∀ cell : TxCell, c.txs[t]? = some cell → cell.tx.state ≠ .opened) :
    (c.onTx t fun tx => (tx.takeFuture, none)).Queued := by
  unfold onTx
  split
  · exact h
  · next cell hcell =>
    have hsettled := h.settled cell (List.mem_of_getElem? hcell)
    refine h.set cell.tx.takeFuture hsettled (fun hopen => absurd hopen (hidle cell hcell))
      (h.submitted t cell hcell) fun hin => ?_
    obtain ⟨a, ha, rfl⟩ := hin
    exact h.accepted a cell ha hcell

/-- The transaction of a running push is not open. -/
theorem Queued.pushed (h : c.Queued) {n t : ℕ} {p : Push} (hp : c.pushes[n]? = some p)
    (hsubmits : p.command.carries (·.submits t) = true) (cell : TxCell) (hcell : c.txs[t]? = some cell) :
    cell.tx.state ≠ .opened := by
  have hcount : 0 < c.pushes.countP (·.command.carries (·.submits t)) :=
    List.countP_pos_iff.mpr ⟨p, List.mem_of_getElem? hp, hsubmits⟩
  have hne : c.pending t ≠ 0 := by
    unfold pending carried
    omega
  intro hopen
  rcases h.submitted t cell hcell hne with hsubmitted | hclosed
  · rw [hopen] at hsubmitted
    cases hsubmitted
  · rw [hopen] at hclosed
    cases hclosed

/-- The queues are sound when a push ends. -/
theorem queued_endPush (h : c.Queued) {p : Push}
    (hidle : ∀ (t : ℕ) (cell : TxCell), p.command.carries (·.submits t) = true → c.txs[t]? = some cell →
      cell.tx.state ≠ .opened) : (c.endPush p).Queued := by
  unfold endPush
  split
  · next t force hcommand =>
    refine queued_takeFuture h t fun cell => hidle t cell ?_
    simp [hcommand, Command.carries, RequestKind.submits]
  · exact h

/-- A push that is over. -/
theorem drains_erasePush (c : Client) (n : ℕ) :
    Drains c { c with pushes := c.pushes.eraseIdx n } :=
  .of_shorter (Or.inl rfl) (List.eraseIdx_sublist _ _) (.refl _) (.refl _) (.refl _) le_rfl

/-- They are sound when a push adds its command, or is refused. -/
theorem queued_enqueue (h : c.Queued) {n : ℕ} {p : Push} (hp : c.pushes[n]? = some p)
    (waiting : ℕ) : (enqueue { c with pushes := c.pushes.eraseIdx n } p waiting).Queued := by
  have hidle : ∀ (t : ℕ) (cell : TxCell), p.command.carries (·.submits t) = true → c.txs[t]? = some cell →
      cell.tx.state ≠ .opened := fun t cell hsubmits => h.pushed hp hsubmits cell
  have hmoved : Queued
      { c with pushes := c.pushes.eraseIdx n, commands := c.commands ++ [p.command] } := by
    refine h.drains ⟨rfl, fun t cell hcell => ⟨cell, hcell, id, fun hsettled => .refl hsettled⟩,
      fun f => ?_, fun _ ha => ha, le_rfl⟩
    have hcount := carried_erasePush hp f
    unfold Client.carried at hcount ⊢
    simp only [List.countP_append, List.countP_cons, List.countP_nil] at hcount ⊢
    omega
  unfold enqueue
  split
  · have herased := h.drains (drains_erasePush c n)
    split
    · exact herased.drains (.of_ledger rfl)
    · exact herased
  · dsimp only
    split
    · refine queued_endPush (hmoved.drains ?_) hidle
      exact .of_ledger rfl
    · exact queued_endPush hmoved hidle

/-- So they are after the locked part of `push_command`. -/
theorem queued_pushLocked (h : c.Queued) {n : ℕ} {p : Push} (hp : c.pushes[n]? = some p) :
    (pushLocked { c with pushes := c.pushes.eraseIdx n } p).Queued := queued_enqueue h hp _

/-- They are sound when a submit begins its push. -/
theorem queued_submitTx (h : c.Queued) {t : ℕ} {cell : TxCell} (hcell : c.txs[t]? = some cell)
    (force : Bool) : (c.submitTx t cell force).Queued := by
  have hsettled := h.settled cell (List.mem_of_getElem? hcell)
  by_cases hopen : cell.tx.state = .opened
  · have hnone : c.pending t = 0 := by
      by_contra hne
      rcases h.submitted t cell hcell hne with hsubmitted | hclosed
      · rw [hopen] at hsubmitted
        cases hsubmitted
      · rw [hopen] at hclosed
        cases hclosed
    have hnot : ¬∃ a ∈ c.accepted, a.tx = t := by
      rintro ⟨a, ha, rfl⟩
      rcases h.accepted a cell ha hcell with haccepted | hclosed
      · rw [hopen] at haccepted
        cases haccepted
      · rw [hopen] at hclosed
        cases hclosed
    unfold submitTx
    rcases Transaction.submit_cases hsettled hopen force true with
      hgone | hpush | ⟨state, r, hclosed, hagrees, hdone⟩
    · rw [hgone]
      exact h
    · rw [hpush]
      have hset : Queued { c with
          txs := c.txs.set t { cell with tx := { cell.tx with state := .submitted } } } := by
        refine h.set _ ?_ (by simp) (fun _ => Or.inl rfl) fun hin => absurd hin hnot
        rw [Transaction.Settled, hopen] at hsettled
        exact hsettled
      refine hset.push (p := { command := .request (.submit t force) }) (fun u hu => ?_)
        fun ticket hticket => absurd hticket (by simp [Command.carries, RequestKind.asks])
      obtain rfl : t = u := by simpa [Command.carries, RequestKind.submits] using hu
      have hlength := (List.getElem?_eq_some_iff.mp hcell).1
      refine ⟨hnone, by simpa using hlength, fun cell' hcell' => ?_⟩
      rw [List.getElem?_set_self hlength] at hcell'
      obtain rfl := Option.some.inj hcell'
      exact Or.inl rfl
    · rw [hdone]
      refine h.set _ hagrees (fun hopened => ?_) (fun _ => Or.inr hclosed) fun _ => Or.inr hclosed
      change state = .opened at hopened
      rw [hopened] at hclosed
      cases hclosed
  · unfold submitTx Transaction.submit
    rw [if_pos hopen]
    exact h

/-- They are sound when a transaction is created. -/
theorem queued_createTx (h : c.Queued) (isolation : Isolation) (readOnly : Bool) :
    (c.createTx isolation readOnly).Queued := by
  unfold createTx
  split
  · exact h
  · have hpurged := h.drains (drains_purgeUnusedTxs c)
    dsimp only
    generalize c.purgeUnusedTxs = c₁ at hpurged ⊢
    split
    · exact hpurged
    · split
      · exact hpurged
      · next user _ =>
        have hget : ∀ {t : ℕ} {cell : TxCell}, t < c₁.txs.length →
            (c₁.txs ++ [{ tx := Transaction.create c₁.store isolation readOnly (some user) }])[t]? =
              some cell → c₁.txs[t]? = some cell := by
          intro t cell ht hcell
          rwa [List.getElem?_append_left ht] at hcell
        have hnew := Transaction.create_coherent c₁.store isolation readOnly (some user)
        refine ⟨fun cell hcell => ?_, fun cell hcell => ?_, hpurged.once, hpurged.ticket_once,
          hpurged.ticket_known, fun t ht => ?_, fun a ha => ?_, fun t cell hcell ht => ?_,
          fun a cell ha hcell => ?_⟩
        · rcases List.mem_append.mp hcell with hold | hlast
          · exact hpurged.settled cell hold
          · obtain rfl := List.mem_singleton.mp hlast
            exact hnew.settled
        · rcases List.mem_append.mp hcell with hold | hlast
          · exact hpurged.fresh cell hold
          · obtain rfl := List.mem_singleton.mp hlast
            exact hnew.fresh
        · have hknown := hpurged.known t ht
          simp only [List.length_append]
          omega
        · have hknown := hpurged.accepted_known a ha
          simp only [List.length_append]
          omega
        · exact hpurged.submitted t cell (hget (hpurged.known t ht) hcell) ht
        · exact hpurged.accepted a cell ha (hget (hpurged.accepted_known a ha) hcell)

/-- The user lets a transaction go. -/
theorem drains_release {t : ℕ} {cell : TxCell} (hcell : c.txs[t]? = some cell) :
    Drains c { c with txs := c.txs.set t { cell with held := false } } := by
  refine ⟨by simp, fun u cell' hcell' => ?_, fun _ => le_rfl, fun _ ha => ha, le_rfl⟩
  rw [List.getElem?_set] at hcell'
  split_ifs at hcell' with hu hlength
  · subst hu
    obtain rfl := Option.some.inj hcell'
    exact ⟨cell, hcell, fun hheld => absurd hheld (by simp), fun hsettled => .refl hsettled⟩
  · exact ⟨cell', hcell', id, fun hsettled => .refl hsettled⟩

/-- A close begins its way. -/
theorem queued_pushClose (h : c.Queued) (stop : Bool) :
    Queued { c with pushes := c.pushes ++ [{ command := .close, stop := stop }] } :=
  h.push (fun t ht => absurd ht (by simp [Command.carries])) fun ticket hticket =>
    absurd hticket (by simp [Command.carries])

/-- The check of a push changes no command. -/
theorem pushCheck_commands {n : ℕ} {p : Push} (hp : c.pushes[n]? = some p) :
    (c.pushes.set n { p with checked := true }).map Push.command = c.pushes.map Push.command := by
  obtain ⟨hn, rfl⟩ := List.getElem?_eq_some_iff.mp hp
  have hlength : n < (c.pushes.map Push.command).length := by simpa using hn
  have hcommand : c.pushes[n].command = (c.pushes.map Push.command)[n] := by simp
  rw [List.map_set, hcommand, List.set_getElem_self]

/-- Nor how many of the pushes have a command of some kind. -/
theorem countP_pushCheck {n : ℕ} {p : Push} (hp : c.pushes[n]? = some p) (f : Command → Bool) :
    (c.pushes.set n { p with checked := true }).countP (fun p => f p.command) =
      c.pushes.countP fun p => f p.command := by
  have hcount := congrArg (List.countP f) (pushCheck_commands hp)
  rwa [List.countP_map, List.countP_map] at hcount

/-- The check of `push_command` is not about the queues. -/
theorem drains_pushCheck {n : ℕ} {p : Push} (hp : c.pushes[n]? = some p) :
    Drains c { c with pushes := c.pushes.set n { p with checked := true } } := by
  refine ⟨rfl, fun t cell hcell => ⟨cell, hcell, id, fun hsettled => .refl hsettled⟩, fun f => ?_,
    fun _ ha => ha, le_rfl⟩
  have hcount := countP_pushCheck hp fun command => command.carries f
  unfold Client.carried
  dsimp only
  omega

/-- The queues are sound after every message. -/
theorem queued_onMsgReceived (h : c.Queued) (i : ℕ) (msg : Option ServerMsg) (throws : Bool) :
    (c.onMsgReceived i msg throws).Queued := by
  by_cases hanswer : ∃ resp, msg = some (.submitResponse resp)
  · obtain ⟨resp, rfl⟩ := hanswer
    change Queued (if c.con ≠ some i then c.disconnect i .alreadyConnected
      else c.processSubmitResp resp)
    split
    · exact h.drains (.of_ledger rfl)
    · exact queued_processSubmitResp h resp
  · have hacts : Acts [.aside, .settle, .data, .state, .fetch, .close, .turn, .join, .revive] c
        (c.onMsgReceived i msg throws) :=
      acts_onMsgReceived_of c i msg throws (by decide)
        (fun resp _ => (acts_processLoginResp c i resp throws).mono (by decide))
        (fun resp hresp => absurd ⟨resp, hresp⟩ hanswer)
        fun resp _ => (acts_processUpdatesPush c i resp).mono (by decide)
    exact h.drains (hacts.drains rfl)

end Answers

section Runs

variable {globMatch : Glob} {c c' : Client}

/-- Every effect of a step keeps the invariant of the queues. -/
theorem queued_effect {e : Event} (h : c.Queued) (heffect : Effect globMatch c e c') :
    c'.Queued := by
  have hquiet : ∀ {c₁ c₂ : Client}, c₁.Queued → c₂.ledger = c₁.ledger → c₂.Queued :=
    fun h₁ hledger => h₁.drains (.of_ledger hledger)
  cases heffect with
  | start => exact h.drains (.of_ledger (tryToConnect_ledger _ _))
  | @connected i con =>
    have hopened : Queued
        { c with connections := c.connections.set i { con with state := .connected } } := hquiet h rfl
    exact hopened.drains ((acts_onConnectionEstablished _ i).drains rfl)
  | failed => exact hquiet h rfl
  | @closed i delay retry refused con =>
    have hclosing : Queued { c with connections := c.connections.set i con.onClose } := hquiet h rfl
    exact hclosing.drains ((acts_onConnectionClosed _ i delay retry refused).drains rfl)
  | read => exact hquiet h rfl
  | message => exact queued_onMsgReceived h _ _ _
  | malformed => exact hquiet h rfl
  | readEnd => exact hquiet h rfl
  | @update i crev u rest =>
    have hrest : Queued { c with activity := .pushing i crev rest } := hquiet h rfl
    exact hrest.drains ((acts_pushUpdate globMatch _ crev u).drains rfl)
  | updatesEnd => exact hquiet h rfl
  | timerConLost => exact h.drains ((acts_onConnectionLost c).drains rfl)
  | timerReconnect => exact hquiet h (tryToConnect_ledger _ _)
  | sigint => exact h.drains (drains_abort c)
  | asyncClosed => exact hquiet h rfl
  | async => exact hquiet h rfl
  | command _ hcommands => exact h.drains (drains_processCommand hcommands)
  | commandsEnd => exact hquiet h rfl
  | unwind => exact h.drains ((acts_unwindRun c).drains rfl)
  | finish => exact h.drains (drains_finishRun c)
  | createTx => exact queued_createTx h _ _
  | use hcell _ hstep => exact h.drains (drains_use hcell hstep)
  | discard => exact h.drains (drains_onTx c _ .discard)
  | release hcell => exact h.drains (drains_release hcell)
  | submit hcell => exact queued_submitTx h hcell _
  | close => exact queued_pushClose h false
  | stop => exact queued_pushClose h true
  | pingRefused => exact h
  | ping => exact h.pushRequest (fun _ _ => rfl) fun _ _ => of_decide_eq_true
  | fetchRefused => exact h
  | fetchSessions => exact h.pushRequest (fun _ _ => rfl) fun _ _ => of_decide_eq_true
  | @loopPing payload =>
    exact queued_loopRequest h (fun ticket => .ping ticket payload) (fun _ _ => rfl)
      (fun _ _ => of_decide_eq_true) _ _
  | @loopFetchSessions stream =>
    exact queued_loopRequest h (fun ticket => .sessions ticket stream) (fun _ _ => rfl)
      (fun _ _ => of_decide_eq_true) _ _
  | @pushClosed n p hpush =>
    exact queued_endPush (h.drains (drains_erasePush c n)) fun t cell hsubmits => h.pushed hpush hsubmits cell
  | pushCheck hpush => exact h.drains (drains_pushCheck hpush)
  | pushLocked hpush => exact queued_pushLocked h hpush

/-- Every step keeps the invariant of the queues. -/
theorem queued_step {e : Event} (h : c.Queued) (hstep : c.step globMatch e = some c') :
    c'.Queued := by
  obtain ⟨-, c₁, heffect, rfl⟩ := step_effect hstep
  exact (queued_effect h heffect).drains (drains_reap c₁)

/-- The client just created. -/
theorem queued_create (user password : Bytes) (maxActiveTxs rev0 servers : ℕ) (hasReactor : Bool) :
    (create user password maxActiveTxs rev0 servers hasReactor).Queued :=
  ⟨by simp [create], by simp [create], by simp [create, pending, carried],
    by simp [create, carried], by simp [create, carried], by simp [create, pending, carried],
    by simp [create], by simp [create], by simp [create]⟩

/-- The queues are sound in every run from a new client. -/
theorem queued_run {ok : Client → Event → Prop} {user password : Bytes}
    {maxActiveTxs rev0 servers : ℕ} {hasReactor : Bool} {events : List Event}
    (hrun : Run (step globMatch) ok (create user password maxActiveTxs rev0 servers hasReactor)
      events c) : c.Queued :=
  hrun.invariant (fun _ _ _ _ hstep h => queued_step h hstep) (queued_create _ _ _ _ _ _)

/-- The transaction at an index, when the states of all are known. -/
theorem exists_cell_of_states {c : Client} {states : List TxState} {t : ℕ} {state : TxState}
    (hstates : c.txs.map (·.tx.state) = states) (ht : states[t]? = some state) :
    ∃ cell : TxCell, c.txs[t]? = some cell ∧ cell.tx.state = state := by
  rw [← hstates, List.getElem?_map] at ht
  exact Option.map_eq_some_iff.mp ht

end Runs

end Client

end Nplex
