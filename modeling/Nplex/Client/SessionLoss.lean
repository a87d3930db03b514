import Nplex.Client.Queues

/-!
# The requests of a lost session

When the connection of the session closes, `cancel_requests` empties the requests and then the
accepted submits, and gives an exception to each transaction it finds there. A transaction takes
an exception only while it is SUBMITTED: one that waits in the accepted submits is ACCEPTED, and
loses its place in the queue without a result.
-/

namespace Nplex

open Nplex.Common

/-- The transaction after `submit_req_t::cancel`. -/
def TxCell.canceled (cell : TxCell) : TxCell :=
  { cell with tx := (cell.tx.setSubmitException .requestCanceled).1 }

/-- A submitted transaction is aborted, any other one is left alone. -/
theorem TxCell.canceled_eq {cell : TxCell} (h : cell.tx.Settled) :
    cell.tx.state = .submitted ∧ cell.canceled.tx.state = .aborted ∧
        cell.canceled.tx.promise.result = some (.exception .requestCanceled) ∨
      cell.tx.state ≠ .submitted ∧ cell.canceled = cell := by
  unfold canceled
  rw [Transaction.setSubmitException_eq h]
  by_cases hsubmitted : cell.tx.state = .submitted
  · exact Or.inl ⟨hsubmitted, by simp [hsubmitted], by simp [hsubmitted]⟩
  · exact Or.inr ⟨hsubmitted, by simp [hsubmitted]⟩

/-- A cancelled transaction is settled. -/
theorem TxCell.canceled_settled {cell : TxCell} (h : cell.tx.Settled) :
    cell.canceled.tx.Settled :=
  ((Transaction.Closing.setSubmitException .requestCanceled).calms h).1.settled

/-- Canceling twice is canceling once. -/
theorem TxCell.canceled_canceled {cell : TxCell} (h : cell.tx.Settled) :
    cell.canceled.canceled = cell.canceled := by
  rcases canceled_eq h with ⟨-, haborted, -⟩ | ⟨-, hsame⟩
  · rcases canceled_eq (canceled_settled h) with ⟨hsubmitted, -⟩ | ⟨-, hsame⟩
    · rw [haborted] at hsubmitted
      cases hsubmitted
    · exact hsame
  · rw [hsame, hsame]

namespace Client

/-- The transactions waiting on the session: SUBMITTED with a request, or ACCEPTED with an entry
of the accepted submits. -/
def waits (c : Client) (t : ℕ) (cell : TxCell) : Prop :=
  cell.tx.state = .submitted ∧ (∃ r ∈ c.requests, r.kind.submits t = true) ∨
    cell.tx.state = .accepted ∧ ∃ a ∈ c.accepted, a.tx = t

/-- The transaction is SUBMITTED or ACCEPTED, its future is unresolved, and nothing is left that
would resolve it. -/
def orphan (c : Client) (t : ℕ) : Prop :=
  ∃ cell : TxCell, c.txs[t]? = some cell ∧
    (cell.tx.state = .submitted ∨ cell.tx.state = .accepted) ∧
    cell.tx.promise.result = none ∧ c.refersTo t = false

/-- What the cancel loops do: the chosen transactions are canceled. -/
structure Cancels (p : ℕ → Bool) (c c' : Client) : Prop where
  activity : c'.activity = c.activity
  commands : c'.commands = c.commands
  pushes : c'.pushes = c.pushes
  txs : c'.txs = c.txs.mapIdx fun t cell => if p t then cell.canceled else cell

section Loops

variable {p q : ℕ → Bool} {c c' c'' : Client}

/-- Every promise agrees with its transaction. -/
def Settled (c : Client) : Prop := ∀ cell ∈ c.txs, cell.tx.Settled

/-- The transactions are settled after a cancellation. -/
theorem Cancels.settled (h : Cancels p c c') (hsettled : c.Settled) : c'.Settled := by
  intro cell hcell
  rw [h.txs, List.mem_mapIdx] at hcell
  obtain ⟨t, ht, rfl⟩ := hcell
  have hold := hsettled c.txs[t] (List.getElem_mem ht)
  split
  · exact TxCell.canceled_settled hold
  · exact hold

/-- No transaction is canceled. -/
theorem Cancels.refl (c : Client) : Cancels (fun _ => false) c c :=
  ⟨rfl, rfl, rfl, List.ext_getElem (by simp) (by simp)⟩

/-- Cancellations add up. -/
theorem Cancels.trans (hsettled : c.Settled) (h : Cancels p c c') (h' : Cancels q c' c'') :
    Cancels (fun t => p t || q t) c c'' := by
  refine ⟨h'.activity.trans h.activity, h'.commands.trans h.commands, h'.pushes.trans h.pushes, ?_⟩
  rw [h'.txs, h.txs, List.mapIdx_mapIdx]
  refine List.ext_getElem (by simp) fun t ht _ => ?_
  have hlength : t < c.txs.length := by simpa using ht
  have hold := hsettled c.txs[t] (List.getElem_mem hlength)
  simp only [List.getElem_mapIdx, Function.comp_apply]
  cases p t with
  | false => rfl
  | true =>
    cases q t with
    | false => rfl
    | true => exact TxCell.canceled_canceled hold

/-- The cancellation of a request cancels its transaction. -/
theorem cancel_cancels (hsettled : c.Settled) (kind : RequestKind) :
    Cancels kind.submits c (c.cancel kind) := by
  cases kind with
  | ping ticket payload =>
    have hnone := Cancels.refl c
    exact ⟨rfl, rfl, rfl, hnone.txs⟩
  | sessions ticket stream =>
    have hnone := Cancels.refl c
    exact ⟨rfl, rfl, rfl, hnone.txs⟩
  | submit t force =>
    unfold cancel
    cases hcell : c.txs[t]? with
    | none =>
      have hlength := List.getElem?_eq_none_iff.mp hcell
      have hsame : c.onTx t (·.setSubmitException .requestCanceled) = c := by
        unfold onTx
        rw [hcell]
      dsimp only
      rw [hsame]
      refine ⟨rfl, rfl, rfl, List.ext_getElem (by simp) fun u hu _ => ?_⟩
      have hne : t ≠ u := by omega
      simp [RequestKind.submits, hne]
    | some cell =>
      obtain ⟨hlength, rfl⟩ := List.getElem?_eq_some_iff.mp hcell
      have hthrows := ((Transaction.Closing.setSubmitException .requestCanceled).calms
        (hsettled c.txs[t] (List.getElem_mem hlength))).2
      dsimp only
      rw [onTx_of_cell hcell _ hthrows]
      refine ⟨rfl, rfl, rfl, List.ext_getElem (by simp) fun u hu _ => ?_⟩
      simp only [List.getElem_set, List.getElem_mapIdx, RequestKind.submits, decide_eq_true_eq]
      split
      · next hsame =>
        subst hsame
        rfl
      · rfl

/-- The loop over the requests. -/
theorem cancelPending_cancels {requests : List Request} (hsettled : c.Settled)
    (hbroken : c.broken = false) (hrequests : c.requests = requests) :
    Cancels (fun t => requests.any (·.kind.submits t)) c (cancelPending requests c) ∧
      (cancelPending requests c).requests = [] ∧
      (cancelPending requests c).accepted = c.accepted := by
  induction requests generalizing c with
  | nil => exact ⟨Cancels.refl c, hrequests, rfl⟩
  | cons r rest ih =>
    have hhead : Cancels r.kind.submits c (cancel { c with requests := rest } r.kind) := by
      have hcancel := cancel_cancels (c := { c with requests := rest }) hsettled r.kind
      exact ⟨hcancel.activity, hcancel.commands, hcancel.pushes, hcancel.txs⟩
    have hgoes : (cancel { c with requests := rest } r.kind).broken = false := by
      unfold broken at hbroken ⊢
      rw [hhead.activity]
      exact hbroken
    obtain ⟨htail, hempty, haccepted⟩ := ih (hhead.settled hsettled) hgoes (by simp)
    have hloop : cancelPending (r :: rest) c =
        cancelPending rest (cancel { c with requests := rest } r.kind) := by
      simp [cancelPending, andThen, hgoes]
    rw [hloop]
    refine ⟨hhead.trans hsettled htail, hempty, ?_⟩
    rw [haccepted]
    simp

/-- The loop over the accepted submits. -/
theorem cancelAccepted_cancels {accepted : List Accepted} (hsettled : c.Settled)
    (hbroken : c.broken = false) (haccepted : c.accepted = accepted) :
    Cancels (fun t => accepted.any fun a => a.tx = t) c (cancelAccepted accepted c) ∧
      (cancelAccepted accepted c).accepted = [] ∧
      (cancelAccepted accepted c).requests = c.requests := by
  induction accepted generalizing c with
  | nil => exact ⟨Cancels.refl c, haccepted, rfl⟩
  | cons a rest ih =>
    have hhead : Cancels (fun t => a.tx = t) c
        (cancel { c with accepted := rest } (.submit a.tx false)) := by
      have hcancel := cancel_cancels (c := { c with accepted := rest }) hsettled (.submit a.tx false)
      exact ⟨hcancel.activity, hcancel.commands, hcancel.pushes, hcancel.txs⟩
    have hgoes : (cancel { c with accepted := rest } (.submit a.tx false)).broken = false := by
      unfold broken at hbroken ⊢
      rw [hhead.activity]
      exact hbroken
    obtain ⟨htail, hempty, hrequests⟩ := ih (hhead.settled hsettled) hgoes (by simp)
    have hloop : cancelAccepted (a :: rest) c =
        cancelAccepted rest (cancel { c with accepted := rest } (.submit a.tx false)) := by
      simp [cancelAccepted, andThen, hgoes]
    rw [hloop]
    refine ⟨hhead.trans hsettled htail, hempty, ?_⟩
    rw [hrequests]
    simp

/-- Some request is the submit of the transaction. -/
def requested (c : Client) (t : ℕ) : Bool := c.requests.any (·.kind.submits t)

/-- Some accepted submit is that of the transaction. -/
def confirmable (c : Client) (t : ℕ) : Bool := c.accepted.any fun a => a.tx = t

/-- Both loops. -/
theorem cancelRequests_cancels (hsettled : c.Settled) (hbroken : c.broken = false) :
    Cancels (fun t => c.requested t || c.confirmable t) c c.cancelRequests ∧
      c.cancelRequests.requests = [] ∧ c.cancelRequests.accepted = [] := by
  obtain ⟨hpending, hempty, haccepted⟩ := cancelPending_cancels hsettled hbroken rfl
  have hgoes : (cancelPending c.requests c).broken = false := by
    unfold broken at hbroken ⊢
    rw [hpending.activity]
    exact hbroken
  have hloops : c.cancelRequests = cancelAccepted c.accepted (cancelPending c.requests c) := by
    simp [cancelRequests, andThen, hgoes, haccepted]
  obtain ⟨hdone, hnone, hrequests⟩ :=
    cancelAccepted_cancels (hpending.settled hsettled) hgoes haccepted
  rw [hloops]
  exact ⟨hpending.trans hsettled hdone, hrequests.trans hempty, hnone⟩

end Loops

section Loss

variable {globMatch : Glob} {c : Client}

/-- The client once `on_connection_closed` has run `cancel_requests` for the connection of the
session. -/
def sessionLost (c : Client) (i : ℕ) (con : Connection) : Client :=
  loseSession { c with connections := c.connections.set i con.onClose }

/-- The rest of `on_connection_closed`. -/
def afterLoss (retry : Option Bool) (refused : Option ℕ) (c : Client) : Client :=
  let c := { c with timerConLost := false }
  if retry.getD false then c.tryToConnect refused else c.abort

/-- The loss of the session cancels what waits on it, and leaves its queues empty. -/
theorem sessionLost_cancels (hsettled : c.Settled) (hidle : c.activity = .idle) (i : ℕ)
    (con : Connection) :
    Cancels (fun t => c.requested t || c.confirmable t) c (c.sessionLost i con) ∧
      (c.sessionLost i con).requests = [] ∧ (c.sessionLost i con).accepted = [] := by
  unfold sessionLost loseSession
  dsimp only
  generalize hset : { c with connections := c.connections.set i con.onClose } = c₀
  have hledger : (c₀.setState .offline).ledger = c.ledger := by
    rw [setState_ledger c₀ (by simp), ← hset]
    rfl
  have hactivity : (c₀.setState .offline).activity = c.activity := by
    rw [setState_activity, ← hset]
  generalize c₀.setState .offline = c₁ at hledger hactivity
  have htxs : c₁.txs = c.txs := congrArg Ledger.txs hledger
  have hcommands : c₁.commands = c.commands := congrArg Ledger.commands hledger
  have hpushes : c₁.pushes = c.pushes := congrArg Ledger.pushes hledger
  have hrequests : c₁.requests = c.requests := congrArg Ledger.requests hledger
  have haccepted : c₁.accepted = c.accepted := congrArg Ledger.accepted hledger
  obtain ⟨hcancels, hempty⟩ := cancelRequests_cancels
    (c := { c₁ with con := none, dataCid := 0, sessionsCid := 0 })
    (show Settled _ by simpa [Settled, htxs] using hsettled)
    (by simp [broken, hactivity, hidle])
  refine ⟨⟨hcancels.activity.trans hactivity, hcancels.commands.trans hcommands,
    hcancels.pushes.trans hpushes, ?_⟩, hempty⟩
  rw [hcancels.txs]
  simp [requested, confirmable, htxs, hrequests, haccepted]

/-- The end of the session in `on_connection_closed`. -/
theorem onConnectionClosed_of_session (hopen : c.state ≠ .closed) {i : ℕ} (hi : c.con = some i)
    (con : Connection) (delay : Option Int) (retry : Option Bool) (refused : Option ℕ) :
    onConnectionClosed { c with connections := c.connections.set i con.onClose } i delay retry
      refused = (c.sessionLost i con).andThen (afterLoss retry refused) := by
  unfold onConnectionClosed
  rw [if_neg (by simpa [isClosed] using hopen)]
  rw [if_neg (by simp [hi]), if_neg (by simp [hi])]
  rfl

/-- The close callback of the connection of the session. -/
theorem step_closed_of_session {i : ℕ} {con : Connection} (delay : Option Int)
    (retry : Option Bool) (refused : Option ℕ) (hphase : c.phase = .running)
    (hidle : c.activity = .idle) (hopen : c.state ≠ .closed) (hi : c.con = some i)
    (hcon : c.connections[i]? = some con) (hstate : con.state ≠ .closed)
    (hclosing : con.closing = true) :
    c.step globMatch (.closed i delay retry refused) =
      some ((c.sessionLost i con).andThen (afterLoss retry refused)).reap := by
  have hclosed := onConnectionClosed_of_session hopen hi con delay retry refused
  have hraw : c.stepRaw globMatch (.closed i delay retry refused) =
      some ((c.sessionLost i con).andThen (afterLoss retry refused)) := by
    rw [← hclosed]
    simp [stepRaw, callback, hphase, hidle, hcon, hclosing, Connection.isClosed, hstate]
  unfold step
  rw [if_neg (by simp [hidle]), hraw]
  rfl

/-- A transaction is referred to by the queues and the pushes. -/
theorem refersTo_eq (c : Client) (t : ℕ) :
    c.refersTo t = (c.commands.any (·.submits t) || c.requested t || c.confirmable t ||
      c.pushes.any (·.command.submits t)) := rfl

/-- The transactions after the loss of the session. -/
theorem sessionLost_get (hsettled : c.Settled) (hidle : c.activity = .idle) (i : ℕ)
    (con : Connection) {t : ℕ} {cell : TxCell} (hcell : c.txs[t]? = some cell) :
    (c.sessionLost i con).txs[t]? =
      some (if c.requested t || c.confirmable t then cell.canceled else cell) := by
  obtain ⟨hcancels, -⟩ := sessionLost_cancels hsettled hidle i con
  rw [hcancels.txs, List.getElem?_mapIdx, hcell]
  rfl

/-- A transaction without request and accepted submit keeps its other places. -/
theorem sessionLost_refersTo (hsettled : c.Settled) (hidle : c.activity = .idle) (i : ℕ)
    (con : Connection) {t : ℕ} (hfound : (c.requested t || c.confirmable t) = false) :
    (c.sessionLost i con).refersTo t = c.refersTo t := by
  obtain ⟨hcancels, hrequests, haccepted⟩ := sessionLost_cancels hsettled hidle i con
  obtain ⟨hrequested, hconfirmable⟩ := Bool.or_eq_false_iff.mp hfound
  rw [refersTo_eq, refersTo_eq, hcancels.commands, hcancels.pushes, hrequested, hconfirmable]
  simp [requested, confirmable, hrequests, haccepted]

/-- A submitted transaction with a request is aborted. -/
theorem sessionLost_aborts (hsettled : c.Settled) (hidle : c.activity = .idle) (i : ℕ)
    (con : Connection) {t : ℕ} {cell : TxCell} (hcell : c.txs[t]? = some cell)
    (hsubmitted : cell.tx.state = .submitted) (hrequested : c.requested t = true) :
    ∃ cell' : TxCell, (c.sessionLost i con).txs[t]? = some cell' ∧ cell'.tx.state = .aborted ∧
      ∃ e, cell'.tx.promise.result = some (.exception e) := by
  refine ⟨cell.canceled, ?_, ?_⟩
  · rw [sessionLost_get hsettled hidle i con hcell, if_pos (by simp [hrequested])]
  · rcases TxCell.canceled_eq (hsettled cell (List.mem_of_getElem? hcell)) with
      ⟨-, haborted, hresult⟩ | ⟨hnot, -⟩
    · exact ⟨haborted, _, hresult⟩
    · exact absurd hsubmitted hnot

/-- A transaction that is not SUBMITTED is left as it is. -/
theorem sessionLost_spares (hsettled : c.Settled) (hidle : c.activity = .idle) (i : ℕ)
    (con : Connection) {t : ℕ} {cell : TxCell} (hcell : c.txs[t]? = some cell)
    (hnot : cell.tx.state ≠ .submitted) : (c.sessionLost i con).txs[t]? = some cell := by
  rw [sessionLost_get hsettled hidle i con hcell]
  split
  · rcases TxCell.canceled_eq (hsettled cell (List.mem_of_getElem? hcell)) with
      ⟨hsubmitted, -⟩ | ⟨-, hsame⟩
    · exact absurd hsubmitted hnot
    · rw [hsame]
  · rfl

/-- A transaction without a place stays without one. -/
theorem orphan_sessionLost (hsettled : c.Settled) (hidle : c.activity = .idle) (i : ℕ)
    (con : Connection) {t : ℕ} (h : c.orphan t) : (c.sessionLost i con).orphan t := by
  obtain ⟨cell, hcell, hwaits, hresult, hrefersTo⟩ := h
  have hfound : (c.requested t || c.confirmable t) = false := by
    rw [refersTo_eq] at hrefersTo
    simp only [Bool.or_eq_false_iff] at hrefersTo ⊢
    exact ⟨hrefersTo.1.1.2, hrefersTo.1.2⟩
  refine ⟨cell, ?_, hwaits, hresult, ?_⟩
  · rw [sessionLost_get hsettled hidle i con hcell, if_neg (by simp [hfound])]
  · rw [sessionLost_refersTo hsettled hidle i con hfound, hrefersTo]

/-- A request is never that of an ACCEPTED transaction. -/
theorem Queued.requested_not_accepted (h : c.Queued) {t : ℕ} {cell : TxCell}
    (hcell : c.txs[t]? = some cell) (hrequested : c.requested t = true) :
    cell.tx.state ≠ .accepted := by
  obtain ⟨r, hr, hsubmits⟩ := List.any_eq_true.mp hrequested
  have hpending : c.pending t ≠ 0 := carried_of_request hr hsubmits
  intro hstate
  rcases h.submitted t cell hcell hpending with hsubmitted | hclosed
  · rw [hstate] at hsubmitted
    cases hsubmitted
  · rw [hstate] at hclosed
    cases hclosed

/-- A transaction without a place after the loss had none before, when no accepted submit is of
an ACCEPTED transaction. -/
theorem orphan_of_sessionLost (hqueued : c.Queued) (hidle : c.activity = .idle) (i : ℕ)
    (con : Connection) {t : ℕ}
    (hnever : ∀ a ∈ c.accepted, ∀ cell : TxCell, c.txs[a.tx]? = some cell →
      cell.tx.state ≠ .accepted)
    (h : (c.sessionLost i con).orphan t) : c.orphan t := by
  obtain ⟨cell', hcell', hwaits, hresult, hrefersTo⟩ := h
  obtain ⟨hcancels, -⟩ := sessionLost_cancels hqueued.settled hidle i con
  have hlength : t < c.txs.length := by
    have hlength' := (List.getElem?_eq_some_iff.mp hcell').1
    rw [hcancels.txs] at hlength'
    simpa using hlength'
  obtain ⟨cell, hcell⟩ : ∃ cell, c.txs[t]? = some cell := ⟨_, List.getElem?_eq_getElem hlength⟩
  rw [sessionLost_get hqueued.settled hidle i con hcell] at hcell'
  obtain rfl := Option.some.inj hcell'
  cases hfound : c.requested t || c.confirmable t with
  | false =>
    rw [hfound] at hwaits hresult
    rw [sessionLost_refersTo hqueued.settled hidle i con hfound] at hrefersTo
    exact ⟨cell, hcell, hwaits, hresult, hrefersTo⟩
  | true =>
    rw [hfound, if_pos rfl] at hwaits
    rcases TxCell.canceled_eq (hqueued.settled cell (List.mem_of_getElem? hcell)) with
      ⟨-, haborted, -⟩ | ⟨hnot, hsame⟩
    · rw [haborted] at hwaits
      rcases hwaits with hwaits | hwaits <;> cases hwaits
    · rw [hsame] at hwaits
      have hstate : cell.tx.state = .accepted := hwaits.resolve_left hnot
      rcases (Bool.or_eq_true _ _).mp hfound with hrequested | hconfirmable
      · exact absurd hstate (hqueued.requested_not_accepted hcell hrequested)
      · obtain ⟨a, ha, hat⟩ := List.any_eq_true.mp hconfirmable
        obtain rfl : a.tx = t := by simpa using hat
        exact absurd hstate (hnever a ha cell hcell)

/-- On every run, the loss of the session aborts every transaction that waits on it and leaves
none without a result and without a place in a queue exactly when none of the accepted submits is
of an ACCEPTED transaction and no transaction was without its place before. -/
theorem session_loss_aborts_iff (globMatch : Glob) (user password : Bytes)
    (maxActiveTxs rev0 servers : ℕ) (hasReactor : Bool) (events : List Event) (c : Client)
    (hrun : Run (step globMatch) anyStep
      (create user password maxActiveTxs rev0 servers hasReactor) events c)
    (i : ℕ) (con : Connection) (delay : Option Int) (retry : Option Bool) (refused : Option ℕ)
    (hphase : c.phase = .running) (hidle : c.activity = .idle) (hopen : c.state ≠ .closed)
    (hi : c.con = some i) (hcon : c.connections[i]? = some con) (hclosing : con.closing = true) :
    c.step globMatch (.closed i delay retry refused) =
        some ((c.sessionLost i con).andThen (afterLoss retry refused)).reap ∧
      (((∀ (t : ℕ) (cell : TxCell), c.txs[t]? = some cell → c.waits t cell →
            ∃ cell' : TxCell, (c.sessionLost i con).txs[t]? = some cell' ∧
              cell'.tx.state = .aborted ∧
              ∃ e, cell'.tx.promise.result = some (.exception e)) ∧
          ∀ t, ¬(c.sessionLost i con).orphan t) ↔
        (∀ a ∈ c.accepted, ∀ cell : TxCell, c.txs[a.tx]? = some cell → cell.tx.state ≠ .accepted) ∧
          ∀ t, ¬c.orphan t) := by
  have hqueued := queued_run hrun
  have hsettled : c.Settled := hqueued.settled
  have hstate : con.state ≠ .closed := by
    obtain ⟨con', hcon', hconnected⟩ := (sound_run hrun).tied.connected i hi
    rw [hcon] at hcon'
    obtain rfl := Option.some.inj hcon'
    simp [hconnected]
  refine ⟨step_closed_of_session delay retry refused hphase hidle hopen hi hcon hstate hclosing, ?_⟩
  constructor
  · rintro ⟨haborts, hnone⟩
    refine ⟨fun a ha cell hcell haccepted => ?_, fun t horphan =>
      hnone t (orphan_sessionLost hsettled hidle i con horphan)⟩
    obtain ⟨cell', hcell', haborted, -⟩ := haborts a.tx cell hcell (Or.inr ⟨haccepted, a, ha, rfl⟩)
    rw [sessionLost_spares hsettled hidle i con hcell (by simp [haccepted])] at hcell'
    obtain rfl := Option.some.inj hcell'
    rw [haccepted] at haborted
    cases haborted
  · rintro ⟨hnever, hnone⟩
    refine ⟨fun t cell hcell hwaits => ?_, fun t horphan =>
      hnone t (orphan_of_sessionLost hqueued hidle i con hnever horphan)⟩
    rcases hwaits with ⟨hsubmitted, r, hr, hsubmits⟩ | ⟨haccepted, a, ha, rfl⟩
    · have hrequested : c.requested t = true := List.any_eq_true.mpr ⟨r, hr, hsubmits⟩
      exact sessionLost_aborts hsettled hidle i con hcell hsubmitted hrequested
    · exact absurd haccepted (hnever a ha cell hcell)

/-- The events of a transaction that the server accepts. -/
def acceptedSubmit : List Event :=
  [.start none, .connected 0, .read 0,
    .message (some (.loginResponse ⟨.authorized, 0, 0, true, true, 10, [⟨15, [42]⟩]⟩)) false,
    .readEnd, .createTx .readCommitted false, .submit 0 true, .pushCheck 0, .pushLocked 0, .async,
    .command, .commandsEnd, .read 0, .message (some (.submitResponse ⟨2, .accepted, 1⟩)) false,
    .readEnd]

/-- The server accepts a submit and then closes the connection: the transaction stays ACCEPTED. -/
theorem accepted_submit_outlives_session :
    ¬∀ (events : List Event) (c : Client) (i : ℕ) (con : Connection),
      Run (step fun _ _ => true) anyStep (create [1] [2] 0 0 1 false) events c →
      c.phase = .running → c.activity = .idle → c.state ≠ .closed → c.con = some i →
      c.connections[i]? = some con → con.closing = true →
      ∀ (t : ℕ) (cell : TxCell), c.txs[t]? = some cell → c.waits t cell →
        ∃ cell' : TxCell, (c.sessionLost i con).txs[t]? = some cell' ∧
          cell'.tx.state = .aborted ∧ ∃ e, cell'.tx.promise.result = some (.exception e) := by
  intro h
  have hexec : (execute (step fun _ _ => true) (fun _ _ => true) (create [1] [2] 0 0 1 false)
      (acceptedSubmit ++ [.failed 0 .closedByPeer])).map (fun c => decide (c.phase = .running ∧
        c.activity = .idle ∧ c.state = .syncing ∧ c.con = some 0 ∧
        c.connections = [⟨.connected, true, some .closedByPeer⟩] ∧
        c.txs.map (·.tx.state) = [.accepted] ∧ c.accepted = [⟨0, 1⟩] ∧
        (c.sessionLost 0 ⟨.connected, true, some .closedByPeer⟩).txs.map (·.tx.state) =
          [.accepted])) = some true := by
    decide +kernel
  obtain ⟨c, hrun, hend⟩ := exists_run_of_execute (fun _ _ _ => trivial) hexec
  obtain ⟨hphase, hidle, hstate, hcon, hconnections, hstates, haccepted, hafter⟩ :=
    of_decide_eq_true hend
  obtain ⟨cell, hcell, hcellState⟩ := exists_cell_of_states hstates (t := 0) rfl
  obtain ⟨cell', hcell', haborted, -⟩ := h _ c 0 _ hrun hphase hidle (by simp [hstate]) hcon
    (by rw [hconnections]; rfl) rfl 0 cell hcell
    (Or.inr ⟨hcellState, ⟨0, 1⟩, by simp [haccepted], rfl⟩)
  obtain ⟨last, hlast, hlastState⟩ := exists_cell_of_states hafter (t := 0) rfl
  rw [hlast] at hcell'
  obtain rfl := Option.some.inj hcell'
  rw [hlastState] at haborted
  cases haborted

/-- The connection closes before the answer: the transaction is aborted. -/
theorem session_loss_aborts_iff_submitted : ∃ (c : Client) (cell' : TxCell),
    Run (step fun _ _ => true) anyStep (create [1] [2] 0 0 1 false)
        (acceptedSubmit.take 12 ++ [.failed 0 .closedByPeer]) c ∧
      (c.sessionLost 0 ⟨.connected, true, some .closedByPeer⟩).txs[0]? = some cell' ∧
      cell'.tx.state = .aborted ∧ ∃ e, cell'.tx.promise.result = some (.exception e) := by
  have hexec : (execute (step fun _ _ => true) (fun _ _ => true) (create [1] [2] 0 0 1 false)
      (acceptedSubmit.take 12 ++ [.failed 0 .closedByPeer])).map (fun c => decide
        (c.phase = .running ∧ c.activity = .idle ∧ c.state = .syncing ∧ c.con = some 0 ∧
        c.connections = [⟨.connected, true, some .closedByPeer⟩] ∧
        c.txs.map (·.tx.state) = [.submitted] ∧ c.accepted = [] ∧
        c.requests = [⟨2, .submit 0 true⟩])) = some true := by
    decide +kernel
  obtain ⟨c, hrun, hend⟩ := exists_run_of_execute (fun _ _ _ => trivial) hexec
  obtain ⟨hphase, hidle, hstate, hcon, hconnections, hstates, haccepted, hrequests⟩ :=
    of_decide_eq_true hend
  obtain ⟨cell, hcell, hcellState⟩ := exists_cell_of_states hstates (t := 0) rfl
  obtain ⟨-, hiff⟩ := session_loss_aborts_iff _ _ _ _ _ _ _ _ c hrun 0
    ⟨.connected, true, some .closedByPeer⟩ none none none hphase hidle (by simp [hstate]) hcon
    (by rw [hconnections]; rfl) rfl
  have hnone : ∀ t, ¬c.orphan t := by
    rintro t ⟨other, hother, -, -, hrefersTo⟩
    have hlength := (List.getElem?_eq_some_iff.mp hother).1
    have hone : c.txs.length = 1 := by simpa using congrArg List.length hstates
    obtain rfl : t = 0 := by omega
    simp [refersTo, hrequests, RequestKind.submits] at hrefersTo
  obtain ⟨cell', hcell', haborted, hresult⟩ := (hiff.mpr ⟨by simp [haccepted], hnone⟩).1 0 cell hcell
    (Or.inl ⟨hcellState, ⟨2, .submit 0 true⟩, by simp [hrequests], rfl⟩)
  exact ⟨c, cell', hrun, hcell', haborted, hresult⟩

end Loss

end Client

end Nplex
