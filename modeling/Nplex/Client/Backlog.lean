import Nplex.Client.Commands

/-!
# The backlog of submits

A transaction whose submit waits to be sent is SUBMITTED, unless its owner discards it in the
meantime, and it is in `m_transactions` unless the client has been closed. So is every open
transaction that its owner can submit, and `create_tx` never lets more than `max_active_txs` in.
-/

namespace Nplex

open Nplex.Common

namespace Client

/-- The client is CLOSED, or has left CLOSED again. -/
def wasClosed (c : Client) : Prop := c.state = .closed ∨ c.afterClosed ≠ []

/-- The invariant of the transactions that are, or can be, submitted. -/
structure Armed (c : Client) : Prop where
  submitted : ∀ t, c.unsent t ≠ 0 → ∃ cell : TxCell, c.txs[t]? = some cell ∧
    cell.tx.state = .submitted ∧ (cell.registered = true ∨ c.wasClosed)
  enlisted : ∀ (t : ℕ) (cell : TxCell), c.txs[t]? = some cell → cell.held = true →
    cell.tx.state.isClosed = false → cell.registered = true ∨ c.wasClosed
  room : c.txs.countP (·.registered) ≤ c.maxActiveTxs

/-- No transaction is discarded while its submit waits to be sent. -/
def sparesUnsent (c : Client) : Event → Bool
  | .discard t => c.unsent t = 0
  | _ => true

/-- What a step does that submits nothing new: the transactions whose submits still wait stay
SUBMITTED, and those in `m_transactions` stay there unless the client is closed. -/
structure Relieves (c c' : Client) : Prop where
  unsent : ∀ t, c'.unsent t ≤ c.unsent t
  submitted : ∀ (t : ℕ) (cell : TxCell), c.txs[t]? = some cell → cell.tx.state = .submitted →
    c'.unsent t ≠ 0 → ∃ cell' : TxCell, c'.txs[t]? = some cell' ∧ cell'.tx.state = .submitted ∧
      (cell.registered = true → cell'.registered = true ∨ c'.wasClosed)
  enlisted : ∀ (t : ℕ) (cell' : TxCell), c'.txs[t]? = some cell' → cell'.held = true →
    cell'.tx.state.isClosed = false → ∃ cell : TxCell, c.txs[t]? = some cell ∧
      cell.held = true ∧ cell.tx.state.isClosed = false ∧
      (cell.registered = true → cell'.registered = true ∨ c'.wasClosed)
  registered : c'.txs.countP (·.registered) ≤ c.txs.countP (·.registered)
  closed : c.wasClosed → c'.wasClosed
  limit : c'.maxActiveTxs = c.maxActiveTxs

section Relations

variable {c c' : Client}

/-- A client that is relieved of submits stays armed. -/
theorem Armed.relieved (h : c.Armed) (hrelieves : Relieves c c') : c'.Armed where
  submitted t ht := by
    have hle := hrelieves.unsent t
    obtain ⟨cell, hcell, hstate, hregistered⟩ := h.submitted t (by omega)
    obtain ⟨cell', hcell', hstate', hkept⟩ := hrelieves.submitted t cell hcell hstate ht
    refine ⟨cell', hcell', hstate', ?_⟩
    rcases hregistered with hyes | hclosed
    · exact hkept hyes
    · exact Or.inr (hrelieves.closed hclosed)
  enlisted t cell' hcell' hheld hopen := by
    obtain ⟨cell, hcell, hheld', hopen', hkept⟩ := hrelieves.enlisted t cell' hcell' hheld hopen
    rcases h.enlisted t cell hcell hheld' hopen' with hyes | hclosed
    · exact hkept hyes
    · exact Or.inr (hrelieves.closed hclosed)
  room := by
    rw [hrelieves.limit]
    exact hrelieves.registered.trans h.room

/-- A client that a handler closes was closed at some time. -/
theorem Closes.wasClosed (h : Closes c c') : c'.wasClosed := by
  refine h.imp_right fun hmarked hnil => ?_
  rw [hnil] at hmarked
  simp at hmarked

/-- A SUBMITTED transaction whose submit waits has no request and no commit to come. -/
theorem Queued.not_awaits (h : c.Queued) {t : ℕ} {cell : TxCell} (hcell : c.txs[t]? = some cell)
    (hstate : cell.tx.state = .submitted) (hunsent : c.unsent t ≠ 0) : ¬c.awaits t := by
  rintro (⟨r, hr, hsubmits⟩ | ⟨a, ha, rfl⟩)
  · have hcount : 0 < c.requests.countP fun r => r.kind.submits t :=
      List.countP_pos_iff.mpr ⟨r, hr, hsubmits⟩
    have honce := h.once t
    simp only [unsent, submits_eq_carries] at hunsent
    simp only [pending, carried] at honce
    omega
  · rcases h.accepted a cell ha hcell with haccepted | hclosed
    · rw [hstate] at haccepted
      cases haccepted
    · rw [hstate] at hclosed
      cases hclosed

/-- The handlers that leave the waiting submits alone. -/
theorem Spares.relieves (h : Spares c c') (hqueued : c.Queued) : Relieves c c' where
  unsent := h.unsent_le
  submitted t cell hcell hstate hunsent := by
    have hle := h.unsent_le t
    have hawaits := hqueued.not_awaits hcell hstate (by omega)
    obtain ⟨cell', hcell', hstate', hkept⟩ := h.submitted t cell hcell hstate hawaits hunsent
    exact ⟨cell', hcell', hstate', fun hyes => (hkept hyes).imp_right Closes.wasClosed⟩
  enlisted t cell' hcell' hheld hopen := by
    obtain ⟨cell, hcell, hheld', hopen', hkept⟩ := h.enlisted t cell' hcell' hheld hopen
    exact ⟨cell, hcell, hheld', hopen', fun hyes => (hkept hyes).imp_right Closes.wasClosed⟩
  registered := h.registered
  closed := by
    rintro (hclosed | hmarked)
    · exact (h.closed hclosed).wasClosed
    · refine Or.inr fun hnil => hmarked (List.eq_nil_of_length_eq_zero ?_)
      have hmarks := h.marks
      rw [hnil, List.length_nil] at hmarks
      omega
  limit := h.limit

/-- A change of the queues that adds no submit. -/
theorem Relieves.of_queues (hunsent : ∀ t, c'.unsent t ≤ c.unsent t) (htxs : c'.txs = c.txs)
    (hlink : c'.link = c.link) (hlimit : c'.maxActiveTxs = c.maxActiveTxs) : Relieves c c' where
  unsent := hunsent
  submitted t cell hcell hstate _ := ⟨cell, htxs ▸ hcell, hstate, Or.inl⟩
  enlisted t cell hcell hheld hopen := ⟨cell, htxs ▸ hcell, hheld, hopen, Or.inl⟩
  registered := by rw [htxs]
  closed hclosed := by
    unfold wasClosed
    rwa [state_of_link hlink, afterClosed_of_link hlink]
  limit := hlimit

/-- A method is called on a transaction whose submit does not wait, or that keeps its state. -/
theorem relieves_onTx {t : ℕ} {f : Transaction → Transaction × Option TxError}
    (hf : ∀ tx : Transaction, tx.state.isClosed = true → (f tx).1.state.isClosed = true)
    (hstate : c.unsent t = 0 ∨ ∀ tx : Transaction, (f tx).1.state = tx.state) :
    Relieves c (c.onTx t f) := by
  have hbacklog := onTx_backlog c t f
  have hlink := onTx_link c t f
  have hunsent : ∀ u, (c.onTx t f).unsent u = c.unsent u := fun u => by
    have hpushes : (c.onTx t f).pushes = c.pushes := congrArg Backlog.pushes hbacklog
    have hcommands : (c.onTx t f).commands = c.commands := congrArg Backlog.commands hbacklog
    unfold Client.unsent
    rw [hpushes, hcommands]
  rcases onTx_txs c t f with hsame | ⟨cell₁, hcell₁, hset⟩
  · exact .of_queues (fun u => (hunsent u).le) hsame hlink (congrArg Backlog.maxActiveTxs hbacklog)
  have hself : (c.onTx t f).txs[t]? = some { cell₁ with tx := (f cell₁.tx).1 } := by
    rw [hset]
    exact List.getElem?_set_self (List.getElem?_eq_some_iff.mp hcell₁).1
  have hother : ∀ {u : ℕ}, t ≠ u → (c.onTx t f).txs[u]? = c.txs[u]? := fun hu => by
    rw [hset, List.getElem?_set_ne hu]
  refine ⟨fun u => (hunsent u).le, fun u cell hcell hsubmitted hne => ?_,
    fun u cell' hcell' hheld hopen => ?_, ?_, fun hclosed => ?_, congrArg Backlog.maxActiveTxs hbacklog⟩
  · by_cases hu : t = u
    · subst hu
      obtain rfl := Option.some.inj (hcell₁.symm.trans hcell)
      rw [hunsent] at hne
      exact ⟨_, hself, ((hstate.resolve_left hne) _).trans hsubmitted, Or.inl⟩
    · exact ⟨cell, (hother hu).trans hcell, hsubmitted, Or.inl⟩
  · by_cases hu : t = u
    · subst hu
      obtain rfl := Option.some.inj (hself.symm.trans hcell')
      refine ⟨cell₁, hcell₁, hheld, ?_, Or.inl⟩
      by_contra hclosed
      rw [hf _ (by simpa using hclosed)] at hopen
      cases hopen
    · exact ⟨cell', (hother hu).symm.trans hcell', hheld, hopen, Or.inl⟩
  · rw [hset]
    refine le_of_eq ?_
    exact countP_registered_set hcell₁ rfl
  · unfold wasClosed
    rwa [state_of_link hlink, afterClosed_of_link hlink]

end Relations

section Traffic

variable {globMatch : Glob} {c c' : Client}

/-- Taking the future changes no state. -/
theorem relieves_endPush (c : Client) (p : Push) : Relieves c (c.endPush p) := by
  unfold endPush
  split
  · exact relieves_onTx (fun _ hclosed => hclosed) (Or.inr fun _ => rfl)
  · exact .of_queues (fun _ => le_rfl) rfl rfl rfl

/-- Handlers relieve one after the other. -/
theorem Relieves.trans {c'' : Client} (h : Relieves c c') (h' : Relieves c' c'') :
    Relieves c c'' where
  unsent t := (h'.unsent t).trans (h.unsent t)
  submitted t cell hcell hstate hunsent := by
    have hle := h'.unsent t
    obtain ⟨cell', hcell', hstate', hkept⟩ := h.submitted t cell hcell hstate (by omega)
    obtain ⟨cell'', hcell'', hstate'', hkept'⟩ := h'.submitted t cell' hcell' hstate' hunsent
    exact ⟨cell'', hcell'', hstate'', fun hyes => (hkept hyes).elim hkept' (Or.inr ∘ h'.closed)⟩
  enlisted t cell'' hcell'' hheld'' hopen'' := by
    obtain ⟨cell', hcell', hheld', hopen', hkept'⟩ := h'.enlisted t cell'' hcell'' hheld'' hopen''
    obtain ⟨cell, hcell, hheld, hopen, hkept⟩ := h.enlisted t cell' hcell' hheld' hopen'
    exact ⟨cell, hcell, hheld, hopen, fun hyes => (hkept hyes).elim hkept' (Or.inr ∘ h'.closed)⟩
  registered := h'.registered.trans h.registered
  closed := h'.closed ∘ h.closed
  limit := h'.limit.trans h.limit

/-- Going on relieves if what follows does. -/
theorem Relieves.andThen {f : Client → Client} (h : Relieves c (f c)) :
    Relieves c (c.andThen f) := by
  unfold Client.andThen
  split
  · exact .of_queues (fun _ => le_rfl) rfl rfl rfl
  · exact h

/-- A push that is over. -/
theorem relieves_erasePush (c : Client) (n : ℕ) :
    Relieves c { c with pushes := c.pushes.eraseIdx n } := by
  refine .of_queues (fun t => ?_) rfl rfl rfl
  have hle := (List.eraseIdx_sublist c.pushes n).countP_le (p := fun p => p.command.submits t)
  unfold Client.unsent
  dsimp only
  omega

/-- The check of a push changes no command. -/
theorem unsent_pushCheck {n : ℕ} {p : Push} (hpush : c.pushes[n]? = some p) (t : ℕ) :
    unsent { c with pushes := c.pushes.set n { p with checked := true } } t = c.unsent t := by
  have hcount := countP_pushCheck hpush fun command => command.submits t
  unfold unsent
  dsimp only
  omega

/-- The command of a push is moved to the queue. -/
theorem unsent_pushed {n : ℕ} {p : Push} (hpush : c.pushes[n]? = some p) (t : ℕ) :
    unsent { c with pushes := c.pushes.eraseIdx n, commands := c.commands ++ [p.command] } t =
      c.unsent t := by
  have hcount := countP_eraseIdx_add hpush fun p => p.command.submits t
  unfold unsent
  simp only [List.countP_append, List.countP_cons, List.countP_nil]
  omega

/-- A push moves its command to the queue, or ends. -/
theorem relieves_pushLocked {n : ℕ} {p : Push} (hpush : c.pushes[n]? = some p) :
    Relieves c (pushLocked { c with pushes := c.pushes.eraseIdx n } p) := by
  unfold pushLocked enqueue
  split
  · split
    · exact (relieves_erasePush c n).trans (.of_queues (fun _ => le_rfl) rfl rfl rfl)
    · exact relieves_erasePush c n
  · have hmoved : Relieves c
        { c with pushes := c.pushes.eraseIdx n, commands := c.commands ++ [p.command] } :=
      .of_queues (fun t => (unsent_pushed hpush t).le) rfl rfl rfl
    dsimp only
    split
    · refine hmoved.trans (Relieves.trans ?_ (relieves_endPush _ p))
      exact .of_queues (fun _ => le_rfl) rfl rfl rfl
    · exact hmoved.trans (relieves_endPush _ p)

/-- The command that is taken waits no more. -/
theorem unsent_taken {command : Command} {rest : List Command}
    (hcommands : c.commands = command :: rest) (t : ℕ) :
    unsent { c with commands := rest } t + (if command.submits t then 1 else 0) = c.unsent t := by
  unfold unsent
  rw [hcommands, List.countP_cons]
  dsimp only
  omega

/-- The loop over the commands takes the front of the queue. -/
theorem relieves_taken {command : Command} {rest : List Command}
    (hcommands : c.commands = command :: rest) : Relieves c { c with commands := rest } := by
  refine .of_queues (fun t => ?_) rfl rfl rfl
  have htaken := unsent_taken hcommands t
  omega

/-- Sending submits nothing new. -/
theorem relieves_send (c : Client) (msg : ClientMsg) : Relieves c (c.send msg) := by
  have hsame : ∀ {c₁ : Client}, c₁.ledger = c.ledger → c₁.link = c.link →
      c₁.maxActiveTxs = c.maxActiveTxs → Relieves c c₁ := fun hledger hlink hlimit => by
    refine .of_queues (fun t => le_of_eq ?_) (congrArg Ledger.txs hledger) hlink hlimit
    exact congrArg (fun l : Ledger => l.pushes.countP (·.command.submits t) +
      l.commands.countP (·.submits t)) hledger
  refine hsame (send_ledger c msg) (send_link c msg) ?_
  unfold send sendOn
  split
  · rfl
  · split
    · rfl
    · split
      · rfl
      · split <;> rfl

/-- A request is sent, or refused without a session. -/
theorem relieves_processRequest {kind : RequestKind} {refuse : Client → Client}
    (hrefuse : Relieves c (refuse c)) (msg : ℕ → ClientMsg) :
    Relieves c (c.processRequest kind refuse msg) := by
  unfold processRequest
  split
  · exact hrefuse
  · have hcorrelation : Relieves c { c with correlation := c.correlation + 1 } :=
      .of_queues (fun _ => le_rfl) rfl rfl rfl
    refine hcorrelation.trans ((relieves_send _ (msg c.correlation)).trans (.andThen ?_))
    exact .of_queues (fun _ => le_rfl) rfl rfl rfl

/-- A submit that nothing else carries is sent or refused. -/
theorem relieves_processSubmitCmd {t : ℕ} (hunsent : c.unsent t = 0) (force : Bool) :
    Relieves c (c.processSubmitCmd t force) := by
  unfold processSubmitCmd
  split
  · exact .of_queues (fun _ => le_rfl) rfl rfl rfl
  · refine relieves_processRequest ?_ _
    exact relieves_onTx (Transaction.setSubmitException_closed .notConnected) (Or.inl hunsent)

/-- The turn of `process_commands`. -/
theorem relieves_command (hqueued : c.Queued) {command : Command} {rest : List Command}
    (hcommands : c.commands = command :: rest) :
    Relieves c (processCommand { c with commands := rest } command) := by
  have htaken := relieves_taken hcommands
  have hqueued' : Queued { c with commands := rest } := by
    refine hqueued.drains (.of_shorter (Or.inl rfl) (.refl _) ?_ (.refl _) (.refl _) le_rfl)
    rw [hcommands]
    exact List.sublist_cons_self command rest
  refine htaken.trans ?_
  cases command with
  | close => exact (spares_abort _).relieves hqueued'
  | request kind =>
    cases kind with
    | ping ticket payload => exact ((acts_processPingCmd _ ticket payload).spares rfl).relieves hqueued'
    | sessions ticket stream => exact ((acts_processSessionsCmd _ ticket stream).spares rfl).relieves hqueued'
    | submit t force =>
      refine relieves_processSubmitCmd ?_ force
      have hcount := unsent_taken hcommands t
      rw [if_pos (by simp [Command.submits, RequestKind.submits])] at hcount
      have honce := hqueued.once t
      have hle := unsent_le_pending c t
      omega

/-- A push of something other than a submit begins. -/
theorem relieves_push {p : Push} (hp : ∀ t, p.command.submits t = false) {tickets : ℕ} :
    Relieves c { c with pushes := c.pushes ++ [p], tickets := tickets } := by
  refine .of_queues (fun t => le_of_eq ?_) rfl rfl rfl
  unfold Client.unsent
  simp [List.countP_append, hp t]

end Traffic

section Steps

variable {globMatch : Glob} {c c' : Client}

/-- How `submit` ends: it throws, it closes the transaction, or its push begins. -/
theorem submitTx_cases {t : ℕ} {cell : TxCell} (hsettled : cell.tx.Settled) (force : Bool) :
    c.submitTx t cell force = c ∨
      (∃ tx : Transaction, cell.tx.state = .opened ∧ tx.state.isClosed = true ∧
        c.submitTx t cell force = { c with txs := c.txs.set t { cell with tx := tx } }) ∨
      cell.tx.state = .opened ∧ c.submitTx t cell force =
        { c with
          txs := c.txs.set t { cell with tx := { cell.tx with state := .submitted } }
          pushes := c.pushes ++ [{ command := .request (.submit t force) }] } := by
  unfold submitTx
  by_cases hopen : cell.tx.state = .opened
  · rcases Transaction.submit_cases hsettled hopen force true with
      hgone | hpush | ⟨state, r, hclosed, -, hdone⟩
    · exact Or.inl (by rw [hgone])
    · exact Or.inr (Or.inr ⟨hopen, by rw [hpush]⟩)
    · exact Or.inr (Or.inl ⟨_, hopen, hclosed, by rw [hdone]⟩)
  · refine Or.inl ?_
    unfold Transaction.submit
    rw [if_pos hopen]

/-- How `create_tx` ends: it throws, or a transaction is created while there is room. -/
theorem createTx_cases (c : Client) (isolation : Isolation) (readOnly : Bool) :
    c.createTx isolation readOnly = c ∨ c.createTx isolation readOnly = c.purgeUnusedTxs ∨
      ∃ tx : Transaction, tx.state = .opened ∧ c.state ≠ .closed ∧
        c.purgeUnusedTxs.txs.countP (·.registered) < c.maxActiveTxs ∧
        c.createTx isolation readOnly =
          { c.purgeUnusedTxs with txs := c.purgeUnusedTxs.txs ++ [{ tx := tx }] } := by
  unfold createTx
  split
  · exact Or.inl rfl
  · next hopen =>
    dsimp only
    split
    · exact Or.inr (Or.inl rfl)
    · next hroom =>
      split
      · exact Or.inr (Or.inl rfl)
      · next user _ =>
        refine Or.inr (Or.inr ⟨_, rfl, by simpa [isClosed] using hopen, ?_, rfl⟩)
        exact not_le.mp hroom

/-- A new transaction is registered within the limit. -/
theorem armed_createTx (hqueued : c.Queued) (h : c.Armed) (isolation : Isolation)
    (readOnly : Bool) : (c.createTx isolation readOnly).Armed := by
  have hpurged := h.relieved ((spares_purgeUnusedTxs c).relieves hqueued)
  rcases createTx_cases c isolation readOnly with hsame | hpurge | ⟨tx, hopen, -, hroom, hcreate⟩
  · rw [hsame]
    exact h
  · rw [hpurge]
    exact hpurged
  rw [hcreate]
  refine ⟨fun t ht => ?_, fun t cell hcell hheld hnot => ?_, ?_⟩
  · obtain ⟨cell, hcell, hstate, hregistered⟩ := hpurged.submitted t ht
    refine ⟨cell, ?_, hstate, hregistered⟩
    exact List.getElem?_append_left (List.getElem?_eq_some_iff.mp hcell).1 |>.trans hcell
  · by_cases hold : t < c.purgeUnusedTxs.txs.length
    · exact hpurged.enlisted t cell ((List.getElem?_append_left hold).symm.trans hcell) hheld hnot
    · have hlast := (List.getElem?_append_right (not_lt.mp hold)).symm.trans hcell
      obtain rfl := List.mem_singleton.mp (List.mem_of_getElem? hlast)
      exact Or.inl rfl
  · change (c.purgeUnusedTxs.txs ++ [({ tx := tx } : TxCell)]).countP (·.registered) ≤ c.maxActiveTxs
    rw [List.countP_append, List.countP_singleton]
    simp only [if_true]
    omega

/-- A submitted transaction stays registered while its command waits. -/
theorem armed_submitTx (hqueued : c.Queued) (h : c.Armed) {t : ℕ} {cell : TxCell}
    (hcell : c.txs[t]? = some cell) (hheld : cell.held = true) (force : Bool) :
    (c.submitTx t cell force).Armed := by
  have hsettled := hqueued.settled cell (List.mem_of_getElem? hcell)
  have hidle : cell.tx.state = .opened → c.unsent t = 0 := by
    intro hopen
    by_contra hne
    obtain ⟨cell', hcell', hstate, -⟩ := h.submitted t hne
    obtain rfl := Option.some.inj (hcell.symm.trans hcell')
    rw [hopen] at hstate
    cases hstate
  have hset : ∀ cell' : TxCell, (c.txs.set t cell')[t]? = some cell' := fun cell' =>
    List.getElem?_set_self (List.getElem?_eq_some_iff.mp hcell).1
  have hother : ∀ (cell' : TxCell) {u : ℕ}, t ≠ u → (c.txs.set t cell')[u]? = c.txs[u]? :=
    fun cell' u hu => List.getElem?_set_ne hu
  rcases submitTx_cases hsettled force with hsame | ⟨tx, hopen, hclosed, hdone⟩ | ⟨hopen, hpush⟩
  · rw [hsame]
    exact h
  · rw [hdone]
    refine ⟨fun u hu => ?_, fun u cell' hcell' hheld' hopen' => ?_, ?_⟩
    · have hne : t ≠ u := fun heq => hu (heq ▸ hidle hopen)
      obtain ⟨cell', hcell', hstate⟩ := h.submitted u hu
      exact ⟨cell', (hother _ hne).trans hcell', hstate⟩
    · by_cases hu : t = u
      · subst hu
        obtain rfl := Option.some.inj ((hset _).symm.trans hcell')
        rw [hclosed] at hopen'
        cases hopen'
      · exact h.enlisted u cell' ((hother _ hu).symm.trans hcell') hheld' hopen'
    · refine le_trans (le_of_eq ?_) h.room
      exact countP_registered_set hcell rfl
  · rw [hpush]
    have hregistered := h.enlisted t cell hcell hheld (by simp [hopen, TxState.isClosed])
    refine ⟨fun u hu => ?_, fun u cell' hcell' hheld' hopen' => ?_, ?_⟩
    · by_cases hne : t = u
      · subst hne
        exact ⟨_, hset _, rfl, hregistered⟩
      · have hu' : c.unsent u ≠ 0 := by
          unfold unsent at hu ⊢
          simpa [List.countP_append, Command.submits, RequestKind.submits, hne] using hu
        obtain ⟨cell', hcell', hstate⟩ := h.submitted u hu'
        exact ⟨cell', (hother _ hne).trans hcell', hstate⟩
    · by_cases hu : t = u
      · subst hu
        obtain rfl := Option.some.inj ((hset _).symm.trans hcell')
        exact hregistered
      · exact h.enlisted u cell' ((hother _ hu).symm.trans hcell') hheld' hopen'
    · refine le_trans (le_of_eq ?_) h.room
      exact countP_registered_set hcell rfl

/-- Only the owner submits a transaction. -/
theorem held_of_submit {t : ℕ} {force : Bool} (h : c.stepRaw globMatch (.submit t force) = some c') :
    ∃ cell : TxCell, c.txs[t]? = some cell ∧ cell.held = true ∧ c' = c.submitTx t cell force := by
  simp only [stepRaw] at h
  split at h
  · cases h
  · next cell hcell =>
    split_ifs at h with hheld
    exact ⟨cell, hcell, hheld, (Option.some.inj h).symm⟩

/-- The steps about the queue of the commands, other than the two that submit and create. -/
theorem relieves_effect {e : Event} (hqueued : c.Queued) (hguard : c.sparesUnsent e = true)
    (hended : c.ClosedAfterRun) (hsubmit : ∀ t force, e ≠ .submit t force)
    (hcreate : ∀ isolation readOnly, e ≠ .createTx isolation readOnly)
    (heffect : Effect globMatch c e c') : Relieves c c' := by
  by_cases htraffic : e.traffic = false
  · exact (spares_effect hended htraffic heffect).relieves hqueued
  have hclose : ∀ t, Command.close.submits t = false := fun _ => rfl
  cases heffect with
  | command _ hcommands => exact relieves_command hqueued hcommands
  | createTx => exact absurd rfl (hcreate _ _)
  | submit => exact absurd rfl (hsubmit _ _)
  | @discard t cell =>
    refine relieves_onTx (fun tx _ => Transaction.discard_closed tx) (Or.inl ?_)
    simpa [sparesUnsent] using hguard
  | close => exact relieves_push hclose
  | stop => exact relieves_push hclose
  | pingRefused => exact .of_queues (fun _ => le_rfl) rfl rfl rfl
  | ping => exact relieves_push fun _ => rfl
  | fetchRefused => exact .of_queues (fun _ => le_rfl) rfl rfl rfl
  | fetchSessions => exact relieves_push fun _ => rfl
  | @pushClosed n p => exact (relieves_erasePush c n).trans (relieves_endPush _ p)
  | pushCheck hpush => exact .of_queues (fun t => (unsent_pushCheck hpush t).le) rfl rfl rfl
  | pushLocked hpush => exact relieves_pushLocked hpush
  | _ => exact absurd rfl htraffic

/-- Every step that meets the condition keeps the invariant of the submits. -/
theorem armed_step {e : Event} (hqueued : c.Queued) (hended : c.ClosedAfterRun) (h : c.Armed)
    (hguard : c.sparesUnsent e = true) (hstep : c.step globMatch e = some c') : c'.Armed := by
  have hraw : ∃ c₁, c.stepRaw globMatch e = some c₁ ∧ c' = c₁.reap := by
    unfold step at hstep
    split_ifs at hstep
    obtain ⟨c₁, hraw, rfl⟩ := Option.map_eq_some_iff.mp hstep
    exact ⟨c₁, hraw, rfl⟩
  obtain ⟨c₁, hraw, rfl⟩ := hraw
  have heffect := stepRaw_effect hraw
  have hqueued₁ := queued_effect hqueued heffect
  refine Armed.relieved ?_ ((spares_reap c₁).relieves hqueued₁)
  by_cases hsubmit : ∃ t force, e = .submit t force
  · obtain ⟨t, force, rfl⟩ := hsubmit
    obtain ⟨cell, hcell, hheld, rfl⟩ := held_of_submit hraw
    exact armed_submitTx hqueued h hcell hheld force
  by_cases hcreate : ∃ isolation readOnly, e = .createTx isolation readOnly
  · obtain ⟨isolation, readOnly, rfl⟩ := hcreate
    cases heffect
    exact armed_createTx hqueued h isolation readOnly
  refine h.relieved (relieves_effect hqueued hguard hended (fun t force heq => ?_)
    (fun isolation readOnly heq => ?_) heffect)
  · exact hsubmit ⟨t, force, heq⟩
  · exact hcreate ⟨isolation, readOnly, heq⟩

/-- All that the invariant of the submits rests on. -/
structure Backed (c : Client) : Prop where
  queued : c.Queued
  sound : c.Sound
  ended : c.ClosedAfterRun
  armed : c.Armed

/-- A new client has no command. -/
theorem backed_create (user password : Bytes) (maxActiveTxs rev0 servers : ℕ) (hasReactor : Bool) :
    (create user password maxActiveTxs rev0 servers hasReactor).Backed := by
  refine ⟨queued_create _ _ _ _ _ _, sound_create _ _ _ _ _ _, ?_, ⟨fun t ht => ?_, ?_, ?_⟩⟩
  · rintro (hphase | hphase) <;> cases hphase
  · simp [create, unsent] at ht
  · simp [create]
  · simp [create]

/-- All that the invariant rests on holds after every step. -/
theorem backed_step {e : Event} (h : c.Backed) (hguard : c.sparesUnsent e = true)
    (hstep : c.step globMatch e = some c') : c'.Backed := by
  refine ⟨queued_step h.queued hstep, sound_step h.sound hstep, ?_,
    armed_step h.queued h.ended h.armed hguard hstep⟩
  obtain ⟨-, c₁, heffect, rfl⟩ := step_effect hstep
  have hended : c₁.ClosedAfterRun := closedAfterRun_effect h.sound h.ended heffect
  exact hended

end Steps

end Client

end Nplex
