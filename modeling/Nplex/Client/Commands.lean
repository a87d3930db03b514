import Nplex.Client.Queues

/-!
# The submits that wait to be sent

Between the call of `submit` and the turn of `process_commands` that sends its request, a submit
waits in a running `push_command` and then in the queue of the commands. The handlers that neither
push nor take a command leave the waiting submits and their transactions alone, unless they close
the client.
-/

namespace Nplex

open Nplex.Common

/-- The message is a SUBMIT_REQUEST. -/
def ClientMsg.isSubmit : ClientMsg → Bool
  | .submit _ => true
  | .login _ _ _ | .snapshot _ _ | .updates _ _ | .ping _ _ | .sessions _ _ => false

/-- The actions that leave the waiting submits alone. -/
def ActionKind.spares : ActionKind → Bool
  | .submit | .queue | .take => false
  | _ => true

/-- The actions other than those on the way out of `run`. -/
def ActionKind.keepsPhase : ActionKind → Bool
  | .shut => false
  | _ => true

/-- The steps that are about the queue of the commands: calls that push, the end of a push, and
the turn of `process_commands`; and the discard of a transaction. -/
def Event.traffic : Event → Bool
  | .createTx _ _ | .submit _ _ | .discard _ | .close | .stop | .ping _ | .fetchSessions _
  | .pushCheck _ | .pushLocked _ | .command => true
  | _ => false

namespace Transaction

/-- An exception reopens no closed transaction. -/
theorem setSubmitException_closed (e : TxException) (tx : Transaction)
    (hclosed : tx.state.isClosed = true) : (tx.setSubmitException e).1.state.isClosed = true := by
  unfold setSubmitException
  rw [if_pos (by rintro heq; rw [heq] at hclosed; cases hclosed)]
  exact hclosed

/-- A result leaves a closed transaction closed. -/
theorem setSubmitResult_closed (code : SubmitCode) (tx : Transaction)
    (hclosed : tx.state.isClosed = true) : (tx.setSubmitResult code).1.state.isClosed = true := by
  unfold setSubmitResult
  rw [if_pos (by rintro heq; rw [heq] at hclosed; cases hclosed)]
  exact hclosed

/-- So does its commit. -/
theorem confirmCommit_closed (tx : Transaction) (hclosed : tx.state.isClosed = true) :
    tx.confirmCommit.1.state.isClosed = true := by
  unfold confirmCommit
  rw [if_pos (by rintro heq; rw [heq] at hclosed; cases hclosed)]
  exact hclosed

/-- The methods that handlers call reopen no closed transaction. -/
theorem Closing.closed {f : Transaction → Transaction × Option TxError} (hf : Closing f)
    (tx : Transaction) (hclosed : tx.state.isClosed = true) : (f tx).1.state.isClosed = true := by
  cases hf with
  | setSubmitException e => exact setSubmitException_closed e tx hclosed
  | confirmCommit => exact confirmCommit_closed tx hclosed
  | discard =>
    have hstate : (tx.setState .discarded).state.isClosed = true := by
      simp [Transaction.setState, hclosed]
    unfold Transaction.discard
    dsimp only
    split <;> exact hstate

end Transaction

namespace Client

/-- The number of submits of a transaction that wait to be sent. -/
def unsent (c : Client) (t : ℕ) : ℕ :=
  c.pushes.countP (·.command.submits t) + c.commands.countP (·.submits t)

/-- The SUBMIT_REQUESTs given to the connections. -/
def submitsSent (c : Client) : List (ℕ × ClientMsg) := c.sent.filter (·.2.isSubmit)

/-- The client was closed between the two states, where it may have left CLOSED again. -/
def Closes (c c' : Client) : Prop :=
  c'.state = .closed ∨ c.afterClosed.length < c'.afterClosed.length

/-- The fields that the waiting submits depend on. -/
structure Backlog where
  txs : List TxCell
  pushes : List Push
  commands : List Command
  requests : List Request
  accepted : List Accepted
  submitsSent : List (ℕ × ClientMsg)
  state : ClientState
  afterClosed : List Write
  maxActiveTxs : ℕ

/-- What the waiting submits depend on. -/
def backlog (c : Client) : Backlog :=
  { txs := c.txs
    pushes := c.pushes
    commands := c.commands
    requests := c.requests
    accepted := c.accepted
    submitsSent := c.submitsSent
    state := c.state
    afterClosed := c.afterClosed
    maxActiveTxs := c.maxActiveTxs }

/-- What a handler does that leaves the waiting submits alone: it drops the commands only when it
closes the client, and it closes and drops no transaction but those that await an answer. -/
structure Spares (c c' : Client) : Prop where
  pushes : c'.pushes = c.pushes
  commands : c'.commands = c.commands ∨ c'.commands = [] ∧ Closes c c'
  sent : c'.submitsSent = c.submitsSent
  awaits : ∀ t, c'.awaits t → c.awaits t
  submitted : ∀ (t : ℕ) (cell : TxCell), c.txs[t]? = some cell → cell.tx.state = .submitted →
    ¬c.awaits t → c'.unsent t ≠ 0 → ∃ cell' : TxCell, c'.txs[t]? = some cell' ∧
      cell'.tx.state = .submitted ∧
      (cell.registered = true → cell'.registered = true ∨ Closes c c')
  enlisted : ∀ (t : ℕ) (cell' : TxCell), c'.txs[t]? = some cell' → cell'.held = true →
    cell'.tx.state.isClosed = false → ∃ cell : TxCell, c.txs[t]? = some cell ∧
      cell.held = true ∧ cell.tx.state.isClosed = false ∧
      (cell.registered = true → cell'.registered = true ∨ Closes c c')
  registered : c'.txs.countP (·.registered) ≤ c.txs.countP (·.registered)
  marks : c.afterClosed.length ≤ c'.afterClosed.length
  closed : c.state = .closed → Closes c c'
  limit : c'.maxActiveTxs = c.maxActiveTxs

section Relations

variable {c c' c'' : Client}

/-- What is not sent yet awaits its answer. -/
theorem unsent_le_pending (c : Client) (t : ℕ) : c.unsent t ≤ c.pending t := by
  simp only [unsent, pending, carried, submits_eq_carries]
  omega

/-- Fewer commands, fewer waiting submits. -/
theorem Spares.unsent_le (h : Spares c c') (t : ℕ) : c'.unsent t ≤ c.unsent t := by
  unfold unsent
  rw [h.pushes]
  rcases h.commands with hsame | ⟨hcleared, -⟩
  · rw [hsame]
  · rw [hcleared]
    simp

/-- What was closed before the second handler. -/
theorem Spares.closes_left (h : Spares c c') (h' : Spares c' c'') (hcloses : Closes c c') :
    Closes c c'' := by
  have hmarks := h.marks
  have hmarks' := h'.marks
  rcases hcloses with hclosed | hmarked
  · exact (h'.closed hclosed).imp_right fun hmarked => by omega
  · exact Or.inr (by omega)

/-- What was closed by the second handler. -/
theorem Spares.closes_right (h : Spares c c') (hcloses : Closes c' c'') : Closes c c'' :=
  hcloses.imp_right fun hmarked => by
    have hmarks := h.marks
    omega

/-- Handlers spare the commands one after the other. -/
theorem Spares.trans (h : Spares c c') (h' : Spares c' c'') : Spares c c'' where
  pushes := h'.pushes.trans h.pushes
  commands := by
    rcases h'.commands with hsame | ⟨hcleared, hcloses⟩
    · rw [hsame]
      exact h.commands.imp_right fun hfirst => ⟨hfirst.1, h.closes_left h' hfirst.2⟩
    · exact Or.inr ⟨hcleared, h.closes_right hcloses⟩
  sent := h'.sent.trans h.sent
  awaits t ht := h.awaits t (h'.awaits t ht)
  submitted t cell hcell hstate hawaits hunsent := by
    have hunsent' : c'.unsent t ≠ 0 := by
      have hle := h'.unsent_le t
      omega
    obtain ⟨cell', hcell', hstate', hregistered⟩ := h.submitted t cell hcell hstate hawaits hunsent'
    obtain ⟨cell'', hcell'', hstate'', hregistered'⟩ :=
      h'.submitted t cell' hcell' hstate' (fun ht => hawaits (h.awaits t ht)) hunsent
    refine ⟨cell'', hcell'', hstate'', fun hyes => ?_⟩
    rcases hregistered hyes with hyes' | hcloses
    · exact (hregistered' hyes').imp_right h.closes_right
    · exact Or.inr (h.closes_left h' hcloses)
  enlisted t cell'' hcell'' hheld'' hopen'' := by
    obtain ⟨cell', hcell', hheld', hopen', hregistered'⟩ := h'.enlisted t cell'' hcell'' hheld'' hopen''
    obtain ⟨cell, hcell, hheld, hopen, hregistered⟩ := h.enlisted t cell' hcell' hheld' hopen'
    refine ⟨cell, hcell, hheld, hopen, fun hyes => ?_⟩
    rcases hregistered hyes with hyes' | hcloses
    · exact (hregistered' hyes').imp_right h.closes_right
    · exact Or.inr (h.closes_left h' hcloses)
  registered := h'.registered.trans h.registered
  marks := h.marks.trans h'.marks
  closed hclosed := h.closes_left h' (h.closed hclosed)
  limit := h'.limit.trans h.limit

/-- Whatever is dropped from the queues of the requests and the accepted submits. -/
theorem Spares.of_dropped (hrequests : c'.requests.Sublist c.requests)
    (haccepted : c'.accepted.Sublist c.accepted)
    (h : { c'.backlog with requests := c.requests, accepted := c.accepted } = c.backlog) :
    Spares c c' := by
  have htxs : c'.txs = c.txs := congrArg Backlog.txs h
  refine ⟨congrArg Backlog.pushes h, Or.inl (congrArg Backlog.commands h),
    congrArg Backlog.submitsSent h, fun t ht => ?_, fun t cell hcell hstate _ _ => ?_,
    fun t cell hcell hheld hopen => ?_, ?_, ?_,
    fun hclosed => Or.inl ((congrArg Backlog.state h).trans hclosed), congrArg Backlog.maxActiveTxs h⟩
  · rcases ht with ⟨r, hr, hsubmits⟩ | ⟨a, ha, hat⟩
    · exact Or.inl ⟨r, hrequests.subset hr, hsubmits⟩
    · exact Or.inr ⟨a, haccepted.subset ha, hat⟩
  · exact ⟨cell, htxs ▸ hcell, hstate, Or.inl⟩
  · exact ⟨cell, htxs ▸ hcell, hheld, hopen, Or.inl⟩
  · rw [htxs]
  · exact (congrArg (fun w : Backlog => w.afterClosed.length) h).ge

/-- A handler that leaves the backlog as it is. -/
theorem Spares.of_backlog (h : c'.backlog = c.backlog) : Spares c c' := by
  have hrequests : c'.requests = c.requests := congrArg Backlog.requests h
  have haccepted : c'.accepted = c.accepted := congrArg Backlog.accepted h
  refine .of_dropped (hrequests ▸ .refl _) (haccepted ▸ .refl _) ?_
  rw [← hrequests, ← haccepted]
  exact h

/-- Doing nothing spares the commands. -/
theorem Spares.refl (c : Client) : Spares c c := .of_backlog rfl

/-- Going on spares the commands if what follows does. -/
theorem Spares.andThen {f : Client → Client} (h : Spares c (f c)) : Spares c (c.andThen f) := by
  unfold Client.andThen
  split
  · exact .refl c
  · exact h

/-- A change of one transaction that keeps its registration. -/
theorem countP_registered_set {txs : List TxCell} {t : ℕ} {cell cell' : TxCell}
    (hcell : txs[t]? = some cell) (hsame : cell'.registered = cell.registered) :
    (txs.set t cell').countP (·.registered) = txs.countP (·.registered) := by
  obtain ⟨hlength, hget⟩ := List.getElem?_eq_some_iff.mp hcell
  have hmap : (txs.set t cell').map (·.registered) = txs.map (·.registered) := by
    have hmapped : t < (txs.map (·.registered)).length := by simpa using hlength
    have hflag : cell'.registered = (txs.map (·.registered))[t] := by simp [hget, hsame]
    rw [List.map_set, hflag, List.set_getElem_self]
  have hcount := congrArg (List.countP id) hmap
  rw [List.countP_map, List.countP_map] at hcount
  exact hcount

/-- The call of a method of a transaction leaves alone what is not about the transaction. -/
theorem onTx_backlog (c : Client) (t : ℕ) (f : Transaction → Transaction × Option TxError) :
    (c.onTx t f).backlog = { c.backlog with txs := (c.onTx t f).txs } :=
  (congrArg Client.backlog (onTx_fields c t f)).trans rfl

/-- The call of a method changes its transaction at most. -/
theorem onTx_txs (c : Client) (t : ℕ) (f : Transaction → Transaction × Option TxError) :
    (c.onTx t f).txs = c.txs ∨ ∃ cell : TxCell, c.txs[t]? = some cell ∧
      (c.onTx t f).txs = c.txs.set t { cell with tx := (f cell.tx).1 } := by
  unfold onTx
  split
  · exact Or.inl rfl
  · next cell hcell =>
    refine Or.inr ⟨cell, hcell, ?_⟩
    dsimp only
    split <;> rfl

/-- A transaction that awaits an answer may be closed, as its request is dropped. -/
theorem Spares.onTx {c₁ : Client} (h : Spares c c₁) {t : ℕ} (hawaits : c.awaits t)
    {f : Transaction → Transaction × Option TxError}
    (hf : ∀ tx : Transaction, tx.state.isClosed = true → (f tx).1.state.isClosed = true) :
    Spares c (c₁.onTx t f) := by
  have hbacklog := onTx_backlog c₁ t f
  have hpushes : (c₁.onTx t f).pushes = c₁.pushes := congrArg Backlog.pushes hbacklog
  have hcommands : (c₁.onTx t f).commands = c₁.commands := congrArg Backlog.commands hbacklog
  have hstate : (c₁.onTx t f).state = c₁.state := congrArg Backlog.state hbacklog
  have hmarks : (c₁.onTx t f).afterClosed = c₁.afterClosed := congrArg Backlog.afterClosed hbacklog
  have hcloses : ∀ {c : Client}, Closes c c₁ → Closes c (c₁.onTx t f) := fun hcloses => by
    unfold Closes
    rwa [hstate, hmarks]
  have hsame := onTx_txs c₁ t f
  refine ⟨hpushes.trans h.pushes, ?_, (congrArg Backlog.submitsSent hbacklog).trans h.sent,
    fun u hu => h.awaits u ?_, fun u cell hcell hsubmitted hnot hunsent => ?_,
    fun u cell' hcell' hheld hopen => ?_, ?_, ?_, fun hclosed => hcloses (h.closed hclosed),
    (congrArg Backlog.maxActiveTxs hbacklog).trans h.limit⟩
  · rw [hcommands]
    exact h.commands.imp_right fun hcleared => ⟨hcleared.1, hcloses hcleared.2⟩
  · have hrequests : (c₁.onTx t f).requests = c₁.requests := congrArg Backlog.requests hbacklog
    have haccepted : (c₁.onTx t f).accepted = c₁.accepted := congrArg Backlog.accepted hbacklog
    unfold Client.awaits at hu ⊢
    rwa [hrequests, haccepted] at hu
  · have hne : t ≠ u := fun heq => hnot (heq ▸ hawaits)
    have hcell₁ : (c₁.onTx t f).txs[u]? = c₁.txs[u]? := by
      rcases hsame with hsame | ⟨cell₁, -, hset⟩
      · rw [hsame]
      · rw [hset, List.getElem?_set_ne hne]
    have hunsent₁ : c₁.unsent u ≠ 0 := by
      unfold unsent at hunsent ⊢
      rwa [hpushes, hcommands] at hunsent
    obtain ⟨cell', hcell', hstate', hregistered⟩ := h.submitted u cell hcell hsubmitted hnot hunsent₁
    exact ⟨cell', hcell₁.trans hcell', hstate', fun hyes => (hregistered hyes).imp_right hcloses⟩
  · have hback : ∃ cell₁ : TxCell, c₁.txs[u]? = some cell₁ ∧ cell₁.held = true ∧
        cell₁.tx.state.isClosed = false ∧ cell'.registered = cell₁.registered := by
      rcases hsame with hsame | ⟨cell₁, hcell₁, hset⟩
      · exact ⟨cell', hsame ▸ hcell', hheld, hopen, rfl⟩
      · rw [hset] at hcell'
        by_cases hu : t = u
        · subst hu
          rw [List.getElem?_set_self (List.getElem?_eq_some_iff.mp hcell₁).1] at hcell'
          obtain rfl := Option.some.inj hcell'
          refine ⟨cell₁, hcell₁, hheld, ?_, rfl⟩
          by_contra hclosed
          rw [hf _ (by simpa using hclosed)] at hopen
          cases hopen
        · rw [List.getElem?_set_ne hu] at hcell'
          exact ⟨cell', hcell', hheld, hopen, rfl⟩
    obtain ⟨cell₁, hcell₁, hheld₁, hopen₁, hflag⟩ := hback
    obtain ⟨cell, hcell, hheld₀, hopen₀, hregistered⟩ := h.enlisted u cell₁ hcell₁ hheld₁ hopen₁
    refine ⟨cell, hcell, hheld₀, hopen₀, fun hyes => ?_⟩
    exact (hregistered hyes).imp (hflag.trans ·) hcloses
  · refine le_trans (le_of_eq ?_) h.registered
    rcases hsame with hsame | ⟨cell₁, hcell₁, hset⟩
    · rw [hsame]
    · rw [hset]
      exact countP_registered_set hcell₁ rfl
  · rw [hmarks]
    exact h.marks

end Relations

section Actions

variable {c c' : Client}

/-- A message other than a submit is not about the backlog. -/
theorem sendOn_backlog (c : Client) (i : ℕ) {msg : ClientMsg} (hmsg : msg.isSubmit = false) :
    (c.sendOn i msg).backlog = c.backlog := by
  unfold sendOn
  split
  · rfl
  · split
    · rfl
    · simp [backlog, submitsSent, hmsg]

/-- Nor is it on the connection of the session. -/
theorem send_backlog (c : Client) {msg : ClientMsg} (hmsg : msg.isSubmit = false) :
    (c.send msg).backlog = c.backlog := by
  unfold send
  split
  · rfl
  · split
    · rfl
    · exact sendOn_backlog c _ hmsg

/-- A call of the reactor is not about the backlog. -/
theorem call_backlog (c : Client) (r : ReactorCall) : (c.call r).backlog = c.backlog :=
  (congrArg Client.backlog (call_fields c r)).trans rfl

/-- A recorded write is one of a closed client. -/
theorem spares_write (c : Client) (w : Write) : Spares c (c.write w) := by
  unfold write
  split
  · next hclosed =>
    exact ⟨rfl, Or.inl rfl, rfl, fun _ ht => ht, fun t cell hcell hstate _ _ =>
        ⟨cell, hcell, hstate, Or.inl⟩, fun t cell hcell hheld hopen =>
        ⟨cell, hcell, hheld, hopen, Or.inl⟩, le_rfl, by simp,
      fun _ => Or.inl (isClosed_eq_true.mp hclosed), rfl⟩
  · exact .refl c

/-- Setting a state drops the commands of a client that becomes CLOSED only. -/
theorem spares_setState (c : Client) (s : ClientState) : Spares c (c.setState s) := by
  unfold setState
  by_cases hsame : c.state = s
  · rw [if_pos hsame]
    exact .refl c
  rw [if_neg hsame]
  dsimp only
  by_cases hs : s = .closed
  · rw [if_pos hs, write_of_open (hs ▸ hsame)]
    refine ⟨rfl, Or.inr ⟨rfl, Or.inl hs⟩, rfl, fun t ht => ?_, fun t cell hcell hstate _ _ => ?_,
      fun t cell' hcell' hheld hopen => ?_, ?_, le_rfl, fun _ => Or.inl hs, rfl⟩
    · simp [awaits] at ht
    · refine ⟨{ cell with registered := false }, ?_, hstate, fun _ => Or.inr (Or.inl hs)⟩
      rw [List.getElem?_map, hcell]
      rfl
    · rw [List.getElem?_map] at hcell'
      obtain ⟨cell, hcell, rfl⟩ := Option.map_eq_some_iff.mp hcell'
      exact ⟨cell, hcell, hheld, hopen, fun _ => Or.inr (Or.inl hs)⟩
    · simp [List.countP_map, Function.comp_def]
  · rw [if_neg hs]
    have hledger : (c.write (.state s)).ledger = c.ledger :=
      (congrArg ledger (write_fields c (.state s))).trans rfl
    have hmarks : c.state = .closed →
        c.afterClosed.length < (c.write (.state s)).afterClosed.length := fun hclosed => by
      simp [write, isClosed, hclosed]
    have hwrite := spares_write c (.state s)
    refine ⟨hwrite.pushes, Or.inl (congrArg Ledger.commands hledger), hwrite.sent, hwrite.awaits,
      fun t cell hcell hstate _ _ => ⟨cell, ?_, hstate, Or.inl⟩,
      fun t cell hcell hheld hopen => ⟨cell, ?_, hheld, hopen, Or.inl⟩, hwrite.registered,
      hwrite.marks, fun hclosed => Or.inr (hmarks hclosed), hwrite.limit⟩
    · exact (congrArg (fun l : Ledger => l.txs[t]?) hledger).trans hcell
    · exact (congrArg (fun l : Ledger => l.txs[t]?) hledger).symm.trans hcell

/-- The commands that were left are dropped once the client is closed. -/
theorem spares_clear (hclosed : c.state = .closed) :
    Spares c { c with commands := [], stopping := true } :=
  ⟨rfl, Or.inr ⟨rfl, Or.inl hclosed⟩, rfl, fun _ ht => ht,
    fun _ cell hcell hstate _ _ => ⟨cell, hcell, hstate, Or.inl⟩,
    fun _ cell hcell hheld hopen => ⟨cell, hcell, hheld, hopen, Or.inl⟩, le_rfl, le_rfl,
    fun _ => Or.inl hclosed, rfl⟩

/-- Aborting drops the commands as the client becomes CLOSED. -/
theorem spares_abort (c : Client) : Spares c c.abort := by
  unfold abort
  split
  · exact .refl c
  · dsimp only
    refine Spares.trans ?_ ((spares_setState _ .closed).trans (spares_clear ?_))
    · exact .of_backlog rfl
    · exact congrArg Link.state (setState_closed_link _)

/-- Trying to connect spares the commands. -/
theorem spares_tryToConnect (c : Client) (refused : Option ℕ) :
    Spares c (c.tryToConnect refused) := by
  unfold tryToConnect
  split
  · exact .refl c
  · have hfirst : Spares c { c with con := none, timerReconnect := false } := .of_backlog rfl
    refine hfirst.trans ((spares_setState _ .connecting).trans ?_)
    dsimp only
    split <;> exact .of_backlog rfl

/-- Starting the reconnection timer spares them. -/
theorem spares_scheduleReconnect (c : Client) : Spares c c.scheduleReconnect := by
  unfold scheduleReconnect
  split
  · exact .refl c
  · exact (spares_write c .timer).trans (.of_backlog rfl)

/-- A ping or sessions request is sent. -/
theorem spares_sendRequest (c : Client) {kind : RequestKind} {msg : ℕ → ClientMsg}
    (hmsg : ∀ cid, (msg cid).isSubmit = false) (hkind : ∀ t, kind.submits t = false) :
    Spares c (c.sendRequest kind msg) := by
  have hcorrelation : Spares c { c with correlation := c.correlation + 1 } := .of_backlog rfl
  refine hcorrelation.trans ((Spares.of_backlog (send_backlog _ (hmsg _))).trans (.andThen ?_))
  refine ⟨rfl, Or.inl rfl, rfl, fun t ht => ?_, fun t cell hcell hstate _ _ => ?_,
    fun t cell hcell hheld hopen => ⟨cell, hcell, hheld, hopen, Or.inl⟩, le_rfl, le_rfl,
    fun hclosed => Or.inl hclosed, rfl⟩
  · rcases ht with ⟨r, hr, hsubmits⟩ | haccepted
    · rcases List.mem_append.mp hr with hr | hlast
      · exact Or.inl ⟨r, hr, hsubmits⟩
      · obtain rfl := List.mem_singleton.mp hlast
        rw [hkind t] at hsubmits
        cases hsubmits
    · exact Or.inr haccepted
  · exact ⟨cell, hcell, hstate, Or.inl⟩

/-- So does starting the other timer. -/
theorem spares_startTimerConLost (c : Client) (keepalive : ℕ) :
    Spares c (c.startTimerConLost keepalive) := by
  unfold startTimerConLost
  split
  · exact (spares_write c .timer).trans (.of_backlog rfl)
  · exact .refl c

/-- So does taking a connection for the session. -/
theorem spares_acceptLogin (c : Client) (i : ℕ) (resp : LoginResponse) :
    Spares c (c.acceptLogin i resp) := by
  unfold acceptLogin
  refine (spares_write c (.con i)).trans (Spares.trans ?_ (spares_setState _ .authenticated))
  exact .of_backlog rfl

/-- An accepted submit awaits its commit. -/
theorem Spares.accept {c₁ : Client} (h : Spares c c₁) {a : Accepted} (hawaits : c.awaits a.tx) :
    Spares c { c₁ with accepted := c₁.accepted ++ [a] } := by
  refine ⟨h.pushes, h.commands, h.sent, fun t ht => ?_, h.submitted, h.enlisted, h.registered,
    h.marks, h.closed, h.limit⟩
  rcases ht with hrequest | ⟨b, hb, hbt⟩
  · exact h.awaits t (Or.inl hrequest)
  · rcases List.mem_append.mp hb with hb | hlast
    · exact h.awaits t (Or.inr ⟨b, hb, hbt⟩)
    · obtain rfl := List.mem_singleton.mp hlast
      exact hbt ▸ hawaits

/-- The response to a submit is for the front of the requests. -/
theorem spares_answerSubmit {r : Request} {rest : List Request} {t : ℕ}
    (hrest : (r :: rest).Sublist c.requests) (hsubmits : r.kind.submits t = true)
    (resp : SubmitResponse) : Spares c (answerSubmit { c with requests := rest } t resp) := by
  have hpop : Spares c { c with requests := rest } :=
    .of_dropped ((List.sublist_cons_self r rest).trans hrest) (.refl _) rfl
  have hawaits : c.awaits t := Or.inl ⟨r, hrest.subset (by simp), hsubmits⟩
  have hset := hpop.onTx hawaits (Transaction.setSubmitResult_closed resp.code)
  unfold answerSubmit andThen
  split
  · exact hset
  · split
    · exact hset.accept hawaits
    · exact hset

end Actions

section Transactions

variable {c c' : Client}

/-- Counting what a change of the elements leaves. -/
theorem countP_mapIdx_le {A : Type} {p : A → Bool} (l : List A) {f : ℕ → A → A}
    (hf : ∀ i a, p (f i a) = true → p a = true) : (l.mapIdx f).countP p ≤ l.countP p := by
  induction l generalizing f with
  | nil => simp
  | cons a rest ih =>
    have hrest := ih (f := fun i => f (i + 1)) fun i => hf (i + 1)
    rw [List.mapIdx_cons, List.countP_cons, List.countP_cons]
    have hhead := hf 0 a
    split_ifs with hleft hright
    · omega
    · exact absurd (hhead hleft) hright
    · omega
    · omega

/-- A transaction whose submit waits is used. -/
theorem isUsed_of_unsent {t : ℕ} (hunsent : c.unsent t ≠ 0) (cell : TxCell) :
    c.isUsed t cell = true := by
  have hpending : c.pending t ≠ 0 := by
    have hle := unsent_le_pending c t
    omega
  simp [isUsed, refersTo_iff.mpr (Or.inl hpending)]

/-- A change of the transactions one by one that spares the submitted ones. -/
theorem Spares.of_txs {f : ℕ → TxCell → TxCell} (htxs : c'.txs = c.txs.mapIdx f)
    (h : { c'.backlog with txs := c.txs } = c.backlog)
    (hsubmitted : ∀ (t : ℕ) (cell : TxCell), cell.tx.state = .submitted → c.unsent t ≠ 0 →
      (f t cell).tx.state = .submitted ∧ (cell.registered = true → (f t cell).registered = true))
    (henlisted : ∀ (t : ℕ) (cell : TxCell), (f t cell).held = true →
      (f t cell).tx.state.isClosed = false → cell.held = true ∧ cell.tx.state.isClosed = false ∧
      (cell.registered = true → (f t cell).registered = true))
    (hregistered : ∀ (t : ℕ) (cell : TxCell), (f t cell).registered = true → cell.registered = true) :
    Spares c c' := by
  have hpushes : c'.pushes = c.pushes := congrArg Backlog.pushes h
  have hcommands : c'.commands = c.commands := congrArg Backlog.commands h
  have hrequests : c'.requests = c.requests := congrArg Backlog.requests h
  have haccepted : c'.accepted = c.accepted := congrArg Backlog.accepted h
  refine ⟨hpushes, Or.inl hcommands, congrArg Backlog.submitsSent h, fun t ht => ?_,
    fun t cell hcell hstate _ hunsent => ?_, fun t cell' hcell' hheld hopen => ?_, ?_, ?_,
    fun hclosed => Or.inl ((congrArg Backlog.state h).trans hclosed), congrArg Backlog.maxActiveTxs h⟩
  · unfold Client.awaits at ht ⊢
    rwa [hrequests, haccepted] at ht
  · have hunsent' : c.unsent t ≠ 0 := by
      unfold unsent at hunsent ⊢
      rwa [hpushes, hcommands] at hunsent
    obtain ⟨hstate', hkept⟩ := hsubmitted t cell hstate hunsent'
    refine ⟨f t cell, ?_, hstate', fun hyes => Or.inl (hkept hyes)⟩
    rw [htxs, List.getElem?_mapIdx, hcell]
    rfl
  · rw [htxs, List.getElem?_mapIdx] at hcell'
    obtain ⟨cell, hcell, rfl⟩ := Option.map_eq_some_iff.mp hcell'
    obtain ⟨hheld', hopen', hkept⟩ := henlisted t cell hheld hopen
    exact ⟨cell, hcell, hheld', hopen', fun hyes => Or.inl (hkept hyes)⟩
  · rw [htxs]
    exact countP_mapIdx_le _ hregistered
  · exact (congrArg (fun w : Backlog => w.afterClosed.length) h).ge

/-- Purging drops transactions that no command refers to. -/
theorem spares_purgeUnusedTxs (c : Client) : Spares c c.purgeUnusedTxs := by
  refine .of_txs rfl rfl (fun t cell hstate hunsent => ⟨hstate, fun hyes => ?_⟩)
    (fun t cell hheld hopen => ⟨hheld, hopen, fun hyes => ?_⟩) fun t cell hyes => ?_
  · simp [hyes, isUsed_of_unsent hunsent cell, hstate, TxState.isClosed]
  · have hheld' : cell.held = true := hheld
    simp [hyes, isUsed, hheld', show cell.tx.state.isClosed = false from hopen]
  · simp only [Bool.and_eq_true] at hyes
    exact hyes.1.1

/-- The delivery changes open transactions, which no command refers to. -/
theorem spares_deliver (globMatch : Glob) (changes : List Change) (c : Client) :
    Spares c (deliver globMatch changes c) := by
  have hupdate : Spares c
      { c with
        txs := c.txs.mapIdx fun t cell =>
          if cell.registered && c.isUsed t cell then
            { cell with tx := cell.tx.update globMatch changes }
          else cell } := by
    refine .of_txs rfl rfl (fun t cell hstate _ => ?_) (fun t cell hheld hopen => ?_)
      fun t cell hyes => ?_
    · split
      · exact ⟨by simp [Transaction.update, hstate], id⟩
      · exact ⟨hstate, id⟩
    · split at hheld
      · next hused =>
        rw [if_pos hused] at hopen ⊢
        have hstate := congrArg Transaction.state (Transaction.update_sameFrame globMatch cell.tx changes)
        exact ⟨hheld, (congrArg TxState.isClosed hstate).symm.trans hopen, id⟩
      · next hunused =>
        rw [if_neg hunused] at hopen ⊢
        exact ⟨hheld, hopen, id⟩
    · split at hyes <;> exact hyes
  unfold deliver
  dsimp only
  split
  · exact hupdate.trans (spares_purgeUnusedTxs _)
  · exact hupdate

/-- The actions that neither push nor take a command leave the waiting submits alone. -/
theorem Action.spares {k : ActionKind} (h : Action k c c') (hk : k.spares = true) :
    Spares c c' := by
  cases h with
  | aside h =>
    have hbacklog : c'.central.backlog = c.central.backlog := congrArg Client.backlog h.central
    exact .of_backlog hbacklog
  | drop _ hrequests haccepted => exact .of_dropped hrequests haccepted rfl
  | @settle _ requests accepted hrequests haccepted t hawaits f hf =>
    have hdrop : Spares c { c with requests := requests, accepted := accepted } :=
      .of_dropped hrequests haccepted rfl
    exact hdrop.onTx hawaits hf.closed
  | deliver => exact spares_deliver _ _ _
  | request _ _ hrequest =>
    cases hrequest with
    | submit => cases hk
    | ping => exact spares_sendRequest c (fun _ => rfl) fun _ => rfl
    | sessions => exact spares_sendRequest c (fun _ => rfl) fun _ => rfl
  | refuse => cases hk
  | answer _ hrest hsubmits => exact spares_answerSubmit hrest hsubmits _
  | login => exact .of_backlog (sendOn_backlog _ _ rfl)
  | tell => exact .of_backlog (call_backlog _ _)
  | setState => exact spares_setState _ _
  | revive => exact spares_setState _ _
  | startTimer => exact spares_startTimerConLost _ _
  | fetch _ hmsg => cases hmsg <;> exact .of_backlog (send_backlog _ rfl)
  | join => exact spares_acceptLogin _ _ _
  | close => exact spares_abort _
  | leave => exact (spares_setState _ .offline).trans (.of_backlog rfl)
  | connect => exact spares_tryToConnect _ _
  | reconnect => exact spares_scheduleReconnect _
  | shut =>
    have hbegin : Spares c { c with phase := .unwinding, activity := .idle } := .of_backlog rfl
    exact hbegin.trans (spares_setState _ .closed)
  | queue => cases hk
  | takeFuture => cases hk
  | _ => exact .of_backlog rfl

/-- What the actions of a handler spare, the handler spares. -/
theorem Acts.spares {kinds : List ActionKind} (h : Acts kinds c c')
    (hkinds : kinds.all ActionKind.spares = true) : Spares c c' :=
  h.frame hkinds .refl .trans Action.spares

/-- A transaction without references is not that of a waiting submit. -/
theorem spares_reap (c : Client) : Spares c c.reap := by
  refine .of_txs rfl rfl (fun t cell hstate hunsent => ?_) (fun t cell hheld hopen => ?_)
    fun t cell hyes => ?_
  · rw [if_pos (by simp [isUsed_of_unsent hunsent cell])]
    exact ⟨hstate, id⟩
  · have hheld' : cell.held = true := by split at hheld <;> exact hheld
    rw [if_pos (by simp [isUsed, hheld'])] at hopen ⊢
    exact ⟨hheld', hopen, id⟩
  · split at hyes <;> exact hyes

/-- One transaction is replaced by one in the same state. -/
theorem spares_set {t : ℕ} {cell cell' : TxCell} (hcell : c.txs[t]? = some cell)
    (hstate : cell'.tx.state = cell.tx.state) (hheld : cell'.held = true → cell.held = true)
    (hregistered : cell'.registered = cell.registered) :
    Spares c { c with txs := c.txs.set t cell' } := by
  have hself : (c.txs.set t cell')[t]? = some cell' :=
    List.getElem?_set_self (List.getElem?_eq_some_iff.mp hcell).1
  refine ⟨rfl, Or.inl rfl, rfl, fun _ ht => ht, fun u cell₁ hcell₁ hsubmitted _ _ => ?_,
    fun u cell₁ hcell₁ hheld₁ hopen₁ => ?_, (countP_registered_set hcell hregistered).le, le_rfl,
    fun hclosed => Or.inl hclosed, rfl⟩
  · by_cases hu : t = u
    · subst hu
      obtain rfl := Option.some.inj (hcell.symm.trans hcell₁)
      exact ⟨cell', hself, hstate.trans hsubmitted, fun hyes => Or.inl (hregistered.trans hyes)⟩
    · exact ⟨cell₁, (List.getElem?_set_ne hu).trans hcell₁, hsubmitted, Or.inl⟩
  · by_cases hu : t = u
    · subst hu
      obtain rfl := Option.some.inj (hself.symm.trans hcell₁)
      exact ⟨cell, hcell, hheld hheld₁, hstate ▸ hopen₁, fun hyes => Or.inl (hregistered.trans hyes)⟩
    · exact ⟨cell₁, (List.getElem?_set_ne hu).symm.trans hcell₁, hheld₁, hopen₁, Or.inl⟩

/-- The end of `run` drops the commands of a closed client. -/
theorem spares_finishRun (hclosed : c.state = .closed) : Spares c c.finishRun := by
  have hcloses : Closes c c.finishRun := Or.inl hclosed
  refine ⟨rfl, Or.inr ⟨rfl, hcloses⟩, rfl, fun t ht => ?_, fun t cell hcell hstate _ _ => ?_,
    fun t cell' hcell' hheld hopen => ?_, ?_, le_rfl, fun _ => hcloses, rfl⟩
  · simp [awaits, finishRun] at ht
  · refine ⟨{ cell with registered := false }, ?_, hstate, fun _ => Or.inr hcloses⟩
    simp [finishRun, hcell]
  · unfold finishRun at hcell'
    rw [List.getElem?_map] at hcell'
    obtain ⟨cell, hcell, rfl⟩ := Option.map_eq_some_iff.mp hcell'
    exact ⟨cell, hcell, hheld, hopen, fun _ => Or.inr hcloses⟩
  · simp [finishRun, List.countP_map, Function.comp_def]

end Transactions

section Runs

variable {globMatch : Glob} {c c' : Client}

/-- A client whose `run` is on its way out, or over, is CLOSED. -/
def ClosedAfterRun (c : Client) : Prop :=
  c.phase = .unwinding ∨ c.phase = .finished → c.state = .closed

/-- Trying to connect leaves `run` where it is. -/
theorem tryToConnect_phase (c : Client) (refused : Option ℕ) :
    (c.tryToConnect refused).phase = c.phase :=
  (congrArg Client.phase (tryToConnect_fields c refused)).trans rfl

/-- Handlers leave alone where `run` is, but for the one on its way out. -/
theorem Action.phase {k : ActionKind} (h : Action k c c') (hk : k.keepsPhase = true) :
    c'.phase = c.phase := by
  by_cases hstays : k.stays = true
  · exact (h.stays hstays).phase
  cases h with
  | login => exact phase_of_link (sendOn_link _ _ _)
  | join => exact (acceptLogin_spec _ _ _).2.2.1
  | leave hopen => exact congrArg Link.phase (setState_link (c := c) (s := .offline) (by simp))
  | connect => exact tryToConnect_phase c _
  | reconnect =>
    rw [scheduleReconnect_fields]
  | shut => cases hk
  | request _ _ hrequest => cases hrequest <;> exact absurd rfl hstays
  | _ => exact absurd rfl hstays

/-- Handlers leave alone where `run` is. -/
theorem Acts.phase {kinds : List ActionKind} (h : Acts kinds c c')
    (hkinds : kinds.all ActionKind.keepsPhase = true) : c'.phase = c.phase :=
  h.frame (R := fun c c' => c'.phase = c.phase) hkinds (fun _ => rfl) (fun h h' => h'.trans h)
    Action.phase

/-- The end of `run` begins by closing the client. -/
theorem unwindRun_state (c : Client) : c.unwindRun.state = .closed := by
  have hlink := setState_closed_link { c with phase := .unwinding, activity := .idle }
  unfold unwindRun
  dsimp only
  generalize setState { c with phase := .unwinding, activity := .idle } .closed = c₁ at hlink
  have hcancel := (acts_cancelRequests c₁).link rfl
  have hend := andThen_same c₁.cancelRequests link (f := (·.disconnectAll .closedByLocal))
    (disconnectAll_link _ _)
  exact (state_of_link (hend.trans hcancel) :).trans (congrArg Link.state hlink)

/-- What a step makes of the life of the client: the callbacks leave `run` running, the user's calls
do not concern the link, and `run` starts, unwinds and finishes. -/
inductive Lives (c c' : Client) : Prop
  | running (hphase : c'.phase = .running)
  | linked (hlink : c'.link = c.link)
  | unwound (hc' : c' = c.unwindRun)
  | finished (hphase : c.phase = .unwinding) (hc' : c' = c.finishRun)

/-- Every step makes one of these changes of the life of the client. -/
theorem lives_effect {e : Event} (hsound : c.Sound) (heffect : Effect globMatch c e c') :
    Lives c c' := by
  have hbusy : ∀ {a : Activity} {c₁ : Client}, c.activity = a → a ≠ .idle → c₁.phase = c.phase →
      Lives c c₁ :=
    fun ha hne hsame => .running (hsame.trans (hsound.busy (ha.trans_ne hne)))
  cases heffect with
  | start => exact .running (tryToConnect_phase _ _)
  | connected hphase =>
    exact .running (((acts_onConnectionEstablished _ _).phase rfl).trans hphase)
  | failed => exact .linked (disconnect_link c _ _)
  | closed hphase => exact .running (((acts_onConnectionClosed _ _ _ _ _).phase rfl).trans hphase)
  | read => exact .linked rfl
  | message hreading => exact hbusy hreading (by simp) ((acts_onMsgReceived c _ _ _).phase rfl)
  | malformed hreading => exact hbusy hreading (by simp) rfl
  | readEnd => exact .linked rfl
  | update hpushing => exact hbusy hpushing (by simp) ((acts_pushUpdate globMatch _ _ _).phase rfl)
  | updatesEnd => exact .linked rfl
  | timerConLost hphase => exact .running (((acts_onConnectionLost c).phase rfl).trans hphase)
  | timerReconnect hphase => exact .running ((tryToConnect_phase _ _).trans hphase)
  | sigint hphase => exact .running ((stays_abort c).phase.trans hphase)
  | asyncClosed => exact .linked rfl
  | async => exact .linked rfl
  | command hdraining => exact hbusy hdraining (by simp) ((acts_nextCommand c _ _).phase rfl)
  | commandsEnd => exact .linked rfl
  | unwind => exact .unwound rfl
  | finish hphase => exact .finished hphase rfl
  | createTx => exact .linked (createTx_link c _ _)
  | use => exact .linked rfl
  | discard => exact .linked (onTx_link c _ _)
  | release => exact .linked rfl
  | submit => exact .linked (submitTx_link c _ _ _)
  | close => exact .linked rfl
  | stop => exact .linked rfl
  | pingRefused => exact .linked rfl
  | ping => exact .linked rfl
  | fetchRefused => exact .linked rfl
  | fetchSessions => exact .linked rfl
  | loopPing => exact .linked ((acts_loopPing c _).link rfl)
  | loopFetchSessions => exact .linked ((acts_loopFetchSessions c _).link rfl)
  | pushClosed => exact .linked ((acts_pushClosed c _ _).link rfl)
  | pushCheck => exact .linked rfl
  | pushLocked => exact .linked ((acts_pushEnded c _ _).link rfl)

/-- The steps keep it: the callbacks run while `run` does, and the user's calls do not concern the
life of the client. -/
theorem closedAfterRun_effect {e : Event} (hsound : c.Sound) (h : c.ClosedAfterRun)
    (heffect : Effect globMatch c e c') : c'.ClosedAfterRun := by
  intro hended
  cases lives_effect hsound heffect with
  | running hphase =>
    rw [hphase] at hended
    simp at hended
  | linked hlink =>
    rw [phase_of_link hlink] at hended
    exact (state_of_link hlink).trans (h hended)
  | unwound hc' =>
    rw [hc']
    exact unwindRun_state c
  | finished hphase hc' =>
    rw [hc']
    exact h (Or.inl hphase)

/-- Every other step leaves the waiting submits alone. -/
theorem spares_effect {e : Event} (hended : c.ClosedAfterRun) (htraffic : e.traffic = false)
    (heffect : Effect globMatch c e c') : Spares c c' := by
  cases heffect with
  | start =>
    have hbegin : Spares c { c with phase := .running, con := none } := .of_backlog rfl
    exact hbegin.trans (spares_tryToConnect _ _)
  | @connected i con =>
    have hbegin : Spares c
      { c with connections := c.connections.set i { con with state := .connected } } :=
      .of_backlog rfl
    exact hbegin.trans ((acts_onConnectionEstablished _ i).spares rfl)
  | failed => exact .of_backlog rfl
  | @closed i delay retry refused con =>
    have hbegin : Spares c { c with connections := c.connections.set i con.onClose } :=
      .of_backlog rfl
    exact hbegin.trans ((acts_onConnectionClosed _ i delay retry refused).spares rfl)
  | read => exact .of_backlog rfl
  | message => exact (acts_onMsgReceived c _ _ _).spares rfl
  | malformed => exact .of_backlog rfl
  | readEnd => exact .of_backlog rfl
  | @update i crev u rest =>
    have hbegin : Spares c { c with activity := .pushing i crev rest } := .of_backlog rfl
    exact hbegin.trans ((acts_pushUpdate globMatch _ crev u).spares rfl)
  | updatesEnd => exact .of_backlog rfl
  | timerConLost => exact (acts_onConnectionLost c).spares rfl
  | timerReconnect =>
    have hbegin : Spares c { c with timerReconnect := false } := .of_backlog rfl
    exact hbegin.trans (spares_tryToConnect _ _)
  | sigint => exact spares_abort c
  | asyncClosed => exact .of_backlog rfl
  | async => exact .of_backlog rfl
  | command => cases htraffic
  | commandsEnd => exact .of_backlog rfl
  | unwind => exact (acts_unwindRun c).spares rfl
  | finish hphase => exact spares_finishRun (hended (Or.inl hphase))
  | createTx => cases htraffic
  | use hcell _ hstep =>
    exact spares_set hcell (congrArg Transaction.state (OpenTx.step_sameFrame hstep) :) id rfl
  | discard => cases htraffic
  | release hcell => exact spares_set hcell rfl (fun hheld => absurd hheld (by simp)) rfl
  | submit => cases htraffic
  | close => cases htraffic
  | stop => cases htraffic
  | pingRefused => cases htraffic
  | ping => cases htraffic
  | fetchRefused => cases htraffic
  | fetchSessions => cases htraffic
  | @loopPing payload =>
    have hbegin : Spares c { c with tickets := c.tickets + 1 } := .of_backlog rfl
    exact hbegin.trans ((acts_processPingCmd _ c.tickets payload).spares rfl)
  | @loopFetchSessions enableStream =>
    have hbegin : Spares c { c with tickets := c.tickets + 1 } := .of_backlog rfl
    exact hbegin.trans ((acts_processSessionsCmd _ c.tickets enableStream).spares rfl)
  | pushClosed => cases htraffic
  | pushCheck => cases htraffic
  | pushLocked => cases htraffic

end Runs

end Client

end Nplex
