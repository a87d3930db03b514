import Nplex.Client.Backlog

/-!
# Each submit is sent once

The run of a client together with an account of its submits: those whose call returned, the
SUBMIT_REQUESTs that were sent, each with the transaction of the command that was processed and
its state at that moment, and the submits that were given up, without a session or by closing the
client. No SUBMIT_REQUEST is sent for a transaction that is not SUBMITTED, unless its owner
discards it while its submit waits: `process_submit_cmd` does not look at the state.
-/

namespace Nplex

open Nplex.Common

/-- The transaction that a command submits. -/
def Command.submitted : Command → Option ℕ
  | .request (.submit t _) => some t
  | .close | .request (.ping _ _) | .request (.sessions _ _) => none

namespace Client

instance (c c' : Client) : Decidable (Closes c c') :=
  inferInstanceAs (Decidable (c'.state = .closed ∨ c.afterClosed.length < c'.afterClosed.length))

/-- The transaction whose submit is the next command, if that is what the step processes, and its
state. -/
def processed (c : Client) : Event → Option (ℕ × TxState)
  | .command => (c.commands.head?.bind Command.submitted).bind fun t =>
      (c.txs[t]?).map fun cell => (t, cell.tx.state)
  | _ => none

/-- The transactions whose `submit` returns in a step: `push_command` finds the client CLOSED, or
it takes the command. -/
def returning (c : Client) : Event → List ℕ
  | .pushCheck n =>
    if c.isClosed then ((c.pushes[n]?).bind (·.command.submitted)).toList else []
  | .pushLocked n =>
    if c.commands.length < c.commandLimit then
      ((c.pushes[n]?).bind (·.command.submitted)).toList
    else []
  | _ => []

/-- The commands that a step leaves in the queue, unless it closes the client. -/
def leaving (c : Client) : Event → List Command
  | .command => c.commands.tail
  | _ => c.commands

/-- The submits that a step refuses: it processes one without a session, or their `push_command`
finds the client CLOSED. -/
def refusing (c : Client) : Event → List ℕ
  | .command => if c.con = none then (c.commands.head?.bind Command.submitted).toList else []
  | .pushCheck n => c.returning (.pushCheck n)
  | _ => []

/-- The submits that a step gives up: those it refuses, and those it drops from the queue as it
closes the client. -/
def givingUp (c : Client) (e : Event) (c' : Client) : List ℕ :=
  c.refusing e ++
    if c'.commands = [] ∧ Closes c c' then (c.leaving e).filterMap Command.submitted else []

end Client

/-- A client with the account of its submits. -/
structure Tally where
  client : Client
  returned : List ℕ := []
  sent : List (Option (ℕ × TxState)) := []
  refused : List ℕ := []

/-- One step of the client, and what it adds to the account. -/
def Tally.step (globMatch : Glob) (m : Tally) (e : Event) : Option Tally :=
  (m.client.step globMatch e).map fun c =>
    { client := c
      returned := m.returned ++ m.client.returning e
      sent := m.sent ++ (c.submitsSent.drop m.client.submitsSent.length).map fun _ =>
        m.client.processed e
      refused := m.refused ++ m.client.givingUp e c }

namespace Client

/-- What a step adds to the account. -/
structure Balanced (c : Client) (e : Event) (c' : Client) : Prop where
  /-- A SUBMIT_REQUEST is sent for a SUBMITTED transaction. -/
  sends : c'.submitsSent = c.submitsSent ∨ ∃ t msg, c.processed e = some (t, .submitted) ∧
    c'.submitsSent = c.submitsSent ++ [msg]
  /-- What was waiting, or returns, is sent, given up or waiting. -/
  count : ∀ t,
    ((c'.submitsSent.drop c.submitsSent.length).map fun _ => c.processed e).count
        (some (t, .submitted)) +
      (c.givingUp e c').count t + c'.commands.countP (·.submits t) =
    (c.returning e).count t + c.commands.countP (·.submits t)

section Steps

variable {globMatch : Glob} {c c' : Client}

/-- A command submits a transaction if it is that of the command. -/
theorem submits_eq_submitted (command : Command) (t : ℕ) :
    command.submits t = (command.submitted == some t) := by
  cases command with
  | close => rfl
  | request kind => cases kind <;> rfl

/-- The submits of a transaction among commands. -/
theorem count_filterMap_submitted (commands : List Command) (t : ℕ) :
    (commands.filterMap Command.submitted).count t = commands.countP (·.submits t) := by
  rw [List.count_filterMap]
  exact List.countP_congr fun command _ => by rw [submits_eq_submitted]

/-- The submit of a transaction as the only one. -/
theorem count_submitted (command : Command) (t : ℕ) :
    command.submitted.toList.count t = if command.submits t then 1 else 0 := by
  rw [submits_eq_submitted]
  cases command.submitted with
  | none => simp
  | some u => simp [List.count_singleton]

/-- A step that sends no SUBMIT_REQUEST and adds no command. -/
theorem Balanced.of_unsent {e : Event} (hsent : c'.submitsSent = c.submitsSent)
    (hcommands : c'.commands = c.leaving e ∨ c'.commands = [] ∧ Closes c c')
    (hcount : ∀ t, (c.refusing e).count t + (c.leaving e).countP (·.submits t) =
      (c.returning e).count t + c.commands.countP (·.submits t)) : Balanced c e c' := by
  refine ⟨Or.inl hsent, fun t => ?_⟩
  have hdrops : (if c'.commands = [] ∧ Closes c c' then
      (c.leaving e).filterMap Command.submitted else []).count t +
      c'.commands.countP (·.submits t) = (c.leaving e).countP (·.submits t) := by
    split_ifs with hdropped
    · rw [count_filterMap_submitted, hdropped.1]
      simp
    · rw [hcommands.resolve_right hdropped]
      simp
  rw [hsent, List.drop_length, givingUp, List.count_append, ← hcount t]
  simp only [List.map_nil, List.count_nil]
  omega

/-- A step that sends the submit it takes from the queue. -/
theorem Balanced.of_sent {e : Event} {t : ℕ} {msg : ℕ × ClientMsg}
    (hprocessed : c.processed e = some (t, .submitted))
    (hsent : c'.submitsSent = c.submitsSent ++ [msg]) (hcommands : c'.commands = c.leaving e)
    (hrefusing : c.refusing e = []) (hreturning : c.returning e = [])
    (hcount : ∀ u, c.commands.countP (·.submits u) =
      (c.leaving e).countP (·.submits u) + if t = u then 1 else 0) : Balanced c e c' := by
  refine ⟨Or.inr ⟨t, msg, hprocessed, hsent⟩, fun u => ?_⟩
  have hdropped : (if c'.commands = [] ∧ Closes c c' then
      (c.leaving e).filterMap Command.submitted else []) = [] := by
    split_ifs with hdrop
    · rw [← hcommands, hdrop.1]
      rfl
    · rfl
  rw [hsent, List.drop_left, givingUp, hrefusing, hdropped, hreturning, hcommands, hcount u,
    hprocessed]
  simp only [List.map_cons, List.map_nil, List.count_singleton, List.append_nil, List.count_nil]
  simp only [beq_iff_eq, Option.some.injEq, Prod.mk.injEq, and_true]
  omega

/-- The end of a push changes no queue. -/
theorem endPush_backlog (c : Client) (p : Push) :
    (c.endPush p).backlog = { c.backlog with txs := (c.endPush p).txs } := by
  unfold endPush
  split
  · exact onTx_backlog c _ _
  · rfl

/-- A push takes the mutex of the commands. -/
theorem balanced_pushLocked {n : ℕ} {p : Push} (hpush : c.pushes[n]? = some p) :
    Balanced c (.pushLocked n) (pushLocked { c with pushes := c.pushes.eraseIdx n } p) := by
  by_cases hfull : c.commandLimit ≤ c.commands.length
  · have hreturning : c.returning (.pushLocked n) = [] := if_neg (by omega)
    have hsame : ∀ c₁, c₁ = pushLocked { c with pushes := c.pushes.eraseIdx n } p →
        c₁.submitsSent = c.submitsSent ∧ c₁.commands = c.commands := by
      rintro c₁ rfl
      unfold pushLocked enqueue
      rw [if_pos (by exact hfull)]
      split <;> exact ⟨rfl, rfl⟩
    obtain ⟨hsent, hcommands⟩ := hsame _ rfl
    refine .of_unsent hsent (Or.inl hcommands) fun t => ?_
    rw [hreturning]
    rfl
  · have hreturning : c.returning (.pushLocked n) = p.command.submitted.toList := by
      have hroom : c.returning (.pushLocked n) =
          ((c.pushes[n]?).bind (·.command.submitted)).toList := if_pos (by omega)
      rw [hroom, hpush]
      rfl
    have hpushed : ∀ c₁, c₁ = pushLocked { c with pushes := c.pushes.eraseIdx n } p →
        c₁.submitsSent = c.submitsSent ∧ c₁.commands = c.commands ++ [p.command] := by
      rintro c₁ rfl
      unfold pushLocked enqueue
      rw [if_neg (by exact hfull)]
      dsimp only
      have hend := endPush_backlog
      split <;> exact ⟨congrArg Backlog.submitsSent (hend _ p), congrArg Backlog.commands (hend _ p)⟩
    obtain ⟨hsent, hcommands⟩ := hpushed _ rfl
    refine ⟨Or.inl hsent, fun t => ?_⟩
    have hkept : ¬((pushLocked { c with pushes := c.pushes.eraseIdx n } p).commands = [] ∧
        Closes c (pushLocked { c with pushes := c.pushes.eraseIdx n } p)) := by
      rw [hcommands]
      simp
    rw [hsent, List.drop_length, givingUp, if_neg hkept, hreturning, count_submitted, hcommands,
      List.countP_append, List.countP_singleton]
    simp only [List.map_nil, List.count_nil, refusing, List.append_nil]
    omega

/-- A SUBMIT_REQUEST is sent in a session. -/
theorem processSubmitCmd_of_session {i : ℕ} {con : Connection} {t : ℕ} {cell : TxCell}
    (hcell : c.txs[t]? = some cell) (hcon : c.con = some i) (hopen : c.state ≠ .closed)
    (hget : c.connections[i]? = some con) (hconnected : con.state = .connected)
    (hgoes : c.broken = false) (force : Bool) :
    c.processSubmitCmd t force =
      { c with
        correlation := c.correlation + 1
        sent := c.sent ++
          [(i, .submit (createSubmitMsg c.correlation c.store.rev force cell.tx))]
        requests := c.requests ++ [⟨c.correlation, .submit t force⟩] } := by
  have hsend := send_of_session (c := { c with correlation := c.correlation + 1 }) hcon hopen hget
    hconnected (.submit (createSubmitMsg c.correlation c.store.rev force cell.tx))
  have hgoes' : ¬broken { c with
      correlation := c.correlation + 1
      sent := c.sent ++
        [(i, .submit (createSubmitMsg c.correlation c.store.rev force cell.tx))] } = true := by
    rw [Bool.not_eq_true]
    exact hgoes
  unfold processSubmitCmd processRequest
  rw [hcell]
  dsimp only
  rw [if_neg (by simp [hcon]), hsend, andThen, if_neg hgoes']

/-- The turn of `process_commands`. -/
theorem balanced_command (hsound : c.Sound) (h : c.Armed)
    (hphase : c.phase = .running) (hgoes : c.broken = false) {command : Command}
    {rest : List Command} (hcommands : c.commands = command :: rest) :
    Balanced c .command (processCommand { c with commands := rest } command) := by
  have hleaving : c.leaving .command = rest := by rw [leaving, hcommands, List.tail_cons]
  have hhead : c.commands.head?.bind Command.submitted = command.submitted := by rw [hcommands]; rfl
  by_cases hsubmit : ∃ t force, command = .request (.submit t force)
  swap
  · -- what is no submit leaves the submits alone
    have hspares : Spares { c with commands := rest }
        (processCommand { c with commands := rest } command) := by
      cases command with
      | close => exact spares_abort _
      | request kind =>
        cases kind with
        | ping ticket payload => exact (acts_processPingCmd _ ticket payload).spares rfl
        | sessions ticket stream => exact (acts_processSessionsCmd _ ticket stream).spares rfl
        | submit t force => exact absurd ⟨t, force, rfl⟩ hsubmit
    have hnone : command.submitted = none := by
      cases command with
      | close => rfl
      | request kind =>
        cases kind with
        | submit t force => exact absurd ⟨t, force, rfl⟩ hsubmit
        | _ => rfl
    refine .of_unsent hspares.sent ?_ fun t => ?_
    · rw [hleaving]
      exact hspares.commands
    · have hnot : command.submits t = false := by rw [submits_eq_submitted, hnone]; rfl
      rw [hleaving, hcommands, List.countP_cons, hnot]
      simp [refusing, returning, hcommands, hnone]
  obtain ⟨t, force, rfl⟩ := hsubmit
  have hsubmits : Command.submits (.request (.submit t force)) t = true := by
    simp [Command.submits, RequestKind.submits]
  obtain ⟨cell, hcell, hstate, -⟩ : ∃ cell : TxCell, c.txs[t]? = some cell ∧
      cell.tx.state = .submitted ∧ (cell.registered = true ∨ c.wasClosed) := by
    refine h.submitted t fun hzero => ?_
    have htaken := unsent_taken hcommands t
    rw [if_pos hsubmits] at htaken
    omega
  have hprocessed : c.processed .command = some (t, .submitted) := by
    simp [processed, hhead, Command.submitted, hcell, hstate]
  have hcountP : ∀ u, c.commands.countP (·.submits u) =
      rest.countP (·.submits u) + if t = u then 1 else 0 := fun u => by
    rw [hcommands, List.countP_cons]
    simp [Command.submits, RequestKind.submits]
  change Balanced c .command (processSubmitCmd { c with commands := rest } t force)
  rcases Option.eq_none_or_eq_some c.con with hcon | ⟨i, hcon⟩
  · have hrefused : processSubmitCmd { c with commands := rest } t force =
        onTx { c with commands := rest } t (·.setSubmitException .notConnected) := by
      unfold processSubmitCmd processRequest
      dsimp only
      rw [hcell]
      exact if_pos hcon
    rw [hrefused]
    have hbacklog := onTx_backlog { c with commands := rest } t (·.setSubmitException .notConnected)
    refine .of_unsent (congrArg Backlog.submitsSent hbacklog) (Or.inl ?_) fun u => ?_
    · rw [hleaving]
      exact congrArg Backlog.commands hbacklog
    · have hrefusing : c.refusing .command = [t] := by
        simp [refusing, hcon, hhead, Command.submitted]
      rw [hrefusing, hleaving, hcountP u, List.count_singleton]
      simp only [returning, List.count_nil, beq_iff_eq]
      omega
  · obtain ⟨con, hget, hconnected⟩ := hsound.tied.connected i hcon
    have hopen : c.state ≠ .closed := by
      intro hclosed
      rw [hsound.free hphase hclosed] at hcon
      cases hcon
    rw [processSubmitCmd_of_session (c := { c with commands := rest }) hcell hcon hopen hget
      hconnected hgoes force]
    generalize hmsg : createSubmitMsg c.correlation c.store.rev force cell.tx = msg
    have hsent : (c.sent ++ [(i, ClientMsg.submit msg)]).filter (·.2.isSubmit) =
        c.submitsSent ++ [(i, .submit msg)] := List.filter_append _ _
    refine .of_sent hprocessed hsent hleaving.symm (by simp [refusing, hcon]) rfl fun u => ?_
    rw [hleaving]
    exact hcountP u

/-- The steps that are not about the queue account for nothing but what they drop. -/
theorem account_of_quiet {e : Event} (htraffic : e.traffic = false) (c : Client) :
    c.refusing e = [] ∧ c.leaving e = c.commands ∧ c.returning e = [] := by
  cases e <;> first
    | exact ⟨rfl, rfl, rfl⟩
    | cases htraffic

/-- Every step adds to the account what it does to the queue. -/
theorem balanced_effect {e : Event} (hsound : c.Sound) (hended : c.ClosedAfterRun) (h : c.Armed)
    (heffect : Effect globMatch c e c') : Balanced c e c' := by
  have hquiet : ∀ {c₁ : Client}, c.refusing e = [] → c.leaving e = c.commands →
      c.returning e = [] → c₁.submitsSent = c.submitsSent →
      (c₁.commands = c.commands ∨ c₁.commands = [] ∧ Closes c c₁) → Balanced c e c₁ := by
    intro c₁ hrefusing hleaving hreturning hsent hcommands
    refine .of_unsent hsent (hleaving ▸ hcommands) fun t => ?_
    rw [hrefusing, hleaving, hreturning]
  by_cases htraffic : e.traffic = false
  · have hspares := spares_effect hended htraffic heffect
    obtain ⟨hrefusing, hleaving, hreturning⟩ := account_of_quiet htraffic c
    exact hquiet hrefusing hleaving hreturning hspares.sent hspares.commands
  cases heffect with
  | command hdraining hcommands =>
    exact balanced_command hsound h (hsound.busy (by simp [hdraining])) (by simp [broken, hdraining])
      hcommands
  | createTx =>
    rcases createTx_cases c _ _ with hsame | hpurge | ⟨tx, -, -, -, hcreate⟩
    · rw [hsame]
      exact hquiet rfl rfl rfl rfl (Or.inl rfl)
    · rw [hpurge]
      exact hquiet rfl rfl rfl rfl (Or.inl rfl)
    · rw [hcreate]
      exact hquiet rfl rfl rfl rfl (Or.inl rfl)
  | @submit t force cell hcell =>
    have hsame : (c.submitTx t cell force).submitsSent = c.submitsSent ∧
        (c.submitTx t cell force).commands = c.commands := by
      unfold submitTx
      split <;> exact ⟨rfl, rfl⟩
    exact hquiet rfl rfl rfl hsame.1 (Or.inl hsame.2)
  | @discard t cell =>
    have hbacklog := onTx_backlog c t fun tx => (tx.discard, none)
    exact hquiet rfl rfl rfl (congrArg Backlog.submitsSent hbacklog)
      (Or.inl (congrArg Backlog.commands hbacklog))
  | close => exact hquiet rfl rfl rfl rfl (Or.inl rfl)
  | stop => exact hquiet rfl rfl rfl rfl (Or.inl rfl)
  | pingRefused => exact hquiet rfl rfl rfl rfl (Or.inl rfl)
  | ping => exact hquiet rfl rfl rfl rfl (Or.inl rfl)
  | fetchRefused => exact hquiet rfl rfl rfl rfl (Or.inl rfl)
  | fetchSessions => exact hquiet rfl rfl rfl rfl (Or.inl rfl)
  | @pushClosed n p hpush hclosed =>
    have hbacklog := endPush_backlog { c with pushes := c.pushes.eraseIdx n } p
    exact .of_unsent (congrArg Backlog.submitsSent hbacklog)
      (Or.inl (congrArg Backlog.commands hbacklog)) fun t => rfl
  | @pushCheck n p hpush hopen =>
    have hreturning : c.returning (.pushCheck n) = [] :=
      if_neg (by simpa [isClosed_eq_true] using hopen)
    refine .of_unsent rfl (Or.inl rfl) fun t => ?_
    rw [refusing, hreturning]
    rfl
  | pushLocked hpush => exact balanced_pushLocked hpush
  | _ => exact absurd rfl htraffic

end Steps

end Client

namespace Tally

variable {globMatch : Glob} {m m' : Tally}

/-- The account is complete and in balance. -/
structure Accounted (m : Tally) : Prop where
  complete : m.sent.length = m.client.submitsSent.length
  submitted : ∀ s ∈ m.sent, ∃ t, s = some (t, .submitted)
  balance : ∀ t, m.sent.count (some (t, .submitted)) + m.refused.count t +
    m.client.commands.countP (·.submits t) = m.returned.count t

/-- Every step accounts for the submits that it moves. -/
theorem accounted_step {e : Event} (hbacked : m.client.Backed) (h : m.Accounted)
    (hguard : m.client.sparesUnsent e = true) (hstep : m.step globMatch e = some m') :
    m'.client.Backed ∧ m'.Accounted := by
  obtain ⟨c, hclient, rfl⟩ := Option.map_eq_some_iff.mp hstep
  refine ⟨Client.backed_step hbacked hguard hclient, ?_⟩
  obtain ⟨-, c₁, heffect, rfl⟩ := Client.step_effect hclient
  have hbalanced : Client.Balanced m.client e c₁.reap := by
    have hraw := Client.balanced_effect hbacked.sound hbacked.ended hbacked.armed heffect
    exact ⟨hraw.sends, hraw.count⟩
  refine ⟨?_, fun s hs => ?_, fun t => ?_⟩
  · rcases hbalanced.sends with hsame | ⟨t, msg, -, hmore⟩
    · simp [hsame, h.complete]
    · simp [hmore, h.complete]
  · rcases List.mem_append.mp hs with hold | hnew
    · exact h.submitted s hold
    · obtain ⟨x, hx, rfl⟩ := List.mem_map.mp hnew
      rcases hbalanced.sends with hsame | ⟨t, -, hprocessed, -⟩
      · rw [hsame, List.drop_length] at hx
        cases hx
      · exact ⟨t, hprocessed⟩
  · have hold := h.balance t
    have hnew := hbalanced.count t
    simp only [List.count_append]
    omega

/-- On every run in which no transaction is discarded while its submit waits to be sent, every
SUBMIT_REQUEST is sent for a SUBMITTED transaction, and the submits whose call returned are those
sent, one SUBMIT_REQUEST each, those given up and those that wait in the queue. -/
theorem submits_sent_once (globMatch : Glob) (user password : Bytes)
    (maxActiveTxs rev0 servers : ℕ) (hasReactor : Bool) (events : List Event) (m : Tally)
    (hrun : Run (step globMatch) (fun m e => m.client.sparesUnsent e = true)
      { client := Client.create user password maxActiveTxs rev0 servers hasReactor } events m) :
    m.sent.length = m.client.submitsSent.length ∧
      (∀ s ∈ m.sent, ∃ t, s = some (t, .submitted)) ∧
      ∀ t, m.sent.count (some (t, .submitted)) + m.refused.count t +
        m.client.commands.countP (·.submits t) = m.returned.count t := by
  have hinit : (Client.create user password maxActiveTxs rev0 servers hasReactor).Backed ∧
      Accounted { client := Client.create user password maxActiveTxs rev0 servers hasReactor } :=
    ⟨Client.backed_create _ _ _ _ _ _, rfl, by simp, by simp [Client.create]⟩
  have hlast : m.client.Backed ∧ m.Accounted :=
    hrun.invariant (fun _ _ _ hguard hstep h => accounted_step h.1 h.2 hguard hstep) hinit
  exact ⟨hlast.2.complete, hlast.2.submitted, hlast.2.balance⟩

/-- A transaction is discarded while its submit waits: its SUBMIT_REQUEST is sent all the same. -/
theorem discarded_submit_is_sent :
    ¬∀ (events : List Event) (m : Tally),
      Run (step fun _ _ => true) anyStep { client := Client.create [1] [2] 0 0 1 false } events m →
        ∀ s ∈ m.sent, ∃ t, s = some (t, .submitted) := by
  intro h
  have hexec : (execute (step fun _ _ => true) (fun _ _ => true)
      { client := Client.create [1] [2] 0 0 1 false }
      [.start none, .connected 0, .read 0,
        .message (some (.loginResponse ⟨.authorized, 0, 0, true, true, 10, [⟨15, [42]⟩]⟩)) false,
        .readEnd, .createTx .readCommitted false, .submit 0 true, .pushCheck 0, .pushLocked 0,
        .discard 0, .async, .command]).map (·.sent) = some [some (0, .discarded)] := by
    decide +kernel
  obtain ⟨m, hrun, hsent⟩ := exists_run_of_execute (fun _ _ _ => trivial) hexec
  obtain ⟨t, ht⟩ := h _ m hrun (some (0, .discarded)) (by simp [hsent])
  cases ht

/-- The server answers TRY_LATER, and the transaction is submitted, and sent, once more. -/
theorem submits_sent_once_try_later : ∃ m : Tally,
    Run (step fun _ _ => true) (fun m e => m.client.sparesUnsent e = true)
        { client := Client.create [1] [2] 0 0 1 false }
        [.start none, .connected 0, .read 0,
          .message (some (.loginResponse ⟨.authorized, 0, 0, true, true, 10, [⟨15, [42]⟩]⟩)) false,
          .readEnd, .createTx .readCommitted false, .submit 0 true, .pushCheck 0, .pushLocked 0,
          .async, .command, .commandsEnd, .read 0,
          .message (some (.submitResponse ⟨2, .tryLater, 0⟩)) false, .readEnd, .submit 0 true,
          .pushCheck 0, .pushLocked 0, .async, .command, .discard 0] m ∧
      m.returned = [0, 0] ∧ m.client.submitsSent.length = 2 ∧
      ∀ s ∈ m.sent, ∃ t, s = some (t, .submitted) := by
  have hexec : (execute (step fun _ _ => true) (fun m e => m.client.sparesUnsent e)
      { client := Client.create [1] [2] 0 0 1 false }
      [.start none, .connected 0, .read 0,
        .message (some (.loginResponse ⟨.authorized, 0, 0, true, true, 10, [⟨15, [42]⟩]⟩)) false,
        .readEnd, .createTx .readCommitted false, .submit 0 true, .pushCheck 0, .pushLocked 0,
        .async, .command, .commandsEnd, .read 0,
        .message (some (.submitResponse ⟨2, .tryLater, 0⟩)) false, .readEnd, .submit 0 true,
        .pushCheck 0, .pushLocked 0, .async, .command, .discard 0]).map
        (fun m => (m.returned, m.sent.length)) = some ([0, 0], 2) := by
    decide +kernel
  obtain ⟨m, hrun, hend⟩ := exists_run_of_execute (fun _ _ h => h) hexec
  obtain ⟨hreturned, hsent⟩ := Prod.mk.inj hend
  obtain ⟨hcomplete, hsubmitted, -⟩ := submits_sent_once _ _ _ _ _ _ _ _ m hrun
  exact ⟨m, hrun, hreturned, hcomplete.symm.trans hsent, hsubmitted⟩

end Tally

end Nplex
