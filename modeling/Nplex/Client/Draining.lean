import Nplex.Client.Backlog
import Nplex.Client.Wakeup

/-!
# No command is stranded

`process_commands` pops a command under the mutex and executes it outside, so that pushes come in
between. Here the two are steps of their own, and an account is kept of the commands that
`push_command` put into the queue and of those that were executed, in order.
-/

namespace Nplex

open Nplex.Common

/-- The calls of the users' threads. -/
def Event.ofUser : Event → Bool
  | .createTx _ _ | .use _ _ | .discard _ | .release _ | .submit _ _ | .close | .stop | .ping _
  | .fetchSessions _ | .pushCheck _ | .pushLocked _ => true
  | _ => false

/-- A client whose `process_commands` is taken apart. -/
structure Drain where
  client : Client
  /-- `process_commands` has popped a command, which is still the first one of the client: it refers
  to its transaction until it is executed. -/
  holding : Bool := false
  /-- The commands that were put into the queue. -/
  pushed : List Command := []
  /-- The commands that were executed. -/
  executed : List Command := []

/-- The steps. -/
inductive DrainEvent
  /-- `process_commands` pops a command. -/
  | pop
  /-- It executes the command it has popped. -/
  | execute
  /-- Any other step of the client. -/
  | other (e : Event)

namespace Drain

/-- `m_commands`. -/
def queue (d : Drain) : List Command :=
  if d.holding then d.client.commands.tail else d.client.commands

/-- The command that is being executed. -/
def popped (d : Drain) : Option Command := if d.holding then d.client.commands.head? else none

/-- `push_command` under the mutex. -/
def pushLocked (d : Drain) (n : ℕ) (p : Push) : Drain :=
  { d with
    client :=
      (Client.enqueue { d.client with pushes := d.client.pushes.eraseIdx n } p d.queue.length).reap
    pushed :=
      if d.client.commandLimit ≤ d.queue.length then d.pushed else d.pushed ++ [p.command] }

/-- One step. While a command is executed the event loop does nothing else. -/
def step (globMatch : Glob) (d : Drain) : DrainEvent → Option Drain
  | .pop =>
    if d.client.activity = .draining ∧ d.holding = false ∧ d.client.commands ≠ [] then
      some { d with holding := true }
    else none
  | .execute =>
    if d.holding then
      (d.client.step globMatch .command).map fun c =>
        { d with client := c, holding := false, executed := d.executed ++ d.popped.toList }
    else none
  | .other .command => none
  | .other (.pushLocked n) =>
    match d.client.pushes[n]? with
    | none => none
    | some p =>
      if p.checked = true ∧ d.client.activity ≠ .crashed then some (d.pushLocked n p) else none
  | .other e =>
    if d.holding = true ∧ e.ofUser = false then none
    else (d.client.step globMatch e).map fun c => { d with client := c }

section Steps

variable {globMatch : Glob} {d d' : Drain}

/-- What a step can do. -/
inductive Effect (globMatch : Glob) (d : Drain) : DrainEvent → Drain → Prop
  | pop (hdraining : d.client.activity = .draining) (hfree : d.holding = false)
      (hcommands : d.client.commands ≠ []) : Effect globMatch d .pop { d with holding := true }
  | execute {c : Client} (hholding : d.holding = true)
      (hstep : d.client.step globMatch .command = some c) :
      Effect globMatch d .execute
        { d with client := c, holding := false, executed := d.executed ++ d.popped.toList }
  | pushLocked {n : ℕ} {p : Push} (hpush : d.client.pushes[n]? = some p) :
      Effect globMatch d (.other (.pushLocked n)) (d.pushLocked n p)
  | other {e : Event} {c : Client} (hcommand : e ≠ .command) (hpush : ∀ n, e ≠ .pushLocked n)
      (huser : d.holding = true → e.ofUser = true) (hstep : d.client.step globMatch e = some c) :
      Effect globMatch d (.other e) { d with client := c }

/-- Every step has one of these effects. -/
theorem step_effect {e : DrainEvent} (h : d.step globMatch e = some d') : Effect globMatch d e d' := by
  cases e with
  | pop =>
    simp only [step] at h
    split_ifs at h with hpop
    obtain rfl := Option.some.inj h
    exact .pop hpop.1 hpop.2.1 hpop.2.2
  | execute =>
    simp only [step] at h
    split_ifs at h with hholding
    obtain ⟨c, hstep, rfl⟩ := Option.map_eq_some_iff.mp h
    exact .execute hholding hstep
  | other e =>
    by_cases hcommand : e = .command
    · subst hcommand
      cases h
    by_cases hpush : ∃ n, e = .pushLocked n
    · obtain ⟨n, rfl⟩ := hpush
      simp only [step] at h
      split at h
      · cases h
      · next p hp =>
        split_ifs at h with hchecked
        obtain rfl := Option.some.inj h
        exact .pushLocked hp
    · have hother : ∀ n, e ≠ .pushLocked n := fun n heq => hpush ⟨n, heq⟩
      have hstep : (if d.holding = true ∧ e.ofUser = false then none
          else (d.client.step globMatch e).map fun c => { d with client := c }) = some d' := by
        cases e with
        | command => exact absurd rfl hcommand
        | pushLocked n => exact absurd rfl (hother n)
        | _ => exact h
      split_ifs at hstep with hbusy
      obtain ⟨c, hc, rfl⟩ := Option.map_eq_some_iff.mp hstep
      refine .other hcommand hother (fun hholding => ?_) hc
      by_contra huser
      exact hbusy ⟨hholding, by simpa using huser⟩

end Steps

end Drain

namespace Client

section Loop

variable {globMatch : Glob} {c c' : Client}

/-- The calls of the users' threads concern neither the commands nor the event loop. -/
theorem user_effect {e : Event} (huser : e.ofUser = true) (hpush : ∀ n, e ≠ .pushLocked n)
    (heffect : Effect globMatch c e c') :
    c'.commands = c.commands ∧ c'.activity = c.activity ∧ c'.link = c.link := by
  cases heffect with
  | createTx =>
    refine ⟨?_, (createTx_same c _ _).2, createTx_link c _ _⟩
    unfold Client.createTx
    split
    · rfl
    dsimp only
    split
    · rfl
    · split <;> rfl
  | discard =>
    exact ⟨congrArg Backlog.commands (onTx_backlog c _ _), onTx_activity c _ fun _ => rfl,
      onTx_link c _ _⟩
  | submit =>
    refine ⟨?_, (submitTx_same c _ _ _).2, submitTx_link c _ _ _⟩
    unfold submitTx
    split <;> rfl
  | @pushClosed n p =>
    refine ⟨?_, endPush_activity _ p, (acts_pushClosed c n p).link rfl⟩
    unfold endPush
    split
    · exact congrArg Backlog.commands (onTx_backlog _ _ _)
    · rfl
  | @pushLocked n => exact absurd rfl (hpush n)
  | use => exact ⟨rfl, rfl, rfl⟩
  | release => exact ⟨rfl, rfl, rfl⟩
  | close => exact ⟨rfl, rfl, rfl⟩
  | stop => exact ⟨rfl, rfl, rfl⟩
  | pingRefused => exact ⟨rfl, rfl, rfl⟩
  | ping => exact ⟨rfl, rfl, rfl⟩
  | fetchRefused => exact ⟨rfl, rfl, rfl⟩
  | fetchSessions => exact ⟨rfl, rfl, rfl⟩
  | pushCheck => exact ⟨rfl, rfl, rfl⟩
  | _ => cases huser

/-- Sending in a session throws nothing. -/
theorem send_activity (hconnected : ∀ i, c.con = some i → c.connected i) (msg : ClientMsg) :
    (c.send msg).activity = c.activity := by
  cases hcon : c.con with
  | none => simp [send, hcon]
  | some i =>
    obtain ⟨con, hget, hstate⟩ := hconnected i hcon
    by_cases hclosed : c.state = .closed
    · simp [send, hcon, isClosed_eq_true.mpr hclosed]
    · rw [send_of_session hcon hclosed hget hstate]

/-- A request on an established connection does not end the event loop. -/
theorem processRequest_activity {kind : RequestKind} {refuse : Client → Client} {msg : ℕ → ClientMsg}
    (hconnected : ∀ i, c.con = some i → c.connected i)
    (hrefuse : (refuse c).activity = c.activity) :
    (c.processRequest kind refuse msg).activity = c.activity := by
  unfold processRequest
  split
  · exact hrefuse
  · have hsend : (Client.send { c with correlation := c.correlation + 1 }
        (msg c.correlation)).activity = c.activity :=
      send_activity (c := { c with correlation := c.correlation + 1 }) hconnected _
    dsimp only
    unfold andThen
    split <;> exact hsend

/-- Without a session a submit is refused, which throws nothing. -/
theorem refuse_activity (hsettled : ∀ cell ∈ c.txs, cell.tx.Settled) (t : ℕ) (e : TxException) :
    (c.onTx t (·.setSubmitException e)).activity = c.activity := by
  cases hcell : c.txs[t]? with
  | none => simp [onTx, hcell]
  | some cell =>
    rw [onTx_of_cell hcell _ (congrArg Prod.snd
      (Transaction.setSubmitException_eq (hsettled cell (List.mem_of_getElem? hcell)) e))]

/-- No command throws. -/
theorem processCommand_activity (hconnected : ∀ i, c.con = some i → c.connected i)
    (hsettled : ∀ cell ∈ c.txs, cell.tx.Settled) (command : Command) :
    (c.processCommand command).activity = c.activity := by
  cases command with
  | close => exact abort_activity c
  | request kind =>
    cases kind with
    | submit t force =>
      change (c.processSubmitCmd t force).activity = c.activity
      unfold processSubmitCmd
      split
      · rfl
      · exact processRequest_activity hconnected (refuse_activity hsettled t .notConnected)
    | ping ticket payload => exact processRequest_activity hconnected rfl
    | sessions ticket enableStream => exact processRequest_activity hconnected rfl

/-- A request leaves the queue of the commands alone. -/
theorem processRequest_commands {kind : RequestKind} {refuse : Client → Client} {msg : ℕ → ClientMsg}
    (hrefuse : (refuse c).commands = c.commands) :
    (c.processRequest kind refuse msg).commands = c.commands := by
  unfold processRequest
  split
  · exact hrefuse
  · have hsend := congrArg Ledger.commands
      (send_ledger { c with correlation := c.correlation + 1 } (msg c.correlation))
    dsimp only
    unfold andThen
    split <;> exact hsend

/-- A command leaves the others in the queue, unless it closes the client. -/
theorem processCommand_commands (c : Client) (command : Command) :
    (c.processCommand command).commands = c.commands ∨
      (c.processCommand command).commands = [] ∧ (c.processCommand command).state = .closed := by
  cases command with
  | close =>
    by_cases hclosed : c.state = .closed
    · exact Or.inl (congrArg Client.commands (abort_of_closed hclosed))
    · refine Or.inr ⟨?_, congrArg Link.state (abort_link hclosed)⟩
      change c.abort.commands = []
      unfold abort
      rw [if_neg (by simp [isClosed, hclosed])]
  | request kind =>
    refine Or.inl ?_
    cases kind with
    | submit t force =>
      change (c.processSubmitCmd t force).commands = c.commands
      unfold processSubmitCmd
      split
      · rfl
      · exact processRequest_commands (congrArg Backlog.commands (onTx_backlog c t _))
    | ping ticket payload => exact processRequest_commands rfl
    | sessions ticket enableStream => exact processRequest_commands rfl

/-- `process_commands` stays in its loop while there are commands. -/
theorem draining_effect {e : Event} (hsound : c.Sound) (hcommand : e ≠ .command)
    (huser : e.ofUser = false) (hdraining : c.activity = .draining) (hcommands : c.commands ≠ [])
    (hraw : c.stepRaw globMatch e = some c') (heffect : Effect globMatch c e c') :
    c'.activity = .draining := by
  have hrunning : c.phase = .running := hsound.busy (by simp [hdraining])
  have hbusy : c.activity ≠ .idle := by simp [hdraining]
  cases heffect with
  | start hphase =>
    rw [hphase] at hrunning
    cases hrunning
  | connected _ hidle => exact absurd hidle hbusy
  | failed => exact hdraining
  | closed _ hidle => exact absurd hidle hbusy
  | read _ hidle => exact absurd hidle hbusy
  | message hreading => simp [hdraining] at hreading
  | malformed hreading => simp [hdraining] at hreading
  | readEnd hreading => simp [hdraining] at hreading
  | update hpushing => simp [hdraining] at hpushing
  | updatesEnd hpushing => simp [hdraining] at hpushing
  | timerConLost _ hidle => exact absurd hidle hbusy
  | timerReconnect _ hidle => exact absurd hidle hbusy
  | sigint _ hidle => exact absurd hidle hbusy
  | asyncClosed _ hidle => exact absurd hidle hbusy
  | async _ hidle => exact absurd hidle hbusy
  | command => exact absurd rfl hcommand
  | commandsEnd =>
    simp only [stepRaw] at hraw
    split_ifs at hraw with hend
    exact absurd hend.2 hcommands
  | unwind _ hactivity => simp [hdraining] at hactivity
  | finish hphase =>
    rw [hphase] at hrunning
    cases hrunning
  | loopPing =>
    refine (processRequest_activity ?_ rfl).trans hdraining
    exact hsound.tied.connected
  | loopFetchSessions =>
    refine (processRequest_activity ?_ rfl).trans hdraining
    exact hsound.tied.connected
  | _ => cases huser

/-- Nobody goes on with a closed client whose event loop reads no message. -/
theorem closed_idle_effect {e : Event} (hshut : c.Shut)
    (hcommand : e ≠ .command) (huser : e.ofUser = false)
    (hraw : c.stepRaw globMatch e = some c') (heffect : Effect globMatch c e c')
    (hclosed : c.state = .closed) (hreads : c.activity.connection = none) :
    c'.state = .closed ∧ (c'.activity = .draining ∨ c'.activity.connection = none) := by
  have hkept : Keeps c c' → c.respectsClosed e = true →
      c'.state = .closed ∧ (c'.activity = .draining ∨ c'.activity.connection = none) := by
    intro hkeeps hrespects
    refine ⟨((absorbs_effect hrespects heffect).closed hclosed).1, Or.inr ?_⟩
    rcases hkeeps with hsame | hbroken
    · rw [hsame, hreads]
    · exact connection_of_broken hbroken
  cases heffect with
  | start _ hstate =>
    rw [hclosed] at hstate
    cases hstate
  | connected hphase =>
    obtain ⟨con, hcon, hstate, hgoes⟩ := connected_guard hraw
    exact absurd hclosed (hshut.open_of_connection hphase hcon (by simp [hstate]) hgoes)
  | failed => exact hkept (Or.inl rfl) rfl
  | closed => exact hkept (((acts_onConnectionClosed _ _ _ _ _).keeps rfl).after rfl) rfl
  | read hphase =>
    obtain ⟨con, hcon, hstate, hgoes⟩ := read_guard hraw
    exact absurd hclosed (hshut.open_of_connection hphase hcon (by simp [hstate]) hgoes)
  | message hreading => simp [hreading, Activity.connection] at hreads
  | malformed hreading => simp [hreading, Activity.connection] at hreads
  | readEnd hreading => simp [hreading, Activity.connection] at hreads
  | update hpushing => simp [hpushing, Activity.connection] at hreads
  | updatesEnd hpushing => simp [hpushing, Activity.connection] at hreads
  | timerConLost => exact hkept ((acts_onConnectionLost c).keeps rfl) rfl
  | timerReconnect => exact hkept ((keeps_tryToConnect _ _).after rfl) rfl
  | sigint => exact hkept (keeps_abort c) rfl
  | asyncClosed => exact hkept (Or.inl rfl) rfl
  | async => exact ⟨hclosed, Or.inl rfl⟩
  | command => exact absurd rfl hcommand
  | commandsEnd => exact ⟨hclosed, Or.inr rfl⟩
  | unwind => exact ⟨unwindRun_state c, Or.inr rfl⟩
  | finish => exact hkept (Or.inl rfl) rfl
  | loopPing _ hopen => exact absurd hclosed hopen
  | loopFetchSessions _ hopen => exact absurd hclosed hopen
  | _ => cases huser

/-- A step of the event loop that is not about commands consumes the wake-up only to enter
`process_commands`, unless the client is CLOSED for good. -/
theorem wakes_effect {e : Event} (hsound : c.Sound) (hshut : c.Shut)
    (hcommand : e ≠ .command) (huser : e.ofUser = false) (hcommands : c.commands ≠ [])
    (hraw : c.stepRaw globMatch e = some c') (heffect : Effect globMatch c e c')
    (h : c.state ≠ .closed ∨ c.activity.connection ≠ none →
      c.async = true ∨ c.activity = .draining)
    (hgoes : c'.state ≠ .closed ∨ c'.activity.connection ≠ none) :
    c'.async = true ∨ c'.activity = .draining := by
  by_cases hdraining : c.activity = .draining
  · exact Or.inr (draining_effect hsound hcommand huser hdraining hcommands hraw heffect)
  by_cases hasync : e = .async
  · subst hasync
    cases heffect with
    | asyncClosed _ hidle hclosed =>
      rcases hgoes with hopen | hreads
      · exact absurd hclosed hopen
      · exact absurd (by rw [hidle]; rfl) hreads
    | async => exact Or.inr rfl
  have hpush : ∀ n, e ≠ .pushLocked n := by
    rintro n rfl
    cases huser
  rw [effect_async hasync hpush heffect]
  refine Or.inl ((h ?_).resolve_right hdraining)
  by_contra hover
  simp only [not_or, not_not] at hover
  obtain ⟨hclosed', hreads'⟩ :=
    closed_idle_effect hshut hcommand huser hraw heffect hover.1 hover.2
  rcases hgoes with hopen | hreads
  · exact hopen hclosed'
  · rcases hreads' with hdraining' | hnone
    · rw [hdraining'] at hreads
      exact hreads rfl
    · exact hreads hnone

/-- What was closed stays so. -/
theorem Spares.wasClosed (h : Spares c c') (hclosed : c.wasClosed) : c'.wasClosed := by
  rcases hclosed with hclosed | hmarked
  · exact (h.closed hclosed).wasClosed
  · refine Or.inr fun hnil => hmarked (List.length_eq_zero_iff.mp ?_)
    have hmarks := h.marks
    rw [hnil, List.length_nil] at hmarks
    omega

/-- What the account of the commands rests on. -/
structure Grounded (c : Client) : Prop where
  queued : c.Queued
  sound : c.Sound
  ended : c.ClosedAfterRun
  shut : c.Shut

/-- A new client is grounded. -/
theorem grounded_create (user password : Bytes) (maxActiveTxs rev0 servers : ℕ) (hasReactor : Bool) :
    (create user password maxActiveTxs rev0 servers hasReactor).Grounded where
  queued := queued_create _ _ _ _ _ _
  sound := sound_create _ _ _ _ _ _
  ended := by rintro (hended | hended) <;> cases hended
  shut := .of_open (by simp [create])

/-- An accepted step with its guards and its effect. -/
theorem step_raw {e : Event} (h : c.step globMatch e = some c') :
    ∃ c₁, c.stepRaw globMatch e = some c₁ ∧ Effect globMatch c e c₁ ∧ c' = c₁.reap := by
  unfold step at h
  split_ifs at h
  obtain ⟨c₁, hraw, rfl⟩ := Option.map_eq_some_iff.mp h
  exact ⟨c₁, hraw, stepRaw_effect hraw, rfl⟩

/-- So is the client after every step. -/
theorem grounded_step {e : Event} (h : c.Grounded) (hstep : c.step globMatch e = some c') :
    c'.Grounded := by
  have hqueued := queued_step h.queued hstep
  have hsound := sound_step h.sound hstep
  obtain ⟨c₁, hraw, heffect, rfl⟩ := step_raw hstep
  have hended : c₁.ClosedAfterRun := closedAfterRun_effect h.sound h.ended heffect
  exact ⟨hqueued, hsound, hended, (shut_effect h.shut hraw heffect).same rfl rfl⟩

/-- So is the client after a push. -/
theorem grounded_enqueue (h : c.Grounded) {n : ℕ} {p : Push} (hp : c.pushes[n]? = some p)
    (waiting : ℕ) :
    (enqueue { c with pushes := c.pushes.eraseIdx n } p waiting).reap.Grounded := by
  have hacts := acts_pushEnqueued c n p waiting
  have hlink := hacts.link rfl
  have hsound := h.sound.stays (hacts.stays rfl) (Or.inl (enqueue_activity _ p waiting))
  refine ⟨(queued_enqueue h.queued hp waiting).drains (drains_reap _), ?_, fun hended => ?_, ?_⟩
  · exact hsound.stays (.of_connections rfl rfl rfl) (Or.inl rfl)
  · have hphase := phase_of_link hlink
    exact (state_of_link hlink).trans (h.ended (by rwa [← hphase]))
  · exact (hacts.keepsShut h.shut).same rfl rfl

end Loop

end Client

namespace Drain

open Client

/-- The invariant of the commands. -/
structure Flowing (d : Drain) : Prop where
  grounded : d.client.Grounded
  holds : d.holding = true → d.client.activity = .draining ∧ d.client.commands ≠ []
  /-- Also while a client that is CLOSED reads the rest of an input: it may leave CLOSED again. -/
  wakes : d.client.state ≠ .closed ∨ d.client.activity.connection ≠ none → d.queue ≠ [] →
    d.client.async = true ∨ d.client.activity = .draining
  ordered : (d.executed ++ d.client.commands).Sublist d.pushed
  complete : ¬d.client.wasClosed → d.executed ++ d.client.commands = d.pushed

section Invariant

variable {globMatch : Glob} {d d' : Drain}

/-- The commands that wait are among those not executed. -/
theorem commands_ne_nil (h : d.queue ≠ []) : d.client.commands ≠ [] := by
  unfold queue at h
  split at h
  · intro hnil
    rw [hnil] at h
    exact h rfl
  · exact h

/-- What is popped and what is not are the commands of the client. -/
theorem popped_queue (h : d.holding = true → d.client.commands ≠ []) :
    d.popped.toList ++ d.queue = d.client.commands := by
  unfold popped queue
  split
  · next hholding =>
    cases hcommands : d.client.commands with
    | nil => exact absurd hcommands (h hholding)
    | cons command rest => rfl
  · rfl

/-- The loop takes the front of the queue. -/
theorem Flowing.pop (h : d.Flowing) (hdraining : d.client.activity = .draining)
    (hcommands : d.client.commands ≠ []) : Flowing { d with holding := true } where
  grounded := h.grounded
  holds _ := ⟨hdraining, hcommands⟩
  wakes _ _ := Or.inr hdraining
  ordered := h.ordered
  complete := h.complete

/-- The command that was popped is executed, and the loop goes on. -/
theorem Flowing.execute (h : d.Flowing) {c : Client} (hholding : d.holding = true)
    (hstep : d.client.step globMatch .command = some c) :
    Flowing { d with client := c, holding := false, executed := d.executed ++ d.popped.toList } ∧
      c.activity = .draining := by
  have hgrounded := grounded_step h.grounded hstep
  obtain ⟨c₁, -, heffect, rfl⟩ := step_raw hstep
  obtain ⟨hconnected, hsettled⟩ := And.intro h.grounded.sound.tied.connected h.grounded.queued.settled
  have hpopped : d.popped = d.client.commands.head? := if_pos hholding
  cases heffect with
  | @command command rest hdraining hcommands =>
    have hactivity : (processCommand { d.client with commands := rest } command).activity = .draining :=
      (processCommand_activity (c := { d.client with commands := rest }) hconnected hsettled
        command).trans hdraining
    have hclosed := (acts_processCommand { d.client with commands := rest } command).absorbs rfl
    have hleft := processCommand_commands { d.client with commands := rest } command
    have hordered := h.ordered
    have hcomplete := h.complete
    rw [hcommands] at hpopped hordered hcomplete
    have hmoved : d.executed ++ d.popped.toList ++ rest = d.executed ++ command :: rest := by
      rw [hpopped, List.append_assoc]
      rfl
    refine ⟨⟨hgrounded, by simp, fun _ _ => Or.inr hactivity, ?_, fun hopen => ?_⟩, hactivity⟩
    · rw [← hmoved] at hordered
      rcases hleft with hsame | ⟨hcleared, -⟩
      · exact hsame ▸ hordered
      · refine List.Sublist.trans ?_ hordered
        exact hcleared ▸ (List.Sublist.refl _).append (List.nil_sublist _)
    · rcases hleft with hsame | ⟨-, hclosed'⟩
      · have hwas : ¬d.client.wasClosed := fun hwas => hopen <| hwas.imp
          (fun hstate => (hclosed.closed hstate).1) (hclosed.clean.trans_ne ·)
        have hkept := congrArg (d.executed ++ d.popped.toList ++ ·) hsame
        exact hkept.trans (hmoved.trans (hcomplete hwas))
      · exact absurd (Or.inl hclosed') hopen

/-- A push puts its command at the end, and wakes the event loop when it is alone. -/
theorem enqueue_cases (c : Client) (p : Push) (waiting : ℕ) :
    ((c.enqueue p waiting).commands = c.commands ∧ (c.enqueue p waiting).async = c.async ∧
        c.commandLimit ≤ waiting) ∨
      ((c.enqueue p waiting).commands = c.commands ++ [p.command] ∧
        (c.enqueue p waiting).async = (c.async || waiting = 0) ∧ ¬c.commandLimit ≤ waiting) := by
  unfold enqueue
  by_cases hfull : c.commandLimit ≤ waiting
  · rw [if_pos hfull]
    refine Or.inl ⟨?_, ?_, hfull⟩
    · split <;> rfl
    · split <;> rfl
  · rw [if_neg hfull]
    have hcommands : ∀ c : Client, (c.endPush p).commands = c.commands := fun c => by
      unfold endPush
      split
      · exact congrArg Backlog.commands (onTx_backlog _ _ _)
      · rfl
    refine Or.inr ⟨?_, ?_, hfull⟩
    · rw [hcommands]
      split <;> rfl
    · rw [(acts_endPush _ p).async rfl]
      by_cases hfirst : waiting = 0
      · simp [hfirst]
      · rw [if_neg (by omega)]
        simp [hfirst]

/-- A push adds its command behind those that wait. -/
theorem Flowing.pushLocked (h : d.Flowing) {n : ℕ} {p : Push}
    (hp : d.client.pushes[n]? = some p) :
    (d.pushLocked n p).Flowing ∧ (d.pushLocked n p).client.activity = d.client.activity := by
  have hlink := (acts_pushEnqueued d.client n p d.queue.length).link rfl
  have hactivity : (d.pushLocked n p).client.activity = d.client.activity := enqueue_activity _ p _
  have hstate : (d.pushLocked n p).client.state = d.client.state := state_of_link hlink
  have hwas : (d.pushLocked n p).client.wasClosed ↔ d.client.wasClosed := by
    have hmarks : (d.pushLocked n p).client.afterClosed = d.client.afterClosed :=
      afterClosed_of_link hlink
    rw [wasClosed, wasClosed, hstate, hmarks]
  have hwakes := h.wakes
  rw [← hstate, ← hactivity] at hwakes
  refine ⟨?_, hactivity⟩
  rcases enqueue_cases { d.client with pushes := d.client.pushes.eraseIdx n } p d.queue.length with
    ⟨hcommands, hasync, hfull⟩ | ⟨hcommands, hasync, hroom⟩
  · have hcommands : (d.pushLocked n p).client.commands = d.client.commands := hcommands
    have hqueue : (d.pushLocked n p).queue = d.queue := by
      unfold queue
      rw [hcommands]
      rfl
    have hasync : (d.pushLocked n p).client.async = d.client.async := hasync
    have hpushed : (d.pushLocked n p).pushed = d.pushed := if_pos hfull
    refine ⟨grounded_enqueue h.grounded hp _, fun hholding => ?_, ?_, ?_, fun hopen => ?_⟩
    · rw [hactivity, hcommands]
      exact h.holds hholding
    · rw [hqueue, hasync]
      exact hwakes
    · rw [hcommands, hpushed]
      exact h.ordered
    · rw [hcommands, hpushed]
      exact h.complete (hwas.not.mp hopen)
  · have hcommands : (d.pushLocked n p).client.commands = d.client.commands ++ [p.command] := hcommands
    have hasync : (d.pushLocked n p).client.async = (d.client.async || d.queue.length = 0) := hasync
    have hpushed : (d.pushLocked n p).pushed = d.pushed ++ [p.command] := if_neg hroom
    refine ⟨grounded_enqueue h.grounded hp _, fun hholding => ?_, fun hgoes _ => ?_, ?_,
      fun hopen => ?_⟩
    · rw [hactivity, hcommands]
      exact ⟨(h.holds hholding).1, by simp⟩
    · rw [hasync]
      by_cases hempty : d.queue = []
      · simp [hempty]
      · exact (hwakes hgoes hempty).imp_left fun hpending => by simp [hpending]
    · rw [hcommands, hpushed, ← List.append_assoc]
      exact h.ordered.append (List.Sublist.refl _)
    · have hkept := h.complete (hwas.not.mp hopen)
      rw [hcommands, hpushed, ← List.append_assoc]
      exact congrArg (· ++ [p.command]) hkept

/-- Any other step. -/
theorem Flowing.other (h : d.Flowing) {e : Event} {c : Client} (hcommand : e ≠ .command)
    (hpush : ∀ n, e ≠ .pushLocked n) (huser : d.holding = true → e.ofUser = true)
    (hstep : d.client.step globMatch e = some c) :
    Flowing { d with client := c } ∧
      (d.client.activity = .draining → d.queue ≠ [] → c.activity = .draining) := by
  have hgrounded := grounded_step h.grounded hstep
  obtain ⟨c₁, hraw, heffect, rfl⟩ := step_raw hstep
  by_cases hcalled : e.ofUser = true
  · obtain ⟨hcommands, hactivity, hlink⟩ := user_effect hcalled hpush heffect
    have hasync : c₁.async = d.client.async :=
      effect_async (by rintro rfl; cases hcalled) hpush heffect
    have hcommands : c₁.reap.commands = d.client.commands := hcommands
    have hwas : c₁.reap.wasClosed ↔ d.client.wasClosed := by
      have hstate : c₁.reap.state = d.client.state := state_of_link hlink
      have hmarks : c₁.reap.afterClosed = d.client.afterClosed := afterClosed_of_link hlink
      rw [wasClosed, wasClosed, hstate, hmarks]
    have hqueue : queue { d with client := c₁.reap } = d.queue := by
      unfold queue
      rw [hcommands]
    refine ⟨⟨hgrounded, fun hholding => ?_, fun hgoes hmore => ?_, ?_, fun hopen => ?_⟩,
      fun hdraining _ => hactivity.trans hdraining⟩
    · exact ⟨hactivity.trans (h.holds hholding).1, hcommands.trans_ne (h.holds hholding).2⟩
    · rw [hqueue] at hmore
      have hbefore : d.client.state ≠ .closed ∨ d.client.activity.connection ≠ none :=
        hgoes.imp ((state_of_link hlink).symm.trans_ne ·)
          ((congrArg Activity.connection hactivity).symm.trans_ne ·)
      exact (h.wakes hbefore hmore).imp hasync.trans hactivity.trans
    · exact hcommands ▸ h.ordered
    · exact hcommands ▸ h.complete (hwas.not.mp hopen)
  · have hcalled : e.ofUser = false := by simpa using hcalled
    have hfree : d.holding = false := by
      by_contra hholding
      rw [huser (by simpa using hholding)] at hcalled
      cases hcalled
    have htraffic : e.traffic = false := by
      cases e <;> first | rfl | exact absurd rfl hcommand | cases hcalled
    have hspares : Spares d.client c₁ := spares_effect h.grounded.ended htraffic heffect
    have hqueue : ∀ c : Client, queue { d with client := c } = c.commands := fun c => by
      simp [queue, hfree]
    have hleft : c₁.reap.commands = d.client.commands ∨
        c₁.reap.commands = [] ∧ c₁.reap.wasClosed :=
      hspares.commands.imp_right fun hcleared => ⟨hcleared.1, hcleared.2.wasClosed⟩
    refine ⟨⟨hgrounded, fun hholding => ?_, fun hgoes hmore => ?_, ?_, fun hopen => ?_⟩,
      fun hdraining hmore => ?_⟩
    · rw [hfree] at hholding
      cases hholding
    · rw [hqueue] at hmore
      have hsame := hleft.resolve_right fun hcleared => hmore hcleared.1
      rw [hsame] at hmore
      have hheard : c₁.async = true ∨ c₁.activity = .draining :=
        wakes_effect h.grounded.sound h.grounded.shut hcommand hcalled hmore hraw heffect
          (fun hbefore => h.wakes hbefore ((hqueue d.client).trans_ne hmore)) hgoes
      exact hheard
    · rcases hleft with hsame | ⟨hcleared, -⟩
      · exact hsame ▸ h.ordered
      · refine List.Sublist.trans ?_ h.ordered
        exact hcleared ▸ (List.Sublist.refl _).append (List.nil_sublist _)
    · rcases hleft with hsame | ⟨-, hclosed⟩
      · exact hsame ▸ h.complete fun hwas => hopen (hspares.wasClosed hwas)
      · exact absurd hclosed hopen
    · have hloop : c₁.activity = .draining := draining_effect h.grounded.sound hcommand hcalled
        hdraining (commands_ne_nil hmore) hraw heffect
      exact hloop

/-- Every step keeps the invariant, and `process_commands` stays in its loop while there are
commands. -/
theorem flowing_step {e : DrainEvent} (h : d.Flowing) (hstep : d.step globMatch e = some d') :
    d'.Flowing ∧ (d.client.activity = .draining → d.queue ≠ [] → d'.client.activity = .draining) := by
  cases step_effect hstep with
  | pop hdraining _ hcommands => exact ⟨h.pop hdraining hcommands, fun _ _ => hdraining⟩
  | execute hholding hc => exact (h.execute hholding hc).imp_right fun hloop _ _ => hloop
  | pushLocked hp =>
    exact (h.pushLocked hp).imp_right fun hactivity hdraining _ => hactivity.trans hdraining
  | other hcommand hpush huser hc => exact h.other hcommand hpush huser hc

/-- A new client has no commands. -/
theorem flowing_create (user password : Bytes) (maxActiveTxs rev0 servers : ℕ) (hasReactor : Bool) :
    Flowing { client := Client.create user password maxActiveTxs rev0 servers hasReactor } where
  grounded := grounded_create _ _ _ _ _ _
  holds := by simp
  wakes _ hqueue := absurd rfl hqueue
  ordered := .refl _
  complete _ := rfl

/-- The loop of `process_commands` can go on. -/
theorem exists_turn (hdraining : d.client.activity = .draining)
    (hqueue : d.queue ≠ []) :
    ∃ d', d.step globMatch (if d.holding then .execute else .pop) = some d' := by
  have hcommands := commands_ne_nil hqueue
  cases hholding : d.holding with
  | false => exact ⟨_, if_pos ⟨hdraining, hholding, hcommands⟩⟩
  | true =>
    obtain ⟨command, rest, hrest⟩ := List.exists_cons_of_ne_nil hcommands
    have hraw : d.client.stepRaw globMatch .command =
        some (processCommand { d.client with commands := rest } command) := by
      simp [stepRaw, hdraining, hrest]
    simp [step, hholding, Client.step, hdraining, hraw]

/-- A step of the client, where nothing is popped. -/
theorem run_of_step {c c' : Client} {e : Event} (hstep : c.step globMatch e = some c')
    (pushed executed : List Command) : ∃ (events : List DrainEvent) (pushed' executed' : List Command),
      Run (step globMatch) anyStep ⟨c, false, pushed, executed⟩ events
        ⟨c', false, pushed', executed'⟩ := by
  by_cases hcommand : e = .command
  · subst hcommand
    obtain ⟨c₁, -, heffect, -⟩ := step_raw hstep
    cases heffect with
    | @command command rest hdraining hcommands =>
      have hpop : step globMatch ⟨c, false, pushed, executed⟩ .pop =
          some ⟨c, true, pushed, executed⟩ := if_pos ⟨hdraining, rfl, by simp [hcommands]⟩
      have hexecute : step globMatch ⟨c, true, pushed, executed⟩ .execute =
          some ⟨c', false, pushed, executed ++ (popped ⟨c, true, pushed, executed⟩).toList⟩ := by
        simp only [step, if_true, hstep]
        rfl
      exact ⟨_, _, _, .cons trivial hpop (.cons trivial hexecute (.nil _))⟩
  by_cases hpush : ∃ n, e = .pushLocked n
  · obtain ⟨n, rfl⟩ := hpush
    obtain ⟨hcrashed, c₁, heffect, rfl⟩ := Client.step_effect hstep
    cases heffect with
    | @pushLocked _ p hp hchecked =>
      have hpushed : step globMatch ⟨c, false, pushed, executed⟩ (.other (.pushLocked n)) =
          some (Drain.pushLocked ⟨c, false, pushed, executed⟩ n p) := by
        simp only [step, hp]
        exact if_pos ⟨hchecked, hcrashed⟩
      exact ⟨_, _, _, .cons trivial hpushed (.nil _)⟩
  · refine ⟨[.other e], pushed, executed, .cons trivial ?_ (.nil _)⟩
    have hother : step globMatch ⟨c, false, pushed, executed⟩ (.other e) =
        (c.step globMatch e).map fun c => ⟨c, false, pushed, executed⟩ := by
      cases e with
      | command => exact absurd rfl hcommand
      | pushLocked n => exact absurd ⟨n, rfl⟩ hpush
      | _ => rfl
    rw [hother, hstep]
    rfl

/-- Every run of the client is one of the finer system. -/
theorem run_of_client {c c' : Client} {events : List Event}
    (hrun : Run (Client.step globMatch) anyStep c events c') (pushed executed : List Command) :
    ∃ (events : List DrainEvent) (pushed' executed' : List Command),
      Run (step globMatch) anyStep ⟨c, false, pushed, executed⟩ events
        ⟨c', false, pushed', executed'⟩ := by
  induction hrun generalizing pushed executed with
  | nil => exact ⟨[], pushed, executed, .nil _⟩
  | cons _ hstep _ ih =>
    obtain ⟨first, pushed₁, executed₁, hfirst⟩ := run_of_step hstep pushed executed
    obtain ⟨rest, pushed₂, executed₂, hrest⟩ := ih pushed₁ executed₁
    exact ⟨first ++ rest, pushed₂, executed₂, hfirst.append hrest⟩

/-- On every run, while the client is not CLOSED, a command in the queue has a wake-up pending or
`process_commands` in its loop, which it leaves only when the queue is empty. Commands are
executed in the order in which they were pushed, each at most once, and none is passed over
before the client is CLOSED. -/
theorem no_command_stranded (globMatch : Glob) (user password : Bytes)
    (maxActiveTxs rev0 servers : ℕ) (hasReactor : Bool) (events : List DrainEvent) (d : Drain)
    (hrun : Run (step globMatch) anyStep
      { client := Client.create user password maxActiveTxs rev0 servers hasReactor } events d) :
    (d.client.state ≠ .closed → d.queue ≠ [] →
      d.client.async = true ∨ d.client.activity = .draining) ∧
    (d.client.activity = .draining → d.queue ≠ [] →
      (∃ d', d.step globMatch (if d.holding then .execute else .pop) = some d') ∧
        ∀ (e : DrainEvent) (d' : Drain), d.step globMatch e = some d' →
          d'.client.activity = .draining) ∧
    (d.executed ++ d.popped.toList ++ d.queue).Sublist d.pushed ∧
    (¬d.client.wasClosed → d.executed ++ d.popped.toList ++ d.queue = d.pushed) := by
  have h : d.Flowing := hrun.invariant (fun _ _ _ _ hstep h => (flowing_step h hstep).1)
    (flowing_create _ _ _ _ _ _)
  have hcommands := popped_queue fun hholding => (h.holds hholding).2
  refine ⟨fun hopen => h.wakes (Or.inl hopen), fun hdraining hqueue => ⟨?_, ?_⟩, ?_, ?_⟩
  · exact exists_turn hdraining hqueue
  · exact fun e d' hstep => (flowing_step h hstep).2 hdraining hqueue
  · rw [List.append_assoc, hcommands]
    exact h.ordered
  · rw [List.append_assoc, hcommands]
    exact h.complete

/-- A second ping is pushed while the first one is executed: the queue is empty, and the event loop
is woken up once more. -/
theorem no_command_stranded_pushed_between : ∃ d : Drain,
    Run (step fun _ _ => true) anyStep { client := Client.create [1] [2] 0 0 1 false }
        [.other (.start none), .other (.ping [7]), .other (.pushCheck 0), .other (.pushLocked 0),
          .other .async, .pop, .other (.ping [8]), .other (.pushCheck 0), .other (.pushLocked 0),
          .execute] d ∧
      d.queue = [.request (.ping 1 [8])] ∧ d.client.async = true ∧
      d.executed ++ d.popped.toList ++ d.queue = d.pushed := by
  have hexec : (execute (step fun _ _ => true) (fun _ _ => true)
      { client := Client.create [1] [2] 0 0 1 false }
      [.other (.start none), .other (.ping [7]), .other (.pushCheck 0), .other (.pushLocked 0),
        .other .async, .pop, .other (.ping [8]), .other (.pushCheck 0), .other (.pushLocked 0),
        .execute]).map (fun d => (d.queue, d.client.async, d.client.state, d.client.afterClosed)) =
      some ([.request (.ping 1 [8])], true, .connecting, []) := by
    decide +kernel
  obtain ⟨d, hrun, hd⟩ := exists_run_of_execute (fun s e _ => (trivial : anyStep s e)) hexec
  simp only [Prod.mk.injEq] at hd
  obtain ⟨hqueue, hasync, hstate, hmarks⟩ := hd
  have hopen : ¬d.client.wasClosed := by simp [wasClosed, hstate, hmarks]
  exact ⟨d, hrun, hqueue, hasync, (no_command_stranded _ _ _ _ _ _ _ _ d hrun).2.2.2 hopen⟩

end Invariant

end Drain

end Nplex
