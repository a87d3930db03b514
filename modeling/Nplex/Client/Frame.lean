import Nplex.Client.Handlers

/-!
# What the handlers leave alone

The life of the client, its state, session, connections, timers and phase, is the work of a few
handlers. All the others, those about requests, transactions and the store, leave it as it is.
Disconnecting counts as leaving it: a connection keeps its state until its close callback.
-/

namespace Nplex

/-- The fields that the life of the client is about. -/
structure Link where
  state : ClientState
  con : Option ℕ
  connections : List ConnectionState
  timerConLost : Bool
  timerReconnect : Bool
  phase : Phase
  afterClosed : List Write

/-- The actions that are not about the life of the client. -/
def ActionKind.keepsLink : ActionKind → Bool
  | .aside | .settle | .ask | .submit | .answer | .login | .data | .fetch | .turn | .queue | .wake
  | .take => true
  | .state | .revive | .join | .close | .leave | .connect | .timer | .stop | .shut => false

/-- The actions after which the event loop goes on with what it was doing. -/
def ActionKind.keepsActivity : ActionKind → Bool
  | .turn | .shut => false
  | _ => true

/-- The connection whose messages are being processed. -/
def Activity.connection : Activity → Option ℕ
  | .reading i | .pushing i _ _ => some i
  | .idle | .draining | .thrown | .crashed => none

namespace Client

/-- The life of the client. -/
def link (c : Client) : Link :=
  { state := c.state
    con := c.con
    connections := c.connections.map (·.state)
    timerConLost := c.timerConLost
    timerReconnect := c.timerReconnect
    phase := c.phase
    afterClosed := c.afterClosed }

section Projections

variable {c c' : Client}

/-- The state is part of the life of the client. -/
theorem state_of_link (h : c'.link = c.link) : c'.state = c.state := congrArg Link.state h

/-- So is the session. -/
theorem con_of_link (h : c'.link = c.link) : c'.con = c.con := congrArg Link.con h

/-- So are the states of the connections. -/
theorem connections_of_link (h : c'.link = c.link) :
    c'.connections.map (·.state) = c.connections.map (·.state) := congrArg Link.connections h

/-- So is the reconnection timer. -/
theorem timerReconnect_of_link (h : c'.link = c.link) : c'.timerReconnect = c.timerReconnect :=
  congrArg Link.timerReconnect h

/-- So is where `run` is. -/
theorem phase_of_link (h : c'.link = c.link) : c'.phase = c.phase := congrArg Link.phase h

/-- So are the writes made while CLOSED. -/
theorem afterClosed_of_link (h : c'.link = c.link) : c'.afterClosed = c.afterClosed :=
  congrArg Link.afterClosed h

end Projections

variable (c : Client)

/-- A call of the reactor leaves the life of the client alone. -/
@[simp] theorem call_link (r : ReactorCall) : (c.call r).link = c.link :=
  (congrArg Client.link (call_fields c r)).trans rfl

/-- So does a method of a transaction. -/
@[simp] theorem onTx_link (t : ℕ) (f : Transaction → Transaction × Option TxError) :
    (c.onTx t f).link = c.link :=
  (congrArg Client.link (onTx_fields c t f)).trans rfl

/-- What is aside leaves the life of the client alone. -/
theorem Aside.link {c c' : Client} (h : Aside c c') : c'.link = c.link := by
  have hlink : c'.central.link = c.central.link := congrArg Client.link h.central
  have hstates := h.states
  simp only [Client.link, Link.mk.injEq] at hlink ⊢
  exact ⟨hlink.1, hlink.2.1, hstates, hlink.2.2.2⟩

/-- So does disconnecting, until the close callback. -/
@[simp] theorem disconnect_link (i : ℕ) (cause : DisconnectCause) :
    (c.disconnect i cause).link = c.link := (aside_disconnect c i cause).link

/-- So does disconnecting all the connections. -/
@[simp] theorem disconnectAll_link (cause : DisconnectCause) :
    (c.disconnectAll cause).link = c.link := (aside_disconnectAll c cause).link

/-- So does sending. -/
@[simp] theorem sendOn_link (i : ℕ) (msg : ClientMsg) : (c.sendOn i msg).link = c.link :=
  (congrArg Client.link (sendOn_fields c i msg)).trans rfl

/-- So does sending on the connection of the session. -/
@[simp] theorem send_link (msg : ClientMsg) : (c.send msg).link = c.link :=
  (congrArg Client.link (send_fields c msg)).trans rfl

/-- So does the delivery of changes. -/
@[simp] theorem deliver_link (globMatch : Glob) (changes : List Change) :
    (deliver globMatch changes c).link = c.link :=
  (congrArg Client.link (deliver_fields c globMatch changes)).trans rfl

/-- So does a request. -/
@[simp] theorem sendRequest_link (kind : RequestKind) (msg : ℕ → ClientMsg) :
    (c.sendRequest kind msg).link = c.link :=
  (congrArg Client.link (sendRequest_fields c kind msg)).trans rfl

/-- So does the response to a submit. -/
@[simp] theorem answerSubmit_link (t : ℕ) (resp : SubmitResponse) :
    (c.answerSubmit t resp).link = c.link :=
  (congrArg Client.link (answerSubmit_fields c t resp)).trans rfl

/-- Most actions leave the life of the client alone. -/
theorem Action.link {k : ActionKind} {c c' : Client} (h : Action k c c')
    (hk : k.keepsLink = true) : c'.link = c.link := by
  cases h with
  | aside h => exact h.link
  | drop => rfl
  | settle => exact onTx_link _ _ _
  | deliver => exact deliver_link _ _ _
  | request => exact sendRequest_link _ _ _
  | refuse => exact onTx_link _ _ _
  | answer => exact answerSubmit_link _ _ _
  | login => exact sendOn_link _ _ _
  | load => rfl
  | tell => exact call_link _ _
  | fetch => exact send_link _ _
  | turn => rfl
  | queue => rfl
  | wake => rfl
  | takeFuture => exact onTx_link _ _ _
  | _ => cases hk

/-- A handler made of such actions leaves the life of the client alone. -/
theorem Acts.link {kinds : List ActionKind} {c c' : Client} (h : Acts kinds c c')
    (hkinds : kinds.all ActionKind.keepsLink = true) : c'.link = c.link :=
  h.frame (R := fun c c' => c'.link = c.link) hkinds (fun _ => rfl) (fun h h' => h'.trans h)
    Action.link

/-- A submit on a user's thread leaves the life of the client alone. -/
@[simp] theorem submitTx_link (t : ℕ) (cell : TxCell) (force : Bool) :
    (c.submitTx t cell force).link = c.link :=
  (congrArg Client.link (submitTx_fields c t cell force)).trans rfl

/-- So does a new transaction. -/
@[simp] theorem createTx_link (isolation : Isolation) (readOnly : Bool) :
    (c.createTx isolation readOnly).link = c.link :=
  (congrArg Client.link (createTx_fields c isolation readOnly)).trans rfl

/-- So does destroying the transactions without references. -/
@[simp] theorem reap_link : c.reap.link = c.link := rfl

/-- The event loop goes on with what it was doing, unless the handler ends it. -/
def Keeps (c c' : Client) : Prop := c'.activity = c.activity ∨ c'.broken = true

section Keeps

variable {c}

/-- Doing nothing lets the event loop go on. -/
theorem Keeps.refl (c : Client) : Keeps c c := Or.inl rfl

/-- Handlers let the event loop go on one after the other. -/
theorem Keeps.trans {c' c'' : Client} (h : Keeps c c') (h' : Keeps c' c'') : Keeps c c'' := by
  rcases h' with h' | h'
  · rcases h with h | h
    · exact Or.inl (h'.trans h)
    · refine Or.inr ?_
      rw [broken, h']
      exact h
  · exact Or.inr h'

/-- What was done before did not touch the activity. -/
theorem Keeps.after {c' c₀ : Client} (h : Keeps c c') (hsame : c.activity = c₀.activity) :
    Keeps c₀ c' := by
  unfold Keeps
  rw [← hsame]
  exact h

/-- Going on lets the event loop go on if what follows does. -/
theorem Keeps.andThen {f : Client → Client} (h : Keeps c (f c)) : Keeps c (c.andThen f) := by
  unfold Client.andThen
  split
  · exact .refl c
  · exact h

/-- A method of a transaction lets the event loop go on, unless it throws. -/
theorem keeps_onTx (c : Client) (t : ℕ) (f : Transaction → Transaction × Option TxError) :
    Keeps c (c.onTx t f) := by
  unfold onTx
  split
  · exact .refl c
  · dsimp only
    split
    · exact Or.inr rfl
    · exact Or.inl rfl

/-- So does sending. -/
theorem keeps_sendOn (c : Client) (i : ℕ) (msg : ClientMsg) : Keeps c (c.sendOn i msg) := by
  unfold sendOn
  split
  · exact .refl c
  · split
    · exact Or.inr rfl
    · exact Or.inl rfl

/-- Aborting lets the event loop go on. -/
theorem keeps_abort (c : Client) : Keeps c c.abort :=
  Or.inl ((congrArg Client.activity (abort_fields c)).trans rfl)

/-- So does trying to connect, unless libuv refuses. -/
theorem keeps_tryToConnect (c : Client) (refused : Option ℕ) : Keeps c (c.tryToConnect refused) := by
  unfold tryToConnect
  split
  · exact .refl c
  · dsimp only
    split
    · exact Or.inr rfl
    · exact Or.inl ((congrArg activity (setState_fields _ .connecting)).trans rfl)

/-- So does sending on the connection of the session. -/
theorem keeps_send (c : Client) (msg : ClientMsg) : Keeps c (c.send msg) := by
  unfold send
  split
  · exact .refl c
  · split
    · exact .refl c
    · exact keeps_sendOn c _ msg

/-- So does a request. -/
theorem keeps_sendRequest (c : Client) (kind : RequestKind) (msg : ℕ → ClientMsg) :
    Keeps c (c.sendRequest kind msg) := by
  have hsend := keeps_send { c with correlation := c.correlation + 1 } (msg c.correlation)
  exact (Keeps.after hsend rfl).trans (.andThen (Or.inl rfl))

/-- So does the response to a submit. -/
theorem keeps_answerSubmit (c : Client) (t : ℕ) (resp : SubmitResponse) :
    Keeps c (c.answerSubmit t resp) := by
  refine (keeps_onTx c t _).trans (.andThen ?_)
  split <;> exact Or.inl rfl

/-- Only a turn to something else does not let the event loop go on. -/
theorem Action.keeps {k : ActionKind} {c c' : Client} (h : Action k c c')
    (hk : k.keepsActivity = true) : Keeps c c' := by
  cases h with
  | aside h => exact h.activity
  | drop => exact Or.inl rfl
  | settle => exact Keeps.after (keeps_onTx _ _ _) rfl
  | deliver => exact Or.inl ((congrArg activity (deliver_fields c _ _)).trans rfl)
  | request => exact keeps_sendRequest _ _ _
  | refuse => exact keeps_onTx _ _ _
  | answer => exact Keeps.after (keeps_answerSubmit _ _ _) rfl
  | login => exact Keeps.after (keeps_sendOn _ _ _) rfl
  | load => exact Or.inl rfl
  | tell => exact Or.inl ((congrArg activity (call_fields c _)).trans rfl)
  | setState => exact Or.inl ((congrArg activity (setState_fields c _)).trans rfl)
  | revive => exact Or.inl ((congrArg activity (setState_fields c _)).trans rfl)
  | startTimer => exact Or.inl ((congrArg activity (startTimerConLost_fields c _)).trans rfl)
  | fetch => exact Keeps.after (keeps_send _ _) rfl
  | join => exact Or.inl ((congrArg activity (acceptLogin_fields c _ _)).trans rfl)
  | close => exact keeps_abort _
  | leave => exact Or.inl ((congrArg activity (setState_fields c .offline)).trans rfl)
  | connect => exact keeps_tryToConnect _ _
  | reconnect => exact Or.inl ((congrArg activity (scheduleReconnect_fields c)).trans rfl)
  | stopTimer => exact Or.inl rfl
  | queue => exact Or.inl rfl
  | wake => exact Or.inl rfl
  | takeFuture => exact keeps_onTx _ _ _
  | _ => cases hk

/-- A handler without a turn lets the event loop go on. -/
theorem Acts.keeps {kinds : List ActionKind} {c c' : Client} (h : Acts kinds c c')
    (hkinds : kinds.all ActionKind.keepsActivity = true) : Keeps c c' :=
  h.frame hkinds .refl .trans Action.keeps

/-- A message other than an UPDATES_PUSH lets the event loop go on. -/
theorem keeps_onMsgReceived (c : Client) (i : ℕ) {msg : Option ServerMsg} (throws : Bool)
    (hpush : ∀ resp, msg ≠ some (.updatesPush resp)) : Keeps c (c.onMsgReceived i msg throws) :=
  have hacts : Acts [.aside, .settle, .answer, .data, .state, .fetch, .close, .join, .revive] c
      (c.onMsgReceived i msg throws) :=
    acts_onMsgReceived_of c i msg throws (by decide)
      (fun resp _ => (acts_processLoginResp c i resp throws).mono (by decide))
      (fun resp _ => (acts_processSubmitResp c resp).mono (by decide))
      fun resp hresp => absurd hresp (hpush resp)
  hacts.keeps rfl

/-- A message leaves the loop over the messages of its connection, or that over the updates it
brings, unless it ends the event loop. -/
theorem connection_onMsgReceived {i : ℕ} (hreading : c.activity = .reading i)
    (msg : Option ServerMsg) (throws : Bool) {j : ℕ}
    (hj : (c.onMsgReceived i msg throws).activity.connection = some j) : j = i := by
  have hkeeps : ∀ {c' : Client}, Keeps c c' → c'.activity.connection = some j → j = i := by
    rintro c' (hsame | hbroken) h
    · rw [hsame, hreading] at h
      exact (Option.some.inj h).symm
    · simp only [broken, Bool.or_eq_true, decide_eq_true_eq] at hbroken
      rcases hbroken with h' | h' <;> simp [h', Activity.connection] at h
  by_cases hpush : ∃ resp, msg = some (.updatesPush resp)
  · obtain ⟨resp, rfl⟩ := hpush
    change (if c.con ≠ some i then c.disconnect i .alreadyConnected
      else c.processUpdatesPush i resp).activity.connection = some j at hj
    unfold processUpdatesPush at hj
    split_ifs at hj
    · exact hkeeps (Or.inl rfl) hj
    · exact hkeeps ((acts_disconnectCon c _).keeps rfl) hj
    · exact hkeeps (.refl c) hj
    · exact (Option.some.inj hj).symm
  · exact hkeeps (keeps_onMsgReceived c i throws fun resp hresp => hpush ⟨resp, hresp⟩) hj

end Keeps

end Client

end Nplex
