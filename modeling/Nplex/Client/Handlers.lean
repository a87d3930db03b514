import Nplex.Client.Actions

/-!
# The handlers as actions

The kinds of actions that each handler is made of. The results about what handlers keep are proved
for the actions, and hold of a handler by its list.
-/

namespace Nplex

namespace Client

section Handlers

variable {c c' : Client}

/-- A state that is set is the state. -/
@[simp] theorem setState_state (c : Client) (s : ClientState) : (c.setState s).state = s := by
  unfold setState
  split
  · assumption
  · dsimp only
    split <;> rfl

/-- A call of the reactor leaves the state alone. -/
theorem call_state (c : Client) (r : ReactorCall) : (c.call r).state = c.state :=
  (congrArg Client.state (call_fields c r)).trans rfl

/-- So does the load of a snapshot. -/
theorem loadSnapshot_state (c : Client) (snapshot : Option Snapshot) :
    (c.loadSnapshot snapshot).state = c.state :=
  (congrArg Client.state (loadSnapshot_fields c snapshot)).trans rfl

/-- A method of a transaction leaves the requests alone. -/
@[simp] theorem onTx_requests (c : Client) (t : ℕ)
    (f : Transaction → Transaction × Option TxError) : (c.onTx t f).requests = c.requests :=
  (congrArg Client.requests (onTx_fields c t f)).trans rfl

/-- It leaves the accepted submits alone. -/
@[simp] theorem onTx_accepted (c : Client) (t : ℕ)
    (f : Transaction → Transaction × Option TxError) : (c.onTx t f).accepted = c.accepted :=
  (congrArg Client.accepted (onTx_fields c t f)).trans rfl

/-- Cancelling a request that is dropped leaves the others. -/
@[simp] theorem cancel_requests (c : Client) (kind : RequestKind) :
    (c.cancel kind).requests = c.requests := by
  cases kind <;> simp [cancel]

/-- It leaves the accepted submits alone. -/
@[simp] theorem cancel_accepted (c : Client) (kind : RequestKind) :
    (c.cancel kind).accepted = c.accepted := by
  cases kind <;> simp [cancel]

/-- The handlers, with the kinds of actions that they are made of. -/
theorem acts_disconnectCon (c : Client) (cause : DisconnectCause) :
    Acts [.aside] c (c.disconnectCon cause) := by
  unfold disconnectCon
  split
  · exact .refl c
  · exact (aside_disconnect c _ cause).acts (by decide)

/-- The first loop of `cancel_requests` closes what awaits an answer. -/
theorem acts_cancelPending (requests : List Request) (c : Client)
    (h : requests.Sublist c.requests) : Acts [.aside, .settle] c (cancelPending requests c) := by
  induction requests generalizing c with
  | nil => exact .refl c
  | cons r rest ih =>
    have hrest : rest.Sublist c.requests := (List.sublist_cons_self r rest).trans h
    have hcancel : Acts [.aside, .settle] c (cancel { c with requests := rest } r.kind) ∧
        (cancel { c with requests := rest } r.kind).requests = rest := by
      cases hkind : r.kind with
      | submit t force =>
        have hawaits : c.awaits t :=
          Or.inl ⟨r, h.subset (by simp), by simp [hkind, RequestKind.submits]⟩
        exact ⟨(Action.settle c hrest (.refl _) hawaits (.setSubmitException _)).acts (by decide),
          onTx_requests _ _ _⟩
      | ping ticket payload =>
        have hdrop : Acts [.aside, .settle] c { c with requests := rest } :=
          (Action.drop c hrest (.refl _)).acts (by decide)
        exact ⟨hdrop.trans (Aside.acts (.of_central rfl rfl rfl rfl) (by decide)), rfl⟩
      | sessions ticket enableStream =>
        have hdrop : Acts [.aside, .settle] c { c with requests := rest } :=
          (Action.drop c hrest (.refl _)).acts (by decide)
        exact ⟨hdrop.trans (Aside.acts (.of_central rfl rfl rfl rfl) (by decide)), rfl⟩
    exact hcancel.1.trans (.andThen (ih _ (by rw [hcancel.2])))

/-- So does the second one. -/
theorem acts_cancelAccepted (accepted : List Accepted) (c : Client)
    (h : accepted.Sublist c.accepted) : Acts [.settle] c (cancelAccepted accepted c) := by
  induction accepted generalizing c with
  | nil => exact .refl c
  | cons a rest ih =>
    have hawaits : c.awaits a.tx := Or.inr ⟨a, h.subset (by simp), rfl⟩
    have hcancel : Acts [.settle] c (cancel { c with accepted := rest } (.submit a.tx false)) :=
      (Action.settle c (.refl _) ((List.sublist_cons_self a rest).trans h) hawaits
        (.setSubmitException _)).acts (by decide)
    refine hcancel.trans (.andThen (ih _ ?_))
    rw [cancel_accepted]

/-- `cancel_requests` closes what awaits an answer and drops the rest. -/
theorem acts_cancelRequests (c : Client) : Acts [.aside, .settle] c c.cancelRequests :=
  (acts_cancelPending _ _ (.refl _)).trans
    (.andThen ((acts_cancelAccepted _ _ (.refl _)).mono (by decide)))

/-- A connection that is established sends a login, or is one too many. -/
theorem acts_onConnectionEstablished (c : Client) (i : ℕ) :
    Acts [.aside, .login] c (c.onConnectionEstablished i) := by
  unfold onConnectionEstablished
  split
  · exact (aside_disconnect c i _).acts (by decide)
  · exact (Action.login c i).acts (by decide)

/-- The session ends, then its requests are cancelled. -/
theorem acts_loseSession (hopen : c.state ≠ .closed) :
    Acts [.aside, .settle, .leave] c c.loseSession :=
  ((Action.leave c hopen).acts (by decide)).trans ((acts_cancelRequests _).mono (by decide))

/-- A connection that closes ends its session, reconnects or closes the client. -/
theorem acts_onConnectionClosed (c : Client) (i : ℕ) (delay : Option Int) (retry : Option Bool)
    (refused : Option ℕ) :
    Acts [.aside, .settle, .leave, .connect, .close, .timer, .stop] c
      (c.onConnectionClosed i delay retry refused) := by
  unfold onConnectionClosed
  split
  · exact .refl c
  · next hopen =>
    have hopen : c.state ≠ .closed := by simpa [isClosed] using hopen
    split
    · split
      · exact (Action.close c).acts (by decide)
      · exact (Action.reconnect c).acts (by decide)
    · split
      · exact .refl c
      · refine ((acts_loseSession hopen).mono (by decide)).trans (.andThen ?_)
        refine ((Action.stopTimer _).acts (by decide)).trans ?_
        split
        · exact (Action.connect _ refused).acts (by decide)
        · exact (Action.close _).acts (by decide)

/-- A session whose timer expires is disconnected. -/
theorem acts_onConnectionLost (c : Client) : Acts [.aside, .stop] c c.onConnectionLost :=
  ((acts_disconnectCon c .conLost).mono (by decide)).trans ((Action.stopTimer _).acts (by decide))

/-- A command without a session is refused, any other one sends its request. -/
theorem acts_processRequest {kinds : List ActionKind} {k : ActionKind} {kind : RequestKind}
    {refuse : Client → Client} {msg : ℕ → ClientMsg} (hk : k ∈ kinds)
    (hrefuse : Acts kinds c (refuse c)) (hrequest : c.Requests k kind msg) :
    Acts kinds c (c.processRequest kind refuse msg) := by
  unfold processRequest
  split
  · exact hrefuse
  · next hcon => exact (Action.request c hcon hrequest).acts hk

/-- A submit command is sent or refused. -/
theorem acts_processSubmitCmd (c : Client) (t : ℕ) (force : Bool) :
    Acts [.submit] c (c.processSubmitCmd t force) := by
  unfold processSubmitCmd
  split
  · exact .refl c
  · next cell hcell =>
    exact acts_processRequest (by decide) ((Action.refuse c t).acts (by decide))
      (.submit t force hcell)

/-- A ping command is sent or refused. -/
theorem acts_processPingCmd (c : Client) (ticket : ℕ) (payload : Bytes) :
    Acts [.aside, .ask] c (c.processPingCmd ticket payload) :=
  acts_processRequest (by decide) (Aside.acts (.of_central rfl rfl rfl rfl) (by decide))
    (.ping ticket payload)

/-- So is a sessions command. -/
theorem acts_processSessionsCmd (c : Client) (ticket : ℕ) (enableStream : Bool) :
    Acts [.aside, .ask] c (c.processSessionsCmd ticket enableStream) :=
  acts_processRequest (by decide) (Aside.acts (.of_central rfl rfl rfl rfl) (by decide))
    (.sessions ticket enableStream)

/-- A command other than close. -/
theorem acts_processCommand_request (c : Client) (kind : RequestKind) :
    Acts [.aside, .ask, .submit] c (c.processCommand (.request kind)) := by
  cases kind with
  | submit t force => exact (acts_processSubmitCmd c t force).mono (by decide)
  | ping ticket payload => exact (acts_processPingCmd c ticket payload).mono (by decide)
  | sessions ticket enableStream =>
    exact (acts_processSessionsCmd c ticket enableStream).mono (by decide)

/-- A command asks for something or closes the client. -/
theorem acts_processCommand (c : Client) (command : Command) :
    Acts [.aside, .ask, .submit, .close] c (c.processCommand command) := by
  cases command with
  | close => exact (Action.close c).acts (by decide)
  | request kind => exact (acts_processCommand_request c kind).mono (by decide)

/-- The updates are asked for from the state SYNCING, however it is set. -/
theorem acts_requestUpdates {kinds : List ActionKind} (rev : ℕ)
    (hstate : Acts kinds c (c.setState .syncing)) (hfetch : .fetch ∈ kinds) :
    Acts kinds c (c.requestUpdates rev) :=
  hstate.trans ((Action.fetch _ (.updates rev)).acts hfetch)

/-- The request that begins a session. -/
theorem acts_requestData (c : Client) (resp : LoginResponse) :
    Acts [.revive, .fetch] c
      (if c.initialized then c.requestUpdates c.store.rev
        else if c.rev0 = 0 then c.requestUpdates 0 else c.requestSnapshot (c.snapshotRev resp)) := by
  have hupdates : ∀ rev, Acts [.revive, .fetch] c (c.requestUpdates rev) := fun rev =>
    acts_requestUpdates rev ((Action.revive c rfl (by simp)).acts (by decide)) (by decide)
  split
  · exact hupdates _
  · next hinitialized =>
    split
    · exact hupdates _
    · have hset : Acts [.revive, .fetch] c (c.setState .loadingSnapshot) :=
        Action.acts (.revive c rfl fun _ => by simpa using hinitialized) (by decide)
      exact hset.trans ((Action.fetch _ (.snapshot _)).acts (by decide))

/-- The session starts its timer, drops the other connections and asks for the data. -/
theorem acts_startSession (c : Client) (resp : LoginResponse) :
    Acts [.aside, .revive, .fetch] c (c.startSession resp) := by
  unfold startSession
  refine ((Action.startTimer c resp.keepalive).acts (by decide)).trans ?_
  refine ((aside_disconnectOthers _ (c.startTimerConLost resp.keepalive).con
    .alreadyConnected).acts (by decide)).trans ?_
  exact (acts_requestData _ resp).mono (by decide)

/-- A login response is refused, or starts the session even if the manager throws. -/
theorem acts_processLoginResp (c : Client) (i : ℕ) (resp : LoginResponse) (throws : Bool) :
    Acts [.aside, .join, .close, .revive, .fetch] c (c.processLoginResp i resp throws) := by
  unfold processLoginResp
  split
  · exact (aside_disconnect c i _).acts (by decide)
  · split
    · exact (aside_disconnect c i _).acts (by decide)
    · split
      · exact (aside_disconnect c i _).acts (by decide)
      · refine ((Action.join c i resp).acts (by decide)).trans ?_
        refine Acts.trans ?_ ((acts_startSession _ resp).mono (by decide))
        split
        · exact (Action.close _).acts (by decide)
        · exact .refl _

/-- A load changes the store, and may throw. -/
theorem acts_loadSnapshot (c : Client) (snapshot : Option Snapshot) :
    Acts [.aside, .data] c (c.loadSnapshot snapshot) := by
  unfold loadSnapshot
  split
  · exact .refl c
  · split
    · next store _ => exact (Action.load c store c.initialized).acts (by decide)
    · next store _ _ =>
      exact ((Action.load c store c.initialized).acts (by decide)).trans
        ((aside_throw _).acts (by decide))

/-- After the snapshot the updates are asked for. -/
theorem acts_finishSnapshot (hopen : c.state ≠ .closed) :
    Acts [.data, .state, .fetch] c c.finishSnapshot := by
  have hset : Acts [.data, .state, .fetch] { c with initialized := true }
      (setState { c with initialized := true } .initialized) :=
    Action.acts (.setState _ hopen rfl (by simp)) (by decide)
  unfold finishSnapshot
  refine ((Action.load c c.store true).acts (by decide)).trans (hset.trans ?_)
  exact acts_requestUpdates _ ((Action.setState _ (by simp) rfl (by simp)).acts (by decide)) (by decide)

/-- A snapshot response is refused, or loaded and told to the reactor. -/
theorem acts_processSnapshotResp (c : Client) (resp : SnapshotResponse) (throws : Bool) :
    Acts [.aside, .data, .state, .fetch, .close] c (c.processSnapshotResp resp throws) := by
  unfold processSnapshotResp
  split
  · exact (acts_disconnectCon c _).mono (by decide)
  · next hguard =>
    have hloading : c.state = .loadingSnapshot := not_not.mp fun hne => hguard (Or.inl hne)
    split
    · exact (acts_disconnectCon c _).mono (by decide)
    · refine ((acts_loadSnapshot c _).mono (by decide)).trans (.andThen ?_)
      refine ((Action.tell _ .initialData).acts (by decide)).trans ?_
      dsimp only
      split
      · exact ((acts_disconnectCon _ _).mono (by decide)).trans ((Action.close _).acts (by decide))
      · refine (acts_finishSnapshot ?_).mono (by decide)
        rw [call_state, loadSnapshot_state, hloading]
        simp

/-- A client without a snapshot is initialized by its first response. -/
theorem acts_installRev (hopen : c.state ≠ .closed) (crev : ℕ) :
    Acts [.data, .state] c (c.installRev crev) := by
  unfold installRev
  split
  · have hset : Acts [.data, .state]
        { c with store := { c.store with rev := crev }, initialized := true }
        (setState { c with store := { c.store with rev := crev }, initialized := true }
          .initialized) := Action.acts (.setState _ hopen rfl (by simp)) (by decide)
    exact ((Action.load c { c.store with rev := crev } true).acts (by decide)).trans hset
  · exact .refl c

/-- That does not close it. -/
theorem installRev_open (hopen : c.state ≠ .closed) (crev : ℕ) :
    (c.installRev crev).state ≠ .closed := by
  unfold installRev
  split
  · simp
  · exact hopen

/-- An updates response is refused, or may bring the client to SYNCED. -/
theorem acts_processUpdatesResp (c : Client) (resp : UpdatesResponse) :
    Acts [.aside, .data, .state] c (c.processUpdatesResp resp) := by
  unfold processUpdatesResp
  split
  · exact (acts_disconnectCon c _).mono (by decide)
  · next hguard =>
    have hsyncing : c.state = .syncing := not_not.mp fun hne => hguard (Or.inl hne)
    have hopen : c.state ≠ .closed := by simp [hsyncing]
    split
    · exact (acts_disconnectCon c _).mono (by decide)
    · refine ((acts_installRev hopen resp.crev).mono (by decide)).trans ?_
      dsimp only
      split
      · exact (Action.setState _ (installRev_open hopen _) rfl (by simp)).acts (by decide)
      · exact .refl _

/-- The accepted transactions of passed revisions are closed. -/
theorem acts_discardAccepted (rev : ℕ) (accepted : List Accepted) (c : Client)
    (h : accepted.Sublist c.accepted) : Acts [.settle] c (discardAccepted rev accepted c) := by
  induction accepted generalizing c with
  | nil => exact .refl c
  | cons a rest ih =>
    unfold discardAccepted
    split
    · have hawaits : c.awaits a.tx := Or.inr ⟨a, h.subset (by simp), rfl⟩
      refine ((Action.settle c (.refl _) ((List.sublist_cons_self a rest).trans h) hawaits
        (.setSubmitException .unexpectedUpdate)).acts (by decide)).trans (.andThen (ih _ ?_))
      rw [onTx_accepted]
    · exact .refl c

/-- That of the revision is committed. -/
theorem acts_confirmAccepted (rev : ℕ) (c : Client) : Acts [.settle] c (confirmAccepted rev c) := by
  unfold confirmAccepted
  split
  · exact .refl c
  · next a rest haccepted =>
    split
    · have hawaits : c.awaits a.tx := Or.inr ⟨a, by simp [haccepted], rfl⟩
      exact (Action.settle c (.refl _) (haccepted ▸ List.sublist_cons_self a rest) hawaits
        .confirmCommit).acts (by decide)
    · exact .refl c

/-- A commit changes the store, the transactions and then the reactor. -/
theorem acts_processUpdate (globMatch : Glob) (c : Client) (u : Update) :
    Acts [.aside, .settle, .data] c (c.processUpdate globMatch u) := by
  unfold processUpdate
  split
  · next store _ _ =>
    exact ((Action.load c store c.initialized).acts (by decide)).trans ((aside_throw _).acts (by decide))
  · next store changes m _ =>
    refine ((Action.load c store c.initialized).acts (by decide)).trans ?_
    refine ((acts_discardAccepted m.rev _ _ (.refl _)).mono (by decide)).trans (.andThen ?_)
    refine ((Action.deliver globMatch changes _).acts (by decide)).trans ?_
    refine ((acts_confirmAccepted _ _).mono (by decide)).trans (.andThen ?_)
    exact (Action.tell _ _).acts (by decide)

/-- The last commit of a push may bring the client to SYNCED. -/
theorem acts_pushUpdate (globMatch : Glob) (c : Client) (crev : ℕ) (u : Update) :
    Acts [.aside, .settle, .data, .state] c (c.pushUpdate globMatch crev u) := by
  refine ((acts_processUpdate globMatch c u).mono (by decide)).trans (.andThen ?_)
  split
  · next hsyncing =>
    exact (Action.setState _ (by simp [hsyncing.1]) rfl (by simp)).acts (by decide)
  · exact .refl _

/-- A push is refused, or its loop begins. -/
theorem acts_processUpdatesPush (c : Client) (i : ℕ) (resp : UpdatesPush) :
    Acts [.aside, .turn] c (c.processUpdatesPush i resp) := by
  unfold processUpdatesPush
  split
  · exact (acts_disconnectCon c _).mono (by decide)
  · split
    · exact .refl c
    · exact (Action.turn c _).acts (by decide)

/-- A submit response skips older requests and answers its own. -/
theorem acts_processSubmitResp (c : Client) (resp : SubmitResponse) :
    Acts [.aside, .settle, .answer] c (c.processSubmitResp resp) := by
  have hleft := List.dropWhile_sublist (l := c.requests) fun r => r.cid < resp.cid
  have hdrop : ∀ {rest : List Request}, rest.Sublist c.requests →
      Acts [.aside, .settle, .answer] c { c with requests := rest } :=
    fun hrest => (Action.drop c hrest (.refl _)).acts (by decide)
  unfold processSubmitResp
  split
  · exact hdrop (List.nil_sublist _)
  · next r rest hrest =>
    rw [hrest] at hleft
    split
    · exact hdrop hleft
    · have hpop := hdrop ((List.sublist_cons_self r rest).trans hleft)
      dsimp only
      split
      · next t force hkind =>
        have hsubmits : r.kind.submits t = true := by simp [hkind, RequestKind.submits]
        exact (Action.answer c hleft hsubmits resp).acts (by decide)
      · exact hpop.trans ((aside_crash _).acts (by decide))
      · exact hpop.trans ((aside_crash _).acts (by decide))

/-- The request in front of the queue is taken. -/
theorem acts_pop {kinds : List ActionKind} {r : Request} {rest : List Request}
    (hrequests : c.requests = r :: rest) (hk : .settle ∈ kinds) :
    Acts kinds c { c with requests := rest } :=
  (Action.drop c (hrequests ▸ List.sublist_cons_self r rest) (.refl _)).acts hk

/-- A ping response takes the front of the queue. -/
theorem acts_processPingResp (c : Client) (cid : ℕ) :
    Acts [.aside, .settle] c (c.processPingResp cid) := by
  unfold processPingResp
  split
  · exact .refl c
  · next r rest hrequests =>
    split
    · exact .refl c
    · refine (acts_pop hrequests (by decide)).trans ?_
      dsimp only
      split
      · exact Aside.acts (.of_central rfl rfl rfl rfl) (by decide)
      · exact (aside_crash _).acts (by decide)
      · exact (aside_crash _).acts (by decide)

/-- So does a sessions response. -/
theorem acts_processSessionsResp (c : Client) (cid : ℕ) (complete : Bool) :
    Acts [.aside, .settle] c (c.processSessionsResp cid complete) := by
  unfold processSessionsResp
  split
  · exact .refl c
  · next r rest hrequests =>
    split
    · exact .refl c
    · refine (acts_pop hrequests (by decide)).trans ?_
      dsimp only
      split
      · split
        · exact (acts_disconnectCon _ _).mono (by decide)
        · refine Acts.trans ?_ ((aside_call _ rfl).acts (by decide))
          exact Aside.acts (.of_central rfl rfl rfl rfl) (by decide)
      · exact (acts_disconnectCon _ _).mono (by decide)
      · exact (acts_disconnectCon _ _).mono (by decide)

/-- A push about sessions is refused or told to the reactor. -/
theorem acts_processSessionsPush (c : Client) (cid : ℕ) (complete : Bool) :
    Acts [.aside] c (c.processSessionsPush cid complete) := by
  unfold processSessionsPush
  split
  · exact acts_disconnectCon c _
  · split
    · exact acts_disconnectCon c _
    · exact (aside_call c rfl).acts (by decide)

/-- A message leads to actions of some kinds, where the login response, the response to a submit and
the UPDATES_PUSH do. -/
theorem acts_onMsgReceived_of {kinds : List ActionKind} (c : Client) (i : ℕ) (msg : Option ServerMsg)
    (throws : Bool) (hkinds : ∀ k ∈ [ActionKind.aside, .settle, .data, .state, .fetch, .close], k ∈ kinds)
    (hlogin : ∀ resp, msg = some (.loginResponse resp) →
      Acts kinds c (c.processLoginResp i resp throws))
    (hanswer : ∀ resp, msg = some (.submitResponse resp) → Acts kinds c (c.processSubmitResp resp))
    (hpush : ∀ resp, msg = some (.updatesPush resp) → Acts kinds c (c.processUpdatesPush i resp)) :
    Acts kinds c (c.onMsgReceived i msg throws) := by
  have hdisconnect : ∀ cause, Acts kinds c (c.disconnect i cause) := fun cause =>
    (aside_disconnect c i cause).acts (hkinds _ (by decide))
  unfold onMsgReceived
  split
  · exact hdisconnect _
  · next resp => exact hlogin resp rfl
  · split
    · exact hdisconnect _
    · split
      · next resp _ => exact hanswer resp rfl
      · exact ((acts_processSnapshotResp c _ throws).mono (by decide)).mono hkinds
      · exact ((acts_processUpdatesResp c _).mono (by decide)).mono hkinds
      · next resp _ => exact hpush resp rfl
      · exact .refl c
      · exact ((acts_processPingResp c _).mono (by decide)).mono hkinds
      · exact ((acts_processSessionsResp c _ _).mono (by decide)).mono hkinds
      · exact ((acts_processSessionsPush c _ _).mono (by decide)).mono hkinds
      · exact hdisconnect _
      · exact hdisconnect _

/-- A message is refused, or given to its handler. -/
theorem acts_onMsgReceived (c : Client) (i : ℕ) (msg : Option ServerMsg) (throws : Bool) :
    Acts [.aside, .settle, .answer, .data, .state, .fetch, .close, .turn, .join, .revive] c
      (c.onMsgReceived i msg throws) :=
  acts_onMsgReceived_of c i msg throws (by decide)
    (fun resp _ => (acts_processLoginResp c i resp throws).mono (by decide))
    (fun resp _ => (acts_processSubmitResp c resp).mono (by decide))
    fun resp _ => (acts_processUpdatesPush c i resp).mono (by decide)

/-- A message that is not a login response leads to actions of a session. -/
theorem acts_onMsgReceived_of_session (c : Client) (i : ℕ) {msg : Option ServerMsg} (throws : Bool)
    (hlogin : ∀ resp, msg ≠ some (.loginResponse resp)) :
    Acts [.aside, .settle, .answer, .data, .state, .fetch, .close, .turn] c
      (c.onMsgReceived i msg throws) :=
  acts_onMsgReceived_of c i msg throws (by decide) (fun resp hresp => absurd hresp (hlogin resp))
    (fun resp _ => (acts_processSubmitResp c resp).mono (by decide))
    fun resp _ => (acts_processUpdatesPush c i resp).mono (by decide)

/-- `run` closes the client, cancels the requests and disconnects on its way out. -/
theorem acts_unwindRun (c : Client) : Acts [.aside, .settle, .shut, .turn] c c.unwindRun := by
  unfold unwindRun
  refine ((Action.shut c).acts (by decide)).trans ?_
  refine ((acts_cancelRequests _).mono (by decide)).trans ?_
  refine Acts.trans (.andThen ?_) ((Action.turn _ .idle).acts (by decide))
  exact (aside_disconnectAll _ _).acts (by decide)

/-- The push of a submit ends by taking its future. -/
theorem acts_endPush (c : Client) (p : Push) : Acts [.take] c (c.endPush p) := by
  unfold endPush
  split
  · exact (Action.takeFuture c _).acts (by decide)
  · exact .refl c

/-- A push is refused, or adds its command and wakes the event loop. -/
theorem acts_enqueue (c : Client) (p : Push) (waiting : ℕ) :
    Acts [.queue, .wake, .take] c (c.enqueue p waiting) := by
  unfold enqueue
  split
  · split
    · exact (Action.wake c c.async true).acts (by decide)
    · exact .refl c
  · have hqueue : Acts [.queue, .wake, .take] c { c with commands := c.commands ++ [p.command] } :=
      (Action.queue c c.pushes _ c.tickets).acts (by decide)
    refine (hqueue.trans ?_).trans ((acts_endPush _ p).mono (by decide))
    dsimp only
    split
    · exact Action.acts (.wake _ true c.stopping) (by decide)
    · exact .refl _

/-- The next command leaves the queue. -/
theorem acts_nextCommand (c : Client) (command : Command) (rest : List Command) :
    Acts [.aside, .ask, .submit, .close, .queue] c
      (processCommand { c with commands := rest } command) :=
  ((Action.queue c c.pushes rest c.tickets).acts (by decide)).trans
    ((acts_processCommand _ command).mono (by decide))

/-- The loop over the commands takes one and sends it. -/
theorem acts_nextRequest (c : Client) (kind : RequestKind) (rest : List Command) :
    Acts [.aside, .ask, .submit, .queue] c
      (processCommand { c with commands := rest } (.request kind)) :=
  ((Action.queue c c.pushes rest c.tickets).acts (by decide)).trans
    ((acts_processCommand_request _ kind).mono (by decide))

/-- A ping that a callback sends itself. -/
theorem acts_loopPing (c : Client) (payload : Bytes) :
    Acts [.aside, .ask, .queue] c
      (processPingCmd { c with tickets := c.tickets + 1 } c.tickets payload) :=
  ((Action.queue c c.pushes c.commands _).acts (by decide)).trans
    ((acts_processPingCmd _ _ payload).mono (by decide))

/-- `fetch_sessions` on the thread of the event loop. -/
theorem acts_loopFetchSessions (c : Client) (enableStream : Bool) :
    Acts [.aside, .ask, .queue] c
      (processSessionsCmd { c with tickets := c.tickets + 1 } c.tickets enableStream) :=
  ((Action.queue c c.pushes c.commands _).acts (by decide)).trans
    ((acts_processSessionsCmd _ _ enableStream).mono (by decide))

/-- A push that finds the client CLOSED is over. -/
theorem acts_pushClosed (c : Client) (n : ℕ) (p : Push) :
    Acts [.queue, .take] c (endPush { c with pushes := c.pushes.eraseIdx n } p) :=
  ((Action.queue c _ c.commands c.tickets).acts (by decide)).trans
    ((acts_endPush _ p).mono (by decide))

/-- A push that has the mutex is over. -/
theorem acts_pushEnqueued (c : Client) (n : ℕ) (p : Push) (waiting : ℕ) :
    Acts [.queue, .wake, .take] c (enqueue { c with pushes := c.pushes.eraseIdx n } p waiting) :=
  ((Action.queue c _ c.commands c.tickets).acts (by decide)).trans (acts_enqueue _ p waiting)

/-- The locked part of `push_command` takes the push. -/
theorem acts_pushEnded (c : Client) (n : ℕ) (p : Push) :
    Acts [.queue, .wake, .take] c (pushLocked { c with pushes := c.pushes.eraseIdx n } p) :=
  acts_pushEnqueued c n p _

end Handlers

end Client

end Nplex
