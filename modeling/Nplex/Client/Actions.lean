import Mathlib.Logic.Relation
import Nplex.Client.Fields

/-!
# What the handlers are made of

A handler is a sequence of actions of a few kinds: it calls methods of transactions and shortens the
queues that refer to them, sends a request, disconnects connections, sets a state, calls the reactor.
The actions of each handler are listed once here. What a kind of action keeps, every handler made
of such kinds keeps.
-/

namespace Nplex

/-- The states of a client with a session. -/
def ClientState.inSession : ClientState → Bool
  | .authenticated | .loadingSnapshot | .initialized | .syncing | .synced => true
  | .offline | .connecting | .closed => false

/-- The methods that handlers call on a transaction without answering its request. -/
inductive Transaction.Closing : (Transaction → Transaction × Option TxError) → Prop
  | setSubmitException (e : TxException) : Closing (·.setSubmitException e)
  | confirmCommit : Closing (·.confirmCommit)
  | discard : Closing fun tx => (tx.discard, none)

/-- The calls of the reactor about sessions. -/
def ReactorCall.aboutSessions : ReactorCall → Bool
  | .initialSessions | .eventSession => true
  | .initialData | .eventData _ _ => false

/-- The kinds of actions. -/
inductive ActionKind
  /-- Nothing that the life of the client, its queues or its data depend on. -/
  | aside
  /-- Queues get shorter, and transactions whose answer is awaited are closed. -/
  | settle
  /-- A ping or sessions request is sent. -/
  | ask
  /-- A submit is sent or refused. -/
  | submit
  /-- The response to a submit. -/
  | answer
  /-- A login is sent. -/
  | login
  /-- The store changes, or the reactor is told about the data. -/
  | data
  /-- A state of a session is set, of a client that is not CLOSED. -/
  | state
  /-- A state of a session is set or its timer started, whether or not the client is CLOSED. -/
  | revive
  /-- The request for the snapshot or the updates is sent. -/
  | fetch
  /-- A connection is taken for the session. -/
  | join
  /-- The client is closed. -/
  | close
  /-- The session is lost. -/
  | leave
  | connect
  /-- The reconnection timer is started. -/
  | timer
  /-- The connection-lost timer is stopped. -/
  | stop
  /-- The event loop turns to something else. -/
  | turn
  /-- `run` closes the client on its way out. -/
  | shut
  /-- The queues of the pushes and the commands change. -/
  | queue
  /-- The event loop is woken up or stopped. -/
  | wake
  /-- A future is taken. -/
  | take
  deriving DecidableEq

namespace Client

/-- The answer to a submit of the transaction, or its commit, is to come. -/
def awaits (c : Client) (t : ℕ) : Prop :=
  (∃ r ∈ c.requests, r.kind.submits t = true) ∨ ∃ a ∈ c.accepted, a.tx = t

/-- The connections that are closing still are. -/
def KeepsClosing (c c' : Client) : Prop :=
  ∀ (j : ℕ) (con : Connection), c.connections[j]? = some con → con.closing = true →
    ∃ con' : Connection, c'.connections[j]? = some con' ∧ con'.closing = true

/-- The client without what is aside of it. -/
def central (c : Client) : Client :=
  { c with activity := .idle, connections := [], sessionsCid := 0, replies := [], calls := [] }

/-- An action aside: it may end the event loop, begin to close connections, reply to a ping or
sessions request, and tell the reactor about sessions. -/
structure Aside (c c' : Client) : Prop where
  central : c'.central = c.central
  activity : c'.activity = c.activity ∨ c'.broken = true
  states : c'.connections.map (·.state) = c.connections.map (·.state)
  closing : KeepsClosing c c'
  calls : c'.calls = c.calls ∨ ∃ r : ReactorCall, r.aboutSessions = true ∧ c'.calls = c.calls ++ [r]

/-- The part of `process_submit_cmd` and its siblings for a client with a session. -/
def sendRequest (c : Client) (kind : RequestKind) (msg : ℕ → ClientMsg) : Client :=
  (({ c with correlation := c.correlation + 1 } : Client).send (msg c.correlation)).andThen fun c' =>
    { c' with requests := c'.requests ++ [⟨c.correlation, kind⟩] }

/-- The part of `process_submit_resp` for the transaction of the request. -/
def answerSubmit (c : Client) (t : ℕ) (resp : SubmitResponse) : Client :=
  (c.onTx t (·.setSubmitResult resp.code)).andThen fun c =>
    if resp.code = .accepted then { c with accepted := c.accepted ++ [⟨t, resp.erev⟩] } else c

/-- A request is sent and waits for its answer. -/
theorem sendRequest_fields (c : Client) (kind : RequestKind) (msg : ℕ → ClientMsg) :
    c.sendRequest kind msg =
      { c with
        correlation := (c.sendRequest kind msg).correlation
        requests := (c.sendRequest kind msg).requests
        sent := (c.sendRequest kind msg).sent
        misdirected := (c.sendRequest kind msg).misdirected
        activity := (c.sendRequest kind msg).activity } := by
  unfold sendRequest andThen
  split
  all_goals rw [send_fields]

/-- The response to a submit changes its transaction, which may wait for its commit. -/
theorem answerSubmit_fields (c : Client) (t : ℕ) (resp : SubmitResponse) :
    c.answerSubmit t resp =
      { c with
        txs := (c.answerSubmit t resp).txs
        accepted := (c.answerSubmit t resp).accepted
        activity := (c.answerSubmit t resp).activity } := by
  unfold answerSubmit andThen
  split
  · rw [onTx_fields]
  · dsimp only
    split <;> rw [onTx_fields]

/-- The request of a command and its message. -/
inductive Requests (c : Client) : ActionKind → RequestKind → (ℕ → ClientMsg) → Prop
  | submit (t : ℕ) (force : Bool) {cell : TxCell} (hcell : c.txs[t]? = some cell) :
      Requests c .submit (.submit t force) fun cid =>
        .submit (createSubmitMsg cid c.store.rev force cell.tx)
  | ping (ticket : ℕ) (payload : Bytes) :
      Requests c .ask (.ping ticket payload) fun cid => .ping cid payload
  | sessions (ticket : ℕ) (enableStream : Bool) :
      Requests c .ask (.sessions ticket enableStream) fun cid => .sessions cid enableStream

/-- The request for the updates after a revision, or for the snapshot at one. -/
inductive Fetches (cid : ℕ) : ClientMsg → Prop
  | updates (rev : ℕ) : Fetches cid (.updates cid rev)
  | snapshot (rev : ℕ) : Fetches cid (.snapshot cid rev)

/-- The actions of each kind. -/
inductive Action : ActionKind → Client → Client → Prop
  | aside {c c' : Client} (h : Aside c c') : Action .aside c c'
  | drop (c : Client) {requests : List Request} {accepted : List Accepted}
      (hrequests : requests.Sublist c.requests) (haccepted : accepted.Sublist c.accepted) :
      Action .settle c { c with requests := requests, accepted := accepted }
  | settle (c : Client) {requests : List Request} {accepted : List Accepted}
      (hrequests : requests.Sublist c.requests) (haccepted : accepted.Sublist c.accepted) {t : ℕ}
      (hawaits : c.awaits t) {f : Transaction → Transaction × Option TxError}
      (hf : Transaction.Closing f) :
      Action .settle c ({ c with requests := requests, accepted := accepted }.onTx t f)
  | deliver (globMatch : Glob) (changes : List Change) (c : Client) :
      Action .settle c (deliver globMatch changes c)
  | request (c : Client) (hcon : c.con ≠ none) {k : ActionKind} {kind : RequestKind}
      {msg : ℕ → ClientMsg} (h : c.Requests k kind msg) : Action k c (c.sendRequest kind msg)
  | refuse (c : Client) (t : ℕ) : Action .submit c (c.onTx t (·.setSubmitException .notConnected))
  | answer (c : Client) {r : Request} {rest : List Request} (hrest : (r :: rest).Sublist c.requests)
      {t : ℕ} (hsubmits : r.kind.submits t = true) (resp : SubmitResponse) :
      Action .answer c ({ c with requests := rest }.answerSubmit t resp)
  | login (c : Client) (i : ℕ) :
      Action .login c (({ c with correlation := c.correlation + 1 } : Client).sendOn i
        (.login (c.correlation + 1) c.user c.password))
  | load (c : Client) (store : Store) (initialized : Bool) :
      Action .data c { c with store := store, initialized := initialized }
  | tell (c : Client) (r : ReactorCall) : Action .data c (c.call r)
  | setState (c : Client) {s : ClientState} (hopen : c.state ≠ .closed) (hs : s.inSession = true)
      (hloading : s = .loadingSnapshot → c.initialized = false) : Action .state c (c.setState s)
  | revive (c : Client) {s : ClientState} (hs : s.inSession = true)
      (hloading : s = .loadingSnapshot → c.initialized = false) : Action .revive c (c.setState s)
  | startTimer (c : Client) (keepalive : ℕ) : Action .revive c (c.startTimerConLost keepalive)
  | fetch (c : Client) {msg : ClientMsg} (h : Fetches c.correlation msg) :
      Action .fetch c
        (({ c with dataCid := c.correlation, correlation := c.correlation + 1 } : Client).send msg)
  | join (c : Client) (i : ℕ) (resp : LoginResponse) : Action .join c (c.acceptLogin i resp)
  | close (c : Client) : Action .close c c.abort
  | leave (c : Client) (hopen : c.state ≠ .closed) :
      Action .leave c { c.setState .offline with con := none, dataCid := 0, sessionsCid := 0 }
  | connect (c : Client) (refused : Option ℕ) : Action .connect c (c.tryToConnect refused)
  | reconnect (c : Client) : Action .timer c c.scheduleReconnect
  | stopTimer (c : Client) : Action .stop c { c with timerConLost := false }
  | turn (c : Client) (activity : Activity) : Action .turn c { c with activity := activity }
  | shut (c : Client) :
      Action .shut c (({ c with phase := .unwinding, activity := .idle } : Client).setState .closed)
  | queue (c : Client) (pushes : List Push) (commands : List Command) (tickets : ℕ) :
      Action .queue c { c with pushes := pushes, commands := commands, tickets := tickets }
  | wake (c : Client) (async stopping : Bool) :
      Action .wake c { c with async := async, stopping := stopping }
  | takeFuture (c : Client) (t : ℕ) : Action .take c (c.onTx t fun tx => (tx.takeFuture, none))

/-- The second client is reached from the first one by actions of some kinds. -/
def Acts (kinds : List ActionKind) : Client → Client → Prop :=
  Relation.ReflTransGen fun c c' => ∃ k ∈ kinds, Action k c c'

section Relations

variable {kinds kinds' : List ActionKind} {c c' c'' : Client}

/-- No action is a sequence of actions of any kinds. -/
theorem Acts.refl (c : Client) : Acts kinds c c := Relation.ReflTransGen.refl

/-- Actions follow one another. -/
theorem Acts.trans (h : Acts kinds c c') (h' : Acts kinds c' c'') : Acts kinds c c'' :=
  Relation.ReflTransGen.trans h h'

/-- Actions of some kinds are actions of more kinds. -/
theorem Acts.mono (h : Acts kinds c c') (hkinds : ∀ k ∈ kinds, k ∈ kinds') : Acts kinds' c c' := by
  induction h with
  | refl => exact .refl c
  | tail _ hlast ih =>
    obtain ⟨k, hk, hlast⟩ := hlast
    exact ih.trans (Relation.ReflTransGen.single ⟨k, hkinds k hk, hlast⟩)

/-- One action is a sequence of them. -/
theorem Action.acts {k : ActionKind} (h : Action k c c') (hk : k ∈ kinds) : Acts kinds c c' :=
  Relation.ReflTransGen.single ⟨k, hk, h⟩

/-- The frame rule: what every action of the kinds that are allowed keeps, is kept by what is made of
such kinds. -/
theorem Acts.frame {R : Client → Client → Prop} {p : ActionKind → Bool} (h : Acts kinds c c')
    (hkinds : kinds.all p = true) (hrefl : ∀ c, R c c)
    (htrans : ∀ {c c' c''}, R c c' → R c' c'' → R c c'')
    (hact : ∀ {k c c'}, Action k c c' → p k = true → R c c') : R c c' := by
  induction h with
  | refl => exact hrefl c
  | tail _ hlast ih =>
    obtain ⟨k, hk, hlast⟩ := hlast
    exact htrans ih (hact hlast (List.all_eq_true.mp hkinds k hk))

/-- Going on. -/
theorem Acts.andThen {f : Client → Client} (h : Acts kinds c (f c)) : Acts kinds c (c.andThen f) := by
  unfold Client.andThen
  split
  · exact .refl c
  · exact h

end Relations

section Asides

variable {c c' : Client}

/-- Disconnecting keeps a connection closing. -/
theorem disconnect_closing (con : Connection) (cause : DisconnectCause) (h : con.closing = true) :
    (con.disconnect cause).closing = true := by
  unfold Connection.disconnect
  split
  · exact h
  · rfl

/-- A change of what is replied, or of the cid of the sessions. -/
theorem Aside.of_central (h : c'.central = c.central) (hactivity : c'.activity = c.activity)
    (hconnections : c'.connections = c.connections) (hcalls : c'.calls = c.calls) : Aside c c' :=
  ⟨h, Or.inl hactivity, by rw [hconnections],
    fun _ con hcon hclosing => ⟨con, hconnections ▸ hcon, hclosing⟩, Or.inl hcalls⟩

/-- Connections that are told to disconnect, or left alone. -/
theorem aside_connections (c : Client) (f : ℕ → Connection → Connection)
    (hf : ∀ i con, f i con = con ∨ ∃ cause, f i con = con.disconnect cause) :
    Aside c { c with connections := c.connections.mapIdx f } := by
  refine ⟨rfl, Or.inl rfl, ?_, fun j con hcon hclosing => ?_, Or.inl rfl⟩
  · apply List.ext_getElem?
    intro j
    simp only [List.getElem?_map, List.getElem?_mapIdx]
    cases c.connections[j]? with
    | none => rfl
    | some con =>
      rcases hf j con with hsame | ⟨cause, hdisconnect⟩
      · simp [hsame]
      · simp [hdisconnect]
  · rw [List.getElem?_mapIdx, hcon, Option.map_some]
    rcases hf j con with hsame | ⟨cause, hdisconnect⟩
    · exact ⟨_, rfl, by rw [hsame, hclosing]⟩
    · exact ⟨_, rfl, by rw [hdisconnect, disconnect_closing con cause hclosing]⟩

/-- An exception ends the event loop. -/
theorem aside_throw (c : Client) : Aside c c.throw :=
  ⟨rfl, Or.inr rfl, rfl, fun _ con hcon hclosing => ⟨con, hcon, hclosing⟩, Or.inl rfl⟩

/-- So does undefined behaviour. -/
theorem aside_crash (c : Client) : Aside c c.crash :=
  ⟨rfl, Or.inr rfl, rfl, fun _ con hcon hclosing => ⟨con, hcon, hclosing⟩, Or.inl rfl⟩

/-- Disconnecting one connection is aside. -/
theorem aside_disconnect (c : Client) (i : ℕ) (cause : DisconnectCause) :
    Aside c (c.disconnect i cause) := by
  have hmodify : c.connections.modify i (·.disconnect cause) =
      c.connections.mapIdx fun j con => if i = j then con.disconnect cause else con := by
    apply List.ext_getElem?
    intro j
    simp only [List.getElem?_modify, List.getElem?_mapIdx]
    split
    · rfl
    · cases c.connections[j]? <;> rfl
  unfold disconnect
  rw [hmodify]
  refine aside_connections c _ fun j con => ?_
  split
  · exact Or.inr ⟨cause, rfl⟩
  · exact Or.inl rfl

/-- So is disconnecting all but that of the session. -/
theorem aside_disconnectOthers (c : Client) (con : Option ℕ) (cause : DisconnectCause) :
    Aside c (c.disconnectOthers con cause) := by
  refine aside_connections c _ fun j server => ?_
  split
  · exact Or.inl rfl
  · exact Or.inr ⟨cause, rfl⟩

/-- So is disconnecting all of them. -/
theorem aside_disconnectAll (c : Client) (cause : DisconnectCause) :
    Aside c (c.disconnectAll cause) := by
  have hmap : c.connections.map (·.disconnect cause) =
      c.connections.mapIdx fun _ con => con.disconnect cause := by
    apply List.ext_getElem?
    intro j
    simp
  unfold disconnectAll
  rw [hmap]
  exact aside_connections c _ fun j con => Or.inr ⟨cause, rfl⟩

/-- The reactor is told about sessions aside of the data. -/
theorem aside_call (c : Client) {r : ReactorCall} (hr : r.aboutSessions = true) :
    Aside c (c.call r) := by
  unfold call
  split
  · exact ⟨rfl, Or.inl rfl, rfl, fun _ con hcon hclosing => ⟨con, hcon, hclosing⟩, Or.inr ⟨r, hr, rfl⟩⟩
  · exact .of_central rfl rfl rfl rfl

/-- An action aside is one of a handler. -/
theorem Aside.acts {kinds : List ActionKind} (h : Aside c c') (hkinds : .aside ∈ kinds) :
    Acts kinds c c' := (Action.aside h).acts hkinds

end Asides

end Client

end Nplex
