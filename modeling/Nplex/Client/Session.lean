import Nplex.Client.Closed

/-!
# The live session

At most one connection carries the session of a client. `m_con`, the client state and the states
of the connections are set in different handlers, and a connection that was told to disconnect
still counts as connected until its close callback. The invariant below is what every handler
relies on: the session's connection is established and all the others are closed or closing.
-/

namespace Nplex

open Nplex.Common

/-- The actions that leave a session alone, end it, or set the states of one. -/
def ActionKind.stays : ActionKind → Bool
  | .login | .join | .leave | .connect | .timer | .shut => false
  | _ => true

namespace Client

/-- The connection is in state CONNECTED. -/
def connected (c : Client) (i : ℕ) : Prop :=
  ∃ con, c.connections[i]? = some con ∧ con.state = .connected

/-- All the connections are closed. -/
def allClosed (c : Client) : Prop := ∀ con ∈ c.connections, con.state = .closed

/-- The session's connection is established, and the others are closed or closing. -/
structure Tied (c : Client) : Prop where
  connected : ∀ i, c.con = some i → c.connected i
  others : ∀ (i j : ℕ) (con : Connection), c.con = some i → j ≠ i →
    c.connections[j]? = some con → con.state = .closed ∨ con.closing = true
  inSession : ∀ i, c.con = some i → c.state ≠ .closed → c.state.inSession = true

/-- The invariant of the session. -/
structure Sound (c : Client) : Prop where
  tied : c.Tied
  careful : c.misdirected = false
  /-- Before `run` nothing has happened. -/
  ready : c.phase = .ready → c.con = none ∧ c.timerReconnect = false
  busy : c.activity ≠ .idle → c.phase = .running
  reading : ∀ i, c.activity.connection = some i → c.connected i
  /-- A running client that is OFFLINE is on its way out. -/
  offline : c.phase = .running → c.state = .offline → c.broken = true
  free : c.phase = .running → c.state = .closed → c.con = none
  timer : c.timerReconnect = true → c.con = none ∧ c.allClosed ∧ c.state ≠ .offline

/-- What the handlers of messages and commands do to the session: they may end it, and set the
states of one. -/
structure Stays (c c' : Client) : Prop where
  phase : c'.phase = c.phase
  states : c'.connections.map (·.state) = c.connections.map (·.state)
  closing : KeepsClosing c c'
  timer : c'.timerReconnect = true → c.timerReconnect = true
  con : c'.con = c.con ∨ c'.con = none
  state : c'.state = c.state ∨ c'.state.inSession = true ∨ c'.state = .closed ∧ c'.con = none
  /-- Messages go to the session's connection only. -/
  careful : (∀ i, c.con = some i → c.connected i) → c'.misdirected = c.misdirected

section Handlers

variable {c c' c'' : Client}

/-- A connection has the same state where the lists of states agree. -/
theorem connected_congr (h : c'.connections.map (·.state) = c.connections.map (·.state)) (i : ℕ) :
    c'.connected i ↔ c.connected i := by
  have hget := congrArg (fun states : List ConnectionState => states[i]?) h
  simp only [List.getElem?_map] at hget
  unfold connected
  constructor
  · rintro ⟨con, hcon, hstate⟩
    rw [hcon, Option.map_some, hstate] at hget
    exact Option.map_eq_some_iff.mp hget.symm
  · rintro ⟨con, hcon, hstate⟩
    rw [hcon, Option.map_some, hstate] at hget
    exact Option.map_eq_some_iff.mp hget

/-- Whether all the connections are closed depends on their states. -/
theorem allClosed_congr (h : c'.connections.map (·.state) = c.connections.map (·.state)) :
    c'.allClosed ↔ c.allClosed := by
  have hall : ∀ c : Client, c.allClosed ↔ ∀ s ∈ c.connections.map (·.state), s = .closed := by
    simp [allClosed]
  rw [hall, hall, h]

/-- Doing nothing leaves the session as it is. -/
theorem Stays.refl (c : Client) : Stays c c :=
  ⟨rfl, rfl, fun _ con hcon hclosing => ⟨con, hcon, hclosing⟩, id, Or.inl rfl, Or.inl rfl,
    fun _ => rfl⟩

/-- Handlers leave the session as it is one after the other. -/
theorem Stays.trans (h : Stays c c') (h' : Stays c' c'') : Stays c c'' where
  phase := h'.phase.trans h.phase
  states := h'.states.trans h.states
  closing j con hcon hclosing := by
    obtain ⟨con', hcon', hclosing'⟩ := h.closing j con hcon hclosing
    exact h'.closing j con' hcon' hclosing'
  timer htimer := h.timer (h'.timer htimer)
  con := by
    rcases h'.con with hcon | hcon
    · rw [hcon]
      exact h.con
    · exact Or.inr hcon
  state := by
    rcases h'.state with hstate | hstate | hstate
    · rw [hstate]
      rcases h.state with hfirst | hfirst | ⟨hclosed, hnone⟩
      · exact Or.inl hfirst
      · exact Or.inr (Or.inl hfirst)
      · refine Or.inr (Or.inr ⟨hclosed, ?_⟩)
        rcases h'.con with hcon | hcon
        · exact hcon.trans hnone
        · exact hcon
    · exact Or.inr (Or.inl hstate)
    · exact Or.inr (Or.inr hstate)
  careful hconnected := by
    refine (h'.careful fun i hi => ?_).trans (h.careful hconnected)
    rw [connected_congr h.states]
    rcases h.con with hcon | hcon
    · exact hconnected i (hcon ▸ hi)
    · rw [hcon] at hi
      cases hi

/-- A handler that leaves the life of the client alone, and its connections but for closing them. -/
theorem Stays.of_link (h : c'.link = c.link)
    (hclosing : KeepsClosing c c')
    (hcareful : (∀ i, c.con = some i → c.connected i) → c'.misdirected = c.misdirected) :
    Stays c c' :=
  ⟨phase_of_link h, connections_of_link h, hclosing, fun htimer => timerReconnect_of_link h ▸ htimer,
    Or.inl (con_of_link h), Or.inl (state_of_link h), hcareful⟩

/-- A handler that leaves the life of the client and its connections alone. -/
theorem Stays.of_connections (h : c'.link = c.link) (hcons : c'.connections = c.connections)
    (hcareful : c'.misdirected = c.misdirected) : Stays c c' :=
  .of_link h (fun _ con hcon hclosing => ⟨con, hcons ▸ hcon, hclosing⟩) fun _ => hcareful

/-- What is done before leaves the life of the client and its connections alone. -/
theorem Stays.after {c₀ : Client} (h : Stays c c') (hlink : c.link = c₀.link)
    (hcons : c.connections = c₀.connections) (hcareful : c.misdirected = c₀.misdirected) :
    Stays c₀ c' :=
  (Stays.of_connections hlink hcons hcareful).trans h

/-- Going on leaves it as it is if what follows does. -/
theorem Stays.andThen {f : Client → Client} (h : Stays c (f c)) : Stays c (c.andThen f) := by
  unfold Client.andThen
  split
  · exact .refl c
  · exact h

/-- A disconnected connection is closed or closing. -/
theorem disconnect_closed_or_closing (con : Connection) (cause : DisconnectCause) :
    (con.disconnect cause).state = .closed ∨ (con.disconnect cause).closing = true := by
  unfold Connection.disconnect Connection.isClosed
  by_cases hclosed : con.state = .closed
  · left
    simp [hclosed]
  · right
    simp [hclosed]

/-- What is aside leaves the session alone. -/
theorem Aside.stays (h : Aside c c') : Stays c c' := by
  have hcareful : c'.central.misdirected = c.central.misdirected :=
    congrArg Client.misdirected h.central
  exact .of_link h.link h.closing fun _ => hcareful

/-- A method of a transaction is not about the session. -/
theorem stays_onTx (c : Client) (t : ℕ) (f : Transaction → Transaction × Option TxError) :
    Stays c (c.onTx t f) := by
  rw [onTx_fields]
  exact .of_connections rfl rfl rfl

/-- Nor is a call of the reactor. -/
theorem stays_call (c : Client) (r : ReactorCall) : Stays c (c.call r) := by
  rw [call_fields]
  exact .of_connections rfl rfl rfl

/-- Sending on the session's connection, or an established one, is careful. -/
theorem stays_sendOn {i : ℕ} (msg : ClientMsg) (hi : c.con = some i ∨ c.connected i) :
    Stays c (c.sendOn i msg) := by
  unfold sendOn
  split
  · exact .refl c
  · next con hcon =>
    split
    · next hstate =>
      refine .of_link rfl (fun _ con hcon hclosing => ⟨con, hcon, hclosing⟩) fun hconnected => ?_
      have hi' : c.connected i := hi.elim (hconnected i) id
      obtain ⟨con', hcon', hstate'⟩ := hi'
      rw [hcon] at hcon'
      obtain rfl := Option.some.inj hcon'
      exact absurd hstate' hstate
    · exact .of_connections rfl rfl rfl

/-- `send` gives the message to the session's established connection. -/
theorem send_of_session {i : ℕ} {con : Connection} (hcon : c.con = some i) (hopen : c.state ≠ .closed)
    (hget : c.connections[i]? = some con) (hconnected : con.state = .connected) (msg : ClientMsg) :
    c.send msg = { c with sent := c.sent ++ [(i, msg)] } := by
  simp [send, hcon, isClosed_eq_false.mpr hopen, sendOn, hget, hconnected]

/-- So is `send`. -/
theorem stays_send (c : Client) (msg : ClientMsg) : Stays c (c.send msg) := by
  unfold send
  split
  · exact .refl c
  · next i hcon =>
    split
    · exact .refl c
    · exact stays_sendOn msg (Or.inl hcon)

/-- So is a request. -/
theorem stays_sendRequest (c : Client) (kind : RequestKind) (msg : ℕ → ClientMsg) :
    Stays c (c.sendRequest kind msg) := by
  have hsend := stays_send { c with correlation := c.correlation + 1 } (msg c.correlation)
  refine Stays.trans (.after hsend rfl rfl rfl) ?_
  exact .andThen (.of_connections rfl rfl rfl)

/-- The response to a submit is not about the session. -/
theorem stays_answerSubmit (c : Client) (t : ℕ) (resp : SubmitResponse) :
    Stays c (c.answerSubmit t resp) := by
  refine (stays_onTx c t _).trans (.andThen ?_)
  split <;> exact .of_connections rfl rfl rfl

/-- What setting an open state leaves. -/
theorem setState_link {s : ClientState} (hs : s ≠ .closed) :
    (c.setState s).link = { c.link with
      state := s, afterClosed := (c.setState s).afterClosed } :=
  (congrArg Client.link (setState_open_fields c hs)).trans rfl

/-- Setting a state leaves the connections alone. -/
theorem setState_connections (c : Client) (s : ClientState) :
    (c.setState s).connections = c.connections :=
  (congrArg Client.connections (setState_fields c s)).trans rfl

/-- Setting a state sends nothing. -/
theorem setState_misdirected (c : Client) (s : ClientState) :
    (c.setState s).misdirected = c.misdirected :=
  (congrArg Client.misdirected (setState_fields c s)).trans rfl

/-- A state of the session leaves the connections as they are. -/
theorem stays_setState (c : Client) {s : ClientState} (hs : s.inSession = true) :
    Stays c (c.setState s) := by
  have hopen : s ≠ .closed := by
    rintro rfl
    cases hs
  have hlink := setState_link (c := c) hopen
  refine ⟨congrArg Link.phase hlink, congrArg Link.connections hlink, fun j con hcon hclosing => ?_,
    fun htimer => (congrArg Link.timerReconnect hlink).symm.trans htimer,
    Or.inl (congrArg Link.con hlink),
    Or.inr (Or.inl ?_), fun _ => setState_misdirected c s⟩
  · exact ⟨con, by rw [setState_connections, hcon], hclosing⟩
  · rw [setState_state]
    exact hs

/-- The connections of an aborted client are the old ones, disconnected. -/
theorem abort_connections (hopen : c.state ≠ .closed) :
    c.abort.connections = c.connections.map (·.disconnect .closedByLocal) := by
  unfold abort
  rw [if_neg (by simp [isClosed, hopen])]
  dsimp only
  rw [setState_connections]
  rfl

/-- Aborting sends nothing. -/
theorem abort_misdirected (c : Client) : c.abort.misdirected = c.misdirected :=
  (congrArg Client.misdirected (abort_fields c)).trans rfl

/-- Aborting ends the session and disconnects. -/
theorem stays_abort (c : Client) : Stays c c.abort := by
  by_cases hclosed : c.state = .closed
  · rw [abort_of_closed hclosed]
    exact .refl c
  · have hlink := abort_link hclosed
    refine ⟨congrArg Link.phase hlink, congrArg Link.connections hlink,
      fun j con hcon hclosing => ?_, fun htimer => ?_, Or.inr (congrArg Link.con hlink),
      Or.inr (Or.inr ⟨congrArg Link.state hlink, congrArg Link.con hlink⟩),
      fun _ => abort_misdirected c⟩
    · rw [abort_connections hclosed, List.getElem?_map, hcon, Option.map_some]
      exact ⟨_, rfl, disconnect_closing con _ hclosing⟩
    · have hfalse : c.abort.timerReconnect = false := congrArg Link.timerReconnect hlink
      rw [hfalse] at htimer
      cases htimer

/-- Starting the timer leaves the session as it is. -/
theorem stays_startTimerConLost (c : Client) (keepalive : ℕ) :
    Stays c (c.startTimerConLost keepalive) := by
  rw [startTimerConLost_fields]
  exact ⟨rfl, rfl, fun _ con hcon hclosing => ⟨con, hcon, hclosing⟩, id, Or.inl rfl, Or.inl rfl,
    fun _ => rfl⟩

/-- So does the delivery. -/
theorem stays_deliver (globMatch : Glob) (changes : List Change) (c : Client) :
    Stays c (deliver globMatch changes c) := by
  rw [deliver_fields]
  exact .of_connections rfl rfl rfl

/-- Stopping the timer of the lost connection. -/
theorem stays_stopTimer (c : Client) : Stays c { c with timerConLost := false } :=
  ⟨rfl, rfl, fun _ con hcon hclosing => ⟨con, hcon, hclosing⟩, id, Or.inl rfl, Or.inl rfl,
    fun _ => rfl⟩

/-- What most actions do to the session. -/
theorem Action.stays {k : ActionKind} (h : Action k c c') (hk : k.stays = true) : Stays c c' := by
  cases h with
  | aside h => exact h.stays
  | drop => exact .of_connections rfl rfl rfl
  | settle => exact Stays.after (stays_onTx _ _ _) rfl rfl rfl
  | deliver => exact stays_deliver _ _ _
  | request => exact stays_sendRequest _ _ _
  | refuse => exact stays_onTx _ _ _
  | answer => exact Stays.after (stays_answerSubmit _ _ _) rfl rfl rfl
  | load => exact .of_connections rfl rfl rfl
  | tell => exact stays_call _ _
  | setState _ _ hs => exact stays_setState _ hs
  | revive _ hs => exact stays_setState _ hs
  | startTimer => exact stays_startTimerConLost _ _
  | fetch => exact Stays.after (stays_send _ _) rfl rfl rfl
  | close => exact stays_abort _
  | stopTimer => exact stays_stopTimer _
  | turn => exact .of_connections rfl rfl rfl
  | queue => exact .of_connections rfl rfl rfl
  | wake => exact .of_connections rfl rfl rfl
  | takeFuture => exact stays_onTx _ _ _
  | _ => cases hk

/-- A handler made of such actions leaves the session as it is, or ends it. -/
theorem Acts.stays {kinds : List ActionKind} (h : Acts kinds c c')
    (hkinds : kinds.all ActionKind.stays = true) : Stays c c' :=
  h.frame hkinds .refl .trans Action.stays

/-- A login is sent on an established connection. -/
theorem stays_onConnectionEstablished {i : ℕ} (hi : c.connected i) :
    Stays c (c.onConnectionEstablished i) := by
  unfold onConnectionEstablished
  split
  · exact (aside_disconnect c i _).stays
  · have hsend := stays_sendOn (c := { c with correlation := c.correlation + 1 })
      (.login (c.correlation + 1) c.user c.password) (Or.inr hi)
    exact hsend.after rfl rfl rfl

/-- The event loop is not processing the messages of a connection after a handler that ends it. -/
theorem connection_of_broken (h : c.broken = true) : c.activity.connection = none := by
  simp only [broken, Bool.or_eq_true, decide_eq_true_eq] at h
  rcases h with h | h <;> simp [h, Activity.connection]

/-- The invariant is kept by what leaves the session alone. -/
theorem Sound.stays (h : c.Sound) (hstays : Stays c c')
    (hactivity : c'.activity = c.activity ∨ c.phase = .running ∧ (c'.broken = true ∨
      c.broken = false ∧ ∀ i, c'.activity.connection = some i → c.connected i)) : c'.Sound where
  tied := by
    have hcon : ∀ i, c'.con = some i → c.con = some i := by
      intro i hi
      rcases hstays.con with hsame | hnone
      · rw [← hsame, hi]
      · rw [hnone] at hi
        cases hi
    refine ⟨fun i hi => ?_, fun i j con' hi hj hcon' => ?_, fun i hi hopen => ?_⟩
    · exact (connected_congr hstays.states i).mpr (h.tied.connected i (hcon i hi))
    · have hget := congrArg (fun states : List ConnectionState => states[j]?) hstays.states
      simp only [List.getElem?_map, hcon', Option.map_some] at hget
      obtain ⟨con, hj', hstate⟩ := Option.map_eq_some_iff.mp hget.symm
      rcases h.tied.others i j con (hcon i hi) hj hj' with hclosed | hclosing
      · exact Or.inl (hstate ▸ hclosed)
      · obtain ⟨con'', hcon'', hclosing'⟩ := hstays.closing j con hj' hclosing
        rw [hcon'] at hcon''
        obtain rfl := Option.some.inj hcon''
        exact Or.inr hclosing'
    · rcases hstays.state with hsame | hin | ⟨hclosed, -⟩
      · rw [hsame] at hopen ⊢
        exact h.tied.inSession i (hcon i hi) hopen
      · exact hin
      · exact absurd hclosed hopen
  careful := (hstays.careful h.tied.connected).trans h.careful
  ready hphase := by
    obtain ⟨hcon, htimer⟩ := h.ready (hstays.phase ▸ hphase)
    refine ⟨?_, ?_⟩
    · rcases hstays.con with hsame | hnone
      · exact hsame.trans hcon
      · exact hnone
    · by_contra hne
      rw [hstays.timer (by simpa using hne)] at htimer
      cases htimer
  busy hbusy := by
    rw [hstays.phase]
    rcases hactivity with hsame | ⟨hphase, -⟩
    · exact h.busy (hsame ▸ hbusy)
    · exact hphase
  reading i hi := by
    rw [connected_congr hstays.states]
    rcases hactivity with hsame | ⟨-, hbroken | ⟨-, hreading⟩⟩
    · exact h.reading i (hsame ▸ hi)
    · rw [connection_of_broken hbroken] at hi
      cases hi
    · exact hreading i hi
  offline hphase hoffline := by
    have hbefore : c.state = .offline := by
      rcases hstays.state with hsame | hin | ⟨hclosed, -⟩
      · exact hsame.symm.trans hoffline
      · rw [hoffline] at hin
        cases hin
      · rw [hoffline] at hclosed
        cases hclosed
    have hbroken := h.offline (hstays.phase ▸ hphase) hbefore
    rcases hactivity with hsame | ⟨-, hbroken' | ⟨hgoes, -⟩⟩
    · rw [broken, hsame]
      exact hbroken
    · exact hbroken'
    · rw [hgoes] at hbroken
      cases hbroken
  free hphase hclosed := by
    rcases hstays.state with hsame | hin | ⟨-, hnone⟩
    · have hcon := h.free (hstays.phase ▸ hphase) (hsame.symm.trans hclosed)
      rcases hstays.con with hsame' | hnone
      · exact hsame'.trans hcon
      · exact hnone
    · rw [hclosed] at hin
      cases hin
    · exact hnone
  timer htimer := by
    obtain ⟨hcon, hclosed, hoffline⟩ := h.timer (hstays.timer htimer)
    refine ⟨?_, (allClosed_congr hstays.states).mpr hclosed, fun hstate => ?_⟩
    · rcases hstays.con with hsame | hnone
      · exact hsame.trans hcon
      · exact hnone
    · rcases hstays.state with hsame | hin | ⟨hclosed', -⟩
      · exact hoffline (hsame.symm.trans hstate)
      · rw [hstate] at hin
        cases hin
      · rw [hstate] at hclosed'
        cases hclosed'

/-- The invariant is kept by a handler that leaves the session alone and lets the loop go on. -/
theorem Sound.keeps (h : c.Sound) (hstays : Stays c c') (hkeeps : Keeps c c')
    (hphase : c.phase = .running) : c'.Sound := by
  refine h.stays hstays ?_
  rcases hkeeps with hsame | hbroken
  · exact Or.inl hsame
  · exact Or.inr ⟨hphase, Or.inl hbroken⟩

/-- A running client without a session is sound when it is not processing messages, its timer
does not run, and it is OFFLINE only on its way out. -/
theorem Sound.of_free (hcon : c.con = none) (htimer : c.timerReconnect = false)
    (hcareful : c.misdirected = false) (hphase : c.phase = .running)
    (hactivity : c.activity.connection = none)
    (hoffline : c.state = .offline → c.broken = true) : c.Sound where
  tied := ⟨by simp [hcon], by simp [hcon], by simp [hcon]⟩
  careful := hcareful
  ready hready := by simp [hphase] at hready
  busy _ := hphase
  reading i hi := by simp [hactivity] at hi
  offline _ := hoffline
  free _ _ := hcon
  timer h := by simp [htimer] at h

/-- Connecting from OFFLINE. -/
theorem tryToConnect_of_offline (hoffline : c.state = .offline) (refused : Option ℕ) :
    c.tryToConnect refused =
      if (connectAll refused c.connections).2 then
        throw { c with
          con := none
          timerReconnect := false
          state := .connecting
          connections := (connectAll refused c.connections).1 }
      else
        { c with
          con := none
          timerReconnect := false
          state := .connecting
          connections := (connectAll refused c.connections).1 } := by
  unfold tryToConnect
  rw [if_neg (by simp [isClosed, hoffline])]
  dsimp only
  rw [setState_eq (by simp [hoffline]) (by simp)]

/-- The state guard of `try_to_connect`. -/
theorem tryToConnect_of_not_offline (hoffline : c.state ≠ .offline) (refused : Option ℕ) :
    c.tryToConnect refused = c := by
  unfold tryToConnect
  rw [if_pos (by simp [hoffline])]

/-- Connecting from OFFLINE leaves no session and no timer. -/
theorem sound_tryToConnect (hoffline : c.state = .offline) (hcareful : c.misdirected = false)
    (hphase : c.phase = .running) (hactivity : c.activity.connection = none)
    (refused : Option ℕ) : (c.tryToConnect refused).Sound := by
  rw [tryToConnect_of_offline hoffline]
  split
  · exact .of_free rfl rfl hcareful hphase rfl (by simp [throw])
  · exact .of_free rfl rfl hcareful hphase hactivity (by simp)

/-- Aborting an open client leaves no session and no timer. -/
theorem sound_abort (hopen : c.state ≠ .closed) (hcareful : c.misdirected = false)
    (hphase : c.phase = .running) (hactivity : c.activity.connection = none) : c.abort.Sound := by
  have hlink := abort_link hopen
  refine .of_free (congrArg Link.con hlink) (congrArg Link.timerReconnect hlink)
    ((abort_misdirected c).trans hcareful) ((congrArg Link.phase hlink).trans hphase) ?_ ?_
  · rcases keeps_abort c with hsame | hbroken
    · rw [hsame]
      exact hactivity
    · exact connection_of_broken hbroken
  · have hstate : c.abort.state = .closed := congrArg Link.state hlink
    simp [hstate]

/-- The end of a session. -/
theorem loseSession_spec (hopen : c.state ≠ .closed) :
    c.loseSession.con = none ∧ c.loseSession.state = .offline ∧
      c.loseSession.phase = c.phase ∧ c.loseSession.timerReconnect = c.timerReconnect ∧
      c.loseSession.misdirected = c.misdirected ∧
      c.loseSession.connections.map (·.state) = c.connections.map (·.state) := by
  unfold loseSession
  rw [setState_eq hopen (by simp)]
  dsimp only
  have hacts := acts_cancelRequests
    { c with state := .offline, con := none, dataCid := 0, sessionsCid := 0 }
  have hlink := hacts.link rfl
  exact ⟨(con_of_link hlink :), (state_of_link hlink :), (phase_of_link hlink :),
    (timerReconnect_of_link hlink :), (hacts.stays rfl).careful (by simp), (connections_of_link hlink :)⟩

/-- The close callback of the session's connection. -/
theorem sound_sessionClosed (hopen : c.state ≠ .closed) (hcareful : c.misdirected = false)
    (htimer : c.timerReconnect = false) (hphase : c.phase = .running)
    (hactivity : c.activity.connection = none) (retry : Bool) (refused : Option ℕ) :
    (c.loseSession.andThen fun c =>
      if retry then tryToConnect { c with timerConLost := false } refused
      else abort { c with timerConLost := false }).Sound := by
  obtain ⟨hcon, hoffline, hphase', htimer', hcareful', -⟩ := loseSession_spec hopen
  have hnone : c.loseSession.activity.connection = none := by
    rcases (acts_loseSession hopen).keeps rfl with hsame | hbroken
    · rw [hsame]
      exact hactivity
    · exact connection_of_broken hbroken
  unfold andThen
  split
  · next hbroken =>
    exact .of_free hcon (htimer'.trans htimer) (hcareful'.trans hcareful) (hphase'.trans hphase)
      hnone fun _ => hbroken
  · dsimp only
    split
    · exact sound_tryToConnect (c := { c.loseSession with timerConLost := false }) hoffline
        (hcareful'.trans hcareful) (hphase'.trans hphase) hnone _
    · exact sound_abort (c := { c.loseSession with timerConLost := false }) (by simp [hoffline])
        (hcareful'.trans hcareful) (hphase'.trans hphase) hnone

/-- A list of connections after one of them changed. -/
theorem getElem?_set_connection {i j : ℕ} {con con' : Connection}
    (h : (c.connections.set i con)[j]? = some con') :
    j = i ∧ con' = con ∨ j ≠ i ∧ c.connections[j]? = some con' := by
  rw [List.getElem?_set] at h
  split_ifs at h with hj hlength
  · exact Or.inl ⟨hj.symm, (Option.some.inj h).symm⟩
  · exact Or.inr ⟨fun heq => hj heq.symm, h⟩

/-- The client when a close callback begins. -/
theorem sound_onClose (h : c.Sound) {i : ℕ} {con : Connection} (hcon : c.connections[i]? = some con)
    (hnot : con.state ≠ .closed) (hphase : c.phase = .running) (hidle : c.activity = .idle)
    (hother : c.con ≠ some i) : Sound { c with connections := c.connections.set i con.onClose } where
  tied := by
    refine ⟨fun j hj => ?_, fun j k con' hj hk hcon' => ?_, h.tied.inSession⟩
    · have hne : j ≠ i := by
        rintro rfl
        exact hother hj
      obtain ⟨con', hcon', hstate⟩ := h.tied.connected j hj
      exact ⟨con', by simp only [List.getElem?_set, if_neg hne.symm, hcon'], hstate⟩
    · rcases getElem?_set_connection hcon' with ⟨-, rfl⟩ | ⟨-, hold⟩
      · exact Or.inl rfl
      · exact h.tied.others j k con' hj hk hold
  careful := h.careful
  ready hready := by simp [hphase] at hready
  busy _ := hphase
  reading j hj := by simp [hidle, Activity.connection] at hj
  offline := h.offline
  free := h.free
  timer htimer := by
    obtain ⟨-, hclosed, -⟩ := h.timer htimer
    exact absurd (hclosed con (List.mem_of_getElem? hcon)) hnot

/-- The timer does not run while a connection is not closed. -/
theorem Sound.timer_off (h : c.Sound) {i : ℕ} {con : Connection}
    (hcon : c.connections[i]? = some con) (hnot : con.state ≠ .closed) :
    c.timerReconnect = false := by
  by_contra htimer
  obtain ⟨-, hclosed, -⟩ := h.timer (by simpa using htimer)
  exact hnot (hclosed con (List.mem_of_getElem? hcon))

/-- The reconnect timer is started once all the connections are closed. -/
theorem sound_scheduleReconnect (h : c.Sound) (hphase : c.phase = .running)
    (hopen : c.state ≠ .closed) (hcon : c.con = none) (hall : c.allClosed)
    (hoffline : c.state ≠ .offline) : c.scheduleReconnect.Sound := by
  unfold scheduleReconnect
  rw [if_neg (by simp [isClosed, hopen]), write_of_open hopen]
  exact ⟨⟨h.tied.connected, h.tied.others, h.tied.inSession⟩, h.careful,
    fun hready => by simp [hphase] at hready, h.busy, h.reading, h.offline, h.free,
    fun _ => ⟨hcon, hall, hoffline⟩⟩

/-- A close callback keeps the invariant. -/
theorem sound_closed (h : c.Sound) {i : ℕ} {con : Connection} (hcon : c.connections[i]? = some con)
    (hnot : con.state ≠ .closed) (hphase : c.phase = .running) (hidle : c.activity = .idle)
    (delay : Option Int) (retry : Option Bool) (refused : Option ℕ) :
    (onConnectionClosed { c with connections := c.connections.set i con.onClose } i delay retry
      refused).Sound := by
  have hnone : c.activity.connection = none := by simp [hidle, Activity.connection]
  have hgoes : c.broken = false := by simp [broken, hidle]
  by_cases hclosed : c.state = .closed
  · have hfree : c.con ≠ some i := by simp [h.free hphase hclosed]
    simpa [onConnectionClosed, isClosed, hclosed] using sound_onClose h hcon hnot hphase hidle hfree
  unfold onConnectionClosed
  rw [if_neg (by simp [isClosed, hclosed])]
  split
  · next hfailed =>
    simp only [Bool.and_eq_true, decide_eq_true_eq] at hfailed
    have hbegin := sound_onClose h hcon hnot hphase hidle (by simp [hfailed.1])
    split
    · exact sound_abort hclosed h.careful hphase hnone
    · have hall : allClosed { c with connections := c.connections.set i con.onClose } := by
        intro con' hcon'
        have hmem := List.all_eq_true.mp hfailed.2 con' hcon'
        simpa [Connection.isClosed] using hmem
      have hoffline : c.state ≠ .offline := by
        intro hstate
        rw [h.offline hphase hstate] at hgoes
        cases hgoes
      exact sound_scheduleReconnect hbegin hphase hclosed hfailed.1 hall hoffline
  · split
    · next hother => exact sound_onClose h hcon hnot hphase hidle hother
    · exact sound_sessionClosed (c := { c with connections := c.connections.set i con.onClose })
        hclosed h.careful (h.timer_off hcon hnot) hphase hnone _ _

/-- The session begins: its connection is taken, in the state AUTHENTICATED. -/
theorem acceptLogin_spec (c : Client) (i : ℕ) (resp : LoginResponse) :
    (c.acceptLogin i resp).con = some i ∧ (c.acceptLogin i resp).state = .authenticated ∧
      (c.acceptLogin i resp).phase = c.phase ∧
      (c.acceptLogin i resp).timerReconnect = c.timerReconnect ∧
      (c.acceptLogin i resp).misdirected = c.misdirected ∧
      (c.acceptLogin i resp).connections = c.connections := by
  rw [acceptLogin_fields]
  exact ⟨rfl, rfl, rfl, rfl, rfl, rfl⟩

/-- Disconnecting all the connections but the session's. -/
theorem tied_disconnectOthers (hconnected : ∀ i, c.con = some i → c.connected i)
    (hin : ∀ i, c.con = some i → c.state ≠ .closed → c.state.inSession = true)
    (cause : DisconnectCause) : (c.disconnectOthers c.con cause).Tied := by
  have hstays := (aside_disconnectOthers c c.con cause).stays
  refine ⟨fun i hi => (connected_congr hstays.states i).mpr (hconnected i hi),
    fun i j con hi hj hcon => ?_, hin⟩
  unfold disconnectOthers at hcon hi
  rw [List.getElem?_mapIdx] at hcon
  obtain ⟨server, -, rfl⟩ := Option.map_eq_some_iff.mp hcon
  rw [if_neg]
  · exact disconnect_closed_or_closing server cause
  · rw [hi]
    intro heq
    exact hj (Option.some.inj heq)

/-- The rest of an accepted login, for a client that the manager may have closed. -/
theorem sound_startSession (hphase : c.phase = .running)
    (hreading : ∀ i, c.activity.connection = some i → c.connected i)
    (hconnected : ∀ i, c.con = some i → c.connected i) (htimer : c.timerReconnect = false)
    (hcareful : c.misdirected = false)
    (hstate : c.state = .authenticated ∨ c.state = .closed ∧ c.con = none) (resp : LoginResponse) :
    (c.startSession resp).Sound := by
  have hstays := stays_startTimerConLost c resp.keepalive
  have hactivity : (c.startTimerConLost resp.keepalive).activity = c.activity :=
    (congrArg Client.activity (startTimerConLost_fields c _)).trans rfl
  have hcon' : (c.startTimerConLost resp.keepalive).con = c.con :=
    (congrArg Client.con (startTimerConLost_fields c _)).trans rfl
  have hstate' : (c.startTimerConLost resp.keepalive).state = c.state :=
    (congrArg Client.state (startTimerConLost_fields c _)).trans rfl
  unfold startSession
  dsimp only
  generalize c.startTimerConLost resp.keepalive = c₁ at hstays hactivity hcon' hstate'
  have hothers := (aside_disconnectOthers c₁ c₁.con .alreadyConnected).stays
  have hboth := hstays.trans hothers
  have hsound : (c₁.disconnectOthers c₁.con .alreadyConnected).Sound := by
    refine ⟨tied_disconnectOthers (fun i hi => ?_) (fun i hi hopen => ?_) _,
      (hboth.careful hconnected).trans hcareful, fun hready => ?_, fun _ => hboth.phase.trans hphase,
      fun i hi => ?_, fun _ hoffline => ?_, fun _ hclosed => ?_, fun htimer' => ?_⟩
    · exact (connected_congr hstays.states i).mpr (hconnected i (hcon' ▸ hi))
    · rcases hstate with hauth | ⟨hclosed, -⟩
      · rw [hstate', hauth]
        rfl
      · exact absurd (hstate'.trans hclosed) hopen
    · rw [hboth.phase, hphase] at hready
      cases hready
    · exact (connected_congr hboth.states i).mpr (hreading i (hactivity ▸ hi))
    · have hsame : c.state = .offline := hstate'.symm.trans hoffline
      rcases hstate with hauth | ⟨hclosed, -⟩
      · rw [hsame] at hauth
        cases hauth
      · rw [hsame] at hclosed
        cases hclosed
    · have hsame : c.state = .closed := hstate'.symm.trans hclosed
      rcases hstate with hauth | ⟨-, hnone⟩
      · rw [hsame] at hauth
        cases hauth
      · exact hcon'.trans hnone
    · rw [hboth.timer htimer'] at htimer
      cases htimer
  have hrequest := acts_requestData (c₁.disconnectOthers c₁.con .alreadyConnected) resp
  exact hsound.keeps (hrequest.stays rfl) (hrequest.keeps rfl) (hboth.phase.trans hphase)

/-- Setting a state lets the event loop go on. -/
theorem setState_activity (c : Client) (s : ClientState) :
    (c.setState s).activity = c.activity :=
  (congrArg Client.activity (setState_fields c s)).trans rfl

/-- So does taking a connection for the session. -/
theorem acceptLogin_activity (c : Client) (i : ℕ) (resp : LoginResponse) :
    (c.acceptLogin i resp).activity = c.activity :=
  (congrArg Client.activity (acceptLogin_fields c i resp)).trans rfl

/-- So does aborting. -/
theorem abort_activity (c : Client) : c.abort.activity = c.activity :=
  (congrArg Client.activity (abort_fields c)).trans rfl

/-- A login response keeps the invariant. -/
theorem sound_processLoginResp (h : c.Sound) {i : ℕ} (hreading : c.activity = .reading i)
    (resp : LoginResponse) (throws : Bool) : (c.processLoginResp i resp throws).Sound := by
  have hphase : c.phase = .running := h.busy (by simp [hreading])
  have hi : c.connected i := h.reading i (by simp [hreading, Activity.connection])
  have hrefuse : ∀ cause, (c.disconnect i cause).Sound := fun cause =>
    h.keeps (aside_disconnect c i cause).stays (Or.inl rfl) hphase
  unfold processLoginResp
  split
  · exact hrefuse _
  · split
    · exact hrefuse _
    · split
      · exact hrefuse _
      · obtain ⟨hcon, hstate, hphase', htimer, hcareful, hcons⟩ := acceptLogin_spec c i resp
        have hactivity := acceptLogin_activity c i resp
        have hoff : c.timerReconnect = false := by
          obtain ⟨con, hget, hconnected⟩ := hi
          exact h.timer_off hget (by simp [hconnected])
        have hi' : (c.acceptLogin i resp).connected i := by
          unfold connected
          rw [hcons]
          exact hi
        have htaken : ∀ j, (c.acceptLogin i resp).activity.connection = some j →
            (c.acceptLogin i resp).connected j := by
          intro j hj
          rw [hactivity, hreading] at hj
          obtain rfl := Option.some.inj hj
          exact hi'
        have hsession : ∀ j, (c.acceptLogin i resp).con = some j →
            (c.acceptLogin i resp).connected j := by
          intro j hj
          rw [hcon] at hj
          obtain rfl := Option.some.inj hj
          exact hi'
        dsimp only
        split
        · have hopen : (c.acceptLogin i resp).state ≠ .closed := by simp [hstate]
          have hlink := abort_link hopen
          have habort := stays_abort (c.acceptLogin i resp)
          refine sound_startSession (habort.phase.trans (hphase'.trans hphase)) ?_ ?_
            (congrArg Link.timerReconnect hlink)
            ((abort_misdirected _).trans (hcareful.trans h.careful))
            (Or.inr ⟨congrArg Link.state hlink, congrArg Link.con hlink⟩) resp
          · intro j hj
            rw [abort_activity] at hj
            exact (connected_congr habort.states j).mpr (htaken j hj)
          · intro j hj
            have hnone : (c.acceptLogin i resp).abort.con = none := congrArg Link.con hlink
            rw [hnone] at hj
            cases hj
        · exact sound_startSession (hphase'.trans hphase) htaken hsession
            (htimer.trans hoff) (hcareful.trans h.careful) (Or.inl hstate) resp

/-- The client when a connection is established. -/
theorem sound_established (h : c.Sound) {i : ℕ} {con : Connection}
    (hcon : c.connections[i]? = some con) (hstate : con.state = .connecting)
    (hphase : c.phase = .running) (hidle : c.activity = .idle) :
    Sound { c with connections := c.connections.set i { con with state := .connected } } where
  tied := by
    have hother : c.con ≠ some i := by
      intro hi
      obtain ⟨con', hcon', hconnected⟩ := h.tied.connected i hi
      rw [hcon] at hcon'
      obtain rfl := Option.some.inj hcon'
      rw [hstate] at hconnected
      cases hconnected
    refine ⟨fun j hj => ?_, fun j k con' hj hk hcon' => ?_, h.tied.inSession⟩
    · have hne : j ≠ i := by
        rintro rfl
        exact hother hj
      obtain ⟨con', hcon', hconnected⟩ := h.tied.connected j hj
      exact ⟨con', by simp only [List.getElem?_set, if_neg hne.symm, hcon'], hconnected⟩
    · rcases getElem?_set_connection hcon' with ⟨rfl, rfl⟩ | ⟨-, hold⟩
      · rcases h.tied.others j k con hj hk hcon with hclosed | hclosing
        · rw [hstate] at hclosed
          cases hclosed
        · exact Or.inr hclosing
      · exact h.tied.others j k con' hj hk hold
  careful := h.careful
  ready hready := by simp [hphase] at hready
  busy _ := hphase
  reading j hj := by simp [hidle, Activity.connection] at hj
  offline := h.offline
  free := h.free
  timer htimer := by
    rw [h.timer_off hcon (by simp [hstate])] at htimer
    cases htimer

/-- The end of `run` begins. -/
theorem sound_unwindRun (h : c.Sound) : c.unwindRun.Sound := by
  have hbegin : Sound { c with phase := .unwinding, activity := .idle } :=
    ⟨⟨h.tied.connected, h.tied.others, h.tied.inSession⟩, h.careful, by simp, by simp,
      by simp [Activity.connection], by simp, by simp, h.timer⟩
  have hlink := setState_closed_link { c with phase := .unwinding, activity := .idle }
  have hset : Sound (setState { c with phase := .unwinding, activity := .idle } .closed) := by
    have hcon : (setState { c with phase := .unwinding, activity := .idle } .closed).con = c.con :=
      congrArg Link.con hlink
    have hcons := setState_connections { c with phase := .unwinding, activity := .idle } .closed
    have hphase : (setState { c with phase := .unwinding, activity := .idle } .closed).phase =
      .unwinding := congrArg Link.phase hlink
    have hactivity := setState_activity { c with phase := .unwinding, activity := .idle } .closed
    refine ⟨⟨fun i hi => ?_, fun i j con hi hj hget => ?_, fun i _ hopen => ?_⟩, ?_, ?_, ?_, ?_, ?_,
      ?_, fun htimer => ?_⟩
    · unfold connected
      rw [hcons]
      exact h.tied.connected i (hcon ▸ hi)
    · rw [hcons] at hget
      exact h.tied.others i j con (hcon ▸ hi) hj hget
    · exact absurd (setState_state _ _) hopen
    · exact (setState_misdirected _ _).trans h.careful
    · simp [hphase]
    · simp [hactivity]
    · simp [hactivity, Activity.connection]
    · simp [hphase]
    · simp [hphase]
    · obtain ⟨hnone, hclosed, -⟩ :=
        h.timer ((congrArg Link.timerReconnect hlink).symm.trans htimer)
      exact ⟨hcon.trans hnone, by rw [allClosed, hcons]; exact hclosed, by simp⟩
  have hactivity := setState_activity { c with phase := .unwinding, activity := .idle } .closed
  unfold unwindRun
  dsimp only
  generalize setState { c with phase := .unwinding, activity := .idle } .closed = c₁
    at hset hactivity
  have hend : Stays c₁.cancelRequests
      { c₁.cancelRequests.andThen (·.disconnectAll .closedByLocal) with activity := .idle } :=
    (Stays.andThen (aside_disconnectAll _ _).stays).trans (.of_connections rfl rfl rfl)
  exact hset.stays (((acts_cancelRequests c₁).stays rfl).trans hend) (Or.inl hactivity.symm)

/-- The end of `run`. -/
theorem sound_finishRun (h : c.Sound) (hphase : c.phase = .unwinding) : c.finishRun.Sound := by
  have hidle : c.activity = .idle := by
    by_contra hbusy
    rw [h.busy hbusy] at hphase
    cases hphase
  exact ⟨⟨by simp [finishRun], by simp [finishRun], by simp [finishRun]⟩, h.careful,
    by simp [finishRun], by simp [finishRun, hidle], by simp [finishRun, hidle, Activity.connection],
    by simp [finishRun], by simp [finishRun],
    fun htimer => ⟨rfl, by simp [allClosed, finishRun], (h.timer htimer).2.2⟩⟩

end Handlers

section Runs

variable {globMatch : Glob} {c c' : Client}

/-- A method that does not throw lets the event loop go on. -/
theorem onTx_activity (c : Client) (t : ℕ) {f : Transaction → Transaction × Option TxError}
    (hf : ∀ tx, (f tx).2 = none) : (c.onTx t f).activity = c.activity := by
  unfold onTx
  split
  · rfl
  · next cell _ =>
    dsimp only
    rw [hf cell.tx]
    rfl

/-- The end of a push lets the event loop go on. -/
theorem endPush_activity (c : Client) (p : Push) : (c.endPush p).activity = c.activity := by
  unfold endPush
  split
  · exact onTx_activity c _ fun _ => rfl
  · rfl

/-- So does the push of a command. -/
theorem enqueue_activity (c : Client) (p : Push) (waiting : ℕ) :
    (c.enqueue p waiting).activity = c.activity := by
  unfold enqueue
  split
  · split <;> rfl
  · dsimp only
    split <;> exact endPush_activity _ p

/-- So does the locked part of `push_command`. -/
theorem pushLocked_activity (c : Client) (p : Push) : (c.pushLocked p).activity = c.activity :=
  enqueue_activity c p _

/-- A new transaction is not about the session. -/
theorem createTx_same (c : Client) (isolation : Isolation) (readOnly : Bool) :
    Stays c (c.createTx isolation readOnly) ∧
      (c.createTx isolation readOnly).activity = c.activity := by
  rw [createTx_fields]
  exact ⟨.of_connections rfl rfl rfl, rfl⟩

/-- Nor is a submit on a user's thread. -/
theorem submitTx_same (c : Client) (t : ℕ) (cell : TxCell) (force : Bool) :
    Stays c (c.submitTx t cell force) ∧ (c.submitTx t cell force).activity = c.activity := by
  rw [submitTx_fields]
  exact ⟨.of_connections rfl rfl rfl, rfl⟩

/-- Every step keeps the invariant of the session. -/
theorem sound_effect {e : Event} (h : c.Sound) (heffect : Effect globMatch c e c') : c'.Sound := by
  have hquiet : ∀ {c' : Client}, Stays c c' → c'.activity = c.activity → c'.Sound :=
    fun hstays hsame => h.stays hstays (Or.inl hsame)
  -- what the event loop does after its activity changed
  have hmoved : ∀ {a : Activity} {c' : Client}, c.activity ≠ .idle → c.broken = false →
      (∀ i, a.connection = some i → c.connected i) → Stays c c' →
      Keeps { c with activity := a } c' → c'.Sound := by
    intro a c' hbusy hgoes hreading hstays hkeeps
    refine h.stays hstays (Or.inr ⟨h.busy hbusy, ?_⟩)
    rcases hkeeps with hsame | hbroken
    · have hsame : c'.activity = a := hsame
      exact Or.inr ⟨hgoes, fun i hi => hreading i (hsame ▸ hi)⟩
    · exact Or.inl hbroken
  cases heffect with
  | start hphase hstate =>
    have hidle : c.activity.connection = none := by
      by_contra hne
      obtain ⟨i, hi⟩ := Option.ne_none_iff_exists'.mp hne
      have hbusy := h.busy (by rintro hidle; simp [hidle, Activity.connection] at hi)
      rw [hphase] at hbusy
      cases hbusy
    exact sound_tryToConnect (c := { c with phase := .running, con := none }) hstate h.careful rfl
      hidle _
  | @connected i con hphase hidle hcon hstate =>
    have hi : ∃ con', (c.connections.set i { con with state := .connected })[i]? = some con' ∧
        con'.state = .connected := by
      have hlength := (List.getElem?_eq_some_iff.mp hcon).1
      exact ⟨{ con with state := .connected }, by simp [hlength], rfl⟩
    have hkeeps := (acts_onConnectionEstablished
      { c with connections := c.connections.set i { con with state := .connected } } i).keeps rfl
    exact (sound_established h hcon hstate hphase hidle).keeps (stays_onConnectionEstablished hi)
      hkeeps hphase
  | failed => exact hquiet (aside_disconnect c _ _).stays rfl
  | closed hphase hidle hcon hstate => exact sound_closed h hcon hstate hphase hidle _ _ _
  | @read i con hphase hidle hcon hstate =>
    refine h.stays (.of_connections rfl rfl rfl) (Or.inr ⟨hphase, Or.inr ⟨?_, fun j hj => ?_⟩⟩)
    · simp [broken, hidle]
    · obtain rfl := Option.some.inj hj
      exact ⟨con, hcon, hstate⟩
  | @message i msg throws hreading =>
    by_cases hlogin : ∃ resp, msg = some (.loginResponse resp)
    · obtain ⟨resp, rfl⟩ := hlogin
      exact sound_processLoginResp h hreading resp throws
    · have hacts := acts_onMsgReceived_of_session c i throws fun resp hresp => hlogin ⟨resp, hresp⟩
      refine h.stays (hacts.stays rfl) (Or.inr ⟨h.busy (by simp [hreading]), Or.inr ⟨?_, fun j hj => ?_⟩⟩)
      · simp [broken, hreading]
      · obtain rfl := connection_onMsgReceived hreading msg throws hj
        exact h.reading j (by simp [hreading, Activity.connection])
  | @malformed i hreading =>
    refine hmoved (a := .idle) (by simp [hreading]) (by simp [broken, hreading])
      (by simp [Activity.connection]) ?_ (Or.inl rfl)
    have hidle : Stays c { c with activity := .idle } := .of_connections rfl rfl rfl
    exact hidle.trans (aside_disconnect _ i _).stays
  | readEnd hreading =>
    exact hmoved (a := .idle) (by simp [hreading]) (by simp [broken, hreading])
      (by simp [Activity.connection]) (.of_connections rfl rfl rfl) (Or.inl rfl)
  | @update i crev u rest hpushing =>
    refine hmoved (a := .pushing i crev rest) (by simp [hpushing]) (by simp [broken, hpushing])
      (fun j hj => h.reading j (by simpa [hpushing, Activity.connection] using hj)) ?_
      ((acts_pushUpdate globMatch _ crev u).keeps rfl)
    have hrest : Stays c { c with activity := .pushing i crev rest } := .of_connections rfl rfl rfl
    exact hrest.trans ((acts_pushUpdate globMatch _ crev u).stays rfl)
  | @updatesEnd i crev hpushing =>
    exact hmoved (a := .reading i) (by simp [hpushing]) (by simp [broken, hpushing])
      (fun j hj => h.reading j (by simpa [hpushing, Activity.connection] using hj))
      (.of_connections rfl rfl rfl) (Or.inl rfl)
  | timerConLost hphase hidle =>
    have hacts := acts_onConnectionLost c
    exact h.keeps (hacts.stays rfl) (hacts.keeps rfl) hphase
  | timerReconnect hphase hidle htimer =>
    have hoffline := (h.timer htimer).2.2
    rw [tryToConnect_of_not_offline (c := { c with timerReconnect := false }) hoffline]
    refine h.stays ?_ (Or.inl rfl)
    exact ⟨rfl, rfl, fun _ con hcon hclosing => ⟨con, hcon, hclosing⟩, by simp, Or.inl rfl,
      Or.inl rfl, fun _ => rfl⟩
  | sigint hphase hidle => exact h.keeps (stays_abort c) (keeps_abort c) hphase
  | asyncClosed => exact hquiet (.of_connections rfl rfl rfl) rfl
  | async hphase hidle hopen =>
    refine h.stays (.of_connections rfl rfl rfl) (Or.inr ⟨hphase, Or.inr ⟨?_, fun j hj => ?_⟩⟩)
    · simp [broken, hidle]
    · cases hj
  | @command command rest hdraining hcommands =>
    have hacts := acts_nextCommand c command rest
    exact h.keeps (hacts.stays rfl) (hacts.keeps rfl) (h.busy (by simp [hdraining]))
  | commandsEnd hdraining =>
    exact hmoved (a := .idle) (by simp [hdraining]) (by simp [broken, hdraining])
      (by simp [Activity.connection]) (.of_connections rfl rfl rfl) (Or.inl rfl)
  | unwind => exact sound_unwindRun h
  | finish hphase => exact sound_finishRun h hphase
  | createTx => exact hquiet (createTx_same c _ _).1 (createTx_same c _ _).2
  | use => exact hquiet (.of_connections rfl rfl rfl) rfl
  | discard => exact hquiet (stays_onTx c _ _) (onTx_activity c _ fun _ => rfl)
  | release => exact hquiet (.of_connections rfl rfl rfl) rfl
  | submit => exact hquiet (submitTx_same c _ _ _).1 (submitTx_same c _ _ _).2
  | close => exact hquiet (.of_connections rfl rfl rfl) rfl
  | stop => exact hquiet (.of_connections rfl rfl rfl) rfl
  | pingRefused => exact h
  | ping => exact hquiet (.of_connections rfl rfl rfl) rfl
  | fetchRefused => exact h
  | fetchSessions => exact hquiet (.of_connections rfl rfl rfl) rfl
  | @loopPing payload hphase =>
    have hacts := acts_loopPing c payload
    exact h.keeps (hacts.stays rfl) (hacts.keeps rfl) hphase
  | @loopFetchSessions enableStream hphase =>
    have hacts := acts_loopFetchSessions c enableStream
    exact h.keeps (hacts.stays rfl) (hacts.keeps rfl) hphase
  | pushClosed => exact hquiet ((acts_pushClosed c _ _).stays rfl) (endPush_activity _ _)
  | pushCheck => exact hquiet (.of_connections rfl rfl rfl) rfl
  | pushLocked => exact hquiet ((acts_pushEnded c _ _).stays rfl) (pushLocked_activity _ _)

/-- The client just created. -/
theorem sound_create (user password : Bytes) (maxActiveTxs rev0 servers : ℕ) (hasReactor : Bool) :
    (create user password maxActiveTxs rev0 servers hasReactor).Sound :=
  ⟨⟨by simp [create], by simp [create], by simp [create]⟩, rfl, fun _ => ⟨rfl, rfl⟩, by simp [create],
    by simp [create, Activity.connection], by simp [create], by simp [create], by simp [create]⟩

/-- Every step keeps the invariant. -/
theorem sound_step {e : Event} (h : c.Sound) (hstep : c.step globMatch e = some c') : c'.Sound := by
  obtain ⟨-, c₁, heffect, rfl⟩ := step_effect hstep
  exact (sound_effect h heffect).stays (.of_connections rfl rfl rfl) (Or.inl rfl)

/-- The invariant holds in every run from a new client. -/
theorem sound_run {ok : Client → Event → Prop} {user password : Bytes}
    {maxActiveTxs rev0 servers : ℕ} {hasReactor : Bool} {events : List Event}
    (hrun : Run (step globMatch) ok (create user password maxActiveTxs rev0 servers hasReactor)
      events c) : c.Sound :=
  hrun.invariant (fun _ _ _ _ hstep h => sound_step h hstep) (sound_create _ _ _ _ _ _)

/-- On every run, the session of a client that is not closed has an established connection and
its state, and all the other connections are closed or closing. A message that is no login
response only disconnects a connection that is not the session's, and nothing is ever sent on a
connection that is not established. -/
theorem single_session (globMatch : Glob) (user password : Bytes)
    (maxActiveTxs rev0 servers : ℕ) (hasReactor : Bool) (events : List Event) (c : Client)
    (hrun : Run (step globMatch) anyStep
      (create user password maxActiveTxs rev0 servers hasReactor) events c) :
    (c.state ≠ .closed → ∀ i, c.con = some i →
        c.connected i ∧ c.state.inSession = true ∧
        ∀ (j : ℕ) (con : Connection), j ≠ i → c.connections[j]? = some con →
          con.state = .closed ∨ con.closing = true) ∧
      (∀ (i : ℕ) (msg : Option ServerMsg) (throws : Bool), c.con ≠ some i →
        (∀ resp, msg ≠ some (.loginResponse resp)) →
          ∃ cause, c.onMsgReceived i msg throws = c.disconnect i cause) ∧
      c.misdirected = false := by
  have hsound := sound_run hrun
  refine ⟨fun hopen i hi => ⟨hsound.tied.connected i hi, hsound.tied.inSession i hi hopen,
    fun j con hj hcon => hsound.tied.others i j con hi hj hcon⟩, fun i msg throws hother hlogin => ?_,
    hsound.careful⟩
  unfold onMsgReceived
  split
  · exact ⟨_, rfl⟩
  · next resp => exact absurd rfl (hlogin resp)
  · exact ⟨_, by rw [if_pos hother]⟩

/-- Two servers accept the connection and one of them the login: the other one is closing. -/
theorem single_session_two_servers : ∃ c : Client,
    Run (step fun _ _ => true) anyStep (create [1] [2] 0 0 2 false)
        [.start none, .connected 0, .connected 1, .read 1,
          .message (some (.loginResponse ⟨.authorized, 0, 0, true, true, 10, [⟨15, [42]⟩]⟩)) false]
        c ∧
      c.con = some 1 ∧ c.connected 1 ∧ c.state.inSession = true ∧
      ∀ con, c.connections[0]? = some con → con.state = .closed ∨ con.closing = true := by
  have hexec : (execute (step fun _ _ => true) (fun _ _ => true) (create [1] [2] 0 0 2 false)
      [.start none, .connected 0, .connected 1, .read 1,
        .message (some (.loginResponse ⟨.authorized, 0, 0, true, true, 10, [⟨15, [42]⟩]⟩)) false]).map
        (fun c => (c.con, c.state)) = some (some 1, .syncing) := by
    decide +kernel
  obtain ⟨c, hrun, hend⟩ := exists_run_of_execute (fun _ _ _ => trivial) hexec
  obtain ⟨hcon, hstate⟩ := Prod.mk.inj hend
  obtain ⟨hsession, -, -⟩ := single_session _ _ _ _ _ _ _ _ c hrun
  obtain ⟨hconnected, hin, hothers⟩ := hsession (by simp [hstate]) 1 hcon
  exact ⟨c, hrun, hcon, hconnected, hin, fun con hget => hothers 0 con (by simp) hget⟩

end Runs

end Client

end Nplex
