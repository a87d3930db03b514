import Nplex.Client.Session

/-!
# Reconnecting

A client that lost its session connects again at once, from the state OFFLINE. A client that
could not connect to any server waits for the reconnect timer, but in the state CONNECTING, which
the guard of `try_to_connect` refuses when the timer fires. As long as the timer does not fire,
a running client always has a session, a connection that is not closed, or the timer.
-/

namespace Nplex

open Nplex.Common

namespace Client

/-- Running with no session, every connection closed and no reconnect timer pending. -/
structure Stuck (c : Client) : Prop where
  running : c.phase = .running
  goes : c.broken = false
  opened : c.state ≠ .closed
  free : c.con = none
  closed : c.allClosed
  timer : c.timerReconnect = false

/-- The client has servers and is not stuck. -/
structure Lively (c : Client) : Prop where
  servers : c.phase ≠ .finished → c.connections ≠ []
  notStuck : ¬c.Stuck

section Handlers

variable {globMatch : Glob} {c c' : Client}

/-- A client with a connection that is not closed is not stuck. -/
theorem not_stuck_of_connected {i : ℕ} (h : c.connected i) : ¬c.Stuck := by
  intro hstuck
  obtain ⟨con, hcon, hstate⟩ := h
  have hclosed := hstuck.closed con (List.mem_of_getElem? hcon)
  rw [hstate] at hclosed
  cases hclosed

/-- The lists of connections are as long as the lists of their states. -/
theorem connections_ne_nil (hstates : c'.connections.map (·.state) = c.connections.map (·.state))
    (h : c.connections ≠ []) : c'.connections ≠ [] := by
  intro hnil
  rw [hnil, List.map_nil, eq_comm, List.map_eq_nil_iff] at hstates
  exact h hstates

/-- What leaves the life of the client alone leaves it lively. -/
theorem Lively.of_link (h : c.Lively) (hlink : c'.link = c.link)
    (hgoes : c'.broken = false → c.broken = false) : c'.Lively where
  servers hphase :=
    connections_ne_nil (connections_of_link hlink) (h.servers (phase_of_link hlink ▸ hphase))
  notStuck hstuck :=
    h.notStuck ⟨(phase_of_link hlink).symm.trans hstuck.running, hgoes hstuck.goes,
      (state_of_link hlink).symm.trans_ne hstuck.opened, (con_of_link hlink).symm.trans hstuck.free,
      (allClosed_congr (connections_of_link hlink)).mp hstuck.closed,
      (timerReconnect_of_link hlink).symm.trans hstuck.timer⟩

/-- A handler goes on only if the loop did. -/
theorem Keeps.goes (h : Keeps c c') (hgoes : c'.broken = false) : c.broken = false := by
  rcases h with hsame | hbroken
  · rw [broken, ← hsame]
    exact hgoes
  · rw [hbroken] at hgoes
    cases hgoes

/-- Actions that leave alone the life of the client and what the event loop is doing. -/
theorem Acts.lively {kinds : List ActionKind} (hacts : Acts kinds c c')
    (hlink : kinds.all ActionKind.keepsLink = true)
    (hkeeps : kinds.all ActionKind.keepsActivity = true) (h : c.Lively) : c'.Lively :=
  h.of_link (hacts.link hlink) (hacts.keeps hkeeps).goes

/-- An aborted client is not stuck. -/
theorem lively_abort (h : c.Lively) : c.abort.Lively := by
  by_cases hclosed : c.state = .closed
  · rw [abort_of_closed hclosed]
    exact h
  · have hlink := abort_link hclosed
    exact ⟨fun hphase => connections_ne_nil (congrArg Link.connections hlink)
        (h.servers ((congrArg Link.phase hlink).symm.trans_ne hphase)),
      fun hstuck => hstuck.opened (congrArg Link.state hlink)⟩

/-- Connecting from OFFLINE ends the loop or leaves every connection CONNECTING. -/
theorem lively_tryToConnect (hoffline : c.state = .offline) (hservers : c.connections ≠ [])
    (refused : Option ℕ) : (c.tryToConnect refused).Lively := by
  have hlength := connectAll_length refused c.connections
  have hservers' : (connectAll refused c.connections).1 ≠ [] := by
    intro hnil
    rw [hnil, List.length_nil, eq_comm, List.length_eq_zero_iff] at hlength
    exact hservers hlength
  rw [tryToConnect_of_offline hoffline]
  split
  · refine ⟨fun _ => hservers', fun hstuck => ?_⟩
    have hgoes := hstuck.goes
    simp [throw, broken] at hgoes
  · next hthrows =>
    refine ⟨fun _ => hservers', fun hstuck => ?_⟩
    obtain ⟨con, hcon⟩ := List.exists_mem_of_ne_nil _ hservers'
    have hclosed := hstuck.closed con hcon
    rw [connectAll_connecting (by simpa using hthrows) con hcon] at hclosed
    cases hclosed

/-- The messages leave the states of the connections alone. -/
theorem states_onMsgReceived (c : Client) (i : ℕ) (msg : Option ServerMsg) (throws : Bool) :
    (c.onMsgReceived i msg throws).connections.map (·.state) = c.connections.map (·.state) := by
  by_cases hlogin : ∃ resp, msg = some (.loginResponse resp)
  · obtain ⟨resp, rfl⟩ := hlogin
    have haccept := (acceptLogin_spec c i resp).2.2.2.2.2
    have hrefuse : ∀ cause, (c.disconnect i cause).connections.map (·.state) =
        c.connections.map (·.state) := fun cause => (aside_disconnect c i cause).states
    unfold onMsgReceived processLoginResp
    dsimp only
    split
    · exact hrefuse _
    · split
      · exact hrefuse _
      · split
        · exact hrefuse _
        · refine ((acts_startSession _ resp).stays rfl).states.trans ?_
          split
          · exact (stays_abort _).states.trans (by rw [haccept])
          · rw [haccept]
  · have hacts := acts_onMsgReceived_of_session c i throws fun resp hresp => hlogin ⟨resp, hresp⟩
    exact (hacts.stays rfl).states

/-- Where the states of the connections are the same, a connected one keeps the client lively. -/
theorem Lively.of_connected (h : c.Lively) {i : ℕ} (hi : c.connected i)
    (hphase : c.phase ≠ .finished)
    (hstates : c'.connections.map (·.state) = c.connections.map (·.state)) : c'.Lively :=
  ⟨fun _ => connections_ne_nil hstates (h.servers hphase),
    not_stuck_of_connected ((connected_congr hstates i).mpr hi)⟩

/-- The close callback of a connection reconnects, starts the timer or closes the client. -/
theorem lively_closed (h : c.Lively) (hphase : c.phase = .running) (i : ℕ) (con : Connection)
    (delay : Option Int) (retry : Option Bool) (refused : Option ℕ) :
    (onConnectionClosed { c with connections := c.connections.set i con.onClose } i delay retry
      refused).Lively := by
  have hservers : c.connections.set i con.onClose ≠ [] := by
    simpa using h.servers (by simp [hphase])
  unfold onConnectionClosed
  split
  · next hclosed =>
    refine ⟨fun _ => hservers, fun hstuck => hstuck.opened ?_⟩
    simpa [isClosed] using hclosed
  · next hopen =>
    have hopen' : c.state ≠ .closed := by simpa [isClosed] using hopen
    have habort : ∀ {d : Client}, d.state ≠ .closed → d.connections ≠ [] → d.abort.Lively := by
      intro d hopen₁ hservers₁
      have hlink := abort_link hopen₁
      exact ⟨fun _ => connections_ne_nil (congrArg Link.connections hlink) hservers₁,
        fun hstuck => hstuck.opened (congrArg Link.state hlink)⟩
    split
    · split
      · exact habort hopen' hservers
      · unfold scheduleReconnect
        rw [if_neg hopen,
          write_of_open (c := { c with connections := c.connections.set i con.onClose }) hopen']
        exact ⟨fun _ => hservers, fun hstuck => by simpa using hstuck.timer⟩
    · next hfailed =>
      split
      · refine ⟨fun _ => hservers, fun hstuck => hfailed ?_⟩
        simp only [Bool.and_eq_true, decide_eq_true_eq, List.all_eq_true]
        refine ⟨hstuck.free, fun con' hcon' => ?_⟩
        have hclosed := hstuck.closed con' hcon'
        simp [Connection.isClosed, hclosed]
      · obtain ⟨-, hoffline, -, -, -, hstates⟩ := loseSession_spec
          (c := { c with connections := c.connections.set i con.onClose }) hopen'
        have hservers' := connections_ne_nil hstates hservers
        unfold andThen
        split
        · next hbroken =>
          refine ⟨fun _ => hservers', fun hstuck => ?_⟩
          have hgoes := hstuck.goes
          rw [hbroken] at hgoes
          cases hgoes
        · dsimp only
          split
          · exact lively_tryToConnect (c := { loseSession _ with timerConLost := false }) hoffline
              hservers' _
          · exact habort (d := { loseSession _ with timerConLost := false })
              (by simp [hoffline]) hservers'

/-- The end of `run` begins with the same servers. -/
theorem unwindRun_spec (c : Client) : c.unwindRun.phase = .unwinding ∧
    c.unwindRun.connections.map (·.state) = c.connections.map (·.state) := by
  have hlink := setState_closed_link { c with phase := .unwinding, activity := .idle }
  unfold unwindRun
  dsimp only
  generalize setState { c with phase := .unwinding, activity := .idle } .closed = c₁ at hlink
  have hcancel := (acts_cancelRequests c₁).stays rfl
  have hend : Stays c₁.cancelRequests
      (c₁.cancelRequests.andThen (·.disconnectAll .closedByLocal)) :=
    .andThen (aside_disconnectAll _ _).stays
  have hboth := hcancel.trans hend
  exact ⟨hboth.phase.trans (congrArg Link.phase hlink),
    hboth.states.trans (congrArg Link.connections hlink)⟩

/-- The steps in which the reconnect timer does not fire in a client that is not closed. -/
def quietTimer (c : Client) : Event → Bool
  | .timerReconnect _ => c.isClosed
  | _ => true

/-- Every step in which the timer does not fire keeps the client lively. -/
theorem lively_effect {e : Event} (h : c.Lively) (hsound : c.Sound) (hquiet : c.quietTimer e = true)
    (heffect : Effect globMatch c e c') : c'.Lively := by
  have hbooks : ∀ {c' : Client}, c'.link = c.link → c'.activity = c.activity → c'.Lively :=
    fun hlink hsame => h.of_link hlink fun hgoes => by rwa [broken, ← hsame]
  have hmoved : ∀ {i : ℕ} {c' : Client}, c.activity.connection = some i →
      c'.connections.map (·.state) = c.connections.map (·.state) → c'.Lively := by
    intro i c' hi hstates
    have hphase := hsound.busy fun hidle => by simp [hidle, Activity.connection] at hi
    exact h.of_connected (hsound.reading i hi) (by simp [hphase]) hstates
  have hquietly : ∀ {kinds : List ActionKind} {c' : Client}, Acts kinds c c' →
      kinds.all ActionKind.keepsLink = true → kinds.all ActionKind.keepsActivity = true → c'.Lively :=
    fun hacts hlink hkeeps => hacts.lively hlink hkeeps h
  cases heffect with
  | start hphase hstate =>
    exact lively_tryToConnect (c := { c with phase := .running, con := none }) hstate
      (h.servers (by simp [hphase])) _
  | @connected i con hphase hidle hcon hstate =>
    have hlength := (List.getElem?_eq_some_iff.mp hcon).1
    have hlink := (acts_onConnectionEstablished
      { c with connections := c.connections.set i { con with state := .connected } } i).link rfl
    refine ⟨fun _ => connections_ne_nil (connections_of_link hlink) ?_,
      not_stuck_of_connected ((connected_congr (connections_of_link hlink) i).mpr ?_)⟩
    · simpa using h.servers (by simp [hphase])
    · exact ⟨{ con with state := .connected }, by simp [hlength], rfl⟩
  | failed => exact hquietly ((aside_disconnect c _ _).acts (List.mem_singleton_self _)) rfl rfl
  | closed hphase => exact lively_closed h hphase _ _ _ _ _
  | @read i con hphase hidle hcon hstate =>
    exact h.of_connected ⟨con, hcon, hstate⟩ (by simp [hphase]) rfl
  | @message i msg throws hreading =>
    exact hmoved (i := i) (by simp [hreading, Activity.connection]) (states_onMsgReceived c i msg throws)
  | @malformed i hreading =>
    exact hmoved (i := i) (by simp [hreading, Activity.connection]) (aside_disconnect _ i _).states
  | @readEnd i hreading => exact hmoved (i := i) (by simp [hreading, Activity.connection]) rfl
  | @update i crev u rest hpushing =>
    exact hmoved (i := i) (by simp [hpushing, Activity.connection])
      ((acts_pushUpdate globMatch _ crev u).stays rfl).states
  | @updatesEnd i crev hpushing =>
    exact hmoved (i := i) (by simp [hpushing, Activity.connection]) rfl
  | timerConLost hphase hidle =>
    have hfirst := hquietly (acts_disconnectCon c .conLost) rfl rfl
    exact ⟨hfirst.servers, fun hstuck => hfirst.notStuck
      ⟨hstuck.running, hstuck.goes, hstuck.opened, hstuck.free, hstuck.closed, hstuck.timer⟩⟩
  | timerReconnect hphase hidle htimer =>
    have hclosed : c.state = .closed := isClosed_eq_true.mp hquiet
    rw [tryToConnect_of_not_offline (c := { c with timerReconnect := false }) (by simp [hclosed])]
    exact ⟨h.servers, fun hstuck => hstuck.opened hclosed⟩
  | sigint => exact lively_abort h
  | asyncClosed => exact hbooks rfl rfl
  | async hphase hidle => exact h.of_link rfl fun _ => by simp [broken, hidle]
  | @command command rest hdraining hcommands =>
    cases command with
    | close =>
      have hrest : Lively { c with commands := rest } := hbooks rfl rfl
      exact lively_abort hrest
    | request kind =>
      exact hquietly (acts_nextRequest c kind rest) rfl rfl
  | commandsEnd hdraining => exact h.of_link rfl fun _ => by simp [broken, hdraining]
  | unwind hphase =>
    obtain ⟨hunwinding, hstates⟩ := unwindRun_spec c
    refine ⟨fun _ => connections_ne_nil hstates (h.servers (by simp [hphase])), fun hstuck => ?_⟩
    have hrunning := hstuck.running
    rw [hunwinding] at hrunning
    cases hrunning
  | finish => exact ⟨by simp [finishRun], fun hstuck => by simpa [finishRun] using hstuck.running⟩
  | createTx => exact hbooks (createTx_link c _ _) (createTx_same c _ _).2
  | use => exact hbooks rfl rfl
  | discard => exact h.of_link (onTx_link c _ _) (keeps_onTx c _ _).goes
  | release => exact hbooks rfl rfl
  | submit => exact hbooks (submitTx_link c _ _ _) (submitTx_same c _ _ _).2
  | close => exact hbooks rfl rfl
  | stop => exact hbooks rfl rfl
  | pingRefused => exact h
  | ping => exact hbooks rfl rfl
  | fetchRefused => exact h
  | fetchSessions => exact hbooks rfl rfl
  | loopPing => exact hquietly (acts_loopPing c _) rfl rfl
  | loopFetchSessions => exact hquietly (acts_loopFetchSessions c _) rfl rfl
  | @pushClosed n p => exact hquietly (acts_pushClosed c n p) rfl rfl
  | pushCheck => exact hbooks rfl rfl
  | @pushLocked n p => exact hquietly (acts_pushEnded c n p) rfl rfl

end Handlers

section Runs

variable {globMatch : Glob} {c c' : Client}

/-- Every step whose timer is quiet keeps the client lively. -/
theorem lively_step {e : Event} (h : c.Lively) (hsound : c.Sound) (hquiet : c.quietTimer e = true)
    (hstep : c.step globMatch e = some c') : c'.Lively := by
  obtain ⟨-, c₁, heffect, rfl⟩ := step_effect hstep
  exact (lively_effect h hsound hquiet heffect).of_link rfl id

/-- The client just created, with servers. -/
theorem lively_create {user password : Bytes} {maxActiveTxs rev0 servers : ℕ} {hasReactor : Bool}
    (hservers : 0 < servers) :
    (create user password maxActiveTxs rev0 servers hasReactor).Lively := by
  refine ⟨fun _ => ?_, fun hstuck => by simpa [create] using hstuck.running⟩
  simp [create, hservers.ne']

/-- What reconnecting promises of a step: neither before nor after it the client is stuck, and
when the reconnect timer fires in a client that is not closed, `connect` is started on every
connection, unless one of them throws. -/
def reconnects (globMatch : Glob) (c : Client) (e : Event) : Prop :=
  ¬c.Stuck ∧ ∀ c', c.step globMatch e = some c' → ¬c'.Stuck ∧
    ∀ refused, e = .timerReconnect refused → c.state ≠ .closed →
      c'.activity = .thrown ∨ ∀ con ∈ c'.connections, con.state = .connecting

/-- When the timer fires in a client that is not closed, the guard of `try_to_connect` makes it
return at once. -/
theorem quietTimer_of_reconnects {e : Event} (h : c.Lively) (hsound : c.Sound)
    (hstep : c.step globMatch e = some c') (hreconnects : reconnects globMatch c e) :
    c.quietTimer e = true := by
  cases e with
  | timerReconnect refused =>
    by_contra hnot
    have hopen : c.state ≠ .closed := by simpa [quietTimer, isClosed] using hnot
    obtain ⟨-, c₁, heffect, rfl⟩ := step_effect hstep
    cases heffect with
    | timerReconnect hphase hidle htimer =>
      obtain ⟨-, hclosed, hoffline⟩ := hsound.timer htimer
      rw [tryToConnect_of_not_offline (c := { c with timerReconnect := false }) hoffline] at hstep
      rcases (hreconnects.2 _ hstep).2 refused rfl hopen with hthrown | hconnecting
      · have hidle' : c.activity = .thrown := hthrown
        rw [hidle] at hidle'
        cases hidle'
      · obtain ⟨con, hcon⟩ := List.exists_mem_of_ne_nil _ (h.servers (by simp [hphase]))
        have hstate := hclosed con hcon
        rw [hconnecting con hcon] at hstate
        cases hstate
  | _ => rfl

/-- A lively client reconnects in a step in which the timer does not fire. -/
theorem reconnects_of_quietTimer {e : Event} (h : c.Lively) (hsound : c.Sound)
    (hquiet : c.quietTimer e = true) : reconnects globMatch c e := by
  refine ⟨h.notStuck, fun c' hstep => ⟨(lively_step h hsound hquiet hstep).notStuck, ?_⟩⟩
  rintro refused rfl hopen
  exact absurd (isClosed_eq_true.mp hquiet) hopen

/-- Along a run of a client with servers, the client reconnects and is never stuck exactly when
the reconnect timer never fires in a client that is not closed. -/
theorem reconnects_iff_quietTimer (globMatch : Glob) (user password : Bytes)
    (maxActiveTxs rev0 servers : ℕ) (hasReactor : Bool) (events : List Event) (last : Client)
    (hservers : 0 < servers) :
    Run (step globMatch) (reconnects globMatch)
        (create user password maxActiveTxs rev0 servers hasReactor) events last ↔
      Run (step globMatch) (fun c e => c.quietTimer e = true)
        (create user password maxActiveTxs rev0 servers hasReactor) events last := by
  have hinit : (create user password maxActiveTxs rev0 servers hasReactor).Sound ∧
      (create user password maxActiveTxs rev0 servers hasReactor).Lively :=
    ⟨sound_create _ _ _ _ _ _, lively_create hservers⟩
  constructor
  · refine Run.change (fun c => c.Sound ∧ c.Lively) (fun c e next hok hstep h => ?_)
      (fun c e next h hstep hok => ?_) hinit
    · have hquiet := quietTimer_of_reconnects h.2 h.1 hstep hok
      exact ⟨sound_step h.1 hstep, lively_step h.2 h.1 hquiet hstep⟩
    · exact quietTimer_of_reconnects h.2 h.1 hstep hok
  · refine Run.change (fun c => c.Sound ∧ c.Lively) (fun c e next hok hstep h => ?_)
      (fun c e next h _ hok => ?_) hinit
    · exact ⟨sound_step h.1 hstep, lively_step h.2 h.1 hok hstep⟩
    · exact reconnects_of_quietTimer h.2 h.1 hok

/-- A server that refuses the connection, and a manager that asks for a retry: when the timer
fires nothing is connected, and the client is stuck. -/
theorem timer_connects_nothing :
    ¬∀ (events : List Event) (c : Client),
      Run (step fun _ _ => true) anyStep (create [1] [2] 0 0 1 false) events c → ¬c.Stuck := by
  intro h
  have hexec : (execute (step fun _ _ => true) (fun _ _ => true) (create [1] [2] 0 0 1 false)
      [.start none, .failed 0 (.system (-111)), .closed 0 (some 1000) none none,
        .timerReconnect none]).map
        (fun c => decide (c.phase = .running ∧ c.broken = false ∧ c.state = .connecting ∧
          c.con = none ∧ c.connections.map (·.state) = [.closed] ∧ c.timerReconnect = false)) =
      some true := by
    decide +kernel
  obtain ⟨c, hrun, hend⟩ := exists_run_of_execute (fun _ _ _ => trivial) hexec
  obtain ⟨hphase, hgoes, hstate, hcon, hstates, htimer⟩ := of_decide_eq_true hend
  refine h _ c hrun ⟨hphase, hgoes, by simp [hstate], hcon, fun con hmem => ?_, htimer⟩
  have hmem' := List.mem_map_of_mem (f := fun con : Connection => con.state) hmem
  simpa [hstates] using hmem'

/-- A lost session is connected again at once. -/
theorem reconnects_iff_quietTimer_lost : ∃ c : Client,
    Run (step fun _ _ => true) (reconnects fun _ _ => true) (create [1] [2] 0 0 1 false)
        [.start none, .connected 0, .read 0,
          .message (some (.loginResponse ⟨.authorized, 0, 0, true, true, 10, [⟨15, [42]⟩]⟩)) false,
          .readEnd, .failed 0 .closedByPeer, .closed 0 none (some true) none] c ∧
      c.state = .connecting := by
  have hexec : (execute (step fun _ _ => true) quietTimer (create [1] [2] 0 0 1 false)
      [.start none, .connected 0, .read 0,
        .message (some (.loginResponse ⟨.authorized, 0, 0, true, true, 10, [⟨15, [42]⟩]⟩)) false,
        .readEnd, .failed 0 .closedByPeer, .closed 0 none (some true) none]).map (·.state) =
      some .connecting := by
    decide +kernel
  obtain ⟨c, hrun, hstate⟩ := exists_run_of_execute (fun _ _ h => h) hexec
  exact ⟨c, (reconnects_iff_quietTimer _ _ _ _ _ _ _ _ _ (by decide)).mpr hrun, hstate⟩

end Runs

end Client

end Nplex
