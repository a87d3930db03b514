import Nplex.Client.Steps

/-!
# CLOSED is final

A closed client should stay closed: no state is set, no connection is taken for the session and
no timer is started any more. Each handler but one checks the state before such a write, or runs
only for the session's connection, and a closed client has no session. The exception is
`process_login_resp`: it looks at `m_con` alone, which is null in a closed client, and it goes on
after it has closed the client because the manager threw.
-/

namespace Nplex

open Nplex.Common

/-- The actions of handlers that respect CLOSED. -/
def ActionKind.absorbs : ActionKind → Bool
  | .revive | .join => false
  | _ => true

/-- The actions that close no client. -/
def ActionKind.staysOpen : ActionKind → Bool
  | .close | .shut => false
  | _ => true

namespace Client

/-- What a handler does to a client that is, or becomes, closed. -/
structure Absorbs (c c' : Client) : Prop where
  /-- No write is made while the client is closed. -/
  clean : c'.afterClosed = c.afterClosed
  closed : c.state = .closed → c'.state = .closed ∧ (c'.con = c.con ∨ c'.con = none) ∧
    (c'.timerConLost = true → c.timerConLost = true) ∧
    (c'.timerReconnect = true → c.timerReconnect = true)

section Handlers

variable {c c' c'' : Client}

/-- Doing nothing absorbs. -/
theorem Absorbs.refl (c : Client) : Absorbs c c :=
  ⟨rfl, fun h => ⟨h, Or.inl rfl, id, id⟩⟩

/-- Handlers absorb one after the other. -/
theorem Absorbs.trans (h : Absorbs c c') (h' : Absorbs c' c'') : Absorbs c c'' := by
  refine ⟨h'.clean.trans h.clean, fun hclosed => ?_⟩
  obtain ⟨hstate, hcon, hlost, hreconnect⟩ := h.closed hclosed
  obtain ⟨hstate', hcon', hlost', hreconnect'⟩ := h'.closed hstate
  refine ⟨hstate', ?_, hlost ∘ hlost', hreconnect ∘ hreconnect'⟩
  rcases hcon' with hcon' | hcon'
  · rw [hcon']
    exact hcon
  · exact Or.inr hcon'

/-- A handler that leaves the life of the client alone. -/
theorem Absorbs.of_link (h : c'.link = c.link) : Absorbs c c' :=
  ⟨afterClosed_of_link h, fun hclosed =>
    ⟨(state_of_link h).trans hclosed, Or.inl (con_of_link h),
      fun hlost => (congrArg Link.timerConLost h).symm.trans hlost,
      fun hreconnect => (timerReconnect_of_link h).symm.trans hreconnect⟩⟩

/-- A write to a client that is not closed is not recorded. -/
theorem write_of_open (hopen : c.state ≠ .closed) (w : Write) : c.write w = c := by
  simp [write, isClosed, hopen]

/-- Setting an open state of an open client. -/
theorem setState_eq (hopen : c.state ≠ .closed) {s : ClientState} (hs : s ≠ .closed) :
    c.setState s = { c with state := s } := by
  unfold setState
  by_cases hsame : c.state = s
  · rw [if_pos hsame, ← hsame]
  · rw [if_neg hsame, write_of_open hopen]
    simp [hs]

/-- Whatever an open client does without a recorded write. -/
theorem Absorbs.of_open (hopen : c.state ≠ .closed) (hclean : c'.afterClosed = c.afterClosed) :
    Absorbs c c' :=
  ⟨hclean, fun h => absurd h hopen⟩

/-- An open client may set an open state. -/
theorem absorbs_setState (hopen : c.state ≠ .closed) {s : ClientState} (hs : s ≠ .closed) :
    Absorbs c (c.setState s) := by
  rw [setState_eq hopen hs]
  exact .of_open hopen rfl

/-- What `set_state(CLOSED)` leaves of the life of the client. -/
theorem setState_closed_link (c : Client) :
    (c.setState .closed).link = { c.link with state := .closed } := by
  unfold setState
  by_cases hclosed : c.state = .closed
  · simp [hclosed, link]
  · rw [if_neg hclosed, write_of_open hclosed]
    simp [link]

/-- What `abort` leaves of the life of an open client. -/
theorem abort_link (hopen : c.state ≠ .closed) :
    c.abort.link = { c.link with
      state := .closed, con := none, timerConLost := false, timerReconnect := false } := by
  unfold abort
  rw [if_neg (by simp [isClosed, hopen])]
  have hstates : (c.connections.map (·.disconnect .closedByLocal)).map (·.state) =
      c.connections.map (·.state) := by simp [Function.comp_def]
  refine (setState_closed_link _).trans ?_
  simp only [link, disconnectAll, hstates]

/-- A closed client is left as it is by `abort`. -/
theorem abort_of_closed (hclosed : c.state = .closed) : c.abort = c := by
  simp [abort, isClosed, hclosed]

/-- Aborting a closed client does nothing. -/
theorem absorbs_abort (c : Client) : Absorbs c c.abort := by
  by_cases hclosed : c.state = .closed
  · rw [abort_of_closed hclosed]
    exact .refl c
  · exact .of_open hclosed (congrArg Link.afterClosed (abort_link hclosed))

/-- A closed client does not connect. -/
theorem absorbs_tryToConnect (c : Client) (refused : Option ℕ) :
    Absorbs c (c.tryToConnect refused) := by
  unfold tryToConnect
  by_cases hguard : (c.isClosed || decide (c.state ≠ .offline)) = true
  · rw [if_pos hguard]
    exact .refl c
  · rw [if_neg hguard]
    have hoffline : c.state = .offline := by
      simp only [Bool.or_eq_true, decide_eq_true_eq, not_or, not_not] at hguard
      exact hguard.2
    dsimp only
    rw [setState_eq (by simp [hoffline]) (by simp)]
    have hopen : c.state ≠ .closed := by simp [hoffline]
    split <;> exact .of_open hopen rfl

/-- Nor does it start the reconnection timer. -/
theorem absorbs_scheduleReconnect (c : Client) : Absorbs c c.scheduleReconnect := by
  unfold scheduleReconnect
  split
  · exact .refl c
  · next hopen =>
    have hopen' : c.state ≠ .closed := by simpa [isClosed] using hopen
    rw [write_of_open hopen']
    exact .of_open hopen' rfl

/-- Setting CLOSED. -/
theorem absorbs_setClosed (c : Client) : Absorbs c (c.setState .closed) := by
  have hlink := setState_closed_link c
  exact ⟨congrArg Link.afterClosed hlink, fun _ => ⟨congrArg Link.state hlink,
    Or.inl (congrArg Link.con hlink), fun h => (congrArg Link.timerConLost hlink).symm.trans h,
    fun h => (congrArg Link.timerReconnect hlink).symm.trans h⟩⟩

/-- The actions of handlers that check the state, or run only for a client that is not CLOSED. -/
theorem Action.absorbs {k : ActionKind} (h : Action k c c') (hk : k.absorbs = true) :
    Absorbs c c' := by
  by_cases hlink : k.keepsLink = true
  · exact .of_link (h.link hlink)
  cases h with
  | setState _ hopen hs =>
    refine absorbs_setState hopen ?_
    rintro rfl
    cases hs
  | close => exact absorbs_abort c
  | leave _ hopen =>
    rw [setState_eq hopen (by simp)]
    exact .of_open hopen rfl
  | connect => exact absorbs_tryToConnect c _
  | reconnect => exact absorbs_scheduleReconnect c
  | stopTimer => exact ⟨rfl, fun h => ⟨h, Or.inl rfl, fun hlost => absurd hlost (by simp), id⟩⟩
  | shut =>
    have hbegin : Absorbs c { c with phase := .unwinding, activity := .idle } :=
      ⟨rfl, fun h => ⟨h, Or.inl rfl, id, id⟩⟩
    exact hbegin.trans (absorbs_setClosed _)
  | request _ hcon hrequest => cases hrequest <;> exact absurd rfl hlink
  | revive => cases hk
  | startTimer => cases hk
  | join => cases hk
  | _ => exact absurd rfl hlink

/-- A handler made of absorbing actions absorbs. -/
theorem Acts.absorbs {kinds : List ActionKind} (h : Acts kinds c c')
    (hkinds : kinds.all ActionKind.absorbs = true) : Absorbs c c' :=
  h.frame hkinds .refl .trans Action.absorbs

/-- An open client stays open, and makes no recorded write. -/
def StaysOpen (c c' : Client) : Prop :=
  c.state ≠ .closed → c'.state ≠ .closed ∧ c'.afterClosed = c.afterClosed

/-- Setting an open state keeps the client open. -/
theorem staysOpen_setState (c : Client) {s : ClientState} (hs : s ≠ .closed) :
    StaysOpen c (c.setState s) := fun hopen => by
  rw [setState_eq hopen hs]
  exact ⟨hs, rfl⟩

/-- So does trying to connect. -/
theorem staysOpen_tryToConnect (c : Client) (refused : Option ℕ) :
    StaysOpen c (c.tryToConnect refused) := fun hopen => by
  refine ⟨?_, (absorbs_tryToConnect c refused).clean⟩
  unfold tryToConnect
  split
  · exact hopen
  · dsimp only
    split <;> simp [throw]

/-- Only closing and the way out of `run` close a client. -/
theorem Action.staysOpen {k : ActionKind} (h : Action k c c') (hk : k.staysOpen = true) :
    StaysOpen c c' := by
  by_cases hlink : k.keepsLink = true
  · have hsame := h.link hlink
    exact fun hopen => ⟨(state_of_link hsame).trans_ne hopen, afterClosed_of_link hsame⟩
  cases h with
  | setState _ hopen hs =>
    refine staysOpen_setState c ?_
    rintro rfl
    cases hs
  | revive _ hs =>
    refine staysOpen_setState c ?_
    rintro rfl
    cases hs
  | startTimer =>
    intro hopen
    unfold startTimerConLost
    rw [write_of_open hopen]
    split <;> exact ⟨hopen, rfl⟩
  | join _ i resp =>
    intro hopen
    unfold acceptLogin
    rw [write_of_open hopen]
    exact staysOpen_setState { c with
      con := some i
      account := some ⟨c.user, resp.permissions, resp.canForce, resp.canMonitor⟩ } (by simp) hopen
  | request _ hcon hrequest => cases hrequest <;> exact absurd rfl hlink
  | close => cases hk
  | leave => exact fun hopen => staysOpen_setState c (s := .offline) (by simp) hopen
  | connect => exact staysOpen_tryToConnect c _
  | reconnect =>
    intro hopen
    unfold scheduleReconnect
    rw [write_of_open hopen]
    split <;> exact ⟨hopen, rfl⟩
  | stopTimer => exact fun hopen => ⟨hopen, rfl⟩
  | shut => cases hk
  | _ => exact absurd rfl hlink

/-- A handler that neither aborts nor unwinds keeps the client open. -/
theorem Acts.staysOpen {kinds : List ActionKind} (h : Acts kinds c c')
    (hkinds : kinds.all ActionKind.staysOpen = true) : StaysOpen c c' :=
  h.frame hkinds (fun _ hopen => ⟨hopen, rfl⟩)
    (fun h h' hopen => ⟨(h' (h hopen).1).1, (h' (h hopen).1).2.trans (h hopen).2⟩) Action.staysOpen

/-- The login response passes the checks of `process_login_resp`. -/
def acceptsLogin (c : Client) (resp : LoginResponse) : Bool :=
  c.con = none && resp.code = .authorized && !resp.permissions.isEmpty

/-- A login response absorbs unless it is accepted by a closed client. -/
theorem absorbs_processLoginResp {i : ℕ} {resp : LoginResponse} {throws : Bool}
    (hrespects : c.acceptsLogin resp = true → c.state ≠ .closed ∧ throws = false) :
    Absorbs c (c.processLoginResp i resp throws) := by
  unfold processLoginResp
  split
  · exact .of_link (disconnect_link c _ _)
  · split
    · exact .of_link (disconnect_link c _ _)
    · split
      · exact .of_link (disconnect_link c _ _)
      · next hcon hcode hpermissions =>
        obtain ⟨hopen, rfl⟩ := hrespects (by simp_all [acceptsLogin])
        have haccept : Acts [.aside, .join, .revive, .fetch] c (c.acceptLogin i resp) :=
          (Action.join c i resp).acts (by decide)
        have hacts := haccept.trans ((acts_startSession _ resp).mono (by decide))
        exact .of_open hopen ((hacts.staysOpen rfl hopen).2)

/-- The messages of a client that is running without a session once it is closed. -/
theorem absorbs_onMsgReceived {i : ℕ} {msg : Option ServerMsg} {throws : Bool}
    (hrespects : ∀ resp, msg = some (.loginResponse resp) → c.acceptsLogin resp = true →
      c.state ≠ .closed ∧ throws = false) : Absorbs c (c.onMsgReceived i msg throws) := by
  by_cases hlogin : ∃ resp, msg = some (.loginResponse resp)
  · obtain ⟨resp, rfl⟩ := hlogin
    exact absorbs_processLoginResp (hrespects resp rfl)
  · have hacts := acts_onMsgReceived_of_session c i throws fun resp hresp => hlogin ⟨resp, hresp⟩
    exact hacts.absorbs rfl

end Handlers

section Runs

variable {globMatch : Glob} {c c' : Client}

/-- `run` starts with an open client. -/
theorem absorbs_startRun (hopen : c.state ≠ .closed) (refused : Option ℕ) :
    Absorbs c (c.startRun refused) := by
  have hbegin : Absorbs c { c with phase := .running, con := none } := .of_open hopen rfl
  exact hbegin.trans (absorbs_tryToConnect _ _)

/-- The steps in which the code respects CLOSED: a login that passes its checks finds the client
open, and the manager does not throw at it. -/
def respectsClosed (c : Client) : Event → Bool
  | .message (some (.loginResponse resp)) throws =>
    !c.acceptsLogin resp || (!c.isClosed && !throws)
  | _ => true

/-- A step that respects CLOSED makes no recorded write, and a closed client stays closed. -/
theorem absorbs_effect {e : Event} (hrespects : c.respectsClosed e = true)
    (h : Effect globMatch c e c') : Absorbs c c' := by
  cases h with
  | start hphase hstate => exact absorbs_startRun (by simp [hstate]) _
  | @connected i con hphase hidle hcon hstate =>
    refine Absorbs.trans ?_ ((acts_onConnectionEstablished _ _).absorbs rfl)
    exact ⟨rfl, fun h => ⟨h, Or.inl rfl, id, id⟩⟩
  | failed => exact .of_link (disconnect_link c _ _)
  | closed hphase hidle hcon hstate =>
    refine Absorbs.trans ?_ ((acts_onConnectionClosed _ _ _ _ _).absorbs rfl)
    exact ⟨rfl, fun h => ⟨h, Or.inl rfl, id, id⟩⟩
  | read => exact .of_link rfl
  | @message i msg throws hreading =>
    refine absorbs_onMsgReceived fun resp hresp haccepts => ?_
    subst hresp
    simpa [respectsClosed, haccepts, isClosed_eq_false] using hrespects
  | malformed => exact .of_link (disconnect_link _ _ _)
  | readEnd => exact .of_link rfl
  | update =>
    refine Absorbs.trans ?_ ((acts_pushUpdate _ _ _ _).absorbs rfl)
    exact .of_link rfl
  | updatesEnd => exact .of_link rfl
  | timerConLost => exact (acts_onConnectionLost c).absorbs rfl
  | timerReconnect =>
    refine Absorbs.trans ?_ (absorbs_tryToConnect _ _)
    exact ⟨rfl, fun h => ⟨h, Or.inl rfl, id, by simp⟩⟩
  | sigint => exact absorbs_abort c
  | asyncClosed => exact .of_link rfl
  | async => exact .of_link rfl
  | command => exact (acts_nextCommand c _ _).absorbs rfl
  | commandsEnd => exact .of_link rfl
  | unwind => exact (acts_unwindRun c).absorbs rfl
  | finish => exact ⟨rfl, fun h => ⟨h, Or.inr rfl, id, id⟩⟩
  | createTx => exact .of_link (createTx_link c _ _)
  | use => exact .of_link rfl
  | discard => exact .of_link (onTx_link c _ _)
  | release => exact .of_link rfl
  | submit => exact .of_link (submitTx_link c _ _ _)
  | close => exact .of_link rfl
  | stop => exact .of_link rfl
  | pingRefused => exact .refl c
  | ping => exact .of_link rfl
  | fetchRefused => exact .refl c
  | fetchSessions => exact .of_link rfl
  | loopPing => exact (acts_loopPing c _).absorbs rfl
  | loopFetchSessions => exact (acts_loopFetchSessions c _).absorbs rfl
  | pushClosed => exact (acts_pushClosed c _ _).absorbs rfl
  | pushCheck => exact .of_link rfl
  | pushLocked => exact (acts_pushEnded c _ _).absorbs rfl

/-- Every step that meets the condition leaves a CLOSED client as it is. -/
theorem absorbs_step {e : Event} (hrespects : c.respectsClosed e = true)
    (h : c.step globMatch e = some c') : Absorbs c c' := by
  obtain ⟨-, c₁, heffect, rfl⟩ := step_effect h
  exact (absorbs_effect hrespects heffect).trans (.of_link (reap_link c₁))

/-- So does every run whose steps meet it. -/
theorem absorbs_run {events : List Event}
    (hrun : Run (step globMatch) (fun c e => c.respectsClosed e = true) c events c') :
    Absorbs c c' := by
  induction hrun with
  | nil => exact .refl _
  | cons hrespects hstep _ ih => exact (absorbs_step hrespects hstep).trans ih

/-- On every run in which the code respects CLOSED, nothing is written once the client is closed,
and from then on it keeps its state, takes no session and starts no timer. -/
theorem closed_absorbing (globMatch : Glob) (user password : Bytes)
    (maxActiveTxs rev0 servers : ℕ) (hasReactor : Bool) (before after : List Event)
    (mid last : Client)
    (hbefore : Run (step globMatch) (fun c e => c.respectsClosed e = true)
      (create user password maxActiveTxs rev0 servers hasReactor) before mid)
    (hafter : Run (step globMatch) (fun c e => c.respectsClosed e = true) mid after last) :
    last.afterClosed = [] ∧ (mid.state = .closed → last.state = .closed ∧
      (last.con = mid.con ∨ last.con = none) ∧
      (last.timerConLost = true → mid.timerConLost = true) ∧
      (last.timerReconnect = true → mid.timerReconnect = true)) := by
  have hlast := absorbs_run hafter
  exact ⟨hlast.clean.trans (absorbs_run hbefore).clean, hlast.closed⟩

/-- A manager that throws when the connection is established: the client is closed, and its login
goes on to start the connection-lost timer and to set another state. -/
theorem login_goes_on_after_abort :
    ¬∀ (events : List Event) (c : Client),
      Run (step fun _ _ => true) anyStep (create [1] [2] 0 0 1 false) events c →
        c.afterClosed = [] := by
  intro h
  have hexec : (execute (step fun _ _ => true) (fun _ _ => true) (create [1] [2] 0 0 1 false)
      [.start none, .connected 0, .read 0,
        .message (some (.loginResponse ⟨.authorized, 0, 0, true, true, 10, [⟨15, [42]⟩]⟩)) true]).map
        (·.afterClosed) = some [.timer, .state .syncing] := by
    decide +kernel
  obtain ⟨c, hrun, hwrites⟩ := exists_run_of_execute (fun _ _ _ => trivial) hexec
  rw [h _ c hrun] at hwrites
  cases hwrites

/-- A login, a close by the user and the end of `run`. -/
theorem closed_absorbing_user_close : ∃ mid last : Client,
    Run (step fun _ _ => true) (fun c e => c.respectsClosed e = true) (create [1] [2] 0 0 1 false)
        [.start none, .connected 0, .read 0,
          .message (some (.loginResponse ⟨.authorized, 0, 0, true, true, 10, [⟨15, [42]⟩]⟩)) false,
          .readEnd, .close, .pushCheck 0, .pushLocked 0, .async, .command] mid ∧
      Run (step fun _ _ => true) (fun c e => c.respectsClosed e = true) mid
        [.commandsEnd, .unwind, .finish] last ∧
      last.afterClosed = [] ∧ last.state = .closed := by
  have hexec : (execute (step fun _ _ => true) respectsClosed (create [1] [2] 0 0 1 false)
      [.start none, .connected 0, .read 0,
        .message (some (.loginResponse ⟨.authorized, 0, 0, true, true, 10, [⟨15, [42]⟩]⟩)) false,
        .readEnd, .close, .pushCheck 0, .pushLocked 0, .async, .command]).map
        (fun c => (c.state, (execute (step fun _ _ => true) respectsClosed c
          [.commandsEnd, .unwind, .finish]).map (·.phase))) =
      some (.closed, some .finished) := by
    decide +kernel
  obtain ⟨mid, hbefore, hmid⟩ := exists_run_of_execute (fun _ _ h => h) hexec
  obtain ⟨hclosed, hrest⟩ := Prod.mk.inj hmid
  obtain ⟨last, hafter, -⟩ := exists_run_of_execute (fun _ _ h => h) hrest
  obtain ⟨hclean, hlast⟩ := closed_absorbing _ _ _ _ _ _ _ _ _ mid last hbefore hafter
  exact ⟨mid, last, hbefore, hafter, hclean, (hlast hclosed).1⟩

end Runs

end Client

end Nplex
