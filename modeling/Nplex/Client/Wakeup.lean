import Nplex.Client.Reconnect
import Nplex.Client.Shutdown

/-!
# Who takes the wake-up

A pending wake-up of `m_async_command` is consumed by its callback alone: no handler touches it.
And once a running client is CLOSED, every connection is closed or closing, so that no further
message is read; what the closed client still reads is the rest of one input.
-/

namespace Nplex

open Nplex.Common

/-- The actions that wake nobody up. -/
def ActionKind.keepsAsync : ActionKind → Bool
  | .wake => false
  | _ => true

namespace Client

section Async

variable (c : Client)

/-- No handler touches the wake-up. -/
theorem Action.async {k : ActionKind} {c c' : Client} (h : Action k c c')
    (hk : k.keepsAsync = true) : c'.async = c.async := by
  cases h with
  | aside h =>
    have hasync : c'.central.async = c.central.async := congrArg Client.async h.central
    exact hasync
  | settle => exact (congrArg Client.async (onTx_fields _ _ _)).trans rfl
  | deliver => exact (congrArg Client.async (deliver_fields _ _ _)).trans rfl
  | request => exact (congrArg Client.async (sendRequest_fields _ _ _)).trans rfl
  | refuse => exact (congrArg Client.async (onTx_fields _ _ _)).trans rfl
  | answer => exact (congrArg Client.async (answerSubmit_fields _ _ _)).trans rfl
  | login => exact (congrArg Client.async (sendOn_fields _ _ _)).trans rfl
  | tell => exact (congrArg Client.async (call_fields _ _)).trans rfl
  | setState => exact (congrArg Client.async (setState_fields _ _)).trans rfl
  | revive => exact (congrArg Client.async (setState_fields _ _)).trans rfl
  | startTimer => exact (congrArg Client.async (startTimerConLost_fields _ _)).trans rfl
  | fetch => exact (congrArg Client.async (send_fields _ _)).trans rfl
  | join => exact (congrArg Client.async (acceptLogin_fields _ _ _)).trans rfl
  | close => exact (congrArg Client.async (abort_fields _)).trans rfl
  | leave => exact (congrArg Client.async (setState_fields _ .offline)).trans rfl
  | connect => exact (congrArg Client.async (tryToConnect_fields _ _)).trans rfl
  | reconnect => exact (congrArg Client.async (scheduleReconnect_fields _)).trans rfl
  | shut => exact (congrArg Client.async (setState_fields _ .closed)).trans rfl
  | takeFuture => exact (congrArg Client.async (onTx_fields _ _ _)).trans rfl
  | wake => cases hk
  | _ => rfl

/-- A handler that wakes nobody up leaves the wake-up alone. -/
theorem Acts.async {kinds : List ActionKind} {c c' : Client} (h : Acts kinds c c')
    (hkinds : kinds.all ActionKind.keepsAsync = true) : c'.async = c.async :=
  h.frame (R := fun c c' => c'.async = c.async) hkinds (fun _ => rfl) (fun h h' => h'.trans h)
    Action.async

end Async

/-- Every step but the callback of the wake-up and a push leaves the wake-up alone. -/
theorem effect_async {globMatch : Glob} {c c' : Client} {e : Event} (hasync : e ≠ .async)
    (hpush : ∀ n, e ≠ .pushLocked n) (h : Effect globMatch c e c') : c'.async = c.async := by
  cases h with
  | start => exact (congrArg Client.async (tryToConnect_fields _ _)).trans rfl
  | connected => exact (acts_onConnectionEstablished _ _).async rfl
  | closed => exact (acts_onConnectionClosed _ _ _ _ _).async rfl
  | message => exact (acts_onMsgReceived c _ _ _).async rfl
  | update => exact (acts_pushUpdate globMatch _ _ _).async rfl
  | timerConLost => exact (acts_onConnectionLost c).async rfl
  | timerReconnect => exact (congrArg Client.async (tryToConnect_fields _ _)).trans rfl
  | sigint => exact (congrArg Client.async (abort_fields c)).trans rfl
  | asyncClosed => exact absurd rfl hasync
  | async => exact absurd rfl hasync
  | command => exact (acts_nextCommand c _ _).async rfl
  | unwind => exact (acts_unwindRun c).async rfl
  | createTx => exact (congrArg Client.async (createTx_fields c _ _)).trans rfl
  | discard => exact (congrArg Client.async (onTx_fields c _ _)).trans rfl
  | submit => exact (congrArg Client.async (submitTx_fields c _ _ _)).trans rfl
  | loopPing => exact (acts_loopPing c _).async rfl
  | loopFetchSessions => exact (acts_loopFetchSessions c _).async rfl
  | pushClosed => exact (acts_pushClosed c _ _).async rfl
  | @pushLocked n => exact absurd rfl (hpush n)
  | _ => rfl

/-- Every connection is closed or closing. -/
def Parted (c : Client) : Prop := ∀ con ∈ c.connections, con.state = .closed ∨ con.closing = true

/-- Once a running client is CLOSED no connection goes on. -/
def Shut (c : Client) : Prop := c.phase = .running → c.state = .closed → c.Parted

section Shut

variable {globMatch : Glob} {c c' : Client}

/-- An open client is not concerned. -/
theorem Shut.of_open (hopen : c.state ≠ .closed) : c.Shut := fun _ hclosed => absurd hclosed hopen

/-- Nor is one that no longer runs. -/
theorem Shut.of_ended (hphase : c.phase ≠ .running) : c.Shut := fun hrunning =>
  absurd hrunning hphase

/-- Connections that keep their states and stay in closing. -/
theorem Parted.kept (h : c.Parted)
    (hstates : c'.connections.map (·.state) = c.connections.map (·.state))
    (hclosing : KeepsClosing c c') : c'.Parted := by
  intro con' hcon'
  obtain ⟨j, hj⟩ := List.mem_iff_getElem?.mp hcon'
  have hget := congrArg (fun states : List ConnectionState => states[j]?) hstates
  simp only [List.getElem?_map, hj, Option.map_some] at hget
  obtain ⟨con, hcon, hstate⟩ := Option.map_eq_some_iff.mp hget.symm
  rcases h con (List.mem_of_getElem? hcon) with hclosed | hpending
  · exact Or.inl (hstate.symm.trans hclosed)
  · obtain ⟨con'', hcon'', hpending'⟩ := hclosing j con hcon hpending
    obtain rfl := Option.some.inj (hj.symm.trans hcon'')
    exact Or.inr hpending'

/-- Handlers about the session do not let a connection go on. -/
theorem Shut.stays (h : c.Shut) (hstays : Stays c c')
    (hstate : c'.state = .closed → c.state = .closed) : c'.Shut := fun hphase hclosed =>
  (h (hstays.phase.symm.trans hphase) (hstate hclosed)).kept hstays.states hstays.closing

/-- What is about other fields. -/
theorem Shut.same (h : c.Shut) (hlink : c'.link = c.link) (hcons : c'.connections = c.connections) :
    c'.Shut := fun hphase hclosed => by
  have hparted := h ((phase_of_link hlink).symm.trans hphase) ((state_of_link hlink).symm.trans hclosed)
  unfold Parted
  rwa [hcons]

/-- Aborting disconnects all the connections. -/
theorem Shut.abort (h : c.Shut) : c.abort.Shut := by
  by_cases hclosed : c.state = .closed
  · rw [abort_of_closed hclosed]
    exact h
  · intro _ _ con hcon
    rw [abort_connections hclosed] at hcon
    obtain ⟨con₀, -, rfl⟩ := List.mem_map.mp hcon
    exact disconnect_closed_or_closing con₀ .closedByLocal

/-- A close callback. -/
theorem Shut.onClose (h : c.Shut) (i : ℕ) (con : Connection) :
    Shut { c with connections := c.connections.set i con.onClose } := by
  intro hphase hclosed con' hcon'
  rcases List.mem_or_eq_of_mem_set hcon' with hold | rfl
  · exact h hphase hclosed con' hold
  · exact Or.inl rfl

/-- A closed client does not connect. -/
theorem Shut.tryToConnect (h : c.Shut) (refused : Option ℕ) : (c.tryToConnect refused).Shut := by
  by_cases hclosed : c.state = .closed
  · unfold Client.tryToConnect
    rw [if_pos (by simp [isClosed, hclosed])]
    exact h
  · exact .of_open (staysOpen_tryToConnect c refused hclosed).1

/-- Setting a state of a session does not close the client. -/
theorem shut_setState (c : Client) {s : ClientState} (hs : s.inSession = true) :
    (c.setState s).Shut := by
  refine .of_open ?_
  rw [setState_state]
  rintro rfl
  cases hs

/-- On the way out of `run` the client is no longer running. -/
theorem shut_unwinding (c : Client) :
    Shut (setState { c with phase := .unwinding, activity := .idle } .closed) := by
  have hphase : (setState { c with phase := .unwinding, activity := .idle } .closed).phase =
      .unwinding := congrArg Link.phase (setState_closed_link _)
  exact .of_ended (by simp [hphase])

/-- No action lets a connection of a closed client go on. -/
theorem Action.keepsShut {k : ActionKind} (hact : Action k c c') (h : c.Shut) : c'.Shut := by
  have hkept : k.keepsLink = true → k.stays = true → c'.Shut := fun hlink hstays =>
    h.stays (hact.stays hstays) fun hclosed => (state_of_link (hact.link hlink)).symm.trans hclosed
  cases hact with
  | login =>
    exact h.same (sendOn_link _ _ _) ((congrArg connections (sendOn_fields _ _ _)).trans rfl)
  | setState _ _ hs => exact shut_setState c hs
  | revive _ hs => exact shut_setState c hs
  | startTimer =>
    rw [startTimerConLost_fields]
    exact h
  | join => exact .of_open (by simp [(acceptLogin_spec c _ _).2.1])
  | close => exact h.abort
  | leave => exact .of_open (by simp)
  | connect => exact h.tryToConnect _
  | reconnect =>
    unfold scheduleReconnect write
    split
    · exact h
    · next hopen => exact .of_open (by simpa [isClosed] using hopen)
  | stopTimer => exact h.stays (stays_stopTimer c) id
  | shut => exact shut_unwinding c
  | request _ _ hrequest => cases hrequest <;> exact hkept rfl rfl
  | _ => exact hkept rfl rfl

/-- Nor does any handler let a connection go on. -/
theorem Acts.keepsShut {kinds : List ActionKind} (hacts : Acts kinds c c') (h : c.Shut) : c'.Shut :=
  hacts.frame (R := fun c c' => c.Shut → c'.Shut) (p := fun _ => true) (by simp)
    (fun _ => id) (fun h h' => h' ∘ h) (fun hact _ => hact.keepsShut) h

/-- A connection that is established is not closing. -/
theorem connected_guard {i : ℕ} (h : c.stepRaw globMatch (.connected i) = some c') :
    ∃ con, c.connections[i]? = some con ∧ con.state = .connecting ∧ con.closing = false := by
  simp only [stepRaw] at h
  split at h
  · cases h
  · next con hcon =>
    split_ifs at h with hguard
    exact ⟨con, hcon, hguard⟩

/-- A connection that is read is not closing. -/
theorem read_guard {i : ℕ} (h : c.stepRaw globMatch (.read i) = some c') :
    ∃ con, c.connections[i]? = some con ∧ con.state = .connected ∧ con.closing = false := by
  simp only [stepRaw] at h
  split at h
  · cases h
  · next con hcon =>
    split_ifs at h with hguard
    exact ⟨con, hcon, hguard⟩

/-- A running client whose connection goes on is not CLOSED. -/
theorem Shut.open_of_connection (h : c.Shut) (hphase : c.phase = .running) {i : ℕ} {con : Connection}
    (hcon : c.connections[i]? = some con) (hstate : con.state ≠ .closed)
    (hgoes : con.closing = false) : c.state ≠ .closed := by
  intro hclosed
  rcases h hphase hclosed con (List.mem_of_getElem? hcon) with hclosed' | hclosing
  · exact hstate hclosed'
  · rw [hgoes] at hclosing
    cases hclosing

/-- No step lets a connection of a closed client go on. -/
theorem shut_effect {e : Event} (h : c.Shut)
    (hraw : c.stepRaw globMatch e = some c') (heffect : Effect globMatch c e c') : c'.Shut := by
  cases heffect with
  | start hphase hstate =>
    exact .of_open (staysOpen_tryToConnect { c with phase := .running, con := none } _
      (by simp [hstate])).1
  | connected hphase =>
    obtain ⟨con, hcon, hstate, hgoes⟩ := connected_guard hraw
    have hopen := h.open_of_connection hphase hcon (by simp [hstate]) hgoes
    refine .of_open ((acts_onConnectionEstablished { c with connections := _ } _).staysOpen rfl ?_).1
    exact hopen
  | failed => exact h.stays (aside_disconnect c _ _).stays fun hclosed => hclosed
  | closed => exact (acts_onConnectionClosed _ _ _ _ _).keepsShut (h.onClose _ _)
  | read => exact h.same rfl rfl
  | message => exact (acts_onMsgReceived c _ _ _).keepsShut h
  | malformed =>
    have hidle : Shut { c with activity := .idle } := h.same rfl rfl
    exact hidle.stays (aside_disconnect _ _ _).stays fun hclosed => hclosed
  | readEnd => exact h.same rfl rfl
  | @update i crev u rest =>
    have hrest : Shut { c with activity := .pushing i crev rest } := h.same rfl rfl
    exact (acts_pushUpdate globMatch _ crev u).keepsShut hrest
  | updatesEnd => exact h.same rfl rfl
  | timerConLost => exact (acts_onConnectionLost c).keepsShut h
  | timerReconnect =>
    have htimer : Shut { c with timerReconnect := false } := fun hphase hclosed => h hphase hclosed
    exact (Action.connect _ _).keepsShut htimer
  | sigint => exact h.abort
  | asyncClosed => exact h.same rfl rfl
  | async => exact h.same rfl rfl
  | command => exact (acts_nextCommand c _ _).keepsShut h
  | commandsEnd => exact h.same rfl rfl
  | unwind => exact .of_ended (by simp [(unwindRun_spec c).1])
  | finish => exact .of_ended (by simp [finishRun])
  | createTx => exact h.stays (createTx_same c _ _).1 fun hclosed =>
      (state_of_link (createTx_link c _ _)).symm.trans hclosed
  | use => exact h.same rfl rfl
  | discard => exact h.stays (stays_onTx c _ _) fun hclosed =>
      (state_of_link (onTx_link c _ _)).symm.trans hclosed
  | release => exact h.same rfl rfl
  | submit => exact h.stays (submitTx_same c _ _ _).1 fun hclosed =>
      (state_of_link (submitTx_link c _ _ _)).symm.trans hclosed
  | close => exact h.same rfl rfl
  | stop => exact h.same rfl rfl
  | pingRefused => exact h
  | ping => exact h.same rfl rfl
  | fetchRefused => exact h
  | fetchSessions => exact h.same rfl rfl
  | loopPing => exact (acts_loopPing c _).keepsShut h
  | loopFetchSessions => exact (acts_loopFetchSessions c _).keepsShut h
  | pushClosed => exact (acts_pushClosed c _ _).keepsShut h
  | pushCheck => exact h.same rfl rfl
  | pushLocked => exact (acts_pushEnded c _ _).keepsShut h

end Shut

end Client

end Nplex
