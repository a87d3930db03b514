import Nplex.Client.SessionLoss
import Nplex.Client.Commands
import Nplex.Client.Reconnect

/-!
# Connecting to closed connections

`try_to_connect` is called when `run` starts, by the reconnect timer and by the close callback of
the session's connection. Before `run` no connection was opened, and the timer never gets past the
guard. When the session is lost the other connections were told to disconnect long before, but the
close callback of one that was told in the same turn of the loop may still be to come.
-/

namespace Nplex

open Nplex.Common

namespace Client

variable {globMatch : Glob} {c c' d : Client}

/-- The client on which a step calls `try_to_connect`. -/
def connectingOn (c : Client) : Event → Option Client
  | .start _ => some { c with phase := .running, con := none }
  | .timerReconnect _ => some { c with timerReconnect := false }
  | .closed i _ retry _ =>
    match c.connections[i]? with
    | none => none
    | some con =>
      if c.isClosed || c.con ≠ some i || (c.sessionLost i con).broken || !retry.getD false then none
      else some { c.sessionLost i con with timerConLost := false }
  | _ => none

/-- When a step gets `try_to_connect` past its guard all the connections are closed, and none of
them throws unless libuv refuses it. -/
def connectsClosed (c : Client) (e : Event) : Prop :=
  ∀ d, c.connectingOn e = some d → d.state = .offline →
    d.allClosed ∧ (connectAll none d.connections).2 = false

/-- When the session is lost and the manager asks for a retry, the other connections are closed. -/
def othersClosed (c : Client) : Event → Bool
  | .closed i _ retry _ =>
    c.isClosed || c.con ≠ some i || !retry.getD false ||
      (c.connections.eraseIdx i).all (·.isClosed)
  | _ => true

/-- The step calls `try_to_connect` on that client, and does nothing else after it. -/
theorem step_of_connectingOn {e : Event} (hconnecting : c.connectingOn e = some d)
    (hstep : c.step globMatch e = some c') : ∃ refused, c' = (d.tryToConnect refused).reap := by
  obtain ⟨-, c₁, heffect, rfl⟩ := step_effect hstep
  cases heffect with
  | @start refused =>
    obtain rfl := Option.some.inj hconnecting
    exact ⟨refused, rfl⟩
  | @timerReconnect refused =>
    obtain rfl := Option.some.inj hconnecting
    exact ⟨refused, rfl⟩
  | @closed i delay retry refused con hphase hidle hcon hstate =>
    simp only [connectingOn, hcon] at hconnecting
    split_ifs at hconnecting with hnot
    obtain rfl := Option.some.inj hconnecting
    simp only [Bool.or_eq_true, decide_eq_true_eq, not_or, Bool.not_eq_true', Bool.not_eq_false]
      at hnot
    obtain ⟨⟨⟨hopen, hi⟩, hgoes⟩, hretry⟩ := hnot
    refine ⟨refused, ?_⟩
    rw [onConnectionClosed_of_session (isClosed_eq_false.mp (by simpa using hopen)) (not_not.mp hi),
      andThen, if_neg hgoes, afterLoss, if_pos hretry]
  | _ => cases hconnecting

/-- Connecting to closed connections throws nothing by itself. -/
theorem connectAll_of_closed {connections : List Connection}
    (h : ∀ con ∈ connections, con.state = .closed) : (connectAll none connections).2 = false := by
  induction connections with
  | nil => rfl
  | cons con rest ih =>
    have hcon : con.connect (none = some 0) = ({ state := .connecting }, false) := by
      simp [Connection.connect, Connection.isClosed, h con List.mem_cons_self]
    unfold connectAll
    rw [hcon]
    exact ih fun con' hcon' => h con' (List.mem_cons_of_mem _ hcon')

/-- Before `run` no connection was opened. -/
def Fresh (c : Client) : Prop := c.phase = .ready → c.allClosed

/-- A step leaves the connections alone before `run`. -/
theorem fresh_effect {e : Event} (hsound : c.Sound) (h : c.Fresh)
    (heffect : Effect globMatch c e c') : c'.Fresh := by
  intro hready
  cases lives_effect hsound heffect with
  | running hphase =>
    rw [hphase] at hready
    cases hready
  | linked hlink =>
    rw [phase_of_link hlink] at hready
    exact (allClosed_congr (connections_of_link hlink)).mpr (h hready)
  | unwound hc' => simp [hc', (unwindRun_spec c).1] at hready
  | finished _ hc' => simp [hc', finishRun] at hready

/-- What every step keeps. -/
structure Prepared (c : Client) : Prop where
  sound : c.Sound
  queued : c.Queued
  fresh : c.Fresh

/-- A new client has only connections that were never opened. -/
theorem prepared_create (user password : Bytes) (maxActiveTxs rev0 servers : ℕ)
    (hasReactor : Bool) :
    (create user password maxActiveTxs rev0 servers hasReactor).Prepared := by
  refine ⟨sound_create _ _ _ _ _ _, queued_create _ _ _ _ _ _, fun _ con hcon => ?_⟩
  obtain rfl := List.eq_of_mem_replicate hcon
  rfl

/-- Every step keeps the invariant of the connections. -/
theorem prepared_step {e : Event} (h : c.Prepared) (hstep : c.step globMatch e = some c') :
    c'.Prepared := by
  refine ⟨sound_step h.sound hstep, queued_step h.queued hstep, ?_⟩
  obtain ⟨-, c₁, heffect, rfl⟩ := step_effect hstep
  have hfresh := fresh_effect h.sound h.fresh heffect
  exact hfresh

/-- With the connection at a position just closed, all are closed when the others are. -/
theorem set_onClose_closed (c : Client) (i : ℕ) (con : Connection) :
    (∀ con' ∈ c.connections.set i con.onClose, con'.state = .closed) ↔
      (c.connections.eraseIdx i).all (·.isClosed) = true := by
  simp only [List.all_eq_true, Connection.isClosed, decide_eq_true_eq]
  constructor
  · intro h con' hcon'
    obtain ⟨j, hj, hget⟩ := List.mem_eraseIdx_iff_getElem?.mp hcon'
    apply h con'
    apply List.mem_of_getElem? (i := j)
    rw [List.getElem?_set_ne (Ne.symm hj), hget]
  · intro h con' hcon'
    obtain ⟨j, hget⟩ := List.mem_iff_getElem?.mp hcon'
    rcases getElem?_set_connection hget with ⟨-, rfl⟩ | ⟨hj, hold⟩
    · rfl
    · exact h con' (List.mem_eraseIdx_iff_getElem?.mpr ⟨j, hj, hold⟩)

/-- The loss of the session leaves the other connections as they are. -/
theorem sessionLost_closed_iff (hopen : c.state ≠ .closed) (i : ℕ) (con : Connection) :
    (c.sessionLost i con).allClosed ↔ (c.connections.eraseIdx i).all (·.isClosed) = true := by
  have hstates := (loseSession_spec
    (c := { c with connections := c.connections.set i con.onClose }) hopen).2.2.2.2.2
  have hsame := allClosed_congr (c := { c with connections := c.connections.set i con.onClose }) hstates
  exact hsame.trans (set_onClose_closed c i con)

/-- A step finds every connection closed exactly when it does not reconnect while another
connection is closing. -/
theorem connectsClosed_iff {e : Event} (h : c.Prepared) (hstep : c.step globMatch e = some c') :
    c.connectsClosed e ↔ c.othersClosed e = true := by
  have hmet : ∀ {d : Client}, d.allClosed →
      d.allClosed ∧ (connectAll none d.connections).2 = false :=
    fun hall => ⟨hall, connectAll_of_closed hall⟩
  obtain ⟨-, c₁, heffect, -⟩ := step_effect hstep
  cases heffect with
  | start hphase =>
    refine iff_of_true (fun d hd _ => ?_) rfl
    obtain rfl := Option.some.inj hd
    exact hmet (h.fresh hphase)
  | timerReconnect hphase hidle htimer =>
    refine iff_of_true (fun d hd hoffline => ?_) rfl
    obtain rfl := Option.some.inj hd
    exact absurd hoffline (h.sound.timer htimer).2.2
  | @closed i delay retry refused con hphase hidle hcon hstate =>
    by_cases hretries : c.isClosed || c.con ≠ some i || !retry.getD false
    · -- `try_to_connect` is not called
      have hnot : c.connectingOn (.closed i delay retry refused) = none := by
        simp only [Bool.or_eq_true] at hretries
        simp only [connectingOn, hcon]
        rw [if_pos]
        simp only [Bool.or_eq_true]
        tauto
      refine iff_of_true (fun d hd => ?_) ?_
      · rw [hnot] at hd
        cases hd
      · rw [othersClosed, hretries, Bool.true_or]
    · have hopen : c.state ≠ .closed := by
        intro hclosed
        simp [isClosed, hclosed] at hretries
      -- canceling what waits on the session throws nothing
      have hgoes : (c.sessionLost i con).broken = false := by
        have hsame := (sessionLost_cancels h.queued.settled hidle i con).1.activity
        rw [broken, hsame, hidle]
        rfl
      have hconnecting : c.connectingOn (.closed i delay retry refused) =
          some { c.sessionLost i con with timerConLost := false } := by
        simp only [connectingOn, hcon]
        rw [if_neg]
        simp only [Bool.or_eq_true] at hretries
        simp only [Bool.or_eq_true, hgoes, Bool.false_eq_true]
        tauto
      have hoffline := (loseSession_spec
        (c := { c with connections := c.connections.set i con.onClose }) hopen).2.1
      have hothers : c.othersClosed (.closed i delay retry refused) = true ↔
          (c.connections.eraseIdx i).all (·.isClosed) = true := by
        rw [othersClosed, Bool.eq_false_of_not_eq_true hretries, Bool.false_or]
      rw [hothers, ← sessionLost_closed_iff hopen i con]
      constructor
      · intro hall
        exact (hall _ hconnecting hoffline).1
      · intro hall d hd _
        rw [hconnecting] at hd
        obtain rfl := Option.some.inj hd
        exact hmet (d := { c.sessionLost i con with timerConLost := false }) hall
  | _ => exact iff_of_true (fun d hd => by cases hd) rfl

/-- Along a run every connection is closed whenever `try_to_connect` gets past its guard exactly
when no session is lost and retried while another connection is still closing. -/
theorem connects_closed_run_iff (globMatch : Glob) (user password : Bytes)
    (maxActiveTxs rev0 servers : ℕ) (hasReactor : Bool) (events : List Event) (last : Client) :
    Run (step globMatch) connectsClosed
        (create user password maxActiveTxs rev0 servers hasReactor) events last ↔
      Run (step globMatch) (fun c e => c.othersClosed e = true)
        (create user password maxActiveTxs rev0 servers hasReactor) events last :=
  ⟨Run.change Prepared (fun _ _ _ _ hstep h => prepared_step h hstep)
      (fun _ _ _ h hstep hok => (connectsClosed_iff h hstep).mp hok) (prepared_create _ _ _ _ _ _),
    Run.change Prepared (fun _ _ _ _ hstep h => prepared_step h hstep)
      (fun _ _ _ h hstep hok => (connectsClosed_iff h hstep).mpr hok) (prepared_create _ _ _ _ _ _)⟩

/-- Two servers connect, the first accepts the login, so that the client tells the second one to
disconnect, and closes before that connection does: reconnecting throws. -/
theorem reconnect_finds_closing :
    ¬∀ (events : List Event) (c : Client) (e : Event),
      Run (step fun _ _ => true) anyStep (create [1] [2] 0 0 2 false) events c →
        c.step (fun _ _ => true) e ≠ none → c.connectsClosed e := by
  intro h
  have hexec : (execute (step fun _ _ => true) (fun _ _ => true) (create [1] [2] 0 0 2 false)
      [.start none, .connected 0, .connected 1, .read 0,
        .message (some (.loginResponse ⟨.authorized, 0, 0, true, true, 10, [⟨15, [42]⟩]⟩)) false,
        .readEnd, .failed 0 .closedByPeer]).map (fun c =>
          ((c.step (fun _ _ => true) (.closed 0 none (some true) none)).map (·.activity),
            (c.connectingOn (.closed 0 none (some true) none)).map fun d =>
              (d.state, d.connections.map (·.state)))) =
      some (some .thrown, some (.offline, [.closed, .connected])) := by
    decide +kernel
  obtain ⟨c, hrun, hend⟩ := exists_run_of_execute (fun s e _ => (trivial : anyStep s e)) hexec
  obtain ⟨hthrown, hconnecting⟩ := Prod.mk.inj hend
  obtain ⟨d, hd, hstate⟩ := Option.map_eq_some_iff.mp hconnecting
  obtain ⟨hoffline, hstates⟩ := Prod.mk.inj hstate
  have haccepted : c.step (fun _ _ => true) (.closed 0 none (some true) none) ≠ none := by
    intro hnone
    simp [hnone] at hthrown
  have hall := (h _ c _ hrun haccepted d hd hoffline).1
  have hmem : ConnectionState.connected ∈ d.connections.map (·.state) := by simp [hstates]
  obtain ⟨con, hcon, hconnected⟩ := List.mem_map.mp hmem
  rw [hall con hcon] at hconnected
  cases hconnected

end Client

end Nplex
