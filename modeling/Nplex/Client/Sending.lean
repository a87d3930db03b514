import Nplex.Client.Session
import Nplex.Wire.Backpressure

/-!
# The connections under the client

The client knows the state of a connection and whether it is closing; the output side of
`connection_impl` is a model of its own. Here the two meet: the client's part of a connection is a
sound view of it. Every step of the connection is one that the client's steps allow for, and
`send` throws on one side exactly if it does on the other.
-/

namespace Nplex

open Nplex.Common

namespace Client

/-- What the client sees of a step of its connection `i` that leads to `con'`. -/
inductive Sees (globMatch : Glob) (c : Client) (i : ℕ) (con' : Connection) : Prop
  /-- Nothing. -/
  | nothing (hsame : c.connections[i]? = some con')
  /-- The `connect` that `try_to_connect` calls. -/
  | connect {con : Connection} (fails : Bool) (hcon : c.connections[i]? = some con)
      (hconnect : con' = (con.connect fails).1)
  /-- The callback of a connection that is established. -/
  | connected (hstep : c.stepRaw globMatch (.connected i) = c.callback fun c =>
      { c with connections := c.connections.set i con' }.onConnectionEstablished i)
  /-- The connection is disconnected beside the handlers. -/
  | failed (cause : DisconnectCause)
      (hstep : c.stepRaw globMatch (.failed i cause) = some (c.disconnect i cause))
      (hcon : (c.disconnect i cause).connections[i]? = some con')
  /-- The close callback. -/
  | closed (hstep : ∀ delay retry refused,
      c.stepRaw globMatch (.closed i delay retry refused) = c.callback fun c =>
        { c with connections := c.connections.set i con' }.onConnectionClosed i delay retry refused)

section Steps

variable {globMatch : Glob} {c : Client} {i : ℕ} {impl impl' : ConnectionImpl}

/-- A running client sees that a connection is disconnected. -/
theorem sees_disconnect (impl : ConnectionImpl) (hphase : c.phase = .running) (hi : c.connections[i]? = some impl.con)
    (cause : DisconnectCause) : Sees globMatch c i (impl.disconnect cause).con := by
  apply Sees.failed cause
  · simp only [stepRaw, if_pos hphase]
  · simp [disconnect, hi, ConnectionImpl.disconnect]

/-- The answer of `cb_tcp_connect`. -/
theorem sees_onConnect (hphase : c.phase = .running) (hi : c.connections[i]? = some impl.con)
    {status : Int} (hconnecting : impl.con.state = .connecting)
    (hgoes : status < 0 ∨ impl.con.closing = false) :
    Sees globMatch c i (impl.onConnect status).con := by
  unfold ConnectionImpl.onConnect
  by_cases hfails : status < 0
  · rw [if_pos hfails]
    exact sees_disconnect impl hphase hi _
  · rw [if_neg hfails]
    apply Sees.connected
    have hopen : impl.con.closing = false := hgoes.resolve_left hfails
    simp only [stepRaw, hi, hconnecting, hopen, and_self, if_true]

/-- A `send` that does not throw queues the message or disconnects. -/
theorem sees_send (hphase : c.phase = .running) (hi : c.connections[i]? = some impl.con)
    (buf : DetachedBuffer) (rc : Int) : Sees globMatch c i (impl.send buf rc).1.con := by
  unfold ConnectionImpl.send
  split
  · exact .nothing hi
  · split
    · exact sees_disconnect impl hphase hi _
    · split
      · exact sees_disconnect impl hphase hi _
      · exact .nothing hi

/-- A completed write disconnects at most. -/
theorem sees_onWrite (impl : ConnectionImpl) (hphase : c.phase = .running) (hi : c.connections[i]? = some impl.con)
    (buf : DetachedBuffer) (status : Int) : Sees globMatch c i (impl.onWrite buf status).con := by
  unfold ConnectionImpl.onWrite
  split
  · exact sees_disconnect (impl.countWritten buf) hphase hi _
  · exact .nothing hi

/-- Every step of a connection is one that the steps of a running client allow for. -/
theorem sees_step {e : IoEvent} (hphase : c.phase = .running)
    (hi : c.connections[i]? = some impl.con) (hstep : impl.step e = some impl') :
    Sees globMatch c i impl'.con := by
  cases e with
  | connect fails =>
    obtain rfl := Option.some.inj hstep
    apply Sees.connect fails hi
    unfold ConnectionImpl.connect Connection.connect
    split <;> rfl
  | connected status =>
    simp only [ConnectionImpl.step] at hstep
    split_ifs at hstep with hguard
    obtain rfl := Option.some.inj hstep
    exact sees_onConnect hphase hi hguard.1 hguard.2
  | send buf rc =>
    obtain rfl := Option.some.inj hstep
    exact sees_send hphase hi buf rc
  | written n status =>
    simp only [ConnectionImpl.step] at hstep
    split at hstep
    · cases hstep
    · next buf hn =>
      obtain rfl := Option.some.inj hstep
      exact sees_onWrite { impl with writes := impl.writes.eraseIdx n } hphase hi buf status
  | disconnect cause =>
    obtain rfl := Option.some.inj hstep
    exact sees_disconnect impl hphase hi cause
  | closed =>
    simp only [ConnectionImpl.step] at hstep
    split_ifs at hstep with hguard
    obtain rfl := Option.some.inj hstep
    apply Sees.closed
    intro delay retry refused
    simp only [stepRaw, hi, hguard.1, hguard.2.1]
    rfl

end Steps

section Sends

variable {c : Client} {i : ℕ} {impl : ConnectionImpl}

/-- `send` throws on a connection that is not established, and on no other. -/
theorem send_throws_iff (buf : DetachedBuffer) (rc : Int) :
    (impl.send buf rc).2 = true ↔ impl.con.state ≠ .connected := by
  unfold ConnectionImpl.send
  by_cases hconnected : impl.con.state = .connected
  · rw [if_neg (not_not.mpr hconnected)]
    simp only [hconnected, ne_eq, not_true_eq_false, iff_false, Bool.not_eq_true]
    split
    · rfl
    · split <;> rfl
  · rw [if_pos hconnected]
    simp only [ne_eq, hconnected, not_false_eq_true]

/-- The client's `send` on a connection throws if that of the connection does, and gives it the
message otherwise. -/
theorem sendOn_eq (hi : c.connections[i]? = some impl.con) (buf : DetachedBuffer) (rc : Int)
    (msg : ClientMsg) :
    c.sendOn i msg =
      if (impl.send buf rc).2 then { c with misdirected := true }.throw
      else { c with sent := c.sent ++ [(i, msg)] } := by
  unfold sendOn
  rw [hi]
  exact if_congr (send_throws_iff buf rc).symm rfl rfl

/-- Whatever a client sends in its session is given to an established connection: `send` does not
throw. -/
theorem Sound.send_goes (h : c.Sound) (hcon : c.con = some i)
    (hi : c.connections[i]? = some impl.con) (buf : DetachedBuffer) (rc : Int) :
    (impl.send buf rc).2 = false := by
  obtain ⟨con, hget, hconnected⟩ := h.tied.connected i hcon
  obtain rfl := Option.some.inj (hi.symm.trans hget)
  rw [← Bool.not_eq_true, send_throws_iff]
  exact not_not.mpr hconnected

end Sends

end Client

end Nplex
