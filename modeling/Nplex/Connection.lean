import Mathlib.Data.List.Basic

/-!
# Connections

The state of a `connection_impl` as the client sees it. Closing is asynchronous: `disconnect`
asks libuv to close the handle, and the connection is CLOSED when the close callback runs.
Until then it still counts as CONNECTING or CONNECTED.
-/

namespace Nplex

/-- Disconnection causes (`ERR_xxx`, or an error code of libuv). -/
inductive DisconnectCause
  | closedByLocal
  | closedByPeer
  | msgError
  | msgUnexpected
  | alreadyConnected
  | conLost
  | auth
  | load
  | system (rc : Int)
  deriving DecidableEq, Repr

/-- Connection states (`connection_impl::state_e`). -/
inductive ConnectionState
  | closed
  | connecting
  | connected
  deriving DecidableEq, Repr

/-- A connection (`connection_impl`). -/
structure Connection where
  state : ConnectionState := .closed
  /-- `uv_is_closing`: the close callback is still to come. -/
  closing : Bool := false
  error : Option DisconnectCause := none
  deriving DecidableEq, Repr

namespace Connection

/-- `connection::is_closed`. -/
def isClosed (con : Connection) : Bool := con.state = .closed

/-- `connection_impl::connect`, and whether it throws; `fails` says that libuv or the address
resolution refuses. -/
def connect (con : Connection) (fails : Bool) : Connection × Bool :=
  if !con.isClosed then (con, true) else ({ state := .connecting }, fails)

/-- `connection_impl::disconnect`: the first cause is kept. -/
def disconnect (con : Connection) (cause : DisconnectCause) : Connection :=
  if con.isClosed then con
  else { con with error := con.error.or (some cause), closing := true }

/-- The close callback. -/
def onClose (con : Connection) : Connection := { con with state := .closed, closing := false }

/-- Disconnecting keeps the state until the close callback. -/
@[simp] theorem disconnect_state (con : Connection) (cause : DisconnectCause) :
    (con.disconnect cause).state = con.state := by
  unfold disconnect
  split <;> rfl

/-- After the close callback the connection is closed. -/
@[simp] theorem onClose_isClosed (con : Connection) : con.onClose.isClosed = true := rfl

end Connection

/-- Connect all of a list in order, stopping at the first one that throws. The one that libuv
refuses is given by its position. -/
def connectAll : Option ℕ → List Connection → List Connection × Bool
  | _, [] => ([], false)
  | refused, con :: rest =>
    match con.connect (refused = some 0) with
    | (con, true) => (con :: rest, true)
    | (con, false) =>
      let (rest, throws) := connectAll (refused.bind fun n => if n = 0 then none else some (n - 1)) rest
      (con :: rest, throws)

/-- Connecting keeps the number of connections. -/
theorem connectAll_length (refused : Option ℕ) (connections : List Connection) :
    (connectAll refused connections).1.length = connections.length := by
  induction connections generalizing refused with
  | nil => rfl
  | cons con rest ih =>
    unfold connectAll
    cases con.connect (refused = some 0) with
    | mk con' throws =>
      cases throws with
      | true => rfl
      | false => simp [ih]

/-- Connecting throws or leaves all the connections CONNECTING. -/
theorem connectAll_connecting {refused : Option ℕ} {connections : List Connection}
    (h : (connectAll refused connections).2 = false) :
    ∀ con ∈ (connectAll refused connections).1, con.state = .connecting := by
  induction connections generalizing refused with
  | nil => simp [connectAll]
  | cons con rest ih =>
    unfold connectAll at h ⊢
    cases hconnect : con.connect (refused = some 0) with
    | mk con' throws =>
      cases throws with
      | true => simp [hconnect] at h
      | false =>
        simp only [hconnect] at h ⊢
        intro c hc
        rcases List.mem_cons.mp hc with rfl | hc
        · unfold Connection.connect at hconnect
          split at hconnect
          · simp at hconnect
          · simp only [Prod.mk.injEq] at hconnect
            rw [← hconnect.1]
        · exact ih h c hc

end Nplex
