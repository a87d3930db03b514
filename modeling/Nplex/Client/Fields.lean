import Nplex.EventLoop

/-!
# The fields that the operations write

The handlers are made of a few operations of the client. Each one is the client with some fields
changed, and any observation of the other fields is what it was.
-/

namespace Nplex

namespace Client

section Fields

variable (c : Client)

/-- What does not change on going on. -/
theorem andThen_same {α : Type} (p : Client → α) {f : Client → Client} (h : p (f c) = p c) :
    p (c.andThen f) = p c := by
  unfold andThen
  split
  · rfl
  · exact h

/-- A recorded write is recorded. -/
theorem write_fields (w : Write) :
    c.write w = { c with afterClosed := (c.write w).afterClosed } := by
  unfold write
  split <;> rfl

/-- A method of a transaction changes the transaction, and ends the event loop if it throws. -/
theorem onTx_fields (t : ℕ) (f : Transaction → Transaction × Option TxError) :
    c.onTx t f = { c with txs := (c.onTx t f).txs, activity := (c.onTx t f).activity } := by
  unfold onTx
  split
  · rfl
  · dsimp only
    split <;> rfl

/-- Sending on a connection adds to what was sent, or ends the event loop. -/
theorem sendOn_fields (i : ℕ) (msg : ClientMsg) :
    c.sendOn i msg =
      { c with
        sent := (c.sendOn i msg).sent
        misdirected := (c.sendOn i msg).misdirected
        activity := (c.sendOn i msg).activity } := by
  unfold sendOn
  split
  · rfl
  · split <;> rfl

/-- So does sending on that of the session. -/
theorem send_fields (msg : ClientMsg) :
    c.send msg =
      { c with
        sent := (c.send msg).sent
        misdirected := (c.send msg).misdirected
        activity := (c.send msg).activity } := by
  unfold send
  split
  · rfl
  · split
    · rfl
    · exact sendOn_fields c _ msg

/-- A call of the reactor is recorded. -/
theorem call_fields (r : ReactorCall) : c.call r = { c with calls := (c.call r).calls } := by
  unfold call
  split <;> rfl

/-- Setting a state drops the queues at most. -/
theorem setState_fields (s : ClientState) :
    c.setState s =
      { c with
        state := (c.setState s).state
        afterClosed := (c.setState s).afterClosed
        txs := (c.setState s).txs
        commands := (c.setState s).commands
        requests := (c.setState s).requests
        accepted := (c.setState s).accepted } := by
  unfold setState
  split
  · rfl
  · rw [write_fields]
    dsimp only
    split <;> rfl

/-- The delivery changes the transactions only. -/
theorem deliver_fields (globMatch : Glob) (changes : List Change) :
    deliver globMatch changes c = { c with txs := (deliver globMatch changes c).txs } := by
  unfold deliver
  dsimp only
  split <;> rfl

/-- Aborting ends the session, disconnects and drops the queues. -/
theorem abort_fields :
    c.abort =
      { c with
        state := c.abort.state
        con := c.abort.con
        connections := c.abort.connections
        dataCid := c.abort.dataCid
        sessionsCid := c.abort.sessionsCid
        timerConLost := c.abort.timerConLost
        timerReconnect := c.abort.timerReconnect
        afterClosed := c.abort.afterClosed
        txs := c.abort.txs
        commands := c.abort.commands
        requests := c.abort.requests
        accepted := c.abort.accepted
        stopping := c.abort.stopping } := by
  unfold abort
  split
  · rfl
  · dsimp only
    rw [setState_fields]
    rfl

/-- Setting a state other than CLOSED. -/
theorem setState_open_fields {s : ClientState} (hs : s ≠ .closed) :
    c.setState s = { c with state := s, afterClosed := (c.setState s).afterClosed } := by
  unfold setState
  split
  · next hsame => rw [← hsame]
  · rw [write_fields]

/-- Taking a connection for the session brings the account. -/
theorem acceptLogin_fields (i : ℕ) (resp : LoginResponse) :
    c.acceptLogin i resp =
      { c with
        state := .authenticated
        con := some i
        account := (c.acceptLogin i resp).account
        afterClosed := (c.acceptLogin i resp).afterClosed } := by
  unfold acceptLogin
  dsimp only
  rw [setState_open_fields _ (by decide), write_fields]

/-- Trying to connect touches the connections, and ends the event loop if libuv refuses. -/
theorem tryToConnect_fields (refused : Option ℕ) :
    c.tryToConnect refused =
      { c with
        state := (c.tryToConnect refused).state
        con := (c.tryToConnect refused).con
        connections := (c.tryToConnect refused).connections
        timerReconnect := (c.tryToConnect refused).timerReconnect
        afterClosed := (c.tryToConnect refused).afterClosed
        activity := (c.tryToConnect refused).activity } := by
  unfold tryToConnect
  split
  · rfl
  · dsimp only
    rw [setState_open_fields _ (by decide)]
    split <;> rfl

/-- The load of a snapshot touches the store, and ends the event loop if it throws. -/
theorem loadSnapshot_fields (snapshot : Option Snapshot) :
    c.loadSnapshot snapshot =
      { c with
        store := (c.loadSnapshot snapshot).store
        activity := (c.loadSnapshot snapshot).activity } := by
  unfold loadSnapshot
  split
  · rfl
  · split <;> rfl

/-- The connection-lost timer is started. -/
theorem startTimerConLost_fields (keepalive : ℕ) :
    c.startTimerConLost keepalive =
      { c with
        timerConLost := (c.startTimerConLost keepalive).timerConLost
        afterClosed := (c.startTimerConLost keepalive).afterClosed } := by
  unfold startTimerConLost
  split
  · rw [write_fields]
  · rfl

/-- So is the reconnection timer. -/
theorem scheduleReconnect_fields :
    c.scheduleReconnect =
      { c with
        timerReconnect := c.scheduleReconnect.timerReconnect
        afterClosed := c.scheduleReconnect.afterClosed } := by
  unfold scheduleReconnect
  split
  · rfl
  · rw [write_fields]

/-- A submit changes its transaction and begins to push its command. -/
theorem submitTx_fields (t : ℕ) (cell : TxCell) (force : Bool) :
    c.submitTx t cell force =
      { c with
        txs := (c.submitTx t cell force).txs
        pushes := (c.submitTx t cell force).pushes } := by
  unfold submitTx
  split <;> rfl

/-- A new transaction leaves the others to be purged. -/
theorem createTx_fields (isolation : Isolation) (readOnly : Bool) :
    c.createTx isolation readOnly =
      { c with txs := (c.createTx isolation readOnly).txs } := by
  unfold createTx
  split
  · rfl
  · dsimp only
    split
    · rfl
    · split <;> rfl

end Fields
end Client

end Nplex
