import Nplex.Client
import Nplex.Transaction.OpenTx
import Nplex.Common.Transition

/-!
# The event loop and the user's threads

One step of a client: a callback of libuv, one turn of a loop of the source that user threads
can interleave with, a part of `run`, or a user's call. The callbacks come in any order; the
ones of a handle stop when it is closed, and `uv_stop` ends the loop at some later moment.
-/

namespace Nplex

/-- The steps. -/
inductive Event
  /-- `run` up to `uv_run`. -/
  | start (refused : Option ℕ)
  /-- `cb_tcp_connect` with success. -/
  | connected (i : ℕ)
  /-- A connection is closed by `cb_tcp_connect`, `cb_tcp_read`, `cb_tcp_write` or a refused
  `connection_impl::send`. -/
  | failed (i : ℕ) (cause : DisconnectCause)
  /-- `cb_tcp_close`. -/
  | closed (i : ℕ) (delay : Option Int) (retry : Option Bool) (refused : Option ℕ)
  /-- `cb_tcp_read` with data. -/
  | read (i : ℕ)
  /-- Its next message; `throws` says that the callback the message leads to throws. -/
  | message (msg : Option ServerMsg) (throws : Bool)
  /-- Its next message is malformed. -/
  | malformed
  /-- Its buffer holds no further message. -/
  | readEnd
  /-- The next update of an UPDATES_PUSH. -/
  | update
  /-- `cb_timer_connection_lost`. -/
  | timerConLost
  /-- `cb_timer_reconnect`. -/
  | timerReconnect (refused : Option ℕ)
  /-- `cb_signal_sigint`. -/
  | sigint
  /-- `cb_process_async_commands`. -/
  | async
  /-- The next command of `process_commands`. -/
  | command
  /-- `process_commands` finds no further command. -/
  | commandsEnd
  /-- `run` after `uv_run`, up to the last turns of the loop. -/
  | unwind
  /-- The end of `run`. -/
  | finish
  /-- `create_tx`. -/
  | createTx (isolation : Isolation) (readOnly : Bool)
  /-- A method of a transaction that is neither `submit` nor `discard`. -/
  | use (t : ℕ) (i : TxInput)
  /-- `transaction_impl::discard`. -/
  | discard (t : ℕ)
  /-- The user drops the transaction. -/
  | release (t : ℕ)
  /-- `transaction_impl::submit` up to `push_command`. -/
  | submit (t : ℕ) (force : Bool)
  /-- `client_impl::close`. -/
  | close
  /-- The stop token of `run` is triggered. -/
  | stop
  /-- `client_impl::ping` on a user's thread. -/
  | ping (payload : Bytes)
  /-- `client_impl::fetch_sessions` on a user's thread. -/
  | fetchSessions (enableStream : Bool)
  /-- `client_impl::ping` in a callback. -/
  | loopPing (payload : Bytes)
  /-- `client_impl::fetch_sessions` in a callback. -/
  | loopFetchSessions (enableStream : Bool)
  /-- A running `push_command` checks the state of the client. -/
  | pushCheck (n : ℕ)
  /-- A running `push_command` takes the mutex of the commands. -/
  | pushLocked (n : ℕ)

namespace Client

/-- Run a callback on the event loop. -/
def callback (c : Client) (f : Client → Client) : Option Client :=
  if c.phase = .running ∧ c.activity = .idle then some (f c) else none

/-- `run` up to `uv_run`. -/
def startRun (c : Client) (refused : Option ℕ) : Client :=
  { c with phase := .running, con := none }.tryToConnect refused

/-- `run` after `uv_run`: the client is closed, its requests are canceled and its connections
disconnected. An exception skips the rest. -/
def unwindRun (c : Client) : Client :=
  let c := { c with phase := .unwinding, activity := .idle }
  let c := (c.setState .closed).cancelRequests
  { c.andThen (·.disconnectAll .closedByLocal) with activity := .idle }

/-- The end of `run`: the containers are reset. -/
def finishRun (c : Client) : Client :=
  { c with
    txs := c.txs.map fun cell => { cell with registered := false }
    connections := []
    commands := []
    requests := []
    accepted := []
    con := none
    phase := .finished }

/-- The number of commands that `push_command` accepts, in 32-bit arithmetic. -/
def commandLimit (c : Client) : ℕ := (c.maxActiveTxs + 3) % 2 ^ 32

/-- The end of a `push_command` without an exception: `submit` takes its future. -/
def endPush (c : Client) (p : Push) : Client :=
  match p.command with
  | .request (.submit t _) => c.onTx t fun tx => (tx.takeFuture, none)
  | _ => c

/-- `push_command` under the mutex, for so many commands in `m_commands`: an overflow throws on the
user's thread, and in the stop callback it stops the loop; the first command wakes the event loop. -/
def enqueue (c : Client) (p : Push) (waiting : ℕ) : Client :=
  if c.commandLimit ≤ waiting then if p.stop then { c with stopping := true } else c
  else
    let c := { c with commands := c.commands ++ [p.command] }
    let c := if waiting + 1 = 1 then { c with async := true } else c
    c.endPush p

/-- `push_command` under the mutex. -/
def pushLocked (c : Client) (p : Push) : Client := c.enqueue p c.commands.length

/-- `transaction_impl::submit` up to `push_command`. -/
def submitTx (c : Client) (t : ℕ) (cell : TxCell) (force : Bool) : Client :=
  match cell.tx.submit force true with
  | .ok (.done tx) => { c with txs := c.txs.set t { cell with tx := tx } }
  | .ok (.push tx) =>
    { c with
      txs := c.txs.set t { cell with tx := tx }
      pushes := c.pushes ++ [{ command := .request (.submit t force) }] }
  | .error _ => c

/-- `client_impl::create_tx`. -/
def createTx (c : Client) (isolation : Isolation) (readOnly : Bool) : Client :=
  if c.isClosed then c
  else
    let c := c.purgeUnusedTxs
    if c.maxActiveTxs ≤ c.txs.countP (·.registered) then c
    else
      match c.account with
      | none => c
      | some user =>
        { c with
          txs := c.txs ++ [{ tx := Transaction.create c.store isolation readOnly (some user) }] }

/-- `client_impl::ping` and `fetch_sessions` on a user's thread. -/
def pushRequest (c : Client) (kind : ℕ → RequestKind) : Client :=
  { c with
    tickets := c.tickets + 1
    pushes := c.pushes ++ [{ command := .request (kind c.tickets) }] }

/-- The check of `fetch_sessions`. -/
def mayFetchSessions (c : Client) : Bool :=
  c.state ≠ .offline && c.state ≠ .connecting && !c.isClosed &&
    match c.account with
    | none => false
    | some user => user.canMonitor

/-- The destructors of the transactions that nothing refers to any more discard them. -/
def reap (c : Client) : Client :=
  { c with
    txs := c.txs.mapIdx fun t cell =>
      if cell.registered || c.isUsed t cell then cell else { cell with tx := cell.tx.discard } }

/-- One step, before the transactions without references are destroyed. -/
def stepRaw (globMatch : Glob) (c : Client) : Event → Option Client
  | .start refused =>
    if c.phase = .ready ∧ c.state = .offline then some (c.startRun refused) else none
  | .connected i =>
    match c.connections[i]? with
    | none => none
    | some con =>
      if con.state = .connecting ∧ con.closing = false then
        c.callback fun c =>
          { c with
            connections := c.connections.set i { con with state := .connected }
          }.onConnectionEstablished i
      else none
  | .failed i cause => if c.phase = .running then some (c.disconnect i cause) else none
  | .closed i delay retry refused =>
    match c.connections[i]? with
    | none => none
    | some con =>
      if con.isClosed ∨ con.closing = false then none
      else
        c.callback fun c =>
          { c with connections := c.connections.set i con.onClose }.onConnectionClosed i delay retry
            refused
  | .read i =>
    match c.connections[i]? with
    | none => none
    | some con =>
      if con.state = .connected ∧ con.closing = false then
        c.callback fun c => { c with activity := .reading i }
      else none
  | .message msg throws =>
    match c.activity with
    | .reading i => some (c.onMsgReceived i msg throws)
    | _ => none
  | .malformed =>
    match c.activity with
    | .reading i => some ({ c with activity := .idle }.disconnect i .msgError)
    | _ => none
  | .readEnd =>
    match c.activity with
    | .reading _ => some { c with activity := .idle }
    | _ => none
  | .update =>
    match c.activity with
    | .pushing i _ [] => some { c with activity := .reading i }
    | .pushing i crev (u :: rest) =>
      some ({ c with activity := .pushing i crev rest }.pushUpdate globMatch crev u)
    | _ => none
  | .timerConLost => if c.timerConLost then c.callback onConnectionLost else none
  | .timerReconnect refused =>
    if c.timerReconnect then
      c.callback fun c => { c with timerReconnect := false }.tryToConnect refused
    else none
  | .sigint => c.callback abort
  | .async =>
    if c.async then
      c.callback fun c =>
        let c := { c with async := false }
        if c.isClosed then c else { c with activity := .draining }
    else none
  | .command =>
    match c.activity, c.commands with
    | .draining, command :: rest => some ({ c with commands := rest }.processCommand command)
    | _, _ => none
  | .commandsEnd =>
    if c.activity = .draining ∧ c.commands = [] then some { c with activity := .idle } else none
  | .unwind =>
    if c.phase = .running ∧ (c.activity = .thrown ∨ c.activity = .idle ∧ c.stopping = true) then
      some c.unwindRun
    else none
  | .finish => if c.phase = .unwinding then some c.finishRun else none
  | .createTx isolation readOnly => some (c.createTx isolation readOnly)
  | .use _ (.commit _) => none
  | .use t i =>
    match c.txs[t]? with
    | none => none
    | some cell =>
      if !cell.held then none
      else
        (OpenTx.step globMatch ⟨c.store, cell.tx, []⟩ i).map fun answer =>
          { c with txs := c.txs.set t { cell with tx := answer.1.tx } }
  | .discard t =>
    match c.txs[t]? with
    | none => none
    | some cell => if cell.held then some (c.onTx t fun tx => (tx.discard, none)) else none
  | .release t =>
    (c.txs[t]?).map fun cell => { c with txs := c.txs.set t { cell with held := false } }
  | .submit t force =>
    match c.txs[t]? with
    | none => none
    | some cell => if cell.held then some (c.submitTx t cell force) else none
  | .close => some { c with pushes := c.pushes ++ [{ command := .close }] }
  | .stop =>
    if c.phase = .running then
      some { c with pushes := c.pushes ++ [{ command := .close, stop := true }] }
    else none
  | .ping payload => some (if c.isClosed then c else c.pushRequest fun ticket => .ping ticket payload)
  | .fetchSessions enableStream =>
    some (if c.mayFetchSessions then c.pushRequest fun ticket => .sessions ticket enableStream else c)
  | .loopPing payload =>
    if c.phase = .running ∧ c.broken = false ∧ c.isClosed = false then
      some ({ c with tickets := c.tickets + 1 }.processPingCmd c.tickets payload)
    else none
  | .loopFetchSessions enableStream =>
    if c.phase = .running ∧ c.broken = false ∧ c.mayFetchSessions = true then
      some ({ c with tickets := c.tickets + 1 }.processSessionsCmd c.tickets enableStream)
    else none
  | .pushCheck n =>
    match c.pushes[n]? with
    | none => none
    | some p =>
      if c.isClosed then some ({ c with pushes := c.pushes.eraseIdx n }.endPush p)
      else some { c with pushes := c.pushes.set n { p with checked := true } }
  | .pushLocked n =>
    match c.pushes[n]? with
    | none => none
    | some p => if p.checked then some ({ c with pushes := c.pushes.eraseIdx n }.pushLocked p) else none

/-- One step; none is left after a crash of the program. -/
def step (globMatch : Glob) (c : Client) (e : Event) : Option Client :=
  if c.activity = .crashed then none else (c.stepRaw globMatch e).map reap

end Client

end Nplex
