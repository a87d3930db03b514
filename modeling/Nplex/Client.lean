import Nplex.Connection
import Nplex.Messaging

/-!
# The client

The handlers of `client_impl.cpp`. They run on the event loop one after the other; an exception
that leaves a handler ends the event loop, and the null dereferences of the source end the
program. Callbacks of the manager and the reactor enter as what they return, or as the fact
that they throw.
-/

namespace Nplex

/-- Client states (`client_impl::state_e`). -/
inductive ClientState
  | offline
  | connecting
  | authenticated
  | loadingSnapshot
  | initialized
  | syncing
  | synced
  | closed
  deriving DecidableEq, Repr

/-- What a request asks (`submit_req_t`, `ping_req_t`, `sessions_req_t`). A ticket stands for the
promise of a ping or sessions request. -/
inductive RequestKind
  | submit (tx : ℕ) (force : Bool)
  | ping (ticket : ℕ) (payload : Bytes)
  | sessions (ticket : ℕ) (enableStream : Bool)
  deriving DecidableEq, Repr

/-- An entry of `m_commands`. -/
inductive Command
  | close
  | request (kind : RequestKind)
  deriving DecidableEq, Repr

/-- An entry of `m_requests`. -/
structure Request where
  cid : ℕ
  kind : RequestKind
  deriving DecidableEq, Repr

/-- An entry of `m_accepted`. -/
structure Accepted where
  tx : ℕ
  erev : ℕ
  deriving DecidableEq, Repr

/-- What the promise of a ping or sessions request was satisfied with. -/
inductive Reply
  | latency
  | sessions
  /-- "request canceled" -/
  | canceled
  /-- "client is not connected" -/
  | notConnected
  deriving DecidableEq, Repr

/-- A transaction, whether the user still holds it, and whether it is in `m_transactions`. -/
structure TxCell where
  tx : Transaction
  held : Bool := true
  registered : Bool := true

/-- A `push_command` under way on a user's thread, past its check of the state or before it. -/
structure Push where
  command : Command
  checked : Bool := false
  /-- It was started by the stop callback of `run`. -/
  stop : Bool := false
  deriving DecidableEq, Repr

/-- The calls of the reactor. -/
inductive ReactorCall
  | initialData
  | eventData (rev : ℕ) (changes : List Change)
  | initialSessions
  | eventSession
  deriving DecidableEq, Repr

/-- What the event loop is doing. -/
inductive Activity
  | idle
  /-- The loop of `process_commands`. -/
  | draining
  /-- The loop of `cb_tcp_read` over the messages of a connection. -/
  | reading (con : ℕ)
  /-- The loop of `process_updates_push` over the remaining updates, inside that of `cb_tcp_read`. -/
  | pushing (con crev : ℕ) (rest : List Update)
  /-- An exception is on its way to `run`. -/
  | thrown
  /-- The program has dereferenced a null pointer. -/
  | crashed
  deriving DecidableEq, Repr

/-- The phases of `run`. -/
inductive Phase
  | ready
  | running
  /-- After its second `set_state`, `cancel_requests` and disconnections. -/
  | unwinding
  | finished
  deriving DecidableEq, Repr

/-- A write of a field that a closed client should leave alone. -/
inductive Write
  | state (s : ClientState)
  | con (i : ℕ)
  | timer
  deriving DecidableEq, Repr

/-- The client (`client_impl`). -/
structure Client where
  user : Bytes
  password : Bytes
  maxActiveTxs : ℕ
  rev0 : ℕ
  hasReactor : Bool
  /-- `m_user`. -/
  account : Option User := none
  store : Store := Store.empty
  txs : List TxCell := []
  connections : List Connection
  /-- `m_con`. -/
  con : Option ℕ := none
  correlation : ℕ := 0
  dataCid : ℕ := 0
  sessionsCid : ℕ := 0
  initialized : Bool := false
  state : ClientState := .offline
  commands : List Command := []
  requests : List Request := []
  accepted : List Accepted := []
  timerConLost : Bool := false
  timerReconnect : Bool := false
  /-- A wake-up of `m_async_command` is pending. -/
  async : Bool := false
  /-- `uv_stop` was called. -/
  stopping : Bool := false
  phase : Phase := .ready
  activity : Activity := .idle
  pushes : List Push := []
  /-- The number of ping and sessions requests made. -/
  tickets : ℕ := 0
  replies : List (ℕ × Reply) := []
  /-- The messages given to the connections. -/
  sent : List (ℕ × ClientMsg) := []
  calls : List ReactorCall := []
  /-- The writes made while the client was CLOSED. -/
  afterClosed : List Write := []
  /-- A message was given to a connection that is not established. -/
  misdirected : Bool := false

/-- The request is the submit of a transaction. -/
def RequestKind.submits (kind : RequestKind) (t : ℕ) : Bool :=
  match kind with
  | .submit tx _ => tx = t
  | .ping _ _ | .sessions _ _ => false

/-- The command is the submit of a transaction. -/
def Command.submits (command : Command) (t : ℕ) : Bool :=
  match command with
  | .close => false
  | .request kind => kind.submits t

namespace Client

/-- The constructor. -/
def create (user password : Bytes) (maxActiveTxs rev0 servers : ℕ) (hasReactor : Bool) : Client :=
  { user := user
    password := password
    maxActiveTxs := if maxActiveTxs = 0 then 2 ^ 32 - 1 else maxActiveTxs
    rev0 := rev0
    hasReactor := hasReactor
    connections := List.replicate servers {} }

/-- `client_impl::is_closed`. -/
def isClosed (c : Client) : Bool := c.state = .closed

/-- An exception leaves the handler. -/
def throw (c : Client) : Client := { c with activity := .thrown }

/-- A null pointer is dereferenced. -/
def crash (c : Client) : Client := { c with activity := .crashed }

/-- The handler does not go on. -/
def broken (c : Client) : Bool := c.activity = .thrown || c.activity = .crashed

/-- Go on unless an exception was thrown. -/
def andThen (c : Client) (f : Client → Client) : Client := if c.broken then c else f c

/-- Record a write made while the client is CLOSED. -/
def write (c : Client) (w : Write) : Client :=
  if c.isClosed then { c with afterClosed := c.afterClosed ++ [w] } else c

/-- Some queue or running `push_command` refers to the transaction. -/
def refersTo (c : Client) (t : ℕ) : Bool :=
  c.commands.any (·.submits t) || c.requests.any (·.kind.submits t) ||
    c.accepted.any (fun a => a.tx = t) || c.pushes.any (·.command.submits t)

/-- `use_count` counts more than the reference of `m_transactions`. -/
def isUsed (c : Client) (t : ℕ) (cell : TxCell) : Bool := cell.held || c.refersTo t

/-- Call a method of a transaction that may throw. -/
def onTx (c : Client) (t : ℕ) (f : Transaction → Transaction × Option TxError) : Client :=
  match c.txs[t]? with
  | none => c
  | some cell =>
    let (tx, e) := f cell.tx
    let c := { c with txs := c.txs.set t { cell with tx := tx } }
    if e.isSome then c.throw else c

/-- `connection::disconnect` on one of the connections. -/
def disconnect (c : Client) (i : ℕ) (cause : DisconnectCause) : Client :=
  { c with connections := c.connections.modify i (·.disconnect cause) }

/-- `m_con->disconnect`. -/
def disconnectCon (c : Client) (cause : DisconnectCause) : Client :=
  match c.con with
  | none => c
  | some i => c.disconnect i cause

/-- Disconnect all the connections but one. -/
def disconnectOthers (c : Client) (con : Option ℕ) (cause : DisconnectCause) : Client :=
  { c with
    connections := c.connections.mapIdx fun i server =>
      if some i = con then server else server.disconnect cause }

/-- Disconnect all the connections. -/
def disconnectAll (c : Client) (cause : DisconnectCause) : Client :=
  { c with connections := c.connections.map (·.disconnect cause) }

/-- `connection_impl::send`, whose connection takes the message. A refused message is one followed
by the disconnection. -/
def sendOn (c : Client) (i : ℕ) (msg : ClientMsg) : Client :=
  match c.connections[i]? with
  | none => c
  | some con =>
    if con.state ≠ .connected then { c with misdirected := true }.throw
    else { c with sent := c.sent ++ [(i, msg)] }

/-- `client_impl::send`. -/
def send (c : Client) (msg : ClientMsg) : Client :=
  match c.con with
  | none => c
  | some i => if c.isClosed then c else c.sendOn i msg

/-- `client_impl::set_state`. -/
def setState (c : Client) (state : ClientState) : Client :=
  if c.state = state then c
  else
    let c := { c.write (.state state) with state := state }
    if state = .closed then
      { c with
        txs := c.txs.map fun cell => { cell with registered := false }
        commands := []
        requests := []
        accepted := [] }
    else c

/-- `submit_req_t::cancel` and its siblings. -/
def cancel (c : Client) (kind : RequestKind) : Client :=
  match kind with
  | .submit t _ => c.onTx t (·.setSubmitException .requestCanceled)
  | .ping ticket _ | .sessions ticket _ => { c with replies := c.replies ++ [(ticket, .canceled)] }

/-- The first loop of `cancel_requests`. -/
def cancelPending : List Request → Client → Client
  | [], c => c
  | r :: rest, c => ({ c with requests := rest }.cancel r.kind).andThen (cancelPending rest)

/-- The second loop of `cancel_requests`. -/
def cancelAccepted : List Accepted → Client → Client
  | [], c => c
  | a :: rest, c =>
    ({ c with accepted := rest }.cancel (.submit a.tx false)).andThen (cancelAccepted rest)

/-- `client_impl::cancel_requests`. -/
def cancelRequests (c : Client) : Client :=
  (cancelPending c.requests c).andThen fun c => cancelAccepted c.accepted c

/-- `client_impl::abort`. -/
def abort (c : Client) : Client :=
  if c.isClosed then c
  else
    let c := { c with con := none, dataCid := 0, sessionsCid := 0 }
    let c := c.disconnectAll .closedByLocal
    let c := { c with timerConLost := false, timerReconnect := false }
    let c := c.setState .closed
    { c with commands := [], stopping := true }

/-- `client_impl::try_to_connect`; the connection that libuv refuses is given by its position. -/
def tryToConnect (c : Client) (refused : Option ℕ) : Client :=
  if c.isClosed || c.state ≠ .offline then c
  else
    let c := { c with con := none, timerReconnect := false }
    let c := c.setState .connecting
    let (connections, throws) := connectAll refused c.connections
    let c := { c with connections := connections }
    if throws then c.throw else c

/-- `client_impl::on_connection_established`. -/
def onConnectionEstablished (c : Client) (i : ℕ) : Client :=
  if c.con ≠ none then c.disconnect i .alreadyConnected
  else
    let c := { c with correlation := c.correlation + 1 }
    c.sendOn i (.login c.correlation c.user c.password)

/-- `client_impl::schedule_reconnect`. -/
def scheduleReconnect (c : Client) : Client :=
  if c.isClosed then c else { c.write .timer with timerReconnect := true }

/-- The part of `on_connection_closed` that ends the session of `m_con`. -/
def loseSession (c : Client) : Client :=
  let c := c.setState .offline
  let c := { c with con := none, dataCid := 0, sessionsCid := 0 }
  c.cancelRequests

/-- `client_impl::on_connection_closed`. The manager's `on_connection_failed` returns a delay and
its `on_connection_lost` returns whether to retry, unless they throw. -/
def onConnectionClosed (c : Client) (i : ℕ) (delay : Option Int) (retry : Option Bool)
    (refused : Option ℕ) : Client :=
  if c.isClosed then c
  else if c.con = none && c.connections.all (·.isClosed) then
    if delay.getD (-1) < 0 then c.abort else c.scheduleReconnect
  else if c.con ≠ some i then c
  else
    c.loseSession.andThen fun c =>
      let c := { c with timerConLost := false }
      if retry.getD false then c.tryToConnect refused else c.abort

/-- `client_impl::on_connection_lost`. -/
def onConnectionLost (c : Client) : Client := { c.disconnectCon .conLost with timerConLost := false }

/-- The common part of `process_submit_cmd`, `process_ping_cmd` and `process_sessions_cmd`. -/
def processRequest (c : Client) (kind : RequestKind) (refuse : Client → Client)
    (msg : ℕ → ClientMsg) : Client :=
  if c.con = none then refuse c
  else
    let cid := c.correlation
    (({ c with correlation := cid + 1 } : Client).send (msg cid)).andThen fun c =>
      { c with requests := c.requests ++ [⟨cid, kind⟩] }

/-- Satisfy the promise of a ping or sessions request. -/
def reply (c : Client) (ticket : ℕ) (r : Reply) : Client :=
  { c with replies := c.replies ++ [(ticket, r)] }

/-- `client_impl::process_submit_cmd`. -/
def processSubmitCmd (c : Client) (t : ℕ) (force : Bool) : Client :=
  match c.txs[t]? with
  | none => c
  | some cell =>
    c.processRequest (.submit t force) (·.onTx t (·.setSubmitException .notConnected)) fun cid =>
      .submit (createSubmitMsg cid c.store.rev force cell.tx)

/-- `client_impl::process_ping_cmd`. -/
def processPingCmd (c : Client) (ticket : ℕ) (payload : Bytes) : Client :=
  c.processRequest (.ping ticket payload) (·.reply ticket .notConnected) fun cid =>
    .ping cid payload

/-- `client_impl::process_sessions_cmd`. -/
def processSessionsCmd (c : Client) (ticket : ℕ) (enableStream : Bool) : Client :=
  c.processRequest (.sessions ticket enableStream) (·.reply ticket .notConnected) fun cid =>
    .sessions cid enableStream

/-- One turn of the loop of `process_commands`. -/
def processCommand (c : Client) : Command → Client
  | .close => c.abort
  | .request (.submit t force) => c.processSubmitCmd t force
  | .request (.ping ticket payload) => c.processPingCmd ticket payload
  | .request (.sessions ticket enableStream) => c.processSessionsCmd ticket enableStream

/-- Ask for the updates after a revision, from the state SYNCING. -/
def requestUpdates (c : Client) (rev : ℕ) : Client :=
  let c := c.setState .syncing
  let c := { c with dataCid := c.correlation, correlation := c.correlation + 1 }
  c.send (.updates c.dataCid rev)

/-- The revision of the snapshot that a client with an initial revision asks for. -/
def snapshotRev (c : Client) (resp : LoginResponse) : ℕ :=
  if c.rev0 ≤ resp.rev0 then resp.rev0 else if c.rev0 ≤ resp.crev then c.rev0 else 0

/-- Ask for the snapshot at a revision, from the state LOADING_SNAPSHOT. -/
def requestSnapshot (c : Client) (rev : ℕ) : Client :=
  let c := c.setState .loadingSnapshot
  let c := { c with dataCid := c.correlation, correlation := c.correlation + 1 }
  c.send (.snapshot c.dataCid rev)

/-- The start of the connection-lost timer in `process_login_resp`. -/
def startTimerConLost (c : Client) (keepalive : ℕ) : Client :=
  if keepalive ≠ 0 then { c.write .timer with timerConLost := true } else c

/-- The part of `process_login_resp` after the session is established and the manager was told:
it also runs when the manager threw and the client was closed. -/
def startSession (c : Client) (resp : LoginResponse) : Client :=
  let c := c.startTimerConLost resp.keepalive
  let c := c.disconnectOthers c.con .alreadyConnected
  if c.initialized then c.requestUpdates c.store.rev
  else if c.rev0 = 0 then c.requestUpdates 0
  else c.requestSnapshot (c.snapshotRev resp)

/-- The part of `process_login_resp` that takes the connection for the session. -/
def acceptLogin (c : Client) (i : ℕ) (resp : LoginResponse) : Client :=
  let c := { c.write (.con i) with con := some i }
  let c := { c with account := some ⟨c.user, resp.permissions, resp.canForce, resp.canMonitor⟩ }
  c.setState .authenticated

/-- `client_impl::process_login_resp`; `throws` says that the manager's
`on_connection_established` throws. -/
def processLoginResp (c : Client) (i : ℕ) (resp : LoginResponse) (throws : Bool) : Client :=
  if c.con ≠ none then c.disconnect i .alreadyConnected
  else if resp.code ≠ .authorized then c.disconnect i .auth
  else if resp.permissions.isEmpty then c.disconnect i .auth
  else
    let c := c.acceptLogin i resp
    let c := if throws then c.abort else c
    c.startSession resp

/-- Call the reactor, if there is one. -/
def call (c : Client) (r : ReactorCall) : Client :=
  if c.hasReactor then { c with calls := c.calls ++ [r] } else c

/-- The end of `process_snapshot_resp`. -/
def finishSnapshot (c : Client) : Client :=
  let c := { c with initialized := true }
  let c := c.setState .initialized
  c.requestUpdates c.store.rev

/-- The load of `process_snapshot_resp`. -/
def loadSnapshot (c : Client) : Option Snapshot → Client
  | none => c
  | some snapshot =>
    match Store.load (some snapshot) with
    | (store, .ok ()) => { c with store := store }
    | (store, .error _) => { c with store := store }.throw

/-- `client_impl::process_snapshot_resp`; `throws` says that the reactor's `on_initial_data`
throws. -/
def processSnapshotResp (c : Client) (resp : SnapshotResponse) (throws : Bool) : Client :=
  if c.state ≠ .loadingSnapshot ∨ resp.cid ≠ c.dataCid then c.disconnectCon .msgUnexpected
  else if !resp.accepted then c.disconnectCon .load
  else
    (c.loadSnapshot resp.snapshot).andThen fun c =>
      let c := c.call .initialData
      if c.hasReactor && throws then (c.disconnectCon .closedByLocal).abort else c.finishSnapshot

/-- The part of `process_updates_resp` for a client without a snapshot. -/
def installRev (c : Client) (crev : ℕ) : Client :=
  if c.rev0 = 0 then
    { c with store := { c.store with rev := crev }, initialized := true }.setState .initialized
  else c

/-- `client_impl::process_updates_resp`. -/
def processUpdatesResp (c : Client) (resp : UpdatesResponse) : Client :=
  if c.state ≠ .syncing ∨ resp.cid ≠ c.dataCid then c.disconnectCon .msgUnexpected
  else if !resp.accepted then c.disconnectCon .load
  else
    let c := c.installRev resp.crev
    if c.store.rev = resp.crev then c.setState .synced else c

/-- The discarded transactions of `process_update`: accepted for a revision already passed. -/
def discardAccepted (rev : ℕ) : List Accepted → Client → Client
  | [], c => c
  | a :: rest, c =>
    if a.erev < rev then
      ({ c with accepted := rest }.onTx a.tx (·.setSubmitException .unexpectedUpdate)).andThen
        (discardAccepted rev rest)
    else c

/-- `client_impl::purge_unused_txs`. -/
def purgeUnusedTxs (c : Client) : Client :=
  { c with
    txs := c.txs.mapIdx fun t cell =>
      { cell with registered := cell.registered && c.isUsed t cell && !cell.tx.state.isClosed } }

/-- A registered transaction that `process_update` skips as unused. -/
def isStale (c : Client) (t : ℕ) (cell : TxCell) : Bool :=
  cell.registered && (!c.isUsed t cell || cell.tx.state.isClosed)

/-- The delivery of the changes to the registered transactions. -/
def deliver (globMatch : Glob) (changes : List Change) (c : Client) : Client :=
  let c' :=
    { c with
      txs := c.txs.mapIdx fun t cell =>
        if cell.registered && c.isUsed t cell then
          { cell with tx := cell.tx.update globMatch changes }
        else cell }
  if c.txs.zipIdx.any fun cell => c.isStale cell.2 cell.1 then c'.purgeUnusedTxs else c'

/-- The confirmation of the transaction accepted for a revision. -/
def confirmAccepted (rev : ℕ) (c : Client) : Client :=
  match c.accepted with
  | [] => c
  | a :: rest =>
    if a.erev = rev then { c with accepted := rest }.onTx a.tx (·.confirmCommit) else c

/-- `client_impl::process_update`. -/
def processUpdate (globMatch : Glob) (c : Client) (u : Update) : Client :=
  match c.store.update u with
  | (store, .error _) => { c with store := store }.throw
  | (store, .ok (changes, m)) =>
    let c := { c with store := store }
    (discardAccepted m.rev c.accepted c).andThen fun c =>
      ((deliver globMatch changes c).confirmAccepted m.rev).andThen fun c =>
        c.call (.eventData m.rev changes)

/-- One turn of the loop of `process_updates_push`. -/
def pushUpdate (globMatch : Glob) (c : Client) (crev : ℕ) (u : Update) : Client :=
  (c.processUpdate globMatch u).andThen fun c =>
    if c.state = .syncing ∧ u.rev = crev then c.setState .synced else c

/-- `client_impl::process_updates_push`, up to its loop. -/
def processUpdatesPush (c : Client) (i : ℕ) (resp : UpdatesPush) : Client :=
  if resp.cid ≠ c.dataCid then c.disconnectCon .msgUnexpected
  else if resp.updates = [] then c
  else { c with activity := .pushing i resp.crev resp.updates }

/-- `client_impl::process_submit_resp`. -/
def processSubmitResp (c : Client) (resp : SubmitResponse) : Client :=
  match c.requests.dropWhile fun r => r.cid < resp.cid with
  | [] => { c with requests := [] }
  | r :: rest =>
    if r.cid ≠ resp.cid then { c with requests := r :: rest }
    else
      let c := { c with requests := rest }
      match r.kind with
      | .submit t _ =>
        (c.onTx t (·.setSubmitResult resp.code)).andThen fun c =>
          if resp.code = .accepted then { c with accepted := c.accepted ++ [⟨t, resp.erev⟩] } else c
      | .ping _ _ | .sessions _ _ => c.crash

/-- `client_impl::process_ping_resp`. -/
def processPingResp (c : Client) (cid : ℕ) : Client :=
  match c.requests with
  | [] => c
  | r :: rest =>
    if r.cid ≠ cid then c
    else
      let c := { c with requests := rest }
      match r.kind with
      | .ping ticket _ => c.reply ticket .latency
      | .submit _ _ | .sessions _ _ => c.crash

/-- `client_impl::process_sessions_resp`. -/
def processSessionsResp (c : Client) (cid : ℕ) (complete : Bool) : Client :=
  match c.requests with
  | [] => c
  | r :: rest =>
    if r.cid ≠ cid then c
    else
      let c := { c with requests := rest }
      match r.kind with
      | .sessions ticket enableStream =>
        if !complete then c.disconnectCon .msgError
        else
          let c := { c with sessionsCid := if enableStream then r.cid else 0 }
          (c.reply ticket .sessions).call .initialSessions
      | .submit _ _ | .ping _ _ => c.disconnectCon .msgUnexpected

/-- `client_impl::process_sessions_push`. -/
def processSessionsPush (c : Client) (cid : ℕ) (complete : Bool) : Client :=
  if cid = 0 ∨ cid ≠ c.sessionsCid then c.disconnectCon .msgUnexpected
  else if !complete then c.disconnectCon .msgError
  else c.call .eventSession

/-- `client_impl::on_msg_received`; no message is one without content. -/
def onMsgReceived (c : Client) (i : ℕ) (msg : Option ServerMsg) (throws : Bool) : Client :=
  match msg with
  | none => c.disconnect i .msgError
  | some (.loginResponse resp) => c.processLoginResp i resp throws
  | some msg =>
    if c.con ≠ some i then c.disconnect i .alreadyConnected
    else
      match msg with
      | .submitResponse resp => c.processSubmitResp resp
      | .snapshotResponse resp => c.processSnapshotResp resp throws
      | .updatesResponse resp => c.processUpdatesResp resp
      | .updatesPush resp => c.processUpdatesPush i resp
      | .keepalivePush => c
      | .pingResponse cid => c.processPingResp cid
      | .sessionsResponse cid complete => c.processSessionsResp cid complete
      | .sessionsPush cid complete => c.processSessionsPush cid complete
      | .loginResponse _ | .unexpected => c.disconnect i .msgError

end Client

end Nplex
