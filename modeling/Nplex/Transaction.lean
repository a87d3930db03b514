import Nplex.Store
import Nplex.User

/-!
# Transactions

`transaction_impl` of `transaction_impl.cpp`. The methods that can throw do so before their
first assignment, so an exception leaves the transaction as it was and the methods return
`Except`. The store is an argument: the methods only read it, under its mutex. The promise
records its result and whether its future was taken.
-/

namespace Nplex

/-- Transaction states (`transaction::state_e`). -/
inductive TxState
  | opened
  | submitted
  | accepted
  | rejected
  | committed
  | discarded
  | aborted
  deriving DecidableEq, Repr

/-- Isolation levels (`transaction::isolation_e`). -/
inductive Isolation
  | readCommitted
  | repeatableRead
  | serializable
  deriving DecidableEq, Repr

/-- Submit results seen by the user (`transaction::submit_e`). -/
inductive SubmitResult
  | noModifications
  | committed
  | tryLater
  | rejectedPermission
  | rejectedOldRevision
  | rejectedIntegrity
  | rejectedEnsure
  | rejectedOther
  deriving DecidableEq, Repr

/-- Submit results sent by the server (`msgs::SubmitCode`). -/
inductive SubmitCode
  | accepted
  | tryLater
  | noModifications
  | rejectedPermission
  | rejectedOldRevision
  | rejectedIntegrity
  | rejectedEnsure
  | errorInvalidRevision
  | errorDuplicateKey
  | errorInvalidKey
  | invalidMessage
  deriving DecidableEq, Repr

/-- What a transaction knows about a key (`transaction_impl::action_e`). -/
inductive ItemAction
  | read
  | snapshot
  | upsert
  | delete
  deriving DecidableEq, Repr

/-- An item of the transaction (`entry_t`). -/
structure Entry where
  action : ItemAction
  value : Option Value
  deriving DecidableEq, Repr

/-- The exceptions that reach a future. -/
inductive TxException
  /-- "Transaction was discarded" -/
  | discarded
  /-- "request canceled" -/
  | requestCanceled
  /-- "client is not connected" -/
  | notConnected
  /-- "unexpected update received" -/
  | unexpectedUpdate
  deriving DecidableEq, Repr

/-- What a promise was satisfied with. -/
inductive Outcome
  | value (r : SubmitResult)
  | exception (e : TxException)
  deriving DecidableEq, Repr

/-- `std::promise<submit_e>`: its result, and whether `get_future` was called. -/
structure Promise where
  result : Option Outcome := none
  retrieved : Bool := false
  deriving DecidableEq, Repr

/-- The exceptions thrown by the transaction methods. -/
inductive TxError
  /-- "Trying to read an invalid key: {}" -/
  | readInvalidKey (key : Bytes)
  /-- "Transaction is not open" -/
  | notOpen
  /-- "Invalid key or invalid data" -/
  | invalidKeyOrData
  /-- "Invalid key" -/
  | invalidKey
  /-- "Transaction is read-only" -/
  | readOnly
  /-- "not authorized to update key {}" -/
  | updateNotAuthorized (key : Key)
  /-- "not authorized to create key {}" -/
  | createNotAuthorized (key : Key)
  /-- "not authorized to delete key {}" -/
  | deleteNotAuthorized (key : Key)
  /-- "Client is no longer available" -/
  | clientGone
  /-- `std::future_error`: the promise is already satisfied. -/
  | promiseSatisfied
  deriving DecidableEq, Repr

/-- Satisfy a promise; a satisfied promise throws. -/
def Promise.set (p : Promise) (o : Outcome) : Except TxError Promise :=
  match p.result with
  | none => .ok { p with result := some o }
  | some _ => .error .promiseSatisfied

/-- A transaction (`transaction_impl`). -/
structure Transaction where
  isolation : Isolation
  readOnly : Bool
  user : Option User
  revCreation : ℕ
  type : ℕ := 0
  items : KeyMap Entry := ∅
  ensures : Std.ExtTreeSet Bytes compare := ∅
  state : TxState := .opened
  dirty : Bool := false
  promise : Promise := {}
  /-- The promises replaced by a TRY_LATER; the user may still hold their futures. -/
  earlier : List Promise := []

/-- `transaction::is_closed`. -/
def TxState.isClosed : TxState → Bool
  | .rejected | .committed | .discarded | .aborted => true
  | .opened | .submitted | .accepted => false

namespace Transaction

/-- The constructor: the creation revision is the store's current one. -/
def create (store : Store) (isolation : Isolation) (readOnly : Bool) (user : Option User) :
    Transaction :=
  { isolation := isolation, readOnly := readOnly, user := user, revCreation := store.rev }

/-- `transaction_impl::set_state`: closed states are never left. -/
def setState (tx : Transaction) (state : TxState) : Transaction :=
  if tx.state.isClosed || state = tx.state then tx else { tx with state := state }

/-- `transaction_impl::discard`: a satisfied promise keeps its result. -/
def discard (tx : Transaction) : Transaction :=
  let tx := tx.setState .discarded
  match tx.promise.set (.exception .discarded) with
  | .ok p => { tx with promise := p }
  | .error _ => tx

/-- `transaction_impl::rev`. -/
def rev (tx : Transaction) (store : Store) : ℕ :=
  match tx.isolation with
  | .repeatableRead | .readCommitted => store.rev
  | .serializable => tx.revCreation

/-- The body of `ensure` on an open transaction. -/
def addEnsure (tx : Transaction) (pattern : Bytes) : Transaction :=
  if pattern ∈ tx.ensures then tx else { tx with ensures := tx.ensures.insert pattern }

/-- `transaction_impl::ensure`. -/
def ensure (tx : Transaction) (pattern : Option Bytes) : Except TxError (Bool × Transaction) :=
  match pattern with
  | none => .ok (false, tx)
  | some pattern => if tx.state ≠ .opened then .error .notOpen else .ok (true, tx.addEnsure pattern)

/-- `transaction_impl::read`. -/
def read (tx : Transaction) (store : Store) (key : Bytes) (ensure : Bool) :
    Except TxError (Option Value × Transaction) :=
  if !isValidKey key then .error (.readInvalidKey key)
  else if tx.state ≠ .opened then .error .notOpen
  else
    match tx.items[key]? with
    | some entry =>
      if entry.action = .delete then .ok (none, tx)
      else
        match entry.value with
        | none => .ok (none, tx)
        | some v =>
          let tx :=
            if entry.action = .snapshot then
              { tx with items := tx.items.insert key ⟨.read, some v⟩, dirty := true }
            else tx
          .ok (some v, if ensure then tx.addEnsure key else tx)
    | none =>
      let found := store.data[key]?
      let tx :=
        if tx.isolation ≠ .readCommitted then
          { tx with items := tx.items.insertIfNew key ⟨.read, found⟩ }
        else tx
      match found with
      | none => .ok (none, tx)
      | some v => .ok (some v, if ensure then tx.addEnsure key else tx)

/-- `transaction_impl::upsert_internal`; the result is false when nothing was written. -/
def upsertInternal (globMatch : Glob) (tx : Transaction) (store : Store) (key data : Bytes)
    (force : Bool) : Except TxError (Bool × Transaction) :=
  if !isValidKey key || data.isEmpty then .error .invalidKeyOrData
  else if tx.readOnly then .error .readOnly
  else if tx.state ≠ .opened then .error .notOpen
  else
    let value : Value := ⟨data, none⟩
    match tx.items[key]? with
    | some entry =>
      if !authorized globMatch tx.user CRUD_UPDATE key then .error (.updateNotAuthorized key)
      else
        let tx := if entry.action = .snapshot then { tx with dirty := true } else tx
        if !force && entry.action ≠ .delete && entry.value.map Value.data == some data then
          .ok (false, tx)
        else .ok (true, { tx with items := tx.items.insert key ⟨.upsert, some value⟩ })
    | none =>
      match store.data[key]? with
      | none =>
        if !authorized globMatch tx.user CRUD_CREATE key then .error (.createNotAuthorized key)
        else .ok (true, { tx with items := tx.items.insertIfNew key ⟨.upsert, some value⟩ })
      | some stored =>
        if !authorized globMatch tx.user CRUD_UPDATE key then .error (.updateNotAuthorized key)
        else if !force && stored.data == data then
          .ok (false,
            if tx.isolation = .repeatableRead then
              { tx with items := tx.items.insertIfNew key ⟨.read, some stored⟩ }
            else tx)
        else .ok (true, { tx with items := tx.items.insertIfNew key ⟨.upsert, some value⟩ })

/-- `transaction_impl::upsert`. -/
def upsert (globMatch : Glob) (tx : Transaction) (store : Store) (key data : Bytes) :
    Except TxError Transaction :=
  (tx.upsertInternal globMatch store key data true).map Prod.snd

/-- `transaction_impl::upsert_if_changed`. -/
def upsertIfChanged (globMatch : Glob) (tx : Transaction) (store : Store) (key data : Bytes) :
    Except TxError (Bool × Transaction) :=
  tx.upsertInternal globMatch store key data false

/-- `transaction_impl::remove` of a key. -/
def remove (globMatch : Glob) (tx : Transaction) (store : Store) (key : Key) :
    Except TxError (Bool × Transaction) :=
  if !isValidKey key then .error .invalidKey
  else if tx.readOnly then .error .readOnly
  else if tx.state ≠ .opened then .error .notOpen
  else if !authorized globMatch tx.user CRUD_DELETE key then .error (.deleteNotAuthorized key)
  else
    match tx.items[key]? with
    | some entry =>
      if (entry.action = .read || entry.action = .snapshot) && entry.value.isNone then .ok (false, tx)
      else if entry.action = .delete then .ok (false, tx)
      else .ok (true, { tx with items := tx.items.insert key ⟨.delete, none⟩ })
    | none =>
      match store.data[key]? with
      | none => .ok (false, tx)
      | some _ => .ok (true, { tx with items := tx.items.insertIfNew key ⟨.delete, none⟩ })

/-- The part of a pattern before its first `*` or `?` (`strcspn`). -/
def literalPrefix (pattern : Bytes) : Bytes := pattern.takeWhile fun b => b ≠ 42 && b ≠ 63

/-- `starts_with`. -/
def startsWith (key pre : Bytes) : Bool := pre.isPrefixOf key

/-- The entries from `lower_bound(prefix)` on. -/
def fromPrefix {V : Type} (pre : Bytes) (entries : List (Key × V)) : List (Key × V) :=
  entries.dropWhile fun e => (compare e.1 pre).isLT

/-- Move an iterator to the next matching key; it ends at the first key without the prefix. -/
def nextMatch {V : Type} (globMatch : Glob) (pattern : Bytes) :
    List (Key × V) → List (Key × V)
  | [] => []
  | e :: rest =>
    if !startsWith e.1 (literalPrefix pattern) then []
    else if globMatch e.1 pattern then e :: rest
    else nextMatch globMatch pattern rest

/-- The variables of the loop of `for_each_internal`: the visited pairs, the pairs to pin, the
transaction. -/
structure Visit where
  ret : List (Key × Value)
  pinned : List (Key × Value)
  tx : Transaction

/-- Visit a key that the transaction has an item for. -/
def Visit.item (v : Visit) (key : Key) (entry : Entry) : Visit :=
  let v :=
    match entry.value with
    | some value => if entry.action ≠ .delete then { v with ret := v.ret ++ [(key, value)] } else v
    | none => v
  if entry.action = .snapshot then
    { v with
      tx := { v.tx with items := v.tx.items.insert key ⟨.read, entry.value⟩, dirty := true } }
  else v

/-- Visit a key that is only in the store. -/
def Visit.stored (v : Visit) (key : Key) (value : Value) : Visit :=
  { v with
    ret := v.ret ++ [(key, value)]
    pinned := if v.tx.isolation ≠ .readCommitted then v.pinned ++ [(key, value)] else v.pinned }

/-- The merge loop of `for_each_internal`. Every turn consumes an entry, so fuel equal to the
number of entries is never exhausted. -/
def forEachLoop (globMatch : Glob) (pattern : Bytes) :
    ℕ → List (Key × Entry) → List (Key × Value) → Visit → Visit
  | 0, _, _, v => v
  | fuel + 1, itTx, itStore, v =>
    match nextMatch globMatch pattern itTx, nextMatch globMatch pattern itStore with
    | (kt, entry) :: restTx, (ks, value) :: restStore =>
      match compare kt ks with
      | .lt => forEachLoop globMatch pattern fuel restTx ((ks, value) :: restStore) (v.item kt entry)
      | .gt => forEachLoop globMatch pattern fuel ((kt, entry) :: restTx) restStore (v.stored ks value)
      | .eq => forEachLoop globMatch pattern fuel restTx restStore (v.item kt entry)
    | (kt, entry) :: restTx, [] => forEachLoop globMatch pattern fuel restTx [] (v.item kt entry)
    | [], (ks, value) :: restStore =>
      forEachLoop globMatch pattern fuel [] restStore (v.stored ks value)
    | [], [] => v

/-- `transaction_impl::for_each_internal`: the visible pairs matching a pattern, all of them
pinned or marked as read unless the isolation level is read-committed. -/
def forEachInternal (globMatch : Glob) (tx : Transaction) (store : Store) (pattern : Bytes) :
    List (Key × Value) × Transaction :=
  let pattern := if pattern.isEmpty then [42, 42] else pattern
  let itTx := fromPrefix (literalPrefix pattern) tx.items.toList
  let itStore := fromPrefix (literalPrefix pattern) store.data.toList
  let v := forEachLoop globMatch pattern (itTx.length + itStore.length) itTx itStore ⟨[], [], tx⟩
  (v.ret,
    { v.tx with
      items := v.pinned.foldl (fun items kv => items.insertIfNew kv.1 ⟨.read, some kv.2⟩) v.tx.items })

/-- A callback of `for_each`: it may use what it has captured and the transaction, and says whether
to go on. -/
abbrev Callback (S : Type) := Key → Value → S → Transaction → S × Transaction × Except TxError Bool

/-- The loop of `for_each` over the collected pairs; the result counts the calls. -/
def callEach {S : Type} (callback : Callback S) : List (Key × Value) → ℕ → S → Transaction →
    S × Transaction × Except TxError ℕ
  | [], n, s, tx => (s, tx, .ok n)
  | (key, value) :: rest, n, s, tx =>
    match callback key value s tx with
    | (s, tx, .error e) => (s, tx, .error e)
    | (s, tx, .ok false) => (s, tx, .ok (n + 1))
    | (s, tx, .ok true) => callEach callback rest (n + 1) s tx

/-- `transaction_impl::for_each`. -/
def forEach {S : Type} (globMatch : Glob) (tx : Transaction) (store : Store) (pattern : Bytes)
    (callback : Callback S) (s : S) : S × Transaction × Except TxError ℕ :=
  if pattern.isEmpty then (s, tx, .ok 0)
  else if tx.state ≠ .opened then (s, tx, .error .notOpen)
  else
    let (kvs, tx) := tx.forEachInternal globMatch store pattern
    callEach callback kvs 0 s tx

/-- The callback with which `remove` visits the keys of a pattern; it captures nothing but the
transaction. -/
def removing (globMatch : Glob) (store : Store) : Callback Unit := fun key _ s tx =>
  match tx.remove globMatch store key with
  | .ok (_, tx) => (s, tx, .ok true)
  | .error e => (s, tx, .error e)

/-- `transaction_impl::remove` of a pattern. -/
def removePattern (globMatch : Glob) (tx : Transaction) (store : Store) (pattern : Bytes) :
    Transaction × Except TxError ℕ :=
  if tx.readOnly then (tx, .error .readOnly)
  else if tx.state ≠ .opened then (tx, .error .notOpen)
  else (tx.forEach globMatch store pattern (removing globMatch store) ()).2

/-- `transaction_impl::update_default`. -/
def updateDefault (tx : Transaction) (changes : List Change) : Transaction :=
  if tx.dirty then tx
  else if changes.any fun c => c.key ∈ tx.items then { tx with dirty := true }
  else tx

/-- One turn of `transaction_impl::update_serializable`. -/
def snapshotChange (tx : Transaction) (c : Change) : Transaction :=
  if c.key ∈ tx.items then { tx with dirty := true }
  else
    match c.action with
    | .create => { tx with items := tx.items.insertIfNew c.key ⟨.snapshot, none⟩ }
    | .update | .delete => { tx with items := tx.items.insertIfNew c.key ⟨.snapshot, c.oldValue⟩ }

/-- `transaction_impl::update_serializable`. -/
def updateSerializable (tx : Transaction) (changes : List Change) : Transaction :=
  changes.foldl snapshotChange tx

/-- Some change is about a key that matches an ensure pattern. -/
def ensureBroken (globMatch : Glob) (tx : Transaction) (changes : List Change) : Bool :=
  changes.any fun c => tx.ensures.toList.any fun e => globMatch c.key e

/-- `transaction_impl::update`. -/
def update (globMatch : Glob) (tx : Transaction) (changes : List Change) : Transaction :=
  if tx.state ≠ .opened then tx
  else
    let tx :=
      match tx.isolation with
      | .serializable => tx.updateSerializable changes
      | .readCommitted | .repeatableRead => tx.updateDefault changes
    if tx.dirty || tx.ensures.isEmpty then tx
    else if tx.ensureBroken globMatch changes then { tx with dirty := true }
    else tx

/-- Some item is neither a read nor a snapshot. -/
def hasModifications (tx : Transaction) : Bool :=
  tx.items.toList.any fun item => item.2.action ≠ .read && item.2.action ≠ .snapshot

/-- The end of `submit` on the client side: satisfy the promise, close, take the future. -/
def finish (tx : Transaction) (result : SubmitResult) (state : TxState) : Except TxError Transaction :=
  match tx.promise.set (.value result) with
  | .ok p => .ok { tx.setState state with promise := { p with retrieved := true } }
  | .error e => .error e

/-- How `submit` goes on after its checks on the user's thread. -/
inductive SubmitStep
  /-- The future is returned with its result. -/
  | done (tx : Transaction)
  /-- The transaction is SUBMITTED and its request goes to `push_command`. -/
  | push (tx : Transaction)

/-- `transaction_impl::submit` up to `push_command`; `client` says that the client is alive. -/
def submit (tx : Transaction) (force client : Bool) : Except TxError SubmitStep :=
  if tx.state ≠ .opened then .error .notOpen
  else if tx.readOnly then (tx.finish .noModifications .discarded).map .done
  else if !force && !tx.hasModifications then (tx.finish .noModifications .discarded).map .done
  else if !force && tx.dirty then (tx.finish .rejectedIntegrity .rejected).map .done
  else if !client then .error .clientGone
  else if force && (tx.user.map User.canForce == some false) then
    (tx.finish .rejectedPermission .rejected).map .done
  else .ok (.push (tx.setState .submitted))

/-- The end of `submit` after `push_command`: take the future. -/
def takeFuture (tx : Transaction) : Transaction :=
  { tx with promise := { tx.promise with retrieved := true } }

/-- Set a state and then satisfy the promise, as `set_submit_result` and `confirm_commit` do.
The state stays set when the promise throws. -/
def close (tx : Transaction) (state : TxState) (o : Outcome) : Transaction × Option TxError :=
  let tx := tx.setState state
  match tx.promise.set o with
  | .ok p => ({ tx with promise := p }, none)
  | .error e => (tx, some e)

/-- `transaction_impl::set_submit_result` with an exception. -/
def setSubmitException (tx : Transaction) (e : TxException) : Transaction × Option TxError :=
  if tx.state ≠ .submitted then (tx, none) else tx.close .aborted (.exception e)

/-- `transaction_impl::set_submit_result` with the code of a response. -/
def setSubmitResult (tx : Transaction) (code : SubmitCode) : Transaction × Option TxError :=
  if tx.state ≠ .submitted then (tx, none)
  else
    match code with
    | .accepted => (tx.setState .accepted, none)
    | .tryLater =>
      match tx.close .opened (.value .tryLater) with
      | (tx, none) => ({ tx with promise := {}, earlier := tx.earlier ++ [tx.promise] }, none)
      | (tx, some e) => (tx, some e)
    | .noModifications => tx.close .discarded (.value .noModifications)
    | .rejectedPermission => tx.close .rejected (.value .rejectedPermission)
    | .rejectedOldRevision => tx.close .rejected (.value .rejectedOldRevision)
    | .rejectedIntegrity => tx.close .rejected (.value .rejectedIntegrity)
    | .rejectedEnsure => tx.close .rejected (.value .rejectedEnsure)
    | .errorInvalidRevision | .errorDuplicateKey | .errorInvalidKey | .invalidMessage =>
      tx.close .rejected (.value .rejectedOther)

/-- `transaction_impl::confirm_commit`. -/
def confirmCommit (tx : Transaction) : Transaction × Option TxError :=
  if tx.state ≠ .accepted then (tx, none) else tx.close .committed (.value .committed)

end Transaction

end Nplex
