import Nplex.Transaction

/-!
# Messages

The requests that `messaging.cpp` builds, and the responses and pushes of the server with the
fields that the client reads.
-/

namespace Nplex

/-- `msgs::SubmitRequest`. -/
structure SubmitRequest where
  cid : ℕ
  crev : ℕ
  type : ℕ
  upserts : List (Key × Bytes)
  deletes : List Key
  ensures : List Bytes
  force : Bool
  deriving DecidableEq, Repr

/-- `create_submit_msg`: the writes of the transaction, and the revision it has been checked
against: its creation revision when it is serializable, the given one otherwise. -/
def createSubmitMsg (cid crev : ℕ) (force : Bool) (tx : Transaction) : SubmitRequest :=
  { cid := cid
    crev := if tx.isolation = .serializable then tx.revCreation else crev
    type := tx.type
    upserts := tx.items.toList.filterMap fun item =>
      if item.2.action = .upsert then some (item.1, (item.2.value.map Value.data).getD []) else none
    deletes := tx.items.toList.filterMap fun item =>
      if item.2.action = .delete then some item.1 else none
    ensures := tx.ensures.toList
    force := force }

/-- The messages of a client. -/
inductive ClientMsg
  /-- `create_login_msg`. -/
  | login (cid : ℕ) (user password : Bytes)
  /-- `create_snapshot_msg`. -/
  | snapshot (cid rev : ℕ)
  /-- `create_updates_msg`. -/
  | updates (cid rev : ℕ)
  /-- `create_submit_msg`. -/
  | submit (request : SubmitRequest)
  /-- `create_ping_msg`. -/
  | ping (cid : ℕ) (payload : Bytes)
  /-- `create_sessions_msg`. -/
  | sessions (cid : ℕ) (stream : Bool)
  deriving DecidableEq, Repr

/-- `msgs::LoginCode`. -/
inductive LoginCode
  | authorized
  | invalidCredentials
  | tooManyConnections
  | unsupportedSchema
  deriving DecidableEq, Repr

/-- `msgs::LoginResponse`; no list of permissions is an empty one. -/
structure LoginResponse where
  code : LoginCode
  rev0 : ℕ
  crev : ℕ
  canForce : Bool
  canMonitor : Bool
  keepalive : ℕ
  permissions : List Acl
  deriving DecidableEq, Repr

/-- `msgs::SnapshotResponse`. -/
structure SnapshotResponse where
  cid : ℕ
  accepted : Bool
  snapshot : Option Snapshot
  deriving DecidableEq, Repr

/-- `msgs::UpdatesResponse`. -/
structure UpdatesResponse where
  cid : ℕ
  crev : ℕ
  accepted : Bool
  deriving DecidableEq, Repr

/-- `msgs::UpdatesPush`; no list of updates is an empty one. -/
structure UpdatesPush where
  cid : ℕ
  crev : ℕ
  updates : List Update
  deriving DecidableEq, Repr

/-- `msgs::SubmitResponse`. -/
structure SubmitResponse where
  cid : ℕ
  code : SubmitCode
  erev : ℕ
  deriving DecidableEq, Repr

/-- The content of a message from the server, as far as the client reads it. -/
inductive ServerMsg
  | loginResponse (resp : LoginResponse)
  | snapshotResponse (resp : SnapshotResponse)
  | updatesResponse (resp : UpdatesResponse)
  | updatesPush (resp : UpdatesPush)
  | submitResponse (resp : SubmitResponse)
  | pingResponse (cid : ℕ)
  /-- `complete` says that no session of the list is null. -/
  | sessionsResponse (cid : ℕ) (complete : Bool)
  /-- `complete` says that the session is not null. -/
  | sessionsPush (cid : ℕ) (complete : Bool)
  | keepalivePush
  /-- A content type that only clients send. -/
  | unexpected
  deriving DecidableEq, Repr

end Nplex
