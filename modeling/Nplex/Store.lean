import Nplex.Utils

/-!
# The in-memory database

`store_t` of `store.cpp`. Every successful update creates one metadata object, shared by
the values it writes; the object is identified by its revision, and its reference counter
`nrefs` is kept in the store beside it. An update that fails half way leaves the changes
made so far in the store, as the source does.
-/

namespace Nplex

/-- A key-value pair of an update message; an absent field is a null pointer. -/
structure KeyValue where
  key : Option Bytes
  value : Option Bytes
  deriving DecidableEq, Repr

/-- A commit as the server sends it (`msgs::Update`). -/
structure Update where
  rev : ℕ
  user : Bytes
  timestamp : ℕ
  txType : ℕ
  upserts : List KeyValue
  deletes : List (Option Bytes)
  deriving DecidableEq, Repr

/-- A database snapshot (`msgs::Snapshot`). -/
structure Snapshot where
  rev : ℕ
  updates : List Update
  deriving DecidableEq, Repr

/-- The exceptions of the store. -/
inductive StoreError
  /-- "Trying to upsert an invalid key: {}" -/
  | upsertInvalidKey (key : Bytes)
  /-- "Trying to delete an invalid key: {}" -/
  | deleteInvalidKey (key : Bytes)
  /-- "Received an update to r{} when store is at r{}" -/
  | oldRevision (rev storeRev : ℕ)
  /-- "Malformed update message at r{}" -/
  | malformed (rev : ℕ)
  /-- "Snapshot at r{} contains entries at r{}" -/
  | badSnapshot (rev storeRev : ℕ)
  deriving DecidableEq, Repr

/-- The database content (`store_t`). -/
structure Store where
  rev : ℕ
  data : KeyMap Value
  metas : Std.ExtTreeMap ℕ Meta compare
  users : KeyMap ℕ
  /-- `meta_t::nrefs` of the metadata object of each revision. -/
  nrefs : Std.ExtTreeMap ℕ ℕ compare

namespace Store

/-- A new store. -/
def empty : Store := ⟨0, ∅, ∅, ∅, ∅⟩

/-- Create the metadata object of an update and count it for its user. -/
def createMeta (s : Store) (u : Update) : Store × Meta :=
  let user := cStr u.user
  let users :=
    match s.users[user]? with
    | none => s.users.insert user 1
    | some n => s.users.insert user ((n + 1) % 2 ^ 32)
  ({ s with users := users, nrefs := s.nrefs.insert u.rev 0 }, ⟨u.rev, user, u.timestamp, u.txType⟩)

/-- Drop one reference to a metadata object; the last one removes it and uncounts its user. -/
def releaseMeta (s : Store) (m : Meta) : Store :=
  let n := s.nrefs.getD m.rev 0 - 1
  let s := { s with nrefs := s.nrefs.insert m.rev n }
  if n = 0 then
    let users :=
      match s.users[m.user]? with
      | none => s.users
      | some count => if 1 < count then s.users.insert m.user (count - 1) else s.users.erase m.user
    { s with users := users, metas := s.metas.erase m.rev }
  else s

/-- Drop the reference held by a stored value. -/
def releaseValue (s : Store) (v : Value) : Store :=
  match v.metadata with
  | none => s
  | some m => s.releaseMeta m

/-- Add the reference held by a value just stored. -/
def retainMeta (s : Store) (m : Meta) : Store :=
  { s with nrefs := s.nrefs.insert m.rev ((s.nrefs.getD m.rev 0 + 1) % 2 ^ 32) }

/-- Insert or overwrite an entry with the bytes written by the update of `m`. -/
def upsertEntry (s : Store) (key : Bytes) (data : Bytes) (m : Meta) :
    Store × Except StoreError Change :=
  if !isValidKey key then (s, .error (.upsertInvalidKey key))
  else
    let value : Value := ⟨data, some m⟩
    match s.data[key]? with
    | some old =>
      let s := s.releaseValue old
      let s := { s with data := s.data.insert key value }
      (s.retainMeta m, .ok ⟨.update, key, some value, some old⟩)
    | none =>
      let s := { s with data := s.data.insert key value }
      (s.retainMeta m, .ok ⟨.create, key, some value, none⟩)

/-- Delete an entry; deleting an absent key reports a change with an empty key. -/
def deleteEntry (s : Store) (key : Bytes) : Store × Except StoreError Change :=
  if !isValidKey key then (s, .error (.deleteInvalidKey key))
  else
    match s.data[key]? with
    | none => (s, .ok ⟨.delete, [], none, none⟩)
    | some old =>
      let s := s.releaseValue old
      ({ s with data := s.data.erase key }, .ok ⟨.delete, key, none, some old⟩)

/-- A change is reported when its key is not empty. -/
def report (changes : List Change) (c : Change) : List Change :=
  if c.key.isEmpty then changes else changes ++ [c]

/-- The loop over the upserts of an update. -/
def upsertAll (m : Meta) : List KeyValue → Store → List Change → Store × Except StoreError (List Change)
  | [], s, changes => (s, .ok changes)
  | kv :: rest, s, changes =>
    match kv.key, kv.value with
    | some key, some data =>
      match s.upsertEntry (cStr key) data m with
      | (s, .ok c) => upsertAll m rest s (report changes c)
      | (s, .error e) => (s, .error e)
    | _, _ => (s, .error (.malformed m.rev))

/-- The loop over the deletes of an update. -/
def deleteAll (m : Meta) : List (Option Bytes) → Store → List Change →
    Store × Except StoreError (List Change)
  | [], s, changes => (s, .ok changes)
  | key :: rest, s, changes =>
    match key with
    | some key =>
      match s.deleteEntry (cStr key) with
      | (s, .ok c) => deleteAll m rest s (report changes c)
      | (s, .error e) => (s, .error e)
    | none => (s, .error (.malformed m.rev))

/-- Record the metadata object of an update when some value still refers to it. -/
def recordMeta (s : Store) (m : Meta) : Store :=
  if s.nrefs.getD m.rev 0 = 0 then s else { s with metas := s.metas.insert m.rev m }

/-- Apply a commit, reporting its changes and its metadata. -/
def updateInternal (s : Store) (u : Update) : Store × Except StoreError (List Change × Meta) :=
  if u.rev ≤ s.rev then (s, .error (.oldRevision u.rev s.rev))
  else
    let (s, m) := s.createMeta u
    match upsertAll m u.upserts { s with rev := u.rev } [] with
    | (s, .error e) => (s, .error e)
    | (s, .ok changes) =>
      match deleteAll m u.deletes s changes with
      | (s, .error e) => (s, .error e)
      | (s, .ok changes) => (s.recordMeta m, .ok (changes, m))

/-- `store_t::update`: the same under the store mutex. -/
def update (s : Store) (u : Update) : Store × Except StoreError (List Change × Meta) :=
  s.updateInternal u

/-- The loop of `load` over the updates of a snapshot. -/
def loadAll (rev : ℕ) : List Update → Store → Store × Except StoreError Unit
  | [], s => (s, .ok ())
  | u :: rest, s =>
    if rev < u.rev then (s, .error (.badSnapshot rev s.rev))
    else
      match s.updateInternal u with
      | (s, .ok _) => loadAll rev rest s
      | (s, .error e) => (s, .error e)

/-- Replace the content by that of a snapshot; no snapshot resets the store. -/
def load (snapshot : Option Snapshot) : Store × Except StoreError Unit :=
  match snapshot with
  | none => (Store.empty, .ok ())
  | some snapshot =>
    match loadAll snapshot.rev snapshot.updates Store.empty with
    | (s, .error e) => (s, .error e)
    | (s, .ok ()) => ({ s with rev := snapshot.rev }, .ok ())

end Store

end Nplex
