import Nplex.Client.Fetching
import Nplex.Common.CommitLog

/-!
# A client and its server

The server keeps a log of commits and, for each connection of the client, the requests for updates
that wait for an answer, the stream of updates it feeds, and the messages that have not arrived. It
does what the schema says: a request is answered with the current revision, and from then on the
commits after the requested revision are pushed in order, or, if that is 0, the commits made after
the request. The messages about updates arrive in the order they were sent; the other messages may
come at any time. What a connection has not delivered is lost when it closes.
-/

namespace Nplex

open Nplex.Common

/-- A message about updates. -/
inductive DataMsg
  | response (resp : UpdatesResponse)
  | push (resp : UpdatesPush)

/-- The message as the client reads it. -/
def DataMsg.msg : DataMsg → ServerMsg
  | .response resp => .updatesResponse resp
  | .push resp => .updatesPush resp

/-- The server's end of a connection. -/
structure Peer where
  /-- The login of the connection was answered. -/
  loggedIn : Bool := false
  /-- The cid and the revision of the requests for updates without an answer. -/
  requests : List (ℕ × ℕ) := []
  /-- The cid of the stream, and the revision up to which it was fed. -/
  stream : Option (ℕ × ℕ) := none
  outbox : List DataMsg := []

/-- The client, the log of the server and its ends of the connections. -/
structure World where
  client : Client
  commits : List Update := []
  peers : ℕ → Peer := fun _ => {}
  /-- The content and the revision that the client starts from, as the messages of the server give
  them. -/
  base : KeyMap Value × ℕ := (∅, 0)

/-- The steps. -/
inductive WorldEvent
  /-- The server makes a commit. -/
  | commit (u : Update)
  /-- The server answers the first request of a connection. -/
  | answer (i : ℕ)
  /-- The server pushes the next updates of a stream, so many at most. -/
  | push (i n : ℕ)
  /-- The next message about updates arrives on the connection that the client reads. -/
  | arrive
  /-- Any other step of the client. -/
  | client (e : Event)

/-- A check that the fields of an update are present and its keys valid. -/
def Update.check (u : Update) : Bool :=
  (u.upserts.all fun kv =>
    match kv.key, kv.value with
    | some key, some _ => isValidKey (cStr key)
    | _, _ => false) &&
  u.deletes.all fun key =>
    match key with
    | some key => isValidKey (cStr key)
    | none => false

/-- The requests for updates that a step of the client sends on a connection. -/
def Client.newRequests (i : ℕ) (c c' : Client) : List (ℕ × ℕ) :=
  (c'.asked.drop c.asked.length).filterMap fun a => if a.1 = i then some a.2 else none

/-- The server's end of a connection when the client reads a message, or loses the connection. -/
def Peer.hear (p : Peer) (i : ℕ) (c : Client) : Event → Peer
  | .closed j _ _ _ => if j = i then {} else p
  | .message (some (.loginResponse _)) _ =>
    if c.activity = .reading i then { p with loggedIn := true } else p
  | _ => p

/-- The server's end of a connection after a step of the client. -/
def Peer.after (p : Peer) (i : ℕ) (c c' : Client) (e : Event) : Peer :=
  let p := p.hear i c e
  { p with requests := p.requests ++ c.newRequests i c' }

namespace World

/-- The revision of the server. -/
def currentRev (w : World) : ℕ := lastRev Update.rev 0 w.commits

/-- The server's side of one connection changes. -/
def setPeer (w : World) (i : ℕ) (p : Peer) : World :=
  { w with peers := Function.update w.peers i p }

/-- The base after a message: the content of the snapshot that the session awaits, at its revision,
or, for a client without an initial revision, the empty content at the revision of the first
response to a request for updates. -/
def baseAfter (w : World) : Event → KeyMap Value × ℕ
  | .message (some (.snapshotResponse resp)) _ =>
    if w.client.awaitsData .loadingSnapshot resp.cid && resp.accepted then
      match resp.snapshot with
      | some snapshot => (snapshot.content, snapshot.rev)
      | none => w.base
    else w.base
  | .message (some (.updatesResponse resp)) _ =>
    if w.client.awaitsData .syncing resp.cid && resp.accepted && !w.client.initialized then
      (∅, resp.crev)
    else w.base
  | _ => w.base

/-- The world after a step of the client. -/
def follow (w : World) (e : Event) (c' : Client) : World :=
  { w with
    client := c'
    peers := fun i => (w.peers i).after i w.client c' e
    base := w.baseAfter e }

/-- The messages about updates are those of the server, it answers one login on a connection, and it
has no snapshot of a later revision than its own. -/
def allows (w : World) : Event → Bool
  | .message (some (.updatesResponse _)) _ => false
  | .message (some (.updatesPush _)) _ => false
  | .message (some (.loginResponse _)) _ =>
    match w.client.activity with
    | .reading i => !(w.peers i).loggedIn
    | _ => true
  | .message (some (.snapshotResponse resp)) _ =>
    match resp.snapshot with
    | some snapshot => snapshot.rev ≤ w.currentRev
    | none => true
  | _ => true

/-- The server answers the first request of a connection. -/
def answer (w : World) (i : ℕ) : Option World :=
  match (w.peers i).requests with
  | [] => none
  | (cid, rev) :: rest =>
    some (w.setPeer i
      { w.peers i with
        requests := rest
        stream := some (cid, if rev = 0 then w.currentRev else rev)
        outbox := (w.peers i).outbox ++ [.response ⟨cid, w.currentRev, true⟩] })

/-- The server pushes the next updates of a stream. -/
def push (w : World) (i n : ℕ) : Option World :=
  match (w.peers i).stream with
  | none => none
  | some (cid, rev) =>
    let updates := (commitsAfter Update.rev rev w.commits).take n
    some (w.setPeer i
      { w.peers i with
        stream := some (cid, lastRev Update.rev rev updates)
        outbox := (w.peers i).outbox ++ [.push ⟨cid, w.currentRev, updates⟩] })

/-- A message about updates arrives. -/
def arrive (globMatch : Glob) (w : World) : Option World :=
  match w.client.activity with
  | .reading i =>
    match (w.peers i).outbox with
    | [] => none
    | msg :: rest =>
      let w := w.setPeer i { w.peers i with outbox := rest }
      let e := .message (some msg.msg) false
      (w.client.step globMatch e).map (w.follow e)
  | _ => none

/-- One step. -/
def step (globMatch : Glob) (w : World) : WorldEvent → Option World
  | .commit u =>
    if w.currentRev < u.rev ∧ u.check = true then some { w with commits := w.commits ++ [u] } else none
  | .answer i => w.answer i
  | .push i n => w.push i n
  | .arrive => w.arrive globMatch
  | .client e => if w.allows e then (w.client.step globMatch e).map (w.follow e) else none

/-- A response to the request of an initialized client does not pass over a commit: nothing was
committed since, or the client has an initial revision and has asked for a revision. -/
def responseFits (w : World) : WorldEvent → Prop
  | .arrive => ∀ i resp rest, w.client.activity = .reading i → w.client.con = some i →
      (w.peers i).outbox = .response resp :: rest → w.client.initialized = true →
        resp.crev = w.client.store.rev ∨ (w.client.rev0 ≠ 0 ∧ w.client.store.rev ≠ 0)
  | _ => True

/-- The content of the store is that of the base, with every commit after its revision and up to the
revision of the store applied in order; without an initial revision the base is empty. -/
def CaughtUp (w : World) : Prop :=
  (w.client.rev0 = 0 → w.base.1 = ∅) ∧ w.commits.Pairwise (fun u v => u.rev < v.rev) ∧
    w.client.store.data =
      (commitsBetween Update.rev w.base.2 w.client.store.rev w.commits).foldl applyUpdate w.base.1

end World

end Nplex
