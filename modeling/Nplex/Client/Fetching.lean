import Nplex.Client.Correlation
import Nplex.Client.DataFeed

/-!
# Fetching the updates

A session asks once for the updates after a revision. The data and the session are the work of a
few handlers: that of the login response starts a session and asks, that of the snapshot loads it
and asks, those of the response and of the updates go on from there. All the others leave the data
alone, and keep the session or end it.
-/

namespace Nplex

open Nplex.Common

/-- The cid and the revision of a request for updates. -/
def ClientMsg.fetch : ClientMsg → Option (ℕ × ℕ)
  | .updates cid rev => some (cid, rev)
  | .login _ _ _ | .snapshot _ _ | .submit _ | .ping _ _ | .sessions _ _ => none

/-- The updates that the loop of `process_updates_push` has not come to. -/
def Activity.rest : Activity → List Update
  | .pushing _ _ rest => rest
  | .idle | .draining | .reading _ | .thrown | .crashed => []

/-- The actions other than a request for the data. -/
def ActionKind.asksNothing : ActionKind → Bool
  | .fetch => false
  | _ => true

/-- The actions that are not about the life of the client, other than a request for the data. -/
def ActionKind.keepsCid (k : ActionKind) : Bool := k.keepsLink && k.asksNothing

/-- The actions that leave the data alone, and the session alone or end it. -/
def ActionKind.apart : ActionKind → Bool
  | .data | .state | .revive | .fetch | .join | .shut => false
  | _ => true

namespace Client

/-- The requests for updates that were sent, with their connections. -/
def asked (c : Client) : List (ℕ × ℕ × ℕ) :=
  c.sent.filterMap fun m => m.2.fetch.map fun r => (m.1, r)

/-- The data is left alone, nothing is asked, and the session is left alone or ended. -/
structure Apart (c c' : Client) : Prop where
  feed : c'.feed = c.feed
  asked : c'.asked = c.asked
  session : c'.con = none ∨ (c'.con = c.con ∧ c'.dataCid = c.dataCid ∧ c'.state = c.state)
  state : c'.state.inSession = true → c'.state = c.state

/-- The revision that a session asks for. -/
def wanted (c : Client) : ℕ := if c.initialized then c.store.rev else 0

/-- The updates after a revision are asked for, if there is a session. -/
structure Asks (c c' : Client) (rev : ℕ) : Prop where
  feed : c'.feed = c.feed
  con : c'.con = c.con
  state : c'.state = .syncing
  silent : c.con = none → c'.asked = c.asked
  asked : ∀ i, c.con = some i → c.connected i → c'.asked = c.asked ++ [(i, c'.dataCid, rev)]

/-- The snapshot is asked for. -/
structure Loads (c c' : Client) : Prop where
  feed : c'.feed = c.feed
  con : c'.con = c.con
  state : c'.state = .loadingSnapshot
  asked : c'.asked = c.asked

/-- What a login response does on its connection. -/
inductive LoginDone (c c' : Client) (i : ℕ) : Prop
  /-- It is refused. -/
  | apart (h : Apart c c')
  /-- The manager throws: the session has no connection. -/
  | alone (hfeed : c'.feed = c.feed) (hcon : c'.con = none) (hasked : c'.asked = c.asked)
      (hstate : c'.state = .syncing ∨
        c'.state = .loadingSnapshot ∧ c.initialized = false ∧ c.rev0 ≠ 0)
  | asks (hstarted : c.initialized = true ∨ c.rev0 = 0) (hfeed : c'.feed = c.feed)
      (hcon : c'.con = some i) (hstate : c'.state = .syncing)
      (hasked : c'.asked = c.asked ++ [(i, c'.dataCid, c.wanted)])
  | loads (hfresh : c.initialized = false ∧ c.rev0 ≠ 0) (hfeed : c'.feed = c.feed)
      (hcon : c'.con = some i) (hstate : c'.state = .loadingSnapshot) (hasked : c'.asked = c.asked)

/-- What the client has asked for and got. -/
def progress (c : Client) : ℕ × List (ℕ × ℕ × ℕ) × ℕ × Bool × Store :=
  (c.dataCid, c.asked, c.rev0, c.initialized, c.store)

/-- The message about the data that comes is the one that the session awaits in a state. -/
def awaitsData (c : Client) (state : ClientState) (cid : ℕ) : Bool :=
  match c.activity with
  | .reading i => c.con = some i && c.state = state && cid = c.dataCid
  | _ => false

/-- The store has the content and the revision of a snapshot, or is as before without one. -/
def HasLoaded (c c' : Client) : Option Snapshot → Prop
  | some snapshot => c'.store.data = snapshot.content ∧ c'.store.rev = snapshot.rev
  | none => c'.store = c.store

/-- What the response to the request for the snapshot does in the session of a connection. -/
inductive SnapshotDone (c c' : Client) (i : ℕ) (resp : SnapshotResponse) : Prop
  /-- It is refused. -/
  | apart (h : Apart c c')
      (hrefused : c.state = .loadingSnapshot → resp.cid = c.dataCid → resp.accepted = false)
  /-- It cannot be loaded. -/
  | failed (hloading : c.state = .loadingSnapshot) (hbroken : c'.broken = true)
      (hstate : c'.state = c.state) (hcon : c'.con = c.con) (hrev0 : c'.rev0 = c.rev0)
      (hinitialized : c'.initialized = c.initialized) (hasked : c'.asked = c.asked)
  /-- The reactor throws. -/
  | ended (hloading : c.state = .loadingSnapshot) (hcid : resp.cid = c.dataCid)
      (haccepted : resp.accepted = true) (hstate : c'.state = .closed) (hcon : c'.con = none)
      (hrev0 : c'.rev0 = c.rev0) (hinitialized : c'.initialized = c.initialized)
      (hasked : c'.asked = c.asked) (hload : HasLoaded c c' resp.snapshot)
  | loaded (hloading : c.state = .loadingSnapshot) (hcid : resp.cid = c.dataCid)
      (haccepted : resp.accepted = true) (hstate : c'.state = .syncing) (hcon : c'.con = some i)
      (hrev0 : c'.rev0 = c.rev0) (hinitialized : c'.initialized = true)
      (hasked : c'.asked = c.asked ++ [(i, c'.dataCid, c'.store.rev)])
      (hload : HasLoaded c c' resp.snapshot)

/-- What an accepted response to the request for the updates does. -/
structure UpdatesDone (c c' : Client) (crev : ℕ) : Prop where
  con : c'.con = c.con
  dataCid : c'.dataCid = c.dataCid
  asked : c'.asked = c.asked
  rev0 : c'.rev0 = c.rev0
  activity : c'.activity = c.activity
  state : c'.state = .synced ∨ c'.state = .syncing
  data : c'.store.data = c.store.data
  installed : c.rev0 = 0 → c'.store.rev = crev ∧ c'.initialized = true
  kept : c.rev0 ≠ 0 → c'.store.rev = c.store.rev ∧ c'.initialized = c.initialized

/-- What one turn of the loop over the updates does. -/
structure Pushed (c c' : Client) (u : Update) : Prop where
  con : c'.con = c.con
  dataCid : c'.dataCid = c.dataCid
  asked : c'.asked = c.asked
  rev0 : c'.rev0 = c.rev0
  initialized : c'.initialized = c.initialized
  store : c'.store = (c.store.update u).1
  state : c'.state = c.state ∨ c.state = .syncing ∧ c'.state = .synced

/-- An event that closes no connection and brings no message. -/
def Other (e : Event) : Prop :=
  (∀ i delay retry refused, e ≠ .closed i delay retry refused) ∧
    ∀ msg throws, e ≠ .message msg throws

/-- What a step does to the data and the session. -/
inductive Fetched (globMatch : Glob) (c : Client) (e : Event) (c' : Client) : Prop
  /-- It is apart from them; the session of a connection that closes is over. -/
  | apart (h : Apart c c') (hrest : c'.live → c'.activity.rest = c.activity.rest)
      (hend : c'.con = c.con ∨ c.activity.rest = [])
      (hgone : ∀ i delay retry refused, e = .closed i delay retry refused → c'.con ≠ some i)
      (hquiet : ∀ msg throws, e ≠ .message msg throws)
  | message {i : ℕ} {msg : Option ServerMsg} {throws : Bool} (he : e = .message msg throws)
      (hreading : c.activity = .reading i) (hc' : c' = c.onMsgReceived i msg throws)
  | update {i crev : ℕ} {u : Update} {rest : List Update} (he : e = .update)
      (hpushing : c.activity = .pushing i crev (u :: rest))
      (hc' : c' = pushUpdate globMatch { c with activity := .pushing i crev rest } crev u)
  | unwind (he : e = .unwind) (hc' : c' = c.unwindRun)

section Asked

variable {c c' : Client}

/-- What is asked for is part of what is sent. -/
theorem asked_of_sent (h : c'.sent = c.sent) : c'.asked = c.asked := by
  rw [asked, asked, h]

/-- So it is part of the numbers. -/
theorem asked_of_numbers (h : c'.numbers = c.numbers) : c'.asked = c.asked :=
  asked_of_sent (congrArg (·.2.1) h)

/-- A method of a transaction asks for nothing. -/
theorem onTx_asked (c : Client) (t : ℕ) (f : Transaction → Transaction × Option TxError) :
    (c.onTx t f).asked = c.asked :=
  (congrArg Client.asked (onTx_fields c t f)).trans rfl

/-- Nor does setting a state. -/
theorem setState_asked (c : Client) (s : ClientState) : (c.setState s).asked = c.asked :=
  (congrArg Client.asked (setState_fields c s)).trans rfl

/-- A message that is no request for updates. -/
theorem sendOn_asked (c : Client) (i : ℕ) {msg : ClientMsg} (hmsg : msg.fetch = none) :
    (c.sendOn i msg).asked = c.asked := by
  unfold sendOn
  split
  · rfl
  · split
    · rfl
    · simp [asked, hmsg]

/-- Nor does another message on the connection of the session. -/
theorem send_asked (c : Client) {msg : ClientMsg} (hmsg : msg.fetch = none) :
    (c.send msg).asked = c.asked := by
  unfold send
  split
  · rfl
  · split
    · rfl
    · exact sendOn_asked c _ hmsg

/-- Nor does a call of the reactor. -/
theorem call_asked (c : Client) (r : ReactorCall) : (c.call r).asked = c.asked :=
  (congrArg Client.asked (call_fields c r)).trans rfl

/-- Nor does trying to connect. -/
theorem tryToConnect_asked (c : Client) (refused : Option ℕ) :
    (c.tryToConnect refused).asked = c.asked :=
  (congrArg Client.asked (tryToConnect_fields c refused)).trans rfl

/-- The request of a command is none for updates. -/
theorem Requests.fetch {k : ActionKind} {kind : RequestKind} {msg : ℕ → ClientMsg}
    (h : c.Requests k kind msg) (n : ℕ) : (msg n).fetch = none := by
  cases h <;> rfl

/-- Only a request for the data asks for updates. -/
theorem Action.asked {k : ActionKind} (h : Action k c c') (hk : k.asksNothing = true) :
    c'.asked = c.asked := by
  cases h with
  | aside h =>
    have hasked : c'.central.asked = c.central.asked := congrArg Client.asked h.central
    exact hasked
  | settle => exact onTx_asked _ _ _
  | deliver => exact (congrArg Client.asked (deliver_fields _ _ _)).trans rfl
  | request _ _ hrequest =>
    exact (andThen_same _ Client.asked rfl).trans (send_asked _ (hrequest.fetch _))
  | refuse => exact onTx_asked _ _ _
  | answer => exact (congrArg Client.asked (answerSubmit_fields _ _ _)).trans rfl
  | login => exact sendOn_asked _ _ rfl
  | tell => exact call_asked _ _
  | setState => exact setState_asked _ _
  | revive => exact setState_asked _ _
  | startTimer => exact (congrArg Client.asked (startTimerConLost_fields _ _)).trans rfl
  | fetch => cases hk
  | join => exact (congrArg Client.asked (acceptLogin_fields _ _ _)).trans rfl
  | close => exact (congrArg Client.asked (abort_fields _)).trans rfl
  | leave => exact setState_asked _ .offline
  | connect => exact tryToConnect_asked _ _
  | reconnect => exact (congrArg Client.asked (scheduleReconnect_fields _)).trans rfl
  | shut => exact setState_asked _ .closed
  | takeFuture => exact onTx_asked _ _ _
  | _ => rfl

/-- A handler made of actions that ask for nothing asks for nothing. -/
theorem Acts.asked {kinds : List ActionKind} (h : Acts kinds c c')
    (hkinds : kinds.all ActionKind.asksNothing = true) : c'.asked = c.asked :=
  h.frame (R := fun c c' => c'.asked = c.asked) hkinds (fun _ => rfl) (fun h h' => h'.trans h)
    Action.asked

end Asked

section Apart

variable {c c' c'' : Client}

/-- Doing nothing is apart from the data. -/
theorem Apart.refl (c : Client) : Apart c c := ⟨rfl, rfl, Or.inr ⟨rfl, rfl, rfl⟩, fun _ => rfl⟩

/-- Handlers are apart from the data one after the other. -/
theorem Apart.trans (h : Apart c c') (h' : Apart c' c'') : Apart c c'' where
  feed := h'.feed.trans h.feed
  asked := h'.asked.trans h.asked
  session := by
    rcases h'.session with hnone | ⟨hcon, hcid, hstate⟩
    · exact Or.inl hnone
    · rcases h.session with hnone | ⟨hcon', hcid', hstate'⟩
      · exact Or.inl (hcon.trans hnone)
      · exact Or.inr ⟨hcon.trans hcon', hcid.trans hcid', hstate.trans hstate'⟩
  state hin := by
    have hstate := h'.state hin
    exact hstate.trans (h.state (hstate ▸ hin))

/-- Going on is apart from the data if what follows is. -/
theorem Apart.andThen {f : Client → Client} (h : Apart c (f c)) : Apart c (c.andThen f) := by
  unfold Client.andThen
  split
  · exact .refl c
  · exact h

/-- A handler that ends the session and sets a state without one. -/
theorem Apart.of_end (hfeed : c'.feed = c.feed) (hasked : c'.asked = c.asked) (hcon : c'.con = none)
    (hstate : c'.state.inSession = false) : Apart c c' :=
  ⟨hfeed, hasked, Or.inl hcon, fun hin => by rw [hstate] at hin; cases hin⟩

/-- A handler that leaves the session alone. -/
theorem Apart.of_link (hfeed : c'.feed = c.feed) (hasked : c'.asked = c.asked)
    (hlink : c'.link = c.link) (hcid : c'.dataCid = c.dataCid) : Apart c c' :=
  ⟨hfeed, hasked, Or.inr ⟨con_of_link hlink, hcid, state_of_link hlink⟩, fun _ => state_of_link hlink⟩

/-- A method of a transaction leaves the awaited cid alone. -/
theorem onTx_dataCid (c : Client) (t : ℕ) (f : Transaction → Transaction × Option TxError) :
    (c.onTx t f).dataCid = c.dataCid :=
  (congrArg Client.dataCid (onTx_fields c t f)).trans rfl

/-- The awaited cid is that of the last request for the data. -/
theorem Action.dataCid {k : ActionKind} (h : Action k c c') (hk : k.keepsCid = true) :
    c'.dataCid = c.dataCid := by
  cases h with
  | aside h =>
    have hcid : c'.central.dataCid = c.central.dataCid := congrArg Client.dataCid h.central
    exact hcid
  | settle => exact onTx_dataCid _ _ _
  | deliver => exact (congrArg Client.dataCid (deliver_fields _ _ _)).trans rfl
  | request => exact (congrArg Client.dataCid (sendRequest_fields _ _ _)).trans rfl
  | refuse => exact onTx_dataCid _ _ _
  | answer => exact (congrArg Client.dataCid (answerSubmit_fields _ _ _)).trans rfl
  | login => exact (congrArg Client.dataCid (sendOn_fields _ _ _)).trans rfl
  | tell => exact (congrArg Client.dataCid (call_fields _ _)).trans rfl
  | takeFuture => exact onTx_dataCid _ _ _
  | drop => rfl
  | load => rfl
  | turn => rfl
  | queue => rfl
  | wake => rfl
  | _ => cases hk

/-- So does a handler that asks for no data. -/
theorem Acts.dataCid {kinds : List ActionKind} (h : Acts kinds c c')
    (hkinds : kinds.all ActionKind.keepsCid = true) : c'.dataCid = c.dataCid :=
  h.frame (R := fun c c' => c'.dataCid = c.dataCid) hkinds (fun _ => rfl) (fun h h' => h'.trans h)
    Action.dataCid

/-- Aborting ends the session. -/
theorem apart_abort (hopen : c.state ≠ .closed) : Apart c c.abort := by
  have hlink := abort_link hopen
  refine .of_end (undisturbed_abort c).feed (asked_of_sent (abort_sent c))
    (congrArg Link.con hlink) ?_
  have hstate : c.abort.state = .closed := congrArg Link.state hlink
  rw [hstate]
  rfl

/-- Aborting ends the session, or has been done before. -/
theorem apart_abort_any (c : Client) : Apart c c.abort := by
  by_cases hclosed : c.state = .closed
  · rw [abort_of_closed hclosed]
    exact .refl c
  · exact apart_abort hclosed

/-- Trying to connect is done without a session. -/
theorem apart_tryToConnect (c : Client) (refused : Option ℕ) : Apart c (c.tryToConnect refused) := by
  by_cases hoffline : c.state = .offline
  · have hend : (c.tryToConnect refused).con = none ∧ (c.tryToConnect refused).state = .connecting := by
      rw [tryToConnect_of_offline hoffline]
      split <;> exact ⟨rfl, rfl⟩
    exact .of_end (undisturbed_tryToConnect c refused).feed (tryToConnect_asked c refused) hend.1
      (by rw [hend.2]; rfl)
  · rw [tryToConnect_of_not_offline hoffline]
    exact .refl c

/-- The actions that are apart from the data. -/
theorem Action.apart {k : ActionKind} (h : Action k c c') (hk : k.apart = true) : Apart c c' := by
  by_cases hcid : k.keepsCid = true
  · have hlink : k.keepsLink = true := (Bool.and_eq_true_iff.mp hcid).1
    have hasks : k.asksNothing = true := (Bool.and_eq_true_iff.mp hcid).2
    have hdata : k.undisturbed = true := by cases k <;> first | rfl | cases hk
    exact .of_link (h.undisturbed hdata).feed (h.asked hasks) (h.link hlink) (h.dataCid hcid)
  cases h with
  | close => exact apart_abort_any c
  | leave =>
    refine .of_end (setState_feed c .offline) (setState_asked c .offline) rfl ?_
    dsimp only
    rw [setState_state]
    rfl
  | connect => exact apart_tryToConnect c _
  | reconnect =>
    rw [scheduleReconnect_fields]
    exact ⟨rfl, rfl, Or.inr ⟨rfl, rfl, rfl⟩, fun _ => rfl⟩
  | stopTimer => exact ⟨rfl, rfl, Or.inr ⟨rfl, rfl, rfl⟩, fun _ => rfl⟩
  | request _ _ hrequest => cases hrequest <;> exact absurd rfl hcid
  | setState => cases hk
  | revive => cases hk
  | startTimer => cases hk
  | fetch => cases hk
  | join => cases hk
  | shut => cases hk
  | _ => exact absurd rfl hcid

/-- A handler made of actions apart from the data is apart from it. -/
theorem Acts.apart {kinds : List ActionKind} (h : Acts kinds c c')
    (hkinds : kinds.all ActionKind.apart = true) : Apart c c' :=
  h.frame hkinds .refl .trans Action.apart

/-- What is aside is apart from the data. -/
theorem Aside.apart (h : Aside c c') : Apart c c' := (Action.aside h).apart rfl

/-- Disconnecting is apart from the data. -/
theorem apart_disconnectCon (c : Client) (cause : DisconnectCause) :
    Apart c (c.disconnectCon cause) := (acts_disconnectCon c cause).apart rfl

end Apart

section Fetches

variable {c c' : Client} {i : ℕ}

/-- The request for updates asks for those after the revision. -/
theorem asks_requestUpdates (c : Client) (rev : ℕ) : Asks c (c.requestUpdates rev) rev := by
  have hnumbers := setState_numbers c (s := .syncing) (by simp)
  have hconnections := setState_connections c .syncing
  have hstate := setState_state c .syncing
  have hsame := setState_asked c .syncing
  have hcon : (c.setState .syncing).con = c.con := congrArg (·.2.2.2) hnumbers
  have hfeed := requestUpdates_feed c rev
  unfold requestUpdates at hfeed ⊢
  dsimp only at hfeed ⊢
  generalize c.setState .syncing = c₁ at hconnections hstate hsame hcon hfeed ⊢
  have hlink := send_link
    { c₁ with dataCid := c₁.correlation, correlation := c₁.correlation + 1 }
    (.updates c₁.correlation rev)
  refine ⟨hfeed, (con_of_link hlink).trans hcon, (state_of_link hlink).trans hstate,
    fun hnone => ?_, fun i hi hconnected => ?_⟩
  · rw [send, hcon, hnone]
    exact hsame
  · obtain ⟨con, hget, hconnected⟩ := hconnected
    rw [← hconnections] at hget
    have hsend := send_of_session
      (c := { c₁ with dataCid := c₁.correlation, correlation := c₁.correlation + 1 })
      (hcon.trans hi) (by simp [hstate]) hget hconnected (.updates c₁.correlation rev)
    rw [hsend, ← hsame]
    simp [Client.asked, ClientMsg.fetch]

/-- The request for a snapshot loads it. -/
theorem loads_requestSnapshot (c : Client) (rev : ℕ) : Loads c (c.requestSnapshot rev) := by
  have hnumbers := setState_numbers c (s := .loadingSnapshot) (by simp)
  have hstate := setState_state c .loadingSnapshot
  have hcon : (c.setState .loadingSnapshot).con = c.con := congrArg (·.2.2.2) hnumbers
  have hsame := setState_asked c .loadingSnapshot
  have hfeed := requestSnapshot_feed c rev
  unfold requestSnapshot at hfeed ⊢
  dsimp only at hfeed ⊢
  generalize c.setState .loadingSnapshot = c₁ at hstate hsame hcon hfeed ⊢
  have hlink := send_link
    { c₁ with dataCid := c₁.correlation, correlation := c₁.correlation + 1 }
    (.snapshot c₁.correlation rev)
  exact ⟨hfeed, (con_of_link hlink).trans hcon, (state_of_link hlink).trans hstate,
    (send_asked _ rfl).trans hsame⟩

/-- A session begins with the request for the updates, or for the snapshot. -/
theorem startSession_cases (c : Client) (resp : LoginResponse) :
    (c.initialized = true ∨ c.rev0 = 0) ∧ Asks c (c.startSession resp) c.wanted ∨
      (c.initialized = false ∧ c.rev0 ≠ 0) ∧ Loads c (c.startSession resp) := by
  have htimer : (c.startTimerConLost resp.keepalive).feed = c.feed ∧
      (c.startTimerConLost resp.keepalive).con = c.con ∧
      (c.startTimerConLost resp.keepalive).asked = c.asked ∧
      (c.startTimerConLost resp.keepalive).connections = c.connections := by
    rw [startTimerConLost_fields]
    exact ⟨rfl, rfl, rfl, rfl⟩
  unfold startSession
  dsimp only
  generalize c.startTimerConLost resp.keepalive = c₁ at htimer ⊢
  obtain ⟨hfeed, hcon, hasked, hconnections⟩ := htimer
  have hstates := (aside_disconnectOthers c₁ c₁.con .alreadyConnected).states
  rw [hconnections] at hstates
  have hconnected := connected_congr hstates
  have hfeed₂ : (c₁.disconnectOthers c₁.con .alreadyConnected).feed = c.feed := hfeed
  have hcon₂ : (c₁.disconnectOthers c₁.con .alreadyConnected).con = c.con := hcon
  have hasked₂ : (c₁.disconnectOthers c₁.con .alreadyConnected).asked = c.asked := hasked
  generalize c₁.disconnectOthers c₁.con .alreadyConnected = c₂ at hconnected hfeed₂ hcon₂ hasked₂ ⊢
  have hinitialized : c₂.initialized = c.initialized := initialized_of_feed hfeed₂
  have hrev0 : c₂.rev0 = c.rev0 := congrArg Feed.rev0 hfeed₂
  have hstore : c₂.store = c.store := congrArg Feed.store hfeed₂
  have hasks : ∀ rev, Asks c (c₂.requestUpdates rev) rev := fun rev => by
    have h := asks_requestUpdates c₂ rev
    refine ⟨h.feed.trans hfeed₂, h.con.trans hcon₂, h.state,
      fun hnone => (h.silent (hcon₂.trans hnone)).trans hasked₂, fun i hi hi' => ?_⟩
    rw [h.asked i (hcon₂.trans hi) ((hconnected i).mpr hi'), hasked₂]
  rw [hinitialized, hrev0, hstore]
  cases hinit : c.initialized with
  | true =>
    rw [if_pos rfl]
    exact Or.inl ⟨Or.inl rfl, by simpa [wanted, hinit] using hasks c.store.rev⟩
  | false =>
    rw [if_neg (by simp)]
    split
    · next hzero => exact Or.inl ⟨Or.inr hzero, by simpa [wanted, hinit] using hasks 0⟩
    · next hrev =>
      have h := loads_requestSnapshot c₂ (c₂.snapshotRev resp)
      exact Or.inr ⟨⟨rfl, hrev⟩, h.feed.trans hfeed₂, h.con.trans hcon₂, h.state, h.asked.trans hasked₂⟩

/-- A session begins as a login response says, for a client that has the connection or none. -/
theorem startSession_done {c₁ : Client} (hfeed : c₁.feed = c.feed) (hasked : c₁.asked = c.asked)
    (hsession : c₁.con = none ∨ c₁.con = some i ∧ c₁.connected i) (resp : LoginResponse) :
    LoginDone c (c₁.startSession resp) i := by
  have hinitialized : c₁.initialized = c.initialized := initialized_of_feed hfeed
  have hrev0 : c₁.rev0 = c.rev0 := congrArg Feed.rev0 hfeed
  have hstore : c₁.store = c.store := congrArg Feed.store hfeed
  have hwanted : c₁.wanted = c.wanted := by rw [wanted, wanted, hinitialized, hstore]
  have hcases := startSession_cases c₁ resp
  rw [hinitialized, hrev0, hwanted] at hcases
  rcases hcases with ⟨hstarted, hasks⟩ | ⟨hfresh, hloads⟩
  · rcases hsession with hnone | ⟨hcon, hconnected⟩
    · exact .alone (hasks.feed.trans hfeed) (hasks.con.trans hnone) ((hasks.silent hnone).trans hasked)
        (Or.inl hasks.state)
    · have hall := hasks.asked i hcon hconnected
      rw [hasked] at hall
      exact .asks hstarted (hasks.feed.trans hfeed) (hasks.con.trans hcon) hasks.state hall
  · have hfeed' := hloads.feed.trans hfeed
    rcases hsession with hnone | ⟨hcon, -⟩
    · exact .alone hfeed' (hloads.con.trans hnone) (hloads.asked.trans hasked)
        (Or.inr ⟨hloads.state, hfresh⟩)
    · exact .loads hfresh hfeed' (hloads.con.trans hcon) hloads.state (hloads.asked.trans hasked)

/-- A login response is refused, or starts a session, without a connection if the manager throws. -/
theorem processLoginResp_done (hi : c.connected i) (resp : LoginResponse) (throws : Bool) :
    LoginDone c (c.processLoginResp i resp throws) i := by
  obtain ⟨hcon, hstate, -, -, -, hconnections⟩ := acceptLogin_spec c i resp
  have hasked : (c.acceptLogin i resp).asked = c.asked :=
    (congrArg Client.asked (acceptLogin_fields c i resp)).trans rfl
  have hfeed : (c.acceptLogin i resp).feed = c.feed :=
    (congrArg Client.feed (acceptLogin_fields c i resp)).trans rfl
  have hconnected : (c.acceptLogin i resp).connected i := by
    rw [connected, hconnections]
    exact hi
  unfold processLoginResp
  split
  · exact .apart (aside_disconnect c i _).apart
  · split
    · exact .apart (aside_disconnect c i _).apart
    · split
      · exact .apart (aside_disconnect c i _).apart
      · dsimp only
        split
        · have hopen : (c.acceptLogin i resp).state ≠ .closed := by simp [hstate]
          exact startSession_done ((undisturbed_abort _).feed.trans hfeed)
            ((asked_of_sent (abort_sent _)).trans hasked)
            (Or.inl (congrArg Link.con (abort_link hopen))) resp
        · exact startSession_done hfeed hasked (Or.inr ⟨hcon, hconnected⟩) resp

/-- The load of a snapshot, unless it ends the event loop, is about the store. -/
theorem loadSnapshot_same (c : Client) (snapshot : Option Snapshot) :
    (c.loadSnapshot snapshot).asked = c.asked ∧ (c.loadSnapshot snapshot).rev0 = c.rev0 ∧
      (c.loadSnapshot snapshot).initialized = c.initialized ∧
      (c.loadSnapshot snapshot).connections = c.connections := by
  rw [loadSnapshot_fields]
  exact ⟨rfl, rfl, rfl, rfl⟩

/-- A loaded snapshot brings its content and its revision. -/
theorem loadSnapshot_hasLoaded {snapshot : Option Snapshot}
    (hgoes : (c.loadSnapshot snapshot).broken = false) :
    HasLoaded c (c.loadSnapshot snapshot) snapshot := by
  cases snapshot with
  | none => rfl
  | some snapshot =>
    cases hload : Store.load (some snapshot) with
    | mk store result =>
      cases result with
      | ok =>
        have hstore : (c.loadSnapshot (some snapshot)).store = store := by
          simp [loadSnapshot, hload]
        unfold HasLoaded
        rw [hstore]
        exact Store.load_ok hload
      | error e => simp [loadSnapshot, hload, throw, broken] at hgoes

/-- What was loaded stays in the store. -/
theorem HasLoaded.congr {c₁ c₂ : Client} {snapshot : Option Snapshot} (h : HasLoaded c c₁ snapshot)
    (hstore : c₂.store = c₁.store) : HasLoaded c c₂ snapshot := by
  cases snapshot with
  | none => exact hstore.trans h
  | some snapshot =>
    unfold HasLoaded at h ⊢
    rwa [hstore]

/-- A call of the reactor is recorded and changes nothing else. -/
theorem call_same (c : Client) (r : ReactorCall) :
    (c.call r).rev0 = c.rev0 ∧ (c.call r).initialized = c.initialized ∧
      (c.call r).connections = c.connections ∧ (c.call r).store = c.store := by
  rw [call_fields]
  exact ⟨rfl, rfl, rfl, rfl⟩

/-- A reactor that throws ends the session. -/
theorem endSnapshot_spec (hloading : c.state = .loadingSnapshot) :
    (c.disconnectCon .closedByLocal).abort.state = .closed ∧
      (c.disconnectCon .closedByLocal).abort.con = none ∧
      (c.disconnectCon .closedByLocal).abort.rev0 = c.rev0 ∧
      (c.disconnectCon .closedByLocal).abort.initialized = c.initialized ∧
      (c.disconnectCon .closedByLocal).abort.asked = c.asked ∧
      (c.disconnectCon .closedByLocal).abort.store = c.store := by
  have hstate := state_of_link ((acts_disconnectCon c .closedByLocal).link rfl)
  have hopen : (c.disconnectCon .closedByLocal).state ≠ .closed := by simp [hstate, hloading]
  have hlink := abort_link hopen
  have happ := (apart_disconnectCon c .closedByLocal).trans (apart_abort hopen)
  exact ⟨congrArg Link.state hlink, congrArg Link.con hlink, congrArg Feed.rev0 happ.feed,
    congrArg Feed.initialized happ.feed, happ.asked, congrArg Feed.store happ.feed⟩

/-- A loaded snapshot is followed by the request for the updates after it. -/
theorem finishSnapshot_spec (hcon : c.con = some i) (hconnected : c.connected i) :
    c.finishSnapshot.state = .syncing ∧ c.finishSnapshot.con = some i ∧
      c.finishSnapshot.rev0 = c.rev0 ∧ c.finishSnapshot.initialized = true ∧
      c.finishSnapshot.store = c.store ∧
      c.finishSnapshot.asked =
        c.asked ++ [(i, c.finishSnapshot.dataCid, c.finishSnapshot.store.rev)] := by
  have hnumbers := setState_numbers { c with initialized := true } (s := .initialized) (by simp)
  have hfeed := setState_feed { c with initialized := true } .initialized
  have hconnections := setState_connections { c with initialized := true } .initialized
  unfold finishSnapshot
  dsimp only
  generalize setState { c with initialized := true } .initialized = c₁
    at hnumbers hfeed hconnections ⊢
  have hasks := asks_requestUpdates c₁ c₁.store.rev
  have hcon₁ : c₁.con = some i := (congrArg (·.2.2.2) hnumbers).trans hcon
  have hconnected₁ : c₁.connected i := by
    rw [connected, hconnections]
    exact hconnected
  have hstore : (c₁.requestUpdates c₁.store.rev).store = c₁.store := congrArg Feed.store hasks.feed
  refine ⟨hasks.state, hasks.con.trans hcon₁,
    (congrArg Feed.rev0 hasks.feed).trans (congrArg Feed.rev0 hfeed),
    (congrArg Feed.initialized hasks.feed).trans (congrArg Feed.initialized hfeed),
    hstore.trans (congrArg Feed.store hfeed), ?_⟩
  rw [hstore, hasks.asked i hcon₁ hconnected₁, asked_of_numbers hnumbers]
  rfl

/-- What the response to the request for the snapshot does. -/
theorem processSnapshotResp_done (hcon : c.con = some i) (hconnected : c.connected i)
    (resp : SnapshotResponse) (throws : Bool) :
    SnapshotDone c (c.processSnapshotResp resp throws) i resp := by
  unfold processSnapshotResp
  split
  · next hunexpected =>
    exact .apart (apart_disconnectCon c _) fun hloading hcid =>
      absurd hunexpected (by simp [hloading, hcid])
  · next hexpected =>
    push Not at hexpected
    obtain ⟨hloading, hcid⟩ := hexpected
    split
    · next hrefused => exact .apart (apart_disconnectCon c _) fun _ _ => by simpa using hrefused
    · next haccepted =>
      have haccepted : resp.accepted = true := by simpa using haccepted
      have hlink := (acts_loadSnapshot c resp.snapshot).link rfl
      have hload := @loadSnapshot_hasLoaded c resp.snapshot
      obtain ⟨hasked, hrev0, hinitialized, hconnections⟩ := loadSnapshot_same c resp.snapshot
      generalize c.loadSnapshot resp.snapshot = c₁
        at hlink hload hasked hrev0 hinitialized hconnections ⊢
      have hstate := state_of_link hlink
      have hcon₁ := con_of_link hlink
      unfold Client.andThen
      split
      · next hbroken => exact .failed hloading hbroken hstate hcon₁ hrev0 hinitialized hasked
      · next hgoes =>
        have hload := hload (by simpa using hgoes)
        have hlink' := call_link c₁ .initialData
        have hasked' := (call_asked c₁ .initialData).trans hasked
        obtain ⟨hrev0', hinitialized', hconnections', hstore'⟩ := call_same c₁ .initialData
        have hload := hload.congr hstore'
        dsimp only
        generalize c₁.call .initialData = c₂
          at hlink' hasked' hrev0' hinitialized' hconnections' hload ⊢
        split
        · obtain ⟨hend, hnone, hrev0'', hinitialized'', hasked'', hstore⟩ :=
            endSnapshot_spec ((state_of_link hlink').trans (hstate.trans hloading))
          exact .ended hloading hcid haccepted hend hnone (hrev0''.trans (hrev0'.trans hrev0))
            (hinitialized''.trans (hinitialized'.trans hinitialized)) (hasked''.trans hasked')
            (hload.congr hstore)
        · have hconnected' : c₂.connected i := by
            rw [connected, hconnections', hconnections]
            exact hconnected
          obtain ⟨hend, hsome, hrev0'', hinitialized'', hstore, hasked''⟩ :=
            finishSnapshot_spec ((con_of_link hlink').trans (hcon₁.trans hcon)) hconnected'
          rw [hasked'] at hasked''
          exact .loaded hloading hcid haccepted hend hsome (hrev0''.trans (hrev0'.trans hrev0))
            hinitialized'' hasked'' (hload.congr hstore)

/-- What an accepted response to the request for the updates does. -/
theorem processUpdatesResp_done (hstate : c.state = .syncing) {resp : UpdatesResponse}
    (hcid : resp.cid = c.dataCid) (haccepted : resp.accepted = true) :
    UpdatesDone c (c.processUpdatesResp resp) resp.crev := by
  have hopen : c.state ≠ .closed := by simp [hstate]
  unfold processUpdatesResp
  rw [if_neg (by simp [hstate, hcid]), if_neg (by simp [haccepted])]
  dsimp only
  by_cases hrev0 : c.rev0 = 0
  · have hinstall : c.installRev resp.crev = { c with
        store := { c.store with rev := resp.crev }
        initialized := true
        state := .initialized } := by
      unfold installRev
      rw [if_pos hrev0]
      exact setState_eq (c := { c with
        store := { c.store with rev := resp.crev }, initialized := true }) hopen (by simp)
    rw [hinstall, if_pos rfl, setState_eq (s := .synced) (by simp) (by simp)]
    exact ⟨rfl, rfl, rfl, rfl, rfl, Or.inl rfl, rfl, fun _ => ⟨rfl, rfl⟩, fun h => absurd hrev0 h⟩
  · have hinstall : c.installRev resp.crev = c := by
      unfold installRev
      rw [if_neg hrev0]
    rw [hinstall]
    split
    · rw [setState_eq (s := .synced) hopen (by simp)]
      exact ⟨rfl, rfl, rfl, rfl, rfl, Or.inl rfl, rfl, fun h => absurd h hrev0, fun _ => ⟨rfl, rfl⟩⟩
    · exact ⟨rfl, rfl, rfl, rfl, rfl, Or.inr hstate, rfl, fun h => absurd h hrev0, fun _ => ⟨rfl, rfl⟩⟩

/-- The updates of a push with the awaited cid are gone through, and nothing else is done yet. -/
theorem processUpdatesPush_done (i : ℕ) {resp : UpdatesPush} (hcid : resp.cid = c.dataCid)
    (hrest : c.activity.rest = []) :
    Apart c (c.processUpdatesPush i resp) ∧ (c.processUpdatesPush i resp).con = c.con ∧
      (c.processUpdatesPush i resp).activity.rest = resp.updates := by
  unfold processUpdatesPush
  rw [if_neg (not_not.mpr hcid)]
  split
  · next hnone => exact ⟨.refl c, rfl, hrest.trans hnone.symm⟩
  · exact ⟨⟨rfl, rfl, Or.inr ⟨rfl, rfl, rfl⟩, fun _ => rfl⟩, rfl, rfl⟩

/-- Actions that leave the session and the data alone. -/
theorem Acts.progress {kinds : List ActionKind} (h : Acts kinds c c')
    (hcid : kinds.all ActionKind.keepsCid = true)
    (hasked : kinds.all ActionKind.asksNothing = true)
    (hdata : kinds.all ActionKind.undisturbed = true) : c'.progress = c.progress := by
  have hfeed := (h.undisturbed hdata).feed
  have hrev0 : c'.rev0 = c.rev0 := congrArg Feed.rev0 hfeed
  have hinitialized : c'.initialized = c.initialized := congrArg Feed.initialized hfeed
  have hstore : c'.store = c.store := congrArg Feed.store hfeed
  simp only [Client.progress, h.dataCid hcid, h.asked hasked, hrev0, hinitialized, hstore]

/-- Applying a commit changes the store, whether or not an exception of a transaction ends the event
loop. -/
theorem processUpdate_progress (globMatch : Glob) (c : Client) (u : Update) :
    (c.processUpdate globMatch u).progress =
      Client.progress { c with store := (c.store.update u).1 } := by
  unfold processUpdate
  split
  · next store e hupdate =>
    rw [hupdate]
    rfl
  · next store changes m hupdate =>
    rw [hupdate]
    refine (andThen_same _ Client.progress ?_).trans
      ((acts_discardAccepted m.rev _ { c with store := store } (.refl _)).progress rfl rfl rfl)
    refine (andThen_same _ Client.progress
      ((congrArg Client.progress (call_fields _ _)).trans rfl)).trans ?_
    exact ((acts_confirmAccepted m.rev _).progress rfl rfl rfl).trans
      ((congrArg Client.progress (deliver_fields _ globMatch changes)).trans rfl)

/-- One turn of the loop over the updates. -/
theorem pushUpdate_pushed (globMatch : Glob) (c : Client) (crev : ℕ) (u : Update) :
    Pushed c (c.pushUpdate globMatch crev u) u := by
  have hlink := (acts_processUpdate globMatch c u).link rfl
  have hprogress := processUpdate_progress globMatch c u
  simp only [progress, Prod.mk.injEq] at hprogress
  obtain ⟨hcid, hasked, hrev0, hinitialized, hstore⟩ := hprogress
  have hcon := con_of_link hlink
  have hstate := state_of_link hlink
  unfold pushUpdate
  generalize c.processUpdate globMatch u = c₁ at hcon hstate hcid hasked hrev0 hinitialized hstore ⊢
  unfold Client.andThen
  split
  · exact ⟨hcon, hcid, hasked, hrev0, hinitialized, hstore, Or.inl hstate⟩
  · dsimp only
    split
    · next hsynced =>
      rw [setState_eq (s := .synced) (by simp [hsynced.1]) (by simp)]
      exact ⟨hcon, hcid, hasked, hrev0, hinitialized, hstore, Or.inr ⟨hstate ▸ hsynced.1, rfl⟩⟩
    · exact ⟨hcon, hcid, hasked, hrev0, hinitialized, hstore, Or.inl hstate⟩

end Fetches

section Effects

variable {globMatch : Glob} {c c' : Client} {e : Event}

/-- The session of a connection that has closed is over. -/
theorem onConnectionClosed_con (hopen : c.state ≠ .closed) (i : ℕ) (delay : Option Int)
    (retry : Option Bool) (refused : Option ℕ) :
    (c.onConnectionClosed i delay retry refused).con ≠ some i := by
  unfold onConnectionClosed
  rw [if_neg (by simp [isClosed, hopen])]
  split
  · next hfailed =>
    have hnone : c.con = none := by
      simp only [Bool.and_eq_true, decide_eq_true_eq] at hfailed
      exact hfailed.1
    split
    · have hcon : c.abort.con = none := congrArg Link.con (abort_link hopen)
      simp [hcon]
    · unfold scheduleReconnect write
      rw [if_neg (by simp [isClosed, hopen]), if_neg (by simp [isClosed, hopen])]
      simp [hnone]
  · split
    · next hother => exact hother
    · have hnone := (loseSession_spec hopen).1
      generalize c.loseSession = c₁ at hnone ⊢
      unfold Client.andThen
      split
      · simp [hnone]
      · have hend : ∀ c₂ : Client, Apart { c₁ with timerConLost := false } c₂ → c₂.con ≠ some i := by
          intro c₂ h
          rcases h.session with hend | ⟨hsame, -⟩
          · simp [hend]
          · rw [hsame]
            simp [hnone]
        dsimp only
        split
        · exact hend _ (apart_tryToConnect _ refused)
        · exact hend _ (apart_abort_any _)

/-- A live client goes on with the updates it has not come to. -/
theorem rest_of_keeps (hkeeps : Keeps c c') (hlive : c'.live) : c'.activity.rest = c.activity.rest := by
  rcases hkeeps with hsame | hbroken
  · rw [hsame]
  · rw [hlive.1] at hbroken
    cases hbroken

/-- Every step is of one of the kinds. -/
theorem fetched_effect (hsound : c.Sound) (heffect : Effect globMatch c e c') :
    Fetched globMatch c e c' := by
  have hapart : ∀ {c' : Client}, Apart c c' → Keeps c c' → c'.con = c.con ∨ c.activity.rest = [] →
      Other e → Fetched globMatch c e c' :=
    fun h hkeeps hend hother => .apart h (rest_of_keeps hkeeps) hend
      (fun i delay retry refused he => absurd he (hother.1 i delay retry refused)) hother.2
  have hacts : ∀ {kinds : List ActionKind} {c' : Client}, Acts kinds c c' →
      kinds.all ActionKind.apart = true → kinds.all ActionKind.keepsActivity = true →
        c'.con = c.con ∨ c.activity.rest = [] → Other e → Fetched globMatch c e c' :=
    fun hacts happ hkeeps => hapart (hacts.apart happ) (hacts.keeps hkeeps)
  have hsame : ∀ {c' : Client}, c'.feed = c.feed → c'.asked = c.asked → c'.link = c.link →
      c'.dataCid = c.dataCid → c'.activity.rest = c.activity.rest → Other e →
      Fetched globMatch c e c' :=
    fun hfeed hasked hlink hcid hrest hother => .apart (.of_link hfeed hasked hlink hcid)
      (fun _ => hrest) (Or.inl (con_of_link hlink))
      (fun i delay retry refused he => absurd he (hother.1 i delay retry refused)) hother.2
  cases heffect with
  | @start refused hphase hstate =>
    have hidle : c.activity = .idle := by
      by_contra hbusy
      rw [hsound.busy hbusy] at hphase
      cases hphase
    have hbegin : Apart c { c with phase := .running, con := none } :=
      ⟨rfl, rfl, Or.inl rfl, fun _ => rfl⟩
    have hkeeps : Keeps c (c.startRun refused) := Keeps.after (keeps_tryToConnect _ refused) rfl
    exact hapart (hbegin.trans (apart_tryToConnect _ refused)) hkeeps (Or.inr (by rw [hidle]; rfl))
      (by simp [Other])
  | @connected i con hphase hidle hcon hstate =>
    have hbegin : Apart c { c with
        connections := c.connections.set i { con with state := .connected } } :=
      ⟨rfl, rfl, Or.inr ⟨rfl, rfl, rfl⟩, fun _ => rfl⟩
    have hestablished := acts_onConnectionEstablished
      { c with connections := c.connections.set i { con with state := .connected } } i
    exact hapart (hbegin.trans (hestablished.apart rfl)) (Keeps.after (hestablished.keeps rfl) rfl)
      (Or.inr (by rw [hidle]; rfl)) (by simp [Other])
  | failed => exact hsame rfl rfl (disconnect_link c _ _) rfl rfl (by simp [Other])
  | @closed i delay retry refused con hphase hidle hcon hstate =>
    have hbegin : Apart c { c with connections := c.connections.set i con.onClose } :=
      ⟨rfl, rfl, Or.inr ⟨rfl, rfl, rfl⟩, fun _ => rfl⟩
    have hclose := acts_onConnectionClosed
      { c with connections := c.connections.set i con.onClose } i delay retry refused
    refine .apart (hbegin.trans (hclose.apart rfl))
      (rest_of_keeps (Keeps.after (hclose.keeps rfl) rfl)) (Or.inr (by rw [hidle]; rfl)) (fun j _ _ _ he => ?_)
      (by simp)
    cases he
    by_cases hclosed : c.state = .closed
    · unfold onConnectionClosed
      rw [if_pos (by simp [isClosed, hclosed])]
      simp [hsound.free hphase hclosed]
    · exact onConnectionClosed_con
        (c := { c with connections := c.connections.set i con.onClose }) hclosed i delay retry refused
  | read hphase hidle => exact hsame rfl rfl rfl rfl (by rw [hidle]; rfl) (by simp [Other])
  | message hreading => exact .message rfl hreading rfl
  | @malformed i hreading =>
    exact hsame rfl rfl (disconnect_link { c with activity := .idle } i .msgError) rfl (by rw [hreading]; rfl) (by simp [Other])
  | readEnd hreading => exact hsame rfl rfl rfl rfl (by rw [hreading]; rfl) (by simp [Other])
  | update hpushing => exact .update rfl hpushing rfl
  | updatesEnd hpushing => exact hsame rfl rfl rfl rfl (by rw [hpushing]; rfl) (by simp [Other])
  | timerConLost hphase hidle =>
    exact hacts (acts_onConnectionLost c) rfl rfl (Or.inr (by rw [hidle]; rfl)) (by simp [Other])
  | @timerReconnect refused hphase hidle htimer =>
    have hbegin : Apart c { c with timerReconnect := false } :=
      ⟨rfl, rfl, Or.inr ⟨rfl, rfl, rfl⟩, fun _ => rfl⟩
    exact hapart (hbegin.trans (apart_tryToConnect _ refused))
      (Keeps.after (keeps_tryToConnect _ refused) rfl) (Or.inr (by rw [hidle]; rfl)) (by simp [Other])
  | sigint hphase hidle =>
    exact hapart (apart_abort_any c) (keeps_abort c) (Or.inr (by rw [hidle]; rfl)) (by simp [Other])
  | asyncClosed => exact hsame rfl rfl rfl rfl rfl (by simp [Other])
  | async hphase hidle => exact hsame rfl rfl rfl rfl (by rw [hidle]; rfl) (by simp [Other])
  | command hdraining =>
    exact hacts (acts_nextCommand c _ _) rfl rfl (Or.inr (by rw [hdraining]; rfl)) (by simp [Other])
  | commandsEnd hdraining => exact hsame rfl rfl rfl rfl (by rw [hdraining]; rfl) (by simp [Other])
  | unwind => exact .unwind rfl rfl
  | finish hphase =>
    have hend : Apart c c.finishRun := ⟨rfl, rfl, Or.inl rfl, fun _ => rfl⟩
    have hidle : c.activity = .idle := by
      by_contra hbusy
      rw [hsound.busy hbusy] at hphase
      cases hphase
    exact hapart hend (Or.inl rfl) (Or.inr (by rw [hidle]; rfl)) (by simp [Other])
  | @createTx isolation readOnly =>
    refine hsame (createTx_feed c _ _) ((congrArg asked (createTx_fields c _ _)).trans rfl)
      (createTx_link c _ _) ?_ (by rw [(createTx_same c _ _).2]) (by simp [Other])
    unfold createTx
    split
    · rfl
    · dsimp only
      split
      · rfl
      · split <;> rfl
  | use => exact hsame rfl rfl rfl rfl rfl (by simp [Other])
  | discard =>
    exact hapart (.of_link (onTx_feed c _ _) (onTx_asked c _ _) (onTx_link c _ _) (onTx_dataCid c _ _))
      (keeps_onTx c _ _) (Or.inl (con_of_link (onTx_link c _ _))) (by simp [Other])
  | release => exact hsame rfl rfl rfl rfl rfl (by simp [Other])
  | @submit t force cell hcell =>
    refine hsame (submitTx_feed c _ _ _) ((congrArg asked (submitTx_fields c _ _ _)).trans rfl)
      (submitTx_link c _ _ _) ?_ (by rw [(submitTx_same c _ _ _).2]) (by simp [Other])
    unfold submitTx
    split <;> rfl
  | close => exact hsame rfl rfl rfl rfl rfl (by simp [Other])
  | stop => exact hsame rfl rfl rfl rfl rfl (by simp [Other])
  | pingRefused => exact hsame rfl rfl rfl rfl rfl (by simp [Other])
  | ping => exact hsame rfl rfl rfl rfl rfl (by simp [Other])
  | fetchRefused => exact hsame rfl rfl rfl rfl rfl (by simp [Other])
  | fetchSessions => exact hsame rfl rfl rfl rfl rfl (by simp [Other])
  | @loopPing payload =>
    have hping := acts_loopPing c payload
    exact hacts hping rfl rfl (Or.inl (con_of_link (hping.link rfl))) (by simp [Other])
  | @loopFetchSessions stream =>
    have hfetch := acts_loopFetchSessions c stream
    exact hacts hfetch rfl rfl (Or.inl (con_of_link (hfetch.link rfl))) (by simp [Other])
  | @pushClosed n p =>
    have hpush := acts_pushClosed c n p
    exact hacts hpush rfl rfl (Or.inl (con_of_link (hpush.link rfl))) (by simp [Other])
  | pushCheck => exact hsame rfl rfl rfl rfl rfl (by simp [Other])
  | @pushLocked n p =>
    have hpush := acts_pushEnded c n p
    exact hacts hpush rfl rfl (Or.inl (con_of_link (hpush.link rfl))) (by simp [Other])

/-- The end of `run` begins with closing the client. -/
theorem unwindRun_closes (c : Client) : c.unwindRun.feed = c.feed ∧ c.unwindRun.asked = c.asked ∧
    c.unwindRun.state = .closed ∧ c.unwindRun.con = c.con ∧ ¬c.unwindRun.live := by
  have hlink := setState_closed_link { c with phase := .unwinding, activity := .idle }
  have hfeed := setState_feed { c with phase := .unwinding, activity := .idle } .closed
  have hasked := setState_asked { c with phase := .unwinding, activity := .idle } .closed
  have hphase := (unwindRun_spec c).1
  have hover : ¬c.unwindRun.live := fun hlive => by
    rcases hlive.2 with hready | hrunning
    · rw [hphase] at hready
      cases hready
    · rw [hphase] at hrunning
      cases hrunning
  unfold unwindRun at hover ⊢
  dsimp only at hover ⊢
  generalize setState { c with phase := .unwinding, activity := .idle } .closed = c₁
    at hlink hfeed hasked hover ⊢
  have hcancel := (acts_cancelRequests c₁).apart rfl
  have hall : Apart c₁ (c₁.cancelRequests.andThen (·.disconnectAll .closedByLocal)) :=
    hcancel.trans (.andThen (.of_link rfl rfl (disconnectAll_link _ _) rfl))
  have hlast : (c₁.cancelRequests.andThen (·.disconnectAll .closedByLocal)).link = c₁.link :=
    (andThen_same _ link (disconnectAll_link _ _)).trans ((acts_cancelRequests c₁).link rfl)
  exact ⟨hall.feed.trans hfeed, hall.asked.trans hasked,
    (state_of_link hlast).trans (congrArg Link.state hlink),
    (con_of_link hlast).trans (congrArg Link.con hlink), hover⟩

/-- A message that is no login response, and about updates or a snapshot only where it does not come
on the session's connection, is apart from the data. -/
theorem onMsgReceived_apart (i : ℕ) (msg : Option ServerMsg) (throws : Bool)
    (hlogin : ∀ resp, msg ≠ some (.loginResponse resp))
    (hdata : c.con = some i → (∀ resp, msg ≠ some (.snapshotResponse resp)) ∧
      (∀ resp, msg ≠ some (.updatesResponse resp)) ∧ ∀ resp, msg ≠ some (.updatesPush resp)) :
    Apart c (c.onMsgReceived i msg throws) ∧ Keeps c (c.onMsgReceived i msg throws) := by
  have hacts : ∀ {kinds : List ActionKind} {c' : Client}, Acts kinds c c' →
      kinds.all ActionKind.apart = true → kinds.all ActionKind.keepsActivity = true →
        Apart c c' ∧ Keeps c c' :=
    fun hacts happ hkeeps => ⟨hacts.apart happ, hacts.keeps hkeeps⟩
  have hdisconnect : ∀ cause, Apart c (c.disconnect i cause) ∧ Keeps c (c.disconnect i cause) :=
    fun cause => ⟨(aside_disconnect c i cause).apart, Or.inl rfl⟩
  unfold onMsgReceived
  split
  · exact hdisconnect _
  · next resp => exact absurd rfl (hlogin resp)
  · split
    · exact hdisconnect _
    · next hcon =>
      obtain ⟨hsnapshot, hresponse, hpush⟩ := hdata (not_not.mp hcon)
      split
      · exact hacts (acts_processSubmitResp _ _) rfl rfl
      · next resp _ => exact absurd rfl (hsnapshot resp)
      · next resp _ => exact absurd rfl (hresponse resp)
      · next resp _ => exact absurd rfl (hpush resp)
      · exact ⟨.refl c, .refl c⟩
      · exact hacts (acts_processPingResp _ _) rfl rfl
      · exact hacts (acts_processSessionsResp _ _ _) rfl rfl
      · exact hacts (acts_processSessionsPush _ _ _) rfl rfl
      · exact hdisconnect _
      · exact hdisconnect _

end Effects

end Client

end Nplex
