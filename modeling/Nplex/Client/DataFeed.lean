import Nplex.Client.Reconnect
import Nplex.Store.Update

/-!
# What the reactor is told about the data

A client with an initial revision loads a snapshot, calls `on_initial_data`, and from then on
calls `on_event_data` for every commit it applies. A reactor that keeps a copy of the content at
`on_initial_data` and applies the changes it is told should have the content of the store. The
content at `on_initial_data` is watched beside the client.
-/

namespace Nplex

open Nplex.Common

/-- A change applied to a content. -/
def Change.applyTo (data : KeyMap Value) (c : Change) : KeyMap Value :=
  match c.newValue with
  | some v => data.insert c.key v
  | none => data.erase c.key

/-- The revision and the changes of a call of `on_event_data`. -/
def ReactorCall.event : ReactorCall → Option (ℕ × List Change)
  | .eventData rev changes => some (rev, changes)
  | .initialData | .initialSessions | .eventSession => none

/-- The actions that leave the data and the reactor alone. -/
def ActionKind.undisturbed : ActionKind → Bool
  | .data => false
  | _ => true

/-- Applying an exact change list to a content. -/
theorem foldl_applyTo_of_replays {changes : List Change} {f : Key → Option Value}
    {data data' : KeyMap Value} (hf : f = fun k => data[k]?)
    (h : Replays f (changes.map Change.delta) fun k => data'[k]?) :
    changes.foldl Change.applyTo data = data' := by
  induction changes generalizing f data with
  | nil =>
    cases h
    exact Std.ExtTreeMap.ext_getElem? fun k => (congrFun hf k).symm
  | cons c rest ih =>
    cases h with
    | cons hold hrest =>
      refine ih ?_ hrest
      funext k
      subst hf
      simp only [Change.delta, Change.applyTo, Function.update_apply]
      cases c.newValue with
      | none => simp [lookup_erase, eq_comm]
      | some v => simp [lookup_insert, eq_comm]

namespace Client

/-- What `on_event_data` was told, in order. -/
def events (c : Client) : List (ℕ × List Change) := c.calls.filterMap ReactorCall.event

/-- The client runs: no exception is on its way and `run` has not left its loop. -/
def live (c : Client) : Prop := c.broken = false ∧ (c.phase = .ready ∨ c.phase = .running)

/-- The fields that the data and the reactor are about. -/
structure Feed where
  store : Store
  events : List (ℕ × List Change)
  initials : ℕ
  initialized : Bool
  rev0 : ℕ
  hasReactor : Bool

/-- What the client knows and has told about the data. -/
def feed (c : Client) : Feed :=
  { store := c.store
    events := c.events
    initials := c.calls.count .initialData
    initialized := c.initialized
    rev0 := c.rev0
    hasReactor := c.hasReactor }

/-- The data and the reactor are left alone, and no snapshot is awaited anew once the data is
initialized. -/
structure Undisturbed (c c' : Client) : Prop where
  feed : c'.feed = c.feed
  loading : c'.state = .loadingSnapshot → c.state = .loadingSnapshot ∨ c.initialized = false

section Handlers

variable {c c' c'' : Client}

/-- Doing nothing leaves the data alone. -/
theorem Undisturbed.refl (c : Client) : Undisturbed c c := ⟨rfl, Or.inl⟩

/-- The flag is part of the feed. -/
theorem initialized_of_feed (h : c'.feed = c.feed) : c'.initialized = c.initialized :=
  congrArg Feed.initialized h

/-- Handlers leave the data alone one after the other. -/
theorem Undisturbed.trans (h : Undisturbed c c') (h' : Undisturbed c' c'') : Undisturbed c c'' := by
  refine ⟨h'.feed.trans h.feed, fun hloading => ?_⟩
  rcases h'.loading hloading with hstate | hinitialized
  · exact h.loading hstate
  · exact Or.inr (initialized_of_feed h.feed ▸ hinitialized)

/-- A handler that keeps the life of the client. -/
theorem Undisturbed.of_link (hfeed : c'.feed = c.feed) (hlink : c'.link = c.link) :
    Undisturbed c c' := ⟨hfeed, fun h => Or.inl (state_of_link hlink ▸ h)⟩

/-- A handler that leaves the client in a state other than LOADING_SNAPSHOT. -/
theorem Undisturbed.of_state (hfeed : c'.feed = c.feed) (hstate : c'.state ≠ .loadingSnapshot) :
    Undisturbed c c' := ⟨hfeed, fun h => absurd h hstate⟩

/-- A method of a transaction is not about the data. -/
theorem onTx_feed (c : Client) (t : ℕ) (f : Transaction → Transaction × Option TxError) :
    (c.onTx t f).feed = c.feed :=
  (congrArg Client.feed (onTx_fields c t f)).trans rfl

/-- What is aside tells the reactor nothing about the data. -/
theorem Aside.feed (h : Aside c c') : c'.feed = c.feed := by
  have hcentral : c'.central.feed = c.central.feed := congrArg Client.feed h.central
  have hcalls : c'.events = c.events ∧ c'.calls.count .initialData = c.calls.count .initialData := by
    rcases h.calls with hsame | ⟨r, hr, hcalls⟩
    · simp [events, hsame]
    · cases r with
      | initialSessions => simp [events, hcalls, ReactorCall.event]
      | eventSession => simp [events, hcalls, ReactorCall.event]
      | initialData => cases hr
      | eventData => cases hr
  simp only [Client.feed, Feed.mk.injEq] at hcentral ⊢
  exact ⟨hcentral.1, hcalls.1, hcalls.2, hcentral.2.2.2⟩

/-- Nor is a state. -/
theorem setState_feed (c : Client) (s : ClientState) : (c.setState s).feed = c.feed :=
  (congrArg Client.feed (setState_fields c s)).trans rfl

/-- A state other than LOADING_SNAPSHOT asks for no snapshot. -/
theorem undisturbed_setState (c : Client) {s : ClientState} (hs : s ≠ .loadingSnapshot) :
    Undisturbed c (c.setState s) :=
  .of_state (setState_feed c s) (by simpa using hs)

/-- Aborting leaves the data alone. -/
theorem undisturbed_abort (c : Client) : Undisturbed c c.abort := by
  unfold abort
  split
  · exact .refl c
  · exact .of_state (setState_feed _ _) (by simp)

/-- So does trying to connect. -/
theorem undisturbed_tryToConnect (c : Client) (refused : Option ℕ) :
    Undisturbed c (c.tryToConnect refused) := by
  unfold tryToConnect
  split
  · exact .refl c
  · dsimp only
    split <;> exact .of_state (setState_feed _ _) (by simp [throw])

/-- So does sending. -/
theorem send_feed (c : Client) (msg : ClientMsg) : (c.send msg).feed = c.feed :=
  (congrArg Client.feed (send_fields c msg)).trans rfl

/-- The request for updates leaves the data alone. -/
theorem requestUpdates_feed (c : Client) (rev : ℕ) : (c.requestUpdates rev).feed = c.feed :=
  (send_feed _ _).trans (setState_feed c .syncing)

/-- So does that for a snapshot. -/
theorem requestSnapshot_feed (c : Client) (rev : ℕ) : (c.requestSnapshot rev).feed = c.feed :=
  (send_feed _ _).trans (setState_feed c .loadingSnapshot)

/-- The delivery is about the transactions. -/
theorem deliver_feed (globMatch : Glob) (changes : List Change) (c : Client) :
    (deliver globMatch changes c).feed = c.feed :=
  (congrArg Client.feed (deliver_fields c globMatch changes)).trans rfl

/-- The actions that leave the data alone ask for no snapshot once it is initialized. -/
theorem Action.undisturbed {k : ActionKind} (h : Action k c c') (hk : k.undisturbed = true) :
    Undisturbed c c' := by
  cases h with
  | aside h => exact .of_link h.feed h.link
  | drop => exact ⟨rfl, Or.inl⟩
  | settle => exact .of_link (onTx_feed _ _ _) (onTx_link _ _ _)
  | deliver => exact .of_link (deliver_feed _ _ _) (deliver_link _ _ _)
  | request =>
    exact .of_link ((congrArg Client.feed (sendRequest_fields _ _ _)).trans rfl)
      (sendRequest_link _ _ _)
  | refuse => exact .of_link (onTx_feed _ _ _) (onTx_link _ _ _)
  | answer =>
    exact .of_link ((congrArg Client.feed (answerSubmit_fields _ _ _)).trans rfl)
      (answerSubmit_link _ _ _)
  | login =>
    exact .of_link ((congrArg Client.feed (sendOn_fields _ _ _)).trans rfl) (sendOn_link _ _ _)
  | load => cases hk
  | tell => cases hk
  | setState _ _ _ hloading =>
    exact ⟨setState_feed c _, fun h => Or.inr (hloading (by simpa using h))⟩
  | revive _ _ hloading =>
    exact ⟨setState_feed c _, fun h => Or.inr (hloading (by simpa using h))⟩
  | startTimer =>
    rw [startTimerConLost_fields]
    exact ⟨rfl, Or.inl⟩
  | fetch => exact .of_link (send_feed _ _) (send_link _ _)
  | join _ i =>
    exact .of_state ((congrArg Client.feed (acceptLogin_fields c i _)).trans rfl)
      (by simp [acceptLogin])
  | close => exact undisturbed_abort c
  | leave => exact (undisturbed_setState c (s := .offline) (by simp)).trans ⟨rfl, Or.inl⟩
  | connect => exact undisturbed_tryToConnect c _
  | reconnect =>
    rw [scheduleReconnect_fields]
    exact ⟨rfl, Or.inl⟩
  | shut => exact .of_state (setState_feed _ _) (by simp)
  | takeFuture => exact .of_link (onTx_feed _ _ _) (onTx_link _ _ _)
  | _ => exact ⟨rfl, Or.inl⟩

/-- A handler made of actions that leave the data alone leaves it alone. -/
theorem Acts.undisturbed {kinds : List ActionKind} (h : Acts kinds c c')
    (hkinds : kinds.all ActionKind.undisturbed = true) : Undisturbed c c' :=
  h.frame hkinds .refl .trans Action.undisturbed

/-- With an initial revision the response to the request for updates changes the state only. -/
theorem undisturbed_processUpdatesResp (c : Client) (resp : UpdatesResponse) (hrev0 : c.rev0 ≠ 0) :
    Undisturbed c (c.processUpdatesResp resp) := by
  unfold processUpdatesResp installRev
  rw [if_neg hrev0]
  split
  · exact (acts_disconnectCon c _).undisturbed rfl
  · split
    · exact (acts_disconnectCon c _).undisturbed rfl
    · dsimp only
      split
      · exact undisturbed_setState c (by simp)
      · exact .refl c

/-- A submit leaves the data alone. -/
theorem submitTx_feed (c : Client) (t : ℕ) (cell : TxCell) (force : Bool) :
    (c.submitTx t cell force).feed = c.feed :=
  (congrArg Client.feed (submitTx_fields c t cell force)).trans rfl

/-- So does a new transaction. -/
theorem createTx_feed (c : Client) (isolation : Isolation) (readOnly : Bool) :
    (c.createTx isolation readOnly).feed = c.feed :=
  (congrArg Client.feed (createTx_fields c isolation readOnly)).trans rfl

/-- Going on without an exception. -/
theorem andThen_of_goes {f : Client → Client} (h : (c.andThen f).broken = false) :
    c.broken = false ∧ c.andThen f = f c := by
  unfold andThen at h ⊢
  split at h
  · next hbroken => simp [hbroken] at h
  · next hbroken => exact ⟨by simpa using hbroken, if_neg hbroken⟩

/-- What an applied commit does to the data, unless it ends the event loop: it moves the store and
tells the reactor. -/
theorem processUpdate_feed (globMatch : Glob) (c : Client) (u : Update) (hreactor : c.hasReactor = true)
    (hgoes : (c.processUpdate globMatch u).broken = false) :
    ∃ store changes m, c.store.update u = (store, .ok (changes, m)) ∧
      (c.processUpdate globMatch u).feed =
        { c.feed with store := store, events := c.feed.events ++ [(m.rev, changes)] } := by
  unfold processUpdate at hgoes ⊢
  cases hupdate : c.store.update u with
  | mk store result =>
    cases result with
    | error e => simp [hupdate, broken, throw] at hgoes
    | ok r =>
      obtain ⟨changes, m⟩ := r
      refine ⟨store, changes, m, rfl, ?_⟩
      simp only [hupdate] at hgoes ⊢
      have hdiscard := ((acts_discardAccepted m.rev c.accepted { c with store := store } (.refl _)).undisturbed
        rfl).feed
      generalize discardAccepted m.rev c.accepted { c with store := store } = c₁ at hgoes hdiscard ⊢
      obtain ⟨-, heq⟩ := andThen_of_goes hgoes
      rw [heq] at hgoes ⊢
      have hconfirm := ((acts_confirmAccepted m.rev (deliver globMatch changes c₁)).undisturbed rfl).feed
      rw [deliver_feed, hdiscard] at hconfirm
      generalize confirmAccepted m.rev (deliver globMatch changes c₁) = c₂ at hgoes hconfirm ⊢
      obtain ⟨-, heq⟩ := andThen_of_goes hgoes
      have hreactor₂ : c₂.hasReactor = true :=
        (congrArg Feed.hasReactor hconfirm).trans hreactor
      have hcalled : (c₂.call (.eventData m.rev changes)).feed =
          { c₂.feed with events := c₂.feed.events ++ [(m.rev, changes)] } := by
        simp [call, hreactor₂, feed, events, ReactorCall.event]
      rw [heq, hcalled, hconfirm]
      rfl

/-- What the response to the snapshot request does, unless it ends the event loop: it is refused, or
it replaces the content and tells the reactor. -/
theorem processSnapshotResp_feed (c : Client) (resp : SnapshotResponse) (throws : Bool)
    (hreactor : c.hasReactor = true) (hgoes : (c.processSnapshotResp resp throws).broken = false) :
    Undisturbed c (c.processSnapshotResp resp throws) ∨
      (c.state = .loadingSnapshot ∧ (c.processSnapshotResp resp throws).state ≠ .loadingSnapshot ∧
        ∃ store initialized, (c.processSnapshotResp resp throws).feed =
          { c.feed with
            store := store, initials := c.feed.initials + 1, initialized := initialized }) := by
  unfold processSnapshotResp at hgoes ⊢
  split_ifs at hgoes ⊢ with hunexpected hrefused
  · exact Or.inl ((acts_disconnectCon c _).undisturbed rfl)
  · exact Or.inl ((acts_disconnectCon c _).undisturbed rfl)
  · right
    push Not at hunexpected
    refine ⟨hunexpected.1, ?_⟩
    obtain ⟨hloaded, heq⟩ := andThen_of_goes hgoes
    rw [heq]
    have hload : ∃ store, (c.loadSnapshot resp.snapshot).feed = { c.feed with store := store } := by
      unfold loadSnapshot at hloaded ⊢
      split
      · exact ⟨c.store, rfl⟩
      · next snapshot hsnapshot =>
        rw [hsnapshot] at hloaded
        dsimp only at hloaded
        split
        · next store _ => exact ⟨store, rfl⟩
        · next store e hfailed => simp [hfailed, broken, throw] at hloaded
    obtain ⟨store, hstore⟩ := hload
    generalize c.loadSnapshot resp.snapshot = c₁ at hstore ⊢
    have hreactor₁ : c₁.hasReactor = true := (congrArg Feed.hasReactor hstore).trans hreactor
    have hcalled : (c₁.call .initialData).feed =
        { c₁.feed with initials := c₁.feed.initials + 1 } := by
      simp [call, hreactor₁, feed, events, ReactorCall.event]
    rw [hstore] at hcalled
    dsimp only
    split
    · have habort := ((acts_disconnectCon (c₁.call .initialData) .closedByLocal).undisturbed
        rfl).trans (undisturbed_abort _)
      refine ⟨?_, store, c.initialized, habort.feed.trans hcalled⟩
      have hclosed : (abort ((c₁.call .initialData).disconnectCon .closedByLocal)).state = .closed := by
        unfold abort
        split
        · next hclosed => exact isClosed_eq_true.mp hclosed
        · exact setState_state _ _
      rw [hclosed]
      simp
    · refine ⟨?_, store, true, ?_⟩
      · unfold finishSnapshot requestUpdates
        rw [state_of_link (send_link _ _)]
        simp
      · unfold finishSnapshot
        rw [requestUpdates_feed, setState_feed]
        have hset : ∀ c' : Client, Client.feed { c' with initialized := true } =
            { c'.feed with initialized := true } := fun _ => rfl
        rw [hset, hcalled]

end Handlers

section Liveness

variable {globMatch : Glob} {c c' : Client}

/-- A client that goes on was going on before. -/
theorem live_of_keeps (hkeeps : Keeps c c') (hphase : c'.phase = c.phase) (h : c'.live) :
    c.live := by
  unfold live at h ⊢
  rw [hphase] at h
  refine ⟨?_, h.2⟩
  rcases hkeeps with hsame | hbroken
  · unfold broken at h ⊢
    rw [← hsame]
    exact h.1
  · rw [hbroken] at h
    cases h.1

/-- Once an exception ends the event loop, or its loop is left, the client is no longer live. -/
theorem live_of_effect {e : Event} (hsound : c.Sound) (heffect : Effect globMatch c e c')
    (h : c'.live) : c.live := by
  have hidle : c.phase = .running → c.activity = .idle → c.live := fun hphase hidle =>
    ⟨by simp [broken, hidle], Or.inr hphase⟩
  have hbusy : c.activity ≠ .idle → c.broken = false → c.live := fun hbusy hgoes =>
    ⟨hgoes, Or.inr (hsound.busy hbusy)⟩
  have hacts : ∀ {kinds : List ActionKind} {c'' : Client}, Acts kinds c c'' →
      kinds.all ActionKind.keepsActivity = true → kinds.all ActionKind.stays = true →
        c''.live → c.live :=
    fun hacts hkeeps hstays h => live_of_keeps (hacts.keeps hkeeps) (hacts.stays hstays).phase h
  cases heffect with
  | @start refused hphase _ =>
    refine ⟨?_, Or.inl hphase⟩
    have hkeeps : Keeps c (c.startRun refused) := Keeps.after (keeps_tryToConnect _ refused) rfl
    rcases hkeeps with hsame | hbroken
    · have hgoes := h.1
      unfold broken at hgoes ⊢
      rwa [← hsame]
    · rw [h.1] at hbroken
      cases hbroken
  | connected hphase hactivity => exact hidle hphase hactivity
  | failed hphase => exact live_of_keeps (Or.inl rfl) rfl h
  | closed hphase hactivity => exact hidle hphase hactivity
  | read hphase hactivity => exact hidle hphase hactivity
  | message hreading => exact hbusy (by simp [hreading]) (by simp [broken, hreading])
  | malformed hreading => exact hbusy (by simp [hreading]) (by simp [broken, hreading])
  | readEnd hreading => exact hbusy (by simp [hreading]) (by simp [broken, hreading])
  | update hpushing => exact hbusy (by simp [hpushing]) (by simp [broken, hpushing])
  | updatesEnd hpushing => exact hbusy (by simp [hpushing]) (by simp [broken, hpushing])
  | timerConLost hphase hactivity => exact hidle hphase hactivity
  | timerReconnect hphase hactivity => exact hidle hphase hactivity
  | sigint hphase hactivity => exact hidle hphase hactivity
  | asyncClosed hphase hactivity => exact hidle hphase hactivity
  | async hphase hactivity => exact hidle hphase hactivity
  | command hdraining => exact hbusy (by simp [hdraining]) (by simp [broken, hdraining])
  | commandsEnd hdraining => exact hbusy (by simp [hdraining]) (by simp [broken, hdraining])
  | unwind =>
    rcases h.2 with hphase | hphase <;> simp [(unwindRun_spec c).1] at hphase
  | finish =>
    rcases h.2 with hphase | hphase <;> simp [finishRun] at hphase
  | createTx =>
    exact live_of_keeps (Or.inl (createTx_same c _ _).2) (createTx_same c _ _).1.phase h
  | use => exact live_of_keeps (Or.inl rfl) rfl h
  | discard => exact live_of_keeps (keeps_onTx c _ _) (phase_of_link (onTx_link c _ _)) h
  | release => exact live_of_keeps (Or.inl rfl) rfl h
  | submit =>
    exact live_of_keeps (Or.inl (submitTx_same c _ _ _).2) (submitTx_same c _ _ _).1.phase h
  | close => exact live_of_keeps (Or.inl rfl) rfl h
  | stop => exact live_of_keeps (Or.inl rfl) rfl h
  | pingRefused => exact h
  | ping => exact live_of_keeps (Or.inl rfl) rfl h
  | fetchRefused => exact h
  | fetchSessions => exact live_of_keeps (Or.inl rfl) rfl h
  | loopPing => exact hacts (acts_loopPing c _) rfl rfl h
  | loopFetchSessions => exact hacts (acts_loopFetchSessions c _) rfl rfl h
  | @pushClosed n p => exact hacts (acts_pushClosed c n p) rfl rfl h
  | pushCheck => exact live_of_keeps (Or.inl rfl) rfl h
  | @pushLocked n p => exact hacts (acts_pushEnded c n p) rfl rfl h

end Liveness

/-- A push whose updates are applied arrives before the data is initialized. -/
def earlyPush (c : Client) : Event → Prop
  | .message (some (.updatesPush resp)) _ =>
    (∃ i, c.activity = .reading i ∧ c.con = some i) ∧ resp.cid = c.dataCid ∧ resp.updates ≠ [] ∧
      c.initialized = false
  | _ => False

/-- A check that a push is not early. -/
def checkPush (c : Client) : Event → Bool
  | .message (some (.updatesPush _)) _ => c.initialized
  | _ => true

/-- A push that was checked is not early. -/
theorem not_earlyPush_of_checked {c : Client} {e : Event} (h : c.checkPush e = true) :
    ¬c.earlyPush e := by
  intro hearly
  unfold earlyPush at hearly
  split at hearly
  · have hinitialized : c.initialized = true := h
    rw [hearly.2.2.2] at hinitialized
    cases hinitialized
  · exact hearly

end Client

/-- A client, and the content of its store at `on_initial_data`. -/
structure Watched where
  client : Client
  base : Option (KeyMap Value) := none

namespace Watched

/-- The content is noted when `on_initial_data` is called. -/
def follow (w : Watched) (c : Client) : Watched :=
  { client := c
    base := if c.feed.initials = w.client.feed.initials then w.base else some c.store.data }

/-- One step. -/
def step (globMatch : Glob) (w : Watched) (e : Event) : Option Watched :=
  (w.client.step globMatch e).map w.follow

/-- What the reactor is told about the data. -/
structure Consistent (w : Watched) : Prop where
  /-- Before `on_initial_data` no commit is applied and `on_event_data` is not called. -/
  before : w.base = none → w.client.events = [] ∧ w.client.store = Store.empty
  /-- The revisions strictly increase. -/
  increasing : (w.client.events.map Prod.fst).Pairwise (· < ·)
  /-- The changes lead from the content at `on_initial_data` to that of the store. -/
  replay : ∀ data ∈ w.base,
    (w.client.events.flatMap Prod.snd).foldl Change.applyTo data = w.client.store.data

/-- The invariant of a live client. -/
structure Fed (w : Watched) : Prop where
  rev0 : w.client.rev0 ≠ 0
  reactor : w.client.hasReactor = true
  loading : w.client.state = .loadingSnapshot → w.client.initialized = false
  pushing : ∀ i crev rest, w.client.activity = .pushing i crev rest → w.client.initialized = true
  fresh : w.client.initialized = false → w.client.events = []
  based : w.client.initialized = true → w.base ≠ none
  consistent : w.Consistent
  bounded : ∀ e ∈ w.client.events, e.1 ≤ w.client.store.rev

section Runs

variable {globMatch : Glob} {c c' : Client} {base : Option (KeyMap Value)}

/-- What leaves the data and the reactor alone keeps the invariant. -/
theorem Fed.undisturbed (h : Fed ⟨c, base⟩) (hsame : c.Undisturbed c')
    (hpushing : ∀ i crev rest, c'.activity = .pushing i crev rest → c.initialized = true) :
    Fed ⟨c', base⟩ := by
  have hfeed := hsame.feed
  have hstore : c'.store = c.store := congrArg Client.Feed.store hfeed
  have hevents : c'.events = c.events := congrArg Client.Feed.events hfeed
  have hinitialized : c'.initialized = c.initialized := congrArg Client.Feed.initialized hfeed
  have hrev0 : c'.rev0 = c.rev0 := congrArg Client.Feed.rev0 hfeed
  have hreactor : c'.hasReactor = c.hasReactor := congrArg Client.Feed.hasReactor hfeed
  refine ⟨hrev0 ▸ h.rev0, hreactor ▸ h.reactor, fun hloading => ?_, fun i crev rest hpush => ?_,
    fun hnone => ?_, fun hsome => h.based (hinitialized ▸ hsome), ⟨fun hnone => ?_, ?_, ?_⟩, ?_⟩
  · rw [hinitialized]
    exact (hsame.loading hloading).elim h.loading id
  · rw [hinitialized]
    exact hpushing i crev rest hpush
  · rw [hevents]
    exact h.fresh (hinitialized ▸ hnone)
  · rw [hevents, hstore]
    exact h.consistent.before hnone
  · rw [hevents]
    exact h.consistent.increasing
  · rw [hevents, hstore]
    exact h.consistent.replay
  · rw [hevents, hstore]
    exact h.bounded

/-- A handler that may end the event loop but does not start the loop over some updates. -/
theorem Fed.keeps (h : Fed ⟨c, base⟩) (hsame : c.Undisturbed c') (hkeeps : c.Keeps c')
    (hlive : c'.live) : Fed ⟨c', base⟩ := by
  refine h.undisturbed hsame fun i crev rest hpush => ?_
  rcases hkeeps with hactivity | hbroken
  · exact h.pushing i crev rest (hactivity ▸ hpush)
  · rw [hlive.1] at hbroken
    cases hbroken

/-- An applied commit is one more event. -/
theorem Fed.update {u : Update} (h : Fed ⟨c, base⟩) (hinitialized : c.initialized = true)
    {store : Store} {changes : List Change} {m : Meta}
    (hupdate : c.store.update u = (store, .ok (changes, m)))
    (hfeed : c'.feed = { c.feed with store := store, events := c.feed.events ++ [(m.rev, changes)] })
    (hloading : c'.state = .loadingSnapshot → c.state = .loadingSnapshot) : Fed ⟨c', base⟩ := by
  obtain ⟨hmeta, hupdated⟩ := Store.update_ok hupdate
  have hrev : m.rev = store.rev := by rw [hmeta, hupdated.rev]; rfl
  have hstore : c'.store = store := congrArg Client.Feed.store hfeed
  have hevents : c'.events = c.events ++ [(m.rev, changes)] := congrArg Client.Feed.events hfeed
  have hinit : c'.initialized = true := (congrArg Client.Feed.initialized hfeed).trans hinitialized
  have hrev0 : c'.rev0 = c.rev0 := congrArg Client.Feed.rev0 hfeed
  have hreactor : c'.hasReactor = c.hasReactor := congrArg Client.Feed.hasReactor hfeed
  have hnewer : c.store.rev < store.rev := by
    rw [hupdated.rev]
    exact hupdated.newer
  refine ⟨hrev0 ▸ h.rev0, hreactor ▸ h.reactor, fun hstate => ?_, fun _ _ _ _ => hinit,
    fun hnone => ?_, fun _ => h.based hinitialized, ⟨fun hnone => ?_, ?_, fun data hdata => ?_⟩, ?_⟩
  · rw [h.loading (hloading hstate)] at hinitialized
    cases hinitialized
  · rw [hinit] at hnone
    cases hnone
  · exact absurd hnone (h.based hinitialized)
  · rw [hevents, List.map_append, List.pairwise_append]
    refine ⟨h.consistent.increasing, by simp, fun rev hold rev' hnew => ?_⟩
    obtain ⟨e, he, rfl⟩ := List.mem_map.mp hold
    obtain rfl : rev' = m.rev := by simpa using hnew
    have hle : e.1 ≤ c.store.rev := h.bounded e he
    omega
  · rw [hevents, hstore, List.flatMap_append, List.foldl_append, h.consistent.replay data hdata]
    simpa using foldl_applyTo_of_replays rfl hupdated.replays
  · intro e he
    rw [hevents] at he
    rw [hstore]
    rcases List.mem_append.mp he with hold | hnew
    · exact (h.bounded e hold).trans hnewer.le
    · obtain rfl := List.mem_singleton.mp hnew
      exact hrev.le

/-- The content of a snapshot is that at `on_initial_data`. -/
theorem Fed.initial (h : Fed ⟨c, base⟩) (hfresh : c.initialized = false) {store : Store}
    {initialized : Bool} (hfeed : c'.feed = { c.feed with
      store := store, initials := c.feed.initials + 1, initialized := initialized })
    (hloading : c'.state ≠ .loadingSnapshot)
    (hpushing : ∀ i crev rest, c'.activity ≠ .pushing i crev rest) :
    Fed ⟨c', some c'.store.data⟩ := by
  have hevents : c'.events = [] := (congrArg Client.Feed.events hfeed).trans (h.fresh hfresh)
  have hrev0 : c'.rev0 = c.rev0 := congrArg Client.Feed.rev0 hfeed
  have hreactor : c'.hasReactor = c.hasReactor := congrArg Client.Feed.hasReactor hfeed
  refine ⟨hrev0 ▸ h.rev0, hreactor ▸ h.reactor, fun hstate => absurd hstate hloading,
    fun i crev rest hpush => absurd hpush (hpushing i crev rest), fun _ => hevents, by simp,
    ⟨by simp, by simp [hevents], fun data hdata => ?_⟩, by simp [hevents]⟩
  obtain rfl := Option.some.inj hdata
  simp [hevents]

/-- A step without a call of `on_initial_data`. -/
theorem Fed.follow_same {w : Watched} (hsame : c.feed.initials = w.client.feed.initials)
    (h : Fed ⟨c, w.base⟩) : Fed (w.follow c) := by
  unfold follow
  rwa [if_pos hsame]

/-- A call of `on_initial_data`. -/
theorem Fed.follow_initial {w : Watched} (hcalled : c.feed.initials = w.client.feed.initials + 1)
    (h : Fed ⟨c, some c.store.data⟩) : Fed (w.follow c) := by
  unfold follow
  rwa [if_neg (by omega)]

/-- A handler that leaves the data alone, and may end the event loop. -/
theorem Fed.follow_keeps {w : Watched} (h : Fed w) (hsame : w.client.Undisturbed c)
    (hkeeps : w.client.Keeps c) (hlive : c.live) : Fed (w.follow c) :=
  .follow_same (congrArg Client.Feed.initials hsame.feed) (h.keeps hsame hkeeps hlive)

/-- Actions that leave the data alone. -/
theorem Fed.follow_acts {w : Watched} {kinds : List ActionKind} (h : Fed w)
    (hacts : w.client.Acts kinds c) (hsame : kinds.all ActionKind.undisturbed = true)
    (hkeeps : kinds.all ActionKind.keepsActivity = true) (hlive : c.live) : Fed (w.follow c) :=
  h.follow_keeps (hacts.undisturbed hsame) (hacts.keeps hkeeps) hlive

/-- What leaves the data alone and does not start the loop over some updates. -/
theorem Fed.follow_idle {w : Watched} (h : Fed w) (hsame : w.client.Undisturbed c)
    (hidle : ∀ i crev rest, c.activity ≠ .pushing i crev rest) : Fed (w.follow c) :=
  .follow_same (congrArg Client.Feed.initials hsame.feed)
    (h.undisturbed hsame fun i crev rest hpush => absurd hpush (hidle i crev rest))

/-- The reading goes on after a handler that keeps what the event loop was doing. -/
theorem reading_of_keeps {i : ℕ} (hreading : c.activity = .reading i) (hkeeps : c.Keeps c')
    (hlive : c'.live) (j crev : ℕ) (rest : List Update) : c'.activity ≠ .pushing j crev rest := by
  rcases hkeeps with hactivity | hbroken
  · rw [hactivity, hreading]
    simp
  · rw [hlive.1] at hbroken
    cases hbroken

/-- The loop over some updates is started by an UPDATES_PUSH with the awaited cid. -/
theorem pushing_processUpdatesPush {i : ℕ} {resp : UpdatesPush}
    (hactivity : ∀ j crev rest, c.activity ≠ .pushing j crev rest) {j crev : ℕ} {rest : List Update}
    (hpush : (c.processUpdatesPush i resp).activity = .pushing j crev rest) :
    resp.cid = c.dataCid ∧ resp.updates ≠ [] := by
  unfold Client.processUpdatesPush at hpush
  split_ifs at hpush with hcid hempty
  · rcases (Client.acts_disconnectCon c .msgUnexpected).keeps rfl with hsame | hbroken
    · exact absurd (hsame ▸ hpush) (hactivity j crev rest)
    · simp [Client.broken, hpush] at hbroken
  · exact absurd hpush (hactivity j crev rest)
  · exact ⟨not_not.mp hcid, hempty⟩

/-- What a message does: unless it is an early push, the updates it brings come when the data is
initialized. -/
theorem fed_message {w : Watched} {i : ℕ} {msg : Option ServerMsg} {throws : Bool} (h : Fed w)
    (hreading : w.client.activity = .reading i)
    (hguard : ¬w.client.earlyPush (.message msg throws))
    (hlive : (w.client.onMsgReceived i msg throws).live) :
    Fed (w.follow (w.client.onMsgReceived i msg throws)) := by
  have hdisconnect : ∀ cause, (w.client.disconnect i cause).live →
      Fed (w.follow (w.client.disconnect i cause)) :=
    fun cause => h.follow_keeps (.of_link rfl (Client.disconnect_link _ i cause)) (Or.inl rfl)
  revert hlive
  unfold Client.onMsgReceived
  split
  · exact hdisconnect _
  · exact h.follow_acts (Client.acts_processLoginResp _ i _ throws) rfl rfl
  · split
    · exact hdisconnect _
    · next hcon =>
      split
      · exact h.follow_acts (Client.acts_processSubmitResp _ _) rfl rfl
      · next resp _ =>
        intro hlive
        have hkeeps := (Client.acts_processSnapshotResp w.client resp throws).keeps rfl
        rcases Client.processSnapshotResp_feed w.client resp throws h.reactor hlive.1 with
          hsame | ⟨hloading, hleft, store, initialized, hfeed⟩
        · exact h.follow_keeps hsame hkeeps hlive
        · refine .follow_initial (congrArg Client.Feed.initials hfeed) ?_
          exact Fed.initial h (h.loading hloading) hfeed hleft
            (reading_of_keeps hreading hkeeps hlive)
      · exact h.follow_keeps (Client.undisturbed_processUpdatesResp _ _ h.rev0)
          ((Client.acts_processUpdatesResp _ _).keeps rfl)
      · next resp _ =>
        intro _
        have hsame := (Client.acts_processUpdatesPush w.client i resp).undisturbed rfl
        refine .follow_same (congrArg Client.Feed.initials hsame.feed)
          (h.undisturbed hsame fun j crev rest hpush => ?_)
        obtain ⟨hcid, hupdates⟩ := pushing_processUpdatesPush (by simp [hreading]) hpush
        by_contra hearly
        exact hguard ⟨⟨i, hreading, not_not.mp hcon⟩, hcid, hupdates, by simpa using hearly⟩
      · exact h.follow_keeps (.refl _) (.refl _)
      · exact h.follow_acts (Client.acts_processPingResp _ _) rfl rfl
      · exact h.follow_acts (Client.acts_processSessionsResp _ _ _) rfl rfl
      · exact h.follow_acts (Client.acts_processSessionsPush _ _ _) rfl rfl
      · exact hdisconnect _
      · exact hdisconnect _

/-- One turn of the loop over the updates of an UPDATES_PUSH. -/
theorem fed_pushUpdate {w : Watched} {i crev : ℕ} {u : Update} {rest : List Update} (h : Fed w)
    (hpushing : w.client.activity = .pushing i crev (u :: rest))
    (hlive : (Client.pushUpdate globMatch { w.client with activity := .pushing i crev rest } crev
      u).live) :
    Fed (w.follow
      (Client.pushUpdate globMatch { w.client with activity := .pushing i crev rest } crev u)) := by
  have hinitialized := h.pushing i crev (u :: rest) hpushing
  obtain ⟨hgoes, heq⟩ := Client.andThen_of_goes hlive.1
  obtain ⟨store, changes, m, hupdate, happlied⟩ :=
    Client.processUpdate_feed globMatch { w.client with activity := .pushing i crev rest } u
      h.reactor hgoes
  have hfeed : (Client.processUpdate globMatch
        { w.client with activity := .pushing i crev rest } u).feed =
      { w.client.feed with
        store := store, events := w.client.feed.events ++ [(m.rev, changes)] } := happlied
  have hlink := (Client.acts_processUpdate globMatch
    { w.client with activity := .pushing i crev rest } u).link rfl
  have hstate := Client.state_of_link hlink
  rw [Client.pushUpdate, heq]
  generalize Client.processUpdate globMatch { w.client with activity := .pushing i crev rest } u = c₁
    at hfeed hstate
  split
  · have hset := Client.setState_feed c₁ .synced
    refine .follow_same (by rw [hset, hfeed]) ?_
    exact Fed.update h hinitialized hupdate (hset.trans hfeed) (by simp)
  · refine .follow_same (by rw [hfeed]) ?_
    exact Fed.update h hinitialized hupdate hfeed fun hloading => hstate ▸ hloading

/-- What an effect does to a live client: it leaves the data alone, or applies a commit, or loads
the content and tells the reactor. -/
theorem fed_effect {w : Watched} {e : Event} (h : Fed w) (hguard : ¬w.client.earlyPush e)
    (heffect : Client.Effect globMatch w.client e c) (hlive : c.live) : Fed (w.follow c) := by
  have hsame : ∀ {c' : Client}, c'.feed = w.client.feed → c'.state = w.client.state →
      c'.activity = w.client.activity → c'.live → Fed (w.follow c') :=
    fun hfeed hstate hactivity => h.follow_keeps
      ⟨hfeed, fun hloading => Or.inl (hstate ▸ hloading)⟩ (Or.inl hactivity)
  cases heffect with
  | @start refused hphase _ =>
    have hbegin : w.client.Undisturbed { w.client with phase := .running, con := none } :=
      ⟨rfl, Or.inl⟩
    have hkept : w.client.Keeps (w.client.startRun refused) :=
      Client.Keeps.after (Client.keeps_tryToConnect _ refused) rfl
    exact h.follow_keeps (hbegin.trans (Client.undisturbed_tryToConnect _ refused)) hkept hlive
  | @connected i con hphase hidle hcon hstate =>
    have hbegin : w.client.Undisturbed { w.client with
        connections := w.client.connections.set i { con with state := .connected } } :=
      ⟨rfl, Or.inl⟩
    have hacts := Client.acts_onConnectionEstablished { w.client with
      connections := w.client.connections.set i { con with state := .connected } } i
    exact h.follow_keeps (hbegin.trans (hacts.undisturbed rfl)) (Client.Keeps.after (hacts.keeps rfl) rfl)
      hlive
  | failed =>
    exact h.follow_keeps (.of_link rfl (Client.disconnect_link _ _ _)) (Or.inl rfl) hlive
  | @closed i delay retry refused con hphase hidle hcon hstate =>
    have hbegin : w.client.Undisturbed
        { w.client with connections := w.client.connections.set i con.onClose } := ⟨rfl, Or.inl⟩
    have hacts := Client.acts_onConnectionClosed
      { w.client with connections := w.client.connections.set i con.onClose } i delay retry refused
    exact h.follow_keeps (hbegin.trans (hacts.undisturbed rfl)) (Client.Keeps.after (hacts.keeps rfl) rfl)
      hlive
  | read => exact h.follow_idle ⟨rfl, Or.inl⟩ (by simp)
  | message hreading => exact fed_message h hreading hguard hlive
  | malformed => exact h.follow_idle ⟨rfl, Or.inl⟩ (by simp [Client.disconnect])
  | readEnd => exact h.follow_idle ⟨rfl, Or.inl⟩ (by simp)
  | update hpushing => exact fed_pushUpdate h hpushing hlive
  | updatesEnd => exact h.follow_idle ⟨rfl, Or.inl⟩ (by simp)
  | timerConLost => exact h.follow_acts (Client.acts_onConnectionLost _) rfl rfl hlive
  | @timerReconnect refused hphase hidle htimer =>
    have hbegin : w.client.Undisturbed { w.client with timerReconnect := false } := ⟨rfl, Or.inl⟩
    exact h.follow_keeps (hbegin.trans (Client.undisturbed_tryToConnect _ refused))
      (Client.Keeps.after (Client.keeps_tryToConnect _ refused) rfl) hlive
  | sigint => exact h.follow_keeps (Client.undisturbed_abort _) (Client.keeps_abort _) hlive
  | asyncClosed => exact hsame rfl rfl rfl hlive
  | async => exact h.follow_idle ⟨rfl, Or.inl⟩ (by simp)
  | command => exact h.follow_acts (Client.acts_nextCommand _ _ _) rfl rfl hlive
  | commandsEnd => exact h.follow_idle ⟨rfl, Or.inl⟩ (by simp)
  | unwind =>
    rcases hlive.2 with hphase | hphase <;> simp [(Client.unwindRun_spec w.client).1] at hphase
  | finish =>
    rcases hlive.2 with hphase | hphase <;> simp [Client.finishRun] at hphase
  | @createTx isolation readOnly =>
    exact hsame (Client.createTx_feed w.client _ _)
      (Client.state_of_link (Client.createTx_link w.client isolation readOnly))
      (Client.createTx_same w.client _ _).2 hlive
  | use => exact hsame rfl rfl rfl hlive
  | discard =>
    exact h.follow_keeps (.of_link (Client.onTx_feed _ _ _) (Client.onTx_link _ _ _))
      (Client.keeps_onTx _ _ _) hlive
  | release => exact hsame rfl rfl rfl hlive
  | @submit t force cell _ =>
    exact hsame (Client.submitTx_feed w.client _ _ _)
      (Client.state_of_link (Client.submitTx_link w.client t cell force))
      (Client.submitTx_same w.client _ _ _).2 hlive
  | close => exact hsame rfl rfl rfl hlive
  | stop => exact hsame rfl rfl rfl hlive
  | pingRefused => exact hsame rfl rfl rfl hlive
  | ping => exact hsame rfl rfl rfl hlive
  | fetchRefused => exact hsame rfl rfl rfl hlive
  | fetchSessions => exact hsame rfl rfl rfl hlive
  | loopPing => exact h.follow_acts (Client.acts_loopPing _ _) rfl rfl hlive
  | loopFetchSessions => exact h.follow_acts (Client.acts_loopFetchSessions _ _) rfl rfl hlive
  | @pushClosed n p => exact h.follow_acts (Client.acts_pushClosed _ n p) rfl rfl hlive
  | pushCheck => exact hsame rfl rfl rfl hlive
  | @pushLocked n p => exact h.follow_acts (Client.acts_pushEnded _ n p) rfl rfl hlive

/-- The invariant along the runs: a live client is fed. -/
theorem fed_step {w w' : Watched} {e : Event} (hguard : ¬w.client.earlyPush e)
    (hstep : w.step globMatch e = some w') (hinv : w.client.Sound ∧ (w.client.live → Fed w)) :
    w'.client.Sound ∧ (w'.client.live → Fed w') := by
  obtain ⟨c', hc', rfl⟩ := Option.map_eq_some_iff.mp hstep
  refine ⟨Client.sound_step hinv.1 hc', fun hlive => ?_⟩
  obtain ⟨-, c₁, heffect, rfl⟩ := Client.step_effect hc'
  have hlive₁ : c₁.live := hlive
  have hfed := fed_effect (hinv.2 (Client.live_of_effect hinv.1 heffect hlive₁)) hguard heffect hlive₁
  have hreap : c₁.Undisturbed c₁.reap := ⟨rfl, Or.inl⟩
  exact Fed.undisturbed hfed hreap hfed.pushing

end Runs

end Watched

/-- A client with an initial revision tells its reactor no commit before `on_initial_data`, and
from then on its events are in the order of their revisions and lead from the content at
`on_initial_data` to that of the store, as long as no UPDATES_PUSH is processed before. -/
theorem Watched.reactor_follows_store (globMatch : Glob) {user password : Bytes}
    {maxActiveTxs rev0 servers : ℕ} (hrev0 : rev0 ≠ 0) {events : List Event} {w : Watched}
    (hrun : Run (Watched.step globMatch) (fun w e => ¬w.client.earlyPush e)
      { client := Client.create user password maxActiveTxs rev0 servers true } events w)
    (hlive : w.client.live) : w.Consistent := by
  have hstart : Watched.Fed
      { client := Client.create user password maxActiveTxs rev0 servers true } :=
    ⟨hrev0, rfl, by simp [Client.create], by simp [Client.create], fun _ => rfl,
      by simp [Client.create], ⟨fun _ => ⟨rfl, rfl⟩, by simp [Client.create, Client.events], by simp⟩,
      by simp [Client.create, Client.events]⟩
  have hinv := hrun.invariant (fun _ _ _ hguard hstep => Watched.fed_step hguard hstep)
    ⟨Client.sound_create _ _ _ _ _ _, fun _ => hstart⟩
  exact (hinv.2 hlive).consistent

/-- A login with a server whose last commit is that of revision 1. -/
def loggedIn : List Event :=
  [.start none, .connected 0, .read 0,
    .message (some (.loginResponse ⟨.authorized, 0, 1, true, true, 10, [⟨15, [42]⟩]⟩)) false]

/-- A commit that writes one key. -/
def someCommit : Update := ⟨2, [117], 0, 1, [⟨some [97], some [98]⟩], []⟩

/-- The snapshot, the updates and a commit of a well-behaved server. -/
theorem Watched.reactor_follows_store_commit : ∃ (events : List Event) (w : Watched),
    Run (Watched.step fun _ _ => true) (fun w e => ¬w.client.earlyPush e)
        { client := Client.create [1] [2] 0 1 1 true } events w ∧
      w.client.events.map Prod.fst = [2] ∧ w.Consistent := by
  have hexec : (execute (Watched.step fun _ _ => true) (fun w e => w.client.checkPush e)
      { client := Client.create [1] [2] 0 1 1 true }
      (loggedIn ++
        [.message (some (.snapshotResponse ⟨1, true, some ⟨1, []⟩⟩)) false,
          .message (some (.updatesResponse ⟨2, 1, true⟩)) false,
          .message (some (.updatesPush ⟨2, 2, [someCommit]⟩)) false, .update, .update])).map
      (fun w => decide (w.client.broken = false ∧ w.client.phase = .running ∧
        w.client.events.map Prod.fst = [2])) = some true := by
    decide +kernel
  obtain ⟨w, hrun, hend⟩ := exists_run_of_execute (fun _ _ => Client.not_earlyPush_of_checked) hexec
  obtain ⟨hgoes, hphase, hrevs⟩ := of_decide_eq_true hend
  exact ⟨_, w, hrun, hrevs,
    Watched.reactor_follows_store _ (by decide) hrun ⟨hgoes, Or.inr hphase⟩⟩

/-- A push that comes instead of the snapshot, with the cid of the request for it: the commit is
applied, and `on_event_data` is called before `on_initial_data`. -/
theorem Watched.push_before_snapshot :
    ¬∀ (events : List Event) (w : Watched),
      Run (Watched.step fun _ _ => true) anyStep
          { client := Client.create [1] [2] 0 1 1 true } events w →
        w.client.live → (∀ con ∈ w.client.connections, con.closing = false) → w.Consistent := by
  intro h
  have hexec : (execute (Watched.step fun _ _ => true) (fun _ _ => true)
      { client := Client.create [1] [2] 0 1 1 true }
      (loggedIn ++
        [.message (some (.updatesPush ⟨1, 2, [someCommit]⟩)) false, .update, .update])).map
      (fun w => decide (w.client.broken = false ∧ w.client.phase = .running ∧
        w.client.connections = [⟨.connected, false, none⟩] ∧ w.base.isNone = true ∧
        w.client.events.map Prod.fst = [2])) = some true := by
    decide +kernel
  obtain ⟨w, hrun, hend⟩ := exists_run_of_execute (fun _ _ _ => trivial) hexec
  obtain ⟨hgoes, hphase, hconnections, hbase, hrevs⟩ := of_decide_eq_true hend
  have hconsistent := h _ w hrun ⟨hgoes, Or.inr hphase⟩ (by simp [hconnections])
  obtain ⟨hnone, -⟩ := hconsistent.before (Option.isNone_iff_eq_none.mp hbase)
  rw [hnone] at hrevs
  cases hrevs

end Nplex
