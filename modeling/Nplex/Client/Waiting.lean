import Nplex.Client.DataFeed

/-!
# Waiting for the client

`wait_for_populated`, `wait_for_synced` and `wait_for_closed` wait on `m_cv` under the mutex of
the commands. The event loop writes `m_initialized` and `m_state` without that mutex and takes it
only to close the client, so it can notify between a waiter's look at the state and its sleep.
One step of the monitor is one atomic action of a waiting thread, of the event loop, or of another
holder of the mutex.
-/

namespace Nplex

open Nplex.Common

/-- The functions that wait. -/
inductive WaitKind
  | populated
  | synced
  | closed
  deriving DecidableEq, Repr

/-- What the predicate of a wait says. -/
inductive Verdict
  | again
  | done
  | throws
  deriving DecidableEq, Repr

/-- The predicate of a wait, at the values it loads. -/
def WaitKind.verdict (kind : WaitKind) (state : ClientState) (initialized : Bool) : Verdict :=
  match kind with
  | .populated => if state = .closed then .throws else if initialized then .done else .again
  | .synced => if state = .closed then .throws else if state = .synced then .done else .again
  | .closed => if state = .closed then .done else .again

/-- Where a thread is in its wait. The flag says that the time is over. -/
inductive WaitPhase
  /-- Before its first look at the state. -/
  | entered
  /-- It wants the mutex. -/
  | locking (timedOut : Bool)
  /-- It has the mutex and is about to load `m_state` for its predicate. -/
  | loading (timedOut : Bool)
  /-- It has loaded `m_state` and is about to end its predicate. -/
  | comparing (state : ClientState) (timedOut : Bool)
  /-- Its predicate was false: it is about to release the mutex and sleep, at once. -/
  | sleeping
  | asleep
  /-- It returned its answer, or threw. -/
  | returned (answer : Option Bool)
  deriving DecidableEq, Repr

/-- The thread has the mutex. -/
def WaitPhase.holds : WaitPhase → Bool
  | .loading _ | .comparing _ _ | .sleeping => true
  | .entered | .locking _ | .asleep | .returned _ => false

/-- A waiting thread. -/
structure Waiter where
  kind : WaitKind
  phase : WaitPhase := .entered
  deriving DecidableEq, Repr

/-- A waiter after a notification. -/
def Waiter.notified (w : Waiter) : Waiter :=
  if w.phase = .asleep then { w with phase := .locking false } else w

/-- Where the event loop is in its writes and notifications. -/
inductive LoopPhase
  | idle
  /-- It has written `m_initialized` and calls `set_state` with INITIALIZED next. -/
  | initializing
  /-- It has written CLOSED and wants the mutex. -/
  | closing
  /-- It empties the queues under the mutex. -/
  | clearing
  /-- It is about to call `notify_all`. -/
  | notifying
  deriving DecidableEq, Repr

/-- Who holds the mutex of the commands. -/
inductive Holder
  | waiter (n : ℕ)
  | loop
  /-- `push_command`, `process_commands` or `abort`. -/
  | other
  deriving DecidableEq, Repr

/-- The awaited variables, the mutex and the threads. -/
structure Monitor where
  state : ClientState := .offline
  initialized : Bool := false
  mutex : Option Holder := none
  loop : LoopPhase := .idle
  waiters : List Waiter := []
  deriving DecidableEq, Repr

namespace Client

/-- The client is not populated, or it is in one of the two states for it. -/
def Populates (c c' : Client) : Prop :=
  c'.initialized = c.initialized ∨
    (c.state = .loadingSnapshot ∨ c.state = .syncing) ∧ c'.initialized = true

section Populates

variable {globMatch : Glob} {c c' : Client}

/-- A handler that leaves the data alone initializes nothing. -/
theorem Undisturbed.populates (h : Undisturbed c c') : Populates c c' :=
  Or.inl (initialized_of_feed h.feed)

/-- A call of the reactor initializes nothing. -/
theorem call_initialized (c : Client) (r : ReactorCall) :
    (c.call r).initialized = c.initialized :=
  (congrArg Client.initialized (call_fields c r)).trans rfl

/-- Nor does an applied commit. -/
theorem pushUpdate_initialized (globMatch : Glob) (c : Client) (crev : ℕ) (u : Update) :
    (c.pushUpdate globMatch crev u).initialized = c.initialized := by
  have hupdate : (c.processUpdate globMatch u).initialized = c.initialized := by
    unfold processUpdate
    split
    · rfl
    · next store changes m _ =>
      have hdiscard := initialized_of_feed
        ((acts_discardAccepted m.rev c.accepted { c with store := store } (.refl _)).undisturbed rfl).feed
      refine (andThen_same _ initialized ?_).trans hdiscard
      refine (andThen_same _ initialized (call_initialized _ _)).trans ?_
      have hconfirm := (acts_confirmAccepted m.rev (deliver globMatch changes
        (discardAccepted m.rev c.accepted { c with store := store }))).undisturbed rfl
      exact initialized_of_feed (hconfirm.feed.trans (deliver_feed _ _ _))
  refine (andThen_same _ initialized ?_).trans hupdate
  split
  · exact initialized_of_feed (setState_feed _ _)
  · rfl

/-- A snapshot initializes a client that loads it. -/
theorem populates_processSnapshotResp (c : Client) (resp : SnapshotResponse) (throws : Bool) :
    Populates c (c.processSnapshotResp resp throws) := by
  unfold processSnapshotResp
  split
  · exact ((acts_disconnectCon c _).undisturbed rfl).populates
  · next hexpected =>
    split
    · exact ((acts_disconnectCon c _).undisturbed rfl).populates
    · have hload : (c.loadSnapshot resp.snapshot).initialized = c.initialized := by
        unfold loadSnapshot
        split
        · rfl
        · split <;> rfl
      unfold andThen
      split
      · exact Or.inl hload
      · dsimp only
        split
        · left
          have habort := ((acts_disconnectCon ((c.loadSnapshot resp.snapshot).call .initialData)
            .closedByLocal).undisturbed rfl).trans (undisturbed_abort _)
          exact (initialized_of_feed habort.feed).trans ((call_initialized _ _).trans hload)
        · right
          push Not at hexpected
          refine ⟨Or.inl hexpected.1, ?_⟩
          unfold finishSnapshot
          exact initialized_of_feed ((requestUpdates_feed _ _).trans (setState_feed _ _))

/-- The response about the updates initializes a client without a snapshot. -/
theorem populates_processUpdatesResp (c : Client) (resp : UpdatesResponse) :
    Populates c (c.processUpdatesResp resp) := by
  by_cases hrev0 : c.rev0 = 0
  · unfold processUpdatesResp
    split
    · exact ((acts_disconnectCon c _).undisturbed rfl).populates
    · next hexpected =>
      split
      · exact ((acts_disconnectCon c _).undisturbed rfl).populates
      · right
        push Not at hexpected
        refine ⟨Or.inr hexpected.1, ?_⟩
        have hinstall : (c.installRev resp.crev).initialized = true := by
          unfold installRev
          rw [if_pos hrev0]
          exact initialized_of_feed (setState_feed _ _)
        dsimp only
        split
        · exact (initialized_of_feed (setState_feed _ _)).trans hinstall
        · exact hinstall
  · exact (undisturbed_processUpdatesResp c resp hrev0).populates

/-- A message initializes a client that waits for the data. -/
theorem populates_onMsgReceived (c : Client) (i : ℕ) (msg : Option ServerMsg) (throws : Bool) :
    Populates c (c.onMsgReceived i msg throws) := by
  have hacts : ∀ {kinds : List ActionKind} {c' : Client}, Acts kinds c c' →
      kinds.all ActionKind.undisturbed = true → Populates c c' :=
    fun h hdata => (h.undisturbed hdata).populates
  unfold onMsgReceived
  split
  · exact Or.inl rfl
  · exact hacts (acts_processLoginResp c i _ throws) rfl
  · split
    · exact Or.inl rfl
    · split
      · exact hacts (acts_processSubmitResp c _) rfl
      · exact populates_processSnapshotResp c _ throws
      · exact populates_processUpdatesResp c _
      · exact hacts (acts_processUpdatesPush c i _) rfl
      · exact Or.inl rfl
      · exact hacts (acts_processPingResp c _) rfl
      · exact hacts (acts_processSessionsResp c _ _) rfl
      · exact hacts (acts_processSessionsPush c _ _) rfl
      · exact Or.inl rfl
      · exact Or.inl rfl

/-- Every step populates the client only in one of the two states for it. -/
theorem populates_effect {e : Event} (heffect : Effect globMatch c e c') : Populates c c' := by
  have hfeed : ∀ {c' : Client}, c'.feed = c.feed → Populates c c' := fun h =>
    Or.inl (initialized_of_feed h)
  have hacts : ∀ {kinds : List ActionKind} {c' : Client}, Acts kinds c c' →
      kinds.all ActionKind.undisturbed = true → Populates c c' :=
    fun h hdata => (h.undisturbed hdata).populates
  cases heffect with
  | start => exact hfeed (undisturbed_tryToConnect _ _).feed
  | connected => exact hfeed ((acts_onConnectionEstablished _ _).undisturbed rfl).feed
  | failed => exact Or.inl rfl
  | closed => exact hfeed ((acts_onConnectionClosed _ _ _ _ _).undisturbed rfl).feed
  | read => exact Or.inl rfl
  | message => exact populates_onMsgReceived c _ _ _
  | malformed => exact Or.inl rfl
  | readEnd => exact Or.inl rfl
  | update => exact Or.inl (pushUpdate_initialized globMatch _ _ _)
  | updatesEnd => exact Or.inl rfl
  | timerConLost => exact hacts (acts_onConnectionLost c) rfl
  | timerReconnect => exact hfeed (undisturbed_tryToConnect _ _).feed
  | sigint => exact hfeed (undisturbed_abort c).feed
  | asyncClosed => exact Or.inl rfl
  | async => exact Or.inl rfl
  | command => exact hacts (acts_nextCommand c _ _) rfl
  | commandsEnd => exact Or.inl rfl
  | unwind => exact hacts (acts_unwindRun c) rfl
  | finish => exact Or.inl rfl
  | createTx => exact hfeed (createTx_feed c _ _)
  | use => exact Or.inl rfl
  | discard => exact hfeed (onTx_feed c _ _)
  | release => exact Or.inl rfl
  | submit => exact hfeed (submitTx_feed c _ _ _)
  | close => exact Or.inl rfl
  | stop => exact Or.inl rfl
  | pingRefused => exact Or.inl rfl
  | ping => exact Or.inl rfl
  | fetchRefused => exact Or.inl rfl
  | fetchSessions => exact Or.inl rfl
  | loopPing => exact hacts (acts_loopPing c _) rfl
  | loopFetchSessions => exact hacts (acts_loopFetchSessions c _) rfl
  | pushClosed => exact hacts (acts_pushClosed c _ _) rfl
  | pushCheck => exact Or.inl rfl
  | pushLocked => exact hacts (acts_pushEnded c _ _) rfl

end Populates

end Client

namespace Monitor

/-- The atomic actions. -/
inductive Action
  /-- A thread calls one of the functions. -/
  | call (kind : WaitKind)
  /-- Its first look at the state. -/
  | look (n : ℕ)
  | lock (n : ℕ)
  /-- Its predicate loads `m_state`. -/
  | load (n : ℕ)
  /-- Its predicate ends. -/
  | compare (n : ℕ)
  /-- It releases the mutex and sleeps. -/
  | sleep (n : ℕ)
  /-- Its time is over, or it wakes up for no reason. -/
  | wake (n : ℕ) (timedOut : Bool)
  /-- `process_snapshot_resp` or `process_updates_resp` writes `m_initialized`. -/
  | populate
  /-- The begin of `set_state`. -/
  | setState (state : ClientState)
  | loopLock
  | loopUnlock
  | notifyAll
  | otherLock
  | otherUnlock
  deriving DecidableEq, Repr

/-- Move a waiter that is in the given phases. -/
def move (m : Monitor) (n : ℕ) (f : Waiter → Option (Monitor × WaitPhase)) : Option Monitor :=
  (m.waiters[n]?).bind fun w =>
    (f w).map fun next => { next.1 with waiters := m.waiters.set n { w with phase := next.2 } }

/-- The end of the predicate of a waiter. -/
def conclude (m : Monitor) (kind : WaitKind) (state : ClientState) (timedOut : Bool) :
    Monitor × WaitPhase :=
  match kind.verdict state m.initialized with
  | .again =>
    if timedOut then ({ m with mutex := none }, .returned (some false)) else (m, .sleeping)
  | .done => ({ m with mutex := none }, .returned (some true))
  | .throws => ({ m with mutex := none }, .returned none)

/-- One action. -/
def step (m : Monitor) : Action → Option Monitor
  | .call kind => some { m with waiters := m.waiters ++ [{ kind := kind }] }
  | .look n =>
    m.move n fun w =>
      if w.phase ≠ .entered then none
      else if m.state ≠ .closed then some (m, .locking false)
      else some (m, .returned (if w.kind = .closed then some true else none))
  | .lock n =>
    m.move n fun w =>
      match w.phase with
      | .locking timedOut =>
        if m.mutex = none then some ({ m with mutex := some (.waiter n) }, .loading timedOut)
        else none
      | _ => none
  | .load n =>
    m.move n fun w =>
      match w.phase with
      | .loading timedOut => some (m, .comparing m.state timedOut)
      | _ => none
  | .compare n =>
    m.move n fun w =>
      match w.phase with
      | .comparing state timedOut => some (m.conclude w.kind state timedOut)
      | _ => none
  | .sleep n =>
    m.move n fun w =>
      if w.phase = .sleeping then some ({ m with mutex := none }, .asleep) else none
  | .wake n timedOut =>
    m.move n fun w => if w.phase = .asleep then some (m, .locking timedOut) else none
  | .populate =>
    if m.loop = .idle ∧ (m.state = .loadingSnapshot ∨ m.state = .syncing) then
      some { m with initialized := true, loop := .initializing }
    else none
  | .setState state =>
    if m.loop = .idle ∨ m.loop = .initializing ∧ state = .initialized then
      if m.state = state then some { m with loop := .idle }
      else
        some { m with state := state, loop := if state = .closed then .closing else .notifying }
    else none
  | .loopLock =>
    if m.loop = .closing ∧ m.mutex = none then
      some { m with mutex := some .loop, loop := .clearing }
    else none
  | .loopUnlock =>
    if m.loop = .clearing then some { m with mutex := none, loop := .notifying } else none
  | .notifyAll =>
    if m.loop = .notifying then
      some { m with loop := .idle, waiters := m.waiters.map Waiter.notified }
    else none
  | .otherLock => if m.mutex = none then some { m with mutex := some .other } else none
  | .otherUnlock => if m.mutex = some .other then some { m with mutex := none } else none

/-- The predicate of the waiter would not send it back to sleep. -/
def served (m : Monitor) (w : Waiter) : Bool := w.kind.verdict m.state m.initialized ≠ .again

/-- The waiter has the mutex and is on its way to sleep, although its predicate would be true or
throw by now. -/
def overlooks (m : Monitor) (w : Waiter) : Bool :=
  m.served w &&
    match w.phase with
    | .sleeping => true
    | .comparing state timedOut => !timedOut && w.kind.verdict state m.initialized = .again
    | _ => false

/-- A waiter sleeps although what it awaits has come, and no notification is to follow. -/
def LostWakeUp (m : Monitor) : Prop :=
  ∃ w ∈ m.waiters, w.phase = .asleep ∧ m.served w = true ∧ m.loop = .idle

/-- Nobody overlooks the change that is notified, unless it is that to CLOSED. -/
def notifiesAttentive (m : Monitor) (a : Action) : Prop :=
  a = .notifyAll → m.state ≠ .closed → ∀ w ∈ m.waiters, m.overlooks w = false

instance (m : Monitor) (a : Action) : Decidable (m.notifiesAttentive a) :=
  inferInstanceAs
    (Decidable (a = .notifyAll → m.state ≠ .closed → ∀ w ∈ m.waiters, m.overlooks w = false))

/-- The invariant. -/
structure Watchful (m : Monitor) : Prop where
  owner : ∀ (n : ℕ) (w : Waiter), m.waiters[n]? = some w → w.phase.holds = true →
    m.mutex = some (.waiter n)
  clearing : m.loop = .clearing → m.mutex = some .loop
  initializing : m.loop = .initializing → m.state ≠ .initialized
  /-- What is overlooked or slept through is still to be notified. -/
  pending : ∀ w ∈ m.waiters, (m.overlooks w = true ∨ w.phase = .asleep ∧ m.served w = true) →
    m.loop ≠ .idle
  /-- Once the event loop has had the mutex, nobody overlooks that the client is CLOSED. -/
  barred : m.state = .closed → (m.loop = .clearing ∨ m.loop = .notifying) →
    ∀ w ∈ m.waiters, m.overlooks w = false

section Steps

variable {m m' : Monitor}

/-- What a move of a waiter does. -/
theorem move_eq {n : ℕ} {f : Waiter → Option (Monitor × WaitPhase)} (h : m.move n f = some m') :
    ∃ (w : Waiter) (next : Monitor × WaitPhase), m.waiters[n]? = some w ∧ f w = some next ∧
      m' = { next.1 with waiters := m.waiters.set n { w with phase := next.2 } } := by
  obtain ⟨w, hw, hmove⟩ := Option.bind_eq_some_iff.mp h
  obtain ⟨next, hnext, rfl⟩ := Option.map_eq_some_iff.mp hmove
  exact ⟨w, next, hw, hnext, rfl⟩

/-- A waiter that overlooks something has the mutex. -/
theorem holds_of_overlooks {w : Waiter} (h : m.overlooks w = true) : w.phase.holds = true := by
  unfold overlooks at h
  cases hphase : w.phase <;> simp_all [WaitPhase.holds]

/-- A move of one waiter, which takes or releases the mutex for itself only. -/
theorem Watchful.move (h : Watchful m) {n : ℕ} {w : Waiter} (hw : m.waiters[n]? = some w)
    {mutex : Option Holder} {phase : WaitPhase}
    (hmutex : mutex = m.mutex ∨ m.mutex = none ∨ m.mutex = some (.waiter n))
    (hholds : phase.holds = true → mutex = some (.waiter n))
    (hoverlooks : m.overlooks { w with phase := phase } = true → m.overlooks w = true)
    (hasleep : phase = .asleep → m.served w = true → m.overlooks w = true) :
    Watchful { m with mutex := mutex, waiters := m.waiters.set n { w with phase := phase } } := by
  have hmem := List.mem_of_getElem? hw
  refine ⟨fun k w' hw' hheld => ?_, fun hclearing => ?_, h.initializing, fun w' hw' hmiss => ?_,
    fun hclosed hloop w' hw' => ?_⟩
  · dsimp only at hw' ⊢
    rw [List.getElem?_set] at hw'
    split_ifs at hw' with hk hlength
    · obtain rfl := Option.some.inj hw'
      exact hk ▸ hholds hheld
    · have hold := h.owner k w' hw' hheld
      rcases hmutex with hsame | hfree | hmine
      · exact hsame.trans hold
      · rw [hold] at hfree
        cases hfree
      · rw [hold, Option.some.injEq, Holder.waiter.injEq] at hmine
        exact absurd hmine.symm hk
  · have hold := h.clearing hclearing
    rcases hmutex with hsame | hfree | hmine
    · exact hsame.trans hold
    · rw [hold] at hfree
      cases hfree
    · rw [hold] at hmine
      cases hmine
  · rcases List.mem_or_eq_of_mem_set hw' with hold | rfl
    · exact h.pending w' hold hmiss
    · rcases hmiss with hover | ⟨hphase, hserved⟩
      · exact h.pending w hmem (Or.inl (hoverlooks hover))
      · exact h.pending w hmem (Or.inl (hasleep hphase hserved))
  · rcases List.mem_or_eq_of_mem_set hw' with hold | rfl
    · exact h.barred hclosed hloop w' hold
    · by_contra hover
      have hbarred := h.barred hclosed hloop w hmem
      rw [hoverlooks ((Bool.not_eq_false _).mp hover)] at hbarred
      cases hbarred

/-- A waiter that leaves the mutex, or does not need it, and does not go to sleep. -/
theorem Watchful.leave (h : Watchful m) {n : ℕ} {w : Waiter} (hw : m.waiters[n]? = some w)
    {mutex : Option Holder} {phase : WaitPhase}
    (hmutex : mutex = m.mutex ∨ m.mutex = some (.waiter n)) (hholds : phase.holds = false)
    (hasleep : phase ≠ .asleep) :
    Watchful { m with mutex := mutex, waiters := m.waiters.set n { w with phase := phase } } := by
  refine h.move hw (hmutex.imp_right Or.inr) (by simp [hholds]) (fun hover => ?_)
    (fun hphase => absurd hphase hasleep)
  have hheld : phase.holds = true := holds_of_overlooks hover
  rw [hholds] at hheld
  cases hheld

/-- The end of a predicate: a waiter goes to sleep only if it found nothing, at the state it has
loaded. -/
theorem Watchful.conclude (h : Watchful m) {n : ℕ} {w : Waiter} (hw : m.waiters[n]? = some w)
    {state : ClientState} {timedOut : Bool} (hphase : w.phase = .comparing state timedOut) :
    Watchful { (m.conclude w.kind state timedOut).1 with
      waiters := m.waiters.set n { w with phase := (m.conclude w.kind state timedOut).2 } } := by
  have hheld := h.owner n w hw (by simp [hphase, WaitPhase.holds])
  unfold Monitor.conclude
  cases hverdict : w.kind.verdict state m.initialized with
  | done => exact h.leave hw (Or.inr hheld) rfl (by simp)
  | throws => exact h.leave hw (Or.inr hheld) rfl (by simp)
  | again =>
    cases timedOut with
    | true => exact h.leave hw (Or.inr hheld) rfl (by simp)
    | false =>
      refine h.move hw (Or.inl rfl) (fun _ => hheld) (fun hover => ?_) (by simp)
      have hserved := (Bool.and_eq_true _ _ ▸ hover : m.served w = true ∧ _).1
      simp [overlooks, hphase, hverdict, hserved]

/-- The event loop gets the mutex: nobody is on the way to sleep. -/
theorem Watchful.overlooks_of_free (h : Watchful m) (hfree : ∀ n, m.mutex ≠ some (.waiter n)) :
    ∀ w ∈ m.waiters, m.overlooks w = false := by
  intro w hw
  obtain ⟨n, hn⟩ := List.getElem?_of_mem hw
  by_contra hover
  exact hfree n (h.owner n w hn (holds_of_overlooks ((Bool.not_eq_false _).mp hover)))

/-- The waiters after a notification. -/
theorem Watchful.notifyAll (h : Watchful m) (hloop : m.loop = .notifying)
    (hguard : m.notifiesAttentive .notifyAll) :
    Watchful { m with loop := .idle, waiters := m.waiters.map Waiter.notified } := by
  have hattentive : ∀ w ∈ m.waiters, m.overlooks w = false := by
    by_cases hclosed : m.state = .closed
    · exact h.barred hclosed (Or.inr hloop)
    · exact hguard rfl hclosed
  refine ⟨fun n w hw hheld => ?_, by simp, by simp, fun w hw hmiss => ?_, by simp⟩
  · dsimp only at hw
    rw [List.getElem?_map] at hw
    obtain ⟨old, hold, rfl⟩ := Option.map_eq_some_iff.mp hw
    unfold Waiter.notified at hheld
    split_ifs at hheld with hphase
    · cases hheld
    · exact h.owner n old hold hheld
  · obtain ⟨old, hold, rfl⟩ := List.mem_map.mp hw
    unfold Waiter.notified at hmiss
    split_ifs at hmiss with hphase
    · simp [overlooks] at hmiss
    · rcases hmiss with hover | hasleep
      · have hnot : m.overlooks old = true := hover
        rw [hattentive old hold] at hnot
        cases hnot
      · exact absurd hasleep.1 hphase

/-- The event loop writes, and is to notify. -/
theorem Watchful.write (h : Watchful m) {state : ClientState} {initialized : Bool}
    {loop : LoopPhase} (hclearing : loop ≠ .clearing) (hidle : loop ≠ .idle)
    (hinitializing : loop = .initializing → state ≠ .initialized)
    (hnotifying : loop = .notifying → state ≠ .closed) :
    Watchful { m with state := state, initialized := initialized, loop := loop } :=
  ⟨h.owner, fun h' => absurd h' hclearing, hinitializing, fun _ _ _ => hidle,
    fun hclosed h' => by
      rcases h' with h' | h'
      · exact absurd h' hclearing
      · exact absurd hclosed (hnotifying h')⟩

/-- A new waiter. -/
theorem Watchful.call (h : Watchful m) (kind : WaitKind) :
    Watchful { m with waiters := m.waiters ++ [{ kind := kind }] } := by
  have hentered : ∀ w ∈ [({ kind := kind } : Waiter)], w.phase = .entered := by simp
  refine ⟨fun n w hw hheld => ?_, h.clearing, h.initializing, fun w hw hmiss => ?_,
    fun hclosed hloop w hw => ?_⟩
  · dsimp only at hw
    by_cases hlt : n < m.waiters.length
    · rw [List.getElem?_append_left hlt] at hw
      exact h.owner n w hw hheld
    · rw [List.getElem?_append_right (by omega)] at hw
      rw [hentered w (List.mem_of_getElem? hw)] at hheld
      cases hheld
  · rcases List.mem_append.mp hw with hold | hnew
    · exact h.pending w hold hmiss
    · have hphase := hentered w hnew
      rcases hmiss with hover | hasleep
      · simp [overlooks, hphase] at hover
      · simp [hphase] at hasleep
  · rcases List.mem_append.mp hw with hold | hnew
    · exact h.barred hclosed hloop w hold
    · simp [overlooks, hentered w hnew]

/-- Another thread takes or releases the mutex. -/
theorem Watchful.exchange (h : Watchful m) {mutex : Option Holder}
    (hwaiter : ∀ n, m.mutex ≠ some (.waiter n)) (hloop : m.mutex ≠ some .loop) :
    Watchful { m with mutex := mutex } :=
  ⟨fun n w hw hheld => absurd (h.owner n w hw hheld) (hwaiter n),
    fun hclearing => absurd (h.clearing hclearing) hloop, h.initializing, h.pending, h.barred⟩

/-- Every action keeps the invariant. -/
theorem watchful_step {a : Action} (h : Watchful m) (hguard : m.notifiesAttentive a)
    (hstep : m.step a = some m') : Watchful m' := by
  cases a with
  | call kind =>
    obtain rfl := Option.some.inj hstep
    exact h.call kind
  | look n =>
    obtain ⟨w, next, hw, hnext, rfl⟩ := move_eq hstep
    split at hnext
    · cases hnext
    · split at hnext
      · obtain rfl := Option.some.inj hnext
        exact h.leave hw (Or.inl rfl) rfl (by simp)
      · obtain rfl := Option.some.inj hnext
        exact h.leave hw (Or.inl rfl) rfl (by simp)
  | lock n =>
    obtain ⟨w, next, hw, hnext, rfl⟩ := move_eq hstep
    split at hnext
    · split_ifs at hnext with hfree
      obtain rfl := Option.some.inj hnext
      exact h.move hw (Or.inr (Or.inl hfree)) (fun _ => rfl) (by simp [overlooks]) (by simp)
    · cases hnext
  | load n =>
    obtain ⟨w, next, hw, hnext, rfl⟩ := move_eq hstep
    split at hnext
    · next timedOut hphase =>
      obtain rfl := Option.some.inj hnext
      have hheld := h.owner n w hw (by simp [hphase, WaitPhase.holds])
      refine h.move hw (Or.inl rfl) (fun _ => hheld) ?_ (by simp)
      -- The state just loaded is the current one.
      simp only [overlooks, served, Bool.and_eq_true, decide_eq_true_eq]
      exact fun hover => absurd hover.2.2 hover.1
    · cases hnext
  | compare n =>
    obtain ⟨w, next, hw, hnext, rfl⟩ := move_eq hstep
    split at hnext
    · next state timedOut hphase =>
      obtain rfl := Option.some.inj hnext
      exact h.conclude hw hphase
    · cases hnext
  | sleep n =>
    obtain ⟨w, next, hw, hnext, rfl⟩ := move_eq hstep
    split_ifs at hnext with hphase
    obtain rfl := Option.some.inj hnext
    have hheld := h.owner n w hw (by simp [hphase, WaitPhase.holds])
    refine h.move hw (Or.inr (Or.inr hheld)) (by simp [WaitPhase.holds]) (by simp [overlooks]) ?_
    exact fun _ hserved => by simp [overlooks, hphase, hserved]
  | wake n timedOut =>
    obtain ⟨w, next, hw, hnext, rfl⟩ := move_eq hstep
    split_ifs at hnext with hphase
    obtain rfl := Option.some.inj hnext
    exact h.leave hw (Or.inl rfl) rfl (by simp)
  | populate =>
    simp only [step] at hstep
    split_ifs at hstep with hready
    obtain rfl := Option.some.inj hstep
    refine h.write (by simp) (by simp) (fun _ hstate => ?_) (by simp)
    rcases hready.2 with h' | h' <;> simp [h'] at hstate
  | setState state =>
    simp only [step] at hstep
    split_ifs at hstep with hready hsame hclosed
    · obtain rfl := Option.some.inj hstep
      rcases hready with hidle | ⟨hinitializing, rfl⟩
      · rw [← hidle]
        exact h
      · exact absurd hsame (h.initializing hinitializing)
    · obtain rfl := Option.some.inj hstep
      exact h.write (by simp) (by simp) (by simp) (by simp)
    · obtain rfl := Option.some.inj hstep
      exact h.write (by simp) (by simp) (by simp) fun _ => hclosed
  | loopLock =>
    simp only [step] at hstep
    split_ifs at hstep with hfree
    obtain rfl := Option.some.inj hstep
    refine ⟨fun n w hw hheld => ?_, fun _ => rfl, by simp, by simp, fun _ _ => ?_⟩
    · have hmine := h.owner n w hw hheld
      rw [hfree.2] at hmine
      cases hmine
    · exact h.overlooks_of_free (by simp [hfree.2])
  | loopUnlock =>
    simp only [step] at hstep
    split_ifs at hstep with hclearing
    obtain rfl := Option.some.inj hstep
    refine ⟨fun n w hw hheld => ?_, by simp, by simp, by simp, fun hclosed _ => ?_⟩
    · have hmine := h.owner n w hw hheld
      rw [h.clearing hclearing] at hmine
      cases hmine
    · exact h.barred hclosed (Or.inl hclearing)
  | notifyAll =>
    simp only [step] at hstep
    split_ifs at hstep with hloop
    obtain rfl := Option.some.inj hstep
    exact h.notifyAll hloop hguard
  | otherLock =>
    simp only [step] at hstep
    split_ifs at hstep with hfree
    obtain rfl := Option.some.inj hstep
    exact h.exchange (by simp [hfree]) (by simp [hfree])
  | otherUnlock =>
    simp only [step] at hstep
    split_ifs at hstep with hother
    obtain rfl := Option.some.inj hstep
    exact h.exchange (by simp [hother]) (by simp [hother])

end Steps

/-- The monitor with the event loop between two calls, and a free mutex. -/
def AtRest (m : Monitor) (c : Client) : Prop :=
  m.state = c.state ∧ m.initialized = c.initialized ∧ m.loop = .idle ∧ m.mutex = none

section Loop

variable {m : Monitor} {c c' : Client}

/-- `set_state`, undisturbed. -/
theorem run_setState (hloop : m.loop = .idle) (hmutex : m.mutex = none) (state : ClientState) :
    ∃ actions m', Run step anyStep m actions m' ∧ m'.state = state ∧
      m'.initialized = m.initialized ∧ m'.loop = .idle ∧ m'.mutex = none := by
  have hnotify : step { m with state := state, loop := .notifying } .notifyAll =
      some { m with state := state, loop := .idle, waiters := m.waiters.map Waiter.notified } := by
    simp [step]
  by_cases hsame : m.state = state
  · exact ⟨[], m, .nil m, hsame, rfl, hloop, hmutex⟩
  · by_cases hclosed : state = .closed
    · have hset : m.step (.setState state) =
          some { m with state := state, loop := .closing } := by
        subst hclosed
        simp [step, hloop, hsame]
      have hlock : step { m with state := state, loop := .closing } .loopLock =
          some { m with state := state, loop := .clearing, mutex := some .loop } := by
        simp [step, hmutex]
      have hunlock :
          step { m with state := state, loop := .clearing, mutex := some .loop } .loopUnlock =
            some { m with state := state, loop := .notifying } := by
        simp [step, hmutex]
      exact ⟨_, _, .cons trivial hset (.cons trivial hlock (.cons trivial hunlock
        (.cons trivial hnotify (.nil _)))), rfl, rfl, rfl, hmutex⟩
    · have hset : m.step (.setState state) =
          some { m with state := state, loop := .notifying } := by
        simp [step, hloop, hsame, hclosed]
      exact ⟨_, _, .cons trivial hset (.cons trivial hnotify (.nil _)), rfl, rfl, rfl, hmutex⟩

/-- The writes of `m_initialized` and INITIALIZED, undisturbed. -/
theorem run_populate (hloop : m.loop = .idle) (hmutex : m.mutex = none)
    (hstate : m.state = .loadingSnapshot ∨ m.state = .syncing) :
    ∃ actions m', Run step anyStep m actions m' ∧ m'.initialized = true ∧ m'.loop = .idle ∧
      m'.mutex = none := by
  have hdifferent : m.state ≠ .initialized := by
    rcases hstate with h | h <;> simp [h]
  have hpopulate : m.step .populate =
      some { m with initialized := true, loop := .initializing } := by
    simp [step, hloop, hstate]
  have hset : step { m with initialized := true, loop := .initializing } (.setState .initialized) =
      some { m with initialized := true, state := .initialized, loop := .notifying } := by
    simp [step, hdifferent]
  have hnotify : step { m with initialized := true, state := .initialized, loop := .notifying }
      .notifyAll = some { m with
        initialized := true, state := .initialized, loop := .idle,
        waiters := m.waiters.map Waiter.notified } := by
    simp [step]
  exact ⟨_, _, .cons trivial hpopulate (.cons trivial hset (.cons trivial hnotify (.nil _))),
    rfl, rfl, hmutex⟩

/-- Every step of the client is made of such calls: what the client does, the event loop of the
monitor can do. -/
theorem follows_client {globMatch : Glob} {e : Event} (hrest : m.AtRest c)
    (hstep : c.step globMatch e = some c') :
    ∃ actions m', Run step anyStep m actions m' ∧ m'.AtRest c' := by
  obtain ⟨hstate, hinitialized, hloop, hmutex⟩ := hrest
  obtain ⟨-, c₁, heffect, rfl⟩ := Client.step_effect hstep
  rcases Client.populates_effect heffect with hsame | ⟨hready, hpopulated⟩
  · obtain ⟨actions, m', hrun, hstate', hinitialized', hloop', hmutex'⟩ :=
      run_setState hloop hmutex c₁.state
    exact ⟨actions, m', hrun, hstate', hinitialized'.trans (hinitialized.trans hsame.symm), hloop',
      hmutex'⟩
  · obtain ⟨first, mid, hfirst, hpopulated', hloop', hmutex'⟩ :=
      run_populate hloop hmutex (hstate ▸ hready)
    obtain ⟨second, m', hsecond, hstate', hinitialized', hloop'', hmutex''⟩ :=
      run_setState hloop' hmutex' c₁.state
    exact ⟨first ++ second, m', hfirst.append hsecond, hstate',
      (hinitialized'.trans hpopulated').trans hpopulated.symm, hloop'', hmutex''⟩

end Loop

/-- No wake-up is lost as long as nobody overlooks a change, other than that to CLOSED, when it is
notified. -/
theorem no_lost_wake_up {actions : List Action} {m : Monitor}
    (hrun : Run step notifiesAttentive {} actions m) : ¬m.LostWakeUp := by
  have hwatchful : Watchful m :=
    hrun.invariant (fun _ _ _ hguard hstep h => watchful_step h hguard hstep)
      ⟨by simp, by simp, by simp, by simp, by simp⟩
  rintro ⟨w, hw, hasleep, hserved, hidle⟩
  exact hwatchful.pending w hw (Or.inr ⟨hasleep, hserved⟩) hidle

/-- A login without a snapshot, up to the request for updates. -/
def connecting : List Action :=
  [.setState .connecting, .notifyAll, .setState .authenticated, .notifyAll, .setState .syncing,
    .notifyAll]

/-- A thread that sleeps before the client becomes SYNCED is woken up, and its wait ends. -/
theorem no_lost_wake_up_synced : ∃ (actions : List Action) (m : Monitor),
    Run step notifiesAttentive {} actions m ∧ m.waiters = [⟨.synced, .returned (some true)⟩] ∧
      ¬m.LostWakeUp := by
  have hexec : (execute step (fun m a => decide (m.notifiesAttentive a)) {}
      (connecting ++ [.call .synced, .look 0, .lock 0, .load 0, .compare 0, .sleep 0,
        .populate, .setState .initialized, .notifyAll, .setState .synced, .notifyAll, .lock 0,
        .load 0, .compare 0])).map
      (fun m => decide (m.waiters = [⟨.synced, .returned (some true)⟩])) = some true := by
    decide
  obtain ⟨m, hrun, hend⟩ := exists_run_of_execute (fun _ _ hpass => of_decide_eq_true hpass) hexec
  exact ⟨_, m, hrun, of_decide_eq_true hend, no_lost_wake_up hrun⟩

/-- The client becomes SYNCED, and notifies, between the look of a waiter at its state and the
sleep. -/
theorem notified_before_sleep :
    ¬∀ (actions : List Action) (m : Monitor), Run step anyStep {} actions m → ¬m.LostWakeUp := by
  intro h
  have hexec : (execute step (fun _ _ => true) {}
      (connecting ++ [.populate, .setState .initialized, .notifyAll, .call .synced, .look 0,
        .lock 0, .load 0, .compare 0, .setState .synced, .notifyAll, .sleep 0])).map
      (fun m => decide (m.waiters = [⟨.synced, .asleep⟩] ∧ m.state = .synced ∧ m.loop = .idle)) =
      some true := by
    decide
  obtain ⟨m, hrun, hend⟩ := exists_run_of_execute (fun _ _ _ => trivial) hexec
  obtain ⟨hwaiters, hstate, hidle⟩ := of_decide_eq_true hend
  exact h _ m hrun ⟨⟨.synced, .asleep⟩, by simp [hwaiters], rfl,
    by simp [served, hstate, WaitKind.verdict], hidle⟩

end Monitor

end Nplex
