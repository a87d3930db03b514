import Nplex.Client.Responses

/-!
# The messages after a disconnection

Disconnecting is asynchronous. Until the close callback runs, `m_con` still points to the
connection, and `cb_tcp_read` goes on with the rest of its input: nothing in it looks at
`uv_is_closing`. A message of a connection that is closing is therefore dropped only when its
handler would have dropped it anyway.
-/

namespace Nplex

open Nplex.Common

namespace Client

/-- Nothing changed but the flags of the connections: the store, the transactions, the state, the
session, the queues and the calls of the reactor are as they were, and the event loop goes on
with the input. -/
def Ignores (c c' : Client) : Prop := c' = { c with connections := c'.connections }

/-- A message of a connection that was disconnected is ignored. -/
def dropsLate (globMatch : Glob) (c : Client) (e : Event) : Prop :=
  match e with
  | .message _ _ => ∀ i (con : Connection), c.activity = .reading i →
      c.connections[i]? = some con → con.closing = true →
        ∀ c', c.step globMatch e = some c' → c.Ignores c'
  | _ => True

/-- The message is one that its handler acts on, on the connection of the session. -/
def handles (c : Client) : ServerMsg → Prop
  | .submitResponse resp => ∃ r ∈ c.requests.head?, r.cid ≤ resp.cid
  | .snapshotResponse resp =>
    c.state = .loadingSnapshot ∧ resp.cid = c.dataCid ∧ resp.accepted = true
  | .updatesResponse resp => c.state = .syncing ∧ resp.cid = c.dataCid ∧ resp.accepted = true ∧
      (c.rev0 = 0 ∨ c.store.rev = resp.crev)
  | .updatesPush resp => resp.cid = c.dataCid ∧ resp.updates ≠ []
  | .pingResponse cid | .sessionsResponse cid _ => ∃ r ∈ c.requests.head?, r.cid = cid
  | .sessionsPush cid complete =>
    cid ≠ 0 ∧ cid = c.sessionsCid ∧ complete = true ∧ c.hasReactor = true
  | .loginResponse _ | .keepalivePush | .unexpected => False

/-- The message is acted on when it comes from the connection: one of the session that its handler
acts on, or a LOGIN_RESPONSE that authorizes the user while there is no session. -/
def actsOn (c : Client) (i : ℕ) : Option ServerMsg → Prop
  | none => False
  | some (.loginResponse resp) =>
    c.con = none ∧ resp.code = .authorized ∧ resp.permissions.isEmpty = false
  | some msg => c.con = some i ∧ c.handles msg

/-- No message of a connection that was disconnected is one that is acted on. -/
def lateIsIdle (c : Client) : Event → Prop
  | .message msg _ => ∀ i (con : Connection), c.activity = .reading i →
      c.connections[i]? = some con → con.closing = true → ¬c.actsOn i msg
  | _ => True

/-- The transactions without references have been destroyed. -/
def Reaped (c : Client) : Prop := c.reap = c

section Reaping

variable {globMatch : Glob} {c c' : Client}

/-- Discarding twice is discarding once. -/
theorem discard_discard (tx : Transaction) : tx.discard.discard = tx.discard := by
  have hdone : ∀ {tx : Transaction}, tx.state.isClosed = true → tx.promise.result ≠ none →
      tx.discard = tx := by
    intro tx hclosed hresult
    obtain ⟨o, ho⟩ := Option.ne_none_iff_exists'.mp hresult
    simp [Transaction.discard, Transaction.setState, hclosed, Promise.set, ho]
  apply hdone
  · exact Transaction.discard_closed tx
  · unfold Transaction.discard Promise.set
    dsimp only
    cases hresult : (tx.setState .discarded).promise.result with
    | none => simp
    | some o => simp [hresult]

/-- The destructors run once. -/
theorem reaped_reap (c : Client) : c.reap.Reaped := by
  have htxs : c.reap.txs.mapIdx (fun t (cell : TxCell) =>
      if cell.registered || c.isUsed t cell then cell else { cell with tx := cell.tx.discard }) =
      c.reap.txs := by
    apply List.ext_getElem?
    intro t
    simp only [reap, List.getElem?_mapIdx]
    cases c.txs[t]? with
    | none => rfl
    | some cell =>
      simp only [Option.map_some, Option.some.injEq]
      by_cases hkept : (cell.registered || c.isUsed t cell) = true
      · simp [hkept]
      · have hused : c.isUsed t { cell with tx := cell.tx.discard } = c.isUsed t cell := rfl
        simp [hkept, hused, discard_discard]
  calc c.reap.reap
    _ = { c.reap with
          txs := c.reap.txs.mapIdx fun t (cell : TxCell) =>
            if cell.registered || c.isUsed t cell then cell
            else { cell with tx := cell.tx.discard } } := rfl
    _ = { c.reap with txs := c.reap.txs } := by rw [htxs]
    _ = c.reap := rfl

/-- Every step ends with the transactions without references destroyed. -/
theorem reaped_step {e : Event} (h : c.step globMatch e = some c') : c'.Reaped := by
  unfold step at h
  split at h
  · cases h
  · obtain ⟨c₁, -, rfl⟩ := Option.map_eq_some_iff.mp h
    exact reaped_reap c₁

/-- A change of the connections is ignored. -/
theorem ignores_connections (h : c.Reaped) (connections : List Connection) :
    c.Ignores (reap { c with connections := connections }) := by
  have hreap : reap { c with connections := connections } =
      { c.reap with connections := connections } := rfl
  unfold Ignores
  rw [hreap, h]

/-- Disconnecting the session is to ignore the message. -/
theorem ignores_disconnectCon (h : c.Reaped) (cause : DisconnectCause) :
    c.Ignores (c.disconnectCon cause).reap := by
  unfold disconnectCon
  split
  · exact ignores_connections h c.connections
  · exact ignores_connections h _

/-- What is ignored leaves the other fields as they are. -/
theorem Ignores.fields (h : c.Ignores c'.reap) : c'.state = c.state ∧ c'.requests = c.requests ∧
    c'.calls = c.calls ∧ c'.activity = c.activity ∧ c'.correlation = c.correlation := by
  have hstate := congrArg Client.state h
  have hrequests := congrArg Client.requests h
  have hcalls := congrArg Client.calls h
  have hactivity := congrArg Client.activity h
  have hcorrelation := congrArg Client.correlation h
  exact ⟨hstate, hrequests, hcalls, hactivity, hcorrelation⟩

end Reaping

section Requests

variable {c : Client}

/-- Disconnecting leaves the requests alone. -/
@[simp] theorem disconnectCon_requests (c : Client) (cause : DisconnectCause) :
    (c.disconnectCon cause).requests = c.requests :=
  congrArg Ledger.requests ((acts_disconnectCon c cause).ledger rfl)

/-- So does a call of the reactor. -/
@[simp] theorem call_requests (c : Client) (r : ReactorCall) : (c.call r).requests = c.requests :=
  (congrArg Client.requests (call_fields c r)).trans rfl

/-- The requests left by the response to a submit. -/
theorem processSubmitResp_requests (c : Client) (resp : SubmitResponse) :
    (c.processSubmitResp resp).requests =
      match c.requests.dropWhile fun r => r.cid < resp.cid with
      | [] => []
      | r :: rest => if r.cid ≠ resp.cid then r :: rest else rest := by
  unfold processSubmitResp
  cases c.requests.dropWhile fun r => r.cid < resp.cid with
  | nil => rfl
  | cons r rest =>
    dsimp only
    split
    · rfl
    · split
      · unfold andThen
        split
        · simp
        · split <;> simp
      · rfl
      · rfl

/-- The response to a submit is ignored unless some request waits for it. -/
theorem ignores_processSubmitResp (h : c.Reaped) (resp : SubmitResponse) :
    c.Ignores (c.processSubmitResp resp).reap ↔ ¬c.handles (.submitResponse resp) := by
  unfold handles
  cases hrequests : c.requests with
  | nil =>
    have hsame : c.processSubmitResp resp = { c with requests := [] } := by
      simp [processSubmitResp, hrequests]
    refine iff_of_true ?_ (by simp)
    rw [hsame, ← hrequests]
    exact ignores_connections h c.connections
  | cons r rest =>
    have hsuffix : ∀ {l : List Request}, l.length ≤ rest.length → l ≠ r :: rest := by
      rintro l hlength rfl
      simp at hlength
    rcases lt_trichotomy r.cid resp.cid with hlt | heq | hgt
    · refine iff_of_false (fun hignores => ?_) (by simp [hlt.le])
      have hleft := hignores.fields.2.1
      rw [processSubmitResp_requests, hrequests, List.dropWhile_cons_of_pos (by simpa using hlt)]
        at hleft
      have hlength := (List.dropWhile_suffix (p := fun r : Request => r.cid < resp.cid)
        (l := rest)).length_le
      split at hleft
      · exact hsuffix (Nat.zero_le _) hleft
      · next r' rest' hcons =>
        rw [hcons] at hlength
        split_ifs at hleft
        · exact hsuffix hlength hleft
        · exact hsuffix (by simp at hlength; omega) hleft
    · refine iff_of_false (fun hignores => ?_) (by simp [heq])
      have hleft := hignores.fields.2.1
      rw [processSubmitResp_requests, hrequests, List.dropWhile_cons_of_neg (by simp [heq])] at hleft
      simp [heq] at hleft
    · have hsame : c.processSubmitResp resp = { c with requests := r :: rest } := by
        simp [processSubmitResp, hrequests, hgt.ne', not_lt.mpr hgt.le]
      refine iff_of_true ?_ (by simpa using hgt)
      rw [hsame, ← hrequests]
      exact ignores_connections h c.connections

/-- The response to a ping is ignored unless it answers the front of the queue. -/
theorem ignores_processPingResp (h : c.Reaped) (cid : ℕ) :
    c.Ignores (c.processPingResp cid).reap ↔ ¬c.handles (.pingResponse cid) := by
  unfold processPingResp handles
  split
  · next hnil => exact iff_of_true (ignores_connections h c.connections) (by simp [hnil])
  · next r rest hcons =>
    by_cases hcid : r.cid = cid
    · rw [if_neg (by simpa using hcid)]
      refine iff_of_false (fun hignores => ?_) (by simp [hcons, hcid])
      have hleft := hignores.fields.2.1
      cases hkind : r.kind <;> simp [hkind, hcons, reply, crash] at hleft
    · rw [if_pos hcid]
      exact iff_of_true (ignores_connections h c.connections) (by simp [hcons, hcid])

/-- So is the response about sessions. -/
theorem ignores_processSessionsResp (h : c.Reaped) (cid : ℕ) (complete : Bool) :
    c.Ignores (c.processSessionsResp cid complete).reap ↔
      ¬c.handles (.sessionsResponse cid complete) := by
  unfold processSessionsResp handles
  split
  · next hnil => exact iff_of_true (ignores_connections h c.connections) (by simp [hnil])
  · next r rest hcons =>
    by_cases hcid : r.cid = cid
    · rw [if_neg (by simpa using hcid)]
      refine iff_of_false (fun hignores => ?_) (by simp [hcons, hcid])
      have hleft := hignores.fields.2.1
      cases hkind : r.kind with
      | sessions ticket enableStream =>
        simp only [hkind] at hleft
        split at hleft <;> simp [hcons, reply] at hleft
      | submit t force => simp [hkind, hcons] at hleft
      | ping ticket payload => simp [hkind, hcons] at hleft
    · rw [if_pos hcid]
      exact iff_of_true (ignores_connections h c.connections) (by simp [hcons, hcid])

end Requests

section Session

variable {c : Client}

/-- Setting a state leaves the store alone. -/
theorem setState_store (c : Client) (s : ClientState) : (c.setState s).store = c.store :=
  (congrArg Client.store (setState_fields c s)).trans rfl

/-- It draws no number. -/
theorem setState_correlation (c : Client) (s : ClientState) :
    (c.setState s).correlation = c.correlation :=
  (congrArg Client.correlation (setState_fields c s)).trans rfl

/-- A push about sessions is ignored unless they were asked for. -/
theorem ignores_processSessionsPush (h : c.Reaped) (cid : ℕ) (complete : Bool) :
    c.Ignores (c.processSessionsPush cid complete).reap ↔ ¬c.handles (.sessionsPush cid complete) := by
  unfold processSessionsPush
  simp only [handles]
  split
  · next hcid =>
    refine iff_of_true (ignores_disconnectCon h _) fun hhandles => ?_
    rcases hcid with hzero | hother
    · exact hhandles.1 hzero
    · exact hother hhandles.2.1
  · next hcid =>
    push Not at hcid
    split
    · next hcomplete =>
      exact iff_of_true (ignores_disconnectCon h _) (by simp_all)
    · next hcomplete =>
      have hcomplete : complete = true := by simpa using hcomplete
      unfold call
      cases hreactor : c.hasReactor with
      | true =>
        refine iff_of_false (fun hignores => ?_) (not_not.mpr ⟨hcid.1, hcid.2, hcomplete, rfl⟩)
        have hcalls := hignores.fields.2.2.1
        simp at hcalls
      | false => exact iff_of_true (ignores_connections h c.connections) (by simp)

/-- A push of updates is ignored unless they were asked for. -/
theorem ignores_processUpdatesPush (h : c.Reaped) {i : ℕ} (hreading : c.activity = .reading i)
    (resp : UpdatesPush) :
    c.Ignores (c.processUpdatesPush i resp).reap ↔ ¬c.handles (.updatesPush resp) := by
  unfold processUpdatesPush
  simp only [handles]
  split
  · next hcid => exact iff_of_true (ignores_disconnectCon h _) fun hhandles => hcid hhandles.1
  · next hcid =>
    split
    · next hnil =>
      exact iff_of_true (ignores_connections h c.connections) fun hhandles => hhandles.2 hnil
    · next hne =>
      refine iff_of_false (fun hignores => ?_) (not_not.mpr ⟨not_not.mp hcid, hne⟩)
      have hactivity := hignores.fields.2.2.2.1
      rw [hreading] at hactivity
      cases hactivity

/-- The response about the updates is ignored unless they were asked for. -/
theorem ignores_processUpdatesResp (h : c.Reaped) (resp : UpdatesResponse) :
    c.Ignores (c.processUpdatesResp resp).reap ↔ ¬c.handles (.updatesResponse resp) := by
  unfold processUpdatesResp
  simp only [handles]
  by_cases hunexpected : c.state ≠ .syncing ∨ resp.cid ≠ c.dataCid
  · rw [if_pos hunexpected]
    refine iff_of_true (ignores_disconnectCon h _) fun hhandles => ?_
    rcases hunexpected with hstate | hcid
    · exact hstate hhandles.1
    · exact hcid hhandles.2.1
  · rw [if_neg hunexpected]
    push Not at hunexpected
    obtain ⟨hsyncing, hcid⟩ := hunexpected
    cases haccepted : resp.accepted with
    | false => exact iff_of_true (ignores_disconnectCon h _) (by simp)
    | true =>
      simp only [Bool.not_true, Bool.false_eq_true, if_false]
      have hsynced : ∀ c' : Client, ¬c.Ignores (c'.setState .synced).reap := by
        intro c' hignores
        have hstate : (c'.setState .synced).state = c.state := hignores.fields.1
        rw [setState_state, hsyncing] at hstate
        cases hstate
      unfold installRev
      by_cases hrev0 : c.rev0 = 0
      · simp only [hrev0, setState_store, if_true]
        exact iff_of_false (hsynced _) (by simp [hsyncing, hcid])
      · simp only [hrev0, if_false]
        by_cases hrev : c.store.rev = resp.crev
        · rw [if_pos hrev]
          exact iff_of_false (hsynced _) (by simp [hsyncing, hcid, hrev])
        · rw [if_neg hrev]
          exact iff_of_true (ignores_connections h c.connections) (by simp [hrev])

/-- The client that asks for updates is SYNCING. -/
theorem requestUpdates_state (c : Client) (rev : ℕ) : (c.requestUpdates rev).state = .syncing :=
  (state_of_link (send_link _ _)).trans (setState_state c .syncing)

/-- An aborted client is CLOSED. -/
theorem abort_state (c : Client) : c.abort.state = .closed := by
  unfold abort
  split
  · next hclosed => exact isClosed_eq_true.mp hclosed
  · exact setState_state _ _

/-- The response about the snapshot is ignored unless it was asked for. -/
theorem ignores_processSnapshotResp (h : c.Reaped) (hgoes : c.broken = false)
    (resp : SnapshotResponse) (throws : Bool) :
    c.Ignores (c.processSnapshotResp resp throws).reap ↔ ¬c.handles (.snapshotResponse resp) := by
  unfold processSnapshotResp
  simp only [handles]
  by_cases hunexpected : c.state ≠ .loadingSnapshot ∨ resp.cid ≠ c.dataCid
  · rw [if_pos hunexpected]
    refine iff_of_true (ignores_disconnectCon h _) fun hhandles => ?_
    rcases hunexpected with hstate | hcid
    · exact hstate hhandles.1
    · exact hcid hhandles.2.1
  · rw [if_neg hunexpected]
    push Not at hunexpected
    obtain ⟨hloading, hcid⟩ := hunexpected
    cases haccepted : resp.accepted with
    | false => exact iff_of_true (ignores_disconnectCon h _) (by simp)
    | true =>
      simp only [Bool.not_true, Bool.false_eq_true, if_false]
      refine iff_of_false (fun hignores => ?_) (by simp [hloading, hcid])
      have hstate := hignores.fields.1
      have hactivity := hignores.fields.2.2.2.1
      unfold andThen at hstate hactivity
      split at hactivity
      · next hbroken =>
        have hsame : (c.loadSnapshot resp.snapshot).activity = c.activity := hactivity
        rw [broken, hsame] at hbroken
        rw [broken, hbroken] at hgoes
        cases hgoes
      · next hbroken =>
        rw [if_neg hbroken, hloading] at hstate
        dsimp only at hstate
        split at hstate
        · have hclosed : (abort (((c.loadSnapshot resp.snapshot).call .initialData).disconnectCon
              .closedByLocal)).state = .loadingSnapshot := hstate
          rw [abort_state] at hclosed
          cases hclosed
        · have hsyncing : (finishSnapshot ((c.loadSnapshot resp.snapshot).call .initialData)).state =
              .loadingSnapshot := hstate
          rw [finishSnapshot, requestUpdates_state] at hsyncing
          cases hsyncing

/-- Sending draws no number. -/
theorem send_correlation (c : Client) (msg : ClientMsg) : (c.send msg).correlation = c.correlation :=
  (congrArg Client.correlation (send_fields c msg)).trans rfl

/-- Nor does aborting. -/
theorem abort_correlation (c : Client) : c.abort.correlation = c.correlation :=
  (congrArg Client.correlation (abort_fields c)).trans rfl

/-- A login that is accepted asks for the data, under a new correlation id. -/
theorem startSession_correlation (c : Client) (resp : LoginResponse) :
    (c.startSession resp).correlation = c.correlation + 1 := by
  have htimer : (c.startTimerConLost resp.keepalive).correlation = c.correlation :=
    (congrArg Client.correlation (startTimerConLost_fields c _)).trans rfl
  have hothers : ∀ con cause, ((c.startTimerConLost resp.keepalive).disconnectOthers con
      cause).correlation = c.correlation := fun _ _ => htimer
  have hupdates : ∀ (c : Client) rev, (c.requestUpdates rev).correlation = c.correlation + 1 := by
    intro c rev
    unfold requestUpdates
    dsimp only
    rw [send_correlation]
    exact congrArg (· + 1) (setState_correlation c .syncing)
  have hsnapshot : ∀ (c : Client) rev, (c.requestSnapshot rev).correlation = c.correlation + 1 := by
    intro c rev
    unfold requestSnapshot
    dsimp only
    rw [send_correlation]
    exact congrArg (· + 1) (setState_correlation c .loadingSnapshot)
  unfold startSession
  dsimp only
  split
  · rw [hupdates, hothers]
  · split
    · rw [hupdates, hothers]
    · rw [hsnapshot, hothers]

/-- The response to a login is ignored unless it starts the session. -/
theorem ignores_processLoginResp (h : c.Reaped) (i : ℕ) (resp : LoginResponse) (throws : Bool) :
    c.Ignores (c.processLoginResp i resp throws).reap ↔ ¬c.actsOn i (some (.loginResponse resp)) := by
  unfold processLoginResp
  simp only [actsOn]
  by_cases hcon : c.con = none
  · rw [if_neg (by simpa using hcon)]
    by_cases hcode : resp.code = .authorized
    · rw [if_neg (by simpa using hcode)]
      cases hpermissions : resp.permissions.isEmpty with
      | true => exact iff_of_true (ignores_connections h _) (by simp)
      | false =>
        simp only [Bool.false_eq_true, if_false]
        refine iff_of_false (fun hignores => ?_) (by simp [hcon, hcode])
        have haccepted : (c.acceptLogin i resp).correlation = c.correlation :=
          (congrArg Client.correlation (acceptLogin_fields c i resp)).trans rfl
        have hcorrelation := hignores.fields.2.2.2.2
        rw [startSession_correlation] at hcorrelation
        split at hcorrelation
        · rw [abort_correlation, haccepted] at hcorrelation
          omega
        · rw [haccepted] at hcorrelation
          omega
    · rw [if_pos hcode]
      exact iff_of_true (ignores_connections h _) (by simp [hcode])
  · rw [if_pos hcon]
    exact iff_of_true (ignores_connections h _) (by simp [hcon])

/-- A message is ignored exactly when it is not acted on. -/
theorem ignores_onMsgReceived (h : c.Reaped) {i : ℕ} (hreading : c.activity = .reading i)
    (msg : Option ServerMsg) (throws : Bool) :
    c.Ignores (c.onMsgReceived i msg throws).reap ↔ ¬c.actsOn i msg := by
  have hgoes : c.broken = false := by simp [broken, hreading]
  have hdisconnect : ∀ cause, c.Ignores (c.disconnect i cause).reap := fun cause =>
    ignores_connections h _
  cases msg with
  | none => exact iff_of_true (hdisconnect _) (by simp [actsOn])
  | some msg =>
    by_cases hcon : c.con = some i
    · unfold onMsgReceived
      cases msg with
      | loginResponse resp => exact ignores_processLoginResp h i resp throws
      | submitResponse resp =>
        simpa [actsOn, hcon] using ignores_processSubmitResp h resp
      | snapshotResponse resp =>
        simpa [actsOn, hcon] using ignores_processSnapshotResp h hgoes resp throws
      | updatesResponse resp =>
        simpa [actsOn, hcon] using ignores_processUpdatesResp h resp
      | updatesPush resp =>
        simpa [actsOn, hcon] using ignores_processUpdatesPush h hreading resp
      | pingResponse cid =>
        simpa [actsOn, hcon] using ignores_processPingResp h cid
      | sessionsResponse cid complete =>
        simpa [actsOn, hcon] using ignores_processSessionsResp h cid complete
      | sessionsPush cid complete =>
        simpa [actsOn, hcon] using ignores_processSessionsPush h cid complete
      | keepalivePush =>
        have hsame : c.Ignores c.reap := ignores_connections h c.connections
        simpa [actsOn, hcon, handles] using hsame
      | unexpected => simpa [actsOn, hcon, handles] using hdisconnect _
    · cases msg with
      | loginResponse resp => exact ignores_processLoginResp h i resp throws
      | _ =>
        simp only [onMsgReceived, ne_eq, hcon, not_false_eq_true, if_true]
        exact iff_of_true (hdisconnect _) (by simp [actsOn, hcon])

end Session

section Runs

/-- A late message is dropped if and only if its handler has nothing to do. -/
theorem dropsLate_iff_lateIsIdle {globMatch : Glob} {c : Client} (h : c.Reaped) (e : Event) :
    c.dropsLate globMatch e ↔ c.lateIsIdle e := by
  cases e with
  | message msg throws =>
    refine forall_congr' fun i => forall₄_congr fun con hreading _ _ => ?_
    have hstep : c.step globMatch (.message msg throws) =
        some (c.onMsgReceived i msg throws).reap := by
      simp [step, stepRaw, hreading]
    rw [← ignores_onMsgReceived h hreading msg throws, hstep]
    exact ⟨fun hignores => hignores _ rfl, fun hignores c' hc' => Option.some.inj hc' ▸ hignores⟩
  | _ => exact Iff.rfl

/-- Along a run, every message of a connection that was disconnected is ignored exactly when none
is acted on. -/
theorem drops_run_iff_idle (globMatch : Glob) (user password : Bytes)
    (maxActiveTxs rev0 servers : ℕ) (hasReactor : Bool) (events : List Event) (last : Client) :
    Run (step globMatch) (dropsLate globMatch)
        (create user password maxActiveTxs rev0 servers hasReactor) events last ↔
      Run (step globMatch) lateIsIdle
        (create user password maxActiveTxs rev0 servers hasReactor) events last :=
  Run.change_iff Reaped (fun _ _ _ hstep _ => reaped_step hstep)
    (fun _ e h => dropsLate_iff_lateIsIdle h e) rfl

/-- The server refuses the request for updates, which disconnects it, and the next message in the
same input accepts it: the client becomes SYNCED. -/
theorem refused_updates_then_accepted :
    ¬∀ (events : List Event) (c : Client) (e : Event),
      Run (step fun _ _ => true) anyStep (create [1] [2] 0 0 1 false) events c →
        c.dropsLate (fun _ _ => true) e := by
  intro h
  have hexec : (execute (step fun _ _ => true) (fun _ _ => true) (create [1] [2] 0 0 1 false)
      [.start none, .connected 0, .read 0,
        .message (some (.loginResponse ⟨.authorized, 0, 0, true, true, 10, [⟨15, [42]⟩]⟩)) false,
        .message (some (.updatesResponse ⟨1, 0, false⟩)) false]).map (fun c => decide (
        c.activity = .reading 0 ∧ c.connections = [⟨.connected, true, some .load⟩] ∧
        c.con = some 0 ∧ c.state = .syncing ∧ c.dataCid = 1 ∧ c.rev0 = 0)) = some true := by
    decide +kernel
  obtain ⟨c, hrun, hend⟩ := exists_run_of_execute (fun _ _ _ => trivial) hexec
  obtain ⟨hreading, hconnections, hcon, hstate, hcid, hrev0⟩ := of_decide_eq_true hend
  have hreaped : c.Reaped := hrun.invariant (fun _ _ _ _ hstep _ => reaped_step hstep) rfl
  have hidle := (dropsLate_iff_lateIsIdle hreaped _).mp
    (h _ c (.message (some (.updatesResponse ⟨1, 5, true⟩)) false) hrun)
  exact hidle 0 ⟨.connected, true, some .load⟩ hreading (by simp [hconnections]) rfl
    ⟨hcon, hstate, hcid.symm, rfl, Or.inl hrev0⟩

end Runs

end Client

end Nplex
