import Nplex.Client.Session
import Nplex.Common.Counter

/-!
# The correlation ids

Every request carries a number drawn from `m_correlation`. A login request takes the number after
advancing the counter, all the others before, so that the first request of a session takes the
number of the login that started it. The requests waiting for an answer are numbered in order
whatever happens to the logins.
-/

namespace Nplex

open Nplex.Common

/-- The actions other than those of a login. -/
def ActionKind.issues : ActionKind → Bool
  | .login | .join => false
  | _ => true

/-- The correlation id of a request. -/
def ClientMsg.cid : ClientMsg → ℕ
  | .login cid _ _ => cid
  | .snapshot cid _ => cid
  | .updates cid _ => cid
  | .submit request => request.cid
  | .ping cid _ => cid
  | .sessions cid _ => cid

namespace Client

/-- The correlation ids of the requests sent. -/
def sentCids (c : Client) : List ℕ := c.sent.map (·.2.cid)

/-- The correlation ids of the requests that wait for an answer. -/
def requestCids (c : Client) : List ℕ := c.requests.map (·.cid)

/-- What is sent and waits for an answer takes its numbers from the counter. -/
structure Draws (c c' : Client) : Prop where
  counter : c.correlation ≤ c'.correlation
  sent : ∃ numbers, c'.sentCids = c.sentCids ++ numbers ∧
    Drawn c.correlation c'.correlation numbers
  requests : ∃ numbers, c'.requestCids.Sublist (c.requestCids ++ numbers) ∧
    Drawn c.correlation c'.correlation numbers

/-- What a handler does that numbers its requests from the counter, and sends them in a session. -/
structure Issues (c c' : Client) : Prop extends Draws c c' where
  silent : c.con = none → c'.con = none ∧ c'.sent = c.sent

section Relations

variable {c c' c'' : Client}

/-- A handler that sends nothing and drops requests at most. -/
theorem Issues.of_sublist (hcounter : c'.correlation = c.correlation) (hsent : c'.sent = c.sent)
    (hrequests : c'.requests.Sublist c.requests) (hcon : c'.con = c.con ∨ c'.con = none) :
    Issues c c' where
  counter := hcounter.ge
  sent := ⟨[], by simp [sentCids, hsent], .nil _ _⟩
  requests := ⟨[], by simpa [requestCids] using hrequests.map _, .nil _ _⟩
  silent hnone := ⟨by simpa [hnone] using hcon, hsent⟩

/-- The counter, the messages sent, the requests and the session. -/
def numbers (c : Client) : ℕ × List (ℕ × ClientMsg) × List Request × Option ℕ :=
  (c.correlation, c.sent, c.requests, c.con)

/-- A handler that leaves the numbers alone. -/
theorem Issues.of_numbers (h : c'.numbers = c.numbers) : Issues c c' := by
  simp only [numbers, Prod.mk.injEq] at h
  obtain ⟨hcounter, hsent, hrequests, hcon⟩ := h
  exact .of_sublist hcounter hsent (hrequests ▸ .refl _) (Or.inl hcon)

/-- Doing nothing issues no number. -/
theorem Issues.refl (c : Client) : Issues c c := .of_numbers rfl

/-- The numbers of two handlers are issued in order. -/
theorem Issues.trans (h : Issues c c') (h' : Issues c' c'') : Issues c c'' where
  counter := h.counter.trans h'.counter
  sent := by
    obtain ⟨numbers, hsent, hdrawn⟩ := h.sent
    obtain ⟨later, hlater, hdrawn'⟩ := h'.sent
    exact ⟨numbers ++ later, by rw [hlater, hsent, List.append_assoc],
      hdrawn.append hdrawn' h.counter h'.counter⟩
  requests := by
    obtain ⟨numbers, hrequests, hdrawn⟩ := h.requests
    obtain ⟨later, hlater, hdrawn'⟩ := h'.requests
    refine ⟨numbers ++ later, ?_, hdrawn.append hdrawn' h.counter h'.counter⟩
    rw [← List.append_assoc]
    exact hlater.trans (hrequests.append_right later)
  silent hnone := by
    obtain ⟨hnone', hsent⟩ := h.silent hnone
    obtain ⟨hnone'', hsent'⟩ := h'.silent hnone'
    exact ⟨hnone'', hsent'.trans hsent⟩

/-- What is done before leaves the numbers alone. -/
theorem Issues.after {c₀ : Client} (h : Issues c c') (hnumbers : c.numbers = c₀.numbers) :
    Issues c₀ c' :=
  (Issues.of_numbers hnumbers).trans h

/-- Going on issues what follows. -/
theorem Issues.andThen {f : Client → Client} (h : Issues c (f c)) : Issues c (c.andThen f) := by
  unfold Client.andThen
  split
  · exact .refl c
  · exact h

end Relations

section Handlers

variable {c c' : Client}

/-- A recorded write leaves the numbers alone. -/
@[simp] theorem write_numbers (c : Client) (w : Write) : (c.write w).numbers = c.numbers :=
  (congrArg Client.numbers (write_fields c w)).trans rfl

/-- So does a method of a transaction. -/
@[simp] theorem onTx_numbers (c : Client) (t : ℕ) (f : Transaction → Transaction × Option TxError) :
    (c.onTx t f).numbers = c.numbers :=
  (congrArg Client.numbers (onTx_fields c t f)).trans rfl

/-- Setting a state drops the requests at most. -/
theorem issues_setState (c : Client) (s : ClientState) : Issues c (c.setState s) := by
  unfold setState
  split
  · exact .refl c
  · refine (Issues.of_numbers (write_numbers c (.state s))).trans ?_
    dsimp only
    split
    · exact .of_sublist rfl rfl (List.nil_sublist _) (Or.inl rfl)
    · exact .of_numbers rfl

/-- Aborting drops the requests and the session. -/
theorem issues_abort (c : Client) : Issues c c.abort := by
  unfold abort
  split
  · exact .refl c
  · dsimp only
    refine Issues.trans ?_ ((issues_setState _ .closed).trans (.of_numbers rfl))
    exact .of_sublist rfl rfl (.refl _) (Or.inr rfl)

/-- Sending gives the message to the session's connection or to none, and leaves the rest. -/
theorem send_spec (c : Client) (msg : ClientMsg) :
    (c.send msg).correlation = c.correlation ∧ (c.send msg).requests = c.requests ∧
      (c.send msg).con = c.con ∧
      ((c.send msg).sent = c.sent ∨ ∃ i, c.con = some i ∧ (c.send msg).sent = c.sent ++ [(i, msg)]) := by
  unfold send
  split
  · exact ⟨rfl, rfl, rfl, Or.inl rfl⟩
  · next i hi =>
    split
    · exact ⟨rfl, rfl, rfl, Or.inl rfl⟩
    · unfold sendOn
      split
      · exact ⟨rfl, rfl, rfl, Or.inl rfl⟩
      · split
        · exact ⟨rfl, rfl, rfl, Or.inl rfl⟩
        · exact ⟨rfl, rfl, rfl, Or.inr ⟨i, hi, rfl⟩⟩

/-- One request is sent with the next number, unless there is no session. -/
theorem issues_send {c₀ : Client} (hcounter : c.correlation = c₀.correlation + 1)
    (hsent : c.sent = c₀.sent) (hrequests : c.requests = c₀.requests) (hcon : c.con = c₀.con)
    {msg : ClientMsg} (hcid : msg.cid = c₀.correlation) : Issues c₀ (c.send msg) := by
  obtain ⟨hcounter', hrequests', hcon', hcase⟩ := send_spec c msg
  refine ⟨⟨by omega, ?_, ⟨[], by simp [requestCids, hrequests', hrequests], .nil _ _⟩⟩, fun hnone => ?_⟩
  · rw [hcounter', hcounter]
    rcases hcase with hsame | ⟨i, -, hmore⟩
    · exact ⟨[], by simp [sentCids, hsame, hsent], .nil _ _⟩
    · exact ⟨[c₀.correlation], by simp [sentCids, hmore, hsent, hcid], .single _⟩
  · refine ⟨hcon'.trans (hcon.trans hnone), ?_⟩
    rcases hcase with hsame | ⟨i, hi, -⟩
    · exact hsame.trans hsent
    · rw [hcon, hnone] at hi
      cases hi

/-- A request takes the next number, and waits for its answer under it. -/
theorem issues_sendRequest (hcon : c.con ≠ none) (kind : RequestKind) {msg : ℕ → ClientMsg}
    (hmsg : ∀ n, (msg n).cid = n) : Issues c (c.sendRequest kind msg) := by
  have hsend : Issues c (send { c with correlation := c.correlation + 1 } (msg c.correlation)) :=
    issues_send (c := { c with correlation := c.correlation + 1 }) rfl rfl rfl rfl (hmsg _)
  obtain ⟨hcounter, hrequests, -, -⟩ :=
    send_spec { c with correlation := c.correlation + 1 } (msg c.correlation)
  unfold sendRequest
  dsimp only at hcounter hrequests ⊢
  generalize send { c with correlation := c.correlation + 1 } (msg c.correlation) = c₁
    at hsend hrequests hcounter ⊢
  unfold Client.andThen
  split
  · exact hsend
  · refine ⟨⟨hsend.counter, hsend.sent, ⟨[c.correlation], ?_, ?_⟩⟩, fun hnone => absurd hnone hcon⟩
    · simp [requestCids, hrequests]
    · dsimp only
      rw [hcounter]
      exact .single c.correlation

/-- The messages of the requests carry the number that they are given. -/
theorem Requests.cid {k : ActionKind} {kind : RequestKind} {msg : ℕ → ClientMsg}
    (h : c.Requests k kind msg) (n : ℕ) : (msg n).cid = n := by
  cases h <;> rfl

/-- A request for the data carries the number that it is given. -/
theorem Fetches.cid {cid : ℕ} {msg : ClientMsg} (h : Fetches cid msg) : msg.cid = cid := by
  cases h <;> rfl

/-- Trying to connect issues no number. -/
theorem issues_tryToConnect (c : Client) (refused : Option ℕ) :
    Issues c (c.tryToConnect refused) := by
  by_cases hoffline : c.state = .offline
  · rw [tryToConnect_of_offline hoffline]
    split
    · exact .of_sublist rfl rfl (.refl _) (Or.inr rfl)
    · exact .of_sublist rfl rfl (.refl _) (Or.inr rfl)
  · rw [tryToConnect_of_not_offline hoffline]
    exact .refl c

/-- The end of `run` drops the requests. -/
theorem issues_finishRun (c : Client) : Issues c c.finishRun :=
  .of_sublist rfl rfl (List.nil_sublist _) (Or.inr rfl)

/-- Setting an open state leaves the numbers alone. -/
theorem setState_numbers (c : Client) {s : ClientState} (hs : s ≠ .closed) :
    (c.setState s).numbers = c.numbers :=
  (congrArg Client.numbers (setState_open_fields c hs)).trans rfl

/-- Taking a connection for the session leaves the other numbers alone. -/
theorem acceptLogin_numbers (c : Client) (i : ℕ) (resp : LoginResponse) :
    (c.acceptLogin i resp).numbers = (c.correlation, c.sent, c.requests, some i) :=
  (congrArg Client.numbers (acceptLogin_fields c i resp)).trans rfl

/-- The response to a submit takes the front of the requests at most. -/
theorem issues_answerSubmit (c : Client) (t : ℕ) (resp : SubmitResponse) :
    Issues c (c.answerSubmit t resp) := by
  refine (Issues.of_numbers (onTx_numbers c t _)).trans (.andThen ?_)
  split
  · exact .of_numbers rfl
  · exact .refl _

/-- The actions that send in a session at most, and number their requests from the counter. -/
theorem Action.issues {k : ActionKind} (h : Action k c c') (hk : k.issues = true) : Issues c c' := by
  cases h with
  | aside h =>
    have hnumbers : c'.central.numbers = c.central.numbers := congrArg Client.numbers h.central
    exact .of_numbers hnumbers
  | drop _ hrequests => exact .of_sublist rfl rfl hrequests (Or.inl rfl)
  | @settle _ requests accepted hrequests =>
    have hdrop : Issues c { c with requests := requests, accepted := accepted } :=
      .of_sublist rfl rfl hrequests (Or.inl rfl)
    exact hdrop.trans (.of_numbers (onTx_numbers _ _ _))
  | deliver => exact .of_numbers ((congrArg Client.numbers (deliver_fields _ _ _)).trans rfl)
  | request _ hcon hrequest => exact issues_sendRequest hcon _ hrequest.cid
  | refuse => exact .of_numbers (onTx_numbers _ _ _)
  | @answer _ r rest hrest =>
    have hpop : Issues c { c with requests := rest } :=
      .of_sublist rfl rfl ((List.sublist_cons_self r rest).trans hrest) (Or.inl rfl)
    exact hpop.trans (issues_answerSubmit _ _ _)
  | login => cases hk
  | load => exact .of_numbers rfl
  | tell => exact .of_numbers ((congrArg Client.numbers (call_fields _ _)).trans rfl)
  | setState => exact issues_setState _ _
  | revive => exact issues_setState _ _
  | startTimer => exact .of_numbers ((congrArg Client.numbers (startTimerConLost_fields _ _)).trans rfl)
  | fetch _ hmsg =>
    exact issues_send
      (c := { c with dataCid := c.correlation, correlation := c.correlation + 1 }) rfl rfl rfl rfl
      hmsg.cid
  | join => cases hk
  | close => exact issues_abort _
  | leave => exact (issues_setState _ .offline).trans (.of_sublist rfl rfl (.refl _) (Or.inr rfl))
  | connect => exact issues_tryToConnect _ _
  | reconnect => exact .of_numbers ((congrArg Client.numbers (scheduleReconnect_fields _)).trans rfl)
  | shut => exact (issues_setState _ .closed).after rfl
  | takeFuture => exact .of_numbers (onTx_numbers _ _ _)
  | _ => exact .of_numbers rfl

/-- A handler made of numbered actions numbers its requests in order. -/
theorem Acts.issues {kinds : List ActionKind} (h : Acts kinds c c')
    (hkinds : kinds.all ActionKind.issues = true) : Issues c c' :=
  h.frame hkinds .refl .trans Action.issues

/-- The numbers drawn by a handler that starts with the same counter, messages and requests. -/
theorem Draws.congr {c₀ : Client} (h : Draws c₀ c') (hcounter : c₀.correlation = c.correlation)
    (hsent : c₀.sent = c.sent) (hrequests : c₀.requests = c.requests) : Draws c c' := by
  have hcids : c₀.sentCids = c.sentCids := by rw [sentCids, sentCids, hsent]
  have hrequestCids : c₀.requestCids = c.requestCids := by rw [requestCids, requestCids, hrequests]
  obtain ⟨hle, hsent', hrequests'⟩ := h
  rw [hcounter, hcids] at hsent'
  rw [hcounter, hrequestCids] at hrequests'
  exact ⟨hcounter ▸ hle, hsent', hrequests'⟩

/-- Aborting sends nothing. -/
theorem abort_sent (c : Client) : c.abort.sent = c.sent :=
  (congrArg Client.sent (abort_fields c)).trans rfl

/-- A login accepted by a client that the manager closes sends nothing. -/
theorem issues_abortedLogin (c : Client) (i : ℕ) (resp : LoginResponse) :
    Issues c ((c.acceptLogin i resp).abort.startSession resp) := by
  obtain ⟨hcounter, hsent, hrequests, -⟩ : (c.acceptLogin i resp).correlation = c.correlation ∧
      (c.acceptLogin i resp).sent = c.sent ∧ (c.acceptLogin i resp).requests = c.requests ∧
      (c.acceptLogin i resp).con = some i := by
    simpa [numbers] using acceptLogin_numbers c i resp
  have hopen : (c.acceptLogin i resp).state ≠ .closed := by
    rw [(acceptLogin_spec c i resp).2.1]
    simp
  have habort : Issues c (c.acceptLogin i resp).abort :=
    ⟨(issues_abort _).toDraws.congr hcounter hsent hrequests, fun _ =>
      ⟨congrArg Link.con (abort_link hopen), (abort_sent _).trans hsent⟩⟩
  exact habort.trans ((acts_startSession _ resp).issues rfl)

end Handlers

section Runs

variable {globMatch : Glob} {c c' : Client}

/-- The response starts a session, and the manager does not close the client at once. -/
def startsSession (c : Client) : Event → Bool
  | .message (some (.loginResponse resp)) throws =>
    c.con = none && resp.code = .authorized && !resp.permissions.isEmpty && !throws
  | _ => false

/-- The numbers of the requests that wait for an answer were drawn in order. -/
structure Queueing (c : Client) : Prop where
  increasing : c.requestCids.Pairwise (· < ·)
  below : ∀ n ∈ c.requestCids, n < c.correlation

/-- The numbers sent are distinct, and in a session the next one is new. -/
structure Numbering (c : Client) : Prop where
  distinct : c.sentCids.Nodup
  bounded : ∀ n ∈ c.sentCids, n ≤ c.correlation
  session : c.con ≠ none → c.correlation ∉ c.sentCids

/-- The requests are numbered in order after a handler that draws from the counter. -/
theorem Queueing.draws (h : c.Queueing) (hdraws : Draws c c') : c'.Queueing := by
  obtain ⟨numbers, hrequests, hdrawn⟩ := hdraws.requests
  exact ⟨(hdrawn.pairwise_append h.increasing h.below).sublist hrequests,
    fun n hn => hdrawn.below_append hdraws.counter h.below n (hrequests.subset hn)⟩

/-- What is drawn from a fresh counter is new, and leaves it fresh. -/
theorem Numbering.draws (h : c.Numbering) (hfresh : c.correlation ∉ c.sentCids)
    (hdraws : Draws c c') : c'.Numbering := by
  obtain ⟨numbers, hsent, hdrawn⟩ := hdraws.sent
  have hbelow : ∀ n ∈ c.sentCids, n < c.correlation := fun n hn =>
    (h.bounded n hn).lt_of_ne fun heq => hfresh (heq ▸ hn)
  have hall := hdrawn.below_append hdraws.counter hbelow
  rw [← hsent] at hall
  refine ⟨hsent ▸ hdrawn.nodup_append h.distinct hbelow, fun n hn => (hall n hn).le, fun _ hmem => ?_⟩
  exact lt_irrefl _ (hall _ hmem)

/-- A handler that only sends in a session. -/
theorem Numbering.issues (h : c.Numbering) (hissues : Issues c c') : c'.Numbering := by
  by_cases hcon : c.con = none
  · obtain ⟨hnone, hsent⟩ := hissues.silent hcon
    have hcids : c'.sentCids = c.sentCids := by rw [sentCids, sentCids, hsent]
    exact ⟨hcids ▸ h.distinct, fun n hn => (h.bounded n (hcids ▸ hn)).trans hissues.counter,
      fun hnot => absurd hnone hnot⟩
  · exact h.draws (h.session hcon) hissues.toDraws

/-- A login takes the number after advancing the counter. -/
theorem onConnectionEstablished_numbers (c : Client) (i : ℕ) :
    (c.onConnectionEstablished i).numbers = c.numbers ∨
      c.con = none ∧ (c.onConnectionEstablished i).con = none ∧
        (c.onConnectionEstablished i).correlation = c.correlation + 1 ∧
        (c.onConnectionEstablished i).requests = c.requests ∧
        ((c.onConnectionEstablished i).sentCids = c.sentCids ∨
          (c.onConnectionEstablished i).sentCids = c.sentCids ++ [c.correlation + 1]) := by
  unfold onConnectionEstablished
  split
  · exact Or.inl rfl
  · next hcon =>
    have hcon := not_not.mp hcon
    right
    dsimp only
    unfold sendOn
    split
    · exact ⟨hcon, hcon, rfl, rfl, Or.inl rfl⟩
    · split
      · exact ⟨hcon, hcon, rfl, rfl, Or.inl rfl⟩
      · exact ⟨hcon, hcon, rfl, rfl, Or.inr (by simp [sentCids, ClientMsg.cid])⟩

/-- An accepted login response starts the session. -/
theorem processLoginResp_of_starts {resp : LoginResponse} {throws : Bool} (i : ℕ)
    (hstarts : c.startsSession (.message (some (.loginResponse resp)) throws) = true) :
    c.con = none ∧ c.processLoginResp i resp throws = (c.acceptLogin i resp).startSession resp := by
  simp only [startsSession, Bool.and_eq_true, decide_eq_true_eq, Bool.not_eq_true'] at hstarts
  obtain ⟨⟨⟨hcon, hcode⟩, hpermissions⟩, hthrows⟩ := hstarts
  refine ⟨hcon, ?_⟩
  simp [processLoginResp, hcon, hcode, hpermissions, hthrows]

/-- Any other login response sends nothing. -/
theorem issues_login {resp : LoginResponse} {throws : Bool} (i : ℕ)
    (hnot : c.startsSession (.message (some (.loginResponse resp)) throws) = false) :
    Issues c (c.processLoginResp i resp throws) := by
  unfold processLoginResp
  split
  · exact .of_numbers rfl
  · next hcon =>
    split
    · exact .of_numbers rfl
    · next hcode =>
      split
      · exact .of_numbers rfl
      · next hpermissions =>
        have hthrows : throws = true := by
          simp only [not_not] at hcon hcode
          simpa [startsSession, hcon, hcode, hpermissions] using hnot
        subst hthrows
        exact issues_abortedLogin c i resp

/-- A step sends a login, starts a session, or numbers its requests from the counter and sends
them in a session. -/
theorem issues_effect {e : Event} (heffect : Effect globMatch c e c') :
    (∃ i con, c' = onConnectionEstablished { c with connections := c.connections.set i con } i) ∨
      (∃ i resp, c.startsSession e = true ∧ c' = (c.acceptLogin i resp).startSession resp) ∨
      Issues c c' := by
  have hissues : ∀ {c₁ : Client}, Issues c c₁ →
      (∃ i con, c₁ = onConnectionEstablished { c with connections := c.connections.set i con } i) ∨
        (∃ i resp, c.startsSession e = true ∧ c₁ = (c.acceptLogin i resp).startSession resp) ∨
          Issues c c₁ :=
    fun h => Or.inr (Or.inr h)
  have hsame : ∀ {c₁ : Client}, c₁.numbers = c.numbers → Issues c c₁ := .of_numbers
  cases heffect with
  | start =>
    have hbegin : Issues c { c with phase := .running, con := none } :=
      .of_sublist rfl rfl (.refl _) (Or.inr rfl)
    exact hissues (hbegin.trans (issues_tryToConnect _ _))
  | @connected i con => exact Or.inl ⟨i, _, rfl⟩
  | failed => exact hissues (hsame rfl)
  | closed => exact hissues (((acts_onConnectionClosed _ _ _ _ _).issues rfl).after rfl)
  | read => exact hissues (hsame rfl)
  | @message i msg throws hreading =>
    by_cases hlogin : ∃ resp, msg = some (.loginResponse resp)
    · obtain ⟨resp, rfl⟩ := hlogin
      by_cases hstarts : c.startsSession (.message (some (.loginResponse resp)) throws) = true
      · exact Or.inr (Or.inl ⟨i, resp, hstarts, (processLoginResp_of_starts i hstarts).2⟩)
      · exact hissues (issues_login i (Bool.eq_false_of_not_eq_true hstarts))
    · refine hissues ((acts_onMsgReceived_of_session c i throws fun resp hresp => ?_).issues rfl)
      exact hlogin ⟨resp, hresp⟩
  | malformed => exact hissues (hsame rfl)
  | readEnd => exact hissues (hsame rfl)
  | update => exact hissues (((acts_pushUpdate globMatch _ _ _).issues rfl).after rfl)
  | updatesEnd => exact hissues (hsame rfl)
  | timerConLost => exact hissues ((acts_onConnectionLost c).issues rfl)
  | timerReconnect => exact hissues ((issues_tryToConnect _ _).after rfl)
  | sigint => exact hissues (issues_abort c)
  | asyncClosed => exact hissues (hsame rfl)
  | async => exact hissues (hsame rfl)
  | command => exact hissues ((acts_nextCommand c _ _).issues rfl)
  | commandsEnd => exact hissues (hsame rfl)
  | unwind => exact hissues ((acts_unwindRun c).issues rfl)
  | finish => exact hissues (issues_finishRun c)
  | createTx => exact hissues (hsame ((congrArg numbers (createTx_fields c _ _)).trans rfl))
  | use => exact hissues (hsame rfl)
  | discard => exact hissues (hsame (onTx_numbers c _ _))
  | release => exact hissues (hsame rfl)
  | submit => exact hissues (hsame ((congrArg numbers (submitTx_fields c _ _ _)).trans rfl))
  | close => exact hissues (hsame rfl)
  | stop => exact hissues (hsame rfl)
  | pingRefused => exact hissues (.refl c)
  | ping => exact hissues (hsame rfl)
  | fetchRefused => exact hissues (.refl c)
  | fetchSessions => exact hissues (hsame rfl)
  | loopPing => exact hissues ((acts_loopPing c _).issues rfl)
  | loopFetchSessions => exact hissues ((acts_loopFetchSessions c _).issues rfl)
  | @pushClosed n p => exact hissues ((acts_pushClosed c n p).issues rfl)
  | pushCheck => exact hissues (hsame rfl)
  | @pushLocked n p => exact hissues ((acts_pushEnded c n p).issues rfl)

/-- Starting a session draws one number. -/
theorem draws_startSession (c : Client) (i : ℕ) (resp : LoginResponse) :
    Draws c ((c.acceptLogin i resp).startSession resp) := by
  obtain ⟨hcounter, hsent, hrequests, -⟩ : (c.acceptLogin i resp).correlation = c.correlation ∧
      (c.acceptLogin i resp).sent = c.sent ∧ (c.acceptLogin i resp).requests = c.requests ∧
      (c.acceptLogin i resp).con = some i := by
    simpa [numbers] using acceptLogin_numbers c i resp
  exact ((acts_startSession _ resp).issues rfl).toDraws.congr hcounter hsent hrequests

/-- The requests that wait for an answer are numbered in order in every step. -/
theorem queueing_step {e : Event} (h : c.Queueing) (hstep : c.step globMatch e = some c') :
    c'.Queueing := by
  obtain ⟨-, c₁, heffect, rfl⟩ := step_effect hstep
  have hend : c₁.Queueing := by
    rcases issues_effect heffect with ⟨i, con, rfl⟩ | ⟨i, resp, -, rfl⟩ | hissues
    · rcases onConnectionEstablished_numbers
        { c with connections := c.connections.set i con } i with hsame | ⟨-, -, hcounter, hrequests, -⟩
      · exact h.draws (Issues.of_numbers (c := c) hsame).toDraws
      · refine ⟨?_, fun n hn => ?_⟩
        · rw [requestCids, hrequests]
          exact h.increasing
        · rw [requestCids, hrequests] at hn
          have hbelow := h.below n hn
          rw [hcounter]
          dsimp only
          omega
    · exact h.draws (draws_startSession c i resp)
    · exact h.draws hissues.toDraws
  exact ⟨hend.increasing, hend.below⟩

/-- The numbers of the requests that wait for an answer increase in every run. -/
theorem requests_numbered_in_order {ok : Client → Event → Prop} {user password : Bytes}
    {maxActiveTxs rev0 servers : ℕ} {hasReactor : Bool} {events : List Event}
    (hrun : Run (step globMatch) ok
      (create user password maxActiveTxs rev0 servers hasReactor) events c) :
    c.requestCids.Pairwise (· < ·) := by
  have hend : c.Queueing := hrun.invariant (fun _ _ _ _ hstep h => queueing_step h hstep)
    ⟨by simp [create, requestCids], by simp [create, requestCids]⟩
  exact hend.increasing

end Runs

end Client

end Nplex
