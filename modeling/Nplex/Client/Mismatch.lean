import Nplex.Client.Responses

/-!
# Responses of another kind

The server chooses both the kind and the correlation id of a response, so a response may find a
request of another kind. `process_sessions_resp` tests the downcast and disconnects.
`process_submit_resp` and `process_ping_resp` use it untested, which is a null pointer. Apart from
that, a response changes nothing but what belongs to the request it finds.
-/

namespace Nplex

open Nplex.Common

/-- The message answers a request. -/
def ServerMsg.isResponse : ServerMsg → Bool
  | .submitResponse _ | .pingResponse _ | .sessionsResponse _ _ => true
  | _ => false

/-- The message answers a request about sessions. -/
def ServerMsg.isSessions : ServerMsg → Bool
  | .sessionsResponse _ _ => true
  | _ => false

/-- The message answers requests of this kind. -/
def ServerMsg.answers : ServerMsg → RequestKind → Bool
  | .submitResponse _, .submit _ _ => true
  | .pingResponse _, .ping _ _ => true
  | .sessionsResponse _ _, .sessions _ _ => true
  | _, _ => false

namespace Client

/-- The request that a response finds: the first one, for a submit the first one that is not older,
when it has the correlation id of the response. -/
def found (c : Client) : ServerMsg → Option Request
  | .submitResponse resp =>
    (c.requests.dropWhile (·.cid < resp.cid)).head?.filter (·.cid = resp.cid)
  | .pingResponse cid | .sessionsResponse cid _ => c.requests.head?.filter (·.cid = cid)
  | _ => none

/-- The response finds a request of its own kind, about which `p` holds. -/
def Finds (c : Client) (msg : ServerMsg) (p : RequestKind → Bool) : Prop :=
  ∃ r, c.found msg = some r ∧ msg.answers r.kind = true ∧ p r.kind = true

/-- The response handled on a connection is applied to a request of its own kind, if any, and one
of another kind makes the client disconnect. -/
structure AppliesTo (c c' : Client) (i : ℕ) (msg : ServerMsg) : Prop where
  /-- No null pointer is dereferenced. -/
  returns : c'.activity ≠ .crashed
  txs : ∀ t, c'.txs[t]? = c.txs[t]? ∨ c.Finds msg (·.submits t)
  accepted : ∀ a ∈ c'.accepted, a ∈ c.accepted ∨ c.Finds msg (·.submits a.tx)
  replies : ∀ p ∈ c'.replies, p ∈ c.replies ∨ c.Finds msg (·.asks p.1)
  sessionsCid : c'.sessionsCid = c.sessionsCid ∨ c.Finds msg fun _ => true
  calls : c'.calls = c.calls ∨ c.Finds msg fun _ => true
  unexpected : ∀ r, c.found msg = some r → msg.answers r.kind = false →
    c'.connections = (c.disconnect i .msgUnexpected).connections

/-- A response finds a request of its own kind, or it is one about sessions. -/
def fits (c : Client) (msg : ServerMsg) : Prop :=
  ∀ r, c.found msg = some r → msg.answers r.kind = true ∨ msg.isSessions = true

variable {c c' : Client} {i : ℕ} {msg : ServerMsg}

/-- A response that is applied to nothing, and finds no request of another kind. -/
theorem AppliesTo.nothing (hreturns : c'.activity ≠ .crashed) (htxs : c'.txs = c.txs)
    (haccepted : c'.accepted = c.accepted) (hreplies : c'.replies = c.replies)
    (hsessions : c'.sessionsCid = c.sessionsCid) (hcalls : c'.calls = c.calls)
    (hfits : ∀ r, c.found msg = some r → msg.answers r.kind = false →
      c'.connections = (c.disconnect i .msgUnexpected).connections) : AppliesTo c c' i msg where
  returns := hreturns
  txs t := Or.inl (by rw [htxs])
  accepted a ha := Or.inl (haccepted ▸ ha)
  replies p hp := Or.inl (hreplies ▸ hp)
  sessionsCid := Or.inl hsessions
  calls := Or.inl hcalls
  unexpected := hfits

/-- A method of a transaction changes that transaction alone, and may throw. -/
theorem onTx_alone (c : Client) (t : ℕ) (f : Transaction → Transaction × Option TxError) :
    ∃ txs activity, c.onTx t f = { c with txs := txs, activity := activity } ∧
      (∀ u, t ≠ u → txs[u]? = c.txs[u]?) ∧ (activity = c.activity ∨ activity = .thrown) := by
  unfold onTx
  split
  · exact ⟨c.txs, c.activity, rfl, fun _ _ => rfl, Or.inl rfl⟩
  · next cell _ =>
    dsimp only
    split
    · exact ⟨_, .thrown, rfl, fun u hu => List.getElem?_set_ne hu, Or.inr rfl⟩
    · exact ⟨_, c.activity, rfl, fun u hu => List.getElem?_set_ne hu, Or.inl rfl⟩

/-- A response that finds a request of its own kind is applied to it. -/
theorem AppliesTo.own {r : Request} (hfound : c.found msg = some r)
    (hanswers : msg.answers r.kind = true) (hreturns : c'.activity ≠ .crashed)
    (htxs : ∀ t, r.kind.submits t = false → c'.txs[t]? = c.txs[t]?)
    (haccepted : ∀ a ∈ c'.accepted, a ∈ c.accepted ∨ r.kind.submits a.tx = true)
    (hreplies : ∀ p ∈ c'.replies, p ∈ c.replies ∨ r.kind.asks p.1 = true) : AppliesTo c c' i msg where
  returns := hreturns
  txs t := by
    cases hsubmits : r.kind.submits t with
    | false => exact Or.inl (htxs t hsubmits)
    | true => exact Or.inr ⟨r, hfound, hanswers, hsubmits⟩
  accepted a ha := (haccepted a ha).imp_right fun hsubmits => ⟨r, hfound, hanswers, hsubmits⟩
  replies p hp := (hreplies p hp).imp_right fun hasks => ⟨r, hfound, hanswers, hasks⟩
  sessionsCid := Or.inr ⟨r, hfound, hanswers, rfl⟩
  calls := Or.inr ⟨r, hfound, hanswers, rfl⟩
  unexpected r' hfound' hother := by
    obtain rfl := Option.some.inj (hfound.symm.trans hfound')
    rw [hanswers] at hother
    cases hother

/-- A request of another kind does not fit, unless the response is one about sessions. -/
theorem not_fits {r : Request} (hfound : c.found msg = some r) (hother : msg.answers r.kind = false)
    (hsessions : msg.isSessions = false) : ¬c.fits msg := by
  intro h
  have := h r hfound
  simp [hother, hsessions] at this

/-- A response that finds a request of another kind dereferences a null pointer. -/
theorem appliesTo_crash {r : Request} (hfound : c.found msg = some r)
    (hother : msg.answers r.kind = false) (hsessions : msg.isSessions = false) :
    AppliesTo c c'.crash i msg ↔ c.fits msg :=
  iff_of_false (fun h => h.returns rfl) (not_fits hfound hother hsessions)

/-- A response of the kind of its request fits. -/
theorem fits_of_answers {r : Request} (hfound : c.found msg = some r)
    (hanswers : msg.answers r.kind = true) : c.fits msg := by
  intro r' hfound'
  obtain rfl := Option.some.inj (hfound.symm.trans hfound')
  exact Or.inl hanswers

/-- So does a response that nothing waits for. -/
theorem fits_of_not_found (hfound : c.found msg = none) : c.fits msg := by
  intro r hr
  rw [hfound] at hr
  cases hr

/-- A response that finds no request is applied to nothing. -/
theorem appliesTo_not_found (hgoes : c.activity ≠ .crashed) (hfound : c.found msg = none)
    (requests : List Request) :
    AppliesTo c { c with requests := requests } i msg ↔ c.fits msg :=
  iff_of_true (.nothing hgoes rfl rfl rfl rfl rfl (by simp [hfound])) (fits_of_not_found hfound)

/-- The promise that is satisfied is the one the request asks for. -/
theorem replied_of_mem {kind : RequestKind} {ticket : ℕ} {answer : Reply} {p : ℕ × Reply}
    (hasks : kind.asks ticket = true) (hp : p ∈ c.replies ++ [(ticket, answer)]) :
    p ∈ c.replies ∨ kind.asks p.1 = true := by
  rcases List.mem_append.mp hp with hold | hnew
  · exact Or.inl hold
  · rw [List.mem_singleton.mp hnew]
    exact Or.inr hasks

/-- The response to a submit is applied to the submit it finds, and to nothing else. -/
theorem appliesTo_processSubmitResp (hgoes : c.activity ≠ .crashed) (resp : SubmitResponse) :
    AppliesTo c (c.processSubmitResp resp) i (.submitResponse resp) ↔
      c.fits (.submitResponse resp) := by
  unfold processSubmitResp
  cases hdrop : c.requests.dropWhile (fun r : Request => r.cid < resp.cid) with
  | nil =>
    have hfound : c.found (.submitResponse resp) = none := by simp [found, hdrop]
    exact appliesTo_not_found hgoes hfound _
  | cons r rest =>
    dsimp only
    by_cases hcid : r.cid = resp.cid
    · have hfound : c.found (.submitResponse resp) = some r := by simp [found, hdrop, hcid]
      rw [if_neg (by simp [hcid])]
      cases hkind : r.kind with
      | submit t force =>
        have hanswers : (ServerMsg.submitResponse resp).answers r.kind = true := by
          simp [hkind, ServerMsg.answers]
        refine iff_of_true ?_ (fits_of_answers hfound hanswers)
        obtain ⟨txs, activity, honTx, hothers, hactivity⟩ :=
          onTx_alone { c with requests := rest } t (·.setSubmitResult resp.code)
        have hreturns : activity ≠ .crashed := by
          rcases hactivity with rfl | rfl
          · exact hgoes
          · simp
        have happlied : ∀ c' : Client, c'.txs = txs → c'.activity = activity →
            c'.replies = c.replies → (∀ a ∈ c'.accepted, a ∈ c.accepted ∨ a.tx = t) →
            AppliesTo c c' i (.submitResponse resp) := by
          intro c' htxs hact hreplies haccepted
          refine .own hfound hanswers (hact ▸ hreturns) (fun u hu => ?_) (fun a ha => ?_)
            fun p hp => Or.inl (hreplies ▸ hp)
          · have hne : t ≠ u := by simpa [hkind, RequestKind.submits] using hu
            rw [htxs, hothers u hne]
          · refine (haccepted a ha).imp_right fun hat => ?_
            simp [hkind, RequestKind.submits, hat]
        dsimp only
        rw [honTx]
        unfold andThen
        split
        · exact happlied _ rfl rfl rfl fun a ha => Or.inl ha
        · split
          · refine happlied _ rfl rfl rfl fun a ha => ?_
            rcases List.mem_append.mp ha with hold | hnew
            · exact Or.inl hold
            · exact Or.inr (by rw [List.mem_singleton.mp hnew])
          · exact happlied _ rfl rfl rfl fun a ha => Or.inl ha
      | ping ticket payload =>
        exact appliesTo_crash hfound (by simp [hkind, ServerMsg.answers]) rfl
      | sessions ticket stream =>
        exact appliesTo_crash hfound (by simp [hkind, ServerMsg.answers]) rfl
    · have hfound : c.found (.submitResponse resp) = none := by simp [found, hdrop, hcid]
      rw [if_pos hcid]
      exact appliesTo_not_found hgoes hfound _

/-- The response to a ping is applied to the ping it finds, and to nothing else. -/
theorem appliesTo_processPingResp (hgoes : c.activity ≠ .crashed) (cid : ℕ) :
    AppliesTo c (c.processPingResp cid) i (.pingResponse cid) ↔ c.fits (.pingResponse cid) := by
  unfold processPingResp
  cases hrequests : c.requests with
  | nil =>
    have hfound : c.found (.pingResponse cid) = none := by simp [found, hrequests]
    exact appliesTo_not_found hgoes hfound _
  | cons r rest =>
    dsimp only
    by_cases hcid : r.cid = cid
    · have hfound : c.found (.pingResponse cid) = some r := by simp [found, hrequests, hcid]
      rw [if_neg (by simp [hcid])]
      cases hkind : r.kind with
      | submit t force =>
        exact appliesTo_crash hfound (by simp [hkind, ServerMsg.answers]) rfl
      | ping ticket payload =>
        have hanswers : (ServerMsg.pingResponse cid).answers r.kind = true := by
          simp [hkind, ServerMsg.answers]
        refine iff_of_true ?_ (fits_of_answers hfound hanswers)
        refine .own hfound hanswers hgoes (fun _ _ => rfl) (fun _ ha => Or.inl ha) fun p hp => ?_
        exact replied_of_mem (by simp [hkind, RequestKind.asks]) hp
      | sessions ticket stream =>
        exact appliesTo_crash hfound (by simp [hkind, ServerMsg.answers]) rfl
    · have hfound : c.found (.pingResponse cid) = none := by simp [found, hrequests, hcid]
      rw [if_pos hcid]
      exact appliesTo_not_found hgoes hfound _

/-- The response about the sessions is applied to such a request, and makes the client disconnect
when it finds another one. -/
theorem appliesTo_processSessionsResp (hgoes : c.activity ≠ .crashed) (hi : c.con = some i)
    (cid : ℕ) (complete : Bool) :
    AppliesTo c (c.processSessionsResp cid complete) i (.sessionsResponse cid complete) := by
  unfold processSessionsResp
  cases hrequests : c.requests with
  | nil =>
    have hfound : c.found (.sessionsResponse cid complete) = none := by simp [found, hrequests]
    exact .nothing hgoes rfl rfl rfl rfl rfl (by simp [hfound])
  | cons r rest =>
    dsimp only
    by_cases hcid : r.cid = cid
    · have hfound : c.found (.sessionsResponse cid complete) = some r := by
        simp [found, hrequests, hcid]
      have hdisconnect : ∀ cause, disconnectCon { c with requests := rest } cause =
          disconnect { c with requests := rest } i cause := by
        intro cause
        simp [disconnectCon, hi]
      rw [if_neg (by simp [hcid])]
      cases hkind : r.kind with
      | submit t force =>
        simp only [hdisconnect]
        exact .nothing hgoes rfl rfl rfl rfl rfl fun _ _ _ => rfl
      | ping ticket payload =>
        simp only [hdisconnect]
        exact .nothing hgoes rfl rfl rfl rfl rfl fun _ _ _ => rfl
      | sessions ticket stream =>
        have hanswers : (ServerMsg.sessionsResponse cid complete).answers r.kind = true := by
          simp [hkind, ServerMsg.answers]
        dsimp only
        split
        · rw [hdisconnect]
          exact .own hfound hanswers hgoes (fun _ _ => rfl) (fun _ ha => Or.inl ha) fun _ hp => Or.inl hp
        · have hcalled : ∀ c₁ : Client, c₁.activity = c.activity → c₁.txs = c.txs →
              c₁.accepted = c.accepted → c₁.replies = c.replies ++ [(ticket, .sessions)] →
              AppliesTo c (c₁.call .initialSessions) i (.sessionsResponse cid complete) := by
            intro c₁ hactivity htxs haccepted hreplies
            have hmore : ∀ p ∈ c₁.replies, p ∈ c.replies ∨ r.kind.asks p.1 = true := by
              intro p hp
              rw [hreplies] at hp
              exact replied_of_mem (by simp [hkind, RequestKind.asks]) hp
            have hgoes₁ : c₁.activity ≠ .crashed := hactivity ▸ hgoes
            unfold call
            split
            · exact .own hfound hanswers hgoes₁ (fun t _ => by rw [htxs])
                (fun a ha => Or.inl (haccepted ▸ ha)) hmore
            · exact .own hfound hanswers hgoes₁ (fun t _ => by rw [htxs])
                (fun a ha => Or.inl (haccepted ▸ ha)) hmore
          exact hcalled _ rfl rfl rfl rfl
    · have hfound : c.found (.sessionsResponse cid complete) = none := by
        simp [found, hrequests, hcid]
      rw [if_pos hcid]
      exact .nothing hgoes rfl rfl rfl rfl rfl (by simp [hfound])

/-- Whatever the queue of the requests holds, a response that the session receives is applied to a
request of its own kind, and otherwise makes the client disconnect, exactly when it fits. -/
theorem response_applied_iff_fits (c : Client) (i : ℕ) (msg : ServerMsg) (throws : Bool)
    (hreading : c.activity = .reading i) (hi : c.con = some i) (hresponse : msg.isResponse = true) :
    AppliesTo c (c.onMsgReceived i (some msg) throws) i msg ↔ c.fits msg := by
  have hgoes : c.activity ≠ .crashed := by simp [hreading]
  unfold onMsgReceived
  cases msg with
  | submitResponse resp =>
    simp only [hi, ne_eq, not_true_eq_false, if_false]
    exact appliesTo_processSubmitResp hgoes resp
  | pingResponse cid =>
    simp only [hi, ne_eq, not_true_eq_false, if_false]
    exact appliesTo_processPingResp hgoes cid
  | sessionsResponse cid complete =>
    simp only [hi, ne_eq, not_true_eq_false, if_false]
    exact iff_of_true (appliesTo_processSessionsResp hgoes hi cid complete) fun _ _ => Or.inr rfl
  | _ => cases hresponse

/-- A ping is answered. -/
theorem response_applied_ping :
    ∃ c : Client, c.requests = [⟨2, .ping 0 []⟩] ∧
      AppliesTo c (c.onMsgReceived 0 (some (.pingResponse 2)) false) 0 (.pingResponse 2) := by
  refine ⟨{ create [1] [2] 0 0 1 false with
    activity := .reading 0, con := some 0, requests := [⟨2, .ping 0 []⟩] }, rfl, ?_⟩
  refine (response_applied_iff_fits _ 0 (.pingResponse 2) false rfl rfl rfl).mpr ?_
  exact fits_of_answers (r := ⟨2, .ping 0 []⟩) rfl rfl

/-- A ping is sent and the server answers it with the response to a submit. -/
theorem submit_response_meets_ping :
    ¬∀ (events : List Event) (c : Client) (msg : ServerMsg),
      Run (step fun _ _ => true) anyStep (create [1] [2] 0 0 1 false) events c →
      c.activity = .reading 0 → c.con = some 0 → msg.isResponse = true →
        AppliesTo c (c.onMsgReceived 0 (some msg) false) 0 msg := by
  intro h
  have hexec : (execute (step fun _ _ => true) (fun _ _ => true) (create [1] [2] 0 0 1 false)
      [.start none, .connected 0, .read 0,
        .message (some (.loginResponse ⟨.authorized, 0, 0, true, true, 10, [⟨15, [42]⟩]⟩)) false,
        .readEnd, .ping [7], .pushCheck 0, .pushLocked 0, .async, .command, .commandsEnd,
        .read 0]).map (fun c => decide (c.activity = .reading 0 ∧ c.con = some 0 ∧
        c.requests = [⟨2, .ping 0 [7]⟩])) = some true := by
    decide +kernel
  obtain ⟨c, hrun, hend⟩ := exists_run_of_execute (fun _ _ _ => trivial) hexec
  obtain ⟨hreading, hcon, hrequests⟩ := of_decide_eq_true hend
  have happlied := h _ c (.submitResponse ⟨2, .accepted, 1⟩) hrun hreading hcon rfl
  refine happlied.returns ?_
  simp [onMsgReceived, hcon, processSubmitResp, hrequests, crash]

end Client

end Nplex
