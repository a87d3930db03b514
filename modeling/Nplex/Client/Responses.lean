import Nplex.Client.Queues

/-!
# The answers to the requests

The handlers of the responses pop the requests, each with a matching rule of its own:
`process_submit_resp` drops the requests older than the response, `process_ping_resp` and
`process_sessions_resp` look at the front alone. A ping or sessions request that is destroyed
breaks the promise it holds, and so makes its future ready. The promise of a submit belongs to its
transaction, so that a dropped submit leaves its transaction SUBMITTED.
-/

namespace Nplex

open Nplex.Common

/-- The request is a submit. -/
def RequestKind.isSubmit : RequestKind → Bool
  | .submit _ _ => true
  | .ping _ _ | .sessions _ _ => false

/-- The request is a ping. -/
def RequestKind.isPing : RequestKind → Bool
  | .ping _ _ => true
  | .submit _ _ | .sessions _ _ => false

namespace Client

/-- The future of a ping or sessions request is ready: it has a reply, or its request has been
destroyed and its promise is broken. -/
def ready (c : Client) (ticket : ℕ) : Prop :=
  (∃ r, (ticket, r) ∈ c.replies) ∨ c.carried (·.asks ticket) = 0

/-- The request has been completed. -/
def completed (c : Client) : RequestKind → Prop
  | .submit t _ => ∀ cell : TxCell, c.txs[t]? = some cell →
      cell.tx.state ≠ .submitted ∧ (cell.tx.state = .accepted → ∃ a ∈ c.accepted, a.tx = t)
  | .ping ticket _ | .sessions ticket _ => c.ready ticket

/-- The transaction is SUBMITTED, and neither a command nor a request submits it. -/
def stranded (c : Client) (t : ℕ) : Prop :=
  (∃ cell : TxCell, c.txs[t]? = some cell ∧ cell.tx.state = .submitted) ∧
    c.commands.any (·.submits t) = false ∧ c.requests.any (·.kind.submits t) = false

/-- A handler completes every request that it removes, and strands no transaction. -/
structure Completes (c c' : Client) : Prop where
  /-- The handler returns. -/
  returns : c'.activity ≠ .crashed
  removed : ∃ removed, c.requests = removed ++ c'.requests ∧ ∀ r ∈ removed, c'.completed r.kind
  stranded : ∀ t, c'.stranded t → c.stranded t

/-- The handler of a message of the session completes what it removes. -/
def completes (c : Client) : Event → Prop
  | .message msg throws => ∀ i, c.activity = .reading i → c.con = some i →
      c.Completes (c.onMsgReceived i msg throws)
  | _ => True

/-- The request is the submit of a transaction that is still SUBMITTED. -/
def waiting (c : Client) : RequestKind → Prop
  | .submit t _ => ∃ cell : TxCell, c.txs[t]? = some cell ∧ cell.tx.state = .submitted
  | .ping _ _ | .sessions _ _ => False

/-- The response to the snapshot request makes the reactor throw, so that the client is aborted. -/
def abortsOn (c : Client) (resp : SnapshotResponse) (throws : Bool) : Prop :=
  c.state = .loadingSnapshot ∧ resp.cid = c.dataCid ∧ resp.accepted = true ∧
    (c.loadSnapshot resp.snapshot).broken = false ∧ c.hasReactor = true ∧ throws = true

/-- The message answers the requests as the client expects. -/
def expects (c : Client) (throws : Bool) : ServerMsg → Prop
  | .submitResponse resp =>
    (∀ r ∈ c.requests.takeWhile (·.cid < resp.cid), ¬c.waiting r.kind) ∧
      ∀ r ∈ (c.requests.dropWhile (·.cid < resp.cid)).head?, r.cid = resp.cid →
        r.kind.isSubmit = true
  | .pingResponse cid => ∀ r ∈ c.requests.head?, r.cid = cid → r.kind.isPing = true
  | .sessionsResponse cid _ => ∀ r ∈ c.requests.head?, r.cid = cid → ¬c.waiting r.kind
  | .snapshotResponse resp => c.abortsOn resp throws → ∀ t (cell : TxCell),
      c.txs[t]? = some cell → cell.tx.state = .submitted →
        c.commands.any (·.submits t) = false ∧ c.requests.any (·.kind.submits t) = false
  | _ => True

/-- The message that the session receives, if any, answers the requests as the client expects. -/
def matched (c : Client) : Event → Prop
  | .message (some msg) throws => ∀ i, c.activity = .reading i → c.con = some i → c.expects throws msg
  | _ => True

section Removals

variable {c c' : Client}

/-- The requests that are removed are determined by those that are left. -/
theorem removed_iff {removed : List Request} (hsplit : c.requests = removed ++ c'.requests)
    (p : Request → Prop) :
    (∃ removed, c.requests = removed ++ c'.requests ∧ ∀ r ∈ removed, p r) ↔ ∀ r ∈ removed, p r := by
  constructor
  · rintro ⟨other, hother, hall⟩
    obtain rfl := List.append_cancel_right (hsplit.symm.trans hother)
    exact hall
  · exact fun hall => ⟨removed, hsplit, hall⟩

/-- A handler that removes no request completes all. -/
theorem Completes.of_ledger (hledger : c'.ledger = c.ledger) (hreturns : c'.activity ≠ .crashed) :
    Completes c c' := by
  have htxs : c'.txs = c.txs := congrArg Ledger.txs hledger
  have hcommands : c'.commands = c.commands := congrArg Ledger.commands hledger
  have hrequests : c'.requests = c.requests := congrArg Ledger.requests hledger
  refine ⟨hreturns, ⟨[], by simp [hrequests], by simp⟩, fun t ht => ?_⟩
  unfold Client.stranded at ht ⊢
  rwa [htxs, hcommands, hrequests] at ht

/-- No transaction is stranded by a handler that completes what it removes. -/
theorem stranded_of_completed {removed : List Request}
    (hsplit : c.requests = removed ++ c'.requests) (hcommands : c'.commands = c.commands)
    (hbefore : ∀ (t : ℕ) (cell' : TxCell), c'.txs[t]? = some cell' → cell'.tx.state = .submitted →
      ∃ cell : TxCell, c.txs[t]? = some cell ∧ cell.tx.state = .submitted)
    (hall : ∀ r ∈ removed, c'.completed r.kind) {t : ℕ} (h : c'.stranded t) : c.stranded t := by
  obtain ⟨⟨cell', hcell', hsubmitted⟩, hnoCommand, hnoRequest⟩ := h
  refine ⟨hbefore t cell' hcell' hsubmitted, hcommands ▸ hnoCommand, ?_⟩
  rw [hsplit, List.any_append, hnoRequest, Bool.or_false, List.any_eq_false]
  intro r hr hsubmits
  have hcompleted := hall r hr
  cases hkind : r.kind with
  | submit u force =>
    rw [hkind] at hcompleted hsubmits
    obtain rfl : u = t := of_decide_eq_true hsubmits
    exact (hcompleted cell' hcell').1 hsubmitted
  | ping ticket payload =>
    rw [hkind] at hsubmits
    cases hsubmits
  | sessions ticket stream =>
    rw [hkind] at hsubmits
    cases hsubmits

/-- The promise of a request that has been destroyed is broken. -/
theorem ready_of_removed (h : c.Queued) {removed : List Request} {r : Request} {ticket : ℕ}
    (hsplit : c.requests = removed ++ c'.requests) (hcommands : c'.commands.Sublist c.commands)
    (hpushes : c'.pushes = c.pushes) (hr : r ∈ removed) (hasks : r.kind.asks ticket = true) :
    c'.ready ticket := by
  have honce := h.ticket_once ticket
  have hle := hcommands.countP_le (p := fun command => command.carries (·.asks ticket))
  have hcount : 0 < removed.countP fun r => r.kind.asks ticket :=
    List.countP_pos_iff.mpr ⟨r, hr, hasks⟩
  refine Or.inr ?_
  unfold carried at honce ⊢
  rw [hpushes]
  rw [hsplit, List.countP_append] at honce
  dsimp only at honce ⊢
  omega

/-- A removed request whose transaction is left alone is completed exactly when it is no waiting
submit. -/
theorem completed_iff_of_removed (h : c.Queued) {removed : List Request} {r : Request}
    (hsplit : c.requests = removed ++ c'.requests) (hcommands : c'.commands = c.commands)
    (hpushes : c'.pushes = c.pushes) (hr : r ∈ removed)
    (htxs : ∀ t, r.kind.submits t = true → c'.txs[t]? = c.txs[t]?) :
    c'.completed r.kind ↔ ¬c.waiting r.kind := by
  cases hkind : r.kind with
  | submit t force =>
    have hpending : c.pending t ≠ 0 :=
      carried_of_request (r := r) (by simp [hsplit, hr]) (by simp [hkind, RequestKind.submits])
    have hsame := htxs t (by simp [hkind, RequestKind.submits])
    simp only [completed, waiting, hsame, not_exists, not_and]
    refine forall₂_congr fun cell hcell => ⟨And.left, fun hnot => ⟨hnot, fun haccepted => ?_⟩⟩
    rcases h.submitted t cell hcell hpending with hsubmitted | hclosed
    · exact absurd hsubmitted hnot
    · rw [haccepted] at hclosed
      cases hclosed
  | ping ticket payload =>
    have hready : c'.ready ticket :=
      ready_of_removed h hsplit (hcommands ▸ .refl _) hpushes hr (by simp [hkind, RequestKind.asks])
    simp [completed, waiting, hready]
  | sessions ticket stream =>
    have hready : c'.ready ticket :=
      ready_of_removed h hsplit (hcommands ▸ .refl _) hpushes hr (by simp [hkind, RequestKind.asks])
    simp [completed, waiting, hready]

/-- A handler that removes requests and changes no transaction completes them exactly when no
removed submit is waiting. -/
theorem completes_iff_of_removed (h : c.Queued) {removed : List Request}
    (hsplit : c.requests = removed ++ c'.requests) (hcommands : c'.commands = c.commands)
    (hpushes : c'.pushes = c.pushes) (htxs : c'.txs = c.txs) (hreturns : c'.activity ≠ .crashed) :
    Completes c c' ↔ ∀ r ∈ removed, ¬c.waiting r.kind := by
  have hcompleted : ∀ r ∈ removed, (c'.completed r.kind ↔ ¬c.waiting r.kind) := fun r hr =>
    completed_iff_of_removed h hsplit hcommands hpushes hr fun t _ => by rw [htxs]
  constructor
  · rintro ⟨-, hremoved, -⟩ r hr
    exact (hcompleted r hr).mp ((removed_iff hsplit fun r => c'.completed r.kind).mp hremoved r hr)
  · intro hnone
    have hall : ∀ r ∈ removed, c'.completed r.kind := fun r hr => (hcompleted r hr).mpr (hnone r hr)
    refine ⟨hreturns, ⟨removed, hsplit, hall⟩, fun t => ?_⟩
    exact stranded_of_completed hsplit hcommands (fun t cell hcell hsubmitted =>
      ⟨cell, htxs ▸ hcell, hsubmitted⟩) hall

end Removals

section Handlers

variable {c : Client}

/-- A call of the reactor lets the event loop go on. -/
theorem call_activity (c : Client) (r : ReactorCall) : (c.call r).activity = c.activity :=
  (congrArg Client.activity (call_fields c r)).trans rfl

/-- So does disconnecting. -/
theorem disconnectCon_activity (c : Client) (cause : DisconnectCause) :
    (c.disconnectCon cause).activity = c.activity := by
  unfold disconnectCon
  split <;> rfl

/-- The request for updates lets it go on unless the send throws. -/
theorem requestUpdates_activity (c : Client) (rev : ℕ) :
    (c.requestUpdates rev).activity = c.activity ∨ (c.requestUpdates rev).activity = .thrown := by
  unfold requestUpdates send sendOn
  have hsame := setState_activity c .syncing
  dsimp only
  split
  · exact Or.inl hsame
  · split
    · exact Or.inl hsame
    · split
      · exact Or.inl hsame
      · split
        · exact Or.inr rfl
        · exact Or.inl hsame

/-- The submit response that finds its request completes what it removes exactly when no dropped
submit is waiting. -/
theorem completes_submitResult (h : c.Queued) (hgoes : c.broken = false)
    {dropped rest : List Request} {r : Request} {t : ℕ} {force : Bool}
    (hrequests : c.requests = dropped ++ r :: rest) (hkind : r.kind = .submit t force)
    (code : SubmitCode) (erev : ℕ) :
    Completes c ((onTx { c with requests := rest } t (·.setSubmitResult code)).andThen fun c =>
        if code = .accepted then { c with accepted := c.accepted ++ [⟨t, erev⟩] } else c) ↔
      ∀ r ∈ dropped, ¬c.waiting r.kind := by
  have hr : r ∈ c.requests := by simp [hrequests]
  have hpending : c.pending t ≠ 0 :=
    carried_of_request hr (by simp [hkind, RequestKind.submits])
  have hknown := h.known t hpending
  obtain ⟨cell, hcell⟩ : ∃ cell, c.txs[t]? = some cell := ⟨_, List.getElem?_eq_getElem hknown⟩
  have hstate := h.submitted t cell hcell hpending
  obtain ⟨hthrows, -, hother, hresult⟩ := Transaction.setSubmitResult_spec
    (h.settled cell (List.mem_of_getElem? hcell)) code
  have honTx := onTx_of_cell (c := { c with requests := rest }) hcell (·.setSubmitResult code) hthrows
  rw [honTx, andThen, if_neg (by simpa [broken] using hgoes)]
  generalize hcell' : ({ cell with tx := (cell.tx.setSubmitResult code).1 } : TxCell) = cell'
  have htx : cell'.tx = (cell.tx.setSubmitResult code).1 := by rw [← hcell']
  generalize hnext : (if code = .accepted then _ else _ : Client) = c'
  have hledger : c'.txs = c.txs.set t cell' ∧ c'.commands = c.commands ∧ c'.pushes = c.pushes ∧
      c'.requests = rest ∧ c'.activity = c.activity ∧
      (code = .accepted → ∃ a ∈ c'.accepted, a.tx = t) := by
    rw [← hnext]
    split
    · exact ⟨rfl, rfl, rfl, rfl, rfl, fun _ => ⟨⟨t, erev⟩, by simp, rfl⟩⟩
    · next hcode => exact ⟨rfl, rfl, rfl, rfl, rfl, fun haccepted => absurd haccepted hcode⟩
  obtain ⟨htxs, hcommands, hpushes, hleft, hactivity, haccepted⟩ := hledger
  have hsplit : c.requests = (dropped ++ [r]) ++ c'.requests := by simp [hrequests, hleft]
  have hanswered : c'.completed r.kind := by
    rw [hkind]
    intro last hlast
    rw [htxs, List.getElem?_set_self hknown] at hlast
    obtain rfl := Option.some.inj hlast
    rw [htx]
    rcases hstate with hsubmitted | hclosed
    · rcases hresult hsubmitted with ⟨hcode, hset⟩ | ⟨-, hopen, -⟩ | ⟨-, hclosed⟩
      · exact ⟨by rw [hset]; simp, fun _ => haccepted hcode⟩
      · exact ⟨by simp [hopen], fun hstate => by simp [hopen] at hstate⟩
      · refine ⟨fun hstate => ?_, fun hstate => ?_⟩ <;> simp [hstate, TxState.isClosed] at hclosed
    · rw [hother fun hsubmitted => by simp [hsubmitted, TxState.isClosed] at hclosed]
      refine ⟨fun hstate => ?_, fun hstate => ?_⟩ <;> simp [hstate, TxState.isClosed] at hclosed
  have hdropped : ∀ r' ∈ dropped, (c'.completed r'.kind ↔ ¬c.waiting r'.kind) := by
    intro r' hr'
    refine completed_iff_of_removed h hsplit hcommands hpushes (by simp [hr']) fun u hu => ?_
    have hne : t ≠ u := by
      rintro rfl
      have honce := h.once t
      have hcount : 0 < dropped.countP fun r => r.kind.submits t :=
        List.countP_pos_iff.mpr ⟨r', hr', hu⟩
      unfold pending carried at honce
      rw [hrequests, List.countP_append, List.countP_cons, hkind] at honce
      simp only [RequestKind.submits, decide_true, if_true] at honce hcount
      omega
    rw [htxs, List.getElem?_set_ne hne]
  constructor
  · rintro ⟨-, hremoved, -⟩ r' hr'
    have hall := (removed_iff hsplit fun r => c'.completed r.kind).mp hremoved
    exact (hdropped r' hr').mp (hall r' (by simp [hr']))
  · intro hnone
    have hall : ∀ r' ∈ dropped ++ [r], c'.completed r'.kind := by
      intro r' hr'
      rcases List.mem_append.mp hr' with hr' | hr'
      · exact (hdropped r' hr').mpr (hnone r' hr')
      · obtain rfl := List.mem_singleton.mp hr'
        exact hanswered
    refine ⟨?_, ⟨_, hsplit, hall⟩, fun u => stranded_of_completed hsplit hcommands
      (fun v last hlast hsubmitted => ?_) hall⟩
    · rw [hactivity]
      rintro hcrashed
      simp [broken, hcrashed] at hgoes
    · by_cases hv : t = v
      · subst hv
        rw [htxs, List.getElem?_set_self hknown] at hlast
        obtain rfl := Option.some.inj hlast
        rw [hkind] at hanswered
        have hlast' : c'.txs[t]? = some cell' := by rw [htxs, List.getElem?_set_self hknown]
        exact absurd hsubmitted (hanswered cell' hlast').1
      · rw [htxs, List.getElem?_set_ne hv] at hlast
        exact ⟨last, hlast, hsubmitted⟩

/-- A submit response completes its request unless it skips or mistakes one. -/
theorem completes_processSubmitResp (h : c.Queued) (hgoes : c.broken = false)
    (resp : SubmitResponse) :
    Completes c (c.processSubmitResp resp) ↔
      (∀ r ∈ c.requests.takeWhile (·.cid < resp.cid), ¬c.waiting r.kind) ∧
        ∀ r ∈ (c.requests.dropWhile (·.cid < resp.cid)).head?, r.cid = resp.cid →
          r.kind.isSubmit = true := by
  have hreturns : c.activity ≠ .crashed := by
    intro hcrashed
    simp [broken, hcrashed] at hgoes
  have hsplit := List.takeWhile_append_dropWhile (p := fun r : Request => r.cid < resp.cid) (l := c.requests)
  generalize c.requests.takeWhile (fun r : Request => r.cid < resp.cid) = dropped at hsplit ⊢
  unfold processSubmitResp
  cases hdrop : c.requests.dropWhile (fun r : Request => r.cid < resp.cid) with
  | nil =>
    rw [hdrop] at hsplit
    have hiff : Completes c { c with requests := [] } ↔ ∀ r ∈ dropped, ¬c.waiting r.kind :=
      completes_iff_of_removed h hsplit.symm rfl rfl rfl hreturns
    dsimp only
    rw [hiff]
    simp
  | cons r rest =>
    rw [hdrop] at hsplit
    dsimp only
    by_cases hcid : r.cid = resp.cid
    · rw [if_neg (by simp [hcid])]
      cases hkind : r.kind with
      | submit t force =>
        dsimp only
        rw [completes_submitResult h hgoes hsplit.symm hkind]
        simp [hkind, RequestKind.isSubmit]
      | ping ticket payload =>
        have hcrash : ¬Completes c (crash { c with requests := rest }) := fun h => h.returns rfl
        simp [hcrash, hcid, hkind, RequestKind.isSubmit]
      | sessions ticket stream =>
        have hcrash : ¬Completes c (crash { c with requests := rest }) := fun h => h.returns rfl
        simp [hcrash, hcid, hkind, RequestKind.isSubmit]
    · have hiff : Completes c { c with requests := r :: rest } ↔
          ∀ r ∈ dropped, ¬c.waiting r.kind :=
        completes_iff_of_removed h hsplit.symm rfl rfl rfl hreturns
      rw [if_pos hcid, hiff]
      simp [hcid]

/-- A ping response completes its request unless it is of another kind. -/
theorem completes_processPingResp (h : c.Queued) (hgoes : c.broken = false) (cid : ℕ) :
    Completes c (c.processPingResp cid) ↔
      ∀ r ∈ c.requests.head?, r.cid = cid → r.kind.isPing = true := by
  have hreturns : c.activity ≠ .crashed := by
    intro hcrashed
    simp [broken, hcrashed] at hgoes
  have hrefl : Completes c c := .of_ledger rfl hreturns
  unfold processPingResp
  cases hrequests : c.requests with
  | nil => simp [hrefl]
  | cons r rest =>
    dsimp only
    by_cases hcid : r.cid = cid
    · rw [if_neg (by simp [hcid])]
      cases hkind : r.kind with
      | ping ticket payload =>
        have hiff : Completes c (reply { c with requests := rest } ticket .latency) ↔
            ∀ r' ∈ [r], ¬c.waiting r'.kind :=
          completes_iff_of_removed h hrequests rfl rfl rfl hreturns
        dsimp only
        rw [hiff]
        simp [hkind, waiting, RequestKind.isPing]
      | submit t force =>
        have hcrash : ¬Completes c (crash { c with requests := rest }) := fun h => h.returns rfl
        simp [hcrash, hcid, hkind, RequestKind.isPing]
      | sessions ticket stream =>
        have hcrash : ¬Completes c (crash { c with requests := rest }) := fun h => h.returns rfl
        simp [hcrash, hcid, hkind, RequestKind.isPing]
    · rw [if_pos hcid]
      simp [hrefl, hcid]

/-- So does a sessions response. -/
theorem completes_processSessionsResp (h : c.Queued) (hgoes : c.broken = false) (cid : ℕ)
    (complete : Bool) :
    Completes c (c.processSessionsResp cid complete) ↔
      ∀ r ∈ c.requests.head?, r.cid = cid → ¬c.waiting r.kind := by
  have hreturns : c.activity ≠ .crashed := by
    intro hcrashed
    simp [broken, hcrashed] at hgoes
  have hrefl : Completes c c := .of_ledger rfl hreturns
  unfold processSessionsResp
  cases hrequests : c.requests with
  | nil => simp [hrefl]
  | cons r rest =>
    dsimp only
    by_cases hcid : r.cid = cid
    · rw [if_neg (by simp [hcid])]
      have hpopped : ∀ {c' : Client}, c'.ledger = ledger { c with requests := rest } →
          c'.activity = c.activity →
          (Completes c c' ↔ ∀ r' ∈ (r :: rest).head?, r'.cid = cid → ¬c.waiting r'.kind) := by
        intro c' hledger hactivity
        have htxs : c'.txs = c.txs := congrArg Ledger.txs hledger
        have hpushes : c'.pushes = c.pushes := congrArg Ledger.pushes hledger
        have hcommands : c'.commands = c.commands := congrArg Ledger.commands hledger
        have hleft : c'.requests = rest := congrArg Ledger.requests hledger
        have hsplit : c.requests = [r] ++ c'.requests := by simp [hrequests, hleft]
        rw [completes_iff_of_removed h hsplit hcommands hpushes htxs
          (by simpa [hactivity] using hreturns)]
        simp [hcid]
      have hdisconnect : ∀ cause, Completes c (disconnectCon { c with requests := rest } cause) ↔
          ∀ r' ∈ (r :: rest).head?, r'.cid = cid → ¬c.waiting r'.kind := fun cause =>
        hpopped ((acts_disconnectCon _ cause).ledger rfl) (disconnectCon_activity _ cause)
      cases hkind : r.kind with
      | sessions ticket stream =>
        dsimp only
        split
        · exact hdisconnect _
        · exact hpopped ((call_ledger _ _).trans rfl) (call_activity _ _)
      | submit t force => exact hdisconnect _
      | ping ticket payload => exact hdisconnect _
    · rw [if_pos hcid]
      simp [hrefl, hcid]

/-- The response about the updates lets the event loop go on. -/
theorem processUpdatesResp_activity (c : Client) (resp : UpdatesResponse) :
    (c.processUpdatesResp resp).activity = c.activity := by
  have hinstall : (c.installRev resp.crev).activity = c.activity := by
    unfold installRev
    split
    · exact setState_activity _ _
    · rfl
  unfold processUpdatesResp
  split
  · exact disconnectCon_activity c _
  · split
    · exact disconnectCon_activity c _
    · dsimp only
      split
      · exact (setState_activity _ _).trans hinstall
      · exact hinstall

/-- So does the end of a snapshot, unless the send throws. -/
theorem finishSnapshot_activity (c : Client) :
    c.finishSnapshot.activity = c.activity ∨ c.finishSnapshot.activity = .thrown := by
  unfold finishSnapshot
  exact (requestUpdates_activity _ _).imp_left fun hsame => hsame.trans (setState_activity _ _)

/-- A client that becomes CLOSED. -/
theorem setState_closed (hopen : c.state ≠ .closed) : c.setState .closed =
    { c with
      state := .closed
      txs := c.txs.map fun cell => { cell with registered := false }
      commands := []
      requests := []
      accepted := [] } := by
  unfold setState
  rw [if_neg hopen, write_of_open hopen]
  rfl

/-- Aborting a client that is not closed empties its queues. -/
theorem abort_ledger (hopen : c.state ≠ .closed) : c.abort.ledger =
    { c.ledger with
      txs := c.ledger.txs.map fun cell => { cell with registered := false }
      commands := []
      requests := []
      accepted := [] } := by
  unfold abort
  rw [if_neg (by simpa [isClosed] using hopen)]
  dsimp only
  rw [setState_closed]
  · rfl
  · exact hopen

/-- The client aborted by its reactor has lost the requests. -/
theorem completes_abort (h : c.Queued) (hopen : c.state ≠ .closed) (hreturns : c.activity ≠ .crashed)
    {c₀ : Client} (hledger : c₀.ledger = c.ledger) (hstate : c₀.state = c.state)
    (hactivity : c₀.activity = c.activity) :
    Completes c c₀.abort ↔ ∀ t (cell : TxCell), c.txs[t]? = some cell →
      cell.tx.state = .submitted →
        c.commands.any (·.submits t) = false ∧ c.requests.any (·.kind.submits t) = false := by
  have hafter := abort_ledger (c := c₀) (by rwa [hstate])
  rw [hledger] at hafter
  have hactivity' : c₀.abort.activity = c.activity := (abort_activity c₀).trans hactivity
  generalize c₀.abort = c' at hafter hactivity'
  have htxs : c'.txs = c.txs.map fun cell => { cell with registered := false } :=
    congrArg Ledger.txs hafter
  have hpushes : c'.pushes = c.pushes := congrArg Ledger.pushes hafter
  have hcommands : c'.commands = [] := congrArg Ledger.commands hafter
  have hleft : c'.requests = [] := congrArg Ledger.requests hafter
  have hsplit : c.requests = c.requests ++ c'.requests := by simp [hleft]
  have hget : ∀ {t : ℕ} {cell' : TxCell}, c'.txs[t]? = some cell' → ∃ cell : TxCell,
      c.txs[t]? = some cell ∧ cell'.tx = cell.tx := by
    intro t cell' hcell'
    rw [htxs, List.getElem?_map] at hcell'
    obtain ⟨cell, hcell, rfl⟩ := Option.map_eq_some_iff.mp hcell'
    exact ⟨cell, hcell, rfl⟩
  constructor
  · intro hcompletes t cell hcell hsubmitted
    refine (hcompletes.stranded t ⟨⟨{ cell with registered := false }, ?_, hsubmitted⟩, ?_, ?_⟩).2
    · rw [htxs, List.getElem?_map, hcell]
      rfl
    · simp [hcommands]
    · simp [hleft]
  · intro hnone
    refine ⟨by rwa [hactivity'], ⟨c.requests, hsplit, fun r hr => ?_⟩, fun t ht => ?_⟩
    · have hready : ∀ ticket, r.kind.asks ticket = true → c'.ready ticket := fun ticket =>
        ready_of_removed h hsplit (by simp [hcommands]) hpushes hr
      cases hkind : r.kind with
      | submit t force =>
        intro cell' hcell'
        obtain ⟨cell, hcell, htx⟩ := hget hcell'
        have hsubmits : r.kind.submits t = true := by simp [hkind, RequestKind.submits]
        rw [htx]
        have hnot : cell.tx.state ≠ .submitted := fun hsubmitted => by
          have hno := List.any_eq_false.mp (hnone t cell hcell hsubmitted).2 r hr
          exact hno hsubmits
        refine ⟨hnot, fun haccepted => ?_⟩
        rcases h.submitted t cell hcell (carried_of_request hr hsubmits) with hsubmitted | hclosed
        · exact absurd hsubmitted hnot
        · rw [haccepted] at hclosed
          cases hclosed
      | ping ticket payload => exact hready ticket (by simp [hkind, RequestKind.asks])
      | sessions ticket stream => exact hready ticket (by simp [hkind, RequestKind.asks])
    · obtain ⟨⟨cell', hcell', hsubmitted⟩, -⟩ := ht
      obtain ⟨cell, hcell, htx⟩ := hget hcell'
      rw [htx] at hsubmitted
      exact ⟨⟨cell, hcell, hsubmitted⟩, hnone t cell hcell hsubmitted⟩

/-- A snapshot response completes what waits unless the reactor throws. -/
theorem completes_processSnapshotResp (h : c.Queued) (hgoes : c.broken = false)
    (resp : SnapshotResponse) (throws : Bool) :
    Completes c (c.processSnapshotResp resp throws) ↔
      (c.abortsOn resp throws → ∀ t (cell : TxCell), c.txs[t]? = some cell →
        cell.tx.state = .submitted →
          c.commands.any (·.submits t) = false ∧ c.requests.any (·.kind.submits t) = false) := by
  have hreturns : c.activity ≠ .crashed := by
    intro hcrashed
    simp [broken, hcrashed] at hgoes
  have hdisconnect : ∀ cause, Completes c (c.disconnectCon cause) := fun cause =>
    .of_ledger ((acts_disconnectCon c cause).ledger rfl) (by rwa [disconnectCon_activity])
  unfold processSnapshotResp
  by_cases hunexpected : c.state ≠ .loadingSnapshot ∨ resp.cid ≠ c.dataCid
  · rw [if_pos hunexpected]
    refine iff_of_true (hdisconnect _) fun haborts => ?_
    rcases hunexpected with hstate | hcid
    · exact absurd haborts.1 hstate
    · exact absurd haborts.2.1 hcid
  · rw [if_neg hunexpected]
    push Not at hunexpected
    cases haccepted : resp.accepted with
    | false =>
      refine iff_of_true (hdisconnect _) fun haborts => ?_
      rw [haborts.2.2.1] at haccepted
      cases haccepted
    | true =>
      simp only [Bool.not_true, Bool.false_eq_true, if_false]
      have hledger := (acts_loadSnapshot c resp.snapshot).ledger rfl
      have hload : (c.loadSnapshot resp.snapshot).activity = c.activity ∨
          (c.loadSnapshot resp.snapshot).activity = .thrown := by
        unfold loadSnapshot
        split
        · exact Or.inl rfl
        · split
          · exact Or.inl rfl
          · exact Or.inr rfl
      have hstate := loadSnapshot_state c resp.snapshot
      have hreactor : (c.loadSnapshot resp.snapshot).hasReactor = c.hasReactor := by
        unfold loadSnapshot
        split
        · rfl
        · split <;> rfl
      have hopen : c.state ≠ .closed := by simp [hunexpected.1]
      generalize hloaded : c.loadSnapshot resp.snapshot = c₁ at hledger hload hstate hreactor ⊢
      have haborts : c.abortsOn resp throws ↔
          c₁.broken = false ∧ (c₁.hasReactor = true ∧ throws = true) := by
        simp [abortsOn, hunexpected.1, hunexpected.2, haccepted, hloaded, hreactor]
      rw [haborts]
      unfold andThen
      by_cases hbroken : c₁.broken = true
      · rw [if_pos hbroken]
        refine iff_of_true (.of_ledger hledger ?_) (by simp [hbroken])
        rcases hload with hsame | hthrown
        · rwa [hsame]
        · simp [hthrown]
      · rw [if_neg hbroken]
        have hsame : c₁.activity = c.activity := by
          rcases hload with hsame | hthrown
          · exact hsame
          · simp [broken, hthrown] at hbroken
        have hcall : (c₁.call .initialData).ledger = c.ledger := (call_ledger _ _).trans hledger
        have hcalled : (c₁.call .initialData).activity = c.activity :=
          (call_activity _ _).trans hsame
        have hcallState : (c₁.call .initialData).state = c.state := (call_state _ _).trans hstate
        have hcallReactor : (c₁.call .initialData).hasReactor = c₁.hasReactor := by
          unfold call
          split <;> rfl
        dsimp only
        generalize c₁.call .initialData = c₂ at hcall hcalled hcallState hcallReactor ⊢
        cases hthrows : c₂.hasReactor && throws with
        | true =>
          rw [if_pos rfl, completes_abort h hopen hreturns
            (((acts_disconnectCon c₂ _).ledger rfl).trans hcall) ?_
            ((disconnectCon_activity c₂ _).trans hcalled)]
          · rw [hcallReactor] at hthrows
            simp only [Bool.and_eq_true] at hthrows
            simp [hbroken, hthrows.1, hthrows.2]
          · exact (state_of_link ((acts_disconnectCon c₂ _).link rfl)).trans hcallState
        | false =>
          rw [hcallReactor] at hthrows
          rw [if_neg (by simp)]
          have hfinish := (acts_finishSnapshot (hcallState.trans_ne hopen)).ledger rfl
          refine iff_of_true (.of_ledger (hfinish.trans hcall) ?_) fun haborts => ?_
          · rcases finishSnapshot_activity c₂ with hsame | hthrown
            · rwa [hsame, hcalled]
            · simp [hthrown]
          · rw [haborts.2.1, haborts.2.2] at hthrows
            cases hthrows

end Handlers

section Runs

variable {globMatch : Glob} {c : Client}

/-- A message of the session completes what it removes exactly when it is expected. -/
theorem completes_iff_expects (h : c.Queued) {i : ℕ} (hreading : c.activity = .reading i)
    (hi : c.con = some i) (msg : ServerMsg) (throws : Bool) :
    Completes c (c.onMsgReceived i (some msg) throws) ↔ c.expects throws msg := by
  have hgoes : c.broken = false := by simp [broken, hreading]
  have hreturns : c.activity ≠ .crashed := by simp [hreading]
  have hdisconnect : ∀ cause, Completes c (c.disconnect i cause) := fun cause =>
    .of_ledger rfl hreturns
  unfold onMsgReceived
  cases msg with
  | loginResponse resp =>
    refine iff_of_true ?_ trivial
    dsimp only
    unfold processLoginResp
    rw [if_pos (by simp [hi])]
    exact hdisconnect _
  | submitResponse resp =>
    simp only [hi, ne_eq, not_true_eq_false, if_false]
    exact completes_processSubmitResp h hgoes resp
  | snapshotResponse resp =>
    simp only [hi, ne_eq, not_true_eq_false, if_false]
    exact completes_processSnapshotResp h hgoes resp throws
  | updatesResponse resp =>
    simp only [hi, ne_eq, not_true_eq_false, if_false]
    refine iff_of_true (.of_ledger ((acts_processUpdatesResp c resp).ledger rfl) ?_) trivial
    rwa [processUpdatesResp_activity]
  | updatesPush resp =>
    simp only [hi, ne_eq, not_true_eq_false, if_false]
    refine iff_of_true (.of_ledger ((acts_processUpdatesPush c i resp).ledger rfl) ?_) trivial
    unfold processUpdatesPush
    split
    · rwa [disconnectCon_activity]
    · split
      · exact hreturns
      · simp
  | pingResponse cid =>
    simp only [hi, ne_eq, not_true_eq_false, if_false]
    exact completes_processPingResp h hgoes cid
  | sessionsResponse cid complete =>
    simp only [hi, ne_eq, not_true_eq_false, if_false]
    exact completes_processSessionsResp h hgoes cid complete
  | sessionsPush cid complete =>
    simp only [hi, ne_eq, not_true_eq_false, if_false]
    refine iff_of_true (.of_ledger ((acts_processSessionsPush c cid complete).ledger rfl) ?_) trivial
    unfold processSessionsPush
    split
    · rwa [disconnectCon_activity]
    · split
      · rwa [disconnectCon_activity]
      · rwa [call_activity]
  | keepalivePush =>
    simp only [hi, ne_eq, not_true_eq_false, if_false]
    exact iff_of_true (.of_ledger rfl hreturns) trivial
  | unexpected =>
    simp only [hi, ne_eq, not_true_eq_false, if_false]
    exact iff_of_true (hdisconnect _) trivial

/-- A message completes its request if and only if it matches. -/
theorem completes_iff_matched (h : c.Queued) (e : Event) : c.completes e ↔ c.matched e := by
  cases e with
  | message msg throws =>
    cases msg with
    | none =>
      refine iff_of_true (fun i hreading hi => ?_) trivial
      exact .of_ledger rfl (by simp [onMsgReceived, disconnect, hreading])
    | some msg =>
      refine forall_congr' fun i => forall₂_congr fun hreading hi => ?_
      exact completes_iff_expects h hreading hi msg throws
  | _ => exact Iff.rfl

/-- Along a run, the messages of the session complete every request that they remove, and strand no
transaction, exactly when each is expected. -/
theorem completes_run_iff_matched (globMatch : Glob) (user password : Bytes)
    (maxActiveTxs rev0 servers : ℕ) (hasReactor : Bool) (events : List Event) (last : Client) :
    Run (step globMatch) completes (create user password maxActiveTxs rev0 servers hasReactor) events
        last ↔
      Run (step globMatch) matched (create user password maxActiveTxs rev0 servers hasReactor) events
        last :=
  Run.change_iff Queued (fun _ _ _ hstep h => queued_step h hstep)
    (fun _ e h => completes_iff_matched h e) (queued_create _ _ _ _ _ _)

/-- Two submits are sent and the server answers the second one first: the transaction of the first
one stays SUBMITTED, and nothing refers to it. -/
theorem older_submit_stays_submitted :
    ¬∀ (events : List Event) (c : Client) (e : Event),
      Run (step fun _ _ => true) anyStep (create [1] [2] 0 0 1 false) events c → c.completes e := by
  intro h
  have hexec : (execute (step fun _ _ => true) (fun _ _ => true) (create [1] [2] 0 0 1 false)
      [.start none, .connected 0, .read 0,
        .message (some (.loginResponse ⟨.authorized, 0, 0, true, true, 10, [⟨15, [42]⟩]⟩)) false,
        .readEnd, .createTx .readCommitted false, .createTx .readCommitted false, .submit 0 true,
        .pushCheck 0, .pushLocked 0, .submit 1 true, .pushCheck 0, .pushLocked 0, .async, .command,
        .command, .commandsEnd, .read 0]).map (fun c => decide (c.activity = .reading 0 ∧
        c.con = some 0 ∧ c.requests = [⟨2, .submit 0 true⟩, ⟨3, .submit 1 true⟩] ∧
        c.txs.map (·.tx.state) = [.submitted, .submitted])) = some true := by
    decide +kernel
  obtain ⟨c, hrun, hend⟩ := exists_run_of_execute (fun _ _ _ => trivial) hexec
  obtain ⟨hreading, hcon, hrequests, hstates⟩ := of_decide_eq_true hend
  have hcompletes := h _ c (.message (some (.submitResponse ⟨3, .accepted, 1⟩)) false) hrun 0
    hreading hcon
  obtain ⟨hnone, -⟩ := (completes_iff_expects (queued_run hrun) hreading hcon
    (.submitResponse ⟨3, .accepted, 1⟩) false).mp hcompletes
  obtain ⟨cell, hcell, hsubmitted⟩ := exists_cell_of_states hstates (t := 0) rfl
  exact hnone ⟨2, .submit 0 true⟩ (by simp [hrequests]) ⟨cell, hcell, hsubmitted⟩

end Runs

end Client

end Nplex
