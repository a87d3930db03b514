import Nplex.Delivery.Tracking

/-!
# Catching up

A synced client should have the content it started from with every later commit applied once and in
order. Each message of the server and each update is followed from one position of the session to
the next. A client that takes over the revision of a response when it connects again, or asks for
the updates after revision 0, passes over the commits made in between.
-/

namespace Nplex

open Nplex.Common

namespace World

section Messages

variable {w : World} {i : ℕ}

/-- A client that reads is live. -/
theorem live_of_reading (hsound : w.client.Sound) (hreading : w.client.activity = .reading i) :
    w.client.live :=
  ⟨by simp [Client.broken, hreading], Or.inr (hsound.busy (by simp [hreading]))⟩

/-- The connection that the client reads is connected. -/
theorem connected_of_reading (hsound : w.client.Sound) (hreading : w.client.activity = .reading i) :
    w.client.connected i :=
  hsound.reading i (by rw [hreading]; rfl)

/-- A client that reads has no updates left from a push. -/
theorem rest_of_reading {c : Client} (hreading : c.activity = .reading i) : c.activity.rest = [] := by
  rw [hreading]
  rfl

/-- A message that comes in the session of its connection is awaited in a state with a cid. -/
theorem awaitsData_eq (hreading : w.client.activity = .reading i) (hcon : w.client.con = some i)
    (state : ClientState) (cid : ℕ) :
    w.client.awaitsData state cid =
      (decide (w.client.state = state) && decide (cid = w.client.dataCid)) := by
  simp [Client.awaitsData, hreading, hcon]

/-- A message that is apart from the data. -/
theorem follow_message {c' : Client} {msg : Option ServerMsg} {throws : Bool} (hg : w.Grounded)
    (ht : w.Tracked) (hsound : w.client.Sound) (hreading : w.client.activity = .reading i)
    (hbase : w.baseAfter (.message msg throws) = w.base) (happ : w.client.Apart c')
    (hkeeps : w.client.Keeps c') :
    (w.follow (.message msg throws) c').Grounded ∧ (w.follow (.message msg throws) c').Tracked :=
  have hlive := live_of_reading hsound hreading
  ⟨hg.apart hbase happ fun _ => hlive, ht.apart happ (Client.rest_of_keeps hkeeps)
    (Or.inr (rest_of_reading hreading)) (by simp) fun _ => hlive⟩

/-- The login response is refused, or a session begins with the request for the updates or for the
snapshot. -/
theorem follow_login (hg : w.Grounded) (ht : w.Tracked) (hsound : w.client.Sound)
    (hreading : w.client.activity = .reading i) (hnew : (w.peers i).loggedIn = false)
    (resp : LoginResponse) (throws : Bool) :
    (w.follow (.message (some (.loginResponse resp)) throws)
        (w.client.processLoginResp i resp throws)).Grounded ∧
      (w.follow (.message (some (.loginResponse resp)) throws)
        (w.client.processLoginResp i resp throws)).Tracked := by
  have hsilent := ht.silent i hnew
  have hlogin : ((w.peers i).hear i w.client
      (.message (some (.loginResponse resp)) throws)).loggedIn = true := by
    simp [Peer.hear, hreading]
  have hlive := live_of_reading hsound hreading
  have hkeeps := (Client.acts_processLoginResp w.client i resp throws).keeps rfl
  have hdone := Client.processLoginResp_done (connected_of_reading hsound hreading) resp throws
  generalize w.client.processLoginResp i resp throws = c' at hkeeps hdone ⊢
  have hrest : c'.live → c'.activity.rest = [] := fun hgoes =>
    (Client.rest_of_keeps hkeeps hgoes).trans (rest_of_reading hreading)
  have hbounded : c'.feed = w.client.feed → c'.live → c'.store.rev ≤ w.currentRev := fun hfeed _ => by
    have hstore : c'.store = w.client.store := congrArg Client.Feed.store hfeed
    rw [hstore]
    exact ht.bounded hlive
  cases hdone with
  | apart happ => exact follow_message hg ht hsound hreading rfl happ hkeeps
  | alone hfeed hcon hasked hstate =>
    refine ⟨hg.follow rfl (holding_of_feed hfeed) (fun _ => hlive) (fun hloading => ?_)
      fun hsynced => ?_, .follow ht.toLogins hasked (Or.inl hcon) (by simp) (hbounded hfeed)
      (fun hgoes _ => hrest hgoes) (by simp [hcon])⟩
    · rcases hstate with hsyncing | ⟨-, hfresh⟩
      · rw [hsyncing] at hloading
        cases hloading
      · exact hfresh
    · rcases hstate with hsyncing | ⟨hloading, -⟩
      · rw [hsyncing] at hsynced
        cases hsynced
      · rw [hloading] at hsynced
        cases hsynced
  | asks hstarted hfeed hcon hstate hasked =>
    have hinitialized : c'.initialized = w.client.initialized := Client.initialized_of_feed hfeed
    have hrev0 : c'.rev0 = w.client.rev0 := congrArg Client.Feed.rev0 hfeed
    have hstore : c'.store = w.client.store := congrArg Client.Feed.store hfeed
    have hone : c'.asked = w.client.asked ++ [(c'.dataCid, w.client.wanted)].map (Prod.mk i) := hasked
    refine ⟨hg.follow rfl (holding_of_feed hfeed) (fun _ => hlive) (by simp [hstate])
      (by simp [hstate]), .begin ht.toLogins hone hcon hlogin (by simp) (hbounded hfeed) fun hgoes =>
        .asked hstate ?_ (hrest hgoes) ?_ hsilent.outbox hsilent.stream⟩
    · rcases hstarted with hdone | hzero
      · exact Or.inl (hinitialized.trans hdone)
      · exact Or.inr (hrev0.trans hzero)
    · simp [hsilent.requests, Client.standing, Standing.wanted, Client.wanted, hinitialized, hstore]
  | loads hfresh hfeed hcon hstate hasked =>
    have hnone : c'.asked = w.client.asked ++ ([] : List (ℕ × ℕ)).map (Prod.mk i) := by
      rw [hasked, List.map_nil, List.append_nil]
    exact ⟨hg.follow rfl (holding_of_feed hfeed) (fun _ => hlive) (fun _ => hfresh)
      (by simp [hstate]), .begin ht.toLogins hnone hcon hlogin (by simp) (hbounded hfeed)
        fun hgoes => .loading hstate (hrest hgoes)
          ⟨by simp [hsilent.requests], hsilent.outbox, hsilent.stream⟩⟩

/-- A live client in a session awaits the snapshot with nothing about updates under way. -/
theorem silent_of_loading (hg : w.Grounded) (ht : w.Tracked) (hlive : w.client.live)
    (hcon : w.client.con = some i) (hloading : w.client.state = .loadingSnapshot) :
    (w.peers i).Silent := by
  cases ht.position hlive i hcon with
  | loading hstate hrest hsilent => exact hsilent
  | asked hstate => simp [Client.standing, hloading] at hstate
  | answered hstate => simp [Client.standing, hloading] at hstate
  | streaming hinitialized =>
    have hinitialized : w.client.initialized = true := hinitialized
    rw [(hg.loading hloading).1] at hinitialized
    cases hinitialized

/-- The snapshot that is taken, if there is one, becomes the base. -/
theorem baseAfter_snapshot (hreading : w.client.activity = .reading i)
    (hcon : w.client.con = some i) {resp : SnapshotResponse} {throws : Bool} :
    w.baseAfter (.message (some (.snapshotResponse resp)) throws) =
      if w.client.state = .loadingSnapshot ∧ resp.cid = w.client.dataCid ∧ resp.accepted = true then
        resp.snapshot.elim w.base fun snapshot => (snapshot.content, snapshot.rev)
      else w.base := by
  simp only [baseAfter, awaitsData_eq hreading hcon, Bool.and_eq_true, decide_eq_true_eq, and_assoc]
  cases resp.snapshot <;> rfl

/-- What is loaded is the base from then on. -/
theorem base_of_loaded {c' : Client} (hg : w.Grounded) (hlive : w.client.live)
    (hreading : w.client.activity = .reading i) (hcon : w.client.con = some i)
    {resp : SnapshotResponse} (hloading : w.client.state = .loadingSnapshot)
    (hcid : resp.cid = w.client.dataCid) (haccepted : resp.accepted = true)
    (hload : w.client.HasLoaded c' resp.snapshot) (throws : Bool) :
    w.baseAfter (.message (some (.snapshotResponse resp)) throws) = (c'.store.data, c'.store.rev) := by
  rw [baseAfter_snapshot hreading hcon, if_pos ⟨hloading, hcid, haccepted⟩]
  cases hsnapshot : resp.snapshot with
  | some snapshot =>
    rw [hsnapshot] at hload
    rw [Option.elim_some, hload.1, hload.2]
  | none =>
    rw [hsnapshot] at hload
    have hstore : c'.store = w.client.store := hload
    obtain ⟨hdata, hrev⟩ := hg.loaded hlive (hg.loading hloading).1
    rw [Option.elim_none, hstore, hdata, hrev]

/-- The response to the request for the snapshot is refused, ends the session, or brings the content
that the client starts from. -/
theorem follow_snapshot (hg : w.Grounded) (ht : w.Tracked) (hsound : w.client.Sound)
    (hreading : w.client.activity = .reading i) (hcon : w.client.con = some i)
    {resp : SnapshotResponse} (hrev : ∀ s, resp.snapshot = some s → s.rev ≤ w.currentRev)
    (throws : Bool) :
    (w.follow (.message (some (.snapshotResponse resp)) throws)
        (w.client.processSnapshotResp resp throws)).Grounded ∧
      (w.follow (.message (some (.snapshotResponse resp)) throws)
        (w.client.processSnapshotResp resp throws)).Tracked := by
  have hlive := live_of_reading hsound hreading
  have hkeeps := (Client.acts_processSnapshotResp w.client resp throws).keeps rfl
  have hdone := Client.processSnapshotResp_done hcon (connected_of_reading hsound hreading) resp throws
  generalize w.client.processSnapshotResp resp throws = c' at hkeeps hdone ⊢
  have hrest : c'.live → c'.activity.rest = [] := fun hgoes =>
    (Client.rest_of_keeps hkeeps hgoes).trans (rest_of_reading hreading)
  have hbounded : w.client.HasLoaded c' resp.snapshot → c'.store.rev ≤ w.currentRev := fun hload => by
    cases hsnapshot : resp.snapshot with
    | some snapshot =>
      rw [hsnapshot] at hload
      exact hload.2.le.trans (hrev snapshot hsnapshot)
    | none =>
      rw [hsnapshot] at hload
      have hstore : c'.store = w.client.store := hload
      rw [hstore]
      exact ht.bounded hlive
  -- the content is not the client's before the snapshot is loaded
  have hbefore : w.client.state = .loadingSnapshot → c'.rev0 = w.client.rev0 →
      c'.initialized = w.client.initialized → c'.state ≠ .synced →
      (c'.live → w.baseAfter (.message (some (.snapshotResponse resp)) throws) =
        (c'.store.data, c'.store.rev)) →
      (w.follow (.message (some (.snapshotResponse resp)) throws) c').Grounded := by
    intro hloading hrev0 hinitialized hsynced hbase
    obtain ⟨hnot, hzero⟩ := hg.loading hloading
    have hnot : c'.initialized = false := hinitialized.trans hnot
    refine ⟨hg.ordered, hg.wellFormed, fun _ => ⟨hnot, hrev0.trans_ne hzero⟩,
      fun hstate => absurd hstate hsynced, fun hrev => absurd (hrev0.symm.trans hrev) hzero,
      fun hgoes _ => ?_, fun hdone => ?_⟩
    · have hbase : (w.follow (.message (some (.snapshotResponse resp)) throws) c').base =
          (c'.store.data, c'.store.rev) := hbase hgoes
      rw [hbase]
      exact ⟨rfl, rfl⟩
    · rw [show c'.initialized = true from hdone] at hnot
      cases hnot
  cases hdone with
  | apart happ hrefused =>
    refine follow_message hg ht hsound hreading ?_ happ hkeeps
    rw [baseAfter_snapshot hreading hcon, if_neg]
    rintro ⟨hloading, hcid, haccepted⟩
    rw [hrefused hloading hcid] at haccepted
    cases haccepted
  | failed hloading hbroken hstate hsame hrev0 hinitialized hasked =>
    have hdead : ¬c'.live := fun hgoes => by
      rw [hgoes.1] at hbroken
      cases hbroken
    exact ⟨hbefore hloading hrev0 hinitialized (by simp [hstate, hloading])
        fun hgoes => absurd hgoes hdead,
      .follow ht.toLogins hasked (Or.inr hsame) (by simp) (fun hgoes => absurd hgoes hdead)
        (fun hgoes => absurd hgoes hdead) fun hgoes => absurd hgoes hdead⟩
  | ended hloading hcid haccepted hstate hnone hrev0 hinitialized hasked hload =>
    have hbase := base_of_loaded hg hlive hreading hcon hloading hcid haccepted hload throws
    exact ⟨hbefore hloading hrev0 hinitialized (by simp [hstate]) fun _ => hbase,
      .follow ht.toLogins hasked (Or.inl hnone) (by simp) (fun _ => hbounded hload)
        (fun hgoes _ => hrest hgoes) (by simp [hnone])⟩
  | loaded hloading hcid haccepted hstate hsome hrev0 hinitialized hasked hload =>
    obtain ⟨hnot, hzero⟩ := hg.loading hloading
    have hsilent := silent_of_loading hg ht hlive hcon hloading
    have hone : c'.asked = w.client.asked ++ [(c'.dataCid, c'.store.rev)].map (Prod.mk i) := hasked
    have hbase : (w.follow (.message (some (.snapshotResponse resp)) throws) c').base =
        (c'.store.data, c'.store.rev) :=
      base_of_loaded hg hlive hreading hcon hloading hcid haccepted hload throws
    refine ⟨⟨hg.ordered, hg.wellFormed, fun h => ?_, fun _ => hinitialized,
      fun h => absurd (hrev0.symm.trans h) hzero, fun _ h => ?_, fun _ => ⟨?_, hbounded hload, ?_⟩⟩,
      .begin ht.toLogins hone hsome ?_ (by simp) (fun _ => hbounded hload) fun hgoes =>
        .asked hstate (Or.inl hinitialized) (hrest hgoes) ?_ hsilent.outbox hsilent.stream⟩
    · rw [show c'.state = .loadingSnapshot from h] at hstate
      cases hstate
    · rw [show c'.initialized = false from h] at hinitialized
      cases hinitialized
    · rw [hbase]
      exact le_rfl
    · rw [hbase, show (w.follow (.message (some (.snapshotResponse resp)) throws) c').client = c'
        from rfl, commitsBetween_self]
      rfl
    · simpa [Peer.hear] using ht.session i hcon
    · simp [hsilent.requests, Client.standing, Standing.wanted, hinitialized]

/-- A response that fits leaves the client where the server begins to push. -/
theorem response_origin {c c' : Client} {crev : ℕ} (hdone : c.UpdatesDone c' crev)
    (hstarted : c.initialized = true ∨ c.rev0 = 0)
    (hfits : c.initialized = true → crev = c.store.rev ∨ (c.rev0 ≠ 0 ∧ c.store.rev ≠ 0)) :
    c'.initialized = true ∧ c'.store.rev = origin c.standing.wanted crev := by
  unfold origin Standing.wanted Client.standing
  dsimp only
  by_cases hzero : c.rev0 = 0
  · obtain ⟨hrev, hinitialized⟩ := hdone.installed hzero
    refine ⟨hinitialized, hrev.trans ?_⟩
    cases hbefore : c.initialized with
    | false => rfl
    | true =>
      have hsame := (hfits hbefore).resolve_right fun h => h.1 hzero
      split_ifs <;> omega
  · obtain ⟨hrev, hinitialized⟩ := hdone.kept hzero
    have hbefore := hstarted.resolve_right hzero
    refine ⟨hinitialized.trans hbefore, hrev.trans ?_⟩
    rw [hbefore, if_pos rfl]
    rcases hfits hbefore with hsame | ⟨-, hsome⟩
    · split_ifs <;> omega
    · rw [if_neg hsome]

/-- A response that fits leaves the data alone, or the client starts from the empty content. -/
theorem grounded_response {c' : Client} {resp : UpdatesResponse} (hg : w.Grounded)
    (hlive : w.client.live) (hawaits : w.client.awaitsData .syncing resp.cid = true)
    (haccepted : resp.accepted = true) (hdone : w.client.UpdatesDone c' resp.crev)
    (hstarted : w.client.initialized = true ∨ w.client.rev0 = 0)
    (hfits : w.client.initialized = true →
      resp.crev = w.client.store.rev ∨ (w.client.rev0 ≠ 0 ∧ w.client.store.rev ≠ 0))
    (hcrev : resp.crev ≤ w.currentRev) :
    (w.follow (.message (some (.updatesResponse resp)) false) c').Grounded := by
  obtain ⟨hinitialized, -⟩ := response_origin hdone hstarted hfits
  have hstate : c'.state ≠ .loadingSnapshot := by
    rcases hdone.state with hsynced | hsyncing
    · simp [hsynced]
    · simp [hsyncing]
  cases hbefore : w.client.initialized with
  | true =>
    refine hg.follow (by simp [baseAfter, hbefore]) ?_ (fun _ => hlive)
      (fun hloading => absurd hloading hstate) fun _ => hbefore
    have hrev : c'.store.rev = w.client.store.rev := by
      by_cases hzero : w.client.rev0 = 0
      · exact (hdone.installed hzero).1.trans
          ((hfits hbefore).resolve_right fun h => h.1 hzero)
      · exact (hdone.kept hzero).1
    simp only [Client.holding, hdone.rev0, hinitialized, hbefore, hrev, hdone.data]
  | false =>
    have hzero := hstarted.resolve_left (by simp [hbefore])
    have hrev : (w.follow (.message (some (.updatesResponse resp)) false) c').client.store.rev =
        resp.crev := (hdone.installed hzero).1
    have hbase : (w.follow (.message (some (.updatesResponse resp)) false) c').base =
        (∅, resp.crev) := by
      simp [World.follow, baseAfter, hawaits, haccepted, hbefore]
    refine ⟨hg.ordered, hg.wellFormed, fun hloading => absurd hloading hstate, fun _ => hinitialized,
      fun _ => by rw [hbase], fun _ hnot => ?_, fun _ => ⟨?_, ?_, ?_⟩⟩
    · rw [show c'.initialized = false from hnot] at hinitialized
      cases hinitialized
    · rw [hbase, hrev]
    · rw [hrev]
      exact hcrev
    · rw [hbase, hrev, commitsBetween_self]
      exact hdone.data.trans ((hg.loaded hlive hbefore).1.trans (hg.empty hzero))

/-- The response to the request for the updates begins the stream. -/
theorem follow_response (hg : w.Grounded) (ht : w.Tracked) (hsound : w.client.Sound)
    (hreading : w.client.activity = .reading i) (hcon : w.client.con = some i)
    {resp : UpdatesResponse} {rest : List DataMsg}
    (houtbox : (w.peers i).outbox = .response resp :: rest)
    (hfits : w.client.initialized = true →
      resp.crev = w.client.store.rev ∨ (w.client.rev0 ≠ 0 ∧ w.client.store.rev ≠ 0)) :
    ((w.setPeer i { w.peers i with outbox := rest }).follow
        (.message (some (.updatesResponse resp)) false) (w.client.processUpdatesResp resp)).Grounded ∧
      ((w.setPeer i { w.peers i with outbox := rest }).follow
        (.message (some (.updatesResponse resp)) false)
        (w.client.processUpdatesResp resp)).Tracked := by
  have hlive := live_of_reading hsound hreading
  have hlogins : (w.setPeer i { w.peers i with outbox := rest }).Logins :=
    ht.toLogins.setPeer (ht.session i hcon)
  cases ht.position hlive i hcon with
  | loading hstate hrest hsilent =>
    rw [hsilent.outbox] at houtbox
    cases houtbox
  | asked hstate hstarted hrest hasked hempty hnone =>
    rw [hempty] at houtbox
    cases houtbox
  | @streaming hinitialized hdone after pushes hfull =>
    rw [hfull] at houtbox
    cases pushes <;> cases houtbox
  | @answered hstate hstarted hrest hnone crev after pushes hfull hcids hfed hcrev hafter hahead =>
    rw [hfull] at houtbox
    obtain ⟨hhead, rfl⟩ := List.cons.inj houtbox
    obtain rfl := DataMsg.response.inj hhead
    have hdone : w.client.UpdatesDone
        (w.client.processUpdatesResp ⟨w.client.standing.dataCid, crev, true⟩) crev :=
      Client.processUpdatesResp_done hstate rfl rfl
    generalize w.client.processUpdatesResp ⟨w.client.standing.dataCid, crev, true⟩ = c' at hdone ⊢
    obtain ⟨hinitialized, horigin⟩ := response_origin hdone hstarted hfits
    have hcon' : c'.con = some i := hdone.con.trans hcon
    have hawaits : w.client.awaitsData .syncing w.client.standing.dataCid = true := by
      rw [awaitsData_eq hreading hcon, show w.client.state = .syncing from hstate]
      simp [Client.standing]
    refine ⟨grounded_response (hg.setPeer i _) hlive hawaits rfl hdone hstarted hfits hcrev,
      .follow hlogins hdone.asked (Or.inr hdone.con) (by simp) (fun _ => ?_) (by simp [hcon'])
        fun _ j hj => ?_⟩
    · rw [horigin]
      exact origin_le (wanted_le (ht.bounded hlive)) hcrev
    · obtain rfl : i = j := Option.some.inj (hcon'.symm.trans hj)
      rw [setPeer_peers, if_pos rfl]
      have hrest' : c'.standing.rest = [] := by
        rw [Client.standing, hdone.activity]
        exact hrest
      refine .streaming hinitialized hnone rfl (fun r hr => (hcids r hr).trans hdone.dataCid.symm)
        (hfed.trans (by rw [Client.standing, Client.standing, hdone.dataCid])) hafter ?_
      rw [hrest', List.nil_append]
      exact hahead.trans (by rw [← horigin]; rfl)

/-- The next message of a stream is a push with the cid of the session. -/
theorem follow_push (hg : w.Grounded) (ht : w.Tracked) (hsound : w.client.Sound)
    (hreading : w.client.activity = .reading i) (hcon : w.client.con = some i) {resp : UpdatesPush}
    {rest : List DataMsg} (houtbox : (w.peers i).outbox = .push resp :: rest) :
    ((w.setPeer i { w.peers i with outbox := rest }).follow
        (.message (some (.updatesPush resp)) false) (w.client.processUpdatesPush i resp)).Grounded ∧
      ((w.setPeer i { w.peers i with outbox := rest }).follow
        (.message (some (.updatesPush resp)) false)
        (w.client.processUpdatesPush i resp)).Tracked := by
  have hlive := live_of_reading hsound hreading
  have hlogins : (w.setPeer i { w.peers i with outbox := rest }).Logins :=
    ht.toLogins.setPeer (ht.session i hcon)
  cases ht.position hlive i hcon with
  | loading hstate hrest hsilent =>
    rw [hsilent.outbox] at houtbox
    cases houtbox
  | asked hstate hstarted hrest hasked hempty hnone =>
    rw [hempty] at houtbox
    cases houtbox
  | answered hstate hstarted hrest hnone hfull =>
    rw [hfull] at houtbox
    cases houtbox
  | @streaming hinitialized hnone after pushes hfull hcids hfed hafter hahead =>
    rw [hfull] at houtbox
    cases pushes with
    | nil => cases houtbox
    | cons first pushes =>
      obtain ⟨hhead, rfl⟩ := List.cons.inj houtbox
      obtain rfl := DataMsg.push.inj hhead
      obtain ⟨happ, hsame, hupdates⟩ := Client.processUpdatesPush_done i
        (hcids first List.mem_cons_self) (rest_of_reading hreading)
      generalize w.client.processUpdatesPush i first = c' at happ hsame hupdates ⊢
      have hcon' : c'.con = some i := hsame.trans hcon
      have hstore : c'.store = w.client.store := congrArg Client.Feed.store happ.feed
      obtain ⟨-, hcid, -⟩ := happ.session.resolve_left (by simp [hcon'])
      refine ⟨(hg.setPeer i _).apart rfl happ fun _ => hlive, .follow hlogins happ.asked (Or.inr hsame) (by simp)
        (fun _ => ?_) (by simp [hcon']) fun _ j hj => ?_⟩
      · rw [hstore]
        exact ht.bounded hlive
      · obtain rfl : i = j := Option.some.inj (hcon'.symm.trans hj)
        rw [setPeer_peers, if_pos rfl]
        refine .streaming ((Client.initialized_of_feed happ.feed).trans hinitialized) hnone rfl
          (fun r hr => (hcids r (List.mem_cons_of_mem first hr)).trans hcid.symm)
          (hfed.trans (by rw [Client.standing, Client.standing, hcid])) hafter ?_
        have hrest' : c'.standing.rest = first.updates := hupdates
        have hrest : w.client.standing.rest = [] := rest_of_reading hreading
        have hrev : c'.standing.rev = w.client.standing.rev := congrArg Store.rev hstore
        rw [hrest', hrev]
        rw [hrest, List.nil_append, List.flatMap_cons, List.append_assoc] at hahead
        exact hahead

end Messages

section Updates

variable {globMatch : Glob} {w : World}

/-- The next commit applied to the content since the base. -/
theorem Built.next {u : Update} {later : List Update} {c' : Client} (h : w.Built)
    (hordered : Ordered Update.rev w.commits)
    (hnext : commitsAfter Update.rev w.client.store.rev w.commits = u :: later)
    (hrev : c'.store.rev = u.rev) (hdata : c'.store.data = applyUpdate w.client.store.data u) :
    (w.follow .update c').Built := by
  obtain ⟨hle, hcurrent, hcontent⟩ := h
  obtain ⟨hlt, hmem, -⟩ := hordered.next hnext
  have hbase : (w.follow .update c').base = w.base := rfl
  have hrev : (w.follow .update c').client.store.rev = u.rev := hrev
  refine ⟨?_, ?_, ?_⟩
  · rw [hbase, hrev]
    exact hle.trans hlt.le
  · rw [hrev]
    exact hordered.le_lastRev hmem
  · rw [hbase, hrev]
    calc c'.store.data = applyUpdate w.client.store.data u := hdata
      _ = ((commitsBetween Update.rev w.base.2 w.client.store.rev w.commits) ++ [u]).foldl applyUpdate
            w.base.1 := by rw [hcontent, List.foldl_append]; rfl
      _ = (commitsBetween Update.rev w.base.2 u.rev w.commits).foldl applyUpdate w.base.1 := by
        rw [hordered.between_next hle hnext]

/-- The updates that the loop comes to are those that are not applied yet. -/
theorem next_of_pushing {u : Update} {rest : List Update} (ht : w.Tracked) (hlive : w.client.live)
    (hrest : w.client.activity.rest = u :: rest) :
    ∃ i, w.client.con = some i ∧ w.client.initialized = true ∧ (w.peers i).requests = [] ∧
      ∃ (after : ℕ) (pushes : List UpdatesPush), (w.peers i).outbox = pushes.map .push ∧
        (∀ resp ∈ pushes, resp.cid = w.client.dataCid) ∧
        (w.peers i).stream = some (w.client.dataCid, after) ∧ after ≤ w.currentRev ∧
        commitsAfter Update.rev w.client.store.rev w.commits =
          u :: (rest ++ (pushes.flatMap (·.updates) ++ commitsAfter Update.rev after w.commits)) := by
  have hsome : w.client.con ≠ none := fun hnone => by
    have hempty := ht.free hlive hnone
    rw [hrest] at hempty
    cases hempty
  obtain ⟨i, hi⟩ := Option.ne_none_iff_exists'.mp hsome
  have hbusy : w.client.standing.rest ≠ [] := by
    rw [show w.client.standing.rest = u :: rest from hrest]
    simp
  refine ⟨i, hi, ?_⟩
  cases ht.position hlive i hi with
  | loading hstate hnone => exact absurd hnone hbusy
  | asked hstate hstarted hnone => exact absurd hnone hbusy
  | answered hstate hstarted hnone => exact absurd hnone hbusy
  | @streaming hinitialized hrequests after pushes hfull hcids hfed hafter hahead =>
    refine ⟨hinitialized, hrequests, after, pushes, hfull, hcids, hfed, hafter, ?_⟩
    rw [show w.client.standing.rest = u :: rest from hrest] at hahead
    exact hahead.symm

/-- The update that the loop comes to is the next commit. -/
theorem follow_update {i crev : ℕ} {u : Update} {rest : List Update} (hg : w.Grounded)
    (ht : w.Tracked) (hlive : w.client.live)
    (hpushing : w.client.activity = .pushing i crev (u :: rest)) :
    (w.follow .update (Client.pushUpdate globMatch
        { w.client with activity := .pushing i crev rest } crev u)).Grounded ∧
      (w.follow .update (Client.pushUpdate globMatch
        { w.client with activity := .pushing i crev rest } crev u)).Tracked := by
  have hrest : w.client.activity.rest = u :: rest := by
    rw [hpushing]
    rfl
  obtain ⟨j, hj, hinitialized, hrequests, after, pushes, hfull, hcids, hfed, hafter, hnext⟩ :=
    next_of_pushing ht hlive hrest
  obtain ⟨hlt, hmem, hlater⟩ := hg.ordered.next hnext
  have hdone := Client.pushUpdate_pushed globMatch
    { w.client with activity := .pushing i crev rest } crev u
  have hkeeps := (Client.acts_pushUpdate globMatch
    { w.client with activity := .pushing i crev rest } crev u).keeps rfl
  generalize Client.pushUpdate globMatch { w.client with activity := .pushing i crev rest } crev u = c'
    at hdone hkeeps ⊢
  obtain ⟨store, changes, hupdate⟩ := Store.update_succeeds hlt (hg.wellFormed u hmem)
  obtain ⟨-, hupdated⟩ := Store.update_ok hupdate
  have hstore : c'.store = store := hdone.store.trans (by rw [hupdate])
  have hrev : c'.store.rev = u.rev := by rw [hstore, hupdated.rev]
  have hdata : c'.store.data = applyUpdate w.client.store.data u := by rw [hstore, hupdated.data]
  have hinitialized' : c'.initialized = w.client.initialized := hdone.initialized
  have hcon' : c'.con = some j := hdone.con.trans hj
  have hbounded : u.rev ≤ w.currentRev := hg.ordered.le_lastRev hmem
  refine ⟨⟨hg.ordered, hg.wellFormed, fun hloading => ?_, fun _ => hinitialized'.trans hinitialized,
    fun hzero => hg.empty (hdone.rev0.symm.trans hzero), fun _ hnot => ?_,
    fun _ => (hg.built hinitialized).next hg.ordered hnext hrev hdata⟩,
    .follow ht.toLogins hdone.asked (Or.inr hdone.con) (by simp)
      (fun _ => hrev.le.trans hbounded) (by simp [hcon']) fun hgoes k hk => ?_⟩
  · have hbefore : w.client.state = .loadingSnapshot := by
      rcases hdone.state with hsame | ⟨-, hsynced⟩
      · exact hsame.symm.trans hloading
      · rw [show c'.state = .loadingSnapshot from hloading] at hsynced
        cases hsynced
    rw [(hg.loading hbefore).1] at hinitialized
    cases hinitialized
  · have hnone : c'.initialized = false := hnot
    rw [hinitialized', hinitialized] at hnone
    cases hnone
  · obtain rfl : j = k := Option.some.inj (hcon'.symm.trans hk)
    have hcid : c'.standing.dataCid = w.client.dataCid := hdone.dataCid
    have hrest' : c'.standing.rest = rest := Client.rest_of_keeps hkeeps hgoes
    refine .streaming (hinitialized'.trans hinitialized) hrequests hfull
      (fun r hr => (hcids r hr).trans hcid.symm) (hfed.trans (by rw [hcid])) hafter ?_
    rw [hrest', show c'.standing.rev = u.rev from hrev]
    exact hlater.symm

end Updates

section Steps

variable {globMatch : Glob} {w w' : World} {c' : Client} {e : Event}

/-- The transactions are not about the data. -/
theorem follow_reap (h : (w.follow e c').Grounded ∧ (w.follow e c').Tracked) :
    (w.follow e c'.reap).Grounded ∧ (w.follow e c'.reap).Tracked :=
  ⟨⟨h.1.ordered, h.1.wellFormed, h.1.loading, h.1.synced, h.1.empty, h.1.loaded,
      fun hdone => ⟨(h.1.built hdone).base_le, (h.1.built hdone).le_current, (h.1.built hdone).data⟩⟩,
    ⟨⟨h.2.silent, h.2.session⟩, h.2.bounded, h.2.free, h.2.position⟩⟩

/-- A message other than those about updates. -/
theorem follow_allowed {i : ℕ} {msg : Option ServerMsg} {throws : Bool} (h : w.OnTrack)
    (hallowed : w.allows (.message msg throws) = true) (hreading : w.client.activity = .reading i) :
    (w.follow (.message msg throws) (w.client.onMsgReceived i msg throws)).Grounded ∧
      (w.follow (.message msg throws) (w.client.onMsgReceived i msg throws)).Tracked := by
  have hother : (∀ resp, msg ≠ some (.loginResponse resp)) →
      (w.client.con = some i → (∀ resp, msg ≠ some (.snapshotResponse resp)) ∧
        (∀ resp, msg ≠ some (.updatesResponse resp)) ∧ ∀ resp, msg ≠ some (.updatesPush resp)) →
      (w.follow (.message msg throws) (w.client.onMsgReceived i msg throws)).Grounded ∧
        (w.follow (.message msg throws) (w.client.onMsgReceived i msg throws)).Tracked := by
    intro hlogin hdata
    obtain ⟨happ, hkeeps⟩ := Client.onMsgReceived_apart i msg throws hlogin hdata
    refine follow_message h.grounded h.tracked h.sound hreading ?_ happ hkeeps
    by_cases hcon : w.client.con = some i
    · obtain ⟨hsnapshot, hresponse, -⟩ := hdata hcon
      unfold baseAfter
      split
      · next resp _ he => exact absurd (Event.message.inj he).1 (hsnapshot resp)
      · next resp _ he => exact absurd (Event.message.inj he).1 (hresponse resp)
      · rfl
    · exact baseAfter_of_stray fun j hj => by rwa [← Activity.reading.inj (hreading.symm.trans hj)]
  cases msg with
  | none => exact hother (by simp) (by simp)
  | some msg =>
    cases msg with
    | loginResponse resp =>
      have hnew : (w.peers i).loggedIn = false := by
        simpa [allows, hreading] using hallowed
      exact follow_login h.grounded h.tracked h.sound hreading hnew resp throws
    | snapshotResponse resp =>
      by_cases hcon : w.client.con = some i
      · have hrev : ∀ s, resp.snapshot = some s → s.rev ≤ w.currentRev := by
          intro s hs
          simpa [allows, hs] using hallowed
        have hmsg : w.client.onMsgReceived i (some (.snapshotResponse resp)) throws =
            w.client.processSnapshotResp resp throws := by
          simp [Client.onMsgReceived, hcon]
        rw [hmsg]
        exact follow_snapshot h.grounded h.tracked h.sound hreading hcon hrev throws
      · exact hother (by simp) fun hsession => absurd hsession hcon
    | updatesResponse resp => cases hallowed
    | updatesPush resp => cases hallowed
    | submitResponse resp => exact hother (by simp) (by simp)
    | pingResponse cid => exact hother (by simp) (by simp)
    | sessionsResponse cid complete => exact hother (by simp) (by simp)
    | sessionsPush cid complete => exact hother (by simp) (by simp)
    | keepalivePush => exact hother (by simp) (by simp)
    | unexpected => exact hother (by simp) (by simp)

/-- A step of the client other than the arrival of a message about updates. -/
theorem follow_effect (h : w.OnTrack) (hallowed : w.allows e = true)
    (heffect : Client.Effect globMatch w.client e c') :
    (w.follow e c').Grounded ∧ (w.follow e c').Tracked := by
  have hlive := fun hgoes => Client.live_of_effect h.sound heffect hgoes
  cases Client.fetched_effect h.sound heffect with
  | apart happ hrest hend hgone hquiet =>
    exact ⟨h.grounded.apart (baseAfter_of_quiet hquiet) happ hlive,
      h.tracked.apart happ hrest hend hgone hlive⟩
  | message he hreading hc' =>
    subst he hc'
    exact follow_allowed h hallowed hreading
  | update he hpushing hc' =>
    subst he hc'
    have hgoes : w.client.live :=
      ⟨by simp [Client.broken, hpushing], Or.inr (h.sound.busy (by simp [hpushing]))⟩
    exact follow_update h.grounded h.tracked hgoes hpushing
  | unwind he hc' =>
    subst he hc'
    obtain ⟨hfeed, hasked, hclosed, hcon, hover⟩ := Client.unwindRun_closes w.client
    exact ⟨h.grounded.follow rfl (holding_of_feed hfeed) (fun hgoes => absurd hgoes hover)
        (by simp [hclosed]) (by simp [hclosed]),
      .follow h.tracked.toLogins hasked (Or.inr hcon) (by simp) (fun hgoes => absurd hgoes hover)
        (fun hgoes => absurd hgoes hover) fun hgoes => absurd hgoes hover⟩

/-- The arrival of a message about updates. -/
theorem follow_arrive {i : ℕ} {msg : DataMsg} {rest : List DataMsg} (h : w.OnTrack)
    (hreading : w.client.activity = .reading i) (houtbox : (w.peers i).outbox = msg :: rest)
    (hfits : w.responseFits .arrive) :
    ((w.setPeer i { w.peers i with outbox := rest }).follow (.message (some msg.msg) false)
        (w.client.onMsgReceived i (some msg.msg) false)).Grounded ∧
      ((w.setPeer i { w.peers i with outbox := rest }).follow (.message (some msg.msg) false)
        (w.client.onMsgReceived i (some msg.msg) false)).Tracked := by
  by_cases hcon : w.client.con = some i
  · cases msg with
    | response resp =>
      have hmsg : w.client.onMsgReceived i (some (DataMsg.response resp).msg) false =
          w.client.processUpdatesResp resp := by
        simp [Client.onMsgReceived, DataMsg.msg, hcon]
      rw [hmsg]
      exact follow_response h.grounded h.tracked h.sound hreading hcon houtbox
        (hfits i resp rest hreading hcon houtbox)
    | push resp =>
      have hmsg : w.client.onMsgReceived i (some (DataMsg.push resp).msg) false =
          w.client.processUpdatesPush i resp := by
        simp [Client.onMsgReceived, DataMsg.msg, hcon]
      rw [hmsg]
      exact follow_push h.grounded h.tracked h.sound hreading hcon houtbox
  · have hbusy : ¬(w.peers i).Silent := fun hsilent => by
      rw [hsilent.outbox] at houtbox
      cases houtbox
    have hlogin := h.tracked.toLogins.loggedIn hbusy
    obtain ⟨happ, hkeeps⟩ := Client.onMsgReceived_apart (c := w.client) i (some msg.msg) false
      (by cases msg <;> simp [DataMsg.msg]) fun hsession => absurd hsession hcon
    refine follow_message (h.grounded.setPeer i _)
      (h.tracked.setPeer hlogin fun _ hsession => absurd hsession hcon) h.sound hreading ?_ happ hkeeps
    exact baseAfter_of_stray fun j hj => by rwa [← Activity.reading.inj (hreading.symm.trans hj)]

/-- Every step of the client and of the server that fits keeps the client on track. -/
theorem onTrack_step {e : WorldEvent} (h : w.OnTrack) (hfits : w.responseFits e)
    (hstep : w.step globMatch e = some w') : w'.OnTrack := by
  cases e with
  | commit u =>
    simp only [step] at hstep
    split_ifs at hstep with hcommit
    obtain rfl := Option.some.inj hstep
    exact ⟨h.sound, grounded_commit h.grounded hcommit.1 hcommit.2,
      tracked_commit h.tracked hcommit.1⟩
  | answer i => exact onTrack_answer h hstep
  | push i n => exact onTrack_push h hstep
  | arrive =>
    simp only [step, arrive] at hstep
    split at hstep
    · next i hreading =>
      split at hstep
      · cases hstep
      · next msg rest houtbox =>
        obtain ⟨c', hc', rfl⟩ := Option.map_eq_some_iff.mp hstep
        obtain ⟨-, c₁, heffect, rfl⟩ := Client.step_effect hc'
        have hsound : c₁.reap.Sound := Client.sound_step h.sound hc'
        cases heffect with
        | message hreading' =>
          obtain rfl := Activity.reading.inj (hreading.symm.trans hreading')
          obtain ⟨hgrounded, htracked⟩ := follow_reap (follow_arrive h hreading houtbox hfits)
          exact ⟨hsound, hgrounded, htracked⟩
    · cases hstep
  | client e =>
    simp only [step] at hstep
    split_ifs at hstep with hallowed
    obtain ⟨c', hc', rfl⟩ := Option.map_eq_some_iff.mp hstep
    obtain ⟨-, c₁, heffect, rfl⟩ := Client.step_effect hc'
    obtain ⟨hgrounded, htracked⟩ := follow_reap (follow_effect h hallowed heffect)
    exact ⟨Client.sound_step h.sound hc', hgrounded, htracked⟩

/-- A client that was just created, and a server without commits. -/
theorem onTrack_create (user password : Bytes) (maxActiveTxs rev0 servers : ℕ) (hasReactor : Bool) :
    OnTrack { client := Client.create user password maxActiveTxs rev0 servers hasReactor } where
  sound := Client.sound_create _ _ _ _ _ _
  grounded := ⟨List.Pairwise.nil, by simp, by simp [Client.create], by simp [Client.create],
    fun _ => rfl, fun _ _ => ⟨rfl, rfl⟩, by simp [Client.create]⟩
  tracked := ⟨⟨fun _ _ => ⟨rfl, rfl, rfl⟩, by simp [Client.create]⟩, fun _ => le_rfl, fun _ _ => rfl,
    by simp [Client.create]⟩

end Steps

/-- On every run in which the responses to the requests of an initialized client pass over no commit,
the content of a synced client is that of the snapshot it has loaded, or the empty one without an
initial revision, with every later commit, up to the revision of the store, applied once and in
order. -/
theorem synced_caughtUp (globMatch : Glob) (user password : Bytes)
    (maxActiveTxs rev0 servers : ℕ) (hasReactor : Bool) (events : List WorldEvent) (w : World)
    (hrun : Run (step globMatch) responseFits
      { client := Client.create user password maxActiveTxs rev0 servers hasReactor } events w)
    (hsynced : w.client.state = .synced) : w.CaughtUp := by
  have htrack : w.OnTrack := hrun.invariant (fun _ _ _ hfits hstep h => onTrack_step h hfits hstep)
    (onTrack_create user password maxActiveTxs rev0 servers hasReactor)
  have hbuilt := htrack.grounded.built (htrack.grounded.synced hsynced)
  exact ⟨htrack.grounded.empty, htrack.grounded.ordered, hbuilt.data⟩

/-- A check that a response fits. -/
def checkFits (w : World) : WorldEvent → Bool
  | .arrive =>
    match w.client.activity with
    | .reading i =>
      match (w.peers i).outbox with
      | .response resp :: _ =>
        !w.client.initialized || resp.crev = w.client.store.rev ||
          (w.client.rev0 ≠ 0 && w.client.store.rev ≠ 0)
      | _ => true
    | _ => true
  | _ => true

/-- A response that was checked fits. -/
theorem responseFits_of_checked {w : World} {e : WorldEvent} (h : w.checkFits e = true) :
    w.responseFits e := by
  cases e with
  | arrive =>
    intro i resp rest hreading _ houtbox hinitialized
    simp only [checkFits, hreading, houtbox, hinitialized, Bool.not_true, Bool.false_or,
      Bool.or_eq_true, Bool.and_eq_true, decide_eq_true_eq] at h
    exact h
  | commit => trivial
  | answer => trivial
  | push => trivial
  | client => trivial

/-- A connection is established, and its login accepted by a server at a revision. -/
def connects (crev : ℕ) : List WorldEvent :=
  [.client (.connected 0), .client (.read 0),
    .client (.message
      (some (.loginResponse ⟨.authorized, 0, crev, true, true, 10, [⟨15, [42]⟩]⟩)) false)]

/-- A commit is made while the session is lost, and the client connects again. -/
def reconnects : List WorldEvent :=
  [.client .readEnd, .client (.failed 0 .closedByPeer), .commit someCommit,
    .client (.closed 0 none (some true) none)] ++ connects 2

/-- A commit that the client gets from the snapshot, and one made while it was not connected. -/
theorem synced_caughtUp_reconnect : ∃ (events : List WorldEvent) (w : World),
    Run (step fun _ _ => true) responseFits { client := Client.create [1] [2] 0 1 1 true } events w ∧
      w.client.state = .synced ∧ w.base.2 = 1 ∧ w.client.store.rev = 2 ∧ w.CaughtUp := by
  have hexec : (execute (step fun _ _ => true) checkFits
      { client := Client.create [1] [2] 0 1 1 true }
      ([.commit { someCommit with rev := 1 }, .client (.start none)] ++ connects 1 ++
        [.client (.message (some (.snapshotResponse
            ⟨1, true, some ⟨1, [{ someCommit with rev := 1 }]⟩⟩)) false), .answer 0, .arrive] ++
        reconnects ++ [.answer 0, .arrive, .push 0 1, .arrive, .client .update])).map
      (fun w => decide (w.client.state = .synced ∧ w.base.2 = 1 ∧ w.client.store.rev = 2)) =
        some true := by
    decide +kernel
  obtain ⟨w, hrun, hend⟩ := exists_run_of_execute (fun _ _ => responseFits_of_checked) hexec
  obtain ⟨hsynced, hbase, hrev⟩ := of_decide_eq_true hend
  exact ⟨_, w, hrun, hsynced, hbase, hrev, synced_caughtUp _ _ _ _ _ _ _ _ w hrun hsynced⟩

/-- A check that a key is missing which the commits since the base have written. -/
def misses (w : World) (k : Key) : Bool :=
  (w.client.store.data[k]?).isNone &&
    (((commitsBetween Update.rev w.base.2 w.client.store.rev w.commits).foldl applyUpdate
      w.base.1)[k]?).isSome

/-- A client that misses a key has not caught up. -/
theorem not_caughtUp_of_misses {w : World} {k : Key} (h : w.misses k = true) : ¬w.CaughtUp := by
  rintro ⟨-, -, hdata⟩
  obtain ⟨hnone, hsome⟩ := Bool.and_eq_true_iff.mp h
  rw [← hdata, Option.isNone_iff_eq_none.mp hnone] at hsome
  cases hsome

/-- A client without an initial revision takes the revision of the response also when it connects
again: the commit made in between is never applied. -/
theorem reconnect_skips_commit :
    ¬∀ (events : List WorldEvent) (w : World),
      Run (step fun _ _ => true) anyStep { client := Client.create [1] [2] 0 0 1 true } events w →
        w.client.state = .synced → w.CaughtUp := by
  intro h
  have hexec : (execute (step fun _ _ => true) (fun _ _ => true)
      { client := Client.create [1] [2] 0 0 1 true }
      ([.commit { someCommit with rev := 1 }, .client (.start none)] ++ connects 1 ++
        [.answer 0, .arrive] ++ reconnects ++ [.answer 0, .arrive])).map
      (fun w => decide (w.client.state = .synced ∧ w.misses [97] = true)) = some true := by
    decide +kernel
  obtain ⟨w, hrun, hend⟩ := exists_run_of_execute (fun s e _ => (trivial : anyStep s e)) hexec
  obtain ⟨hsynced, hmisses⟩ := of_decide_eq_true hend
  exact not_caughtUp_of_misses hmisses (h _ w hrun hsynced)

/-- A client that starts from a snapshot at revision 0 asks for the new updates only: a commit made
before the request is never applied. -/
theorem revision_zero_skips_commit :
    ¬∀ (events : List WorldEvent) (w : World),
      Run (step fun _ _ => true) anyStep { client := Client.create [1] [2] 0 1 1 true } events w →
        w.client.state = .synced → w.CaughtUp := by
  intro h
  have hexec : (execute (step fun _ _ => true) (fun _ _ => true)
      { client := Client.create [1] [2] 0 1 1 true }
      ([.client (.start none)] ++ connects 0 ++
        [.client (.message (some (.snapshotResponse ⟨1, true, some ⟨0, []⟩⟩)) false),
          .commit { someCommit with rev := 1 }, .answer 0, .arrive,
          .commit { someCommit with upserts := [] }, .push 0 1, .arrive, .client .update])).map
      (fun w => decide (w.client.state = .synced ∧ w.misses [97] = true)) = some true := by
    decide +kernel
  obtain ⟨w, hrun, hend⟩ := exists_run_of_execute (fun s e _ => (trivial : anyStep s e)) hexec
  obtain ⟨hsynced, hmisses⟩ := of_decide_eq_true hend
  exact not_caughtUp_of_misses hmisses (h _ w hrun hsynced)

end World

end Nplex
