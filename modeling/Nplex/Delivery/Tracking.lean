import Nplex.Delivery.Position

/-!
# Keeping track of a session

What holds of the data in every state, and of the session and the server's ends of the connections
as long as the client is live. The server's own steps keep it. A step of the client keeps it if it
leaves the data alone, or asks for the updates in a session that begins.
-/

namespace Nplex

open Nplex.Common

/-- What the client has of the data. -/
def Client.holding (c : Client) : ℕ × Bool × ℕ × KeyMap Value :=
  (c.rev0, c.initialized, c.store.rev, c.store.data)

/-- What a client holds is part of its feed. -/
theorem holding_of_feed {c c' : Client} (h : c'.feed = c.feed) : c'.holding = c.holding :=
  congrArg (fun f : Client.Feed => (f.rev0, f.initialized, f.store.rev, f.store.data)) h

namespace World

/-- The store is the base and the commits since. -/
structure Built (w : World) : Prop where
  base_le : w.base.2 ≤ w.client.store.rev
  le_current : w.client.store.rev ≤ w.currentRev
  data : w.client.store.data =
    (commitsBetween Update.rev w.base.2 w.client.store.rev w.commits).foldl applyUpdate w.base.1

/-- What holds of the data in every state. -/
structure Grounded (w : World) : Prop where
  ordered : Ordered Update.rev w.commits
  wellFormed : ∀ u ∈ w.commits, u.wellFormed
  loading : w.client.state = .loadingSnapshot → w.client.initialized = false ∧ w.client.rev0 ≠ 0
  synced : w.client.state = .synced → w.client.initialized = true
  empty : w.client.rev0 = 0 → w.base.1 = ∅
  loaded : w.client.live → w.client.initialized = false →
    w.client.store.data = w.base.1 ∧ w.client.store.rev = w.base.2
  built : w.client.initialized = true → w.Built

/-- Nothing about updates is under way on a connection without a login, and the session's has one. -/
structure Logins (w : World) : Prop where
  silent : ∀ i, (w.peers i).loggedIn = false → (w.peers i).Silent
  session : ∀ i, w.client.con = some i → (w.peers i).loggedIn = true

/-- What holds of the session and of the server's ends of the connections. -/
structure Tracked (w : World) : Prop extends Logins w where
  bounded : w.client.live → w.client.store.rev ≤ w.currentRev
  free : w.client.live → w.client.con = none → w.client.activity.rest = []
  position : w.client.live → ∀ i, w.client.con = some i →
    Position w.client.standing w.commits (w.peers i)

/-- What every step keeps. -/
structure OnTrack (w : World) : Prop where
  sound : w.client.Sound
  grounded : w.Grounded
  tracked : w.Tracked

section Server

variable {w w' : World} {i : ℕ}

/-- The server's end of a connection where something is under way has a login. -/
theorem Logins.loggedIn (h : w.Logins) (hbusy : ¬(w.peers i).Silent) :
    (w.peers i).loggedIn = true := by
  by_contra hnot
  exact hbusy (h.silent i (by simpa using hnot))

/-- The other connections stay as they are. -/
theorem setPeer_peers (w : World) (i : ℕ) (p : Peer) (j : ℕ) :
    (w.setPeer i p).peers j = if j = i then p else w.peers j :=
  Function.update_apply w.peers i p j

/-- A change at the server's end of a connection with a login. -/
theorem Logins.setPeer {p : Peer} (h : w.Logins) (hlogin : p.loggedIn = true) :
    (w.setPeer i p).Logins := by
  refine ⟨fun j hj => ?_, fun j hj => ?_⟩
  · rw [setPeer_peers] at hj ⊢
    split_ifs at hj ⊢
    · rw [hlogin] at hj
      cases hj
    · exact h.silent j hj
  · rw [setPeer_peers]
    split
    · exact hlogin
    · exact h.session j hj

/-- It keeps the client on track if it keeps the position of its session. -/
theorem Tracked.setPeer {p : Peer} (h : w.Tracked) (hlogin : p.loggedIn = true)
    (hposition : w.client.live → w.client.con = some i →
      Position w.client.standing w.commits (w.peers i) → Position w.client.standing w.commits p) :
    (w.setPeer i p).Tracked := by
  refine ⟨h.toLogins.setPeer hlogin, h.bounded, h.free, fun hlive j hj => ?_⟩
  rw [setPeer_peers]
  split
  · next hji =>
    subst hji
    exact hposition hlive hj (h.position hlive j hj)
  · exact h.position hlive j hj

/-- A server's own step leaves the data alone. -/
theorem Grounded.setPeer (h : w.Grounded) (i : ℕ) (p : Peer) : (w.setPeer i p).Grounded :=
  ⟨h.ordered, h.wellFormed, h.loading, h.synced, h.empty, h.loaded,
    fun hdone => ⟨(h.built hdone).base_le, (h.built hdone).le_current, (h.built hdone).data⟩⟩

/-- The server answers a request. -/
theorem onTrack_answer (h : w.OnTrack) (hstep : w.answer i = some w') : w'.OnTrack := by
  unfold answer at hstep
  split at hstep
  · cases hstep
  · next cid rev rest hrequests =>
    obtain rfl := Option.some.inj hstep
    have hbusy : ¬(w.peers i).Silent := fun hsilent => by
      rw [hsilent.requests] at hrequests
      cases hrequests
    exact ⟨h.sound, h.grounded.setPeer i _, h.tracked.setPeer (h.tracked.toLogins.loggedIn hbusy)
      fun hlive _ hposition => hposition.answer (h.tracked.bounded hlive) hrequests rfl⟩

/-- The server pushes some updates. -/
theorem onTrack_push (h : w.OnTrack) {n : ℕ} (hstep : w.push i n = some w') : w'.OnTrack := by
  unfold push at hstep
  split at hstep
  · cases hstep
  · next cid rev hstream =>
    obtain rfl := Option.some.inj hstep
    have hbusy : ¬(w.peers i).Silent := fun hsilent => by
      rw [hsilent.stream] at hstream
      cases hstream
    exact ⟨h.sound, h.grounded.setPeer i _, h.tracked.setPeer (h.tracked.toLogins.loggedIn hbusy)
      fun _ _ hposition => hposition.push h.grounded.ordered n hstream⟩

/-- An update that passes the check is well formed. -/
theorem wellFormed_of_check {u : Update} (h : u.check = true) : u.wellFormed := by
  obtain ⟨hupserts, hdeletes⟩ := Bool.and_eq_true_iff.mp h
  refine ⟨fun kv hkv => ?_, fun key hkey => ?_⟩
  · have hpass := List.all_eq_true.mp hupserts kv hkv
    obtain ⟨key, value⟩ := kv
    cases key with
    | none => cases hpass
    | some key =>
      cases value with
      | none => cases hpass
      | some data => exact ⟨key, data, rfl, hpass⟩
  · have hpass := List.all_eq_true.mp hdeletes key hkey
    cases key with
    | none => cases hpass
    | some key => exact ⟨key, rfl, hpass⟩

/-- A commit moves the server to its revision. -/
theorem currentRev_commit (w : World) (u : Update) :
    currentRev { w with commits := w.commits ++ [u] } = u.rev := lastRev_snoc

/-- A commit comes after what the client has. -/
theorem grounded_commit {u : Update} (h : w.Grounded) (hu : w.currentRev < u.rev)
    (hcheck : u.check = true) : Grounded { w with commits := w.commits ++ [u] } where
  ordered := h.ordered.snoc hu
  wellFormed v hv := by
    rcases List.mem_append.mp hv with hold | hnew
    · exact h.wellFormed v hold
    · rw [List.mem_singleton.mp hnew]
      exact wellFormed_of_check hcheck
  loading := h.loading
  synced := h.synced
  empty := h.empty
  loaded := h.loaded
  built hinitialized := by
    obtain ⟨hrev, hcurrent, hdata⟩ := h.built hinitialized
    refine ⟨hrev, ?_, ?_⟩
    · rw [currentRev_commit]
      exact hcurrent.trans hu.le
    · rw [commitsBetween_snoc (hcurrent.trans_lt hu)]
      exact hdata

/-- The clients stay tracked as the server commits. -/
theorem tracked_commit {u : Update} (h : w.Tracked) (hu : w.currentRev < u.rev) :
    Tracked { w with commits := w.commits ++ [u] } where
  toLogins := ⟨h.silent, h.session⟩
  bounded hlive := by
    rw [currentRev_commit]
    exact (h.bounded hlive).trans hu.le
  free := h.free
  position hlive i hi := (h.position hlive i hi).commit (h.bounded hlive) hu

end Server

section Client

variable {w : World} {c' : Client} {e : Event}

/-- What the server's end of a connection makes of a step of the client: nothing, a new connection or
a login. -/
theorem hear_cases (p : Peer) (i : ℕ) (c : Client) (e : Event) : p.hear i c e = p ∨
    (∃ delay retry refused, e = .closed i delay retry refused ∧ p.hear i c e = {}) ∨
      p.hear i c e = { p with loggedIn := true } := by
  unfold Peer.hear
  split
  · split
    · next hi => exact Or.inr (Or.inl ⟨_, _, _, by rw [hi], rfl⟩)
    · exact Or.inl rfl
  · split
    · exact Or.inr (Or.inr rfl)
    · exact Or.inl rfl
  · exact Or.inl rfl

/-- Where nothing is asked there is no new request. -/
theorem after_of_same {c : Client} (hasked : c'.asked = c.asked) (p : Peer) (i : ℕ) (e : Event) :
    p.after i c c' e = p.hear i c e := by
  simp [Peer.after, Client.newRequests, hasked]

/-- A step that asks nothing and starts no session. -/
theorem Tracked.follow (h : w.Logins) (hasked : c'.asked = w.client.asked)
    (hcon : c'.con = none ∨ c'.con = w.client.con)
    (hgone : ∀ i delay retry refused, e = .closed i delay retry refused → c'.con ≠ some i)
    (hbounded : c'.live → c'.store.rev ≤ w.currentRev)
    (hfree : c'.live → c'.con = none → c'.activity.rest = [])
    (hposition : c'.live → ∀ i, c'.con = some i → Position c'.standing w.commits (w.peers i)) :
    (w.follow e c').Tracked := by
  have hpeers : ∀ i, (w.follow e c').peers i = (w.peers i).hear i w.client e := fun i =>
    after_of_same hasked _ i e
  refine ⟨⟨fun i hi => ?_, fun i hi => ?_⟩, hbounded, hfree, fun hlive i hi => ?_⟩
  · rw [hpeers] at hi ⊢
    rcases hear_cases (w.peers i) i w.client e with hsame | ⟨_, _, _, _, hnew⟩ | hlogin
    · rw [hsame] at hi ⊢
      exact h.silent i hi
    · rw [hnew]
      exact ⟨rfl, rfl, rfl⟩
    · rw [hlogin] at hi
      cases hi
  · have hi : c'.con = some i := hi
    have hsame := hcon.resolve_left (by simp [hi])
    have hsession := h.session i (hsame ▸ hi)
    rw [hpeers]
    rcases hear_cases (w.peers i) i w.client e with hsame | ⟨_, _, _, he, -⟩ | hlogin
    · rw [hsame]
      exact hsession
    · exact absurd hi (hgone i _ _ _ he)
    · rw [hlogin]
  · have hi : c'.con = some i := hi
    have hbefore := hposition hlive i hi
    rw [hpeers]
    rcases hear_cases (w.peers i) i w.client e with hsame | ⟨_, _, _, he, -⟩ | hlogin
    · rw [hsame]
      exact hbefore
    · exact absurd hi (hgone i _ _ _ he)
    · rw [hlogin]
      exact hbefore.congr rfl rfl rfl

/-- The requests of a step go to their connection. -/
theorem newRequests_of_asked {c : Client} {i : ℕ} {requests : List (ℕ × ℕ)}
    (hasked : c'.asked = c.asked ++ requests.map (Prod.mk i)) (j : ℕ) :
    c.newRequests j c' = if i = j then requests else [] := by
  unfold Client.newRequests
  rw [hasked, List.drop_left, List.filterMap_map]
  split
  · next hij =>
    subst hij
    simp
  · next hij => simp [hij]

/-- A step on a connection with a login, in the session of the connection. -/
theorem Tracked.begin {i : ℕ} {requests : List (ℕ × ℕ)} (h : w.Logins)
    (hasked : c'.asked = w.client.asked ++ requests.map (Prod.mk i)) (hcon : c'.con = some i)
    (hlogin : ((w.peers i).hear i w.client e).loggedIn = true)
    (hother : ∀ i delay retry refused, e ≠ .closed i delay retry refused)
    (hbounded : c'.live → c'.store.rev ≤ w.currentRev)
    (hposition : c'.live → Position c'.standing w.commits
      { w.peers i with requests := (w.peers i).requests ++ requests }) :
    (w.follow e c').Tracked := by
  have hpeers : ∀ j, (w.follow e c').peers j = { (w.peers j).hear j w.client e with
      requests := ((w.peers j).hear j w.client e).requests ++ if i = j then requests else [] } := by
    intro j
    rw [← newRequests_of_asked hasked j]
    rfl
  have hall : ∀ j, (w.peers j).hear j w.client e = w.peers j ∨
      (w.peers j).hear j w.client e = { w.peers j with loggedIn := true } := fun j => by
    rcases hear_cases (w.peers j) j w.client e with hsame | ⟨_, _, _, he, -⟩ | hnew
    · exact Or.inl hsame
    · exact absurd he (hother j _ _ _)
    · exact Or.inr hnew
  refine ⟨⟨fun j hj => ?_, fun j hj => ?_⟩, hbounded, fun _ hnone => ?_, fun hlive j hj => ?_⟩
  · rw [hpeers] at hj ⊢
    split
    · next hij =>
      subst hij
      rw [hlogin] at hj
      cases hj
    · rcases hall j with hsame | hnew
      · rw [hsame] at hj ⊢
        obtain ⟨hrequests, houtbox, hstream⟩ := h.silent j hj
        exact ⟨by simp [hrequests], houtbox, hstream⟩
      · rw [hnew] at hj
        cases hj
  · obtain rfl : i = j := Option.some.inj (hcon.symm.trans hj)
    rw [hpeers]
    exact hlogin
  · have hnone : c'.con = none := hnone
    rw [hcon] at hnone
    cases hnone
  · obtain rfl : i = j := Option.some.inj (hcon.symm.trans hj)
    rw [hpeers, if_pos rfl]
    rcases hall i with hsame | hnew
    · rw [hsame]
      exact hposition hlive
    · rw [hnew]
      exact (hposition hlive).congr rfl rfl rfl

/-- Where no connection is read, or not the session's, the base stays. -/
theorem baseAfter_of_stray (h : ∀ i, w.client.activity = .reading i → w.client.con ≠ some i) :
    w.baseAfter e = w.base := by
  have hawaits : ∀ state cid, w.client.awaitsData state cid = false := by
    intro state cid
    unfold Client.awaitsData
    split
    · next i hreading => simp [h i hreading]
    · rfl
  unfold baseAfter
  split <;> simp [hawaits]

/-- Without a message the base stays. -/
theorem baseAfter_of_quiet (h : ∀ msg throws, e ≠ .message msg throws) :
    w.baseAfter e = w.base := by
  unfold baseAfter
  split
  · next resp throws => exact absurd rfl (h _ throws)
  · next resp throws => exact absurd rfl (h _ throws)
  · rfl

/-- A step that leaves the data and the base alone. -/
theorem Grounded.follow (h : w.Grounded) (hbase : w.baseAfter e = w.base)
    (hsame : c'.holding = w.client.holding) (hlive : c'.live → w.client.live)
    (hloading : c'.state = .loadingSnapshot → w.client.initialized = false ∧ w.client.rev0 ≠ 0)
    (hsynced : c'.state = .synced → w.client.initialized = true) : (w.follow e c').Grounded := by
  simp only [Client.holding, Prod.mk.injEq] at hsame
  obtain ⟨hrev0, hinitialized, hrev, hdata⟩ := hsame
  have hbase : (w.follow e c').base = w.base := hbase
  refine ⟨h.ordered, h.wellFormed, fun hstate => ?_, fun hstate => hinitialized.trans (hsynced hstate),
    fun hzero => ?_, fun hgoes hnot => ?_, fun hdone => ?_⟩
  · obtain ⟨hnot, hzero⟩ := hloading hstate
    exact ⟨hinitialized.trans hnot, hrev0.trans_ne hzero⟩
  · rw [hbase]
    exact h.empty (hrev0.symm.trans hzero)
  · obtain ⟨hcontent, hat⟩ := h.loaded (hlive hgoes) (hinitialized.symm.trans hnot)
    rw [hbase]
    exact ⟨hdata.trans hcontent, hrev.trans hat⟩
  · obtain ⟨hle, hcurrent, hcontent⟩ := h.built (hinitialized.symm.trans hdone)
    have hrev : (w.follow e c').client.store.rev = w.client.store.rev := hrev
    refine ⟨?_, ?_, ?_⟩
    · rw [hbase, hrev]
      exact hle
    · rw [hrev]
      exact hcurrent
    · rw [hbase, hrev]
      exact hdata.trans hcontent

/-- A step apart from the data. -/
theorem Grounded.apart (h : w.Grounded) (hbase : w.baseAfter e = w.base) (happ : w.client.Apart c')
    (hlive : c'.live → w.client.live) : (w.follow e c').Grounded := by
  refine h.follow hbase (holding_of_feed happ.feed) hlive (fun hstate => ?_) fun hstate => ?_
  · exact h.loading ((happ.state (by rw [hstate]; rfl)).symm.trans hstate)
  · exact h.synced ((happ.state (by rw [hstate]; rfl)).symm.trans hstate)

/-- A step apart from the data. -/
theorem Tracked.apart (h : w.Tracked) (happ : w.client.Apart c')
    (hrest : c'.live → c'.activity.rest = w.client.activity.rest)
    (hend : c'.con = w.client.con ∨ w.client.activity.rest = [])
    (hgone : ∀ i delay retry refused, e = .closed i delay retry refused → c'.con ≠ some i)
    (hlive : c'.live → w.client.live) : (w.follow e c').Tracked := by
  have hstore : c'.store = w.client.store := congrArg Client.Feed.store happ.feed
  refine .follow h.toLogins happ.asked (happ.session.imp_right And.left) hgone (fun hgoes => ?_)
    (fun hgoes hnone => ?_) fun hgoes i hi => ?_
  · rw [hstore]
    exact h.bounded (hlive hgoes)
  · rw [hrest hgoes]
    rcases hend with hsame | hidle
    · exact h.free (hlive hgoes) (hsame ▸ hnone)
    · exact hidle
  · obtain ⟨hcon, hcid, hstate⟩ := happ.session.resolve_left (by simp [hi])
    have hstanding : c'.standing = w.client.standing := by
      have hinitialized : c'.initialized = w.client.initialized := Client.initialized_of_feed happ.feed
      have hrev0 : c'.rev0 = w.client.rev0 := congrArg Client.Feed.rev0 happ.feed
      simp only [Client.standing, hstate, hinitialized, hrev0, hstore, hcid, hrest hgoes]
    rw [hstanding]
    exact h.position (hlive hgoes) i (hcon ▸ hi)

end Client

end World

end Nplex
