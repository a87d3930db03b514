import Nplex.Delivery.Server

/-!
# Positions in a session

In a session the client and the server's end of its connection are in one of four positions: a
snapshot is awaited, the updates are asked for, the answer is on its way with the first updates
behind it, or the updates stream in. In the last two what is on its way and what the server has not
pushed make up the commits that the client does not have.
-/

namespace Nplex

open Nplex.Common

/-- Nothing about updates is under way on a connection. -/
structure Peer.Silent (p : Peer) : Prop where
  requests : p.requests = []
  outbox : p.outbox = []
  stream : p.stream = none

/-- The revision after which the server pushes the commits. -/
def origin (wanted crev : ℕ) : ℕ := if wanted = 0 then crev else wanted

/-- What the client has of the data and of its session. -/
structure Standing where
  state : ClientState
  initialized : Bool
  rev0 : ℕ
  rev : ℕ
  dataCid : ℕ
  rest : List Update

/-- The revision that a session asks for. -/
def Standing.wanted (s : Standing) : ℕ := if s.initialized then s.rev else 0

/-- What the client has now. -/
def Client.standing (c : Client) : Standing :=
  { state := c.state
    initialized := c.initialized
    rev0 := c.rev0
    rev := c.store.rev
    dataCid := c.dataCid
    rest := c.activity.rest }

/-- Where the client is in the session of a connection. -/
inductive Position (s : Standing) (log : List Update) (p : Peer) : Prop
  | loading (hstate : s.state = .loadingSnapshot) (hrest : s.rest = []) (hsilent : p.Silent)
  | asked (hstate : s.state = .syncing) (hstarted : s.initialized = true ∨ s.rev0 = 0)
      (hrest : s.rest = []) (hrequests : p.requests = [(s.dataCid, s.wanted)])
      (houtbox : p.outbox = []) (hstream : p.stream = none)
  | answered (hstate : s.state = .syncing) (hstarted : s.initialized = true ∨ s.rev0 = 0)
      (hrest : s.rest = []) (hrequests : p.requests = [])
      {crev after : ℕ} {pushes : List UpdatesPush}
      (houtbox : p.outbox = .response ⟨s.dataCid, crev, true⟩ :: pushes.map .push)
      (hcids : ∀ resp ∈ pushes, resp.cid = s.dataCid)
      (hstream : p.stream = some (s.dataCid, after)) (hcrev : crev ≤ lastRev Update.rev 0 log)
      (hafter : after ≤ lastRev Update.rev 0 log)
      (hahead : pushes.flatMap (·.updates) ++ commitsAfter Update.rev after log =
        commitsAfter Update.rev (origin s.wanted crev) log)
  | streaming (hinitialized : s.initialized = true) (hrequests : p.requests = [])
      {after : ℕ} {pushes : List UpdatesPush} (houtbox : p.outbox = pushes.map .push)
      (hcids : ∀ resp ∈ pushes, resp.cid = s.dataCid)
      (hstream : p.stream = some (s.dataCid, after)) (hafter : after ≤ lastRev Update.rev 0 log)
      (hahead : s.rest ++ (pushes.flatMap (·.updates) ++ commitsAfter Update.rev after log) =
        commitsAfter Update.rev s.rev log)

section Positions

variable {s : Standing} {log : List Update} {p p' : Peer} {u : Update}

/-- The revision of the log is that of its last commit. -/
theorem lastRev_commit : lastRev Update.rev 0 (log ++ [u]) = u.rev := lastRev_snoc

/-- What is asked for was had before. -/
theorem wanted_le {bound : ℕ} (hrev : s.rev ≤ bound) : s.wanted ≤ bound := by
  unfold Standing.wanted
  split
  · exact hrev
  · exact Nat.zero_le bound

/-- The updates start at a revision within the bound. -/
theorem origin_le {wanted crev bound : ℕ} (hwanted : wanted ≤ bound) (hcrev : crev ≤ bound) :
    origin wanted crev ≤ bound := by
  unfold origin
  split <;> assumption

/-- The flag of the login is not about updates. -/
theorem Position.congr (h : Position s log p) (hrequests : p'.requests = p.requests)
    (houtbox : p'.outbox = p.outbox) (hstream : p'.stream = p.stream) : Position s log p' := by
  cases h with
  | loading hstate hrest hsilent =>
    exact .loading hstate hrest
      ⟨hrequests.trans hsilent.requests, houtbox.trans hsilent.outbox, hstream.trans hsilent.stream⟩
  | asked hstate hstarted hrest hasked hempty hnone =>
    exact .asked hstate hstarted hrest (hrequests.trans hasked) (houtbox.trans hempty)
      (hstream.trans hnone)
  | answered hstate hstarted hrest hdone hfull hcids hfed hcrev hafter hahead =>
    exact .answered hstate hstarted hrest (hrequests.trans hdone) (houtbox.trans hfull) hcids
      (hstream.trans hfed) hcrev hafter hahead
  | streaming hinitialized hdone hfull hcids hfed hafter hahead =>
    exact .streaming hinitialized (hrequests.trans hdone) (houtbox.trans hfull) hcids
      (hstream.trans hfed) hafter hahead

/-- A commit is the last one that is still to be pushed. -/
theorem Position.commit (h : Position s log p) (hrev : s.rev ≤ lastRev Update.rev 0 log)
    (hu : lastRev Update.rev 0 log < u.rev) : Position s (log ++ [u]) p := by
  cases h with
  | loading hstate hrest hsilent => exact .loading hstate hrest hsilent
  | asked hstate hstarted hrest hasked hempty hnone =>
    exact .asked hstate hstarted hrest hasked hempty hnone
  | @answered hstate hstarted hrest hdone crev after pushes hfull hcids hfed hcrev hafter hahead =>
    have horigin := origin_le (wanted_le hrev) hcrev
    refine .answered hstate hstarted hrest hdone hfull hcids hfed (by rw [lastRev_commit]; omega)
      (by rw [lastRev_commit]; omega) ?_
    rw [commitsAfter_snoc (hafter.trans_lt hu), commitsAfter_snoc (horigin.trans_lt hu), ← hahead,
      List.append_assoc]
  | @streaming hinitialized hdone after pushes hfull hcids hfed hafter hahead =>
    refine .streaming hinitialized hdone hfull hcids hfed (by rw [lastRev_commit]; omega) ?_
    rw [commitsAfter_snoc (hafter.trans_lt hu), commitsAfter_snoc (hrev.trans_lt hu), ← hahead]
    simp only [List.append_assoc]

/-- The answer to the request goes first, and the stream begins. -/
theorem Position.answer (h : Position s log p) (hrev : s.rev ≤ lastRev Update.rev 0 log)
    {cid rev : ℕ} {rest : List (ℕ × ℕ)} (hrequests : p.requests = (cid, rev) :: rest)
    {crev : ℕ} (hcrev : crev = lastRev Update.rev 0 log) :
    Position s log { p with
      requests := rest
      stream := some (cid, if rev = 0 then crev else rev)
      outbox := p.outbox ++ [.response ⟨cid, crev, true⟩] } := by
  cases h with
  | loading hstate hrest hsilent =>
    rw [hsilent.requests] at hrequests
    cases hrequests
  | asked hstate hstarted hrest hasked hempty hnone =>
    rw [hasked] at hrequests
    obtain ⟨hhead, rfl⟩ := List.cons.inj hrequests
    obtain ⟨rfl, rfl⟩ := Prod.mk.inj hhead
    have hfull : p.outbox ++ [.response ⟨s.dataCid, crev, true⟩] =
        .response ⟨s.dataCid, crev, true⟩ :: ([] : List UpdatesPush).map .push := by
      simp [hempty]
    refine .answered hstate hstarted hrest rfl hfull (by simp) rfl hcrev.le ?_ (by simp [origin])
    exact origin_le (wanted_le hrev) hcrev.le
  | answered hstate hstarted hrest hdone =>
    rw [hdone] at hrequests
    cases hrequests
  | streaming hinitialized hdone =>
    rw [hdone] at hrequests
    cases hrequests

/-- The revisions that are pushed next are those of commits. -/
theorem push_bounded (n : ℕ) {after : ℕ} (hlog : Ordered Update.rev log)
    (hafter : after ≤ lastRev Update.rev 0 log) :
    lastRev Update.rev after ((commitsAfter Update.rev after log).take n) ≤
      lastRev Update.rev 0 log :=
  lastRev_le hafter fun _ hu => hlog.le_lastRev (List.mem_filter.mp (List.mem_of_mem_take hu)).1

/-- The next updates of a stream go from what is to be pushed to what is on its way. -/
theorem push_ahead (hlog : Ordered Update.rev log) (n crev : ℕ) {after cid : ℕ}
    {pushes : List UpdatesPush} (hcids : ∀ resp ∈ pushes, resp.cid = cid) :
    ∃ pushes' : List UpdatesPush,
      pushes' = pushes ++ [⟨cid, crev, (commitsAfter Update.rev after log).take n⟩] ∧
      (∀ resp ∈ pushes', resp.cid = cid) ∧
      pushes'.flatMap (·.updates) ++
          commitsAfter Update.rev
            (lastRev Update.rev after ((commitsAfter Update.rev after log).take n)) log =
        pushes.flatMap (·.updates) ++ commitsAfter Update.rev after log := by
  refine ⟨_, rfl, fun resp hresp => ?_, ?_⟩
  · rcases List.mem_append.mp hresp with hold | hnew
    · exact hcids resp hold
    · rw [List.mem_singleton.mp hnew]
  · rw [List.flatMap_append, List.append_assoc]
    conv_rhs => rw [hlog.chunk n after]
    simp

/-- The next updates of the stream are on their way. -/
theorem Position.push (h : Position s log p) (hlog : Ordered Update.rev log) (n : ℕ)
    {cid rev crev : ℕ} (hstream : p.stream = some (cid, rev)) :
    Position s log { p with
      stream := some (cid, lastRev Update.rev rev ((commitsAfter Update.rev rev log).take n))
      outbox := p.outbox ++ [.push ⟨cid, crev, (commitsAfter Update.rev rev log).take n⟩] } := by
  cases h with
  | loading hstate hrest hsilent =>
    rw [hsilent.stream] at hstream
    cases hstream
  | asked hstate hstarted hrest hasked hempty hnone =>
    rw [hnone] at hstream
    cases hstream
  | @answered hstate hstarted hrest hdone crev₀ after pushes hfull hcids hfed hcrev hafter hahead =>
    rw [hfed] at hstream
    obtain ⟨rfl, rfl⟩ := Prod.mk.inj (Option.some.inj hstream)
    obtain ⟨pushes', hpushes, hcids', hahead'⟩ := push_ahead hlog n crev hcids
    have hfull' : p.outbox ++ [.push ⟨s.dataCid, crev, (commitsAfter Update.rev after log).take n⟩] =
        .response ⟨s.dataCid, crev₀, true⟩ :: pushes'.map .push := by
      rw [hfull, hpushes, List.map_append]
      rfl
    exact .answered hstate hstarted hrest hdone hfull' hcids' rfl hcrev (push_bounded n hlog hafter)
      (hahead'.trans hahead)
  | @streaming hinitialized hdone after pushes hfull hcids hfed hafter hahead =>
    rw [hfed] at hstream
    obtain ⟨rfl, rfl⟩ := Prod.mk.inj (Option.some.inj hstream)
    obtain ⟨pushes', hpushes, hcids', hahead'⟩ := push_ahead hlog n crev hcids
    have hfull' : p.outbox ++ [.push ⟨s.dataCid, crev, (commitsAfter Update.rev after log).take n⟩] =
        pushes'.map .push := by
      rw [hfull, hpushes, List.map_append]
      rfl
    refine .streaming hinitialized hdone hfull' hcids' rfl (push_bounded n hlog hafter) ?_
    rw [hahead']
    exact hahead

end Positions

end Nplex
