import Nplex.Transaction.OpenTx
import Nplex.Messaging
import Nplex.Common.Transition

/-!
# A submit among commits

A read-committed or repeatable-read transaction is checked for conflicts by `submit`, on the
user's thread, and its request carries the revision that the store has when the event loop
sends it. The server takes that revision as seen by the submitter.

The event loop applies a commit in two steps: `store_t::update` under the store mutex, then
the delivery to the open transactions. A commit that changes a recorded key is missed when
it is applied between the check and the request, or applied before the check and delivered
after it.
-/

namespace Nplex

open Nplex.Common

/-- A transaction, its store, and the event loop between its steps. -/
structure Submitting where
  run : OpenTx
  /-- The changes applied to the store and not delivered yet. -/
  pending : Option (List Change) := none
  /-- The submit requests in the command queue. -/
  queued : ℕ := 0
  /-- The commits applied to keys that had an item already, with these keys. -/
  since : List (ℕ × Key) := []
  /-- Those of them that are not delivered yet. -/
  undelivered : List (ℕ × Key) := []
  /-- The requests sent, each with the commits counted until then. -/
  sent : List (SubmitRequest × List (ℕ × Key)) := []

/-- The steps of the user's thread and of the event loop. -/
inductive SubmitEvent
  /-- `store_t::update` of a commit. -/
  | apply (u : Update)
  /-- `transaction_impl::update` with the changes of the commit. -/
  | deliver
  /-- An operation on the transaction. -/
  | use (i : TxInput)
  /-- `submit(false)`; `accepted` says whether `push_command` takes the request. -/
  | submit (accepted : Bool)
  /-- `process_submit_cmd`; `connected` says whether there is an established connection. -/
  | process (cid : ℕ) (connected : Bool)
  deriving DecidableEq, Repr

namespace Submitting

/-- A transaction just created. -/
def start (store : Store) (isolation : Isolation) (readOnly : Bool) (user : Option User) :
    Submitting :=
  { run := OpenTx.start store isolation readOnly user }

/-- The commit and the keys it changes that have an item. -/
def hits (tx : Transaction) (rev : ℕ) (changes : List Change) : List (ℕ × Key) :=
  ((changedKeys changes).filter fun k => k ∈ tx.items).map fun k => (rev, k)

/-- One step. The event loop does one thing at a time: it applies the next commit and takes the
next command after the delivery of the last commit. A running `for_each` holds the mutexes of
the store and of the items. -/
def step (globMatch : Glob) (s : Submitting) : SubmitEvent → Option Submitting
  | .apply u =>
    if s.pending ≠ none ∨ s.run.iterating ≠ [] then none
    else
      match s.run.store.update u with
      | (store, .ok (changes, _)) =>
        let hit := hits s.run.tx u.rev changes
        some { s with
          run := { s.run with store := store }
          pending := some changes
          since := s.since ++ hit
          undelivered := hit }
      | (_, .error _) => none
  | .deliver =>
    if s.run.iterating ≠ [] then none
    else
      s.pending.map fun changes =>
        { s with
          run := { s.run with tx := s.run.tx.update globMatch changes }
          pending := none
          undelivered := [] }
  | .use (.commit _) => none
  | .use i => (s.run.step globMatch i).map fun r => { s with run := r.1 }
  | .submit accepted =>
    match s.run.tx.submit false true with
    | .ok (.done tx) => some { s with run := { s.run with tx := tx } }
    | .ok (.push tx) =>
      if accepted then
        some { s with run := { s.run with tx := tx.takeFuture }, queued := s.queued + 1 }
      else some { s with run := { s.run with tx := tx } }
    | .error _ => some s
  | .process cid connected =>
    if s.pending ≠ none ∨ s.queued = 0 then none
    else if connected then
      some { s with
        queued := s.queued - 1
        sent := s.sent ++ [(createSubmitMsg cid s.run.store.rev false s.run.tx, s.since)] }
    else
      some { s with
        queued := s.queued - 1
        run := { s.run with tx := (s.run.tx.setSubmitException .notConnected).1 } }

/-- The steps that miss no commit: a commit applied while the request is queued changes no
recorded key, and a submit queues no request while such a commit is undelivered. -/
def checked (s : Submitting) : SubmitEvent → Bool
  | .apply u =>
    s.queued = 0 ||
      match s.run.store.update u with
      | (_, .ok (changes, _)) => (changedKeys changes).all fun k => k ∉ s.run.tx.items
      | (_, .error _) => true
  | .submit accepted =>
    s.undelivered = [] ||
      match s.run.tx.submit false true with
      | .ok (.push _) => !accepted
      | _ => true
  | _ => true

/-- What holds between the steps of a run that misses no commit. -/
structure Sound (s : Submitting) : Prop where
  /-- The changes not delivered are those of a successful update. -/
  wellFormed : ∀ changes, s.pending = some changes → ∀ c ∈ changes, c.wellFormed
  /-- A commit not delivered yet is about keys that have an item. -/
  undelivered : ∀ h ∈ s.undelivered, ∃ changes, s.pending = some changes ∧
    h.2 ∈ changedKeys changes ∧ h.2 ∈ s.run.tx.items
  /-- An open transaction that is not dirty has met no commit, up to those not delivered. -/
  opened : s.run.tx.state = .opened → s.run.tx.dirty = false → s.undelivered = [] → s.since = []
  /-- A transaction whose request is queued is submitted and has met no commit. -/
  queued : s.queued ≠ 0 → s.run.tx.state = .submitted ∧ s.since = []
  /-- At most one request is queued. -/
  single : s.queued ≤ 1
  /-- No commit was met by a transaction whose request was sent. -/
  sent : ∀ r ∈ s.sent, r.2 = []

variable {globMatch : Glob} {s s' : Submitting}

/-- A transaction just created is sound. -/
theorem sound_start (store : Store) (isolation : Isolation) (readOnly : Bool) (user : Option User) :
    Sound (start store isolation readOnly user) :=
  ⟨by simp [start], by simp [start], by simp [start], by simp [start], by simp [start],
    by simp [start]⟩

/-- Applying a commit keeps the run sound when it misses no queued transaction. -/
theorem Sound.apply {u : Update} (h : s.Sound) (hok : checked s (.apply u) = true)
    (hstep : s.step globMatch (.apply u) = some s') : s'.Sound := by
  simp only [step] at hstep
  split_ifs at hstep with hbusy
  have hidle : s.pending = none := by
    by_contra hne
    exact hbusy (Or.inl hne)
  have hnone : s.undelivered = [] := by
    refine List.eq_nil_iff_forall_not_mem.mpr fun x hx => ?_
    obtain ⟨changes, hpending, -⟩ := h.undelivered x hx
    rw [hidle] at hpending
    cases hpending
  split at hstep
  · next store changes m hupdate =>
    simp only [Option.some.injEq] at hstep
    subst hstep
    have hwf := (Store.update_ok hupdate).2.wellFormed
    refine ⟨?_, ?_, ?_, ?_, h.single, h.sent⟩
    · intro changes' hpending
      obtain rfl : changes = changes' := by simpa using hpending
      exact hwf
    · intro x hx
      obtain ⟨k, hk, rfl⟩ := List.mem_map.mp hx
      obtain ⟨hchanged, hitem⟩ := List.mem_filter.mp hk
      exact ⟨changes, rfl, hchanged, by simpa using hitem⟩
    · intro hopen hdirty hhits
      change s.since ++ _ = []
      rw [show hits s.run.tx u.rev changes = [] from hhits, List.append_nil]
      exact h.opened hopen hdirty hnone
    · intro hqueued
      obtain ⟨hsubmitted, hsince⟩ := h.queued hqueued
      refine ⟨hsubmitted, ?_⟩
      have hmiss : ∀ k ∈ changedKeys changes, k ∉ s.run.tx.items := by
        have hqueued' : ¬s.queued = 0 := hqueued
        simp only [checked, hupdate, hqueued', decide_false, Bool.false_or, List.all_eq_true,
          decide_eq_true_eq] at hok
        exact hok
      change s.since ++ _ = []
      rw [hsince, List.nil_append, hits, List.map_eq_nil_iff, List.filter_eq_nil_iff]
      intro k hk
      simpa using hmiss k hk
  · cases hstep

/-- A delivery keeps the run sound: it marks an open transaction that the commit is about. -/
theorem Sound.deliver (h : s.Sound) (hstep : s.step globMatch .deliver = some s') : s'.Sound := by
  simp only [step] at hstep
  split_ifs at hstep
  obtain ⟨changes, hpending, rfl⟩ := Option.map_eq_some_iff.mp hstep
  refine ⟨by simp, by simp, ?_, ?_, h.single, h.sent⟩
  · intro hopen hdirty _
    change (s.run.tx.update globMatch changes).state = _ at hopen
    change (s.run.tx.update globMatch changes).dirty = _ at hdirty
    have hopen' : s.run.tx.state = .opened := by
      by_contra hclosed
      rw [Transaction.update_of_not_open hclosed] at hopen
      exact hclosed hopen
    have hupdate := Transaction.update_spec globMatch hopen' (h.wellFormed changes hpending)
    have hclean : ¬(s.run.tx.update globMatch changes).dirty = true := by simp [hdirty]
    rw [hupdate.dirty] at hclean
    refine h.opened hopen' (by by_contra hd; exact hclean (Or.inl (by simpa using hd))) ?_
    -- a key of an undelivered commit would have marked the transaction
    refine List.eq_nil_iff_forall_not_mem.mpr fun x hx => ?_
    obtain ⟨changes', hpending', hkey, hitem⟩ := h.undelivered x hx
    obtain rfl : changes = changes' := by simpa [hpending] using hpending'
    obtain ⟨c, hc, hck⟩ := mem_changedKeys.mp hkey
    exact hclean (Or.inr (Or.inl ⟨c, hc, hck ▸ hitem⟩))
  · intro hqueued
    obtain ⟨hsubmitted, hsince⟩ := h.queued hqueued
    refine ⟨?_, hsince⟩
    change (s.run.tx.update globMatch changes).state = _
    rw [Transaction.update_of_not_open (by rw [hsubmitted]; simp)]
    exact hsubmitted

/-- An operation of the owner keeps the run sound. -/
theorem Sound.use {i : TxInput} (h : s.Sound) (hstep : s.step globMatch (.use i) = some s') :
    s'.Sound := by
  have hmap : ∃ r, s.run.step globMatch i = some r ∧ s' = { s with run := r.1 } := by
    cases i with
    | commit u => simp [step] at hstep
    | _ =>
      obtain ⟨r, hr, heq⟩ := Option.map_eq_some_iff.mp hstep
      exact ⟨r, hr, heq.symm⟩
  obtain ⟨⟨run, o⟩, hrun, rfl⟩ := hmap
  have hstate : run.tx.state = s.run.tx.state := OpenTx.step_state hrun
  refine ⟨h.wellFormed, ?_, ?_, ?_, h.single, h.sent⟩
  · intro x hx
    obtain ⟨changes, hpending, hkey, hitem⟩ := h.undelivered x hx
    exact ⟨changes, hpending, hkey, OpenTx.step_items hrun hitem⟩
  · intro hopen hdirty hnone
    refine h.opened (hstate.symm.trans hopen) ?_ hnone
    by_contra hd
    have hdirty' : run.tx.dirty = true := OpenTx.step_dirty hrun (by simpa using hd)
    exact absurd (hdirty.symm.trans hdirty') (by simp)
  · intro hqueued
    obtain ⟨hsubmitted, hsince⟩ := h.queued hqueued
    exact ⟨hstate.trans hsubmitted, hsince⟩

/-- The transaction may leave the open state, keeping its items, and have its request queued when
it has met no commit. -/
theorem Sound.closed (h : s.Sound) {tx : Transaction} {queued : ℕ} (hclosed : tx.state ≠ .opened)
    (hitems : tx.items = s.run.tx.items)
    (hqueued : queued ≠ 0 → tx.state = .submitted ∧ s.since = []) (hsingle : queued ≤ 1) :
    Sound { s with run := { s.run with tx := tx }, queued := queued } := by
  refine ⟨h.wellFormed, ?_, fun hopen => absurd hopen hclosed, hqueued, hsingle, h.sent⟩
  intro x hx
  obtain ⟨changes, hpending, hkey, hitem⟩ := h.undelivered x hx
  refine ⟨changes, hpending, hkey, ?_⟩
  change x.2 ∈ tx.items
  rwa [hitems]

/-- An open transaction has no request in the queue. -/
theorem Sound.queued_eq_zero (h : s.Sound) (hopen : s.run.tx.state = .opened) : s.queued = 0 := by
  by_contra hqueued
  have hsubmitted := (h.queued hqueued).1
  rw [hopen] at hsubmitted
  cases hsubmitted

/-- A submit keeps the run sound when the transaction has no undelivered commit or queues no request. -/
theorem Sound.submit {accepted : Bool} (h : s.Sound) (hok : checked s (.submit accepted) = true)
    (hstep : s.step globMatch (.submit accepted) = some s') : s'.Sound := by
  simp only [step] at hstep
  split at hstep
  · next tx hsubmit =>
    simp only [Option.some.injEq] at hstep
    subst hstep
    obtain ⟨hopen, result, state, hstate, rfl⟩ := Transaction.submit_done hsubmit
    refine h.closed ?_ rfl (fun hqueued => absurd (h.queued_eq_zero hopen) hqueued) h.single
    rcases hstate with rfl | rfl <;> simp
  · next tx hsubmit =>
    obtain ⟨hopen, -, -, rfl, hclean⟩ := Transaction.submit_push hsubmit
    have hdirty : s.run.tx.dirty = false := (hclean rfl).1
    split_ifs at hstep with haccepted
    · have hnone : s.undelivered = [] := by simpa [checked, hsubmit, haccepted] using hok
      have hsince := h.opened hopen hdirty hnone
      simp only [Option.some.injEq] at hstep
      subst hstep
      exact h.closed (by simp [Transaction.takeFuture]) rfl (fun _ => ⟨rfl, hsince⟩)
        (by rw [h.queued_eq_zero hopen])
    · simp only [Option.some.injEq] at hstep
      subst hstep
      exact h.closed (by simp) rfl (fun hqueued => absurd (h.queued_eq_zero hopen) hqueued) h.single
  · simp only [Option.some.injEq] at hstep
    exact hstep ▸ h

/-- Taking the request from the queue keeps the run sound. -/
theorem Sound.process {cid : ℕ} {connected : Bool} (h : s.Sound)
    (hstep : s.step globMatch (.process cid connected) = some s') : s'.Sound := by
  simp only [step] at hstep
  split_ifs at hstep with hbusy hconnected
  · have hqueued : s.queued ≠ 0 := fun heq => hbusy (Or.inr heq)
    obtain ⟨hsubmitted, hsince⟩ := h.queued hqueued
    simp only [Option.some.injEq] at hstep
    subst hstep
    refine ⟨h.wellFormed, h.undelivered, h.opened, fun _ => ⟨hsubmitted, hsince⟩,
      (Nat.sub_le _ _).trans h.single, fun r hr => ?_⟩
    rcases List.mem_append.mp hr with hr | hr
    · exact h.sent r hr
    · rw [List.mem_singleton.mp hr]
      exact hsince
  · have hqueued : s.queued ≠ 0 := fun heq => hbusy (Or.inr heq)
    obtain ⟨hsubmitted, hsince⟩ := h.queued hqueued
    simp only [Option.some.injEq] at hstep
    subst hstep
    obtain ⟨p, hp⟩ := Transaction.setSubmitException_submitted hsubmitted .notConnected
    rw [hp]
    have hempty : s.queued - 1 = 0 := by have := h.single; omega
    exact h.closed (by simp) rfl (fun hne => absurd hempty hne) (by omega)

/-- Every checked step keeps the run sound. -/
theorem Sound.step {e : SubmitEvent} (h : s.Sound) (hok : checked s e = true)
    (hstep : s.step globMatch e = some s') : s'.Sound := by
  cases e with
  | apply u => exact h.apply hok hstep
  | deliver => exact h.deliver hstep
  | use i => exact h.use hstep
  | submit accepted => exact h.submit hok hstep
  | process cid connected => exact h.process hstep

/-- On every run in which no commit falls between the conflict check of a transaction and its
request, the revision of the request vouches for no commit about a recorded key. -/
theorem crev_vouches_for_no_conflict (globMatch : Glob) (store : Store) (isolation : Isolation)
    (readOnly : Bool) (user : Option User) (events : List SubmitEvent) (s : Submitting)
    (hrun : Run (step globMatch) (fun s e => checked s e = true)
      (start store isolation readOnly user) events s) :
    ∀ request since, (request, since) ∈ s.sent → ∀ rev k, (rev, k) ∈ since → ¬rev ≤ request.crev := by
  have hsound : s.Sound := hrun.invariant (fun _ _ _ hok hstep h => h.step hok hstep)
    (sound_start store isolation readOnly user)
  intro request since hsent rev k hmem
  have hsince : since = [] := hsound.sent _ hsent
  rw [hsince] at hmem
  cases hmem

/-- A commit about the upserted key is processed while the request is queued: the request vouches
for it. -/
theorem crev_vouches_for_queued_commit :
    ¬∀ (isolation : Isolation) (events : List SubmitEvent) (s : Submitting),
      isolation ≠ .serializable →
      Run (step fun _ _ => true) anyStep (start Store.empty isolation false none) events s →
        ∀ request since, (request, since) ∈ s.sent →
          ∀ rev k, (rev, k) ∈ since → ¬rev ≤ request.crev := by
  intro h
  have hexec : (execute (step fun _ _ => true) (fun _ _ => true)
      (start Store.empty .readCommitted false none)
      [.use (.upsert [97] [1]), .submit true, .apply (.writing 1 [[97]] [2]), .deliver,
        .process 0 true]).map (fun s => s.sent.map fun r => (r.1.crev, r.2)) =
      some [(1, [(1, [97])])] := by
    decide +kernel
  obtain ⟨s, hrun, hsent⟩ := exists_run_of_execute (fun _ _ _ => trivial) hexec
  obtain ⟨r, hr, heq⟩ := List.mem_map.mp (hsent ▸ List.mem_singleton_self (1, [(1, ([97] : Key))]))
  obtain ⟨hcrev, hsince⟩ := Prod.mk.inj heq
  exact h .readCommitted _ s (by simp) hrun r.1 r.2 hr 1 [97] (by simp [hsince]) hcrev.ge

/-- A commit about another key while the request is queued. -/
theorem crev_vouches_for_no_conflict_other_key : ∃ s,
    Run (step fun _ _ => true) (fun s e => checked s e = true)
        (start Store.empty .readCommitted false none)
        [.use (.upsert [97] [1]), .submit true, .apply (.writing 1 [[98]] [2]), .deliver,
          .process 0 true] s ∧
      s.sent.length = 1 ∧
      ∀ request since, (request, since) ∈ s.sent →
        ∀ rev k, (rev, k) ∈ since → ¬rev ≤ request.crev := by
  have hexec : (execute (step fun _ _ => true) checked
      (start Store.empty .readCommitted false none)
      [.use (.upsert [97] [1]), .submit true, .apply (.writing 1 [[98]] [2]), .deliver,
        .process 0 true]).map (·.sent.length) = some 1 := by
    decide +kernel
  obtain ⟨s, hrun, hlength⟩ := exists_run_of_execute (fun _ _ h => h) hexec
  exact ⟨s, hrun, hlength, crev_vouches_for_no_conflict _ _ _ _ _ _ s hrun⟩

end Submitting

end Nplex
