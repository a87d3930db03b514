import Nplex.Client.Queues

/-!
# The commit of an accepted transaction

`process_update` meets the accepted submits in the order of their responses. It pops those of
revisions that have passed, whose transactions it wants to abort, and confirms the first of the
others when its revision is the one that comes. The abort is the one of a transaction that waits
for its response, and it does nothing to an accepted one: the transaction is popped and stays
ACCEPTED. One that is not at the front when its revision comes stays ACCEPTED too.
-/

namespace Nplex

open Nplex.Common

namespace Client

/-- The accepted submits whose revision has not passed. -/
def upcoming (c : Client) (rev : ℕ) : List Accepted := c.accepted.dropWhile (·.erev < rev)

/-- The transaction is the one that the commit of a revision confirms. -/
def confirms (c : Client) (rev t : ℕ) : Prop :=
  ∃ a ∈ (c.upcoming rev).head?, a.erev = rev ∧ a.tx = t

/-- The commit of a revision settles the accepted submits up to it. -/
def Settles (c c' : Client) (rev : ℕ) : Prop :=
  ∀ (a : Accepted) (cell : TxCell), a ∈ c.accepted → a.erev ≤ rev → c.txs[a.tx]? = some cell →
    ∃ cell' : TxCell, c'.txs[a.tx]? = some cell' ∧ cell'.tx.state ≠ .accepted ∧
      (cell.tx.state = .accepted → a.erev = rev →
        cell'.tx.state = .committed ∧ cell'.tx.promise.result = some (.value .committed)) ∧
      (cell.tx.state = .accepted → a.erev < rev →
        cell'.tx.state.isClosed = true ∧ ∃ e, cell'.tx.promise.result = some (.exception e))

/-- Every transaction still ACCEPTED for the revision is at the front, and those for earlier ones
are held by nobody. -/
def Orderly (c : Client) (rev : ℕ) : Prop :=
  ∀ (a : Accepted) (cell : TxCell), a ∈ c.accepted → c.txs[a.tx]? = some cell →
    cell.tx.state = .accepted →
      (a.erev = rev → c.confirms rev a.tx) ∧
        (a.erev < rev → cell.held = false ∧ ∀ b ∈ c.upcoming rev, b.tx ≠ a.tx)

variable {globMatch : Glob} {c c' : Client}

/-- The transactions of the accepted submits are not SUBMITTED. -/
theorem Queued.not_submitted (h : c.Queued) {a : Accepted} {cell : TxCell} (ha : a ∈ c.accepted)
    (hcell : c.txs[a.tx]? = some cell) : cell.tx.state ≠ .submitted := by
  intro hsubmitted
  rcases h.accepted a cell ha hcell with haccepted | hclosed
  · rw [hsubmitted] at haccepted
    cases haccepted
  · rw [hsubmitted] at hclosed
    cases hclosed

/-- The abort of an accepted transaction does nothing. -/
theorem onTx_setSubmitException (c : Client) (t : ℕ) (e : TxException)
    (hnot : ∀ cell : TxCell, c.txs[t]? = some cell → cell.tx.state ≠ .submitted) :
    c.onTx t (·.setSubmitException e) = c := by
  cases hcell : c.txs[t]? with
  | none =>
    unfold onTx
    rw [hcell]
  | some cell =>
    have hsame : cell.tx.setSubmitException e = (cell.tx, none) := by
      unfold Transaction.setSubmitException
      rw [if_pos (hnot cell hcell)]
    have hset : c.txs.set t { cell with tx := cell.tx } = c.txs := by
      obtain ⟨hlength, rfl⟩ := List.getElem?_eq_some_iff.mp hcell
      exact List.set_getElem_self hlength
    rw [onTx_of_cell hcell _ (by rw [hsame]), hsame, hset]

/-- So the loop over the passed revisions only pops them. -/
theorem discardAccepted_eq (rev : ℕ) (accepted : List Accepted) (c : Client)
    (hgoes : c.broken = false) (haccepted : c.accepted = accepted)
    (hnot : ∀ a ∈ accepted, ∀ cell : TxCell, c.txs[a.tx]? = some cell → cell.tx.state ≠ .submitted) :
    discardAccepted rev accepted c = { c with accepted := accepted.dropWhile (·.erev < rev) } := by
  induction accepted generalizing c with
  | nil =>
    unfold discardAccepted
    rw [List.dropWhile_nil, ← haccepted]
  | cons a rest ih =>
    unfold discardAccepted
    by_cases hpassed : a.erev < rev
    · rw [if_pos hpassed]
      have habort : onTx { c with accepted := rest } a.tx (·.setSubmitException .unexpectedUpdate) =
          { c with accepted := rest } :=
        onTx_setSubmitException _ _ _ (hnot a List.mem_cons_self)
      have hgoes' : broken { c with accepted := rest } = false := hgoes
      rw [habort, andThen, if_neg (by simp [hgoes'])]
      rw [ih _ hgoes' rfl fun a' ha' => hnot a' (List.mem_cons_of_mem a ha')]
      rw [List.dropWhile_cons_of_pos (by simpa using hpassed)]
    · rw [if_neg hpassed, List.dropWhile_cons_of_neg (by simpa using hpassed), ← haccepted]

/-- The delivery leaves a transaction alone that is not open, and drops one that nothing uses. -/
theorem deliver_cell (globMatch : Glob) (changes : List Change) {t : ℕ} {cell : TxCell}
    (hcell : c.txs[t]? = some cell) (hstate : cell.tx.state ≠ .opened) :
    ∃ registered, (deliver globMatch changes c).txs[t]? = some { cell with registered := registered } ∧
      (c.isUsed t cell = false → registered = false) := by
  have hupdate : (if cell.registered && c.isUsed t cell then
      { cell with tx := cell.tx.update globMatch changes } else cell : TxCell) = cell := by
    rw [Transaction.update_of_not_open hstate]
    split <;> rfl
  unfold deliver
  dsimp only
  split
  · next hstale =>
    refine ⟨cell.registered && c.isUsed t cell && !cell.tx.state.isClosed, ?_, fun hunused => ?_⟩
    · simp only [purgeUnusedTxs, List.getElem?_mapIdx, hcell, Option.map_some, hupdate]
      rfl
    · simp [hunused]
  · next hstale =>
    refine ⟨cell.registered, ?_, fun hunused => ?_⟩
    · simp only [List.getElem?_mapIdx, hcell, Option.map_some, hupdate]
    · cases hregistered : cell.registered with
      | false => rfl
      | true =>
        refine absurd ?_ hstale
        refine List.any_eq_true.mpr ⟨(cell, t), List.mem_zipIdx_iff_getElem?.mpr hcell, ?_⟩
        simp [isStale, hregistered, hunused]

/-- The confirmation of the front. -/
theorem confirmAccepted_front (h : c.Queued) {rev : ℕ} {a : Accepted} {rest : List Accepted}
    (haccepted : c.accepted = a :: rest) (hrev : a.erev = rev) {cell : TxCell}
    (hcell : c.txs[a.tx]? = some cell) :
    confirmAccepted rev c = { c with
      accepted := rest, txs := c.txs.set a.tx { cell with tx := cell.tx.confirmCommit.1 } } := by
  have hnone : cell.tx.confirmCommit.2 = none := by
    rw [Transaction.confirmCommit_eq (h.settled cell (List.mem_of_getElem? hcell))]
  unfold confirmAccepted
  rw [haccepted]
  dsimp only
  rw [if_pos hrev]
  exact onTx_of_cell (c := { c with accepted := rest }) hcell _ hnone

/-- No confirmation without the revision at the front. -/
theorem confirmAccepted_other {rev : ℕ} (hother : ∀ a ∈ c.accepted.head?, a.erev ≠ rev) :
    confirmAccepted rev c = c := by
  unfold confirmAccepted
  split
  · rfl
  · next a rest haccepted => exact if_neg (hother a (by simp [haccepted]))

/-- The client once the passed revisions are popped. -/
def popped (c : Client) (rev : ℕ) (store : Store) : Client :=
  { c with store := store, accepted := c.upcoming rev }

/-- The client once an update is applied, before the reactor is called. -/
def applied (globMatch : Glob) (c : Client) (rev : ℕ) (store : Store) (changes : List Change) :
    Client := (deliver globMatch changes (c.popped rev store)).confirmAccepted rev

/-- The queues are sound once the passed revisions are popped. -/
theorem queued_popped (h : c.Queued) (rev : ℕ) (store : Store) : (c.popped rev store).Queued := by
  refine h.drains (.of_shorter (Or.inl rfl) (.refl _) (.refl _) (.refl _) ?_ le_rfl)
  exact List.dropWhile_sublist _

/-- Nothing throws on the way. -/
theorem applied_activity (h : c.Queued) (rev : ℕ) (store : Store) (changes : List Change) :
    (c.applied globMatch rev store changes).activity = c.activity := by
  have hdelivered := (queued_popped h rev store).drains (drains_deliver globMatch changes _)
  have hactivity : (deliver globMatch changes (c.popped rev store)).activity = c.activity := by
    rw [deliver_fields]
    rfl
  unfold applied
  generalize deliver globMatch changes (c.popped rev store) = c₁ at hdelivered hactivity ⊢
  cases haccepted : c₁.accepted with
  | nil => rw [confirmAccepted_other (by simp [haccepted]), hactivity]
  | cons a rest =>
    by_cases hrev : a.erev = rev
    · have hknown := hdelivered.accepted_known a (by simp [haccepted])
      rw [confirmAccepted_front hdelivered haccepted hrev (List.getElem?_eq_getElem hknown)]
      exact hactivity
    · rw [confirmAccepted_other (by simpa [haccepted] using hrev), hactivity]

/-- An update is applied and then given to the reactor. -/
theorem processUpdate_eq (h : c.Queued) (hgoes : c.broken = false) {u : Update} {store : Store}
    {changes : List Change} {m : Meta} (hupdate : c.store.update u = (store, .ok (changes, m))) :
    c.processUpdate globMatch u =
      (c.applied globMatch u.rev store changes).call (.eventData u.rev changes) := by
  obtain ⟨rfl, -⟩ := Store.update_ok hupdate
  have hgoes' : broken { c with store := store } = false := hgoes
  have hpop : discardAccepted u.rev c.accepted { c with store := store } = c.popped u.rev store :=
    discardAccepted_eq u.rev c.accepted { c with store := store } hgoes' rfl
      fun a ha cell hcell => h.not_submitted ha hcell
  have happlied : (c.applied globMatch u.rev store changes).broken = false := by
    unfold broken at hgoes ⊢
    rw [applied_activity h]
    exact hgoes
  have hpopped : (c.popped u.rev store).broken = false := hgoes
  unfold processUpdate
  rw [hupdate]
  dsimp only
  change (discardAccepted u.rev c.accepted { c with store := store }).andThen _ = _
  rw [hpop, andThen, if_neg (by simp [hpopped])]
  change (c.applied globMatch u.rev store changes).andThen _ = _
  rw [andThen, if_neg (by simp [happlied])]
  rfl

variable (globMatch) in
/-- The queues once an update is applied: only the front may be gone, when its revision came. -/
theorem applied_queues (h : c.Queued) (rev : ℕ) (store : Store) (changes : List Change) :
    (c.applied globMatch rev store changes).pushes = c.pushes ∧
      (c.applied globMatch rev store changes).commands = c.commands ∧
      (c.applied globMatch rev store changes).requests = c.requests ∧
      (∀ b ∈ (c.applied globMatch rev store changes).accepted, b ∈ c.upcoming rev) ∧
      ∀ b ∈ c.upcoming rev, b ∈ (c.applied globMatch rev store changes).accepted ∨
        c.confirms rev b.tx := by
  have hdelivered := (queued_popped h rev store).drains (drains_deliver globMatch changes _)
  have hqueues : ∀ c₁, c₁ = deliver globMatch changes (c.popped rev store) → c₁.pushes = c.pushes ∧
      c₁.commands = c.commands ∧ c₁.requests = c.requests ∧ c₁.accepted = c.upcoming rev := by
    rintro c₁ rfl
    rw [deliver_fields]
    exact ⟨rfl, rfl, rfl, rfl⟩
  unfold applied
  generalize deliver globMatch changes (c.popped rev store) = c₁ at hdelivered hqueues ⊢
  obtain ⟨hpushes, hcommands, hrequests, hupcoming⟩ := hqueues c₁ rfl
  cases haccepted : c₁.accepted with
  | nil =>
    rw [confirmAccepted_other (by simp [haccepted])]
    exact ⟨hpushes, hcommands, hrequests, fun b hb => hupcoming ▸ hb,
      fun b hb => Or.inl (hupcoming ▸ hb)⟩
  | cons a rest =>
    by_cases hrev : a.erev = rev
    · have hknown := hdelivered.accepted_known a (by simp [haccepted])
      rw [confirmAccepted_front hdelivered haccepted hrev (List.getElem?_eq_getElem hknown)]
      refine ⟨hpushes, hcommands, hrequests, fun b hb => ?_, fun b hb => ?_⟩
      · rw [← hupcoming, haccepted]
        exact List.mem_cons_of_mem a hb
      · rw [← hupcoming, haccepted] at hb
        rcases List.mem_cons.mp hb with rfl | hb
        · exact Or.inr ⟨b, by simp [← hupcoming, haccepted], hrev, rfl⟩
        · exact Or.inl hb
    · rw [confirmAccepted_other (by simpa [haccepted] using hrev)]
      exact ⟨hpushes, hcommands, hrequests, fun b hb => hupcoming ▸ hb,
        fun b hb => Or.inl (hupcoming ▸ hb)⟩

variable (globMatch) in
/-- An accepted transaction once an update is applied. -/
theorem applied_cell (h : c.Queued) {rev t : ℕ} (store : Store) (changes : List Change)
    {cell : TxCell} (hcell : c.txs[t]? = some cell) (hstate : cell.tx.state = .accepted) :
    ∃ cell', (c.applied globMatch rev store changes).txs[t]? = some cell' ∧ cell'.held = cell.held ∧
      ((c.popped rev store).isUsed t cell = false → cell'.registered = false) ∧
      (c.confirms rev t → cell'.tx.state = .committed ∧
        cell'.tx.promise.result = some (.value .committed)) ∧
      (¬c.confirms rev t → cell'.tx = cell.tx) := by
  have hdelivered := (queued_popped h rev store).drains (drains_deliver globMatch changes _)
  have hupcoming : ∀ c₁, c₁ = deliver globMatch changes (c.popped rev store) →
      c₁.accepted = c.upcoming rev := by
    rintro c₁ rfl
    rw [deliver_fields]
    rfl
  have hpopped : (c.popped rev store).txs[t]? = some cell := hcell
  obtain ⟨registered, hcell₁, hunused⟩ := deliver_cell globMatch changes hpopped (by simp [hstate])
  unfold applied
  generalize deliver globMatch changes (c.popped rev store) = c₁ at hdelivered hupcoming hcell₁ ⊢
  replace hupcoming := hupcoming c₁ rfl
  by_cases hconfirms : c.confirms rev t
  · obtain ⟨a, ha, hrev, rfl⟩ := hconfirms
    obtain ⟨rest, haccepted⟩ : ∃ rest, c₁.accepted = a :: rest := by
      rw [hupcoming]
      exact List.head?_eq_some_iff.mp ha
    rw [confirmAccepted_front hdelivered haccepted hrev hcell₁]
    have hsettled := hdelivered.settled _ (List.mem_of_getElem? hcell₁)
    have hcommit := Transaction.confirmCommit_eq hsettled
    refine ⟨_, List.getElem?_set_self (List.getElem?_eq_some_iff.mp hcell₁).1, rfl, hunused,
      fun _ => ?_, fun hnot => absurd ⟨a, ha, hrev, rfl⟩ hnot⟩
    simp [hcommit, hstate]
  · have hsame : (confirmAccepted rev c₁).txs[t]? = c₁.txs[t]? := by
      cases haccepted : c₁.accepted with
      | nil => rw [confirmAccepted_other (by simp [haccepted])]
      | cons a rest =>
        by_cases hrev : a.erev = rev
        · have hknown := hdelivered.accepted_known a (by simp [haccepted])
          have hne : a.tx ≠ t := fun hat =>
            hconfirms ⟨a, by simp [← hupcoming, haccepted], hrev, hat⟩
          rw [confirmAccepted_front hdelivered haccepted hrev (List.getElem?_eq_getElem hknown)]
          exact List.getElem?_set_ne hne
        · rw [confirmAccepted_other (by simpa [haccepted] using hrev)]
    rw [hsame, hcell₁]
    exact ⟨_, rfl, rfl, hunused, fun hyes => absurd hyes hconfirms, fun _ => rfl⟩

/-- No submit of an accepted transaction waits for its answer. -/
theorem Queued.pending_of_accepted (h : c.Queued) {t : ℕ} {cell : TxCell}
    (hcell : c.txs[t]? = some cell) (hstate : cell.tx.state = .accepted) : c.pending t = 0 := by
  by_contra hne
  rcases h.submitted t cell hcell hne with hsubmitted | hclosed
  · rw [hstate] at hsubmitted
    cases hsubmitted
  · rw [hstate] at hclosed
    cases hclosed

/-- A transaction when those that nothing refers to are destroyed. -/
theorem reap_cell {t : ℕ} {cell : TxCell} (hcell : c.txs[t]? = some cell) :
    c.reap.txs[t]? = some (if cell.registered || c.isUsed t cell then cell
      else { cell with tx := cell.tx.discard }) := by
  simp [reap, List.getElem?_mapIdx, hcell]

/-- The destructor leaves a closed transaction with a result alone. -/
theorem discard_of_satisfied {tx : Transaction} {o : Outcome} (hclosed : tx.state.isClosed = true)
    (ho : tx.promise.result = some o) : tx.discard = tx := by
  simp [Transaction.discard, Transaction.setState, hclosed, Promise.set, ho]

/-- The destructor discards an accepted transaction. -/
theorem discard_of_accepted {tx : Transaction} (hsettled : tx.Settled) (hstate : tx.state = .accepted) :
    tx.discard.state = .discarded ∧ tx.discard.promise.result = some (.exception .discarded) := by
  have hopen : tx.state.isClosed = false := by simp [hstate, TxState.isClosed]
  have hunset := hsettled.unset hopen
  have hset : tx.setState .discarded = { tx with state := .discarded } := by
    simp [Transaction.setState, hstate, TxState.isClosed]
  unfold Transaction.discard
  rw [hset]
  simp [Promise.set, hunset]

/-- An accepted submit whose revision has not passed is an upcoming one. -/
theorem mem_upcoming {rev : ℕ} {a : Accepted} (ha : a ∈ c.accepted) (hrev : ¬a.erev < rev) :
    a ∈ c.upcoming rev := by
  have hsplit := List.takeWhile_append_dropWhile (p := fun a : Accepted => a.erev < rev) (l := c.accepted)
  rw [← hsplit] at ha
  rcases List.mem_append.mp ha with hpassed | hleft
  · exact absurd (by simpa using List.mem_takeWhile_imp hpassed) hrev
  · exact hleft

/-- What a settled commit comes to: an accepted transaction whose submit is upcoming or that is
held stays as it is, unless it is confirmed. -/
theorem reap_applied_cell (h : c.Queued) {rev t : ℕ} {store : Store} {changes : List Change}
    {c₁ : Client} (hledger : c₁.ledger = (c.applied globMatch rev store changes).ledger)
    {cell : TxCell} (hcell : c.txs[t]? = some cell) (hstate : cell.tx.state = .accepted) :
    ∃ cell', c₁.reap.txs[t]? = some cell' ∧
      (c.confirms rev t → cell'.tx.state = .committed ∧
        cell'.tx.promise.result = some (.value .committed)) ∧
      (¬c.confirms rev t → cell.held = true ∨ (∃ b ∈ c.upcoming rev, b.tx = t) →
        cell'.tx.state = .accepted) ∧
      (cell.held = false → (∀ b ∈ c.upcoming rev, b.tx ≠ t) →
        cell'.tx.state = .discarded ∧ cell'.tx.promise.result = some (.exception .discarded)) := by
  obtain ⟨cell₁, hcell₁, hheld, hunused, hcommitted, hsame⟩ :=
    applied_cell globMatch h store changes hcell hstate
  obtain ⟨hpushes, hcommands, hrequests, hleft, hkept⟩ :=
    applied_queues globMatch h rev store changes
  have htxs : c₁.txs = (c.applied globMatch rev store changes).txs := congrArg Ledger.txs hledger
  have haccepted : c₁.accepted = (c.applied globMatch rev store changes).accepted :=
    congrArg Ledger.accepted hledger
  have hpending : c₁.pending t = 0 := by
    have hcarried := carried_of_ledger hledger (·.submits t)
    have hsame : (c.applied globMatch rev store changes).carried (·.submits t) =
        c.carried (·.submits t) := by
      unfold carried
      rw [hpushes, hcommands, hrequests]
    exact (hcarried.trans hsame).trans (h.pending_of_accepted hcell hstate)
  have hrefers : c₁.refersTo t = true ↔ ∃ b ∈ c₁.accepted, b.tx = t := by
    rw [refersTo_iff, hpending]
    simp
  rw [← htxs] at hcell₁
  rw [← haccepted] at hleft hkept
  have hreaped := reap_cell hcell₁
  refine ⟨_, hreaped, fun hconfirms => ?_, fun hnot hused => ?_, fun hfree hgone => ?_⟩
  · obtain ⟨hstate₁, hresult₁⟩ := hcommitted hconfirms
    split
    · exact ⟨hstate₁, hresult₁⟩
    · rw [discard_of_satisfied (by simp [hstate₁, TxState.isClosed]) hresult₁]
      exact ⟨hstate₁, hresult₁⟩
  · have hkeeps : c₁.isUsed t cell₁ = true := by
      unfold isUsed
      rw [Bool.or_eq_true, hheld]
      refine hused.imp_right fun hnext => ?_
      obtain ⟨b, hb, hbt⟩ := hnext
      refine hrefers.mpr ⟨b, ?_, hbt⟩
      exact (hkept b hb).resolve_right (hbt ▸ hnot)
    rw [if_pos (by simp [hkeeps]), hsame hnot]
    exact hstate
  · have hnot : ¬c.confirms rev t := by
      rintro ⟨b, hb, -, hbt⟩
      exact hgone b (List.mem_of_head? hb) hbt
    have hunreferred : c₁.refersTo t = false := by
      rw [← Bool.not_eq_true, hrefers]
      rintro ⟨b, hb, hbt⟩
      exact hgone b (hleft b hb) hbt
    have hpopped : (c.popped rev store).refersTo t = false := by
      have hpending' : (c.popped rev store).pending t = 0 := h.pending_of_accepted hcell hstate
      rw [← Bool.not_eq_true, refersTo_iff, hpending']
      rintro (hne | ⟨b, hb, hbt⟩)
      · exact hne rfl
      · exact hgone b hb hbt
    have hregistered : cell₁.registered = false := hunused (by simp [isUsed, hfree, hpopped])
    have hdropped : c₁.isUsed t cell₁ = false := by simp [isUsed, hheld, hfree, hunreferred]
    rw [if_neg (by simp [hregistered, hdropped])]
    have hsettled := h.settled cell (List.mem_of_getElem? hcell)
    rw [hsame hnot]
    exact discard_of_accepted hsettled hstate

variable (globMatch) in
/-- An applied update ends as its delivery left the transactions and the queues. -/
theorem pushUpdate_ledger (h : c.Queued) (hgoes : c.broken = false) {u : Update} {store : Store}
    {changes : List Change} {m : Meta} (hupdate : c.store.update u = (store, .ok (changes, m)))
    (crev : ℕ) :
    (c.pushUpdate globMatch crev u).ledger = (c.applied globMatch u.rev store changes).ledger := by
  unfold pushUpdate
  rw [processUpdate_eq h hgoes hupdate]
  have hcall := call_ledger (c.applied globMatch u.rev store changes) (.eventData u.rev changes)
  unfold andThen
  split
  · exact hcall
  · dsimp only
    split
    · exact (setState_ledger _ (by simp)).trans hcall
    · exact hcall

/-- The commit of a revision settles the accepted submits up to it exactly when they are in
order. -/
theorem settles_iff_orderly (h : c.Queued) (hgoes : c.broken = false) {u : Update} {store : Store}
    {changes : List Change} {m : Meta} (hupdate : c.store.update u = (store, .ok (changes, m)))
    (crev : ℕ) : Settles c (c.pushUpdate globMatch crev u).reap u.rev ↔ c.Orderly u.rev := by
  have hledger := pushUpdate_ledger globMatch h hgoes hupdate crev
  have hdrains := ((acts_pushUpdate globMatch c crev u).drains rfl).trans (drains_reap _)
  constructor
  · intro hsettles a cell ha hcell hstate
    obtain ⟨cell', hcell', hcommitted, hkept, -⟩ := reap_applied_cell h hledger hcell hstate
    refine ⟨fun hrev => ?_, fun hrev => ?_⟩
    · obtain ⟨cell'', hcell'', hleft, -, -⟩ := hsettles a cell ha hrev.le hcell
      obtain rfl := Option.some.inj (hcell'.symm.trans hcell'')
      by_contra hnot
      exact hleft (hkept hnot (Or.inr ⟨a, mem_upcoming ha (by omega), rfl⟩))
    · obtain ⟨cell'', hcell'', hleft, -, hpassed⟩ := hsettles a cell ha hrev.le hcell
      obtain rfl := Option.some.inj (hcell'.symm.trans hcell'')
      have hnot : ¬c.confirms u.rev a.tx := by
        intro hconfirms
        obtain ⟨-, e, hexception⟩ := hpassed hstate hrev
        rw [(hcommitted hconfirms).2] at hexception
        cases hexception
      have hunused : ¬(cell.held = true ∨ ∃ b ∈ c.upcoming u.rev, b.tx = a.tx) :=
        fun hused => hleft (hkept hnot hused)
      push Not at hunused
      exact ⟨by simpa using hunused.1, hunused.2⟩
  · intro horderly a cell ha hle hcell
    rcases h.accepted a cell ha hcell with hstate | hclosed
    · obtain ⟨cell', hcell', hcommitted, -, hfreed⟩ := reap_applied_cell h hledger hcell hstate
      obtain ⟨hcomes, hpassed⟩ := horderly a cell ha hcell hstate
      by_cases hrev : a.erev = u.rev
      · have hdone := hcommitted (hcomes hrev)
        exact ⟨cell', hcell', by simp [hdone.1], fun _ _ => hdone, fun _ hlt => absurd hrev hlt.ne⟩
      · have hlt : a.erev < u.rev := by omega
        obtain ⟨hheld, hgone⟩ := hpassed hlt
        obtain ⟨hdiscarded, hresult⟩ := hfreed hheld hgone
        exact ⟨cell', hcell', by simp [hdiscarded], fun _ heq => absurd heq hrev,
          fun _ _ => ⟨by simp [hdiscarded, TxState.isClosed], _, hresult⟩⟩
    · have hknown : a.tx < (c.pushUpdate globMatch crev u).reap.txs.length := by
        rw [hdrains.length]
        exact h.accepted_known a ha
      obtain ⟨cell', hcell'⟩ : ∃ cell', (c.pushUpdate globMatch crev u).reap.txs[a.tx]? = some cell' :=
        ⟨_, List.getElem?_eq_getElem hknown⟩
      obtain ⟨cell₀, hcell₀, -, hcalms⟩ := hdrains.txs a.tx cell' hcell'
      obtain rfl := Option.some.inj (hcell.symm.trans hcell₀)
      have hcalm := hcalms (h.settled cell (List.mem_of_getElem? hcell))
      have hstays : cell'.tx.state = cell.tx.state := by
        rcases hcalm.state with hsame | ⟨hopen, -⟩
        · exact hsame
        · rw [hclosed] at hopen
          cases hopen
      have hnot : cell.tx.state ≠ .accepted := by
        intro hstate
        rw [hstate] at hclosed
        cases hclosed
      exact ⟨cell', hcell', hstays ▸ hnot, fun hstate => absurd hstate hnot,
        fun hstate => absurd hstate hnot⟩

/-- The update handled next, if the store takes it, settles the accepted submits up to it. -/
def settles (globMatch : Glob) (c : Client) : Event → Prop
  | .update => ∀ i crev u rest store changes m c', c.activity = .pushing i crev (u :: rest) →
      c.store.update u = (store, .ok (changes, m)) → c.step globMatch .update = some c' →
        Settles c c' u.rev
  | _ => True

/-- The accepted submits up to the update handled next, if the store takes it, are in order. -/
def orderly (c : Client) : Event → Prop
  | .update => ∀ i crev u rest store changes m, c.activity = .pushing i crev (u :: rest) →
      c.store.update u = (store, .ok (changes, m)) → c.Orderly u.rev
  | _ => True

/-- The step that handles an update. -/
theorem step_update {i crev : ℕ} {u : Update} {rest : List Update}
    (hpushing : c.activity = .pushing i crev (u :: rest)) :
    c.step globMatch .update =
      some (pushUpdate globMatch { c with activity := .pushing i crev rest } crev u).reap := by
  simp [step, stepRaw, hpushing]

/-- A step settles what it should if and only if it comes in order. -/
theorem settles_iff (h : c.Queued) (e : Event) : c.settles globMatch e ↔ c.orderly e := by
  cases e with
  | update =>
    have hstep : ∀ {i crev u rest store changes m}, c.activity = .pushing i crev (u :: rest) →
        c.store.update u = (store, .ok (changes, m)) →
        (Settles c (pushUpdate globMatch { c with activity := .pushing i crev rest } crev u).reap
          u.rev ↔ c.Orderly u.rev) := by
      intro i crev u rest store changes m _ hupdate
      have hqueued : Queued { c with activity := .pushing i crev rest } := h.drains (.of_ledger rfl)
      exact settles_iff_orderly hqueued (by simp [broken]) hupdate crev
    refine forall₄_congr fun i crev u rest => forall₃_congr fun store changes m => ?_
    constructor
    · intro hsettles hpushing hupdate
      exact (hstep hpushing hupdate).mp (hsettles _ hpushing hupdate (step_update hpushing))
    · intro horderly c' hpushing hupdate hc'
      obtain rfl := Option.some.inj ((step_update hpushing).symm.trans hc')
      exact (hstep hpushing hupdate).mpr (horderly hpushing hupdate)
  | _ => exact Iff.rfl

/-- Along a run, every commit settles the accepted submits up to its revision exactly when they
are in order each time. -/
theorem commits_settle_iff_orderly (globMatch : Glob) (user password : Bytes)
    (maxActiveTxs rev0 servers : ℕ) (hasReactor : Bool) (events : List Event) (last : Client) :
    Run (step globMatch) (settles globMatch)
        (create user password maxActiveTxs rev0 servers hasReactor) events last ↔
      Run (step globMatch) orderly (create user password maxActiveTxs rev0 servers hasReactor) events
        last :=
  Run.change_iff Queued (fun _ _ _ hstep h => queued_step h hstep)
    (fun _ e h => settles_iff h e) (queued_create _ _ _ _ _ _)

/-- The server pushes the commit of a submit before it answers the submit, and then the next
commit: the transaction is popped and stays ACCEPTED, although it was committed. -/
theorem late_response_stays_accepted :
    ¬∀ (events : List Event) (c : Client) (e : Event),
      Run (step fun _ _ => true) anyStep (create [1] [2] 0 0 1 false) events c →
        c.settles (fun _ _ => true) e := by
  intro h
  have hexec : (execute (step fun _ _ => true) (fun _ _ => true) (create [1] [2] 0 0 1 false)
      [.start none, .connected 0, .read 0,
        .message (some (.loginResponse ⟨.authorized, 0, 0, true, true, 10, [⟨15, [42]⟩]⟩)) false,
        .message (some (.updatesResponse ⟨1, 0, true⟩)) false, .readEnd,
        .createTx .readCommitted false, .submit 0 true, .pushCheck 0, .pushLocked 0, .async, .command,
        .commandsEnd, .read 0, .message (some (.updatesPush ⟨1, 1, [.writing 1 [[97]] [1]]⟩)) false,
        .update, .update, .message (some (.submitResponse ⟨2, .accepted, 1⟩)) false,
        .message (some (.updatesPush ⟨1, 2, [.writing 2 [[98]] [1]]⟩)) false]).map (fun c =>
        decide (c.activity = .pushing 0 2 [.writing 2 [[98]] [1]] ∧ c.accepted = [⟨0, 1⟩] ∧
          c.txs.map (·.tx.state) = [.accepted] ∧ c.txs.all (·.held) = true ∧
          (c.store.update (.writing 2 [[98]] [1])).2.isOk = true)) = some true := by
    decide +kernel
  obtain ⟨c, hrun, hend⟩ := exists_run_of_execute (fun _ _ _ => trivial) hexec
  obtain ⟨hpushing, haccepted, hstates, hheld, hok⟩ := of_decide_eq_true hend
  obtain ⟨cell, hcell, hstate⟩ := exists_cell_of_states hstates (t := 0) rfl
  obtain ⟨store, changes, m, hupdate⟩ : ∃ store changes m,
      c.store.update (.writing 2 [[98]] [1]) = (store, .ok (changes, m)) := by
    generalize c.store.update (.writing 2 [[98]] [1]) = r at hok ⊢
    obtain ⟨store, e | ⟨changes, m⟩⟩ := r
    · cases hok
    · exact ⟨store, changes, m, rfl⟩
  have horderly := (settles_iff (queued_run hrun) .update).mp (h _ c .update hrun) 0 2 _ [] store
    changes m hpushing hupdate
  have hfree := ((horderly ⟨0, 1⟩ cell (by simp [haccepted]) hcell hstate).2 (by decide)).1
  have hkept := List.all_eq_true.mp hheld cell (List.mem_of_getElem? hcell)
  rw [hfree] at hkept
  cases hkept

end Client

end Nplex
