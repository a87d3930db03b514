import Nplex.Client.Queues

/-!
# The futures of the submits

A call of `get` blocks while its future was taken from a promise that is not satisfied. Only the
end of `submit` takes a future. Every other handler satisfies promises or leaves them alone, so
that what blocks after it blocked before.
-/

namespace Nplex

open Nplex.Common

/-- The actions that take no future and push no command. -/
def ActionKind.eases : ActionKind → Bool
  | .queue | .take => false
  | _ => true

/-- The future was taken, and it is not ready. -/
def Promise.blocks (p : Promise) : Bool := p.retrieved && p.result.isNone

namespace Transaction

/-- Some future of the transaction, of its last submit or an earlier one, is not ready. -/
def blocks (tx : Transaction) : Bool := tx.promise.blocks || tx.earlier.any Promise.blocks

variable {tx tx' tx'' : Transaction}

/-- No promise of the second transaction blocks that did not in the first one. -/
structure Subsides (tx tx' : Transaction) : Prop where
  promise : tx'.promise.blocks = true → tx.promise.blocks = true
  earlier : ∀ p ∈ tx'.earlier, p.blocks = true → p ∈ tx.earlier

/-- A transaction left alone blocks as it did. -/
theorem Subsides.refl (tx : Transaction) : Subsides tx tx := ⟨id, fun _ hp _ => hp⟩

/-- A transaction subsides step by step. -/
theorem Subsides.trans (h : Subsides tx tx') (h' : Subsides tx' tx'') : Subsides tx tx'' :=
  ⟨h.promise ∘ h'.promise, fun p hp hblocks => h.earlier p (h'.earlier p hp hblocks) hblocks⟩

/-- A transaction that subsides blocks only if it did. -/
theorem Subsides.blocks (h : Subsides tx tx') (hblocks : tx'.blocks = true) : tx.blocks = true := by
  unfold Transaction.blocks at hblocks ⊢
  rw [Bool.or_eq_true, List.any_eq_true] at hblocks ⊢
  rcases hblocks with hpromise | ⟨p, hp, hblocks⟩
  · exact Or.inl (h.promise hpromise)
  · exact Or.inr ⟨p, h.earlier p hp hblocks, hblocks⟩

/-- Nothing blocks on a promise with a result. -/
theorem blocks_of_result {p : Promise} (h : p.result ≠ none) : p.blocks = false := by
  cases hresult : p.result with
  | none => exact absurd hresult h
  | some o => simp [Promise.blocks, hresult]

/-- A promise that is set does not block. -/
theorem blocks_of_set {p p' : Promise} {o : Outcome} (h : p.set o = .ok p') : p'.blocks = false := by
  unfold Promise.set at h
  split at h
  · obtain rfl := Except.ok.inj h
    exact blocks_of_result (by simp)
  · cases h

/-- The state of a transaction is not about its promise. -/
theorem Subsides.setState (tx : Transaction) (state : TxState) : Subsides tx (tx.setState state) := by
  unfold Transaction.setState
  split <;> exact ⟨id, fun _ hp _ => hp⟩

/-- Satisfying the promise. -/
theorem Subsides.set {p : Promise} {o : Outcome} (h : tx.promise.set o = .ok p) :
    Subsides tx { tx with promise := p } :=
  ⟨fun hblocks => absurd (blocks_of_set h) (by simp [hblocks]), fun _ hp _ => hp⟩

/-- Closing a transaction sets its promise. -/
theorem subsides_close (tx : Transaction) (state : TxState) (o : Outcome) :
    Subsides tx (tx.close state o).1 := by
  unfold close
  dsimp only
  split
  · next p hset => exact (Subsides.setState tx state).trans (.set hset)
  · exact .setState tx state

/-- A discarded transaction subsides. -/
theorem subsides_discard (tx : Transaction) : Subsides tx tx.discard := by
  unfold discard
  dsimp only
  split
  · next p hset => exact (Subsides.setState tx .discarded).trans (.set hset)
  · exact .setState tx .discarded

/-- The methods that answer nothing. -/
theorem Closing.subsides {f : Transaction → Transaction × Option TxError} (hf : Closing f)
    (tx : Transaction) : Subsides tx (f tx).1 := by
  cases hf with
  | setSubmitException e =>
    change Subsides tx (tx.setSubmitException e).1
    unfold Transaction.setSubmitException
    split
    · exact .refl tx
    · exact subsides_close tx _ _
  | confirmCommit =>
    change Subsides tx tx.confirmCommit.1
    unfold Transaction.confirmCommit
    split
    · exact .refl tx
    · exact subsides_close tx _ _
  | discard => exact subsides_discard tx

/-- TRY_LATER satisfies the promise that it replaces. -/
theorem subsides_tryLater {tx₁ : Transaction}
    (hclose : tx.close .opened (.value .tryLater) = (tx₁, none)) :
    Subsides tx { tx₁ with promise := {}, earlier := tx₁.earlier ++ [tx₁.promise] } := by
  unfold close at hclose
  dsimp only at hclose
  split at hclose
  · next p hset =>
    obtain ⟨rfl, -⟩ := Prod.mk.inj hclose
    refine ⟨fun hblocks => absurd hblocks (by simp [Promise.blocks]), fun q hq hblocks => ?_⟩
    rcases List.mem_append.mp hq with hold | hlast
    · exact (Subsides.setState tx .opened).earlier q hold hblocks
    · obtain rfl := List.mem_singleton.mp hlast
      exact absurd (blocks_of_set hset) (by simp [hblocks])
  · cases hclose

/-- So does one that gets its result. -/
theorem subsides_setSubmitResult (tx : Transaction) (code : SubmitCode) :
    Subsides tx (tx.setSubmitResult code).1 := by
  unfold setSubmitResult
  split
  · exact .refl tx
  · cases code with
    | accepted => exact .setState tx .accepted
    | tryLater =>
      dsimp only
      split
      · next hclose => exact subsides_tryLater hclose
      · next tx₁ e hclose =>
        have hsame : (tx.close .opened (.value .tryLater)).1 = tx₁ := by rw [hclose]
        rw [← hsame]
        exact subsides_close tx _ _
    | _ => exact subsides_close tx _ _

/-- So does one whose state and promise stay the same. -/
theorem SameFrame.subsides (hframe : SameFrame tx tx') : Subsides tx tx' := by
  rw [SameFrame] at hframe
  rw [hframe]
  exact ⟨id, fun _ hp _ => hp⟩

/-- The futures of a transaction that is destroyed are ready: its promise is satisfied or broken. -/
theorem discard_ready (h : ∀ p ∈ tx.earlier, p.blocks = false) : tx.discard.blocks = false := by
  have hpromise : tx.discard.promise.blocks = false := by
    unfold discard
    dsimp only
    split
    · next p hset => exact blocks_of_set hset
    · next e hset =>
      refine blocks_of_result fun hnone => ?_
      simp [Promise.set, hnone] at hset
  rw [blocks, hpromise, Bool.false_or, List.any_eq_false]
  intro p hp hblocks
  have hold := (subsides_discard tx).earlier p hp hblocks
  simp [h p hold] at hblocks

end Transaction

namespace Client

/-- A `submit` of the transaction is in its `push_command`. -/
def pushing (c : Client) (t : ℕ) : Bool := c.pushes.any (·.command.submits t)

/-- What a handler does that takes no future: what blocks after it blocked before. -/
structure Eases (c c' : Client) : Prop where
  pushing : ∀ t, c'.pushing t = true → c.pushing t = true
  txs : ∀ (t : ℕ) (cell' : TxCell), c'.txs[t]? = some cell' → cell'.tx.blocks = true →
    ∃ cell : TxCell, c.txs[t]? = some cell ∧ cell.tx.Subsides cell'.tx ∧
      (cell'.held = true → cell.held = true)

section Relations

variable {c c' c'' : Client}

/-- The same pushes refer to the same transactions. -/
theorem pushing_of_pushes (h : c'.pushes = c.pushes) (t : ℕ) (ht : c'.pushing t = true) :
    c.pushing t = true := by
  rw [pushing, ← h]
  exact ht

/-- The same transactions and pushes. -/
theorem Eases.of_same (htxs : c'.txs = c.txs) (hpushes : c'.pushes = c.pushes) : Eases c c' :=
  ⟨pushing_of_pushes hpushes, fun _ cell hcell _ => ⟨cell, htxs ▸ hcell, .refl _, id⟩⟩

/-- A handler that leaves the ledger as it is. -/
theorem Eases.of_ledger (h : c'.ledger = c.ledger) : Eases c c' :=
  .of_same (congrArg Ledger.txs h) (congrArg Ledger.pushes h)

/-- Doing nothing takes no future. -/
theorem Eases.refl (c : Client) : Eases c c := .of_same rfl rfl

/-- Handlers ease one after the other. -/
theorem Eases.trans (h : Eases c c') (h' : Eases c' c'') : Eases c c'' := by
  refine ⟨fun t ht => h.pushing t (h'.pushing t ht), fun t cell'' hcell'' hblocks'' => ?_⟩
  obtain ⟨cell', hcell', hsubsides', hheld'⟩ := h'.txs t cell'' hcell'' hblocks''
  obtain ⟨cell, hcell, hsubsides, hheld⟩ := h.txs t cell' hcell' (hsubsides'.blocks hblocks'')
  exact ⟨cell, hcell, hsubsides.trans hsubsides', hheld ∘ hheld'⟩

/-- Going on eases if what follows does. -/
theorem Eases.andThen {f : Client → Client} (h : Eases c (f c)) : Eases c (c.andThen f) := by
  unfold Client.andThen
  split
  · exact .refl c
  · exact h

/-- A change of the transactions one by one. -/
theorem Eases.of_txs {f : ℕ → TxCell → TxCell} (htxs : c'.txs = c.txs.mapIdx f)
    (hf : ∀ (t : ℕ) (cell : TxCell), cell.tx.Subsides (f t cell).tx)
    (hheld : ∀ t cell, (f t cell).held = true → cell.held = true)
    (hpushes : c'.pushes = c.pushes) : Eases c c' := by
  refine ⟨pushing_of_pushes hpushes, fun t cell' hcell' _ => ?_⟩
  rw [htxs, List.getElem?_mapIdx] at hcell'
  obtain ⟨cell, hcell, rfl⟩ := Option.map_eq_some_iff.mp hcell'
  exact ⟨cell, hcell, hf t cell, hheld t cell⟩

/-- The transactions leave `m_transactions`. -/
theorem Eases.of_unregistered (htxs : c'.txs = c.txs.map fun cell => { cell with registered := false })
    (hpushes : c'.pushes = c.pushes) : Eases c c' := by
  refine ⟨pushing_of_pushes hpushes, fun t cell' hcell' _ => ?_⟩
  rw [htxs, List.getElem?_map] at hcell'
  obtain ⟨cell, hcell, rfl⟩ := Option.map_eq_some_iff.mp hcell'
  exact ⟨cell, hcell, .refl _, id⟩

/-- One transaction is replaced. -/
theorem eases_set {t : ℕ} {cell cell' : TxCell} (hcell : c.txs[t]? = some cell)
    (hsubsides : cell.tx.Subsides cell'.tx) (hheld : cell'.held = true → cell.held = true) :
    Eases c { c with txs := c.txs.set t cell' } := by
  refine ⟨fun _ ht => ht, fun u last hlast _ => ?_⟩
  rw [List.getElem?_set] at hlast
  split_ifs at hlast with hu hlength
  · subst hu
    obtain rfl := Option.some.inj hlast
    exact ⟨cell, hcell, hsubsides, hheld⟩
  · exact ⟨last, hlast, .refl _, id⟩

/-- A method under which every transaction subsides. -/
theorem eases_onTx (c : Client) (t : ℕ) {f : Transaction → Transaction × Option TxError}
    (hf : ∀ tx : Transaction, tx.Subsides (f tx).1) : Eases c (c.onTx t f) := by
  unfold onTx
  split
  · exact .refl c
  · next cell hcell =>
    have hset : Eases c { c with txs := c.txs.set t { cell with tx := (f cell.tx).1 } } :=
      eases_set hcell (hf cell.tx) id
    dsimp only
    split
    · exact hset.trans (.of_same rfl rfl)
    · exact hset

end Relations

section Handlers

variable {c c' : Client}

/-- Setting a state touches registrations at most. -/
theorem eases_setState (c : Client) (s : ClientState) : Eases c (c.setState s) := by
  by_cases hs : s = .closed
  · subst hs
    unfold setState
    by_cases hclosed : c.state = .closed
    · rw [if_pos hclosed]
      exact .refl c
    · rw [if_neg hclosed, write_of_open hclosed]
      exact .of_unregistered rfl rfl
  · exact .of_ledger (setState_ledger c hs)

/-- Aborting touches them at most. -/
theorem eases_abort (c : Client) : Eases c c.abort := by
  unfold abort
  split
  · exact .refl c
  · dsimp only
    refine Eases.trans ?_ (Eases.trans (eases_setState _ .closed) (.of_same rfl rfl))
    exact .of_same rfl rfl

/-- A request is not about the transactions. -/
theorem eases_sendRequest (c : Client) (kind : RequestKind) (msg : ℕ → ClientMsg) :
    Eases c (c.sendRequest kind msg) := by
  have hcid : Eases c { c with correlation := c.correlation + 1 } := .of_same rfl rfl
  exact hcid.trans (Eases.trans (.of_ledger (send_ledger _ _)) (.andThen (.of_same rfl rfl)))

/-- The response to a submit sets its promise. -/
theorem eases_answerSubmit (c : Client) (t : ℕ) (resp : SubmitResponse) :
    Eases c (c.answerSubmit t resp) := by
  refine (eases_onTx _ _ fun tx => tx.subsides_setSubmitResult _).trans (.andThen ?_)
  split
  · exact .of_same rfl rfl
  · exact .refl _

/-- Purging touches registrations only. -/
theorem eases_purgeUnusedTxs (c : Client) : Eases c c.purgeUnusedTxs :=
  .of_txs rfl (fun _ _ => .refl _) (fun _ _ => id) rfl

/-- The delivery is not about the promises. -/
theorem eases_deliver (globMatch : Glob) (changes : List Change) (c : Client) :
    Eases c (deliver globMatch changes c) := by
  have hupdate : Eases c
      { c with
        txs := c.txs.mapIdx fun t cell =>
          if cell.registered && c.isUsed t cell then
            { cell with tx := cell.tx.update globMatch changes }
          else cell } := by
    refine .of_txs rfl (fun t cell => ?_) (fun t cell => ?_) rfl
    · split
      · exact (Transaction.update_sameFrame globMatch cell.tx changes).subsides
      · exact .refl _
    · split <;> exact id
  unfold deliver
  dsimp only
  split
  · exact hupdate.trans (eases_purgeUnusedTxs _)
  · exact hupdate

/-- The actions that take no future. -/
theorem Action.eases {k : ActionKind} (h : Action k c c') (hk : k.eases = true) : Eases c c' := by
  by_cases hledger : k.keepsLedger = true
  · exact .of_ledger (h.ledger hledger)
  cases h with
  | drop => exact .of_same rfl rfl
  | @settle _ requests accepted _ _ t _ f hf =>
    have hdrop : Eases c { c with requests := requests, accepted := accepted } := .of_same rfl rfl
    exact hdrop.trans (eases_onTx _ t hf.subsides)
  | deliver => exact eases_deliver _ _ _
  | request => exact eases_sendRequest c _ _
  | refuse _ t => exact eases_onTx c t (Transaction.Closing.setSubmitException .notConnected).subsides
  | @answer _ r rest =>
    have hpop : Eases c { c with requests := rest } := .of_same rfl rfl
    exact hpop.trans (eases_answerSubmit _ _ _)
  | close => exact eases_abort c
  | shut =>
    have hbegin : Eases c { c with phase := .unwinding, activity := .idle } := .of_same rfl rfl
    exact hbegin.trans (eases_setState _ .closed)
  | queue => cases hk
  | takeFuture => cases hk
  | _ => exact absurd rfl hledger

/-- A handler that takes no future eases. -/
theorem Acts.eases {kinds : List ActionKind} (h : Acts kinds c c')
    (hkinds : kinds.all ActionKind.eases = true) : Eases c c' :=
  h.frame hkinds .refl .trans Action.eases

/-- Destroying a transaction without references sets its promise. -/
theorem eases_reap (c : Client) : Eases c c.reap := by
  refine .of_txs rfl (fun t cell => ?_) (fun t cell => ?_) rfl
  · split
    · exact .refl _
    · exact Transaction.subsides_discard _
  · split <;> exact id

/-- A new transaction has no future yet. -/
theorem eases_createTx (c : Client) (isolation : Isolation) (readOnly : Bool) :
    Eases c (c.createTx isolation readOnly) := by
  unfold createTx
  split
  · exact .refl c
  · have hpurge := eases_purgeUnusedTxs c
    dsimp only
    split
    · exact hpurge
    · split
      · exact hpurge
      · refine ⟨hpurge.pushing, fun t cell' hcell' hblocks => ?_⟩
        rw [List.getElem?_append] at hcell'
        split_ifs at hcell' with hold
        · exact hpurge.txs t cell' hcell' hblocks
        · obtain rfl := List.mem_singleton.mp (List.mem_of_getElem? hcell')
          cases hblocks

end Handlers

end Client

end Nplex
