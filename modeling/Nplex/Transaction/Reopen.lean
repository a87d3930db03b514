import Nplex.Transaction.OpenTx

/-!
# A transaction put back to open

While a transaction is submitted, the commits that the event loop processes are not
delivered to it. A TRY_LATER answer opens it again without catching up. The same
transaction could have stayed open and been delivered those commits; the two are compared
by their dirty flag and by every later `read` and `for_each`, whatever commits follow.
-/

namespace Nplex

open Nplex.Common

/-- Apply some commits and deliver each to a transaction; also all their changes. -/
def applyCommits (globMatch : Glob) :
    Store → Transaction → List Update → Option (Store × Transaction × List Change)
  | store, tx, [] => some (store, tx, [])
  | store, tx, u :: rest =>
    match store.update u with
    | (store, .ok (changes, _)) =>
      (applyCommits globMatch store (tx.update globMatch changes) rest).map fun r =>
        (r.1, r.2.1, changes ++ r.2.2)
    | (_, .error _) => none

/-- The transaction submitted, the commits applied meanwhile, and TRY_LATER answered. -/
def reopened (globMatch : Glob) (store : Store) (tx : Transaction) (force client : Bool)
    (commits : List Update) : Option OpenTx :=
  match tx.submit force client with
  | .ok (.push tx) =>
    match applyCommits globMatch store tx.takeFuture commits with
    | some (store, tx, _) =>
      match tx.setSubmitResult .tryLater with
      | (tx, none) => some { store := store, tx := tx }
      | (_, some _) => none
    | none => none
  | _ => none

/-- The inputs by which the two are compared: reads, `for_each` and further commits. -/
def TxInput.observes : TxInput → Bool
  | .commit _ | .read _ _ | .forEach _ | .visit | .stop => true
  | .upsert _ _ | .upsertIfChanged _ _ | .remove _ | .ensure _ => false

/-- Answer an observation, and show the dirty flag after it. -/
def observe (globMatch : Glob) (s : OpenTx) (i : TxInput) : Option (OpenTx × TxAnswer × Bool) :=
  if i.observes then (s.step globMatch i).map fun r => (r.1, r.2, r.1.tx.dirty) else none

/-- Two open transactions with the same dirty flag and the same later observations. -/
def Indistinguishable (globMatch : Glob) (left right : OpenTx) : Prop :=
  left.tx.dirty = right.tx.dirty ∧
    ∀ inputs, outputs (observe globMatch) left inputs = outputs (observe globMatch) right inputs

/-- The condition under which the commits missed do not matter. Below serializable: the
transaction was dirty already, or no change is about one of its items or ensure patterns.
Serializable: nothing changed, or the transaction was dirty already and every changed key it has
no item for ends with the value it had. -/
def missedNothing (globMatch : Glob) (store store' : Store) (tx : Transaction)
    (changes : List Change) : Prop :=
  if tx.isolation = .serializable then
    if tx.dirty then
      ∀ k ∈ changedKeys changes, k ∈ tx.items ∨ store'.data[k]? = store.data[k]?
    else changes = []
  else
    tx.dirty = true ∨
      ((∀ c ∈ changes, c.key ∉ tx.items) ∧ tx.ensureBroken globMatch changes = false)

/-- What applying some commits does to the store. -/
structure Applied (store : Store) (changes : List Change) (store' : Store) : Prop where
  wellFormed : ∀ c ∈ changes, c.wellFormed
  replays : Replays store.content (changes.map Change.delta) store'.content

namespace Transaction

variable {globMatch : Glob} {tx mid last : Transaction} {first second : List Change}

/-- The keys with an item after an update. -/
theorem UpdateStep.mem_items (h : UpdateStep globMatch tx first mid) (k : Key) :
    k ∈ mid.items ↔ k ∈ tx.items ∨ (tx.isolation = .serializable ∧ k ∈ changedKeys first) := by
  rw [mem_keyMap, mem_keyMap, h.items]
  by_cases hiso : tx.isolation = .serializable
  · rw [if_pos hiso]
    cases hitem : tx.items[k]? with
    | some e => simp
    | none =>
      cases hfirst : firstChange first k with
      | none => simp [hiso, firstChange_eq_none.mp hfirst]
      | some c =>
        obtain ⟨hc, hk⟩ := firstChange_eq_some hfirst
        have hmem : k ∈ changedKeys first := mem_changedKeys.mpr ⟨c, hc, hk⟩
        simp [hiso, hmem]
  · simp [hiso]

/-- Updates compose. -/
theorem UpdateStep.append (hfirst : UpdateStep globMatch tx first mid)
    (hsecond : UpdateStep globMatch mid second last) :
    UpdateStep globMatch tx (first ++ second) last := by
  have hiso : mid.isolation = tx.isolation := by rw [hfirst.frame]
  have hens : mid.ensures = tx.ensures := by rw [hfirst.frame]
  have hfind : ∀ k, firstChange (first ++ second) k = (firstChange first k).or (firstChange second k) :=
    fun k => by simp [firstChange, List.find?_append]
  refine ⟨fun k => ?_, ?_, ?_⟩
  · rw [hsecond.items, hfirst.items, hiso, hfind]
    split_ifs
    · cases tx.items[k]? <;> cases firstChange first k <;> simp
    · rfl
  · have hbroken : tx.ensureBroken globMatch (first ++ second) =
        (tx.ensureBroken globMatch first || tx.ensureBroken globMatch second) := by
      simp [ensureBroken, List.any_append]
    have hnodup : (changedKeys (first ++ second)).Nodup ↔ (changedKeys first).Nodup ∧
        (changedKeys second).Nodup ∧ ∀ c ∈ second, c.key ∉ changedKeys first := by
      rw [changedKeys, List.map_append, List.nodup_append']
      refine and_congr_right fun _ => and_congr_right fun _ => ?_
      rw [List.disjoint_comm, List.disjoint_left]
      simp [changedKeys]
    -- a change of the second list meets an item or a snapshot left by the first
    have hmeets : (∃ c ∈ second, c.key ∈ mid.items) ↔ (∃ c ∈ second, c.key ∈ tx.items) ∨
        (tx.isolation = .serializable ∧ ∃ c ∈ second, c.key ∈ changedKeys first) := by
      simp only [hfirst.mem_items]
      constructor
      · rintro ⟨c, hc, hitem | ⟨hlevel, hkey⟩⟩
        · exact Or.inl ⟨c, hc, hitem⟩
        · exact Or.inr ⟨hlevel, c, hc, hkey⟩
      · rintro (⟨c, hc, hitem⟩ | ⟨hlevel, c, hc, hkey⟩)
        · exact ⟨c, hc, Or.inl hitem⟩
        · exact ⟨c, hc, Or.inr ⟨hlevel, hkey⟩⟩
    have happend : (∃ c ∈ first ++ second, c.key ∈ tx.items) ↔
        (∃ c ∈ first, c.key ∈ tx.items) ∨ ∃ c ∈ second, c.key ∈ tx.items := by
      simp only [List.mem_append, or_and_right, exists_or]
    rw [hsecond.dirty, hfirst.dirty, hmeets, happend, hiso, hnodup, ensureBroken_congr hens,
      hbroken, Bool.or_eq_true]
    have hdisjoint : (∀ c ∈ second, c.key ∉ changedKeys first) ↔
        ¬∃ c ∈ second, c.key ∈ changedKeys first := by simp
    rw [hdisjoint]
    generalize (∃ c ∈ second, c.key ∈ changedKeys first) = meets
    generalize (∃ c ∈ first, c.key ∈ tx.items) = hit
    generalize (∃ c ∈ second, c.key ∈ tx.items) = hit'
    by_cases hlevel : tx.isolation = .serializable
    · simp only [hlevel, true_and]
      grind
    · simp only [hlevel, false_and, false_or]
      grind
  · rw [hsecond.frame, hfirst.frame]

end Transaction

namespace Transaction

variable {globMatch : Glob} {tx tx' : Transaction} {store : Store} {k : Key} {v : Option Value}

/-- An item fixes the value of a key without being a write. -/
def Fixed (tx : Transaction) (k : Key) (v : Option Value) : Prop :=
  tx.items[k]? = some ⟨.read, v⟩ ∨ tx.items[k]? = some ⟨.snapshot, v⟩

/-- A fixed key shows its value. -/
theorem Fixed.visible (h : Fixed tx k v) (store : Store) : tx.visible store k = v := by
  rcases h with h | h <;> simp [Transaction.visible, h, Entry.shown]

/-- A read leaves every fixed key fixed. -/
theorem Fixed.read {k' : Key} {ensure : Bool} {w : Option Value} (h : Fixed tx k v)
    (hread : ReadStep tx store k' ensure w tx') : Fixed tx' k v := by
  unfold Fixed
  rw [hread.items]
  split_ifs with hk
  · subst hk
    rcases h with h | h <;> cases v <;> simp [itemAfterRead, h, Entry.observed]
  · exact h

/-- A `for_each` leaves every fixed key fixed. -/
theorem Fixed.collected {pattern : Bytes} {ret : List (Key × Value)} (h : Fixed tx k v)
    (hcollected : Collected globMatch tx store pattern ret tx') : Fixed tx' k v := by
  unfold Fixed
  rw [hcollected.items]
  by_cases hscan : scans globMatch pattern k = true
  · rw [if_pos hscan]
    rcases h with h | h <;> simp [h, Entry.observed]
  · rw [if_neg hscan]
    exact h

/-- A delivered commit leaves every fixed key fixed. -/
theorem Fixed.update {changes : List Change} (h : Fixed tx k v)
    (hupdate : UpdateStep globMatch tx changes tx') : Fixed tx' k v := by
  unfold Fixed
  rw [hupdate.items]
  rcases h with h | h <;> simp [h]

/-- The ensure patterns after registering a key depend on the patterns before it only. -/
theorem addEnsure_ensures_congr (h : tx.ensures = tx'.ensures) (k : Key) :
    (tx.addEnsure k).ensures = (tx'.addEnsure k).ensures := by
  unfold addEnsure
  rw [h]
  split_ifs
  · exact h
  · rfl

end Transaction

open Transaction

/-- The two transactions show the same value for a key and keep showing it: they have the same
item, or the right one has fixed the value and the left one has too or still finds it in the
store. -/
def KeyAlike (left right : OpenTx) (k : Key) : Prop :=
  left.tx.items[k]? = right.tx.items[k]? ∨
    ∃ v, right.tx.Fixed k v ∧
      (left.tx.Fixed k v ∨ left.tx.items[k]? = none ∧ left.store.data[k]? = v)

/-- Two open transactions that observations cannot tell apart. Their items are the same, or they
are serializable and dirty, so that no observation can mark them. -/
structure Alike (left right : OpenTx) : Prop where
  store : left.store = right.store
  iterating : left.iterating = right.iterating
  opened : left.tx.state = .opened ∧ right.tx.state = .opened
  isolation : left.tx.isolation = right.tx.isolation
  ensures : left.tx.ensures = right.tx.ensures
  dirty : left.tx.dirty = right.tx.dirty
  keys : (∀ k : Key, left.tx.items[k]? = right.tx.items[k]?) ∨
    (left.tx.isolation = .serializable ∧ left.tx.dirty = true ∧ ∀ k, KeyAlike left right k)

variable {globMatch : Glob} {left right left' right' : OpenTx}

/-- Alike keys show the same value. -/
theorem KeyAlike.visible {k : Key} (hstore : left.store = right.store) (h : KeyAlike left right k) :
    left.tx.visible left.store k = right.tx.visible right.store k := by
  rcases h with heq | ⟨v, hright, hleft | ⟨hnone, hdata⟩⟩
  · rw [Transaction.visible, heq, hstore, Transaction.visible]
  · rw [hleft.visible, hright.visible]
  · rw [hright.visible, Transaction.visible, hnone, hdata]

/-- Alike transactions show the same values. -/
theorem Alike.visible (h : Alike left right) (k : Key) :
    left.tx.visible left.store k = right.tx.visible right.store k := by
  rcases h.keys with hitems | ⟨-, -, hkeys⟩
  · exact KeyAlike.visible h.store (Or.inl (hitems k))
  · exact (hkeys k).visible h.store

/-- What two steps have to keep for the transactions to stay alike. -/
theorem Alike.after (h : Alike left right) (hstore : left'.store = right'.store)
    (hiterating : left'.iterating = right'.iterating) (hleft : SameFrame left.tx left'.tx)
    (hright : SameFrame right.tx right'.tx) (hensures : left'.tx.ensures = right'.tx.ensures)
    (hmono : left.tx.dirty = true → left'.tx.dirty = true ∧ right'.tx.dirty = true)
    (hsame : (∀ k : Key, left.tx.items[k]? = right.tx.items[k]?) →
      left'.tx.dirty = right'.tx.dirty ∧ ∀ k : Key, left'.tx.items[k]? = right'.tx.items[k]?)
    (hkeys : left.tx.isolation = .serializable → ∀ k, KeyAlike left right k →
      KeyAlike left' right' k) : Alike left' right' := by
  have hopened : left'.tx.state = .opened ∧ right'.tx.state = .opened := by
    rw [hleft, hright]
    exact h.opened
  have hisolation : left'.tx.isolation = right'.tx.isolation := by
    rw [hleft, hright]
    exact h.isolation
  rcases h.keys with hitems | ⟨hlevel, hdirty, halike⟩
  · obtain ⟨hdirty, hitems'⟩ := hsame hitems
    exact ⟨hstore, hiterating, hopened, hisolation, hensures, hdirty, Or.inl hitems'⟩
  · obtain ⟨hdl, hdr⟩ := hmono hdirty
    exact ⟨hstore, hiterating, hopened, hisolation, hensures, hdl.trans hdr.symm,
      Or.inr ⟨by rw [hleft]; exact hlevel, hdl, fun k => hkeys hlevel k (halike k)⟩⟩

/-- Alike transactions stay alike after a read. -/
theorem Alike.read {k : Key} {ensure : Bool} {v : Option Value} (h : Alike left right)
    (hl : left' = { left with tx := left'.tx }) (hr : right' = { right with tx := right'.tx })
    (hleft : ReadStep left.tx left.store k ensure v left'.tx)
    (hright : ReadStep right.tx right.store k ensure v right'.tx) : Alike left' right' := by
  have hafter : left.tx.items[k]? = right.tx.items[k]? →
      left.tx.itemAfterRead left.store k = right.tx.itemAfterRead right.store k := fun hitem => by
    simp only [itemAfterRead, hitem, h.isolation, h.store]
  have hdata : left'.store = left.store := by rw [hl]
  refine h.after (by rw [hl, hr]; exact h.store) (by rw [hl, hr]; exact h.iterating) hleft.frame
    hright.frame ?_ ?_ ?_ ?_
  · rw [hleft.ensures, hright.ensures, addEnsure_ensures_congr h.ensures k, h.ensures]
  · intro hdirty
    rw [hleft.dirty, hright.dirty, ← h.dirty, hdirty]
    exact ⟨rfl, rfl⟩
  · intro hitems
    refine ⟨?_, fun k' => by rw [hleft.items, hright.items, hafter (hitems k), hitems k']⟩
    rw [hleft.dirty, hright.dirty, h.dirty, snapshotAt, hitems, snapshotAt]
  · intro hlevel k' hkey
    rcases hkey with heq | ⟨w, hfixed, hfixed' | ⟨hnone, hvalue⟩⟩
    · refine Or.inl ?_
      rw [hleft.items, hright.items]
      by_cases hk : k = k'
      · subst hk
        rw [if_pos rfl, if_pos rfl, hafter heq]
      · rw [if_neg hk, if_neg hk, heq]
    · exact Or.inr ⟨w, hfixed.read hright, Or.inl (hfixed'.read hleft)⟩
    · refine Or.inr ⟨w, hfixed.read hright, ?_⟩
      by_cases hk : k = k'
      · subst hk
        refine Or.inl (Or.inl ?_)
        rw [hleft.items, if_pos rfl]
        simp [itemAfterRead, hnone, hlevel, pin, hvalue]
      · refine Or.inr ⟨?_, by rw [hdata]; exact hvalue⟩
        rw [hleft.items, if_neg hk, hnone]

/-- Alike transactions collect the same pairs and stay alike. -/
theorem Alike.forEach {pattern : Bytes} {ret ret' : List (Key × Value)} (h : Alike left right)
    (hl : left' = { left with tx := left'.tx, iterating := ret :: left.iterating })
    (hr : right' = { right with tx := right'.tx, iterating := ret' :: right.iterating })
    (hleft : Collected globMatch left.tx left.store pattern ret left'.tx)
    (hright : Collected globMatch right.tx right.store pattern ret' right'.tx) :
    ret = ret' ∧ Alike left' right' := by
  have hret : ret = ret' := by
    refine hleft.sorted.ext hright.sorted fun kv => ?_
    rw [hleft.mem_ret, hright.mem_ret, h.visible]
  subst hret
  refine ⟨rfl, h.after (by rw [hl, hr]; exact h.store) ?_ (by rw [SameFrame, hleft.frame])
    (by rw [SameFrame, hright.frame]) ?_ ?_ ?_ ?_⟩
  · rw [hl, hr]
    exact congrArg (ret :: ·) h.iterating
  · rw [hleft.frame, hright.frame]
    exact h.ensures
  · intro hdirty
    exact ⟨hleft.dirty.mpr (Or.inl hdirty), hright.dirty.mpr (Or.inl (h.dirty ▸ hdirty))⟩
  · intro hitems
    refine ⟨?_, fun k => by rw [hleft.items, hright.items, hitems, h.isolation, h.store]⟩
    rw [Bool.eq_iff_iff, hleft.dirty, hright.dirty, h.dirty]
    simp only [hitems]
  · intro hlevel k hkey
    rcases hkey with heq | ⟨w, hfixed, hfixed' | ⟨hnone, hvalue⟩⟩
    · exact Or.inl (by rw [hleft.items, hright.items, heq, h.isolation, h.store])
    · exact Or.inr ⟨w, hfixed.collected hright, Or.inl (hfixed'.collected hleft)⟩
    · refine Or.inr ⟨w, hfixed.collected hright, ?_⟩
      have hdata : left'.store = left.store := by rw [hl]
      unfold Fixed
      rw [hleft.items, hnone, hdata]
      by_cases hscan : scans globMatch pattern k = true
      · cases w <;> simp [hscan, hlevel, hvalue, pin]
      · simp [hscan, hvalue]

/-- Alike transactions stay alike after a commit. -/
theorem Alike.commit {u : Update} {store : Store} {changes : List Change} (h : Alike left right)
    (hupdate : Store.Updated left.store u store changes) :
    Alike { left with store := store, tx := left.tx.update globMatch changes }
      { right with store := store, tx := right.tx.update globMatch changes } := by
  have hleft := update_spec globMatch h.opened.1 hupdate.wellFormed
  have hright := update_spec globMatch h.opened.2 hupdate.wellFormed
  refine h.after rfl h.iterating (by rw [SameFrame, hleft.frame]) (by rw [SameFrame, hright.frame])
    ?_ ?_ ?_ ?_
  · rw [hleft.frame, hright.frame]
    exact h.ensures
  · intro hdirty
    exact ⟨hleft.dirty.mpr (Or.inl hdirty), hright.dirty.mpr (Or.inl (h.dirty ▸ hdirty))⟩
  · intro hitems
    refine ⟨?_, fun k => ?_⟩
    · have hmem : ∀ k, k ∈ left.tx.items ↔ k ∈ right.tx.items := fun k => by
        rw [mem_keyMap, mem_keyMap, hitems]
      rw [Bool.eq_iff_iff, hleft.dirty, hright.dirty, h.dirty, h.isolation,
        ensureBroken_congr h.ensures]
      simp only [hmem]
    · change (left.tx.update globMatch changes).items[k]? = _
      rw [hleft.items, hright.items, hitems, h.isolation]
  · intro hlevel k hkey
    rcases hkey with heq | ⟨w, hfixed, hfixed' | ⟨hnone, hvalue⟩⟩
    · refine Or.inl ?_
      change (left.tx.update globMatch changes).items[k]? = _
      rw [hleft.items, hright.items, heq, h.isolation]
    · exact Or.inr ⟨w, hfixed.update hright, Or.inl (hfixed'.update hleft)⟩
    · -- the left one snapshots the value the right one has fixed
      refine Or.inr ⟨w, hfixed.update hright, ?_⟩
      unfold Fixed
      dsimp only
      rw [hleft.items, hnone, if_pos hlevel, Option.none_or]
      cases hfirst : firstChange changes k with
      | none =>
        refine Or.inr ⟨rfl, ?_⟩
        rw [data_of_firstChange_none hupdate.replays hfirst]
        exact hvalue
      | some c =>
        refine Or.inl (Or.inr ?_)
        simp [snapshotOf, firstChange_oldValue hupdate.replays hfirst, hvalue]

/-- Moving along a `for_each` keeps transactions alike. -/
theorem Alike.moved (h : Alike left right) (iterating : List (List (Key × Value))) :
    Alike { left with iterating := iterating } { right with iterating := iterating } :=
  h.after h.store rfl rfl rfl h.ensures (fun hd => ⟨hd, h.dirty ▸ hd⟩)
    (fun hitems => ⟨h.dirty, hitems⟩) fun _ _ hkey => hkey

/-- Alike transactions answer every observation alike. -/
theorem Alike.observe (h : Alike left right) (i : TxInput) :
    Agree Alike (observe globMatch left i) (observe globMatch right i) := by
  obtain ⟨store, tx, iterating⟩ := right
  obtain rfl : left.store = store := h.store
  obtain rfl : left.iterating = iterating := h.iterating
  unfold Nplex.observe
  cases i with
  | commit u =>
    simp only [TxInput.observes, if_true, OpenTx.step]
    split_ifs with hidle
    · trivial
    · cases hupdate : left.store.update u with
      | mk store result =>
        cases result with
        | error e => trivial
        | ok r =>
          have halike : Alike { left with store := store, tx := left.tx.update globMatch r.1 }
              { store := store, tx := tx.update globMatch r.1, iterating := left.iterating } :=
            h.commit (Store.update_ok hupdate).2
          exact ⟨by rw [halike.dirty], halike⟩
  | read k ensure =>
    simp only [TxInput.observes, if_true, OpenTx.step]
    by_cases hvalid : isValidKey k = true
    · obtain ⟨v, tx₁, hread⟩ := read_succeeds h.opened.1 hvalid left.store ensure
      obtain ⟨v', tx₂, hread'⟩ := read_succeeds h.opened.2 hvalid left.store ensure
      have hstep := read_ok hread
      have hstep' := read_ok hread'
      obtain rfl : v = v' := by rw [hstep.value, hstep'.value, h.visible]
      have halike : Alike { left with tx := tx₁ }
          { store := left.store, tx := tx₂, iterating := left.iterating } :=
        h.read rfl rfl hstep hstep'
      rw [hread, hread']
      exact ⟨by rw [halike.dirty], halike⟩
    · have hleft : left.tx.read left.store k ensure = .error (.readInvalidKey k) := by
        simp [Transaction.read, hvalid]
      have hright : tx.read left.store k ensure = .error (.readInvalidKey k) := by
        simp [Transaction.read, hvalid]
      rw [hleft, hright]
      exact ⟨by rw [h.dirty], h⟩
  | forEach pattern =>
    simp only [TxInput.observes, if_true, OpenTx.step]
    by_cases hempty : pattern.isEmpty = true
    · rw [if_pos hempty, if_pos hempty]
      exact ⟨by rw [h.dirty], h.moved _⟩
    · have hpattern : pattern ≠ [] := by simpa using hempty
      have hleft : Collected globMatch left.tx left.store pattern _ _ :=
        forEachInternal_collected hpattern
      have hright : Collected globMatch tx left.store pattern _ _ :=
        forEachInternal_collected hpattern
      rw [if_neg hempty, if_neg hempty, if_neg (not_not.mpr h.opened.1),
        if_neg (not_not.mpr h.opened.2)]
      obtain ⟨hret, halike⟩ : _ ∧ Alike
          { store := left.store, tx := (left.tx.forEachInternal globMatch left.store pattern).2,
            iterating := (left.tx.forEachInternal globMatch left.store pattern).1 ::
              left.iterating }
          { store := left.store, tx := (tx.forEachInternal globMatch left.store pattern).2,
            iterating := (tx.forEachInternal globMatch left.store pattern).1 :: left.iterating } :=
        h.forEach rfl rfl hleft hright
      exact ⟨by simpa [hret] using halike.dirty, halike⟩
  | visit =>
    simp only [TxInput.observes, if_true, OpenTx.step]
    split
    · exact ⟨by rw [h.dirty], h.moved _⟩
    · trivial
  | stop =>
    simp only [TxInput.observes, if_true, OpenTx.step]
    split
    · exact ⟨by rw [h.dirty], h.moved _⟩
    · trivial
  | upsert k data => trivial
  | upsertIfChanged k data => trivial
  | remove k => trivial
  | ensure pattern => trivial

/-- Alike transactions are indistinguishable. -/
theorem Alike.indistinguishable (h : Alike left right) : Indistinguishable globMatch left right :=
  ⟨h.dirty, outputs_eq_of_bisimulation (fun _ _ i h => h.observe i) left right h⟩

section Gap

variable {store store' : Store} {tx tx' : Transaction} {changes : List Change} {us : List Update}

/-- Applying commits replays their changes on the content. -/
theorem applyCommits_applied (h : applyCommits globMatch store tx us = some (store', tx', changes)) :
    Applied store changes store' := by
  induction us generalizing store tx changes with
  | nil =>
    simp only [applyCommits, Option.some.injEq, Prod.mk.injEq] at h
    obtain ⟨rfl, rfl, rfl⟩ := h
    exact ⟨by simp, .nil _⟩
  | cons u rest ih =>
    rw [applyCommits] at h
    split at h
    · next store₁ first m hupdate =>
      obtain ⟨⟨store₂, tx₂, later⟩, hrest, heq⟩ := Option.map_eq_some_iff.mp h
      obtain ⟨rfl, rfl, rfl⟩ : store₂ = store' ∧ tx₂ = tx' ∧ first ++ later = changes := by
        simpa using heq
      have hfirst := (Store.update_ok hupdate).2
      have hlater := ih hrest
      refine ⟨?_, ?_⟩
      · intro c hc
        rcases List.mem_append.mp hc with hc | hc
        · exact hfirst.wellFormed c hc
        · exact hlater.wellFormed c hc
      · rw [List.map_append]
        exact hfirst.replays.append hlater.replays
    · cases h

/-- An open transaction is updated with all the changes. -/
theorem applyCommits_open (hopen : tx.state = .opened)
    (h : applyCommits globMatch store tx us = some (store', tx', changes)) :
    UpdateStep globMatch tx changes tx' := by
  induction us generalizing store tx changes with
  | nil =>
    simp only [applyCommits, Option.some.injEq, Prod.mk.injEq] at h
    obtain ⟨rfl, rfl, rfl⟩ := h
    exact ⟨by simp [firstChange], by simp [changedKeys, ensureBroken], rfl⟩
  | cons u rest ih =>
    rw [applyCommits] at h
    split at h
    · next store₁ first m hupdate =>
      obtain ⟨⟨store₂, tx₂, later⟩, hrest, heq⟩ := Option.map_eq_some_iff.mp h
      obtain ⟨rfl, rfl, rfl⟩ : store₂ = store' ∧ tx₂ = tx' ∧ first ++ later = changes := by
        simpa using heq
      have hstep := update_spec globMatch hopen (Store.update_ok hupdate).2.wellFormed
      exact hstep.append (ih (by rw [hstep.frame]; exact hopen) hrest)
    · cases h

/-- A transaction that is not open is left alone, and the store gets the same commits. -/
theorem applyCommits_idle {idle : Transaction} (hidle : idle.state ≠ .opened)
    (h : applyCommits globMatch store tx us = some (store', tx', changes)) :
    applyCommits globMatch store idle us = some (store', idle, changes) := by
  induction us generalizing store tx changes with
  | nil =>
    simp only [applyCommits, Option.some.injEq, Prod.mk.injEq] at h
    obtain ⟨rfl, rfl, rfl⟩ := h
    rfl
  | cons u rest ih =>
    rw [applyCommits] at h ⊢
    split at h
    · next store₁ first m hupdate =>
      obtain ⟨⟨store₂, tx₂, later⟩, hrest, heq⟩ := Option.map_eq_some_iff.mp h
      obtain ⟨rfl, rfl, rfl⟩ : store₂ = store' ∧ tx₂ = tx' ∧ first ++ later = changes := by
        simpa using heq
      simp only [update_of_not_open hidle, ih hrest, Option.map_some]
    · cases h

/-- The reopened transaction is the one that was submitted, with a new promise. -/
theorem reopened_eq {force client : Bool} {left : OpenTx}
    (h : reopened globMatch store tx force client us = some left)
    (happlied : applyCommits globMatch store tx us = some (store', tx', changes)) :
    tx.state = .opened ∧ ∃ earlier,
      left = { store := store', tx := { tx with promise := {}, earlier := earlier } } := by
  unfold reopened at h
  split at h
  · next txS hsubmit =>
    obtain ⟨hopen, -, -, rfl, -⟩ := submit_push hsubmit
    refine ⟨hopen, ?_⟩
    have hidle : ({ tx with state := .submitted } : Transaction).takeFuture.state ≠ .opened := by
      simp [takeFuture]
    rw [applyCommits_idle hidle happlied] at h
    dsimp only at h
    split at h
    · next tx₂ hresult =>
      simp only [Option.some.injEq] at h
      obtain ⟨earlier, hearlier⟩ := setSubmitResult_tryLater rfl hresult
      refine ⟨earlier, ?_⟩
      rw [← h, hearlier]
      simp [takeFuture, hopen]
    · cases h
  · cases h

/-- Missing nothing makes the two transactions alike. -/
theorem alike_of_missedNothing (hopen : tx.state = .opened) (happlied : Applied store changes store')
    (hstep : UpdateStep globMatch tx changes tx')
    (h : missedNothing globMatch store store' tx changes) (earlier : List Promise) :
    Alike { store := store', tx := { tx with promise := {}, earlier := earlier } }
      { store := store', tx := tx' } := by
  have hopen' : tx'.state = .opened := by rw [hstep.frame]; exact hopen
  have hiso : tx'.isolation = tx.isolation := by rw [hstep.frame]
  have hens : tx'.ensures = tx.ensures := by rw [hstep.frame]
  unfold missedNothing at h
  by_cases hlevel : tx.isolation = .serializable
  · rw [if_pos hlevel] at h
    by_cases hdirty : tx.dirty = true
    · rw [if_pos hdirty] at h
      refine ⟨rfl, rfl, ⟨hopen, hopen'⟩, hiso.symm, hens.symm, ?_,
        Or.inr ⟨hlevel, hdirty, fun k => ?_⟩⟩
      · exact hdirty.trans (hstep.dirty.mpr (Or.inl hdirty)).symm
      · have hitem := hstep.items k
        rw [if_pos hlevel] at hitem
        unfold KeyAlike Fixed
        dsimp only
        cases hbefore : tx.items[k]? with
        | some e => exact Or.inl (by simp [hitem, hbefore])
        | none =>
          cases hfirst : firstChange changes k with
          | none => exact Or.inl (by simp [hitem, hbefore, hfirst])
          | some c =>
            obtain ⟨hc, hk⟩ := firstChange_eq_some hfirst
            have hold := firstChange_oldValue happlied.replays hfirst
            refine Or.inr ⟨c.oldValue, Or.inr (by simp [hitem, hbefore, hfirst, snapshotOf]),
              Or.inr ⟨rfl, ?_⟩⟩
            rcases h k (mem_changedKeys.mpr ⟨c, hc, hk⟩) with hmem | hsame
            · obtain ⟨e, he⟩ := mem_keyMap.mp hmem
              rw [hbefore] at he
              cases he
            · rw [hsame, hold]
    · rw [if_neg hdirty] at h
      subst h
      refine ⟨rfl, rfl, ⟨hopen, hopen'⟩, hiso.symm, hens.symm, ?_, Or.inl fun k => ?_⟩
      · rw [Bool.eq_iff_iff, hstep.dirty]
        simp [changedKeys, ensureBroken]
      · simp [hstep.items, firstChange]
  · rw [if_neg hlevel] at h
    refine ⟨rfl, rfl, ⟨hopen, hopen'⟩, hiso.symm, hens.symm, ?_, Or.inl fun k => ?_⟩
    · rw [Bool.eq_iff_iff, hstep.dirty]
      rcases h with hdirty | ⟨hitems, hbroken⟩
      · simp [hdirty]
      · simp only [hlevel, false_and, hbroken, Bool.false_eq_true, or_false]
        refine ⟨Or.inl, fun hcase => ?_⟩
        rcases hcase with hdirty | ⟨c, hc, hmem⟩
        · exact hdirty
        · exact absurd hmem (hitems c hc)
    · simp [hstep.items, hlevel]

/-- The value a read shows, with the dirty flag after it. -/
theorem observe_read {s : OpenTx} {k : Key} (hopen : s.tx.state = .opened)
    (hvalid : isValidKey k = true) :
    outputs (observe globMatch) s [.read k false] =
      [(.value (s.tx.visible s.store k),
        s.tx.dirty || (s.tx.snapshotAt k && (s.tx.visible s.store k).isSome))] := by
  obtain ⟨v, tx₁, hread⟩ := read_succeeds hopen hvalid s.store false
  have hstep := read_ok hread
  simp [outputs, observe, TxInput.observes, OpenTx.step, OpenTx.answer, hread, hstep.dirty,
    hstep.value]

/-- Indistinguishable transactions missed nothing. -/
theorem missedNothing_of_indistinguishable (hopen : tx.state = .opened)
    (happlied : Applied store changes store') (hstep : UpdateStep globMatch tx changes tx')
    {earlier : List Promise}
    (h : Indistinguishable globMatch
      { store := store', tx := { tx with promise := {}, earlier := earlier } }
      { store := store', tx := tx' }) :
    missedNothing globMatch store store' tx changes := by
  obtain ⟨hdirty, houtputs⟩ := h
  have hdirty : tx.dirty = tx'.dirty := hdirty
  have hopen' : tx'.state = .opened := by rw [hstep.frame]; exact hopen
  -- reading a valid key shows the same value and the same dirty flag on both sides
  have hread : ∀ k, isValidKey k = true → tx.visible store' k = tx'.visible store' k ∧
      (tx.dirty || (tx.snapshotAt k && (tx.visible store' k).isSome)) =
        (tx'.dirty || (tx'.snapshotAt k && (tx'.visible store' k).isSome)) := by
    intro k hvalid
    have hout := houtputs [.read k false]
    rw [observe_read hopen hvalid, observe_read hopen' hvalid] at hout
    simp only [List.cons.injEq, and_true, Prod.mk.injEq, TxAnswer.value.injEq] at hout
    exact hout
  -- a changed key without an item shows its old value on the right
  have hnew : tx.isolation = .serializable → ∀ c ∈ changes, c.key ∉ tx.items →
      tx'.visible store' c.key = store.data[c.key]? ∧ tx'.snapshotAt c.key = true ∧
        tx.visible store' c.key = store'.data[c.key]? ∧ tx.snapshotAt c.key = false := by
    intro hlevel c hc hmem
    have hnone : tx.items[c.key]? = none := by simpa using hmem
    have hitem := hstep.items c.key
    rw [if_pos hlevel, hnone, Option.none_or] at hitem
    cases hfirst : firstChange changes c.key with
    | none => exact absurd (mem_changedKeys.mpr ⟨c, hc, rfl⟩) (firstChange_eq_none.mp hfirst)
    | some c' =>
      have hold := firstChange_oldValue happlied.replays hfirst
      simp [visible, snapshotAt, hitem, hnone, hfirst, snapshotOf, Entry.shown, hold]
  unfold missedNothing
  by_cases hlevel : tx.isolation = .serializable
  · rw [if_pos hlevel]
    by_cases hbefore : tx.dirty = true
    · rw [if_pos hbefore]
      intro k hk
      obtain ⟨c, hc, rfl⟩ := mem_changedKeys.mp hk
      by_cases hmem : c.key ∈ tx.items
      · exact Or.inl hmem
      · obtain ⟨hright, -, hleft, -⟩ := hnew hlevel c hc hmem
        have hsame := (hread c.key (happlied.wellFormed c hc).1).1
        exact Or.inr (by rw [← hleft, hsame, hright])
    · rw [if_neg hbefore]
      have hclean : ¬tx'.dirty = true := by rwa [← hdirty]
      rw [hstep.dirty] at hclean
      by_contra hne
      obtain ⟨c₀, hc₀⟩ := List.exists_mem_of_ne_nil _ hne
      obtain ⟨c, hfirst⟩ : ∃ c, firstChange changes c₀.key = some c := by
        refine Option.ne_none_iff_exists'.mp fun hnone => ?_
        exact firstChange_eq_none.mp hnone (mem_changedKeys.mpr ⟨c₀, hc₀, rfl⟩)
      obtain ⟨hc, hkey⟩ := firstChange_eq_some hfirst
      rw [← hkey] at hfirst
      have hmem : c.key ∉ tx.items := fun hmem => hclean (Or.inr (Or.inl ⟨c, hc, hmem⟩))
      obtain ⟨hright, hsnap, hleft, hsnap'⟩ := hnew hlevel c hc hmem
      obtain ⟨hvalue, hflag⟩ := hread c.key (happlied.wellFormed c hc).1
      -- the old value is absent, or reading it would mark the right one only
      have hold : store.data[c.key]? = none := by
        have hunmarked : tx.dirty = false := by simpa using hbefore
        rw [hsnap', hsnap, ← hdirty, hright, hunmarked] at hflag
        cases hdata : store.data[c.key]? with
        | none => rfl
        | some w =>
          rw [hdata] at hflag
          cases hflag
      -- the key changed once, so its new value is present
      have hnodup : (changedKeys changes).Nodup := by
        by_contra hdup
        exact hclean (Or.inr (Or.inr (Or.inl ⟨hlevel, hdup⟩)))
      have hnewValue : store'.data[c.key]? = c.newValue := by
        have hkeys : ((changes.map Change.delta).map Delta.key).Nodup := by rwa [List.map_map]
        have hmem : c.delta ∈ changes.map Change.delta := List.mem_map.mpr ⟨c, hc, rfl⟩
        exact happlied.replays.new_of_nodup hkeys hmem
      have holdValue : c.oldValue = none :=
        (firstChange_oldValue happlied.replays hfirst).trans hold
      refine (happlied.wellFormed c hc).2.2 holdValue ?_
      rw [← hnewValue, ← hleft, hvalue, hright, hold]
  · rw [if_neg hlevel]
    by_cases hbefore : tx.dirty = true
    · exact Or.inl hbefore
    · have hclean : ¬tx'.dirty = true := by rwa [← hdirty]
      rw [hstep.dirty] at hclean
      refine Or.inr ⟨fun c hc hmem => hclean (Or.inr (Or.inl ⟨c, hc, hmem⟩)), ?_⟩
      by_contra hbroken
      exact hclean (Or.inr (Or.inr (Or.inr (by simpa using hbroken))))

end Gap

/-- A transaction put back to open by TRY_LATER is as if it had stayed open, by its dirty flag
and every later `read` and `for_each`, exactly when it missed nothing. -/
theorem reopened_indistinguishable_iff (globMatch : Glob) (store store' : Store)
    (tx tx' : Transaction) (force client : Bool) (commits : List Update) (changes : List Change)
    (reopenedTx : OpenTx) (hreopened : reopened globMatch store tx force client commits = some reopenedTx)
    (hopen : applyCommits globMatch store tx commits = some (store', tx', changes)) :
    Indistinguishable globMatch reopenedTx { store := store', tx := tx' } ↔
      missedNothing globMatch store store' tx changes := by
  obtain ⟨hstate, earlier, rfl⟩ := reopened_eq hreopened hopen
  have happlied := applyCommits_applied hopen
  have hstep := applyCommits_open hstate hopen
  exact ⟨missedNothing_of_indistinguishable hstate happlied hstep,
    fun h => (alike_of_missedNothing hstate happlied hstep h earlier).indistinguishable⟩

/-- A repeatable-read transaction on the empty store with one upsert. -/
def oneUpsert : Transaction :=
  { isolation := .repeatableRead, readOnly := false, user := none, revCreation := 0,
    items := (∅ : KeyMap Entry).insert [97] ⟨.upsert, some ⟨[1], none⟩⟩ }

/-- A commit about the upserted key is processed while the transaction is submitted: reopened, it
is not dirty, although the one that stays open is. -/
theorem reopened_missed_conflict :
    ¬∀ (commits : List Update) (store' : Store) (tx' : Transaction) (changes : List Change)
        (reopenedTx : OpenTx),
      reopened (fun _ _ => true) Store.empty oneUpsert false true commits = some reopenedTx →
        applyCommits (fun _ _ => true) Store.empty oneUpsert commits = some (store', tx', changes) →
          Indistinguishable (fun _ _ => true) reopenedTx { store := store', tx := tx' } := by
  intro h
  have hleft : (reopened (fun _ _ => true) Store.empty oneUpsert false true
      [.writing 1 [[97]] [2]]).map (·.tx.dirty) = some false := by decide +kernel
  have hright : (applyCommits (fun _ _ => true) Store.empty oneUpsert
      [.writing 1 [[97]] [2]]).map (·.2.1.dirty) = some true := by decide +kernel
  obtain ⟨l, hl, hclean⟩ := Option.map_eq_some_iff.mp hleft
  obtain ⟨⟨store', tx', changes⟩, hr, hdirty⟩ := Option.map_eq_some_iff.mp hright
  have hsame : l.tx.dirty = tx'.dirty := (h _ store' tx' changes l hl hr).1
  have hdirty : tx'.dirty = true := hdirty
  rw [hclean, hdirty] at hsame
  cases hsame

/-- A commit about another key is not missed. -/
theorem reopened_indistinguishable_other_key : ∃ store' tx' changes reopenedTx,
    reopened (fun _ _ => true) Store.empty oneUpsert false true [.writing 1 [[98]] [2]] =
        some reopenedTx ∧
      applyCommits (fun _ _ => true) Store.empty oneUpsert [.writing 1 [[98]] [2]] =
        some (store', tx', changes) ∧
      Indistinguishable (fun _ _ => true) reopenedTx { store := store', tx := tx' } := by
  have hleft : (reopened (fun _ _ => true) Store.empty oneUpsert false true
      [.writing 1 [[98]] [2]]).isSome = true := by decide +kernel
  have hright : (applyCommits (fun _ _ => true) Store.empty oneUpsert
      [.writing 1 [[98]] [2]]).map (fun r => changedKeys r.2.2) = some [[98]] := by decide +kernel
  obtain ⟨l, hl⟩ := Option.isSome_iff_exists.mp hleft
  obtain ⟨⟨store', tx', changes⟩, hr, hkeys⟩ := Option.map_eq_some_iff.mp hright
  have hmissed : missedNothing (fun _ _ => true) Store.empty store' oneUpsert changes := by
    refine Or.inr ⟨fun c hc hmem => ?_, ensureBroken_of_isEmpty oneUpsert rfl⟩
    have hkey : c.key ∈ changedKeys changes := mem_changedKeys.mpr ⟨c, hc, rfl⟩
    have hkeys : changedKeys changes = [[98]] := hkeys
    rw [hkeys, List.mem_singleton] at hkey
    rw [hkey] at hmem
    exact absurd hmem (by decide +kernel)
  exact ⟨store', tx', changes, l, hl, hr,
    (reopened_indistinguishable_iff _ _ _ _ _ _ _ _ _ _ hl hr).mpr hmissed⟩

end Nplex
