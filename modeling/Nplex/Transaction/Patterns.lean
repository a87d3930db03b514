import Nplex.Match
import Nplex.Transaction.Facts

/-!
# Keys missed by the literal prefix

`for_each_internal` looks only at the keys that start with the part of the pattern before its
first `*` or `?`. The matcher also gives `[` and the backslash a meaning, so a pattern may match
keys that do not start with that part. The scan is compared with a full scan of the items and
the store filtered by `glob_match`.
-/

namespace Nplex

open Nplex.Common

namespace Transaction

/-- The pattern that `for_each_internal` scans for. -/
def orAll (pattern : Bytes) : Bytes := if pattern.isEmpty then [42, 42] else pattern

/-- What a full scan of the items and the store yields. -/
def fullScan (globMatch : Glob) (tx : Transaction) (store : Store) (pattern : Bytes) :
    List (Key × Value) :=
  (mergeByKey (tx.items.toList.filter fun e => globMatch e.1 (orAll pattern))
    (store.data.toList.filter fun e => globMatch e.1 (orAll pattern))).filterMap shownPair

/-- A callback that also keeps a record of its calls. -/
def Callback.recording {S : Type} (callback : Callback S) : Callback (S × List (Key × Value)) :=
  fun key value s tx =>
    let r := callback key value s.1 tx
    ((r.1, s.2 ++ [(key, value)]), r.2)

/-- The calls that `for_each` makes to its callback. -/
def visited {S : Type} (globMatch : Glob) (tx : Transaction) (store : Store) (pattern : Bytes)
    (callback : Callback S) (s : S) : List (Key × Value) :=
  (tx.forEach globMatch store pattern callback.recording (s, [])).1.2

/-- The callback always returns true. -/
def Callback.goesOn {S : Type} (callback : Callback S) : Prop :=
  ∀ k v s tx, (callback k v s tx).2.2 = .ok true

variable {globMatch : Glob} {tx tx' : Transaction} {store : Store} {pattern : Bytes}

section Calls

variable {S : Type} {callback : Callback S}

/-- On an open transaction and for some pattern, `for_each` loops over what it has collected. -/
theorem forEach_eq (hopen : tx.state = .opened) (hne : pattern ≠ []) (callback : Callback S) (s : S) :
    tx.forEach globMatch store pattern callback s =
      callEach callback (tx.forEachInternal globMatch store pattern).1 0 s
        (tx.forEachInternal globMatch store pattern).2 := by
  rw [forEach, if_neg (by simpa using hne), if_neg (by simp [hopen])]

/-- Keeping a record changes nothing else. -/
theorem callEach_recording (callback : Callback S) (kvs : List (Key × Value)) (n : ℕ) (s : S)
    (log : List (Key × Value)) (tx : Transaction) :
    (callEach callback.recording kvs n (s, log) tx).1.1 = (callEach callback kvs n s tx).1 ∧
      (callEach callback.recording kvs n (s, log) tx).2 = (callEach callback kvs n s tx).2 := by
  induction kvs generalizing n s log tx with
  | nil => exact ⟨rfl, rfl⟩
  | cons kv rest ih =>
    obtain ⟨k, v⟩ := kv
    simp only [callEach, Callback.recording]
    obtain ⟨s', tx', result⟩ := callback k v s tx
    cases result with
    | error e => exact ⟨rfl, rfl⟩
    | ok goes =>
      cases goes with
      | false => exact ⟨rfl, rfl⟩
      | true => exact ih (n + 1) s' (log ++ [(k, v)]) tx'

/-- A callback that always returns true is called on every pair in turn. -/
theorem callEach_recording_of_goesOn (h : callback.goesOn) (kvs : List (Key × Value)) (n : ℕ) (s : S)
    (log : List (Key × Value)) (tx : Transaction) :
    (callEach callback.recording kvs n (s, log) tx).1.2 = log ++ kvs := by
  induction kvs generalizing n s log tx with
  | nil => simp [callEach]
  | cons kv rest ih =>
    obtain ⟨k, v⟩ := kv
    have hgoes := h k v s tx
    simp only [callEach, Callback.recording]
    generalize callback k v s tx = r at hgoes ⊢
    obtain ⟨s', tx', result⟩ := r
    obtain rfl : result = .ok true := hgoes
    have hrest := ih (n + 1) s' (log ++ [(k, v)]) tx'
    rw [List.append_assoc] at hrest
    exact hrest

/-- Keeping a record of its calls changes nothing else of a `for_each`. -/
theorem forEach_recording (callback : Callback S) (s : S) :
    (tx.forEach globMatch store pattern callback.recording (s, [])).1.1 =
        (tx.forEach globMatch store pattern callback s).1 ∧
      (tx.forEach globMatch store pattern callback.recording (s, [])).2 =
        (tx.forEach globMatch store pattern callback s).2 := by
  unfold forEach
  split
  · exact ⟨rfl, rfl⟩
  · split
    · exact ⟨rfl, rfl⟩
    · exact callEach_recording callback _ _ _ _ _

/-- With a callback that always returns true `for_each` visits all it collects. -/
theorem visited_of_goesOn (globMatch : Glob) (store : Store) (hopen : tx.state = .opened)
    (hne : pattern ≠ []) (h : callback.goesOn) (s : S) :
    tx.visited globMatch store pattern callback s =
      (tx.forEachInternal globMatch store pattern).1 := by
  rw [visited, forEach_eq hopen hne, callEach_recording_of_goesOn h]
  rfl

/-- Such a callback is counted on every pair. -/
theorem callEach_of_goesOn (h : callback.goesOn) (kvs : List (Key × Value)) (n : ℕ) (s : S)
    (tx : Transaction) : (callEach callback kvs n s tx).2.2 = .ok (n + kvs.length) := by
  induction kvs generalizing n s tx with
  | nil => rfl
  | cons kv rest ih =>
    obtain ⟨k, v⟩ := kv
    have hgoes := h k v s tx
    rw [callEach]
    generalize callback k v s tx = r at hgoes ⊢
    obtain ⟨s', tx', result⟩ := r
    obtain rfl : result = .ok true := hgoes
    dsimp only
    rw [ih, List.length_cons]
    congr 1
    omega

end Calls

/-- The scan and the full scan yield the shown values of their keys. -/
theorem mem_fullScan {k : Key} {v : Value} : (k, v) ∈ tx.fullScan globMatch store pattern ↔
    globMatch k (orAll pattern) = true ∧ tx.visible store k = some v := by
  -- a full scan is the walk of a pattern without a literal prefix
  have hwalk : (k, v) ∈ (tx.walk (fun k _ => globMatch k (orAll pattern)) store [42]).filterMap
      shownPair ↔ _ := mem_shown_walk
  have hscans : ∀ k', scans (fun k _ => globMatch k (orAll pattern)) [42] k' =
      globMatch k' (orAll pattern) := by
    intro k'
    simp [scans, startsWith, literalPrefix]
  simp only [walk, hscans] at hwalk
  exact hwalk

/-- The full scan is sorted by key. -/
theorem sortedKeys_fullScan : SortedKeys (tx.fullScan globMatch store pattern) :=
  sortedKeys_filterMap shownPair_key
    (sortedKeys_mergeByKey ((sortedKeys_toList _).filter _) ((sortedKeys_toList _).filter _))

/-- An empty pattern is scanned as all the keys. -/
theorem forEachInternal_orAll : tx.forEachInternal globMatch store pattern =
    tx.forEachInternal globMatch store (orAll pattern) := by
  cases pattern <;> rfl

/-- The pattern that is scanned for is not empty. -/
theorem orAll_ne_nil : orAll pattern ≠ [] := by
  cases pattern <;> simp [orAll]

/-- What `for_each_internal` does, for every pattern. -/
theorem collected_orAll : Collected globMatch tx store (orAll pattern)
    (tx.forEachInternal globMatch store pattern).1
    (tx.forEachInternal globMatch store pattern).2 := by
  rw [forEachInternal_orAll]
  exact forEachInternal_collected orAll_ne_nil

/-- Two lists in key order with the same pairs are equal. -/
theorem eq_of_sortedKeys {V : Type} {l l' : List (Key × V)} (h : SortedKeys l) (h' : SortedKeys l')
    (hmem : ∀ e, e ∈ l ↔ e ∈ l') : l = l' := by
  have hnodup : ∀ {l : List (Key × V)}, SortedKeys l → l.Nodup := fun hsorted =>
    hsorted.imp fun hlt heq => by simp [heq] at hlt
  have hperm : l.Perm l' := (List.perm_ext_iff_of_nodup (hnodup h) (hnodup h')).mpr hmem
  refine hperm.eq_of_pairwise (fun a b _ _ hab hba => ?_) h h'
  have hnot : compare b.1 a.1 ≠ .lt := Std.OrientedCmp.not_lt_of_lt hab
  exact absurd hba hnot

/-- The scan yields what the full scan yields exactly when every visible key that the pattern
matches starts with its literal prefix. -/
theorem yields_iff : (tx.forEachInternal globMatch store pattern).1 =
      tx.fullScan globMatch store pattern ↔
    ∀ k, globMatch k (orAll pattern) = true → (tx.visible store k).isSome = true →
      startsWith k (literalPrefix (orAll pattern)) = true := by
  have hcollected : Collected globMatch tx store (orAll pattern) _ _ := collected_orAll
  constructor
  · intro heq k hmatch hvisible
    obtain ⟨v, hv⟩ := Option.isSome_iff_exists.mp hvisible
    have hmem := mem_fullScan.mpr ⟨hmatch, hv⟩
    rw [← heq, hcollected.mem_ret] at hmem
    exact (Bool.and_eq_true _ _ ▸ hmem.1).1
  · intro hstarts
    refine eq_of_sortedKeys hcollected.sorted sortedKeys_fullScan fun ⟨k, v⟩ => ?_
    rw [hcollected.mem_ret, mem_fullScan, scans, Bool.and_eq_true]
    constructor
    · rintro ⟨⟨-, hmatch⟩, hv⟩
      exact ⟨hmatch, hv⟩
    · rintro ⟨hmatch, hv⟩
      exact ⟨⟨hstarts k hmatch (by simp [hv]), hmatch⟩, hv⟩

/-- A removed key is no longer visible, and the other items are kept. -/
theorem remove_visible {k : Key} {b : Bool} (h : tx.remove globMatch store k = .ok (b, tx')) :
    tx'.visible store k = none ∧ ∀ k', k ≠ k' → tx'.items[k']? = tx.items[k']? := by
  have hstep := remove_ok h
  cases b with
  | true =>
    have hitems := hstep.removed rfl
    refine ⟨?_, fun k' hk => by rw [hitems, if_neg hk]⟩
    simp [visible, hitems, Entry.shown]
  | false =>
    obtain rfl := hstep.unchanged rfl
    refine ⟨?_, fun _ _ => rfl⟩
    unfold remove at h
    split_ifs at h
    unfold visible
    cases hitem : tx'.items[k]? with
    | some e =>
      rw [hitem] at h
      dsimp only at h
      split_ifs at h with habsent hdelete
      · obtain ⟨-, hnone⟩ := by simpa using habsent
        simp [Entry.shown, hnone]
      · simp [Entry.shown, hdelete]
      · simp at h
    | none =>
      rw [hitem] at h
      dsimp only at h
      cases hstored : store.data[k]? with
      | none => rfl
      | some v => simp [hstored] at h

/-- When every removal succeeds, no visited key is visible afterwards, and no other key is
brought back. -/
theorem visible_removing {kvs : List (Key × Value)} {n m : ℕ}
    (h : (callEach (removing globMatch store) kvs n () tx).2 = (tx', .ok m)) (k : Key)
    (hk : k ∈ kvs.map Prod.fst ∨ tx.visible store k = none) : tx'.visible store k = none := by
  induction kvs generalizing n tx with
  | nil =>
    obtain ⟨rfl, -⟩ := Prod.mk.inj h
    simpa using hk
  | cons kv rest ih =>
    obtain ⟨key, value⟩ := kv
    unfold callEach removing at h
    cases hremove : tx.remove globMatch store key with
    | error e => simp [hremove] at h
    | ok r =>
      obtain ⟨b, mid⟩ := r
      rw [hremove] at h
      obtain ⟨hgone, hothers⟩ := remove_visible hremove
      refine ih h ?_
      by_cases hkey : key = k
      · exact Or.inr (hkey ▸ hgone)
      · rcases hk with hmem | hnone
        · exact Or.inl (by simpa [Ne.symm hkey] using hmem)
        · right
          rw [visible, hothers k hkey]
          exact hnone

/-- Collecting the pairs does not change what is visible. -/
theorem visible_collected : ∀ k, (tx.forEachInternal globMatch store pattern).2.visible store k =
    tx.visible store k := by
  intro k
  have hcollected : Collected globMatch tx store (orAll pattern) _ _ := collected_orAll
  unfold visible
  rw [hcollected.items]
  by_cases hscan : scans globMatch (orAll pattern) k = true
  · rw [if_pos hscan]
    cases hitem : tx.items[k]? with
    | some e =>
      by_cases hsnap : e.action = .snapshot <;> simp [Entry.observed, Entry.shown, hsnap]
    | none =>
      by_cases hiso : tx.isolation = .readCommitted
      · simp [hiso]
      · cases hstored : store.data[k]? <;> simp [hiso, pin, Entry.shown]
  · rw [if_neg hscan]

/-- What the scan from the literal prefix promises: it yields what a full scan yields, so that
`for_each` visits, and `remove` deletes, every visible key that `ensure` guards with the same
pattern. -/
structure ScanComplete (globMatch : Glob) (tx : Transaction) (store : Store) (pattern : Bytes) :
    Prop where
  yields : (tx.forEachInternal globMatch store pattern).1 = tx.fullScan globMatch store pattern
  visits : tx.state = .opened → pattern ≠ [] →
    ∀ (S : Type) (callback : Callback S) (s : S), callback.goesOn →
      ∀ k v, globMatch k pattern = true → tx.visible store k = some v →
        (k, v) ∈ tx.visited globMatch store pattern callback s
  removes : pattern ≠ [] → ∀ tx' n, tx.removePattern globMatch store pattern = (tx', .ok n) →
    ∀ k, globMatch k pattern = true → tx'.visible store k = none

/-- It is the one given, unless that is empty. -/
theorem orAll_of_ne_nil (h : pattern ≠ []) : orAll pattern = pattern := by
  cases pattern with
  | nil => exact absurd rfl h
  | cons b rest => rfl

/-- A scan is complete if every visible key that matches has the literal prefix. -/
theorem scanComplete_iff : ScanComplete globMatch tx store pattern ↔
    ∀ k, globMatch k (orAll pattern) = true → (tx.visible store k).isSome = true →
      startsWith k (literalPrefix (orAll pattern)) = true := by
  refine ⟨fun h => yields_iff.mp h.yields, fun h => ?_⟩
  have hyields := yields_iff.mpr h
  have hmem : ∀ k v, pattern ≠ [] → globMatch k pattern = true → tx.visible store k = some v →
      (k, v) ∈ (tx.forEachInternal globMatch store pattern).1 := by
    intro k v hne hmatch hv
    rw [hyields, mem_fullScan, orAll_of_ne_nil hne]
    exact ⟨hmatch, hv⟩
  refine ⟨hyields, fun hopen hne S callback s hgoes k v hmatch hv => ?_,
    fun hne tx' n hremove k hmatch => ?_⟩
  · rw [visited_of_goesOn _ _ hopen hne hgoes]
    exact hmem k v hne hmatch hv
  · unfold removePattern at hremove
    split_ifs at hremove with hreadOnly hclosed
    · simp at hremove
    · simp at hremove
    · rw [forEach_eq (not_not.mp hclosed) hne] at hremove
      refine visible_removing hremove k ?_
      cases hvisible : tx.visible store k with
      | none => exact Or.inr ((visible_collected k).trans hvisible)
      | some v => exact Or.inl (List.mem_map_of_mem (hmem k v hne hmatch hvisible))

/-- A key that the matcher accepts starts with the literal prefix, when no byte of it is special
to the matcher. -/
theorem startsWith_of_globMatch {k : Key} (hliteral : ∀ b ∈ literalPrefix pattern, b ≠ 0 ∧ b ≠ 91 ∧ b ≠ 92)
    (h : Match.globMatch k pattern = true) : startsWith k (literalPrefix pattern) = true := by
  have hsplit : literalPrefix pattern ++ pattern.dropWhile (fun b => b ≠ 42 && b ≠ 63) = pattern :=
    List.takeWhile_append_dropWhile
  have hpre : ∀ b ∈ literalPrefix pattern, b ≠ 0 ∧ Match.isLiteral b = true := by
    intro b hb
    obtain ⟨hnul, hclass, hescape⟩ := hliteral b hb
    have hplain := List.mem_takeWhile_imp (p := fun b : UInt8 => b ≠ 42 && b ≠ 63) hb
    refine ⟨hnul, ?_⟩
    simpa [Match.isLiteral, hclass, hescape] using hplain
  rw [← hsplit] at h
  exact List.isPrefixOf_iff_prefix.mpr (Match.isPrefix_of_globMatch hpre h)

/-- The scan loses nothing exactly when every visible key that the pattern matches starts with
the part of it before the first `*` or `?`; that is so in every state when this part has no `[`
and no backslash. -/
theorem scan_loses_nothing_iff (tx : Transaction) (store : Store) (pattern : Bytes) :
    (ScanComplete Match.globMatch tx store pattern ↔
      ∀ k, Match.globMatch k (orAll pattern) = true → (tx.visible store k).isSome = true →
        startsWith k (literalPrefix (orAll pattern)) = true) ∧
    ((∀ b ∈ literalPrefix pattern, b ≠ 0 ∧ b ≠ 91 ∧ b ≠ 92) →
      ScanComplete Match.globMatch tx store pattern) := by
  refine ⟨scanComplete_iff, fun hliteral => scanComplete_iff.mpr fun k hmatch _ => ?_⟩
  refine startsWith_of_globMatch ?_ hmatch
  cases pattern with
  | nil => simp [orAll, literalPrefix]
  | cons b rest => exact hliteral

/-- The store after a commit that writes the key `ab`. -/
def storeOfAb : Store := (Store.empty.update (Update.writing 1 [[97, 98]] [49])).1

/-- The pattern `a[b]` matches the stored key `ab`, which `for_each` and `remove` then miss. -/
theorem class_pattern_misses_key : ¬ScanComplete Match.globMatch
    (create storeOfAb .serializable false none) storeOfAb [97, 91, 98, 93] := by
  intro h
  have hmatch : Match.globMatch [97, 98] [97, 91, 98, 93] = true :=
    Match.globMatch_of_turns 3 (by decide)
  have hstarts := scanComplete_iff.mp h [97, 98] hmatch (by decide +kernel)
  simp [startsWith, literalPrefix, orAll] at hstarts

end Transaction

end Nplex
