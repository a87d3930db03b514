import Nplex.Transaction.Visits

/-!
# Removing the keys of a pattern

`remove` of a pattern deletes the visited keys one after the other, in key order, and each of them
is checked against the permissions of the user when its turn comes. A refused key ends the loop
with an exception and leaves the keys before it deleted.
-/

namespace Nplex

open Nplex.Common

namespace Transaction

variable {globMatch : Glob} {tx tx' : Transaction} {store : Store} {pattern : Bytes} {k : Key}

/-- The item of a key that the transaction has written. -/
def written (tx : Transaction) (k : Key) : Option Entry :=
  (tx.items[k]?).filter fun e => e.action = .upsert || e.action = .delete

/-- The transaction with a key deleted. -/
def mark (tx : Transaction) (k : Key) : Transaction :=
  { tx with items := tx.items.insert k ⟨.delete, none⟩ }

/-- The transaction with some keys deleted. -/
def markAll (tx : Transaction) (keys : List Key) : Transaction := keys.foldl mark tx

/-- The user may delete the key. -/
def mayDelete (globMatch : Glob) (tx : Transaction) (k : Key) : Bool :=
  authorized globMatch tx.user CRUD_DELETE k

/-- Deleting a visible key asks for the permission and marks the key. -/
theorem remove_of_visible (hopen : tx.state = .opened) (hwrite : tx.readOnly = false)
    (hvalid : isValidKey k = true) (hvisible : (tx.visible store k).isSome = true) :
    tx.remove globMatch store k =
      if tx.mayDelete globMatch k then .ok (true, tx.mark k) else .error (.deleteNotAuthorized k) := by
  unfold remove mayDelete
  rw [if_neg (by simp [hvalid]), if_neg (by simp [hwrite]), if_neg (by simp [hopen])]
  by_cases hmay : authorized globMatch tx.user CRUD_DELETE k = true
  · rw [if_neg (by simp [hmay]), if_pos hmay]
    unfold visible Entry.shown at hvisible
    cases hitem : tx.items[k]? with
    | some e =>
      rw [hitem] at hvisible
      dsimp only at hvisible ⊢
      split_ifs at hvisible with hdelete
      · simp at hvisible
      · have hsome : e.value.isNone = false := by
          rw [Option.isNone_eq_false_iff]
          exact hvisible
        rw [if_neg (by simp [hsome]), if_neg hdelete]
        rfl
    | none =>
      rw [hitem] at hvisible
      obtain ⟨v, hv⟩ := Option.isSome_iff_exists.mp hvisible
      have hinsert : tx.items.insertIfNew k ⟨.delete, none⟩ = tx.items.insert k ⟨.delete, none⟩ := by
        apply Std.ExtTreeMap.ext_getElem?
        intro k'
        rw [lookup_insertIfNew, lookup_insert]
        by_cases hk : k = k'
        · subst hk
          simp [hitem]
        · simp [hk]
      dsimp only at hv ⊢
      rw [hv, hinsert]
      rfl
  · rw [if_pos (by simpa using hmay), if_neg hmay]

/-- The items after some keys were deleted. -/
theorem markAll_items (keys : List Key) (tx : Transaction) (k : Key) :
    (tx.markAll keys).items[k]? = if k ∈ keys then some ⟨.delete, none⟩ else tx.items[k]? := by
  induction keys generalizing tx with
  | nil => simp [markAll]
  | cons key rest ih =>
    have hcons : tx.markAll (key :: rest) = (tx.mark key).markAll rest := rfl
    rw [hcons, ih, mark]
    dsimp only
    rw [lookup_insert]
    by_cases hk : key = k
    · simp [hk]
    · simp [hk, Ne.symm hk]

/-- The loop of `remove` over visible keys deletes those before the first refused one, and throws
when there is one. -/
theorem callEach_removing {kvs : List (Key × Value)} (hsorted : SortedKeys kvs)
    (hopen : tx.state = .opened) (hwrite : tx.readOnly = false)
    (hvisible : ∀ kv ∈ kvs, isValidKey kv.1 = true ∧ (tx.visible store kv.1).isSome = true) (n : ℕ) :
    (callEach (removing globMatch store) kvs n () tx).2 =
      (tx.markAll ((kvs.takeWhile fun kv => tx.mayDelete globMatch kv.1).map Prod.fst),
        match kvs.find? fun kv => !tx.mayDelete globMatch kv.1 with
        | none => .ok (n + kvs.length)
        | some kv => .error (.deleteNotAuthorized kv.1)) := by
  induction kvs generalizing tx n with
  | nil => simp [callEach, markAll]
  | cons kv rest ih =>
    obtain ⟨key, value⟩ := kv
    obtain ⟨hhead, htail⟩ := List.pairwise_cons.mp hsorted
    obtain ⟨hvalid, hshown⟩ := hvisible (key, value) List.mem_cons_self
    have hremove : tx.remove globMatch store key =
        if tx.mayDelete globMatch key then .ok (true, tx.mark key)
        else .error (.deleteNotAuthorized key) := remove_of_visible hopen hwrite hvalid hshown
    unfold callEach removing
    rw [hremove]
    by_cases hmay : tx.mayDelete globMatch key = true
    · -- the later keys are as visible as before
      have hrest : ∀ kv ∈ rest, isValidKey kv.1 = true ∧
          ((tx.mark key).visible store kv.1).isSome = true := by
        intro kv hkv
        obtain ⟨hvalid', hshown'⟩ := hvisible kv (List.mem_cons_of_mem _ hkv)
        refine ⟨hvalid', ?_⟩
        have hne : key ≠ kv.1 := fun heq => by simpa [heq] using hhead kv hkv
        unfold visible mark at *
        dsimp only
        rw [lookup_insert, if_neg hne]
        exact hshown'
      have hmarked : (tx.mark key).state = .opened ∧ (tx.mark key).readOnly = false := ⟨hopen, hwrite⟩
      have hcalls := ih htail hmarked.1 hmarked.2 hrest (n + 1)
      rw [if_pos hmay]
      dsimp only
      change (callEach (removing globMatch store) rest (n + 1) () (tx.mark key)).2 = _
      rw [hcalls]
      have hsame : ∀ k, (tx.mark key).mayDelete globMatch k = tx.mayDelete globMatch k := fun _ => rfl
      simp only [hsame, List.takeWhile_cons, List.find?_cons, hmay, if_true, Bool.not_true,
        List.map_cons, List.length_cons]
      have hcount : n + 1 + rest.length = n + (rest.length + 1) := by omega
      rw [hcount]
      rfl
    · rw [if_neg hmay]
      simp [hmay, markAll]

/-- Deleting marks a key as written. -/
theorem markAll_written (keys : List Key) (tx : Transaction) (k : Key) :
    (tx.markAll keys).written k = if k ∈ keys then some ⟨.delete, none⟩ else tx.written k := by
  unfold written
  rw [markAll_items]
  split_ifs <;> rfl

/-- A visible key is not deleted. -/
theorem written_of_visible (h : (tx.visible store k).isSome = true) :
    tx.written k ≠ some ⟨.delete, none⟩ := by
  intro hdeleted
  unfold written at hdeleted
  obtain ⟨hitem, -⟩ := Option.filter_eq_some_iff.mp hdeleted
  unfold visible at h
  rw [hitem] at h
  simp [Entry.shown] at h

/-- Collecting the keys writes nothing. -/
theorem collected_written {ret : List (Key × Value)}
    (h : Collected globMatch tx store pattern ret tx') (k : Key) : tx'.written k = tx.written k := by
  unfold written
  rw [h.items]
  by_cases hscan : scans globMatch pattern k = true
  · rw [if_pos hscan]
    cases hitem : tx.items[k]? with
    | some e =>
      by_cases hsnap : e.action = .snapshot
      · simp [Entry.observed, hsnap, Option.filter]
      · simp [Entry.observed, hsnap]
    | none =>
      by_cases hiso : tx.isolation = .readCommitted
      · simp [hiso]
      · cases hstored : store.data[k]? <;> simp [hiso, pin]
  · rw [if_neg hscan]

/-- What removing the keys of a pattern promises: an exception leaves the writes of the transaction
alone, and a number is that of the visible matching keys, which are then deleted and the others
left. -/
def RemovesAll (globMatch : Glob) (tx : Transaction) (store : Store) (pattern : Bytes) : Prop :=
  match tx.removePattern globMatch store pattern with
  | (tx', .error _) => ∀ k, tx'.written k = tx.written k
  | (tx', .ok n) => ∃ keys : List Key, keys.Nodup ∧ keys.length = n ∧
      (∀ k, k ∈ keys ↔ globMatch k pattern = true ∧ (tx.visible store k).isSome = true) ∧
      ∀ k, tx'.written k = if k ∈ keys then some ⟨.delete, none⟩ else tx.written k

/-- A key that the loop comes to: a visible one that the scan finds. -/
def targets (globMatch : Glob) (tx : Transaction) (store : Store) (pattern : Bytes) (k : Key) : Prop :=
  scans globMatch pattern k = true ∧ (tx.visible store k).isSome = true

/-- When the promise is kept: the call is refused at once; or the user may delete every key found,
and the scan from the literal prefix finds every visible matching key; or the least key found is
refused. -/
def removesSafely (globMatch : Glob) (tx : Transaction) (store : Store) (pattern : Bytes) : Prop :=
  tx.readOnly = true ∨ tx.state ≠ .opened ∨
    ((∀ k, tx.targets globMatch store pattern k → tx.mayDelete globMatch k = true) ∧
      ∀ k, globMatch k pattern = true → (tx.visible store k).isSome = true →
        startsWith k (literalPrefix pattern) = true) ∨
    ∃ k, tx.targets globMatch store pattern k ∧ tx.mayDelete globMatch k = false ∧
      ∀ k', tx.targets globMatch store pattern k' → k' ≠ k → compare k k' = .lt

/-- The keys the loop comes to, on an open transaction: they are collected in order, and deleted up
to the first refused one. -/
theorem removePattern_open (globMatch : Glob) (hopen : tx.state = .opened) (hwrite : tx.readOnly = false)
    (hitems : tx.ValidItems) (hstore : store.ValidKeys) (hne : pattern ≠ []) :
    ∃ (kvs : List (Key × Value)) (tx₁ : Transaction), SortedKeys kvs ∧
      (∀ k, k ∈ kvs.map Prod.fst ↔ tx.targets globMatch store pattern k) ∧
      (∀ k, tx₁.written k = tx.written k) ∧
      tx.removePattern globMatch store pattern =
        (tx₁.markAll ((kvs.takeWhile fun kv => tx.mayDelete globMatch kv.1).map Prod.fst),
          match kvs.find? fun kv => !tx.mayDelete globMatch kv.1 with
          | none => .ok kvs.length
          | some kv => .error (.deleteNotAuthorized kv.1)) := by
  have hcollected : Collected globMatch tx store pattern
      (tx.forEachInternal globMatch store pattern).1
      (tx.forEachInternal globMatch store pattern).2 := forEachInternal_collected hne
  have hshown : ∀ k, (tx.forEachInternal globMatch store pattern).2.visible store k =
      tx.visible store k := visible_collected
  have hloop : tx.removePattern globMatch store pattern =
      (callEach (removing globMatch store) (tx.forEachInternal globMatch store pattern).1 0 ()
        (tx.forEachInternal globMatch store pattern).2).2 := by
    unfold removePattern
    rw [if_neg (by simp [hwrite]), if_neg (by simp [hopen]), forEach_eq hopen hne]
  rw [hloop]
  generalize tx.forEachInternal globMatch store pattern = r at hcollected hshown
  obtain ⟨kvs, tx₁⟩ := r
  have hframe := hcollected.frame
  dsimp only at hframe
  have hmem : ∀ k, k ∈ kvs.map Prod.fst ↔ tx.targets globMatch store pattern k := by
    intro k
    rw [List.mem_map]
    constructor
    · rintro ⟨⟨k', v⟩, hkv, rfl⟩
      obtain ⟨hscan, hv⟩ := (hcollected.mem_ret k' v).mp hkv
      exact ⟨hscan, by simp [hv]⟩
    · rintro ⟨hscan, hv⟩
      obtain ⟨v, hv⟩ := Option.isSome_iff_exists.mp hv
      exact ⟨(k, v), (hcollected.mem_ret k v).mpr ⟨hscan, hv⟩, rfl⟩
  refine ⟨kvs, tx₁, hcollected.sorted, hmem, collected_written hcollected, ?_⟩
  have hsame : ∀ k, tx₁.mayDelete globMatch k = tx.mayDelete globMatch k := by
    intro k
    rw [hframe]
    rfl
  have hvisible : ∀ kv ∈ kvs, isValidKey kv.1 = true ∧ (tx₁.visible store kv.1).isSome = true := by
    intro kv hkv
    have hv := ((hcollected.mem_ret kv.1 kv.2).mp hkv).2
    refine ⟨hitems.visible hstore hv, ?_⟩
    rw [hshown, hv]
    rfl
  have hopen₁ : tx₁.state = .opened := by
    rw [hframe]
    exact hopen
  have hwrite₁ : tx₁.readOnly = false := by
    rw [hframe]
    exact hwrite
  have hcalls : (callEach (removing globMatch store) kvs 0 () tx₁).2 = _ :=
    callEach_removing hcollected.sorted hopen₁ hwrite₁ hvisible 0
  simpa only [hsame, Nat.zero_add] using hcalls

/-- The first of the keys found, when it is refused, is below the others. -/
theorem head_refused_iff {kvs : List (Key × Value)} (hsorted : SortedKeys kvs)
    (hmem : ∀ k, k ∈ kvs.map Prod.fst ↔ tx.targets globMatch store pattern k) :
    (∃ kv rest, kvs = kv :: rest ∧ tx.mayDelete globMatch kv.1 = false) ↔
      ∃ k, tx.targets globMatch store pattern k ∧ tx.mayDelete globMatch k = false ∧
        ∀ k', tx.targets globMatch store pattern k' → k' ≠ k → compare k k' = .lt := by
  constructor
  · rintro ⟨kv, rest, rfl, hrefused⟩
    refine ⟨kv.1, (hmem kv.1).mp (by simp), hrefused, fun k' hk' hne => ?_⟩
    rcases List.mem_cons.mp ((hmem k').mpr hk') with heq | hrest
    · exact absurd heq hne
    · obtain ⟨kv', hkv', rfl⟩ := List.mem_map.mp hrest
      exact (List.pairwise_cons.mp hsorted).1 kv' hkv'
  · rintro ⟨k, htarget, hrefused, hleast⟩
    cases kvs with
    | nil => exact absurd ((hmem k).mpr htarget) (by simp)
    | cons kv rest =>
      refine ⟨kv, rest, rfl, ?_⟩
      by_cases hk : kv.1 = k
      · rw [hk]
        exact hrefused
      · -- the head would be both above and below `k`
        have habove := hleast kv.1 ((hmem kv.1).mp (by simp)) hk
        rcases List.mem_cons.mp ((hmem k).mpr htarget) with heq | hrest
        · exact absurd heq.symm hk
        · obtain ⟨kv', hkv', rfl⟩ := List.mem_map.mp hrest
          have hbelow := (List.pairwise_cons.mp hsorted).1 kv' hkv'
          have hgt := Std.OrientedCmp.gt_iff_lt.mpr hbelow
          rw [habove] at hgt
          cases hgt

/-- The promise on an open transaction. -/
theorem removesAll_open_iff (hopen : tx.state = .opened) (hwrite : tx.readOnly = false)
    (hitems : tx.ValidItems) (hstore : store.ValidKeys) (hne : pattern ≠ []) :
    RemovesAll globMatch tx store pattern ↔ removesSafely globMatch tx store pattern := by
  obtain ⟨kvs, tx₁, hsorted, hmem, hwritten, hremove⟩ :=
    removePattern_open globMatch hopen hwrite hitems hstore hne
  have hnodup : (kvs.map Prod.fst).Nodup := by
    rw [List.Nodup, List.pairwise_map]
    exact hsorted.imp fun hlt heq => by simp [heq] at hlt
  have hhead := head_refused_iff hsorted hmem
  unfold RemovesAll removesSafely
  rw [hremove, ← hhead]
  cases hfind : kvs.find? (fun kv => !tx.mayDelete globMatch kv.1) with
  | none =>
    -- every key found is deleted
    have hall : ∀ kv ∈ kvs, tx.mayDelete globMatch kv.1 = true := by
      intro kv hkv
      simpa using List.find?_eq_none.mp hfind kv hkv
    have hkeys : kvs.takeWhile (fun kv => tx.mayDelete globMatch kv.1) = kvs :=
      List.takeWhile_eq_self_iff.mpr hall
    have hmay : ∀ k, tx.targets globMatch store pattern k → tx.mayDelete globMatch k = true := by
      intro k htarget
      obtain ⟨kv, hkv, rfl⟩ := List.mem_map.mp ((hmem k).mpr htarget)
      exact hall kv hkv
    dsimp only
    rw [hkeys]
    constructor
    · rintro ⟨keys, -, -, hkeysmem, hdeleted⟩
      refine Or.inr (Or.inr (Or.inl ⟨hmay, fun k hmatch hshown => ?_⟩))
      have hk := hdeleted k
      rw [if_pos ((hkeysmem k).mpr ⟨hmatch, hshown⟩), markAll_written, hwritten] at hk
      split_ifs at hk with hfound
      · have hscan := ((hmem k).mp hfound).1
        unfold scans at hscan
        exact (Bool.and_eq_true _ _ ▸ hscan).1
      · exact absurd hk (written_of_visible hshown)
    · rintro (hreadOnly | hclosed | ⟨-, hfinds⟩ | ⟨kv, rest, rfl, hrefused⟩)
      · rw [hwrite] at hreadOnly
        cases hreadOnly
      · exact absurd hopen hclosed
      · refine ⟨kvs.map Prod.fst, hnodup, List.length_map _, fun k => ?_, fun k => ?_⟩
        · rw [hmem]
          unfold targets scans
          rw [Bool.and_eq_true]
          constructor
          · rintro ⟨⟨-, hmatch⟩, hshown⟩
            exact ⟨hmatch, hshown⟩
          · rintro ⟨hmatch, hshown⟩
            exact ⟨⟨hfinds k hmatch hshown, hmatch⟩, hshown⟩
        · rw [markAll_written, hwritten]
      · rw [hall kv List.mem_cons_self] at hrefused
        cases hrefused
  | some kv =>
    have hrefused : tx.mayDelete globMatch kv.1 = false := by
      simpa using List.find?_some hfind
    have hfound : kv ∈ kvs := List.mem_of_find?_eq_some hfind
    dsimp only
    constructor
    · intro hsame
      refine Or.inr (Or.inr (Or.inr ?_))
      cases kvs with
      | nil => cases hfound
      | cons first rest =>
        refine ⟨first, rest, rfl, ?_⟩
        by_contra hmay
        rw [Bool.not_eq_false] at hmay
        -- the first key would be deleted, and it was visible
        have hmarked := hsame first.1
        rw [markAll_written, hwritten, if_pos (by simp [hmay])] at hmarked
        exact written_of_visible ((hmem first.1).mp (by simp)).2 hmarked.symm
    · rintro (hreadOnly | hclosed | ⟨hmay, -⟩ | ⟨first, rest, rfl, hfirst⟩)
      · rw [hwrite] at hreadOnly
        cases hreadOnly
      · exact absurd hopen hclosed
      · rw [hmay kv.1 ((hmem kv.1).mp (List.mem_map_of_mem hfound))] at hrefused
        cases hrefused
      · intro k
        rw [markAll_written, hwritten, if_neg (by simp [hfirst])]

/-- The empty pattern matches no valid key. -/
theorem removesAll_empty (hopen : tx.state = .opened) (hwrite : tx.readOnly = false)
    (hitems : tx.ValidItems) (hstore : store.ValidKeys) :
    RemovesAll Match.globMatch tx store [] ∧ removesSafely Match.globMatch tx store [] := by
  have hnone : ∀ k, Match.globMatch k [] = true → (tx.visible store k).isSome = true → False := by
    intro k hmatch hshown
    obtain ⟨v, hv⟩ := Option.isSome_iff_exists.mp hshown
    have hvalid := hitems.visible hstore hv
    have hk := Match.eq_nil_of_globMatch_nil hmatch
    rw [cStr_of_isValidKey hvalid] at hk
    exact isValidKey_ne_nil hvalid hk
  have hremove : tx.removePattern Match.globMatch store [] = (tx, .ok 0) := by
    simp [removePattern, forEach, hopen, hwrite]
  constructor
  · unfold RemovesAll
    rw [hremove]
    refine ⟨[], List.nodup_nil, rfl, fun k => ?_, fun k => by simp⟩
    constructor
    · exact fun h => absurd h List.not_mem_nil
    · exact fun h => (hnone k h.1 h.2).elim
  · refine Or.inr (Or.inr (Or.inl ⟨fun k htarget => ?_, fun k hmatch hshown => ?_⟩))
    · unfold targets scans at htarget
      rw [Bool.and_eq_true] at htarget
      exact (hnone k htarget.1.2 htarget.2).elim
    · exact (hnone k hmatch hshown).elim

/-- A call that is refused at once keeps the promise. -/
theorem removesAll_refused (h : tx.readOnly = true ∨ tx.state ≠ .opened) :
    RemovesAll globMatch tx store pattern := by
  have hremove : ∃ e, tx.removePattern globMatch store pattern = (tx, .error e) := by
    unfold removePattern
    by_cases hreadOnly : tx.readOnly = true
    · exact ⟨.readOnly, if_pos hreadOnly⟩
    · rw [if_neg hreadOnly, if_pos (h.resolve_left hreadOnly)]
      exact ⟨.notOpen, rfl⟩
  obtain ⟨e, he⟩ := hremove
  unfold RemovesAll
  rw [he]
  exact fun _ => rfl

/-- In every state of a transaction, removing the keys of a pattern is all or nothing exactly when
the keys found are all the matching ones and may be deleted, or the least of them may not. -/
theorem removePattern_all_or_nothing_iff (isolation : Isolation) (readOnly : Bool)
    (user : Option User) (events : List LiveEvent) (pattern : Bytes) :
    let s := events.foldl (LiveTx.step Match.globMatch) (LiveTx.start isolation readOnly user)
    RemovesAll Match.globMatch s.tx s.store pattern ↔
      removesSafely Match.globMatch s.tx s.store pattern := by
  intro s
  have hvalid : s.Valid := (LiveTx.valid_start isolation readOnly user).run events
  by_cases hreadOnly : s.tx.readOnly = true
  · exact iff_of_true (removesAll_refused (Or.inl hreadOnly)) (Or.inl hreadOnly)
  rw [Bool.not_eq_true] at hreadOnly
  by_cases hopen : s.tx.state = .opened
  · by_cases hne : pattern = []
    · subst hne
      obtain ⟨hremoves, hsafely⟩ := removesAll_empty hopen hreadOnly hvalid.items hvalid.store
      exact iff_of_true hremoves hsafely
    · exact removesAll_open_iff hopen hreadOnly hvalid.items hvalid.store hne
  · exact iff_of_true (removesAll_refused (Or.inr hopen)) (Or.inr (Or.inl hopen))

/-- A user who may delete the key `a` only. -/
def userOfA : User := ⟨[117], [⟨15, [97]⟩], false, false⟩

/-- A transaction of that user on the keys `a` and `b`. -/
def eventsOfA : List LiveEvent :=
  [.commit (Update.writing 1 [[97], [98]] [49]), .create .serializable false (some userOfA)]

/-- Removing all the keys deletes `a` and then fails at `b`. -/
theorem removePattern_half_done :
    ¬∀ (isolation : Isolation) (readOnly : Bool) (user : Option User) (events : List LiveEvent)
      (pattern : Bytes),
      let s := events.foldl (LiveTx.step Match.globMatch) (LiveTx.start isolation readOnly user)
      RemovesAll Match.globMatch s.tx s.store pattern := by
  intro h
  have hremoves := h .serializable false none eventsOfA [42, 42]
  generalize hs : eventsOfA.foldl (LiveTx.step Match.globMatch)
    (LiveTx.start .serializable false none) = s at hremoves
  have hvalid : s.Valid := hs ▸ (LiveTx.valid_start .serializable false none).run eventsOfA
  have hopen : s.tx.state = .opened := by rw [← hs]; rfl
  have hwrite : s.tx.readOnly = false := by rw [← hs]; rfl
  have huser : s.tx.user = some userOfA := by rw [← hs]; rfl
  have hitems : s.tx.items.toList = [] := by rw [← hs]; decide +kernel
  have hdata : s.store.data.keys = [[97], [98]] := by rw [← hs]; decide +kernel
  have ha : s.tx.mayDelete Match.globMatch [97] = true := by
    have hmatch : Match.globMatch [97] [97] = true := Match.globMatch_of_turns 3 (by decide)
    simp [mayDelete, authorized, huser, User.isAuthorized, userOfA, cStr, hmatch, CRUD_DELETE]
    decide
  have hb : s.tx.mayDelete Match.globMatch [98] = false := by
    have hmatch : Match.globMatch [98] [97] = false := Match.globMatch_of_turns 3 (by decide)
    simp [mayDelete, authorized, huser, User.isAuthorized, userOfA, cStr, hmatch, CRUD_DELETE]
  have htargets : ∀ k, s.tx.targets Match.globMatch s.store [42, 42] k ↔ k = [97] ∨ k = [98] := by
    intro k
    have hitem : s.tx.items[k]? = none := by
      cases hlookup : s.tx.items[k]? with
      | none => rfl
      | some e =>
        have hmem := mem_toList.mpr hlookup
        rw [hitems] at hmem
        cases hmem
    have hkey : (s.store.data[k]?).isSome = true ↔ k = [97] ∨ k = [98] := by
      rw [Std.ExtTreeMap.isSome_getElem?_iff_mem, ← Std.ExtTreeMap.mem_keys, hdata]
      simp
    unfold targets scans visible
    rw [hitem, hkey, Match.globMatch_all]
    simp [startsWith, literalPrefix]
  have hsafely := (removesAll_open_iff hopen hwrite hvalid.items hvalid.store (by simp)).mp hremoves
  rcases hsafely with hreadOnly | hclosed | ⟨hall, -⟩ | ⟨k, hk, hrefused, hleast⟩
  · rw [hwrite] at hreadOnly
    cases hreadOnly
  · exact hclosed hopen
  · rw [hall [98] ((htargets _).mpr (Or.inr rfl))] at hb
    cases hb
  · rcases (htargets k).mp hk with rfl | rfl
    · rw [ha] at hrefused
      cases hrefused
    · have hbelow := hleast [97] ((htargets _).mpr (Or.inl rfl)) (by decide)
      revert hbelow
      decide

end Transaction

end Nplex
