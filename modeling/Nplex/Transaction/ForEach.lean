import Nplex.Transaction
import Nplex.Common.SortedMerge
import Nplex.Common.PrefixScan

/-!
# What `for_each` collects

The merge loop of `for_each_internal` walks the items and the store together. It returns,
in key order and each once, the pairs that `read` would return for the keys the pattern
collects; it turns the collected snapshots into reads and marks the transaction dirty for
them; and unless the level is read-committed it pins the collected store entries.
-/

namespace Nplex

open Nplex.Common

/-- The keys a pattern collects: those with its literal prefix that it matches. -/
def scans (globMatch : Glob) (pattern : Bytes) (k : Key) : Bool :=
  Transaction.startsWith k (Transaction.literalPrefix pattern) && globMatch k pattern

/-- An item after its key was observed: a snapshot becomes a read. -/
def Entry.observed (e : Entry) : Entry := if e.action = .snapshot then ⟨.read, e.value⟩ else e

/-- Observing an item keeps its value, and whether it was written. -/
theorem Entry.observed_keeps (e : Entry) : e.observed.value = e.value ∧
    (e.observed.action = .upsert ↔ e.action = .upsert) ∧
      (e.observed.action = .delete ↔ e.action = .delete) := by
  unfold Entry.observed
  split_ifs with hsnap
  · simp [hsnap]
  · simp

/-- An observed item is no snapshot. -/
theorem Entry.observed_ne_snapshot (e : Entry) : e.observed.action ≠ .snapshot := by
  unfold Entry.observed
  split_ifs with hsnap
  · simp
  · exact hsnap

/-- The value an item shows. -/
def Entry.shown (e : Entry) : Option Value := if e.action = .delete then none else e.value

/-- The item a key gets when its store entry is pinned. -/
def pin (v : Option Value) : Entry := ⟨.read, v⟩

namespace Transaction

/-- The value the transaction shows for a key. -/
def visible (tx : Transaction) (store : Store) (k : Key) : Option Value :=
  match tx.items[k]? with
  | some e => e.shown
  | none => store.data[k]?

section Loop

variable {V : Type} (globMatch : Glob) (pattern : Bytes)

/-- The entries at which an iterator of the loop stops. -/
def stops (entries : List (Key × V)) : List (Key × V) :=
  (entries.takeWhile fun e => startsWith e.1 (literalPrefix pattern)).filter fun e =>
    globMatch e.1 pattern

/-- An iterator at its end has no stops left. -/
theorem stops_of_nextMatch_nil {entries : List (Key × V)}
    (h : nextMatch globMatch pattern entries = []) : stops globMatch pattern entries = [] := by
  induction entries with
  | nil => rfl
  | cons e rest ih =>
    simp only [nextMatch] at h
    by_cases hpre : startsWith e.1 (literalPrefix pattern)
    · by_cases hmatch : globMatch e.1 pattern
      · simp [hpre, hmatch] at h
      · simp only [hpre, hmatch, Bool.not_true, Bool.false_eq_true, if_false] at h
        simpa [stops, hpre, hmatch] using ih h
    · simp [stops, hpre]

/-- The entry under an iterator is its first stop, whether or not it was moved before. -/
theorem stops_of_nextMatch_cons {entries : List (Key × V)} {e : Key × V} {rest : List (Key × V)}
    (h : nextMatch globMatch pattern entries = e :: rest) :
    stops globMatch pattern entries = e :: stops globMatch pattern rest ∧
      stops globMatch pattern (e :: rest) = e :: stops globMatch pattern rest ∧
      rest.length < entries.length := by
  induction entries with
  | nil => simp [nextMatch] at h
  | cons e' entries ih =>
    simp only [nextMatch] at h
    by_cases hpre : startsWith e'.1 (literalPrefix pattern)
    · by_cases hmatch : globMatch e'.1 pattern
      · simp only [hpre, hmatch, Bool.not_true, Bool.false_eq_true, if_false, if_true,
          List.cons.injEq] at h
        obtain ⟨rfl, rfl⟩ := h
        simp [stops, hpre, hmatch]
      · simp only [hpre, hmatch, Bool.not_true, Bool.false_eq_true, if_false] at h
        obtain ⟨hstops, hhead, hlen⟩ := ih h
        refine ⟨?_, hhead, by simp; omega⟩
        simpa [stops, hpre, hmatch] using hstops
    · simp [hpre] at h

/-- The stops from the lower bound of the literal prefix are the entries the pattern collects. -/
theorem stops_fromPrefix {entries : List (Key × V)} (h : SortedKeys entries) :
    stops globMatch pattern (fromPrefix (literalPrefix pattern) entries) =
      entries.filter fun e => scans globMatch pattern e.1 := by
  have hscan : _ = entries.filter fun e => (literalPrefix pattern).isPrefixOf e.1 :=
    prefixScan_eq_filter h
  unfold stops fromPrefix startsWith
  rw [hscan, List.filter_filter]
  refine List.filter_congr fun e _ => ?_
  simp only [scans, startsWith]
  exact Bool.and_comm _ _

end Loop

/-- Visit one entry of the merged walk. -/
def Visit.visit (v : Visit) (e : Key × (Entry ⊕ Value)) : Visit :=
  match e.2 with
  | .inl entry => v.item e.1 entry
  | .inr value => v.stored e.1 value

/-- The loop visits the merge of the stops of both iterators. -/
theorem forEachLoop_eq (globMatch : Glob) (pattern : Bytes) {fuel : ℕ}
    {itTx : List (Key × Entry)} {itStore : List (Key × Value)} (v : Visit)
    (hfuel : itTx.length + itStore.length ≤ fuel) :
    forEachLoop globMatch pattern fuel itTx itStore v =
      (mergeByKey (stops globMatch pattern itTx) (stops globMatch pattern itStore)).foldl
        Visit.visit v := by
  induction fuel generalizing itTx itStore v with
  | zero =>
    obtain ⟨rfl, rfl⟩ : itTx = [] ∧ itStore = [] := by
      constructor <;> exact List.eq_nil_of_length_eq_zero (by omega)
    simp [forEachLoop, stops, mergeByKey]
  | succ fuel ih =>
    rw [forEachLoop]
    cases htx : nextMatch globMatch pattern itTx with
    | nil =>
      rw [stops_of_nextMatch_nil _ _ htx]
      cases hst : nextMatch globMatch pattern itStore with
      | nil => simp [stops_of_nextMatch_nil _ _ hst, mergeByKey]
      | cons e restStore =>
        obtain ⟨hstops, -, hlen⟩ := stops_of_nextMatch_cons _ _ hst
        dsimp only
        rw [ih _ (by simp; omega), hstops]
        simp [stops, mergeByKey, Visit.visit]
    | cons e restTx =>
      obtain ⟨hstops, hheadTx, hlen⟩ := stops_of_nextMatch_cons _ _ htx
      cases hst : nextMatch globMatch pattern itStore with
      | nil =>
        obtain ⟨k, entry⟩ := e
        rw [stops_of_nextMatch_nil _ _ hst, hstops, mergeByKey]
        dsimp only
        rw [ih _ (by simp; omega)]
        simp [stops, Visit.visit]
      | cons e' restStore =>
        obtain ⟨hstops', hheadStore, hlen'⟩ := stops_of_nextMatch_cons _ _ hst
        rw [hstops, hstops']
        dsimp only
        cases hcmp : compare e.1 e'.1 with
        | lt =>
          dsimp only
          rw [ih _ (by simp; omega), hheadStore, mergeByKey]
          simp [hcmp, Visit.visit]
        | gt =>
          dsimp only
          rw [ih _ (by simp; omega), hheadTx, mergeByKey]
          simp [hcmp, Visit.visit]
        | eq =>
          dsimp only
          rw [ih _ (by omega), mergeByKey]
          simp [hcmp, Visit.visit]

/-- The pair a visit returns. -/
def shownPair (e : Key × (Entry ⊕ Value)) : Option (Key × Value) :=
  match e.2 with
  | .inl entry => entry.shown.map fun v => (e.1, v)
  | .inr value => some (e.1, value)

/-- The pair a visit pins. -/
def pinnedPair (isolation : Isolation) (e : Key × (Entry ⊕ Value)) : Option (Key × Value) :=
  match e.2 with
  | .inl _ => none
  | .inr value => if isolation ≠ .readCommitted then some (e.1, value) else none

/-- The item after a visit. -/
def visitItems (items : KeyMap Entry) (e : Key × (Entry ⊕ Value)) : KeyMap Entry :=
  match e.2 with
  | .inl entry => if entry.action = .snapshot then items.insert e.1 ⟨.read, entry.value⟩ else items
  | .inr _ => items

/-- A visit meets a snapshot. -/
def meetsSnapshot (e : Key × (Entry ⊕ Value)) : Bool :=
  match e.2 with
  | .inl entry => entry.action = .snapshot
  | .inr _ => false

/-- What one visit does. -/
theorem visit_eq (v : Visit) (e : Key × (Entry ⊕ Value)) :
    v.visit e =
      ⟨v.ret ++ (shownPair e).toList, v.pinned ++ (pinnedPair v.tx.isolation e).toList,
        { v.tx with items := visitItems v.tx.items e, dirty := v.tx.dirty || meetsSnapshot e }⟩ := by
  obtain ⟨k, entry | value⟩ := e
  · obtain ⟨action, value⟩ := entry
    cases action <;> cases value <;>
      simp [Visit.visit, Visit.item, shownPair, pinnedPair, visitItems, meetsSnapshot, Entry.shown]
  · simp only [Visit.visit, Visit.stored, shownPair, pinnedPair, visitItems, meetsSnapshot,
      Bool.or_false]
    split_ifs <;> simp

/-- What a whole walk does. -/
theorem foldl_visit_eq (visits : List (Key × (Entry ⊕ Value))) (v : Visit) :
    visits.foldl Visit.visit v =
      ⟨v.ret ++ visits.filterMap shownPair, v.pinned ++ visits.filterMap (pinnedPair v.tx.isolation),
        { v.tx with
          items := visits.foldl visitItems v.tx.items
          dirty := v.tx.dirty || visits.any meetsSnapshot }⟩ := by
  induction visits generalizing v with
  | nil => simp
  | cons e rest ih =>
    rw [List.foldl_cons, ih, visit_eq]
    cases hs : shownPair e <;> cases hp : pinnedPair v.tx.isolation e <;>
      simp [hs, hp, Bool.or_assoc]

/-- A walk leaves the items it does not meet. -/
theorem foldl_visitItems_of_notMem {visits : List (Key × (Entry ⊕ Value))} {k : Key}
    (h : ∀ e, (k, .inl e) ∉ visits) (items : KeyMap Entry) :
    (visits.foldl visitItems items)[k]? = items[k]? := by
  induction visits generalizing items with
  | nil => rfl
  | cons x rest ih =>
    rw [List.foldl_cons, ih fun e he => h e (List.mem_cons_of_mem _ he)]
    obtain ⟨k', entry | value⟩ := x
    · have hne : k' ≠ k := by
        rintro rfl
        exact h entry List.mem_cons_self
      simp only [visitItems]
      split_ifs
      · simp [lookup_insert, hne]
      · rfl
    · rfl

/-- A walk turns a snapshot it meets into a read and leaves the other items. -/
theorem foldl_visitItems_of_mem {visits : List (Key × (Entry ⊕ Value))} (hsorted : SortedKeys visits)
    {k : Key} {e : Entry} (h : (k, .inl e) ∈ visits) {items : KeyMap Entry}
    (hitem : items[k]? = some e) :
    (visits.foldl visitItems items)[k]? = some e.observed := by
  induction visits generalizing items with
  | nil => simp at h
  | cons x rest ih =>
    obtain ⟨hhead, htail⟩ := List.pairwise_cons.mp hsorted
    rw [List.foldl_cons]
    rcases List.mem_cons.mp h with rfl | hmem
    · -- no later entry of the walk is about `k`
      have hnone : ∀ e', (k, Sum.inl e') ∉ rest := fun e' he' => by simpa using hhead _ he'
      rw [foldl_visitItems_of_notMem hnone]
      simp only [visitItems, Entry.observed]
      split_ifs
      · simp
      · exact hitem
    · have hne : x.1 ≠ k := by
        rintro rfl
        simpa using hhead _ hmem
      refine ih htail hmem ?_
      obtain ⟨k', entry | value⟩ := x
      · simp only [visitItems]
        split_ifs
        · simpa [lookup_insert, hne] using hitem
        · exact hitem
      · exact hitem

/-- Pinning leaves the keys that have an item or are not pinned. -/
theorem foldl_pin_of_notMem {pins : List (Key × Value)} {k : Key} {items : KeyMap Entry}
    (h : (∃ e, items[k]? = some e) ∨ ∀ v, (k, v) ∉ pins) :
    (pins.foldl (fun items kv => items.insertIfNew kv.1 (pin (some kv.2))) items)[k]? = items[k]? := by
  induction pins generalizing items with
  | nil => rfl
  | cons x rest ih =>
    have hstep : (items.insertIfNew x.1 (pin (some x.2)))[k]? = items[k]? := by
      rw [lookup_insertIfNew]
      by_cases hkey : x.1 = k
      · rcases h with ⟨e, he⟩ | hnone
        · simp [hkey, he]
        · exact absurd (hkey ▸ List.mem_cons_self) (hnone x.2)
      · simp [hkey]
    rw [List.foldl_cons, ih, hstep]
    rcases h with ⟨e, he⟩ | hnone
    · exact Or.inl ⟨e, hstep.trans he⟩
    · exact Or.inr fun v hv => hnone v (List.mem_cons_of_mem _ hv)

/-- Pinning gives a key without an item its pinned value. -/
theorem foldl_pin_of_mem {pins : List (Key × Value)} (hsorted : SortedKeys pins) {k : Key}
    {v : Value} (h : (k, v) ∈ pins) {items : KeyMap Entry} (hitem : items[k]? = none) :
    (pins.foldl (fun items kv => items.insertIfNew kv.1 (pin (some kv.2))) items)[k]? =
      some (pin (some v)) := by
  induction pins generalizing items with
  | nil => simp at h
  | cons x rest ih =>
    obtain ⟨hhead, htail⟩ := List.pairwise_cons.mp hsorted
    rw [List.foldl_cons]
    rcases List.mem_cons.mp h with rfl | hmem
    · have hnew : (items.insertIfNew k (pin (some v)))[k]? = some (pin (some v)) := by
        rw [lookup_insertIfNew, if_pos rfl, hitem]
        rfl
      rw [foldl_pin_of_notMem (Or.inl ⟨_, hnew⟩), hnew]
    · have hne : x.1 ≠ k := by
        rintro rfl
        simpa using hhead _ hmem
      refine ih htail hmem ?_
      simpa [lookup_insertIfNew, hne] using hitem

/-- The specification of `for_each_internal`. -/
structure Collected (globMatch : Glob) (tx : Transaction) (store : Store) (pattern : Bytes)
    (ret : List (Key × Value)) (tx' : Transaction) : Prop where
  /-- The pairs come in key order, each once. -/
  sorted : SortedKeys ret
  /-- They are the shown values of the collected keys. -/
  mem_ret : ∀ k v, (k, v) ∈ ret ↔ scans globMatch pattern k = true ∧ tx.visible store k = some v
  /-- The collected items count as observed, the collected store entries are pinned. -/
  items : ∀ k, tx'.items[k]? =
    if scans globMatch pattern k then
      match tx.items[k]? with
      | some e => some e.observed
      | none =>
        if tx.isolation = .readCommitted then none
        else (store.data[k]?).map fun v => pin (some v)
    else tx.items[k]?
  /-- Meeting a snapshot marks the transaction dirty. -/
  dirty : tx'.dirty = true ↔ tx.dirty = true ∨
    ∃ k e, scans globMatch pattern k = true ∧ tx.items[k]? = some e ∧ e.action = .snapshot
  /-- Nothing else changes. -/
  frame : tx' = { tx with items := tx'.items, dirty := tx'.dirty }

/-- The entries of a map come in key order. -/
theorem sortedKeys_toList {V : Type} (m : KeyMap V) : SortedKeys m.toList :=
  Std.ExtTreeMap.ordered_keys_toList

/-- The list of a map holds its entries. -/
theorem mem_toList {V : Type} {m : KeyMap V} {k : Key} {v : V} :
    (k, v) ∈ m.toList ↔ m[k]? = some v := Std.ExtTreeMap.mem_toList_iff_getElem?_eq_some

section Walk

variable (globMatch : Glob) (tx : Transaction) (store : Store) (pattern : Bytes)

/-- The walk of `for_each_internal`: the collected items and store entries in key order. -/
def walk : List (Key × (Entry ⊕ Value)) :=
  mergeByKey (tx.items.toList.filter fun e => scans globMatch pattern e.1)
    (store.data.toList.filter fun e => scans globMatch pattern e.1)

/-- The walk is in key order. -/
theorem sortedKeys_walk : SortedKeys (tx.walk globMatch store pattern) :=
  sortedKeys_mergeByKey ((sortedKeys_toList _).filter _) ((sortedKeys_toList _).filter _)

variable {globMatch tx store pattern}

/-- The items the walk meets. -/
theorem mem_walk_inl {k : Key} {e : Entry} : (k, Sum.inl e) ∈ tx.walk globMatch store pattern ↔
    scans globMatch pattern k = true ∧ tx.items[k]? = some e := by
  rw [walk, mem_mergeByKey_inl, List.mem_filter, mem_toList, and_comm]

/-- The store entries the walk meets. -/
theorem mem_walk_inr {k : Key} {v : Value} : (k, Sum.inr v) ∈ tx.walk globMatch store pattern ↔
    scans globMatch pattern k = true ∧ store.data[k]? = some v ∧ tx.items[k]? = none := by
  rw [walk, mem_mergeByKey_inr ((sortedKeys_toList _).filter _) ((sortedKeys_toList _).filter _),
    List.mem_filter, mem_toList]
  constructor
  · rintro ⟨⟨hv, hscan⟩, hnone⟩
    refine ⟨hscan, hv, Option.eq_none_iff_forall_ne_some.mpr fun e he => hnone e ?_⟩
    exact List.mem_filter.mpr ⟨mem_toList.mpr he, hscan⟩
  · rintro ⟨hscan, hv, hnone⟩
    refine ⟨⟨hv, hscan⟩, fun e he => ?_⟩
    rw [mem_toList.mp (List.mem_filter.mp he).1] at hnone
    cases hnone

/-- `for_each_internal` in terms of its walk. -/
theorem forEachInternal_eq (hpattern : pattern ≠ []) :
    tx.forEachInternal globMatch store pattern =
      ((tx.walk globMatch store pattern).filterMap shownPair,
        { tx with
          items := ((tx.walk globMatch store pattern).filterMap (pinnedPair tx.isolation)).foldl
            (fun items kv => items.insertIfNew kv.1 (pin (some kv.2)))
            ((tx.walk globMatch store pattern).foldl visitItems tx.items)
          dirty := tx.dirty || (tx.walk globMatch store pattern).any meetsSnapshot }) := by
  have hne : pattern.isEmpty = false := by simpa using hpattern
  simp only [forEachInternal, hne, Bool.false_eq_true, if_false]
  rw [forEachLoop_eq _ _ _ (le_refl _), stops_fromPrefix _ _ (sortedKeys_toList _),
    stops_fromPrefix _ _ (sortedKeys_toList _), foldl_visit_eq]
  simp [walk, pin]

/-- The pairs of the walk are the shown values of the collected keys. -/
theorem mem_shown_walk {k : Key} {v : Value} :
    (k, v) ∈ (tx.walk globMatch store pattern).filterMap shownPair ↔
      scans globMatch pattern k = true ∧ tx.visible store k = some v := by
  rw [List.mem_filterMap]
  constructor
  · rintro ⟨⟨k', entry | value⟩, hmem, hshown⟩
    · obtain ⟨v', hv', heq⟩ := Option.map_eq_some_iff.mp hshown
      obtain ⟨rfl, rfl⟩ := Prod.mk.inj heq
      obtain ⟨hscan, hitem⟩ := mem_walk_inl.mp hmem
      exact ⟨hscan, by simp [visible, hitem, hv']⟩
    · simp only [shownPair, Option.some.injEq, Prod.mk.injEq] at hshown
      obtain ⟨rfl, rfl⟩ := hshown
      obtain ⟨hscan, hvalue, hitem⟩ := mem_walk_inr.mp hmem
      exact ⟨hscan, by simp [visible, hitem, hvalue]⟩
  · rintro ⟨hscan, hvisible⟩
    unfold visible at hvisible
    cases hitem : tx.items[k]? with
    | some e =>
      rw [hitem] at hvisible
      exact ⟨(k, .inl e), mem_walk_inl.mpr ⟨hscan, hitem⟩, by
        simp only at hvisible
        simp [shownPair, hvisible]⟩
    | none =>
      rw [hitem] at hvisible
      exact ⟨(k, .inr v), mem_walk_inr.mpr ⟨hscan, hvisible, hitem⟩, rfl⟩

/-- The pinned pairs of the walk are the collected store entries without an item, unless the
level is read-committed. -/
theorem mem_pinned_walk {k : Key} {v : Value} :
    (k, v) ∈ (tx.walk globMatch store pattern).filterMap (pinnedPair tx.isolation) ↔
      tx.isolation ≠ .readCommitted ∧ scans globMatch pattern k = true ∧
        store.data[k]? = some v ∧ tx.items[k]? = none := by
  rw [List.mem_filterMap]
  constructor
  · rintro ⟨⟨k', entry | value⟩, hmem, hpinned⟩
    · simp [pinnedPair] at hpinned
    · simp only [pinnedPair, Option.ite_none_right_eq_some, Option.some.injEq,
        Prod.mk.injEq] at hpinned
      obtain ⟨hiso, rfl, rfl⟩ := hpinned
      exact ⟨hiso, mem_walk_inr.mp hmem⟩
  · rintro ⟨hiso, hrest⟩
    exact ⟨(k, .inr v), mem_walk_inr.mpr hrest, by simp [pinnedPair, hiso]⟩

/-- The pairs a walk returns are sorted when the walk is. -/
theorem sortedKeys_filterMap {A B : Type*} {f : Key × A → Option (Key × B)}
    (hkey : ∀ x y, f x = some y → y.1 = x.1) {l : List (Key × A)} (h : SortedKeys l) :
    SortedKeys (l.filterMap f) := by
  refine List.Pairwise.filterMap f ?_ h
  intro x y hxy x' hx' y' hy'
  rw [hkey x x' hx', hkey y y' hy']
  exact hxy

/-- A returned pair keeps its key. -/
theorem shownPair_key (x : Key × (Entry ⊕ Value)) (y : Key × Value) (h : shownPair x = some y) :
    y.1 = x.1 := by
  obtain ⟨k, entry | value⟩ := x
  · obtain ⟨v, -, rfl⟩ := Option.map_eq_some_iff.mp h
    rfl
  · simp only [shownPair, Option.some.injEq] at h
    subst h
    rfl

/-- A pinned pair keeps its key. -/
theorem pinnedPair_key (isolation : Isolation) (x : Key × (Entry ⊕ Value)) (y : Key × Value)
    (h : pinnedPair isolation x = some y) : y.1 = x.1 := by
  obtain ⟨k, entry | value⟩ := x
  · simp [pinnedPair] at h
  · simp only [pinnedPair, Option.ite_none_right_eq_some, Option.some.injEq] at h
    obtain ⟨-, rfl⟩ := h
    rfl

/-- The items after the walk and the pinning. -/
theorem lookup_walk_items (k : Key) :
    (((tx.walk globMatch store pattern).filterMap (pinnedPair tx.isolation)).foldl
        (fun items kv => items.insertIfNew kv.1 (pin (some kv.2)))
        ((tx.walk globMatch store pattern).foldl visitItems tx.items))[k]? =
      if scans globMatch pattern k then
        match tx.items[k]? with
        | some e => some e.observed
        | none =>
          if tx.isolation = .readCommitted then none
          else (store.data[k]?).map fun v => pin (some v)
      else tx.items[k]? := by
  have hsorted := sortedKeys_walk globMatch tx store pattern
  by_cases hscan : scans globMatch pattern k = true
  · rw [if_pos hscan]
    cases hitem : tx.items[k]? with
    | some e =>
      have hwalk := foldl_visitItems_of_mem hsorted
        (mem_walk_inl.mpr ⟨hscan, hitem⟩ : (k, Sum.inl e) ∈ _) hitem
      rw [foldl_pin_of_notMem (Or.inl ⟨_, hwalk⟩), hwalk]
    | none =>
      have hwalk : ((tx.walk globMatch store pattern).foldl visitItems tx.items)[k]? = none := by
        rw [foldl_visitItems_of_notMem, hitem]
        intro e he
        rw [(mem_walk_inl.mp he).2] at hitem
        cases hitem
      by_cases hiso : tx.isolation = .readCommitted
      · rw [foldl_pin_of_notMem, hwalk]
        · simp [hiso]
        · exact Or.inr fun v hv => (mem_pinned_walk.mp hv).1 hiso
      · cases hvalue : store.data[k]? with
        | none =>
          rw [foldl_pin_of_notMem, hwalk]
          · simp
          · refine Or.inr fun v hv => ?_
            rw [(mem_pinned_walk.mp hv).2.2.1] at hvalue
            cases hvalue
        | some v =>
          rw [foldl_pin_of_mem (sortedKeys_filterMap (pinnedPair_key _) hsorted)
            (mem_pinned_walk.mpr ⟨hiso, hscan, hvalue, hitem⟩) hwalk]
          simp [hiso]
  · rw [if_neg hscan, foldl_pin_of_notMem, foldl_visitItems_of_notMem]
    · exact fun e he => hscan (mem_walk_inl.mp he).1
    · exact Or.inr fun v hv => hscan (mem_pinned_walk.mp hv).2.1

/-- The walk marks the transaction dirty exactly when it meets a snapshot. -/
theorem any_meetsSnapshot_walk :
    (tx.walk globMatch store pattern).any meetsSnapshot = true ↔
      ∃ k e, scans globMatch pattern k = true ∧ tx.items[k]? = some e ∧ e.action = .snapshot := by
  rw [List.any_eq_true]
  constructor
  · rintro ⟨⟨k, entry | value⟩, hmem, hsnap⟩
    · obtain ⟨hscan, hitem⟩ := mem_walk_inl.mp hmem
      exact ⟨k, entry, hscan, hitem, by simpa [meetsSnapshot] using hsnap⟩
    · simp [meetsSnapshot] at hsnap
  · rintro ⟨k, e, hscan, hitem, hsnap⟩
    exact ⟨(k, .inl e), mem_walk_inl.mpr ⟨hscan, hitem⟩, by simp [meetsSnapshot, hsnap]⟩

/-- `for_each_internal` meets its specification. -/
theorem forEachInternal_collected (hpattern : pattern ≠ []) :
    Collected globMatch tx store pattern (tx.forEachInternal globMatch store pattern).1
      (tx.forEachInternal globMatch store pattern).2 := by
  rw [forEachInternal_eq hpattern]
  refine ⟨sortedKeys_filterMap shownPair_key (sortedKeys_walk _ _ _ _),
    fun k v => mem_shown_walk, lookup_walk_items, ?_, rfl⟩
  rw [Bool.or_eq_true, any_meetsSnapshot_walk]

end Walk

end Transaction

end Nplex
