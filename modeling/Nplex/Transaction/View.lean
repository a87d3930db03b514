import Nplex.Transaction.OpenTx

/-!
# What an open transaction shows

The abstract view of a transaction is a function from keys to values: the transaction's
own last write of the key if there is one, and otherwise the value the isolation level
promises. The methods are correct when their answers agree with the view, whatever the
order of operations and commits.

A `for_each` observes every key its pattern collects, whether or not its callback gets to
visit it; a view that only counts the visited keys disagrees with a later read.
-/

namespace Nplex

open Nplex.Common

/-- When a `for_each` counts as having observed a key. -/
inductive Observation
  /-- When its callback is called with the key. -/
  | visited
  /-- When its pattern collects the key. -/
  | collected
  deriving DecidableEq, Repr

/-- The abstract transaction: own writes, first observations, the content at creation and the
current content. -/
structure View where
  isolation : Isolation
  own : Key → Option (Option Bytes)
  seen : Key → Option (Option Value)
  start : KeyMap Value
  current : KeyMap Value

namespace View

/-- The view of a transaction just created. -/
def create (isolation : Isolation) (data : KeyMap Value) : View :=
  ⟨isolation, fun _ => none, fun _ => none, data, data⟩

/-- The value promised for a key the transaction has not written. -/
def base (a : View) (k : Key) : Option Value :=
  match a.isolation with
  | .readCommitted => a.current[k]?
  | .repeatableRead => (a.seen k).getD a.current[k]?
  | .serializable => a.start[k]?

/-- The value of a key. -/
def value (a : View) (k : Key) : Option Value :=
  match a.own k with
  | some written => written.map fun data => ⟨data, none⟩
  | none => a.base k

/-- Write a key. -/
def write (a : View) (k : Key) (written : Option Bytes) : View :=
  { a with own := fun k' => if k = k' then some written else a.own k' }

/-- Observe a value; only the first observation of a key counts. -/
def observe (a : View) (k : Key) (v : Option Value) : View :=
  { a with seen := fun k' => if k = k' then (a.seen k').or (some v) else a.seen k' }

/-- Observe several values. -/
def observeAll (a : View) (kvs : List (Key × Value)) : View :=
  kvs.foldl (fun a kv => a.observe kv.1 (some kv.2)) a

/-- The answers the view allows. -/
def allows (globMatch : Glob) (a : View) : TxInput → TxAnswer → Prop
  | .read k _, .value v => v = a.value k
  | .remove k, .flag b => b = (a.value k).isSome
  | .upsertIfChanged k data, .flag b => b = false ↔ (a.value k).map Value.data = some data
  | .forEach pattern, .collected ret => pattern ≠ [] →
    SortedKeys ret ∧ ∀ k v, (k, v) ∈ ret ↔ scans globMatch pattern k = true ∧ a.value k = some v
  | _, _ => True

/-- The view after an input and its answer. -/
def next (observation : Observation) (a : View) : TxInput → TxAnswer → View
  | .commit u, .delivered _ => { a with current := applyUpdate a.current u }
  | .read k _, .value v => a.observe k v
  | .upsert k data, .done => a.write k (some data)
  | .upsertIfChanged k data, .flag true => a.write k (some data)
  | .upsertIfChanged k _, .flag false => a.observe k (a.value k)
  | .remove k, .flag true => a.write k none
  | .forEach _, .collected ret => if observation = .collected then a.observeAll ret else a
  | .visit, .called k v => if observation = .visited then a.observe k (some v) else a
  | _, _ => a

/-- A write is the key's value from then on. -/
theorem value_write (a : View) (k : Key) (written : Option Bytes) :
    (a.write k written).value k = written.map fun data => ⟨data, none⟩ := by
  simp [value, write]

/-- Observing the value of a key changes no value. -/
theorem value_observe (a : View) (k : Key) : (a.observe k (a.value k)).value = a.value := by
  funext k'
  by_cases hk : k = k'
  · subst hk
    cases hown : a.own k <;> cases hiso : a.isolation <;> cases hseen : a.seen k <;>
      simp [value, base, observe, hown, hiso, hseen]
  · simp [value, base, observe, hk]

/-- Only the observation of the key itself matters for its promised value. -/
theorem base_congr {a a' : View} {k : Key} (hiso : a'.isolation = a.isolation)
    (hcurrent : a'.current = a.current) (hstart : a'.start = a.start) (hseen : a'.seen k = a.seen k) :
    a'.base k = a.base k := by
  simp only [base, hiso, hcurrent, hstart, hseen]

/-- Observing the value of a key changes no promised value. -/
theorem base_observe (a : View) (k k' : Key) :
    (a.observe k (a.base k)).base k' = a.base k' := by
  by_cases hk : k = k'
  · subst hk
    cases hiso : a.isolation <;> cases hseen : a.seen k <;>
      simp [base, observe, hiso, hseen]
  · simp [base, observe, hk]

/-- Observing a key is no write. -/
@[simp] theorem observe_own (a : View) (k : Key) (v : Option Value) : (a.observe k v).own = a.own :=
  rfl

/-- It keeps the isolation. -/
@[simp] theorem observe_isolation (a : View) (k : Key) (v : Option Value) :
    (a.observe k v).isolation = a.isolation := rfl

/-- It keeps the start. -/
@[simp] theorem observe_start (a : View) (k : Key) (v : Option Value) :
    (a.observe k v).start = a.start := rfl

/-- It keeps the current content. -/
@[simp] theorem observe_current (a : View) (k : Key) (v : Option Value) :
    (a.observe k v).current = a.current := rfl

/-- Observing several values touches only the observations. -/
theorem observeAll_eq (a : View) (kvs : List (Key × Value)) :
    a.observeAll kvs = { a with seen := (a.observeAll kvs).seen } := by
  induction kvs generalizing a with
  | nil => rfl
  | cons kv rest ih =>
    change (a.observe kv.1 (some kv.2)).observeAll rest = _
    rw [ih]
    rfl

/-- The observations after observing several values. -/
theorem observeAll_seen (a : View) (kvs : List (Key × Value)) (k : Key) :
    (a.observeAll kvs).seen k =
      (a.seen k).or ((kvs.find? fun kv => decide (kv.1 = k)).map fun kv => some kv.2) := by
  induction kvs generalizing a with
  | nil => simp [observeAll]
  | cons kv rest ih =>
    change ((a.observe kv.1 (some kv.2)).observeAll rest).seen k = _
    rw [ih]
    by_cases hk : kv.1 = k
    · cases hseen : a.seen k <;> simp [observe, hk, hseen]
    · simp [observe, hk]

end View

namespace OpenTx

/-- What an item says about the view of its key. -/
def ItemShows (a : View) (k : Key) (e : Entry) : Prop :=
  match e.action with
  | .upsert => ∃ data, e.value = some ⟨data, none⟩ ∧ a.own k = some (some data)
  | .delete => a.own k = some none
  | .read => a.own k = none ∧ a.base k = e.value ∧
      (a.isolation = .repeatableRead → a.seen k = some e.value) ∧ a.isolation ≠ .readCommitted
  | .snapshot => a.own k = none ∧ a.base k = e.value ∧ a.isolation = .serializable

/-- What a missing item says about the view of its key. -/
def MissingShows (s : OpenTx) (a : View) (k : Key) : Prop :=
  a.own k = none ∧ a.base k = s.store.data[k]? ∧ (a.isolation = .repeatableRead → a.seen k = none)

/-- The item of a key, or its absence, agrees with the view. -/
def KeyShows (s : OpenTx) (a : View) (k : Key) : Prop :=
  match s.tx.items[k]? with
  | some e => ItemShows a k e
  | none => MissingShows s a k

/-- The transaction shows the view. -/
structure Shows (s : OpenTx) (a : View) : Prop where
  isolation : a.isolation = s.tx.isolation
  current : a.current = s.store.data
  keys : ∀ k, KeyShows s a k

variable {globMatch : Glob} {s s' : OpenTx} {a a' : View} {k : Key}

/-- The transaction shows the value of the view. -/
theorem Shows.visible (h : Shows s a) (k : Key) : s.tx.visible s.store k = a.value k := by
  have hkey := h.keys k
  unfold KeyShows at hkey
  unfold Transaction.visible View.value
  cases hitem : s.tx.items[k]? with
  | none =>
    rw [hitem] at hkey
    obtain ⟨hown, hbase, -⟩ := hkey
    simp [hown, hbase]
  | some e =>
    rw [hitem] at hkey
    obtain ⟨action, value⟩ := e
    cases action with
    | upsert =>
      obtain ⟨data, hvalue, hown⟩ := hkey
      simp only at hvalue
      simp [Entry.shown, hvalue, hown]
    | delete =>
      have hown : a.own k = some none := hkey
      simp [Entry.shown, hown]
    | read =>
      obtain ⟨hown, hbase, -⟩ := hkey
      simp [Entry.shown, hown, hbase]
    | snapshot =>
      obtain ⟨hown, hbase, -⟩ := hkey
      simp [Entry.shown, hown, hbase]

/-- An item of the transaction that is an upsert holds a value. -/
theorem Shows.holdsWrite (h : Shows s a) {e : Entry} (hitem : s.tx.items[k]? = some e) :
    e.holdsWrite := by
  intro hupsert
  have hkey := h.keys k
  rw [KeyShows, hitem] at hkey
  simp only [ItemShows, hupsert] at hkey
  obtain ⟨data, hvalue, -⟩ := hkey
  simp [hvalue]

/-- A view that agrees at a key about everything the item says keeps showing it. -/
theorem ItemShows.congr {e : Entry} (h : ItemShows a k e) (hown : a'.own k = a.own k)
    (hbase : a.own k = none → a'.base k = a.base k) (hseen : a'.seen k = a.seen k)
    (hiso : a'.isolation = a.isolation) : ItemShows a' k e := by
  obtain ⟨action, value⟩ := e
  cases action <;> simp only [ItemShows, hown, hseen, hiso] at h ⊢
  · exact ⟨h.1, (hbase h.1).trans h.2.1, h.2.2⟩
  · exact ⟨h.1, (hbase h.1).trans h.2.1, h.2.2⟩
  · exact h
  · exact h

/-- The same for a missing item. -/
theorem MissingShows.congr (h : MissingShows s a k) (hown : a'.own k = a.own k)
    (hbase : a.own k = none → a'.base k = a.base k)
    (hdata : s'.store.data[k]? = s.store.data[k]?) (hseen : a'.seen k = a.seen k)
    (hiso : a'.isolation = a.isolation) : MissingShows s' a' k := by
  obtain ⟨hnone, hcontent, hunseen⟩ := h
  exact ⟨hown.trans hnone, (hbase hnone).trans (hcontent.trans hdata.symm),
    fun hrr => hseen.trans (hunseen (hiso ▸ hrr))⟩

/-- A key about which nothing changed is still shown. -/
theorem KeyShows.congr (h : KeyShows s a k) (hitem : s'.tx.items[k]? = s.tx.items[k]?)
    (hown : a'.own k = a.own k) (hbase : a.own k = none → a'.base k = a.base k)
    (hdata : s'.store.data[k]? = s.store.data[k]?) (hseen : a'.seen k = a.seen k)
    (hiso : a'.isolation = a.isolation) : KeyShows s' a' k := by
  rw [KeyShows, hitem]
  unfold KeyShows at h
  cases hitem' : s.tx.items[k]? with
  | some e =>
    rw [hitem'] at h
    exact ItemShows.congr h hown hbase hseen hiso
  | none =>
    rw [hitem'] at h
    exact MissingShows.congr h hown hbase hdata hseen hiso

/-- A transaction just created shows its view. -/
theorem shows_start (store : Store) (isolation : Isolation) (readOnly : Bool) (user : Option User) :
    Shows (start store isolation readOnly user) (View.create isolation store.data) := by
  refine ⟨rfl, rfl, fun k => ?_⟩
  simp only [KeyShows, start, Transaction.create, Std.ExtTreeMap.getElem?_empty]
  refine ⟨rfl, ?_, fun _ => rfl⟩
  cases isolation <;> rfl

/-- A written key is shown. -/
theorem Shows.write {written : Option Bytes} {e : Entry} (h : Shows s a) (hstore : s'.store = s.store)
    (hiso : s'.tx.isolation = s.tx.isolation)
    (hitems : ∀ k', s'.tx.items[k']? = if k = k' then some e else s.tx.items[k']?)
    (he : (e.action = .upsert ∧ ∃ data, e.value = some ⟨data, none⟩ ∧ written = some data) ∨
      (e.action = .delete ∧ written = none)) :
    Shows s' (a.write k written) := by
  refine ⟨h.isolation.trans hiso.symm, h.current.trans (by rw [hstore]), fun k' => ?_⟩
  by_cases hk : k = k'
  · subst hk
    rw [KeyShows, hitems, if_pos rfl]
    rcases he with ⟨haction, data, hvalue, rfl⟩ | ⟨haction, rfl⟩
    · simp only [ItemShows, haction]
      exact ⟨data, hvalue, by simp [View.write]⟩
    · simp only [ItemShows, haction]
      simp [View.write]
  · exact (h.keys k').congr (by rw [hitems, if_neg hk]) (by simp [View.write, hk])
      (fun _ => rfl) (by rw [hstore]) rfl rfl

/-- A key is shown after its value was observed, whether it was pinned or left alone. -/
theorem Shows.observe (h : Shows s a) (hstore : s'.store = s.store)
    (hiso : s'.tx.isolation = s.tx.isolation)
    (hothers : ∀ k', k ≠ k' → s'.tx.items[k']? = s.tx.items[k']?)
    (hkey : KeyShows s' (a.observe k (a.value k)) k) : Shows s' (a.observe k (a.value k)) := by
  refine ⟨h.isolation.trans hiso.symm, h.current.trans (by rw [hstore]), fun k' => ?_⟩
  by_cases hk : k = k'
  · subst hk
    exact hkey
  · exact (h.keys k').congr (hothers k' hk) rfl
      (fun _ => by simp [View.base, View.observe, hk]) (by rw [hstore])
      (by simp [View.observe, hk]) rfl

/-- A key with an item is still shown after its value was observed. -/
theorem ItemShows.observed {e : Entry} (h : ItemShows a k e) :
    ItemShows (a.observe k (a.value k)) k e := by
  obtain ⟨action, value⟩ := e
  cases action with
  | upsert => exact h
  | delete => exact h
  | read =>
    obtain ⟨hown, hbase, hseen, hiso⟩ := h
    have hvalue : a.value k = a.base k := by simp [View.value, hown]
    rw [hvalue]
    exact ⟨hown, (View.base_observe a k k).trans hbase,
      fun hrr => by simp [View.observe, hseen hrr], hiso⟩
  | snapshot =>
    obtain ⟨hown, hbase, hiso⟩ := h
    have hvalue : a.value k = a.base k := by simp [View.value, hown]
    rw [hvalue]
    exact ⟨hown, (View.base_observe a k k).trans hbase, hiso⟩

/-- A snapshot turned into a read is still shown. -/
theorem ItemShows.turned {e : Entry} (h : ItemShows a k e) : ItemShows a k e.observed := by
  unfold Entry.observed
  split_ifs with hsnap
  · simp only [ItemShows, hsnap] at h
    obtain ⟨hown, hbase, hiso⟩ := h
    exact ⟨hown, hbase, by simp [hiso], by simp [hiso]⟩
  · exact h

/-- A pinned key is shown. -/
theorem MissingShows.pinned (h : MissingShows s a k) (hiso : a.isolation ≠ .readCommitted) :
    ItemShows (a.observe k (a.value k)) k (pin s.store.data[k]?) := by
  obtain ⟨hown, hbase, hunseen⟩ := h
  have hvalue : a.value k = a.base k := by simp [View.value, hown]
  rw [hvalue]
  exact ⟨hown, (View.base_observe a k k).trans hbase,
    fun hrr => by simp [View.observe, hunseen hrr, hbase, pin], hiso⟩

/-- Under the other levels observing a key without an item leaves no trace. -/
theorem MissingShows.unpinned (h : MissingShows s a k) (hiso : a.isolation ≠ .repeatableRead)
    (hstore : s'.store = s.store) : MissingShows s' (a.observe k (a.value k)) k := by
  obtain ⟨hown, hbase, -⟩ := h
  have hvalue : a.value k = a.base k := by simp [View.value, hown]
  rw [hvalue]
  exact ⟨hown, (View.base_observe a k k).trans (by rw [hbase, hstore]),
    fun hrr => absurd hrr hiso⟩

/-- `read` keeps the view shown. -/
theorem Shows.read {ensure : Bool} {v : Option Value} (h : Shows s a) (hstore : s'.store = s.store)
    (htx : Transaction.ReadStep s.tx s.store k ensure v s'.tx) : Shows s' (a.observe k v) := by
  have hv : v = a.value k := htx.value.trans (h.visible k)
  subst hv
  refine h.observe hstore (by rw [htx.frame]) (fun k' hk => by rw [htx.items, if_neg hk]) ?_
  have hkey := h.keys k
  unfold KeyShows at hkey ⊢
  rw [htx.items, if_pos rfl, Transaction.itemAfterRead]
  cases hitem : s.tx.items[k]? with
  | some e =>
    rw [hitem] at hkey
    dsimp only
    split_ifs with hvalue
    · exact ItemShows.observed hkey
    · exact (ItemShows.observed hkey).turned
  | none =>
    rw [hitem] at hkey
    by_cases hiso : s.tx.isolation = .readCommitted
    · rw [if_pos hiso]
      exact hkey.unpinned (by simp [h.isolation, hiso]) hstore
    · rw [if_neg hiso]
      exact hkey.pinned (by rw [h.isolation]; exact hiso)

/-- An `upsert_if_changed` that finds the value already there keeps the view shown. -/
theorem Shows.kept {data : Bytes} (h : Shows s a) (hstore : s'.store = s.store)
    (htx : Transaction.UpsertStep globMatch s.tx s.store k data false false s'.tx) :
    Shows s' (a.observe k (a.value k)) := by
  have hitems := htx.unchanged rfl
  refine h.observe hstore (by rw [htx.frame])
    (fun k' hk => by rw [hitems, if_neg fun hc => hk hc.1]) ?_
  have hkey := h.keys k
  unfold KeyShows at hkey ⊢
  rw [hitems]
  cases hitem : s.tx.items[k]? with
  | some e =>
    rw [hitem] at hkey
    simpa using hkey.observed
  | none =>
    rw [hitem] at hkey
    by_cases hiso : s.tx.isolation = .repeatableRead
    · simpa [hiso] using hkey.pinned (by simp [h.isolation, hiso])
    · simpa [hiso] using hkey.unpinned (by rw [h.isolation]; exact hiso) hstore

/-- The value a `for_each` observes for a key, if any. -/
theorem find?_collected {ret : List (Key × Value)} {f : Key → Option Value} {p : Key → Bool}
    (hmem : ∀ k v, (k, v) ∈ ret ↔ p k = true ∧ f k = some v) (k : Key) :
    (ret.find? fun kv => decide (kv.1 = k)).map (fun kv => some kv.2) =
      if p k then (f k).map some else none := by
  cases hfind : ret.find? fun kv => decide (kv.1 = k) with
  | some kv =>
    have hk : kv.1 = k := by simpa using List.find?_some hfind
    obtain ⟨hp, hf⟩ := (hmem kv.1 kv.2).mp (List.mem_of_find?_eq_some hfind)
    rw [hk] at hp hf
    simp [hp, hf]
  | none =>
    have hnone : ∀ v, (k, v) ∉ ret := fun v hv => by
      simpa using List.find?_eq_none.mp hfind (k, v) hv
    by_cases hp : p k = true
    · cases hf : f k with
      | none => simp
      | some v => exact absurd ((hmem k v).mpr ⟨hp, hf⟩) (hnone v)
    · simp [hp]

/-- At every key, observing the pairs of a `for_each` is observing the value of the key, or
nothing. -/
theorem observeAll_agrees {ret : List (Key × Value)} {p : Key → Bool}
    (hmem : ∀ k v, (k, v) ∈ ret ↔ p k = true ∧ a.value k = some v) (k : Key) :
    (a.observeAll ret).seen k =
      if p k = true ∧ a.value k ≠ none then (a.observe k (a.value k)).seen k else a.seen k := by
  rw [View.observeAll_seen, find?_collected hmem]
  by_cases hp : p k = true
  · cases hvalue : a.value k <;> simp [hp, View.observe]
  · simp [hp]

/-- `for_each` keeps the view shown when all the collected keys count as observed. -/
theorem Shows.forEach {pattern : Bytes} {ret : List (Key × Value)} (h : Shows s a)
    (hstore : s'.store = s.store)
    (htx : Transaction.Collected globMatch s.tx s.store pattern ret s'.tx) :
    Shows s' (a.observeAll ret) := by
  have hmem : ∀ k v, (k, v) ∈ ret ↔ scans globMatch pattern k = true ∧ a.value k = some v :=
    fun k v => by rw [htx.mem_ret, h.visible]
  have hframe := View.observeAll_eq a ret
  have hown : (a.observeAll ret).own = a.own := by rw [hframe]
  have hiso : (a.observeAll ret).isolation = a.isolation := by rw [hframe]
  have hcurrent : (a.observeAll ret).current = a.current := by rw [hframe]
  have hstart : (a.observeAll ret).start = a.start := by rw [hframe]
  refine ⟨hiso.trans (h.isolation.trans (by rw [htx.frame])),
    hcurrent.trans (h.current.trans (by rw [hstore])), fun k => ?_⟩
  have hkey := h.keys k
  have hseen := observeAll_agrees hmem k
  unfold KeyShows at hkey ⊢
  rw [htx.items]
  by_cases hobserved : scans globMatch pattern k = true ∧ a.value k ≠ none
  · -- the key was collected with a value, which counts as observed
    rw [if_pos hobserved] at hseen
    have hbase : (a.observeAll ret).base k = (a.observe k (a.value k)).base k :=
      View.base_congr hiso hcurrent hstart hseen
    rw [if_pos hobserved.1]
    cases hitem : s.tx.items[k]? with
    | some e =>
      rw [hitem] at hkey
      exact (ItemShows.observed hkey).turned.congr (by rw [hown]; rfl) (fun _ => hbase) hseen hiso
    | none =>
      rw [hitem] at hkey
      dsimp only
      by_cases hlevel : s.tx.isolation = .readCommitted
      · rw [if_pos hlevel]
        have hunpinned : MissingShows s' (a.observe k (a.value k)) k :=
          hkey.unpinned (by simp [h.isolation, hlevel]) hstore
        exact hunpinned.congr (by rw [hown]; rfl) (fun _ => hbase) rfl hseen hiso
      · rw [if_neg hlevel]
        have hpinned := hkey.pinned (by rw [h.isolation]; exact hlevel)
        have hdata : s.store.data[k]? = a.value k := by
          rw [← h.visible, Transaction.visible, hitem]
        obtain ⟨v, hv⟩ := Option.ne_none_iff_exists'.mp hobserved.2
        rw [hdata, hv] at hpinned ⊢
        simpa using hpinned.congr (by rw [hown]; rfl) (fun _ => hv ▸ hbase) (hv ▸ hseen) hiso
  · -- the key was not collected, or without a value: nothing was observed
    rw [if_neg hobserved] at hseen
    have hbase : (a.observeAll ret).base k = a.base k :=
      View.base_congr hiso hcurrent hstart hseen
    cases hitem : s.tx.items[k]? with
    | some e =>
      rw [hitem] at hkey
      have hitem' := ItemShows.congr hkey (by rw [hown]) (fun _ => hbase) hseen hiso
      dsimp only
      split_ifs with hscan
      · exact hitem'.turned
      · exact hitem'
    | none =>
      rw [hitem] at hkey
      have hmissing : MissingShows s' (a.observeAll ret) k :=
        hkey.congr (by rw [hown]) (fun _ => hbase) (by rw [hstore]) hseen hiso
      split_ifs with hscan
      · exact hmissing
      · have hvalue : a.value k = none := by
          by_contra hne
          exact hobserved ⟨hscan, hne⟩
        have hdata : s.store.data[k]? = none := by
          rw [← hvalue, ← h.visible, Transaction.visible, hitem]
        simpa [hdata] using hmissing
      · exact hmissing

/-- A delivered commit keeps the view shown. -/
theorem Shows.commit {u : Update} {changes : List Change} (h : Shows s a)
    (hopen : s.tx.state = .opened) (hstore : Store.Updated s.store u s'.store changes)
    (htx : s'.tx = s.tx.update globMatch changes) :
    Shows s' { a with current := applyUpdate a.current u } := by
  have hstep := Transaction.update_spec globMatch hopen hstore.wellFormed
  rw [← htx] at hstep
  refine ⟨h.isolation.trans (by rw [hstep.frame]), by rw [h.current, hstore.data], fun k => ?_⟩
  have hkey := h.keys k
  have hiso := h.isolation
  unfold KeyShows at hkey ⊢
  rw [hstep.items]
  cases hitem : s.tx.items[k]? with
  | some e =>
    rw [hitem] at hkey
    simp only [Option.some_or, ite_self]
    obtain ⟨action, value⟩ := e
    cases action with
    | upsert => exact hkey
    | delete => exact hkey
    | read =>
      obtain ⟨hown, hbase, hseen, hlevel⟩ := hkey
      refine ⟨hown, ?_, hseen, hlevel⟩
      unfold View.base at hbase ⊢
      cases hl : a.isolation with
      | readCommitted => exact absurd hl hlevel
      | repeatableRead => simp [hseen hl]
      | serializable => simpa [hl] using hbase
    | snapshot =>
      obtain ⟨hown, hbase, hlevel⟩ := hkey
      refine ⟨hown, ?_, hlevel⟩
      simpa [View.base, hlevel] using hbase
  | none =>
    rw [hitem] at hkey
    obtain ⟨hown, hbase, hunseen⟩ := hkey
    have hdata : (applyUpdate a.current u)[k]? = s'.store.data[k]? := by rw [h.current, hstore.data]
    cases hl : a.isolation with
    | readCommitted =>
      rw [if_neg (by rw [← hiso, hl]; simp)]
      exact ⟨hown, by simpa [View.base, hl] using hdata, by simp⟩
    | repeatableRead =>
      rw [if_neg (by rw [← hiso, hl]; simp)]
      exact ⟨hown, by simpa [View.base, hl, hunseen hl] using hdata, fun _ => hunseen hl⟩
    | serializable =>
      have hstart : a.start[k]? = s.store.data[k]? := by simpa [View.base, hl] using hbase
      rw [if_pos (by rw [← hiso, hl]), Option.none_or]
      cases hfirst : Transaction.firstChange changes k with
      | none =>
        refine ⟨hown, ?_, by simp⟩
        simpa [View.base, hl, Transaction.data_of_firstChange_none hstore.replays hfirst] using hstart
      | some c =>
        refine ⟨hown, ?_, rfl⟩
        simpa [View.base, hl, Transaction.snapshotOf, Transaction.firstChange_oldValue
          hstore.replays hfirst]
          using hstart

/-- The transaction is open and shows the view. -/
def Represents (s : OpenTx) (a : View) : Prop := s.tx.state = .opened ∧ Shows s a

/-- A step that leaves store and transaction alone keeps the view shown. -/
theorem Shows.unchanged (h : Shows s a) (hstore : s'.store = s.store) (hitems : s'.tx.items = s.tx.items)
    (hiso : s'.tx.isolation = s.tx.isolation) : Shows s' a :=
  ⟨h.isolation.trans hiso.symm, h.current.trans (by rw [hstore]),
    fun k => (h.keys k).congr (by rw [hitems]) rfl (fun _ => rfl) (by rw [hstore]) rfl rfl⟩

/-- One input: its answer is one the view allows, and the view is still shown afterwards. -/
theorem step_simulates {i : TxInput} {o : TxAnswer} (h : Represents s a)
    (hstep : s.step globMatch i = some (s', o)) :
    a.allows globMatch i o ∧ Represents s' (a.next .collected i o) := by
  obtain ⟨hopen, hshows⟩ := h
  have hopen' : s'.tx.state = .opened := by
    rw [step_sameFrame hstep]
    exact hopen
  cases step_effect hstep with
  | commit _ hstore htx _ =>
    exact ⟨trivial, hopen', hshows.commit hopen (Store.update_ok hstore).2 htx⟩
  | read hsame htx =>
    exact ⟨htx.value.trans (hshows.visible _), hopen', hshows.read (by rw [hsame]) htx⟩
  | upsert hsame htx =>
    exact ⟨trivial, hopen', hshows.write (by rw [hsame]) (by rw [htx.frame]) (htx.written rfl)
      (Or.inl ⟨rfl, _, rfl, rfl⟩)⟩
  | @upsertIfChanged k data b hsame htx =>
    have hstore : s'.store = s.store := by rw [hsame]
    refine ⟨?_, hopen', ?_⟩
    · have hflag := htx.flag
      rw [hshows.visible] at hflag
      simpa [View.allows] using hflag
    · cases b with
      | true =>
        exact hshows.write hstore (by rw [htx.frame]) (htx.written rfl) (Or.inl ⟨rfl, _, rfl, rfl⟩)
      | false => exact hshows.kept hstore htx
  | @remove k b hsame htx =>
    have hstore : s'.store = s.store := by rw [hsame]
    refine ⟨?_, hopen', ?_⟩
    · have hflag := htx.flag fun e he => hshows.holdsWrite he
      rwa [hshows.visible] at hflag
    · cases b with
      | true => exact hshows.write hstore (by rw [htx.frame]) (htx.removed rfl) (Or.inr ⟨rfl, rfl⟩)
      | false =>
        exact hshows.unchanged hstore (by rw [htx.unchanged rfl]) (by rw [htx.unchanged rfl])
  | forEach _ _ hsame htx =>
    refine ⟨fun _ => ⟨htx.sorted, fun k v => ?_⟩, hopen', hshows.forEach (by rw [hsame]) htx⟩
    rw [htx.mem_ret, hshows.visible]
  | ensure hsame htx =>
    exact ⟨trivial, hopen', hshows.unchanged (by rw [hsame]) (by rw [htx]) (by rw [htx])⟩
  | empty hsame =>
    exact ⟨by simp [View.allows], hopen',
      hshows.unchanged (by rw [hsame]) (by rw [hsame]) (by rw [hsame])⟩
  | visit _ hsame =>
    exact ⟨trivial, hopen', hshows.unchanged (by rw [hsame]) (by rw [hsame]) (by rw [hsame])⟩
  | stop _ hsame =>
    exact ⟨trivial, hopen', hshows.unchanged (by rw [hsame]) (by rw [hsame]) (by rw [hsame])⟩
  | @thrown i e hsame =>
    refine ⟨by cases i <;> trivial, hopen', ?_⟩
    have hnext : a.next .collected i (.thrown e) = a := by cases i <;> rfl
    rw [hnext]
    exact hshows.unchanged (by rw [hsame]) (by rw [hsame]) (by rw [hsame])

/-- Whatever the order of operations and commits, an open transaction answers as its view says;
an upsert becomes the value of its key, a removal empties it, and an `upsert_if_changed` that
writes nothing leaves the view as it was. -/
theorem follows_view (globMatch : Glob) (store : Store) (isolation : Isolation) (readOnly : Bool)
    (user : Option User) (inputs : List TxInput) :
    Follows (step globMatch) (View.allows globMatch) (View.next .collected)
        (start store isolation readOnly user) (View.create isolation store.data) inputs ∧
      ∀ (a : View) (k : Key) (data : Bytes),
        (a.next .collected (.upsert k data) .done).value k = some ⟨data, none⟩ ∧
        (a.next .collected (.upsertIfChanged k data) (.flag true)).value k = some ⟨data, none⟩ ∧
        (a.next .collected (.upsertIfChanged k data) (.flag false)).value = a.value ∧
        (a.next .collected (.remove k) (.flag true)).value k = none := by
  refine ⟨?_, fun a k data => ⟨View.value_write _ _ _, View.value_write _ _ _,
    View.value_observe _ _, View.value_write _ _ _⟩⟩
  have hsim : ∀ s a i s' o, Represents s a → step globMatch s i = some (s', o) →
      a.allows globMatch i o ∧ Represents s' (a.next .collected i o) :=
    fun _ _ _ _ _ h hstep => step_simulates h hstep
  exact follows_of_simulation hsim _ _ ⟨rfl, shows_start _ _ _ _⟩ inputs

/-- The check of a `read` against the view. -/
def checkRead (a : View) : TxInput → TxAnswer → Bool
  | .read k _, .value v => v = a.value k
  | _, _ => true

/-- A `for_each` that stops at its first key still fixes the value of the second one: after a
commit changes that key, `read` returns the old value. -/
theorem stopped_forEach_observes :
    ¬Follows (step fun _ _ => true) (View.allows fun _ _ => true) (View.next .visited)
      (start (Store.empty.update (.writing 1 [[97], [98]] [1])).1 .repeatableRead false none)
      (View.create .repeatableRead (Store.empty.update (.writing 1 [[97], [98]] [1])).1.data)
      [.forEach [42, 42], .visit, .stop, .commit (.writing 2 [[98]] [2]), .read [98] false] := by
  intro h
  have himp : ∀ a i o, View.allows (fun _ _ => true) a i o → checkRead a i o = true := by
    intro a i o hallows
    cases i <;> cases o <;> simp_all [checkRead, View.allows]
  have hcheck := h.check himp
  revert hcheck
  decide +kernel

end OpenTx

end Nplex
