import Nplex.Store
import Nplex.Common.Replay

/-!
# What an update does to the content

A successful update applies its upserts in order and then its deletes, moves the store to
its revision, and reports an exact change list: replaying it on the old content gives the
new one. The bookkeeping of metadata and users never touches the content.
-/

namespace Nplex

open Nplex.Common

/-- The entry of an exact change list that a reported change stands for. -/
def Change.delta (c : Change) : Delta Key Value := ⟨c.key, c.oldValue, c.newValue⟩

/-- The change reported for an entry of an exact change list. -/
def Change.ofDelta (d : Delta Key Value) : Change :=
  let action :=
    match d.old, d.new with
    | none, _ => .create
    | some _, some _ => .update
    | some _, none => .delete
  ⟨action, d.key, d.new, d.old⟩

/-- A reported change names a valid key, a creation has no old value, and some value is named. -/
def Change.wellFormed (c : Change) : Prop :=
  isValidKey c.key = true ∧ (c.action = .create → c.oldValue = none) ∧
    (c.oldValue = none → c.newValue ≠ none)

/-- The metadata object an update creates. -/
def Update.metadata (u : Update) : Meta := ⟨u.rev, cStr u.user, u.timestamp, u.txType⟩

/-- The update that writes the same data under some keys. -/
def Update.writing (rev : ℕ) (keys : List Key) (data : Bytes) : Update :=
  ⟨rev, [], 0, 0, keys.map fun k => ⟨some k, some data⟩, []⟩

/-- The content after the upserts of an update. -/
def applyUpserts (m : Meta) (kvs : List KeyValue) (data : KeyMap Value) : KeyMap Value :=
  kvs.foldl (fun data kv => data.insert (cStr (kv.key.getD [])) ⟨kv.value.getD [], some m⟩) data

/-- The content after the deletes of an update. -/
def applyDeletes (keys : List (Option Bytes)) (data : KeyMap Value) : KeyMap Value :=
  keys.foldl (fun data key => data.erase (cStr (key.getD []))) data

/-- The content after an update: its upserts in order, then its deletes. -/
def applyUpdate (data : KeyMap Value) (u : Update) : KeyMap Value :=
  applyDeletes u.deletes (applyUpserts u.metadata u.upserts data)

/-- The content that a snapshot brings: that of its updates, applied in order to the empty one. -/
def Snapshot.content (snapshot : Snapshot) : KeyMap Value :=
  snapshot.updates.foldl applyUpdate ∅

/-- The edits of the upserts of an update. -/
def upsertEdits (m : Meta) (kvs : List KeyValue) : List (Edit Key Value) :=
  kvs.map fun kv => ⟨cStr (kv.key.getD []), some ⟨kv.value.getD [], some m⟩⟩

/-- The edits of the deletes of an update. -/
def deleteEdits (keys : List (Option Bytes)) : List (Edit Key Value) :=
  keys.map fun key => ⟨cStr (key.getD []), none⟩

/-- What an update asks for: its upserts in order, then its deletes. -/
def Update.edits (u : Update) : List (Edit Key Value) :=
  upsertEdits u.metadata u.upserts ++ deleteEdits u.deletes

/-- A message whose fields are present and whose keys are valid. -/
def Update.wellFormed (u : Update) : Prop :=
  (∀ kv ∈ u.upserts, ∃ key data, kv = ⟨some key, some data⟩ ∧ isValidKey (cStr key) = true) ∧
    ∀ key ∈ u.deletes, ∃ k, key = some k ∧ isValidKey (cStr k) = true

/-- A reported change stands for its entry. -/
@[simp] theorem Change.delta_ofDelta (d : Delta Key Value) : (Change.ofDelta d).delta = d := rfl

/-- The action of a change says which of its values is missing. -/
def Change.actionFits (c : Change) : Prop :=
  (c.action = .create ↔ c.oldValue = none) ∧
    (c.action = .update ↔ c.oldValue ≠ none ∧ c.newValue ≠ none) ∧
    (c.action = .delete ↔ c.newValue = none)

/-- The change for an entry has the action that fits its values. -/
theorem Change.ofDelta_actionFits {d : Delta Key Value} (hnamed : d.old = none → d.new ≠ none) :
    (Change.ofDelta d).actionFits := by
  obtain ⟨key, old, new⟩ := d
  cases old with
  | none =>
    cases new with
    | none => exact absurd rfl (hnamed rfl)
    | some v => simp [Change.actionFits, Change.ofDelta]
  | some w => cases new <;> simp [Change.actionFits, Change.ofDelta]

/-- The change for an entry about a valid key is well formed. -/
theorem Change.ofDelta_wellFormed {d : Delta Key Value} (hvalid : isValidKey d.key = true)
    (hnamed : d.old = none → d.new ≠ none) : (Change.ofDelta d).wellFormed := by
  refine ⟨hvalid, fun haction => ?_, hnamed⟩
  obtain ⟨key, old, new⟩ := d
  cases old with
  | none => rfl
  | some v => cases new <;> simp [Change.ofDelta] at haction

namespace Store

/-- The content of the store as a partial function. -/
def content (s : Store) : Key → Option Value := fun k => s.data[k]?

/-- `create_meta` is not about the data. -/
@[simp] theorem createMeta_data (s : Store) (u : Update) : (s.createMeta u).1.data = s.data := rfl

/-- Its metadata is that of the update. -/
@[simp] theorem createMeta_snd (s : Store) (u : Update) : (s.createMeta u).2 = u.metadata := rfl

/-- `release_meta` is not about the data. -/
@[simp] theorem releaseMeta_data (s : Store) (m : Meta) : (s.releaseMeta m).data = s.data := by
  simp only [releaseMeta]
  split <;> rfl

/-- Nor is it about the revision. -/
@[simp] theorem releaseMeta_rev (s : Store) (m : Meta) : (s.releaseMeta m).rev = s.rev := by
  simp only [releaseMeta]
  split <;> rfl

/-- Releasing a value is not about the data. -/
@[simp] theorem releaseValue_data (s : Store) (v : Value) : (s.releaseValue v).data = s.data := by
  unfold releaseValue
  split <;> simp

/-- Nor is it about the revision. -/
@[simp] theorem releaseValue_rev (s : Store) (v : Value) : (s.releaseValue v).rev = s.rev := by
  unfold releaseValue
  split <;> simp

/-- Another reference is not about the data. -/
@[simp] theorem retainMeta_data (s : Store) (m : Meta) : (s.retainMeta m).data = s.data := rfl

/-- Nor is it about the revision. -/
@[simp] theorem retainMeta_rev (s : Store) (m : Meta) : (s.retainMeta m).rev = s.rev := rfl

/-- Recording the metadata is not about the data. -/
@[simp] theorem recordMeta_data (s : Store) (m : Meta) : (s.recordMeta m).data = s.data := by
  unfold recordMeta
  split <;> rfl

/-- Nor is it about the revision. -/
@[simp] theorem recordMeta_rev (s : Store) (m : Meta) : (s.recordMeta m).rev = s.rev := by
  unfold recordMeta
  split <;> rfl

/-- Inserting a key into the data updates the content at that key. -/
theorem content_insert (s : Store) (k : Key) (v : Value) (data : KeyMap Value)
    (h : data = s.data.insert k v) :
    (fun k' => data[k']?) = Function.update s.content k (some v) := by
  funext k'
  by_cases hk : k' = k
  · subst hk
    simp [h]
  · simp [h, content, Std.ExtTreeMap.getElem?_insert, Function.update_of_ne hk, Ne.symm hk]

/-- Erasing a key from the data empties the content at that key. -/
theorem content_erase (s : Store) (k : Key) (data : KeyMap Value) (h : data = s.data.erase k) :
    (fun k' => data[k']?) = Function.update s.content k none := by
  funext k'
  by_cases hk : k' = k
  · subst hk
    simp [h]
  · simp [h, content, Std.ExtTreeMap.getElem?_erase, Function.update_of_ne hk, Ne.symm hk]

/-- A successful upsert stores the value under its valid key and reports what it replaced. -/
theorem upsertEntry_ok {s s' : Store} {k d : Bytes} {m : Meta} {c : Change}
    (h : s.upsertEntry k d m = (s', .ok c)) :
    isValidKey k = true ∧ s'.data = s.data.insert k ⟨d, some m⟩ ∧ s'.rev = s.rev ∧
      c = Change.ofDelta ⟨k, s.content k, some ⟨d, some m⟩⟩ := by
  unfold upsertEntry at h
  split at h
  · simp at h
  · next hvalid =>
    have hvalid : isValidKey k = true := by simpa using hvalid
    split at h
    · next old hold =>
      simp only [Prod.mk.injEq, Except.ok.injEq] at h
      obtain ⟨rfl, rfl⟩ := h
      exact ⟨hvalid, by simp, by simp, by simp [Change.ofDelta, content, hold]⟩
    · next hnone =>
      simp only [Prod.mk.injEq, Except.ok.injEq] at h
      obtain ⟨rfl, rfl⟩ := h
      exact ⟨hvalid, by simp, by simp, by simp [Change.ofDelta, content, hnone]⟩

/-- A successful delete erases its valid key, and reports a change only when it was present. -/
theorem deleteEntry_ok {s s' : Store} {k : Bytes} {c : Change}
    (h : s.deleteEntry k = (s', .ok c)) :
    isValidKey k = true ∧ s'.data = s.data.erase k ∧ s'.rev = s.rev ∧
      ((s.content k = none ∧ c.key = []) ∨
        (s.content k ≠ none ∧ c = Change.ofDelta ⟨k, s.content k, none⟩)) := by
  unfold deleteEntry at h
  split at h
  · simp at h
  · next hvalid =>
    have hvalid : isValidKey k = true := by simpa using hvalid
    split at h
    · next hnone =>
      simp only [Prod.mk.injEq, Except.ok.injEq] at h
      obtain ⟨rfl, rfl⟩ := h
      have herase : s.data.erase k = s.data := by
        apply Std.ExtTreeMap.ext_getElem?
        intro k'
        by_cases hk : k = k'
        · subst hk
          simp [hnone]
        · simp [Std.ExtTreeMap.getElem?_erase, hk]
      exact ⟨hvalid, herase.symm, rfl, Or.inl ⟨hnone, rfl⟩⟩
    · next old hold =>
      simp only [Prod.mk.injEq, Except.ok.injEq] at h
      obtain ⟨rfl, rfl⟩ := h
      exact ⟨hvalid, by simp, by simp,
        Or.inr ⟨by simp [content, hold], by simp [Change.ofDelta, content, hold]⟩⟩

/-- A well-formed change is always reported. -/
theorem report_of_wellFormed {changes : List Change} {c : Change} (h : c.wellFormed) :
    report changes c = changes ++ [c] := by
  have hne : c.key ≠ [] := isValidKey_ne_nil h.1
  simp [report, hne]

/-- What a loop of `update_internal` does: it applies its edits and reports their entries. -/
structure Looped (s : Store) (edits : List (Edit Key Value)) (changes : List Change) (s' : Store)
    (all : List Change) : Prop where
  rev : s'.rev = s.rev
  content : s'.content = applyEdits s.content edits
  reported : all = changes ++ (editDeltas s.content edits).map Change.ofDelta
  valid : ∀ e ∈ edits, isValidKey e.key = true

/-- One reported edit before a loop. -/
theorem Looped.cons {s s₁ s' : Store} {edits : List (Edit Key Value)} {changes all : List Change}
    {e : Edit Key Value} (hvalid : isValidKey e.key = true) (hrev : s₁.rev = s.rev)
    (hcontent : s₁.content = Function.update s.content e.key e.value)
    (hpresent : s.content e.key = none → e.value ≠ none)
    (h : Looped s₁ edits (report changes (Change.ofDelta ⟨e.key, s.content e.key, e.value⟩)) s' all) :
    Looped s (e :: edits) changes s' all := by
  have hreported := h.reported
  rw [report_of_wellFormed (Change.ofDelta_wellFormed hvalid hpresent)] at hreported
  refine ⟨h.rev.trans hrev, ?_, ?_, ?_⟩
  · rw [h.content, hcontent]
    rfl
  · rw [hreported, editDeltas_cons_present _ hpresent, hcontent]
    simp
  · intro e' he'
    rcases List.mem_cons.mp he' with rfl | he'
    · exact hvalid
    · exact h.valid e' he'

/-- A delete of an absent key before a loop. -/
theorem Looped.cons_absent {s s₁ s' : Store} {edits : List (Edit Key Value)}
    {changes all : List Change} {c : Change} {k : Key} (hvalid : isValidKey k = true)
    (hrev : s₁.rev = s.rev) (hcontent : s₁.content = Function.update s.content k none)
    (hold : s.content k = none) (hc : c.key = []) (h : Looped s₁ edits (report changes c) s' all) :
    Looped s (⟨k, none⟩ :: edits) changes s' all := by
  have hsame : s₁.content = s.content := by rw [hcontent, update_absent hold]
  refine ⟨h.rev.trans hrev, ?_, ?_, ?_⟩
  · rw [h.content, hcontent]
    rfl
  · rw [h.reported, hsame, editDeltas_cons_absent _ hold rfl]
    simp [report, hc]
  · intro e' he'
    rcases List.mem_cons.mp he' with rfl | he'
    · exact hvalid
    · exact h.valid e' he'

/-- The upsert loop applies its edits. -/
theorem upsertAll_ok {m : Meta} {kvs : List KeyValue} {s s' : Store} {changes all : List Change}
    (h : upsertAll m kvs s changes = (s', .ok all)) :
    s'.data = applyUpserts m kvs s.data ∧ Looped s (upsertEdits m kvs) changes s' all := by
  induction kvs generalizing s changes with
  | nil =>
    simp only [upsertAll, Prod.mk.injEq, Except.ok.injEq] at h
    obtain ⟨rfl, rfl⟩ := h
    exact ⟨rfl, rfl, rfl, by simp [upsertEdits, editDeltas], by simp [upsertEdits]⟩
  | cons kv rest ih =>
    simp only [upsertAll] at h
    split at h
    · next key data hkey hdata =>
      split at h
      · next s₁ c hentry =>
        obtain ⟨hvalid, hd, hrev, rfl⟩ := upsertEntry_ok hentry
        obtain ⟨hdata', hloop⟩ := ih h
        refine ⟨by simp [hdata', hd, applyUpserts, hkey, hdata], ?_⟩
        have hedits : upsertEdits m (kv :: rest) =
            ⟨cStr key, some ⟨data, some m⟩⟩ :: upsertEdits m rest := by
          simp [upsertEdits, hkey, hdata]
        rw [hedits]
        exact Looped.cons hvalid hrev (content_insert s _ _ _ hd) (by simp) hloop
      · simp at h
    · simp at h

/-- The delete loop applies its edits. -/
theorem deleteAll_ok {m : Meta} {keys : List (Option Bytes)} {s s' : Store}
    {changes all : List Change} (h : deleteAll m keys s changes = (s', .ok all)) :
    s'.data = applyDeletes keys s.data ∧ Looped s (deleteEdits keys) changes s' all := by
  induction keys generalizing s changes with
  | nil =>
    simp only [deleteAll, Prod.mk.injEq, Except.ok.injEq] at h
    obtain ⟨rfl, rfl⟩ := h
    exact ⟨rfl, rfl, rfl, by simp [deleteEdits, editDeltas], by simp [deleteEdits]⟩
  | cons key rest ih =>
    simp only [deleteAll] at h
    split at h
    · next _ key =>
      split at h
      · next s₁ c hentry =>
        obtain ⟨hvalid, hd, hrev, hcase⟩ := deleteEntry_ok hentry
        obtain ⟨hdata', hloop⟩ := ih h
        refine ⟨by simp [hdata', hd, applyDeletes], ?_⟩
        have hedits : deleteEdits (some key :: rest) = ⟨cStr key, none⟩ :: deleteEdits rest := by
          simp [deleteEdits]
        rw [hedits]
        rcases hcase with ⟨hold, hc⟩ | ⟨hold, rfl⟩
        · exact Looped.cons_absent hvalid hrev (content_erase s _ _ hd) hold hc hloop
        · exact Looped.cons hvalid hrev (content_erase s _ _ hd) (fun h => absurd h hold) hloop
      · simp at h
    · simp at h

/-- A successful update: what it does to the revision and the content, and that the reported
change list is exact. -/
structure Updated (s : Store) (u : Update) (s' : Store) (changes : List Change) : Prop where
  newer : s.rev < u.rev
  rev : s'.rev = u.rev
  data : s'.data = applyUpdate s.data u
  wellFormed : ∀ c ∈ changes, c.wellFormed
  replays : Replays s.content (changes.map Change.delta) s'.content

/-- A successful update runs its two loops one after the other. -/
theorem update_loops {s s' : Store} {u : Update} {changes : List Change} {m : Meta}
    (h : s.update u = (s', .ok (changes, m))) :
    m = u.metadata ∧ s.rev < u.rev ∧ s'.rev = u.rev ∧ s'.data = applyUpdate s.data u ∧
      s'.content = applyEdits s.content u.edits ∧
      changes = (editDeltas s.content u.edits).map Change.ofDelta ∧
      ∀ e ∈ u.edits, isValidKey e.key = true := by
  unfold update updateInternal at h
  split at h
  · simp at h
  · next hrev =>
    simp only [createMeta_snd] at h
    split at h
    · simp at h
    · next s₁ first hupserts =>
      split at h
      · simp at h
      · next s₂ all hdeletes =>
        simp only [Prod.mk.injEq, Except.ok.injEq] at h
        obtain ⟨rfl, rfl, rfl⟩ := h
        obtain ⟨hdata₁, hloop₁⟩ := upsertAll_ok hupserts
        obtain ⟨hdata₂, hloop₂⟩ := deleteAll_ok hdeletes
        have hstart : ({ (s.createMeta u).1 with rev := u.rev } : Store).content = s.content := rfl
        have hend : (s₂.recordMeta u.metadata).content = s₂.content := by
          funext k
          simp [content]
        have hcontent₁ := hloop₁.content
        have hreported₁ := hloop₁.reported
        rw [hstart] at hcontent₁ hreported₁
        refine ⟨rfl, by omega, ?_, ?_, ?_, ?_, ?_⟩
        · simp [hloop₂.rev, hloop₁.rev]
        · simp [hdata₂, hdata₁, applyUpdate]
        · rw [hend, hloop₂.content, hcontent₁, Update.edits, applyEdits_append]
        · rw [hloop₂.reported, hreported₁, hcontent₁, Update.edits, editDeltas_append]
          simp
        · intro e he
          rcases List.mem_append.mp he with he | he
          · exact hloop₁.valid e he
          · exact hloop₂.valid e he

/-- The entries of edits about valid keys are well-formed changes. -/
theorem editDeltas_wellFormed {f : Key → Option Value} {edits : List (Edit Key Value)}
    (hvalid : ∀ e ∈ edits, isValidKey e.key = true) :
    ∀ c ∈ (editDeltas f edits).map Change.ofDelta, c.wellFormed := by
  intro c hc
  obtain ⟨d, hd, rfl⟩ := List.mem_map.mp hc
  obtain ⟨e, he, hkey⟩ := editDeltas_key hd
  exact Change.ofDelta_wellFormed (hkey ▸ hvalid e he) (editDeltas_named hd)

/-- The specification of `update`. -/
theorem update_ok {s s' : Store} {u : Update} {changes : List Change} {m : Meta}
    (h : s.update u = (s', .ok (changes, m))) :
    m = u.metadata ∧ Updated s u s' changes := by
  obtain ⟨hm, hnewer, hrev, hdata, hcontent, hchanges, hvalid⟩ := update_loops h
  refine ⟨hm, hnewer, hrev, hdata, ?_, ?_⟩
  · rw [hchanges]
    exact editDeltas_wellFormed hvalid
  · have hdeltas : changes.map Change.delta = editDeltas s.content u.edits := by
      rw [hchanges, List.map_map]
      exact List.map_id _
    rw [hdeltas, hcontent]
    exact replays_editDeltas _ _

/-- The loop of `load` applies the updates in order. -/
theorem loadAll_ok {rev : ℕ} {updates : List Update} {s s' : Store}
    (h : loadAll rev updates s = (s', .ok ())) : s'.data = updates.foldl applyUpdate s.data := by
  induction updates generalizing s with
  | nil =>
    simp only [loadAll, Prod.mk.injEq, and_true] at h
    rw [← h, List.foldl_nil]
  | cons u rest ih =>
    simp only [loadAll] at h
    split_ifs at h with hnewer
    · simp at h
    · cases hupdate : s.updateInternal u with
      | mk s₁ result =>
        cases result with
        | error e => simp [hupdate] at h
        | ok reported =>
          simp only [hupdate] at h
          have hupdated : Updated s u s₁ reported.1 := (update_ok hupdate).2
          rw [ih h, List.foldl_cons, hupdated.data]

/-- A snapshot that loads leaves the store with its content and at its revision. -/
theorem load_ok {snapshot : Snapshot} {s : Store} (h : load (some snapshot) = (s, .ok ())) :
    s.data = snapshot.content ∧ s.rev = snapshot.rev := by
  simp only [load] at h
  cases hload : loadAll snapshot.rev snapshot.updates Store.empty with
  | mk s₁ result =>
    cases result with
    | error e => simp [hload] at h
    | ok =>
      simp only [hload, Prod.mk.injEq, and_true] at h
      subst h
      exact ⟨loadAll_ok hload, rfl⟩

/-- The upsert loop succeeds on present fields and valid keys. -/
theorem upsertAll_succeeds {m : Meta} {kvs : List KeyValue}
    (h : ∀ kv ∈ kvs, ∃ key data, kv = ⟨some key, some data⟩ ∧ isValidKey (cStr key) = true)
    (s : Store) (changes : List Change) : ∃ s' all, upsertAll m kvs s changes = (s', .ok all) := by
  induction kvs generalizing s changes with
  | nil => exact ⟨_, _, rfl⟩
  | cons kv rest ih =>
    obtain ⟨key, data, rfl, hvalid⟩ := h kv List.mem_cons_self
    have hentry : ∃ s₁ c, s.upsertEntry (cStr key) data m = (s₁, .ok c) := by
      unfold upsertEntry
      simp only [hvalid, Bool.not_true, Bool.false_eq_true, if_false]
      split <;> exact ⟨_, _, rfl⟩
    obtain ⟨s₁, c, hentry⟩ := hentry
    simp only [upsertAll, hentry]
    exact ih (fun kv hkv => h kv (List.mem_cons_of_mem _ hkv)) _ _

/-- The delete loop succeeds on present fields and valid keys. -/
theorem deleteAll_succeeds {m : Meta} {keys : List (Option Bytes)}
    (h : ∀ key ∈ keys, ∃ k, key = some k ∧ isValidKey (cStr k) = true)
    (s : Store) (changes : List Change) : ∃ s' all, deleteAll m keys s changes = (s', .ok all) := by
  induction keys generalizing s changes with
  | nil => exact ⟨_, _, rfl⟩
  | cons key rest ih =>
    obtain ⟨k, rfl, hvalid⟩ := h key List.mem_cons_self
    have hentry : ∃ s₁ c, s.deleteEntry (cStr k) = (s₁, .ok c) := by
      unfold deleteEntry
      simp only [hvalid, Bool.not_true, Bool.false_eq_true, if_false]
      split <;> exact ⟨_, _, rfl⟩
    obtain ⟨s₁, c, hentry⟩ := hentry
    simp only [deleteAll, hentry]
    exact ih (fun key hkey => h key (List.mem_cons_of_mem _ hkey)) _ _

/-- A well-formed update above the store's revision succeeds. -/
theorem update_succeeds {s : Store} {u : Update} (hrev : s.rev < u.rev) (hwf : u.wellFormed) :
    ∃ s' changes, s.update u = (s', .ok (changes, u.metadata)) := by
  unfold update updateInternal
  have hnew : ¬u.rev ≤ s.rev := by omega
  rw [if_neg hnew]
  obtain ⟨s₁, first, hfirst⟩ := upsertAll_succeeds (m := u.metadata) hwf.1
    { (s.createMeta u).1 with rev := u.rev } []
  obtain ⟨s₂, all, hall⟩ := deleteAll_succeeds (m := u.metadata) hwf.2 s₁ first
  refine ⟨s₂.recordMeta u.metadata, all, ?_⟩
  simp only [createMeta_snd]
  rw [hfirst]
  simp only [hall]

/-- An update above the store's revision applies its upserts in order and then its deletes,
leaves every other key alone, and reports an exact change list: one entry for each upsert and
for each delete of a present key, which replayed on the old content give the new one. -/
theorem update_is_exact_diff (s : Store) (u : Update) (hrev : s.rev < u.rev) (hwf : u.wellFormed) :
    ∃ s' changes, s.update u = (s', .ok (changes, u.metadata)) ∧ s'.rev = u.rev ∧
      s'.content = applyEdits s.content u.edits ∧
      (∀ k, (∀ e ∈ u.edits, e.key ≠ k) → s'.content k = s.content k) ∧
      changes.map Change.delta = editDeltas s.content u.edits ∧
      Replays s.content (changes.map Change.delta) s'.content ∧ ∀ c ∈ changes, c.actionFits := by
  obtain ⟨s', changes, hupdate⟩ := update_succeeds hrev hwf
  obtain ⟨-, -, hrev', -, hcontent, hchanges, -⟩ := update_loops hupdate
  have hdeltas : changes.map Change.delta = editDeltas s.content u.edits := by
    rw [hchanges, List.map_map]
    exact List.map_id _
  refine ⟨s', changes, hupdate, hrev', hcontent, fun k hk => ?_, hdeltas, ?_, fun c hc => ?_⟩
  · rw [hcontent, applyEdits_of_not_named hk]
  · rw [hdeltas, hcontent]
    exact replays_editDeltas _ _
  · rw [hchanges] at hc
    obtain ⟨d, hd, rfl⟩ := List.mem_map.mp hc
    exact Change.ofDelta_actionFits (editDeltas_named hd)

/-- An update that writes a key twice, overwrites a stored key and deletes it again. -/
theorem update_is_exact_diff_repeated :
    ∃ s' changes,
      (Store.empty.update (.writing 1 [[97]] [1])).1.update
          { Update.writing 2 [[98], [98], [97]] [2] with deletes := [some [97], some [99]] } =
        (s', .ok (changes, ⟨2, [], 0, 0⟩)) ∧ changes.map Change.action =
          [.create, .update, .update, .delete] := by
  have hwf : ({ Update.writing 2 [[98], [98], [97]] [2] with
      deletes := [some [97], some [99]] } : Update).wellFormed := by
    constructor
    · intro kv hkv
      obtain ⟨k, hk, rfl⟩ := List.mem_map.mp hkv
      refine ⟨k, [2], rfl, ?_⟩
      revert k
      decide +kernel
    · intro key hkey
      simp only [List.mem_cons, List.not_mem_nil, or_false] at hkey
      rcases hkey with rfl | rfl
      · exact ⟨[97], rfl, by decide +kernel⟩
      · exact ⟨[99], rfl, by decide +kernel⟩
  obtain ⟨s', changes, hupdate, -, -, -, hdeltas, -, -⟩ :=
    update_is_exact_diff (Store.empty.update (.writing 1 [[97]] [1])).1 _ (by decide +kernel) hwf
  refine ⟨s', changes, hupdate, ?_⟩
  have hexec : (match (Store.empty.update (.writing 1 [[97]] [1])).1.update
      { Update.writing 2 [[98], [98], [97]] [2] with deletes := [some [97], some [99]] } with
    | (_, .ok (changes, _)) => changes.map Change.action
    | (_, .error _) => []) = [.create, .update, .update, .delete] := by
    decide +kernel
  rw [hupdate] at hexec
  exact hexec

end Store

end Nplex
