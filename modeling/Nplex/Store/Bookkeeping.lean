import Nplex.Store.Update
import Nplex.Common.Transition

/-!
# The reference counts of the metadata objects

Every value carries the metadata object of the update that wrote it, and the counter of that
object is the number of keys whose values share it. While an update is applied its own object
is not in the map of metadata objects yet, and a repeated key makes its counter fall and rise
again; the invariant of the loops names this object, and holds without it between the calls.
-/

namespace Nplex

open Nplex.Common

namespace Store

/-- The keys whose values were written by the update of a revision. -/
def writtenAt (data : KeyMap Value) (rev : ℕ) : Finset Key :=
  data.keys.toFinset.filter fun k => ((data[k]?).bind Value.metadata).map Meta.rev = some rev

/-- The keys whose values share a metadata object. -/
def sharing (data : KeyMap Value) (m : Meta) : Finset Key :=
  data.keys.toFinset.filter fun k => (data[k]?).bind Value.metadata = some m

/-- The stored value of a key names the update that wrote it. -/
theorem mem_writtenAt {data : KeyMap Value} {rev : ℕ} {k : Key} :
    k ∈ writtenAt data rev ↔
      ∃ v m, data[k]? = some v ∧ v.metadata = some m ∧ m.rev = rev := by
  rw [writtenAt, Finset.mem_filter, List.mem_toFinset, Std.ExtTreeMap.mem_keys, mem_keyMap]
  constructor
  · rintro ⟨⟨v, hv⟩, hrev⟩
    rw [hv, Option.bind_some, Option.map_eq_some_iff] at hrev
    obtain ⟨m, hm, hrev⟩ := hrev
    exact ⟨v, m, hv, hm, hrev⟩
  · rintro ⟨v, m, hv, hm, hrev⟩
    exact ⟨⟨v, hv⟩, by simp [hv, hm, hrev]⟩

/-- The stored value of a key carries the metadata object. -/
theorem mem_sharing {data : KeyMap Value} {m : Meta} {k : Key} :
    k ∈ sharing data m ↔ ∃ v, data[k]? = some v ∧ v.metadata = some m := by
  rw [sharing, Finset.mem_filter, List.mem_toFinset, Std.ExtTreeMap.mem_keys, mem_keyMap]
  constructor
  · rintro ⟨⟨v, hv⟩, hm⟩
    exact ⟨v, hv, by simpa [hv] using hm⟩
  · rintro ⟨v, hv, hm⟩
    exact ⟨⟨v, hv⟩, by simp [hv, hm]⟩

/-- There are at most as many of them as keys. -/
theorem card_writtenAt_le (data : KeyMap Value) (rev : ℕ) : (writtenAt data rev).card ≤ data.size := by
  refine (Finset.card_filter_le _ _).trans ((List.toFinset_card_le _).trans ?_)
  rw [Std.ExtTreeMap.length_keys]

/-- Erasing a key takes it out. -/
theorem writtenAt_erase (data : KeyMap Value) (k : Key) (rev : ℕ) :
    writtenAt (data.erase k) rev = (writtenAt data rev).erase k := by
  ext k'
  rw [Finset.mem_erase, mem_writtenAt, mem_writtenAt]
  by_cases hk : k = k'
  · subst hk
    simp
  · simp [lookup_erase, hk, Ne.symm hk]

/-- Inserting an absent key adds it to those of its revision. -/
theorem writtenAt_insert {data : KeyMap Value} {k : Key} (hk : data[k]? = none) (d : Bytes) (m : Meta)
    (rev : ℕ) :
    writtenAt (data.insert k ⟨d, some m⟩) rev =
      if m.rev = rev then insert k (writtenAt data rev) else writtenAt data rev := by
  have habsent : k ∉ writtenAt data rev := by
    rw [mem_writtenAt]
    rintro ⟨v, _, hv, -⟩
    rw [hk] at hv
    cases hv
  ext k'
  by_cases hkey : k = k'
  · subst hkey
    by_cases hrev : m.rev = rev
    · simp [hrev, mem_writtenAt]
    · simp [hrev, habsent, mem_writtenAt]
  · have hsame : k' ∈ writtenAt (data.insert k ⟨d, some m⟩) rev ↔ k' ∈ writtenAt data rev := by
      rw [mem_writtenAt, mem_writtenAt, lookup_insert, if_neg hkey]
    rw [hsame]
    split_ifs
    · simp [Ne.symm hkey]
    · rfl

/-- The invariant while the update of a metadata object is applied; without one, between the
calls. -/
structure Counting (current : Option Meta) (s : Store) : Prop where
  /-- A stored value carries the current object or one in the map. -/
  carried : ∀ (k : Key) (v : Value), s.data[k]? = some v →
    ∃ m, v.metadata = some m ∧ (current = some m ∨ s.metas[m.rev]? = some m)
  /-- The counters count the keys. -/
  counted : ∀ rev, s.nrefs.getD rev 0 = (writtenAt s.data rev).card
  /-- The objects in the map are in use, and older than the current one. -/
  recorded : ∀ (rev : ℕ) (m : Meta), s.metas[rev]? = some m →
    m.rev = rev ∧ (writtenAt s.data rev).Nonempty ∧ rev ≤ s.rev ∧
      ∀ c : Meta, current = some c → rev < c.rev
  /-- The current object is that of the store's revision. -/
  newest : ∀ c : Meta, current = some c → c.rev = s.rev

/-- A new store counts right. -/
theorem counting_empty : Counting none Store.empty := by
  refine ⟨fun k v h => ?_, fun rev => ?_, fun rev m h => ?_, fun c h => ?_⟩
  · simp [Store.empty] at h
  · have hnone : writtenAt Store.empty.data rev = ∅ := by
      apply Finset.eq_empty_of_forall_notMem
      intro k hk
      obtain ⟨v, _, hv, -⟩ := mem_writtenAt.mp hk
      simp [Store.empty] at hv
    rw [hnone]
    simp [Store.empty]
  · simp [Store.empty] at h
  · cases h

/-- `release_meta` drops one reference. -/
@[simp] theorem releaseMeta_nrefs (s : Store) (m : Meta) :
    (s.releaseMeta m).nrefs = s.nrefs.insert m.rev (s.nrefs.getD m.rev 0 - 1) := by
  simp only [releaseMeta]
  split <;> rfl

/-- The last reference takes the object out of the map. -/
theorem releaseMeta_metas (s : Store) (m : Meta) :
    (s.releaseMeta m).metas =
      if s.nrefs.getD m.rev 0 - 1 = 0 then s.metas.erase m.rev else s.metas := by
  simp only [releaseMeta]
  split <;> rfl

variable {s s' : Store} {current : Option Meta} {m : Meta} {k : Key}

/-- No stored value is newer than the store. -/
theorem Counting.writtenAt_newer {rev : ℕ} (h : Counting none s) (hrev : s.rev < rev) :
    writtenAt s.data rev = ∅ := by
  apply Finset.eq_empty_of_forall_notMem
  intro k hk
  obtain ⟨v, m, hv, hm, hmrev⟩ := mem_writtenAt.mp hk
  obtain ⟨m', hm', hcase⟩ := h.carried k v hv
  obtain rfl : m = m' := Option.some.inj (hm.symm.trans hm')
  rcases hcase with hcase | hcase
  · cases hcase
  · have hold := (h.recorded _ _ hcase).2.2.1
    omega

/-- The counting starts with a new object that nothing refers to. -/
theorem Counting.create {u : Update} (h : Counting none s) (hrev : s.rev < u.rev) :
    Counting (some u.metadata) { (s.createMeta u).1 with rev := u.rev } := by
  have hdata : (s.createMeta u).1.data = s.data := rfl
  have hmetas : (s.createMeta u).1.metas = s.metas := rfl
  have hnrefs : (s.createMeta u).1.nrefs = s.nrefs.insert u.rev 0 := rfl
  have hnew := h.writtenAt_newer hrev
  refine ⟨fun k v hv => ?_, fun rev => ?_, fun rev m hmeta => ?_, fun c hc => ?_⟩
  · obtain ⟨m, hm, hcase⟩ := h.carried k v (by simpa [hdata] using hv)
    rcases hcase with hcase | hcase
    · cases hcase
    · exact ⟨m, hm, Or.inr (by simpa [hmetas] using hcase)⟩
  · dsimp only
    rw [hnrefs, hdata, Std.ExtTreeMap.getD_insert]
    by_cases hsame : u.rev = rev
    · subst hsame
      simp [hnew]
    · simpa [hsame] using h.counted rev
  · obtain ⟨hmrev, huse, hle, -⟩ := h.recorded rev m (by simpa [hmetas] using hmeta)
    refine ⟨hmrev, by simpa [hdata] using huse, by dsimp only; omega, fun c hc => ?_⟩
    obtain rfl : u.metadata = c := Option.some.inj hc
    have hcrev : u.metadata.rev = u.rev := rfl
    omega
  · obtain rfl : u.metadata = c := Option.some.inj hc
    rfl

/-- Taking a stored value out releases its reference. -/
theorem Counting.release {old : Value} (h : Counting current s) (hold : s.data[k]? = some old) :
    Counting current { s.releaseValue old with data := s.data.erase k } := by
  obtain ⟨m, hm, -⟩ := h.carried k old hold
  have hrelease : s.releaseValue old = s.releaseMeta m := by simp [releaseValue, hm]
  have hmem : k ∈ writtenAt s.data m.rev := mem_writtenAt.mpr ⟨old, m, hold, hm, rfl⟩
  have hother : ∀ rev, m.rev ≠ rev → k ∉ writtenAt s.data rev := by
    intro rev hne hk
    obtain ⟨v, m', hv, hm', hrev⟩ := mem_writtenAt.mp hk
    obtain rfl : old = v := Option.some.inj (hold.symm.trans hv)
    obtain rfl : m = m' := Option.some.inj (hm.symm.trans hm')
    exact hne hrev
  have hleft : s.nrefs.getD m.rev 0 - 1 = ((writtenAt s.data m.rev).erase k).card := by
    rw [h.counted, Finset.card_erase_of_mem hmem]
  -- an entry of the map is left where some key still refers to it
  have hmetas : ∀ (rev : ℕ) (m' : Meta), (s.releaseMeta m).metas[rev]? = some m' ↔
      s.metas[rev]? = some m' ∧ (m.rev = rev → ((writtenAt s.data m.rev).erase k).Nonempty) := by
    intro rev m'
    rw [releaseMeta_metas, hleft]
    split_ifs with hcard
    · have hempty := Finset.card_eq_zero.mp hcard
      rw [Std.ExtTreeMap.getElem?_erase]
      by_cases hsame : m.rev = rev
      · subst hsame
        simp [hempty]
      · simp [hsame]
    · simp [Finset.card_ne_zero.mp hcard]
  rw [hrelease]
  refine ⟨fun k' v hv => ?_, fun rev => ?_, fun rev m' hmeta => ?_, fun c hc => ?_⟩
  · dsimp only at hv ⊢
    rw [lookup_erase] at hv
    split_ifs at hv with hkey
    obtain ⟨m', hm', hcase⟩ := h.carried k' v hv
    refine ⟨m', hm', hcase.imp_right fun hmeta => (hmetas _ _).mpr ⟨hmeta, fun hrev => ?_⟩⟩
    exact ⟨k', Finset.mem_erase.mpr
      ⟨Ne.symm hkey, mem_writtenAt.mpr ⟨v, m', hv, hm', hrev.symm⟩⟩⟩
  · dsimp only
    rw [releaseMeta_nrefs, Std.ExtTreeMap.getD_insert, writtenAt_erase, hleft]
    by_cases hsame : m.rev = rev
    · subst hsame
      simp
    · rw [Finset.erase_eq_of_notMem (hother rev hsame)]
      simpa [hsame] using h.counted rev
  · obtain ⟨hmeta, huse⟩ := (hmetas _ _).mp hmeta
    obtain ⟨hmrev, hnonempty, hle, hnewer⟩ := h.recorded rev m' hmeta
    refine ⟨hmrev, ?_, by simpa using hle, hnewer⟩
    dsimp only
    rw [writtenAt_erase]
    by_cases hsame : m.rev = rev
    · exact hsame ▸ huse hsame
    · rwa [Finset.erase_eq_of_notMem (hother rev hsame)]
  · simpa using h.newest c hc

/-- Storing a value of the current object under an absent key adds a reference. -/
theorem Counting.retain {d : Bytes} (h : Counting (some m) s) (hk : s.data[k]? = none)
    (hfits : (s.data.insert k ⟨d, some m⟩).size < 2 ^ 32) :
    Counting (some m) ({ s with data := s.data.insert k ⟨d, some m⟩ }.retainMeta m) := by
  have hcard : (insert k (writtenAt s.data m.rev)).card < 2 ^ 32 := by
    have hle := card_writtenAt_le (s.data.insert k ⟨d, some m⟩) m.rev
    rw [writtenAt_insert hk, if_pos rfl] at hle
    omega
  have habsent : k ∉ writtenAt s.data m.rev := by
    rw [mem_writtenAt]
    rintro ⟨v, _, hv, -⟩
    rw [hk] at hv
    cases hv
  refine ⟨fun k' v hv => ?_, fun rev => ?_, fun rev m' hmeta => ?_, fun c hc => h.newest c hc⟩
  · rw [retainMeta_data, lookup_insert] at hv
    split_ifs at hv with hkey
    · obtain rfl := Option.some.inj hv
      exact ⟨m, rfl, Or.inl rfl⟩
    · exact h.carried k' v hv
  · have hnrefs : ({ s with data := s.data.insert k ⟨d, some m⟩ }.retainMeta m).nrefs =
        s.nrefs.insert m.rev ((s.nrefs.getD m.rev 0 + 1) % 2 ^ 32) := rfl
    rw [hnrefs, retainMeta_data, Std.ExtTreeMap.getD_insert, writtenAt_insert hk, h.counted m.rev,
      ← Finset.card_insert_of_notMem habsent, Nat.mod_eq_of_lt hcard]
    by_cases hsame : m.rev = rev
    · subst hsame
      simp
    · simpa [hsame] using h.counted rev
  · obtain ⟨hmrev, huse, hle, hnewer⟩ := h.recorded rev m' hmeta
    have hne : m.rev ≠ rev := (hnewer m rfl).ne'
    refine ⟨hmrev, ?_, hle, hnewer⟩
    rw [retainMeta_data, writtenAt_insert hk, if_neg hne]
    exact huse

/-- At the end of an update its object is recorded when some value still refers to it. -/
theorem Counting.record (h : Counting (some m) s) : Counting none (s.recordMeta m) := by
  have hm : m.rev = s.rev := h.newest m rfl
  have hmetas : ∀ (rev : ℕ) (m' : Meta), (s.recordMeta m).metas[rev]? = some m' ↔
      (m.rev = rev ∧ m = m' ∧ (writtenAt s.data m.rev).Nonempty) ∨ s.metas[rev]? = some m' := by
    intro rev m'
    unfold recordMeta
    rw [h.counted]
    split_ifs with hcard
    · simp [Finset.card_eq_zero.mp hcard]
    · dsimp only
      rw [Std.ExtTreeMap.getElem?_insert]
      by_cases hsame : m.rev = rev
      · subst hsame
        have hnone : ∀ m', s.metas[m.rev]? ≠ some m' := fun m' hmeta =>
          lt_irrefl _ ((h.recorded _ _ hmeta).2.2.2 m rfl)
        simp [Finset.card_ne_zero.mp hcard, hnone]
      · simp [hsame]
  have hnrefs : (s.recordMeta m).nrefs = s.nrefs := by
    unfold recordMeta
    split_ifs <;> rfl
  refine ⟨fun k v hv => ?_, fun rev => ?_, fun rev m' hmeta => ?_, fun c hc => ?_⟩
  · rw [recordMeta_data] at hv
    obtain ⟨m', hm', hcase⟩ := h.carried k v hv
    refine ⟨m', hm', Or.inr ((hmetas _ _).mpr ?_)⟩
    rcases hcase with hcase | hcase
    · obtain rfl := Option.some.inj hcase
      exact Or.inl ⟨rfl, rfl, k, mem_writtenAt.mpr ⟨v, m, hv, hm', rfl⟩⟩
    · exact Or.inr hcase
  · rw [hnrefs, recordMeta_data]
    exact h.counted rev
  · rw [recordMeta_data, recordMeta_rev]
    rcases (hmetas _ _).mp hmeta with ⟨rfl, rfl, huse⟩ | hmeta
    · exact ⟨rfl, huse, hm.le, by simp⟩
    · obtain ⟨hmrev, huse, hle, -⟩ := h.recorded rev m' hmeta
      exact ⟨hmrev, huse, hle, by simp⟩
  · cases hc

/-- Inserting over a key is erasing it first. -/
theorem insert_erase (data : KeyMap Value) (k : Key) (v : Value) :
    (data.erase k).insert k v = data.insert k v := by
  apply Std.ExtTreeMap.ext_getElem?
  intro k'
  rw [lookup_insert, lookup_insert, lookup_erase]
  split_ifs <;> rfl

/-- A successful upsert keeps the count. -/
theorem Counting.upsertEntry {d : Bytes} {c : Change} (h : Counting (some m) s)
    (hfits : (s.data.insert k ⟨d, some m⟩).size < 2 ^ 32)
    (hentry : s.upsertEntry k d m = (s', .ok c)) : Counting (some m) s' := by
  unfold Store.upsertEntry at hentry
  split at hentry
  · simp at hentry
  · split at hentry
    · next old hold =>
      simp only [Prod.mk.injEq, Except.ok.injEq] at hentry
      obtain ⟨rfl, -⟩ := hentry
      have hrelease := h.release hold
      have hretain := hrelease.retain (d := d) (k := k) (by simp)
        (by simpa [insert_erase] using hfits)
      simpa [insert_erase] using hretain
    · next hnone =>
      simp only [Prod.mk.injEq, Except.ok.injEq] at hentry
      obtain ⟨rfl, -⟩ := hentry
      exact h.retain hnone hfits

/-- A successful delete keeps the count. -/
theorem Counting.deleteEntry {c : Change} (h : Counting current s)
    (hentry : s.deleteEntry k = (s', .ok c)) : Counting current s' := by
  unfold Store.deleteEntry at hentry
  split at hentry
  · simp at hentry
  · split at hentry
    · simp only [Prod.mk.injEq, Except.ok.injEq] at hentry
      obtain ⟨rfl, -⟩ := hentry
      exact h
    · next old hold =>
      simp only [Prod.mk.injEq, Except.ok.injEq] at hentry
      obtain ⟨rfl, -⟩ := hentry
      rw [releaseValue_data]
      exact h.release hold

/-- Upserts never lower the number of keys. -/
theorem size_le_applyUpserts (m : Meta) (kvs : List KeyValue) (data : KeyMap Value) :
    data.size ≤ (applyUpserts m kvs data).size := by
  induction kvs generalizing data with
  | nil => exact le_rfl
  | cons kv rest ih =>
    exact (Std.ExtTreeMap.size_le_size_insert).trans (ih (data.insert _ _))

/-- The upsert loop keeps the count. -/
theorem Counting.upsertAll {kvs : List KeyValue} {changes all : List Change}
    (h : Counting (some m) s) (hfits : (applyUpserts m kvs s.data).size < 2 ^ 32)
    (hloop : Store.upsertAll m kvs s changes = (s', .ok all)) : Counting (some m) s' := by
  induction kvs generalizing s changes with
  | nil =>
    simp only [Store.upsertAll, Prod.mk.injEq, Except.ok.injEq] at hloop
    obtain ⟨rfl, -⟩ := hloop
    exact h
  | cons kv rest ih =>
    simp only [Store.upsertAll] at hloop
    split at hloop
    · next key data hkey hdata =>
      split at hloop
      · next s₁ c hentry =>
        have happly : applyUpserts m (kv :: rest) s.data =
            applyUpserts m rest (s.data.insert (cStr key) ⟨data, some m⟩) := by
          simp [applyUpserts, hkey, hdata]
        rw [happly] at hfits
        have hdata₁ : s₁.data = s.data.insert (cStr key) ⟨data, some m⟩ :=
          (upsertEntry_ok hentry).2.1
        have hle := size_le_applyUpserts m rest (s.data.insert (cStr key) ⟨data, some m⟩)
        exact ih (h.upsertEntry (by omega) hentry) (by rwa [hdata₁]) hloop
      · simp at hloop
    · simp at hloop

/-- The delete loop keeps the count. -/
theorem Counting.deleteAll {m' : Meta} {keys : List (Option Bytes)} {changes all : List Change}
    (h : Counting current s) (hloop : Store.deleteAll m' keys s changes = (s', .ok all)) :
    Counting current s' := by
  induction keys generalizing s changes with
  | nil =>
    simp only [Store.deleteAll, Prod.mk.injEq, Except.ok.injEq] at hloop
    obtain ⟨rfl, -⟩ := hloop
    exact h
  | cons key rest ih =>
    simp only [Store.deleteAll] at hloop
    split at hloop
    · split at hloop
      · next s₁ c hentry => exact ih (h.deleteEntry hentry) hloop
      · simp at hloop
    · simp at hloop

/-- A successful update keeps the count. -/
theorem Counting.updateInternal {u : Update} {r : List Change × Meta} (h : Counting none s)
    (hfits : (applyUpserts u.metadata u.upserts s.data).size < 2 ^ 32)
    (hupdate : s.updateInternal u = (s', .ok r)) : Counting none s' := by
  unfold Store.updateInternal at hupdate
  split at hupdate
  · simp at hupdate
  · next hrev =>
    simp only [createMeta_snd] at hupdate
    split at hupdate
    · simp at hupdate
    · next s₁ first hupserts =>
      split at hupdate
      · simp at hupdate
      · next s₂ all hdeletes =>
        simp only [Prod.mk.injEq, Except.ok.injEq] at hupdate
        obtain ⟨rfl, -⟩ := hupdate
        have hcreate := h.create (u := u) (by omega)
        exact ((hcreate.upsertAll (by simpa using hfits) hupserts).deleteAll hdeletes).record

/-- The updates never make the store hold `2 ^ 32` keys. -/
def fits : List Update → KeyMap Value → Bool
  | [], _ => true
  | u :: rest, data =>
    (applyUpserts u.metadata u.upserts data).size < 2 ^ 32 && fits rest (applyUpdate data u)

/-- The loop of `load` keeps the count, and the store within the revision of the snapshot. -/
theorem Counting.loadAll {rev : ℕ} {updates : List Update} (h : Counting none s)
    (hle : s.rev ≤ rev) (hfits : fits updates s.data = true)
    (hload : Store.loadAll rev updates s = (s', .ok ())) : Counting none s' ∧ s'.rev ≤ rev := by
  induction updates generalizing s with
  | nil =>
    simp only [Store.loadAll, Prod.mk.injEq, and_true] at hload
    subst hload
    exact ⟨h, hle⟩
  | cons u rest ih =>
    simp only [Store.loadAll] at hload
    split_ifs at hload with hnewer
    · simp at hload
    · cases hupdate : s.updateInternal u with
      | mk s₁ result =>
        cases result with
        | error e => simp [hupdate] at hload
        | ok r =>
          simp only [hupdate] at hload
          simp only [fits, Bool.and_eq_true, decide_eq_true_eq] at hfits
          have hupdate' : s.update u = (s₁, .ok (r.1, r.2)) := hupdate
          obtain ⟨-, -, hrev₁, hdata₁, -⟩ := update_loops hupdate'
          exact ih (h.updateInternal hfits.1 hupdate) (by omega) (by rw [hdata₁]; exact hfits.2)
            hload

/-- The calls that change a store. -/
inductive Call
  | load (snapshot : Option Snapshot)
  | update (u : Update)

/-- The store after a call, unless it throws. -/
def call (s : Store) : Call → Option Store
  | .load snapshot =>
    match Store.load snapshot with
    | (s, .ok ()) => some s
    | (_, .error _) => none
  | .update u =>
    match s.update u with
    | (s, .ok _) => some s
    | (_, .error _) => none

/-- The call keeps the number of keys below `2 ^ 32` all along. -/
def callFits (s : Store) : Call → Bool
  | .load none => true
  | .load (some snapshot) => fits snapshot.updates ∅
  | .update u => fits [u] s.data

/-- A successful call keeps the count. -/
theorem Counting.call {c : Call} (h : Counting none s) (hfits : callFits s c = true)
    (hcall : s.call c = some s') : Counting none s' := by
  cases c with
  | update u =>
    simp only [Store.call] at hcall
    cases hupdate : s.update u with
    | mk s₁ result =>
      cases result with
      | error e => simp [hupdate] at hcall
      | ok r =>
        simp only [hupdate, Option.some.injEq] at hcall
        subst hcall
        simp only [callFits, fits, Bool.and_true, decide_eq_true_eq] at hfits
        exact h.updateInternal hfits hupdate
  | load snapshot =>
    simp only [Store.call] at hcall
    cases snapshot with
    | none =>
      simp only [Store.load, Option.some.injEq] at hcall
      subst hcall
      exact counting_empty
    | some snapshot =>
      cases hload : Store.loadAll snapshot.rev snapshot.updates Store.empty with
      | mk s₁ result =>
        cases result with
        | error e => simp [Store.load, hload] at hcall
        | ok r =>
          simp only [Store.load, hload, Option.some.injEq] at hcall
          subst hcall
          obtain ⟨hcount, hle⟩ := counting_empty.loadAll (Nat.zero_le _) hfits hload
          refine ⟨hcount.carried, hcount.counted, fun rev m hmeta => ?_, by simp⟩
          obtain ⟨hmrev, huse, hmle, hnewer⟩ := hcount.recorded rev m hmeta
          exact ⟨hmrev, huse, hmle.trans hle, hnewer⟩

/-- What holds of the metadata objects between the calls. -/
structure Counted (s : Store) : Prop where
  /-- Every value carries an object whose counter is the number of keys that share it. -/
  shared : ∀ (k : Key) (v : Value), s.data[k]? = some v →
    ∃ m, v.metadata = some m ∧ s.nrefs.getD m.rev 0 = (sharing s.data m).card
  /-- The map sends the revisions of the objects in use to these objects. -/
  metas : ∀ (rev : ℕ) (m : Meta), s.metas[rev]? = some m ↔ m.rev = rev ∧ (sharing s.data m).Nonempty
  /-- It has the revisions with a positive counter. -/
  positive : ∀ rev, rev ∈ s.metas ↔ 0 < s.nrefs.getD rev 0
  /-- None is newer than the store. -/
  bounded : ∀ rev ∈ s.metas, rev ≤ s.rev

/-- Between the calls an object is told by its revision. -/
theorem Counting.sharing_eq (h : Counting none s) (hm : s.metas[m.rev]? = some m) :
    sharing s.data m = writtenAt s.data m.rev := by
  ext k
  rw [mem_sharing, mem_writtenAt]
  constructor
  · rintro ⟨v, hv, hvm⟩
    exact ⟨v, m, hv, hvm, rfl⟩
  · rintro ⟨v, m', hv, hvm, hrev⟩
    obtain ⟨m'', hm'', hcase⟩ := h.carried k v hv
    obtain rfl : m' = m'' := Option.some.inj (hvm.symm.trans hm'')
    rcases hcase with hcase | hcase
    · cases hcase
    · rw [hrev, hm, Option.some.injEq] at hcase
      subst hcase
      exact ⟨v, hv, hvm⟩

/-- The invariant gives the counts by object. -/
theorem Counting.counts (h : Counting none s) : Counted s := by
  have hcarried : ∀ (k : Key) (v : Value), s.data[k]? = some v →
      ∃ m, v.metadata = some m ∧ s.metas[m.rev]? = some m := by
    intro k v hv
    obtain ⟨m, hm, hcase⟩ := h.carried k v hv
    exact ⟨m, hm, hcase.resolve_left (by simp)⟩
  have hmetas : ∀ (rev : ℕ) (m : Meta), s.metas[rev]? = some m ↔
      m.rev = rev ∧ (sharing s.data m).Nonempty := by
    intro rev m
    constructor
    · intro hmeta
      obtain ⟨rfl, huse, -, -⟩ := h.recorded rev m hmeta
      exact ⟨rfl, by rwa [h.sharing_eq hmeta]⟩
    · rintro ⟨rfl, k, hk⟩
      obtain ⟨v, hv, hm⟩ := mem_sharing.mp hk
      obtain ⟨m', hm', hmeta⟩ := hcarried k v hv
      obtain rfl : m = m' := Option.some.inj (hm.symm.trans hm')
      exact hmeta
  refine ⟨fun k v hv => ?_, hmetas, fun rev => ?_, fun rev hrev => ?_⟩
  · obtain ⟨m, hm, hmeta⟩ := hcarried k v hv
    exact ⟨m, hm, by rw [h.counted, h.sharing_eq hmeta]⟩
  · rw [h.counted, Finset.card_pos, Std.ExtTreeMap.mem_iff_isSome_getElem?, Option.isSome_iff_exists]
    constructor
    · rintro ⟨m, hmeta⟩
      exact (h.recorded rev m hmeta).2.1
    · rintro ⟨k, hk⟩
      obtain ⟨v, m, hv, hm, rfl⟩ := mem_writtenAt.mp hk
      obtain ⟨m', hm', hmeta⟩ := hcarried k v hv
      obtain rfl : m = m' := Option.some.inj (hm.symm.trans hm')
      exact ⟨m, hmeta⟩
  · rw [Std.ExtTreeMap.mem_iff_isSome_getElem?, Option.isSome_iff_exists] at hrev
    obtain ⟨m, hmeta⟩ := hrev
    exact (h.recorded rev m hmeta).2.2.1

/-- After every sequence of successful calls that stays below `2 ^ 32` keys the reference counts
are right. -/
theorem counted_of_calls (calls : List Call) (s : Store)
    (hrun : Run call (fun s c => callFits s c = true) Store.empty calls s) : Counted s :=
  (hrun.invariant (fun _ _ _ hfits hcall h => h.call hfits hcall) counting_empty).counts

/-- An update that writes a key twice, and one that overwrites one of the two keys of the first. -/
theorem counted_of_calls_repeated : ∃ s,
    Run call (fun s c => callFits s c = true) Store.empty
        [.update (.writing 1 [[97], [98], [97]] [1]), .update (.writing 2 [[98]] [2])] s ∧
      Counted s ∧ s.nrefs.getD 1 0 = 1 := by
  have hexec : (execute call callFits Store.empty
      [.update (.writing 1 [[97], [98], [97]] [1]), .update (.writing 2 [[98]] [2])]).map
        (fun s => s.nrefs.getD 1 0) = some 1 := by
    decide +kernel
  obtain ⟨s, hrun, hend⟩ := exists_run_of_execute (fun _ _ h => h) hexec
  exact ⟨s, hrun, counted_of_calls _ s hrun, hend⟩

end Store

end Nplex
