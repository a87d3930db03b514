import Nplex.Store.Bookkeeping

/-!
# The users of the metadata objects

The store counts, for each user, the metadata objects it created. A new object is counted when
its update starts, and uncounted whenever it loses its last reference. The count is exact after an
update whose object gained references and lost its last one at most for good: an update that
upserts nothing is never uncounted, and one whose second upsert repeats the key of the first is
uncounted while it is still being applied.
-/

namespace Nplex

open Nplex.Common

/-- The key that an upsert writes. -/
def KeyValue.target (kv : KeyValue) : Key := cStr (kv.key.getD [])

/-- The keys an update upserts. -/
def Update.upserted (u : Update) : List Key := u.upserts.map KeyValue.target

/-- The keys an update deletes. -/
def Update.deleted (u : Update) : List Key := u.deletes.map fun key => cStr (key.getD [])

/-- The second of two keys repeats the first. -/
def repeatsFirst : List Key → Bool
  | first :: second :: _ => decide (first = second)
  | _ => false

/-- An update deletes all it upserts. -/
def Update.undone (u : Update) : Bool := u.upserted.all fun k => u.deleted.contains k

/-- An update names every key whose value its user wrote. -/
def Update.supersedes (u : Update) (data : KeyMap Value) : Bool :=
  data.toList.all fun (k, v) => v.metadata.map Meta.user != some (cStr u.user) ||
    u.upserted.contains k || u.deleted.contains k

/-- An update upserts something and does not start by writing a key twice, unless it leaves no
value of its user. The number of objects fits the 32 bits of a counter. -/
def Update.balanced (u : Update) (data : KeyMap Value) : Bool :=
  data.size + 1 < 2 ^ 32 && !u.upserted.isEmpty &&
    (!repeatsFirst u.upserted || (u.undone && u.supersedes data))

namespace Store

/-- The revisions of the metadata objects that a user created. -/
def createdBy (metas : Std.ExtTreeMap ℕ Meta compare) (user : Bytes) : Finset ℕ :=
  metas.keys.toFinset.filter fun rev => (metas[rev]?).map Meta.user = some user

/-- A user is present when it created some object in the map, with the number of these. -/
def UsersExact (s : Store) : Prop :=
  ∀ user n, s.users[user]? = some n ↔ n = (createdBy s.metas user).card ∧ 0 < n

variable {metas : Std.ExtTreeMap ℕ Meta compare} {rev : ℕ} {user : Bytes} {m : Meta}

/-- The object of the revision names its user. -/
theorem mem_createdBy : rev ∈ createdBy metas user ↔ ∃ m, metas[rev]? = some m ∧ m.user = user := by
  rw [createdBy, Finset.mem_filter, List.mem_toFinset, Std.ExtTreeMap.mem_keys,
    Std.ExtTreeMap.mem_iff_isSome_getElem?, Option.isSome_iff_exists, Option.map_eq_some_iff]
  constructor
  · rintro ⟨-, h⟩
    exact h
  · rintro ⟨m, hm, huser⟩
    exact ⟨⟨m, hm⟩, m, hm, huser⟩

/-- Erasing a revision takes it out. -/
theorem createdBy_erase (metas : Std.ExtTreeMap ℕ Meta compare) (rev : ℕ) (user : Bytes) :
    createdBy (metas.erase rev) user = (createdBy metas user).erase rev := by
  ext r
  rw [Finset.mem_erase, mem_createdBy, mem_createdBy, Std.ExtTreeMap.getElem?_erase]
  by_cases hr : rev = r
  · simp [hr]
  · simp [hr, Ne.symm hr]

/-- A new object is one more of its user. -/
theorem createdBy_insert (hnew : metas[rev]? = none) (m : Meta) (user : Bytes) :
    (createdBy (metas.insert rev m) user).card =
      (createdBy metas user).card + if user = m.user then 1 else 0 := by
  have habsent : rev ∉ createdBy metas user := by
    rw [mem_createdBy]
    rintro ⟨m', hm', -⟩
    rw [hnew] at hm'
    cases hm'
  by_cases huser : user = m.user
  · have hinsert : createdBy (metas.insert rev m) user = insert rev (createdBy metas user) := by
      ext r
      rw [Finset.mem_insert, mem_createdBy, mem_createdBy, Std.ExtTreeMap.getElem?_insert]
      by_cases hr : rev = r
      · simp [hr, huser]
      · simp [hr, Ne.symm hr]
    rw [hinsert, Finset.card_insert_of_notMem habsent, if_pos huser]
  · have hsame : createdBy (metas.insert rev m) user = createdBy metas user := by
      ext r
      rw [mem_createdBy, mem_createdBy, Std.ExtTreeMap.getElem?_insert]
      by_cases hr : rev = r
      · subst hr
        simp [hnew, Ne.symm huser]
      · simp [hr]
    rw [hsame, if_neg huser, Nat.add_zero]

/-- The entry of a user with some number of objects. -/
def tally (n : ℕ) : Option ℕ := if n = 0 then none else some n

/-- The entry tells the number. -/
theorem tally_injective : Function.Injective tally := by
  intro a b h
  unfold tally at h
  split_ifs at h with ha hb
  · omega
  · exact Option.some.inj h

/-- The count is exact when every entry is the tally of the objects. -/
theorem usersExact_iff {s : Store} :
    UsersExact s ↔ ∀ user, s.users[user]? = tally (createdBy s.metas user).card := by
  constructor
  · intro h user
    unfold tally
    split_ifs with hzero
    · apply Option.eq_none_iff_forall_ne_some.mpr
      intro n hn
      have hcount := (h user n).mp hn
      omega
    · exact (h user _).mpr ⟨rfl, Nat.pos_of_ne_zero hzero⟩
  · intro h user n
    rw [h user, tally]
    split_ifs with hzero
    · simp [hzero]
    · constructor
      · rintro hn
        obtain rfl := Option.some.inj hn
        exact ⟨rfl, Nat.pos_of_ne_zero hzero⟩
      · rintro ⟨rfl, -⟩
        rfl

/-- A new store counts its users right. -/
theorem usersExact_empty : UsersExact Store.empty := by
  rw [usersExact_iff]
  intro user
  have hnone : createdBy Store.empty.metas user = ∅ := by
    apply Finset.eq_empty_of_forall_notMem
    intro rev hrev
    obtain ⟨m, hm, -⟩ := mem_createdBy.mp hrev
    simp [Store.empty] at hm
  rw [hnone]
  simp [Store.empty, tally]

/-- There are at most as many objects of a user as keys. -/
theorem Counting.card_createdBy_le {s : Store} (h : Counting none s) (user : Bytes) :
    (createdBy s.metas user).card ≤ s.data.size := by
  have hsub : createdBy s.metas user ⊆ s.data.keys.toFinset.image fun k =>
      (((s.data[k]?).bind Value.metadata).map Meta.rev).getD 0 := by
    intro rev hrev
    obtain ⟨m, hm, -⟩ := mem_createdBy.mp hrev
    obtain ⟨-, ⟨k, hk⟩, -, -⟩ := h.recorded rev m hm
    obtain ⟨v, m', hv, hm', hrev'⟩ := mem_writtenAt.mp hk
    apply Finset.mem_image.mpr
    refine ⟨k, ?_, by simp [hv, hm', hrev']⟩
    rw [List.mem_toFinset, Std.ExtTreeMap.mem_keys, mem_keyMap]
    exact ⟨v, hv⟩
  calc (createdBy s.metas user).card
      ≤ _ := Finset.card_le_card hsub
    _ ≤ s.data.keys.toFinset.card := Finset.card_image_le
    _ ≤ s.data.keys.length := List.toFinset_card_le _
    _ = s.data.size := Std.ExtTreeMap.length_keys

/-- The users while the update of an object is applied: the object itself is counted already, and
was uncounted as often as it lost its last reference. -/
structure Balance (m : Meta) (lost : ℕ) (s : Store) : Prop where
  counting : Counting (some m) s
  users : ∀ user, s.users[user]? =
    tally (if user = m.user then (createdBy s.metas user).card + 1 - lost
      else (createdBy s.metas user).card)

variable {s s' : Store} {k : Key} {lost : ℕ}

/-- The update starts by counting its object. -/
theorem Balance.create {u : Update} (h : Counting none s) (husers : UsersExact s)
    (hrev : s.rev < u.rev) (hroom : (createdBy s.metas (cStr u.user)).card + 1 < 2 ^ 32) :
    Balance u.metadata 0 { (s.createMeta u).1 with rev := u.rev } := by
  refine ⟨h.create hrev, fun user => ?_⟩
  rw [usersExact_iff] at husers
  have hcounted : (s.createMeta u).1.users =
      s.users.insert (cStr u.user) ((createdBy s.metas (cStr u.user)).card + 1) := by
    have hold := husers (cStr u.user)
    unfold tally at hold
    unfold createMeta
    split_ifs at hold with hzero
    · simp [hold, hzero]
    · simp only [hold]
      rw [Nat.mod_eq_of_lt hroom]
  have hmetas : (s.createMeta u).1.metas = s.metas := rfl
  have huser : u.metadata.user = cStr u.user := rfl
  dsimp only
  rw [hcounted, hmetas, huser, lookup_insert]
  by_cases hsame : cStr u.user = user
  · subst hsame
    simp [tally]
  · rw [if_neg hsame, if_neg (Ne.symm hsame), husers]

/-- An object that loses its last reference is uncounted. -/
theorem releaseMeta_users (s : Store) (m : Meta) {n : ℕ} (hn : s.users[m.user]? = tally n)
    (hlast : s.nrefs.getD m.rev 0 - 1 = 0) (user : Bytes) :
    (s.releaseMeta m).users[user]? = if user = m.user then tally (n - 1) else s.users[user]? := by
  unfold releaseMeta
  rw [if_pos hlast]
  dsimp only
  unfold tally at hn ⊢
  split_ifs at hn with hzero
  · rw [hn]
    by_cases huser : user = m.user
    · simp [huser, hn, hzero]
    · simp [huser]
  · rw [hn]
    dsimp only
    by_cases hmore : 1 < n
    · rw [if_pos hmore, lookup_insert]
      by_cases huser : user = m.user
      · have hleft : n - 1 ≠ 0 := by omega
        simp [huser, hleft]
      · simp [huser, Ne.symm huser]
    · rw [if_neg hmore, lookup_erase]
      by_cases huser : user = m.user
      · have hleft : n - 1 = 0 := by omega
        simp [huser, hleft]
      · simp [huser, Ne.symm huser]

/-- An object that keeps a reference stays counted. -/
theorem releaseMeta_users_of_left (s : Store) (m : Meta) (hleft : s.nrefs.getD m.rev 0 - 1 ≠ 0) :
    (s.releaseMeta m).users = s.users := by
  unfold releaseMeta
  rw [if_neg hleft]

/-- A counter that loses a reference reaches zero when it was the only one. -/
theorem Counting.last_iff {current : Option Meta} (h : Counting current s)
    (hk : k ∈ writtenAt s.data m.rev) :
    s.nrefs.getD m.rev 0 - 1 = 0 ↔ writtenAt s.data m.rev = {k} := by
  rw [h.counted, ← Finset.card_erase_of_mem hk, Finset.card_eq_zero, Finset.erase_eq_empty_iff]
  constructor
  · rintro (hempty | hsingle)
    · simp [hempty] at hk
    · exact hsingle
  · exact Or.inr

/-- The object of the update is not in the map yet. -/
theorem Counting.current_absent (h : Counting (some m) s) : s.metas[m.rev]? = none := by
  apply Option.eq_none_iff_forall_ne_some.mpr
  intro m' hm'
  exact lt_irrefl _ ((h.recorded _ _ hm').2.2.2 m rfl)

/-- Taking a stored value out uncounts the update's own object with its last reference, and the
object of another update with that object. -/
theorem Balance.release {old : Value} (h : Balance m lost s) (hold : s.data[k]? = some old) :
    Balance m (lost + if writtenAt s.data m.rev = {k} then 1 else 0)
      { s.releaseValue old with data := s.data.erase k } := by
  refine ⟨h.counting.release hold, fun user => ?_⟩
  obtain ⟨m', hm', hcase⟩ := h.counting.carried k old hold
  have hrelease : s.releaseValue old = s.releaseMeta m' := by simp [releaseValue, hm']
  have hmem : k ∈ writtenAt s.data m'.rev := mem_writtenAt.mpr ⟨old, m', hold, hm', rfl⟩
  have hlast := h.counting.last_iff hmem
  have hentry := h.users m'.user
  dsimp only
  rw [hrelease, releaseMeta_metas]
  rcases hcase with hcase | hcase
  · -- the value is the update's own
    obtain rfl := Option.some.inj hcase
    have habsent : (s.metas.erase m.rev) = s.metas := by
      apply Std.ExtTreeMap.ext_getElem?
      intro rev
      rw [Std.ExtTreeMap.getElem?_erase]
      by_cases hrev : m.rev = rev
      · simp [← hrev, h.counting.current_absent]
      · simp [hrev]
    rw [habsent, ite_self]
    by_cases hsingle : writtenAt s.data m.rev = {k}
    · rw [releaseMeta_users s m hentry (hlast.mpr hsingle), if_pos hsingle, if_pos rfl, h.users]
      by_cases huser : user = m.user
      · subst huser
        simp [Nat.sub_sub]
      · simp [huser]
    · rw [releaseMeta_users_of_left s m (fun h => hsingle (hlast.mp h)), if_neg hsingle, h.users,
        Nat.add_zero lost]
  · -- the value is older
    have hother : writtenAt s.data m.rev ≠ {k} := by
      intro hsingle
      have hk : k ∈ writtenAt s.data m.rev := by simp [hsingle]
      obtain ⟨v, m₁, hv, hm₁, hrev⟩ := mem_writtenAt.mp hk
      obtain rfl : old = v := Option.some.inj (hold.symm.trans hv)
      obtain rfl : m' = m₁ := Option.some.inj (hm'.symm.trans hm₁)
      rw [hrev, h.counting.current_absent] at hcase
      cases hcase
    rw [if_neg hother, Nat.add_zero lost]
    by_cases hsingle : writtenAt s.data m'.rev = {k}
    · have hzero := hlast.mpr hsingle
      rw [releaseMeta_users s m' hentry hzero, if_pos hzero, createdBy_erase, h.users]
      by_cases huser : user = m'.user
      · subst huser
        have hcreated : m'.rev ∈ createdBy s.metas m'.user := mem_createdBy.mpr ⟨m', hcase, rfl⟩
        have hpos := Finset.card_pos.mpr ⟨_, hcreated⟩
        rw [if_pos rfl, Finset.card_erase_of_mem hcreated]
        split_ifs
        · congr 1
          omega
        · rfl
      · have hcreated : m'.rev ∉ createdBy s.metas user := by
          rw [mem_createdBy]
          rintro ⟨m₁, hm₁, rfl⟩
          obtain rfl : m' = m₁ := Option.some.inj (hcase.symm.trans hm₁)
          exact huser rfl
        rw [if_neg huser, Finset.erase_eq_of_notMem hcreated]
    · have hleft := fun h => hsingle (hlast.mp h)
      rw [releaseMeta_users_of_left s m' hleft, if_neg hleft, h.users]

/-- Storing a value of the update leaves the users alone. -/
theorem Balance.retain {d : Bytes} (h : Balance m lost s) (hk : s.data[k]? = none)
    (hfits : (s.data.insert k ⟨d, some m⟩).size < 2 ^ 32) :
    Balance m lost ({ s with data := s.data.insert k ⟨d, some m⟩ }.retainMeta m) :=
  ⟨h.counting.retain hk hfits, h.users⟩

/-- How often the object of an update that wrote the keys `written` loses its last reference
while some keys are upserted. -/
def revivals : Finset Key → List Key → ℕ
  | _, [] => 0
  | written, k :: rest => (if written = {k} then 1 else 0) + revivals (insert k written) rest

/-- How often it does while some keys are deleted. -/
def departures : Finset Key → List Key → ℕ
  | _, [] => 0
  | written, k :: rest => (if written = {k} then 1 else 0) + departures (written.erase k) rest

/-- A successful upsert stores its key as one of the update. -/
theorem Balance.upsertEntry {d : Bytes} {c : Change} (h : Balance m lost s)
    (hfits : (s.data.insert k ⟨d, some m⟩).size < 2 ^ 32)
    (hentry : s.upsertEntry k d m = (s', .ok c)) :
    Balance m (lost + if writtenAt s.data m.rev = {k} then 1 else 0) s' ∧
      writtenAt s'.data m.rev = insert k (writtenAt s.data m.rev) := by
  have hwritten : writtenAt s'.data m.rev = insert k (writtenAt s.data m.rev) := by
    rw [(upsertEntry_ok hentry).2.1, ← insert_erase, writtenAt_insert (by simp), if_pos rfl,
      writtenAt_erase]
    ext k'
    by_cases hk : k' = k <;> simp [hk]
  refine ⟨?_, hwritten⟩
  unfold Store.upsertEntry at hentry
  split at hentry
  · simp at hentry
  · split at hentry
    · next old hold =>
      simp only [Prod.mk.injEq, Except.ok.injEq] at hentry
      obtain ⟨rfl, -⟩ := hentry
      have hretain := (h.release hold).retain (d := d) (k := k) (by simp)
        (by simpa [insert_erase] using hfits)
      simpa [insert_erase] using hretain
    · next hnone =>
      simp only [Prod.mk.injEq, Except.ok.injEq] at hentry
      obtain ⟨rfl, -⟩ := hentry
      have hother : writtenAt s.data m.rev ≠ {k} := by
        intro hsingle
        have hk : k ∈ writtenAt s.data m.rev := by simp [hsingle]
        obtain ⟨v, _, hv, -⟩ := mem_writtenAt.mp hk
        rw [hnone] at hv
        cases hv
      rw [if_neg hother]
      exact h.retain hnone hfits

/-- A successful delete takes its key from those of the update. -/
theorem Balance.deleteEntry {c : Change} (h : Balance m lost s)
    (hentry : s.deleteEntry k = (s', .ok c)) :
    Balance m (lost + if writtenAt s.data m.rev = {k} then 1 else 0) s' ∧
      writtenAt s'.data m.rev = (writtenAt s.data m.rev).erase k := by
  refine ⟨?_, by rw [(deleteEntry_ok hentry).2.1, writtenAt_erase]⟩
  unfold Store.deleteEntry at hentry
  split at hentry
  · simp at hentry
  · split at hentry
    · next hnone =>
      simp only [Prod.mk.injEq, Except.ok.injEq] at hentry
      obtain ⟨rfl, -⟩ := hentry
      have hother : writtenAt s.data m.rev ≠ {k} := by
        intro hsingle
        have hk : k ∈ writtenAt s.data m.rev := by simp [hsingle]
        obtain ⟨v, _, hv, -⟩ := mem_writtenAt.mp hk
        rw [hnone] at hv
        cases hv
      rwa [if_neg hother]
    · next old hold =>
      simp only [Prod.mk.injEq, Except.ok.injEq] at hentry
      obtain ⟨rfl, -⟩ := hentry
      rw [releaseValue_data]
      exact h.release hold

/-- The upsert loop writes its keys. -/
theorem Balance.upsertAll {kvs : List KeyValue} {changes all : List Change}
    (h : Balance m lost s) (hfits : (applyUpserts m kvs s.data).size < 2 ^ 32)
    (hloop : Store.upsertAll m kvs s changes = (s', .ok all)) :
    Balance m (lost + revivals (writtenAt s.data m.rev) (kvs.map KeyValue.target)) s' ∧
      writtenAt s'.data m.rev = writtenAt s.data m.rev ∪ (kvs.map KeyValue.target).toFinset := by
  induction kvs generalizing s changes lost with
  | nil =>
    simp only [Store.upsertAll, Prod.mk.injEq, Except.ok.injEq] at hloop
    obtain ⟨rfl, -⟩ := hloop
    exact ⟨h, by simp⟩
  | cons kv rest ih =>
    simp only [Store.upsertAll] at hloop
    split at hloop
    · next key data hkey hdata =>
      split at hloop
      · next s₁ c hentry =>
        have htarget : kv.target = cStr key := by simp [KeyValue.target, hkey]
        have happly : applyUpserts m (kv :: rest) s.data =
            applyUpserts m rest (s.data.insert (cStr key) ⟨data, some m⟩) := by
          simp [applyUpserts, hkey, hdata]
        rw [happly] at hfits
        have hle := size_le_applyUpserts m rest (s.data.insert (cStr key) ⟨data, some m⟩)
        obtain ⟨hfirst, hwritten⟩ := h.upsertEntry (by omega) hentry
        rw [← (upsertEntry_ok hentry).2.1] at hfits
        obtain ⟨hrest, hall⟩ := ih hfirst hfits hloop
        rw [hwritten, Nat.add_assoc] at hrest
        rw [hwritten] at hall
        rw [List.map_cons, htarget]
        exact ⟨hrest, by rw [hall, List.toFinset_cons, Finset.insert_union_comm]⟩
      · simp at hloop
    · simp at hloop

/-- The delete loop takes its keys out. -/
theorem Balance.deleteAll {m' : Meta} {keys : List (Option Bytes)} {changes all : List Change}
    (h : Balance m lost s) (hloop : Store.deleteAll m' keys s changes = (s', .ok all)) :
    Balance m (lost + departures (writtenAt s.data m.rev) (keys.map fun key => cStr (key.getD []))) s' ∧
      writtenAt s'.data m.rev =
        writtenAt s.data m.rev \ (keys.map fun key => cStr (key.getD [])).toFinset := by
  induction keys generalizing s changes lost with
  | nil =>
    simp only [Store.deleteAll, Prod.mk.injEq, Except.ok.injEq] at hloop
    obtain ⟨rfl, -⟩ := hloop
    exact ⟨h, by simp⟩
  | cons key rest ih =>
    simp only [Store.deleteAll] at hloop
    split at hloop
    · split at hloop
      · next s₁ c hentry =>
        obtain ⟨hfirst, hwritten⟩ := h.deleteEntry hentry
        obtain ⟨hrest, hall⟩ := ih hfirst hloop
        rw [hwritten, Nat.add_assoc] at hrest
        rw [hwritten] at hall
        exact ⟨hrest, by rw [hall]; ext k'; simp; tauto⟩
      · simp at hloop
    · simp at hloop

/-- At the end of an update the count is exact when its object was uncounted once if it holds no
reference, and never if it holds one. -/
theorem Balance.record_iff (h : Balance m lost s) :
    UsersExact (s.recordMeta m) ↔
      (createdBy s.metas m.user).card + 1 - lost =
        (createdBy s.metas m.user).card + if (writtenAt s.data m.rev).Nonempty then 1 else 0 := by
  have husers : (s.recordMeta m).users = s.users := by
    unfold recordMeta
    split_ifs <;> rfl
  have hcard : ∀ user, (createdBy (s.recordMeta m).metas user).card =
      (createdBy s.metas user).card +
        if user = m.user ∧ (writtenAt s.data m.rev).Nonempty then 1 else 0 := by
    intro user
    have hzero : s.nrefs.getD m.rev 0 = 0 ↔ ¬(writtenAt s.data m.rev).Nonempty := by
      rw [h.counting.counted, Finset.card_eq_zero, Finset.not_nonempty_iff_eq_empty]
    unfold recordMeta
    split_ifs with hempty huse huse
    · exact absurd huse.2 (hzero.mp hempty)
    · rfl
    · rw [createdBy_insert h.counting.current_absent, if_pos huse.1]
    · have huser : user ≠ m.user := fun huser =>
        huse ⟨huser, not_not.mp fun hnone => hempty (hzero.mpr hnone)⟩
      rw [createdBy_insert h.counting.current_absent, if_neg huser]
  rw [usersExact_iff, husers]
  constructor
  · intro hall
    have hown := hall m.user
    rw [h.users, hcard, if_pos rfl] at hown
    simpa using tally_injective hown
  · intro hown user
    rw [h.users, hcard]
    by_cases huser : user = m.user
    · subst huser
      simp [hown]
    · simp [huser]

/-- With two keys of its own an object keeps a reference during the upserts. -/
theorem revivals_of_two {written : Finset Key} (htwo : 1 < written.card) (keys : List Key) :
    revivals written keys = 0 := by
  induction keys generalizing written with
  | nil => rfl
  | cons k rest ih =>
    have hne : written ≠ {k} := by
      rintro rfl
      simp at htwo
    rw [revivals, if_neg hne, Nat.zero_add]
    exact ih (htwo.trans_le (Finset.card_le_card (Finset.subset_insert _ _)))

/-- A new object loses its last reference during the upserts when the second repeats the first. -/
theorem revivals_eq_zero_iff (keys : List Key) :
    revivals ∅ keys = 0 ↔ repeatsFirst keys = false := by
  rcases keys with _ | ⟨first, _ | ⟨second, rest⟩⟩
  · simp [revivals, repeatsFirst]
  · simp [revivals, repeatsFirst]
  · by_cases hsame : first = second
    · subst hsame
      simp [revivals, repeatsFirst]
    · have htwo : 1 < (insert second {first} : Finset Key).card := by
        rw [Finset.card_pair (Ne.symm hsame)]
        exact Nat.one_lt_two
      simp [revivals, repeatsFirst, hsame, revivals_of_two htwo]

/-- An object loses its last reference to the deletes at most once, when they name all its keys. -/
theorem departures_eq (written : Finset Key) (keys : List Key) :
    departures written keys = if written.Nonempty ∧ written ⊆ keys.toFinset then 1 else 0 := by
  induction keys generalizing written with
  | nil =>
    rw [departures, if_neg]
    rintro ⟨huse, hsub⟩
    rw [List.toFinset_nil, Finset.subset_empty] at hsub
    simp [hsub] at huse
  | cons k rest ih =>
    have hsub : written ⊆ (k :: rest).toFinset ↔ written.erase k ⊆ rest.toFinset := by
      rw [List.toFinset_cons, Finset.subset_insert_iff]
    rw [departures, ih]
    simp only [hsub]
    by_cases hsingle : written = {k}
    · simp [hsingle]
    · have huse : (written.erase k).Nonempty ↔ written.Nonempty := by
        rw [Finset.nonempty_iff_ne_empty, Finset.nonempty_iff_ne_empty, ne_eq,
          Finset.erase_eq_empty_iff]
        tauto
      simp [hsingle, huse]

/-- The deletes leave no value under their keys, and the other values alone. -/
theorem lookup_applyDeletes (keys : List (Option Bytes)) (data : KeyMap Value) (k : Key) :
    (applyDeletes keys data)[k]? =
      if k ∈ keys.map fun key => cStr (key.getD []) then none else data[k]? := by
  induction keys generalizing data with
  | nil => simp [applyDeletes]
  | cons key rest ih =>
    have hcons : applyDeletes (key :: rest) data =
        applyDeletes rest (data.erase (cStr (key.getD []))) := rfl
    rw [hcons, ih, lookup_erase, List.map_cons]
    by_cases hk : cStr (key.getD []) = k
    · simp [hk]
    · simp [hk, Ne.symm hk]

/-- The upserts leave the values under other keys alone. -/
theorem lookup_applyUpserts (m : Meta) {kvs : List KeyValue} (data : KeyMap Value) {k : Key}
    (hk : k ∉ kvs.map KeyValue.target) : (applyUpserts m kvs data)[k]? = data[k]? := by
  induction kvs generalizing data with
  | nil => rfl
  | cons kv rest ih =>
    rw [List.map_cons, List.mem_cons, not_or] at hk
    have hcons : applyUpserts m (kv :: rest) data =
        applyUpserts m rest (data.insert kv.target ⟨kv.value.getD [], some m⟩) := rfl
    rw [hcons, ih _ hk.2, lookup_insert, if_neg (Ne.symm hk.1)]

/-- When an update deletes all it upserts, it leaves no object of its user exactly when it names
every key whose value the user wrote. -/
theorem Counting.createdBy_eq_empty_iff {u : Update} {data : KeyMap Value}
    (h : Counting (some u.metadata) s) (hdata : s.data = applyUpdate data u)
    (hundone : u.undone = true) (hunused : writtenAt s.data u.rev = ∅) :
    createdBy s.metas (cStr u.user) = ∅ ↔ u.supersedes data = true := by
  have hlookup : ∀ k, s.data[k]? = if k ∈ u.upserted ∨ k ∈ u.deleted then none else data[k]? := by
    intro k
    have hdeletes : (applyUpdate data u)[k]? = if k ∈ u.deleted then none else
        (applyUpserts u.metadata u.upserts data)[k]? := lookup_applyDeletes _ _ _
    rw [hdata, hdeletes]
    by_cases hdeleted : k ∈ u.deleted
    · rw [if_pos hdeleted, if_pos (Or.inr hdeleted)]
    · have hupserted : k ∉ u.upserted := by
        intro hk
        simp only [Update.undone, List.all_eq_true, List.contains_iff_mem] at hundone
        exact hdeleted (hundone k hk)
      rw [if_neg hdeleted, if_neg (by tauto), lookup_applyUpserts _ _ hupserted]
  have hrecorded : ∀ (k : Key) (v : Value), s.data[k]? = some v →
      ∃ m, v.metadata = some m ∧ s.metas[m.rev]? = some m := by
    intro k v hv
    obtain ⟨m, hm, hcase⟩ := h.carried k v hv
    refine ⟨m, hm, hcase.resolve_left fun hown => ?_⟩
    obtain rfl := Option.some.inj hown
    have hk : k ∈ writtenAt s.data u.rev := mem_writtenAt.mpr ⟨v, _, hv, hm, rfl⟩
    simp [hunused] at hk
  constructor
  · intro hnone
    simp only [Update.supersedes, List.all_eq_true, Prod.forall, Std.ExtTreeMap.mem_toList_iff_getElem?_eq_some,
      Bool.or_eq_true, bne_iff_ne, List.contains_iff_mem]
    intro k v hv
    by_contra hother
    have hstored : s.data[k]? = some v := by
      rw [hlookup, if_neg (by tauto), hv]
    obtain ⟨m, hm, hmeta⟩ := hrecorded k v hstored
    have huser : m.user = cStr u.user := by
      by_contra hne
      exact hother (Or.inl (Or.inl (by simp [hm, hne])))
    have hmem : m.rev ∈ createdBy s.metas (cStr u.user) := mem_createdBy.mpr ⟨m, hmeta, huser⟩
    simp [hnone] at hmem
  · intro hall
    apply Finset.eq_empty_of_forall_notMem
    intro rev hrev
    obtain ⟨m, hm, huser⟩ := mem_createdBy.mp hrev
    obtain ⟨-, ⟨k, hk⟩, -, -⟩ := h.recorded rev m hm
    obtain ⟨v, m', hv, hm', hmrev⟩ := mem_writtenAt.mp hk
    obtain ⟨m₁, hm₁, hmeta⟩ := hrecorded k v hv
    obtain rfl : m' = m₁ := Option.some.inj (hm'.symm.trans hm₁)
    obtain rfl : m = m' := by
      rw [hmrev] at hmeta
      exact Option.some.inj (hm.symm.trans hmeta)
    rw [hlookup] at hv
    split_ifs at hv with hnamed
    simp only [Update.supersedes, List.all_eq_true, Prod.forall, Std.ExtTreeMap.mem_toList_iff_getElem?_eq_some,
      Bool.or_eq_true, bne_iff_ne, List.contains_iff_mem] at hall
    rcases hall k v hv with (hne | hupserted) | hdeleted
    · exact hne (by simp [hm', huser])
    · exact hnamed (Or.inl hupserted)
    · exact hnamed (Or.inr hdeleted)

/-- A successful update keeps the count of the users exact when it is balanced. -/
theorem usersExact_updateInternal_iff {u : Update} {r : List Change × Meta} (h : Counting none s)
    (husers : UsersExact s) (hroom : s.data.size + 1 < 2 ^ 32)
    (hfits : (applyUpserts u.metadata u.upserts s.data).size < 2 ^ 32)
    (hupdate : s.updateInternal u = (s', .ok r)) :
    UsersExact s' ↔ u.balanced s.data = true := by
  unfold Store.updateInternal at hupdate
  split at hupdate
  · simp at hupdate
  · next hrev =>
    simp only [createMeta_snd] at hupdate
    split at hupdate
    · simp at hupdate
    · next s₁ first hupserts =>
      split at hupdate
      · simp at hupdate
      · next s₂ all hdeletes =>
        simp only [Prod.mk.injEq, Except.ok.injEq] at hupdate
        obtain ⟨rfl, -⟩ := hupdate
        have hle := h.card_createdBy_le (cStr u.user)
        have hcreate := Balance.create (u := u) h husers (by omega) (by omega)
        have hnewer : s.rev < u.metadata.rev := Nat.lt_of_not_le hrev
        have hnew := h.writtenAt_newer hnewer
        obtain ⟨hfirst, hwritten₁⟩ := hcreate.upsertAll (by simpa using hfits) hupserts
        obtain ⟨hsecond, hwritten₂⟩ := hfirst.deleteAll hdeletes
        have hdata : s₂.data = applyUpdate s.data u := by
          rw [(deleteAll_ok hdeletes).1, (upsertAll_ok hupserts).1]
          rfl
        dsimp only at hwritten₁ hsecond
        rw [createMeta_data, hnew, Finset.empty_union] at hwritten₁
        rw [createMeta_data, hnew, hwritten₁, departures_eq, Nat.zero_add] at hsecond
        rw [hwritten₁] at hwritten₂
        rw [hsecond.record_iff, hwritten₂]
        have hlost := revivals_eq_zero_iff u.upserted
        have hundone : u.upserted.toFinset ⊆ u.deleted.toFinset ↔ u.undone = true := by
          simp only [Update.undone, List.all_eq_true, List.contains_iff_mem, Finset.subset_iff,
            List.mem_toFinset]
        have hcond : u.balanced s.data = true ↔ u.upserted ≠ [] ∧ (repeatsFirst u.upserted = false ∨
            (u.undone = true ∧ u.supersedes s.data = true)) := by
          rw [Update.balanced, decide_eq_true hroom]
          simp
        rw [hcond, ← hlost]
        change (createdBy s₂.metas (cStr u.user)).card + 1 - (revivals ∅ u.upserted +
            if u.upserted.toFinset.Nonempty ∧ u.upserted.toFinset ⊆ u.deleted.toFinset then 1 else 0) =
          (createdBy s₂.metas (cStr u.user)).card +
            (if (u.upserted.toFinset \ u.deleted.toFinset).Nonempty then 1 else 0) ↔ _
        by_cases hup : u.upserted = []
        · simp [hup, revivals]
        · have huse : u.upserted.toFinset.Nonempty := by
            rw [Finset.nonempty_iff_ne_empty, ne_eq, List.toFinset_eq_empty_iff]
            exact hup
          by_cases hall : u.undone = true
          · have hsub := hundone.mpr hall
            have hempty := Finset.sdiff_eq_empty_iff_subset.mpr hsub
            have hnone := hsecond.counting.createdBy_eq_empty_iff hdata hall (hwritten₂.trans hempty)
            rw [← Finset.card_eq_zero] at hnone
            rw [if_pos ⟨huse, hsub⟩, hempty, if_neg Finset.not_nonempty_empty, ← hnone]
            simp only [hup, ne_eq, not_false_eq_true, hall, true_and]
            omega
          · have hsub : ¬u.upserted.toFinset ⊆ u.deleted.toFinset := fun h => hall (hundone.mp h)
            have hleft : (u.upserted.toFinset \ u.deleted.toFinset).Nonempty :=
              Finset.sdiff_nonempty.mpr hsub
            rw [if_neg fun h => hsub h.2, if_pos hleft]
            rw [Bool.not_eq_true] at hall
            simp only [hup, ne_eq, not_false_eq_true, hall, Bool.false_eq_true, true_and, false_and,
              or_false]
            omega

/-- Each update is balanced on the content the earlier ones leave. -/
def balancedUpdates : List Update → KeyMap Value → Bool
  | [], _ => true
  | u :: rest, data => u.balanced data && balancedUpdates rest (applyUpdate data u)

/-- The updates of a call are balanced, and keep the number of keys below `2 ^ 32` all along. -/
def callBalanced (s : Store) (c : Call) : Bool :=
  callFits s c &&
    match c with
    | .load none => true
    | .load (some snapshot) => balancedUpdates snapshot.updates ∅
    | .update u => u.balanced s.data

/-- What the calls keep. -/
structure Attributed (s : Store) : Prop where
  counting : Counting none s
  users : UsersExact s

/-- A balanced update keeps the counts. -/
theorem Attributed.updateInternal {u : Update} {r : List Change × Meta} (h : Attributed s)
    (hbalanced : u.balanced s.data = true)
    (hfits : (applyUpserts u.metadata u.upserts s.data).size < 2 ^ 32)
    (hupdate : s.updateInternal u = (s', .ok r)) : Attributed s' := by
  have hroom : s.data.size + 1 < 2 ^ 32 := by
    simp only [Update.balanced, Bool.and_eq_true, decide_eq_true_eq] at hbalanced
    exact hbalanced.1.1
  exact ⟨h.counting.updateInternal hfits hupdate,
    (usersExact_updateInternal_iff h.counting h.users hroom hfits hupdate).mpr hbalanced⟩

/-- The loop of `load` keeps the counts when its updates are balanced. -/
theorem Attributed.loadAll {rev : ℕ} {updates : List Update} (h : Attributed s)
    (hfits : fits updates s.data = true) (hbalanced : balancedUpdates updates s.data = true)
    (hload : Store.loadAll rev updates s = (s', .ok ())) : UsersExact s' := by
  induction updates generalizing s with
  | nil =>
    simp only [Store.loadAll, Prod.mk.injEq, and_true] at hload
    subst hload
    exact h.users
  | cons u rest ih =>
    simp only [Store.loadAll] at hload
    split_ifs at hload with hnewer
    · simp at hload
    · cases hupdate : s.updateInternal u with
      | mk s₁ result =>
        cases result with
        | error e => simp [hupdate] at hload
        | ok r =>
          simp only [hupdate] at hload
          simp only [fits, balancedUpdates, Bool.and_eq_true, decide_eq_true_eq] at hfits hbalanced
          have hupdate' : s.update u = (s₁, .ok (r.1, r.2)) := hupdate
          obtain ⟨-, -, -, hdata₁, -⟩ := update_loops hupdate'
          rw [← hdata₁] at hfits hbalanced
          exact ih (h.updateInternal hbalanced.1 hfits.1 hupdate) hfits.2 hbalanced.2 hload

/-- A balanced call keeps the counts. -/
theorem Attributed.call {c : Call} (h : Attributed s) (hbalanced : callBalanced s c = true)
    (hcall : s.call c = some s') : Attributed s' := by
  simp only [callBalanced, Bool.and_eq_true] at hbalanced
  refine ⟨h.counting.call hbalanced.1 hcall, ?_⟩
  cases c with
  | update u =>
    simp only [Store.call] at hcall
    cases hupdate : s.update u with
    | mk s₁ result =>
      cases result with
      | error e => simp [hupdate] at hcall
      | ok r =>
        simp only [hupdate, Option.some.injEq] at hcall
        subst hcall
        simp only [callFits, fits, Bool.and_true, decide_eq_true_eq] at hbalanced
        exact (h.updateInternal hbalanced.2 hbalanced.1 hupdate).users
  | load snapshot =>
    simp only [Store.call] at hcall
    cases snapshot with
    | none =>
      simp only [Store.load, Option.some.injEq] at hcall
      subst hcall
      exact usersExact_empty
    | some snapshot =>
      cases hload : Store.loadAll snapshot.rev snapshot.updates Store.empty with
      | mk s₁ result =>
        cases result with
        | error e => simp [Store.load, hload] at hcall
        | ok r =>
          simp only [Store.load, hload, Option.some.injEq] at hcall
          subst hcall
          have hempty : Attributed Store.empty := ⟨counting_empty, usersExact_empty⟩
          have hexact : UsersExact s₁ := hempty.loadAll hbalanced.1 hbalanced.2 hload
          exact hexact

/-- After every sequence of successful calls whose updates are balanced a user is present when it
created some metadata object in use, with the number of these. -/
theorem users_exact_of_calls (calls : List Call) (s : Store)
    (hrun : Run call (fun s c => callBalanced s c = true) Store.empty calls s) : UsersExact s :=
  (hrun.invariant (fun s _ _ hbalanced hcall (h : Attributed s) => h.call hbalanced hcall)
    ⟨counting_empty, usersExact_empty⟩).users

/-- A user whose data is overwritten by another one is removed. -/
theorem users_exact_of_calls_overwritten : ∃ s,
    Run call (fun s c => callBalanced s c = true) Store.empty
        [.update { Update.writing 1 [[97]] [1] with user := [117] },
          .update { Update.writing 2 [[97]] [2] with user := [118] }] s ∧
      UsersExact s ∧ (s.users[([117] : Bytes)]?, s.users[([118] : Bytes)]?) = (none, some 1) := by
  have hexec : (execute call callBalanced Store.empty
      [.update { Update.writing 1 [[97]] [1] with user := [117] },
        .update { Update.writing 2 [[97]] [2] with user := [118] }]).map
        (fun s => (s.users[([117] : Bytes)]?, s.users[([118] : Bytes)]?)) = some (none, some 1) := by
    decide +kernel
  obtain ⟨s, hrun, hend⟩ := exists_run_of_execute (fun _ _ h => h) hexec
  exact ⟨s, hrun, users_exact_of_calls _ s hrun, hend⟩

/-- A user writes a key and deletes it: none of its objects is left, and it is still counted. -/
theorem users_exact_of_calls_fails_deleting :
    ¬∀ (calls : List Call) (s : Store), Run call anyStep Store.empty calls s → UsersExact s := by
  intro hall
  have hexec : (execute call (fun _ _ => true) Store.empty
      [.update { Update.writing 1 [[97]] [1] with user := [117] },
        .update ⟨2, [117], 0, 0, [], [some [97]]⟩]).map
        (fun s => (s.users[([117] : Bytes)]?, s.metas.keys)) = some (some 1, []) := by
    decide +kernel
  obtain ⟨s, hrun, hend⟩ := exists_run_of_execute (fun s e _ => (trivial : anyStep s e)) hexec
  obtain ⟨husers, hmetas⟩ := Prod.mk.inj hend
  have hcount := ((hall _ s hrun) [117] 1).mp husers
  simp [createdBy, hmetas] at hcount

end Store

end Nplex
