import Nplex.Client
import Nplex.Transaction.Visits

/-!
# The submit request of a transaction

`create_submit_msg` walks the items of the transaction in key order. The upserts and the deletes
go to the request, the reads and the snapshots stay. Edits are what a server makes of the two
lists: whatever its content, the written keys get what the transaction shows.
-/

namespace Nplex

open Nplex.Common

/-- What a server makes of the lists of a request. -/
def SubmitRequest.edits (m : SubmitRequest) : List (Edit Key Bytes) :=
  m.upserts.map (fun kv => ⟨kv.1, some kv.2⟩) ++ m.deletes.map fun k => ⟨k, none⟩

/-- An upsert or a delete. -/
def Entry.writes (e : Entry) : Prop := e.action = .upsert ∨ e.action = .delete

namespace Transaction

/-- A request encodes exactly the writes of a transaction. -/
structure EncodesWrites (tx : Transaction) (m : SubmitRequest) : Prop where
  /-- No upsert is without bytes. -/
  present : ∀ (k : Key) (e : Entry), tx.items[k]? = some e → e.holdsWrite
  /-- The upserts are the keys in the state UPSERT, with their bytes. -/
  upserts : ∀ k d, (k, d) ∈ m.upserts ↔
    ∃ v, tx.items[k]? = some ⟨.upsert, some v⟩ ∧ v.data = d
  /-- The deletes are the keys in the state DELETE. -/
  deletes : ∀ k, k ∈ m.deletes ↔ ∃ e, tx.items[k]? = some e ∧ e.action = .delete
  upsertsOrdered : (m.upserts.map Prod.fst).Pairwise fun a b => compare a b = .lt
  deletesOrdered : m.deletes.Pairwise fun a b => compare a b = .lt
  /-- Every key comes once, and in one of the lists. -/
  distinct : (m.upserts.map Prod.fst ++ m.deletes).Nodup
  /-- Keys that were only read or snapshotted do not come. -/
  observed : ∀ k e, tx.items[k]? = some e → e.action = .read ∨ e.action = .snapshot →
    k ∉ m.upserts.map Prod.fst ++ m.deletes
  ensures : ∀ pattern, pattern ∈ m.ensures ↔ pattern ∈ tx.ensures
  ensuresDistinct : m.ensures.Nodup
  /-- A written key gets what `read` returns while the transaction is open. -/
  applied : ∀ (content : Key → Option Bytes) (k : Key) (e : Entry), tx.items[k]? = some e →
    e.writes → ∀ (store : Store) (ensure : Bool), ∃ v tx',
      { tx with state := .opened }.read store k ensure = .ok (v, tx') ∧
        applyEdits content m.edits k = v.map Value.data
  /-- The other keys are left as they are. -/
  untouched : ∀ (content : Key → Option Bytes) (k : Key),
    (∀ e : Entry, tx.items[k]? = some e → ¬e.writes) → applyEdits content m.edits k = content k

variable {tx : Transaction} {cid crev : ℕ} {force : Bool} {k : Key}

/-- The upserts of the request. -/
theorem mem_upserts {d : Bytes} (hwhole : tx.ItemsHave fun _ e => e.holdsWrite) :
    (k, d) ∈ (createSubmitMsg cid crev force tx).upserts ↔
      ∃ v, tx.items[k]? = some ⟨.upsert, some v⟩ ∧ v.data = d := by
  unfold createSubmitMsg
  rw [List.mem_filterMap]
  constructor
  · rintro ⟨⟨k', e⟩, hmem, hentry⟩
    have hitem := mem_toList.mp hmem
    split_ifs at hentry with hupsert
    obtain ⟨rfl, hdata⟩ := Prod.mk.inj (Option.some.inj hentry)
    obtain ⟨v, hv⟩ := Option.isSome_iff_exists.mp (hwhole k' e hitem hupsert)
    obtain ⟨action, value⟩ := e
    dsimp only at hupsert hv hdata
    subst hupsert hv
    exact ⟨v, hitem, hdata⟩
  · rintro ⟨v, hitem, rfl⟩
    exact ⟨(k, ⟨.upsert, some v⟩), mem_toList.mpr hitem, rfl⟩

/-- The deletes of the request. -/
theorem mem_deletes : k ∈ (createSubmitMsg cid crev force tx).deletes ↔
    ∃ e, tx.items[k]? = some e ∧ e.action = .delete := by
  unfold createSubmitMsg
  rw [List.mem_filterMap]
  constructor
  · rintro ⟨⟨k', e⟩, hmem, hentry⟩
    split_ifs at hentry with hdelete
    obtain rfl := Option.some.inj hentry
    exact ⟨e, mem_toList.mp hmem, hdelete⟩
  · rintro ⟨e, hitem, hdelete⟩
    exact ⟨(k, e), mem_toList.mpr hitem, by simp [hdelete]⟩

/-- The upserts come in key order. -/
theorem upserts_ordered :
    ((createSubmitMsg cid crev force tx).upserts.map Prod.fst).Pairwise
      fun a b => compare a b = .lt := by
  rw [List.pairwise_map]
  refine sortedKeys_filterMap (fun x y hxy => ?_) (sortedKeys_toList tx.items)
  split_ifs at hxy
  exact (congrArg Prod.fst (Option.some.inj hxy)).symm

/-- The deletes come in key order. -/
theorem deletes_ordered :
    (createSubmitMsg cid crev force tx).deletes.Pairwise fun a b => compare a b = .lt := by
  refine List.Pairwise.filterMap _ (fun x x' hlt k hk k' hk' => ?_) (sortedKeys_toList tx.items)
  split_ifs at hk hk'
  rw [← Option.some.inj hk, ← Option.some.inj hk']
  exact hlt

/-- Keys in order are distinct. -/
theorem nodup_of_ordered {keys : List Key} (h : keys.Pairwise fun a b => compare a b = .lt) :
    keys.Nodup :=
  h.imp fun hlt heq => by simp [heq] at hlt

/-- No key comes twice. -/
theorem keys_distinct (hwhole : tx.ItemsHave fun _ e => e.holdsWrite) :
    ((createSubmitMsg cid crev force tx).upserts.map Prod.fst ++
      (createSubmitMsg cid crev force tx).deletes).Nodup := by
  refine List.nodup_append.mpr
    ⟨nodup_of_ordered upserts_ordered, nodup_of_ordered deletes_ordered, fun k hk k' hk' heq => ?_⟩
  subst heq
  obtain ⟨⟨k, d⟩, hmem, rfl⟩ := List.mem_map.mp hk
  obtain ⟨v, hitem, -⟩ := (mem_upserts hwhole).mp hmem
  obtain ⟨e, hitem', hdelete⟩ := mem_deletes.mp hk'
  rw [hitem] at hitem'
  rw [← Option.some.inj hitem'] at hdelete
  cases hdelete

/-- The keys of the edits are those of the two lists. -/
theorem edits_keys (m : SubmitRequest) :
    m.edits.map Edit.key = m.upserts.map Prod.fst ++ m.deletes := by
  unfold SubmitRequest.edits
  rw [List.map_append, List.map_map, List.map_map]
  congr 1
  exact List.map_id _

/-- The item of a key that the request names is a write. -/
theorem writes_of_named (hwhole : tx.ItemsHave fun _ e => e.holdsWrite)
    (h : k ∈ (createSubmitMsg cid crev force tx).upserts.map Prod.fst ++
      (createSubmitMsg cid crev force tx).deletes) :
    ∃ e, tx.items[k]? = some e ∧ e.writes := by
  rcases List.mem_append.mp h with hupsert | hdelete
  · obtain ⟨⟨k, d⟩, hmem, rfl⟩ := List.mem_map.mp hupsert
    obtain ⟨v, hitem, -⟩ := (mem_upserts hwhole).mp hmem
    exact ⟨_, hitem, Or.inl rfl⟩
  · obtain ⟨e, hitem, haction⟩ := mem_deletes.mp hdelete
    exact ⟨e, hitem, Or.inr haction⟩

/-- A write of a valid key is what `read` returns and what the edits put there. -/
theorem applied_write (hvalid : tx.ValidItems) (hwhole : tx.ItemsHave fun _ e => e.holdsWrite)
    (content : Key → Option Bytes) {e : Entry} (hitem : tx.items[k]? = some e) (hwrites : e.writes)
    (store : Store) (ensure : Bool) :
    ∃ v tx', { tx with state := .opened }.read store k ensure = .ok (v, tx') ∧
      applyEdits content (createSubmitMsg cid crev force tx).edits k = v.map Value.data := by
  have hopen : ({ tx with state := .opened } : Transaction).state = .opened := rfl
  obtain ⟨v, tx', hread⟩ := read_succeeds hopen (hvalid k e hitem) store ensure
  have hvalue := (read_ok hread).value
  have hnodup : ((createSubmitMsg cid crev force tx).edits.map Edit.key).Nodup := by
    rw [edits_keys]
    exact keys_distinct hwhole
  refine ⟨v, tx', hread, ?_⟩
  unfold visible at hvalue
  dsimp only at hvalue
  rw [hitem] at hvalue
  rw [hvalue]
  rcases hwrites with hupsert | hdelete
  · obtain ⟨w, hw⟩ := Option.isSome_iff_exists.mp (hwhole k e hitem hupsert)
    obtain ⟨action, value⟩ := e
    dsimp only at hupsert hw
    subst hupsert hw
    have hmem : (⟨k, some w.data⟩ : Edit Key Bytes) ∈ (createSubmitMsg cid crev force tx).edits :=
      List.mem_append_left _ (List.mem_map_of_mem ((mem_upserts hwhole).mpr ⟨w, hitem, rfl⟩))
    exact applyEdits_of_nodup hnodup hmem
  · have hmem : (⟨k, none⟩ : Edit Key Bytes) ∈ (createSubmitMsg cid crev force tx).edits :=
      List.mem_append_right _ (List.mem_map_of_mem (mem_deletes.mpr ⟨e, hitem, hdelete⟩))
    have hnone : e.shown = none := if_pos hdelete
    dsimp only
    rw [hnone]
    exact applyEdits_of_nodup hnodup hmem

/-- The request of a transaction encodes its writes. -/
theorem encodesWrites (hvalid : tx.ValidItems) (hwhole : tx.ItemsHave fun _ e => e.holdsWrite)
    (cid crev : ℕ) (force : Bool) : tx.EncodesWrites (createSubmitMsg cid crev force tx) where
  present := hwhole
  upserts _ _ := mem_upserts hwhole
  deletes _ := mem_deletes
  upsertsOrdered := upserts_ordered
  deletesOrdered := deletes_ordered
  distinct := keys_distinct hwhole
  observed k e hitem hobserved hnamed := by
    obtain ⟨e', hitem', hwrites⟩ := writes_of_named hwhole hnamed
    rw [hitem] at hitem'
    rw [← Option.some.inj hitem'] at hwrites
    rcases hobserved with haction | haction <;> rcases hwrites with hwrite | hwrite <;>
      simp [haction] at hwrite
  ensures _ := Std.ExtTreeSet.mem_toList
  ensuresDistinct := nodup_of_ordered Std.ExtTreeSet.ordered_toList
  applied content _ _ hitem hwrites := applied_write hvalid hwhole content hitem hwrites
  untouched content k hother := by
    refine applyEdits_of_not_named fun edit hedit hkey => ?_
    have hnamed := List.mem_map_of_mem (f := Edit.key) hedit
    rw [edits_keys, hkey] at hnamed
    obtain ⟨e, hitem, hwrites⟩ := writes_of_named hwhole hnamed
    exact hother e hitem hwrites

/-- A refused submit sends nothing. -/
theorem onTx_sent (c : Client) (t : ℕ) (f : Transaction → Transaction × Option TxError) :
    (c.onTx t f).sent = c.sent := by
  unfold Client.onTx
  split
  · rfl
  · dsimp only
    split_ifs <;> rfl

/-- A client sends the message, or nothing. -/
theorem mem_send {c : Client} {msg : ClientMsg} {sent : ℕ × ClientMsg} (h : sent ∈ (c.send msg).sent) :
    sent ∈ c.sent ∨ sent.2 = msg := by
  unfold Client.send Client.sendOn at h
  split at h
  · exact Or.inl h
  · split_ifs at h
    · exact Or.inl h
    · split at h
      · exact Or.inl h
      · split_ifs at h
        · exact Or.inl h
        · rcases List.mem_append.mp h with hold | hnew
          · exact Or.inl hold
          · exact Or.inr (congrArg Prod.snd (List.mem_singleton.mp hnew))

/-- A request that is not refused sends its message, with the next correlation. -/
theorem mem_processRequest {c : Client} {kind : RequestKind} {refuse : Client → Client}
    {msg : ℕ → ClientMsg} (hrefuse : (refuse c).sent = c.sent) {sent : ℕ × ClientMsg}
    (h : sent ∈ (c.processRequest kind refuse msg).sent) :
    sent ∈ c.sent ∨ sent.2 = msg c.correlation := by
  unfold Client.processRequest at h
  split_ifs at h
  · rw [hrefuse] at h
    exact Or.inl h
  · have hsend : sent ∈ (({ c with correlation := c.correlation + 1 } : Client).send
        (msg c.correlation)).sent := by
      unfold Client.andThen at h
      dsimp only at h
      split_ifs at h <;> exact h
    rcases mem_send hsend with hold | hnew
    · exact Or.inl hold
    · exact Or.inr hnew

/-- In every state of a transaction its submit request encodes exactly its writes, and the request
that a client sends carries the creation revision when the transaction is serializable, and the
revision of the store at that time otherwise. -/
theorem submit_request_encodes_writes :
    (∀ (isolation : Isolation) (readOnly : Bool) (user : Option User) (events : List LiveEvent)
      (cid crev : ℕ) (force : Bool),
      let s := events.foldl (LiveTx.step Match.globMatch) (LiveTx.start isolation readOnly user)
      s.tx.EncodesWrites (createSubmitMsg cid crev force s.tx)) ∧
    ∀ (c : Client) (t : ℕ) (force : Bool) (sent : ℕ × ClientMsg),
      sent ∈ (c.processSubmitCmd t force).sent → sent ∈ c.sent ∨ ∃ cell m, c.txs[t]? = some cell ∧
        sent.2 = .submit m ∧ m = createSubmitMsg c.correlation c.store.rev force cell.tx ∧
        m.crev = if cell.tx.isolation = .serializable then cell.tx.revCreation else c.store.rev := by
  refine ⟨fun isolation readOnly user events cid crev force => ?_, fun c t force sent hsent => ?_⟩
  · have hstart := LiveTx.valid_start isolation readOnly user
    exact encodesWrites (hstart.run events).items
      (hstart.itemsHave_run maintained_holdsWrite (itemsHave_create _ _ _ _) events) cid crev force
  · cases hcell : c.txs[t]? with
    | none =>
      rw [Client.processSubmitCmd, hcell] at hsent
      exact Or.inl hsent
    | some cell =>
      rw [Client.processSubmitCmd, hcell] at hsent
      rcases mem_processRequest (onTx_sent c t _) hsent with hold | hnew
      · exact Or.inl hold
      · exact Or.inr ⟨cell, _, rfl, hnew, rfl, rfl⟩

end Transaction

end Nplex
