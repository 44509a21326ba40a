import LumoSQL.Index.Order

/-!
# Reading back what was inserted

What a scan of an index fetches should be the records that were inserted, each once. But LMDB keeps
the first of the keys that are equal, so a record is read back with the fields of another one when
the two differ only under the comparison of the index, and long fields are stored as a hash.

`FaithfulRun` is a run of inserts without long fields and without such pairs. `inserts_read_back`
says that a scan after such a run fetches exactly the distinct records of the inserts that were
carried out.
-/

namespace LumoSQL

open Foundation List

/-- The record has a field for every column and an integer behind them, the rowid. -/
structure RowidRecord (pKeyInfo : KeyInfo) (op : IndexInsert) : Prop where
  columns : op.fields.length = pKeyInfo.nField
  rowid : ∃ i : Int64, op.last = .int i

/-- The byte strings `sqlite3BtreeKeyFetch` returns in a scan of the index. -/
def fetchAll (index : ℕ → UInt8) : MdbTable → List Bytes
  | .dupSort nodes => (entries nodes).map (sqlite3BtreeKeyFetch index)
  | _ => []

def insertedRecords (ops : List IndexInsert) : List Bytes :=
  (ops.filter IndexInsert.accepted).map IndexInsert.z

/-- No record that goes in has a long field, and two records whose indexed fields do not differ
under the comparison of the index have the same key. -/
structure FaithfulRun (pKeyInfo : KeyInfo) (ops : List IndexInsert) : Prop where
  short : ∀ op ∈ ops, op.accepted = true → ShortFields op.fields
  apart : ∀ op ∈ ops, ∀ other ∈ ops, op.accepted = true → other.accepted = true →
    lexCompare pKeyInfo.compareField 0 op.keyFields other.keyFields = 0 →
      op.key.bytes = other.key.bytes

/-- The store has the entries of the records that went in, each once. -/
structure HoldsRecords (done : List IndexInsert) (nodes : List (Node IndexKey Bytes)) : Prop where
  tidy : Tidy compareBytes nodes
  distinct : (nodes.map fun node ↦ node.key.bytes).Nodup
  entries_iff : ∀ entry : Bytes × Bytes, entry ∈ entries (nodes.map (Node.mapKey IndexKey.bytes)) ↔
      ∃ op ∈ done, entry = (op.key.bytes, op.item)

section

variable {info : KeyInfo} {done ops : List IndexInsert} {op : IndexInsert}
  {nodes : List (Node IndexKey Bytes)}

/-- Every node has the key of a record that went in. -/
theorem HoldsRecords.origin (hholds : HoldsRecords done nodes) {node : Node IndexKey Bytes}
    (hnode : node ∈ nodes) : ∃ op ∈ done, node.key.bytes = op.key.bytes := by
  obtain ⟨item, hitem⟩ := exists_mem_of_ne_nil _ (hholds.tidy.filled node hnode)
  have hentry : (node.key.bytes, item) ∈ entries (nodes.map (Node.mapKey IndexKey.bytes)) :=
    mem_entries.mpr ⟨node.mapKey IndexKey.bytes, mem_map_of_mem hnode, rfl, hitem⟩
  obtain ⟨op, hop, heq⟩ := (hholds.entries_iff _).mp hentry
  exact ⟨op, hop, (Prod.mk.inj heq).1⟩

/-- A record goes in beside those that are there.
Assumes: its key is equal to no other one but its own. -/
theorem HoldsRecords.insert (hholds : HoldsRecords done nodes)
    (hlengths : ∀ other ∈ done, other.keyFields.length = op.keyFields.length)
    (hapart : ∀ other ∈ done, lexCompare info.compareField 0 op.keyFields other.keyFields = 0 →
      op.key.bytes = other.key.bytes) :
    HoldsRecords (done ++ [op]) (put (keyOrder info op.key) compareBytes op.key op.item nodes) := by
  -- a node is equal to the key exactly if it has the same string
  have hequal : ∀ node ∈ nodes,
      keyOrder info op.key node.key = 0 ↔ op.key.bytes = node.key.bytes := by
    intro node hnode
    obtain ⟨other, hother, hbytes⟩ := hholds.origin hnode
    have hfields : node.key.fields = other.keyFields := IndexKey.fields_of_bytes hbytes
    have hlength : op.key.fields.length = node.key.fields.length := by
      rw [hfields]
      exact (hlengths other hother).symm
    rw [keyOrder_eq_zero_iff info hlength, hfields, hbytes]
    refine ⟨hapart other hother, fun hsame ↦ ?_⟩
    have hself : op.keyFields = other.keyFields := IndexKey.fields_of_bytes hsame
    show lexCompare info.compareField 0 op.keyFields other.keyFields = 0
    rw [hself]
    exact (lexCompare_oriented (compareField_oriented info) 0).self _
  refine ⟨hholds.tidy.put compareBytes_linear _ _ _, ?_, ?_⟩
  · have hmap : ∀ nodes : List (Node IndexKey Bytes), nodes.map (fun node ↦ node.key.bytes) =
          (nodes.map Node.key).map IndexKey.bytes := fun _ ↦ by
      rw [map_map]
      rfl
    rw [hmap]
    rcases keys_put (keyOrder info op.key) compareBytes op.key op.item nodes with
      hperm | ⟨hmiss, hperm⟩
    · rw [(hperm.map IndexKey.bytes).nodup_iff, ← hmap]
      exact hholds.distinct
    · rw [(hperm.map IndexKey.bytes).nodup_iff, map_cons, nodup_cons, ← hmap]
      refine ⟨fun hmem ↦ ?_, hholds.distinct⟩
      obtain ⟨node, hnode, hbytes⟩ := mem_map.mp hmem
      exact hmiss node hnode ((hequal node hnode).mpr hbytes.symm)
  · intro entry
    obtain ⟨k, hk, hentries⟩ := mem_entries_put compareBytes_linear
      (keyOrder info op.key) op.key
      op.item nodes
    have hkbytes : k.bytes = op.key.bytes := by
      rcases hk with ⟨rfl, _⟩ | ⟨node, hnode, rfl, hzero⟩
      · rfl
      · exact ((hequal node hnode).mp hzero).symm
    rw [entries_mapKey, mem_map]
    simp only [hentries, mem_append, mem_singleton]
    have hold := hholds.entries_iff entry
    rw [entries_mapKey, mem_map] at hold
    constructor
    · rintro ⟨pair, rfl | hpair, rfl⟩
      · exact ⟨op, .inr rfl, Prod.ext hkbytes rfl⟩
      · obtain ⟨other, hother, heq⟩ := hold.mp ⟨pair, hpair, rfl⟩
        exact ⟨other, .inl hother, heq⟩
    · rintro ⟨other, hother | rfl, rfl⟩
      · obtain ⟨pair, hpair, heq⟩ := hold.mpr ⟨other, hother, rfl⟩
        exact ⟨pair, .inr hpair, heq⟩
      · exact ⟨(k, other.item), .inl rfl, Prod.ext hkbytes rfl⟩

theorem FaithfulRun.of_append {more : List IndexInsert} (hrun : FaithfulRun info (ops ++ more)) :
    FaithfulRun info ops :=
  ⟨fun op hop ↦ hrun.short op (mem_append_left more hop), fun op hop other hother ↦
    hrun.apart op (mem_append_left more hop) other (mem_append_left more hother)⟩

/-- After a run the store has the entries of the records that went in. -/
theorem runInserts_holds (hash : MdbHash) (hrecords : ∀ op ∈ ops, op.fields.length = info.nField)
    (hrun : FaithfulRun info ops) : ∃ nodes, runInserts hash info ops = indexTable nodes ∧
      HoldsRecords (ops.filter IndexInsert.accepted) nodes := by
  induction ops using List.reverseRecOn with
  | nil =>
    refine ⟨[], rfl, ⟨⟨by simp, by simp⟩, by simp, fun entry ↦ ?_⟩⟩
    simp [entries]
  | append_singleton ops op ih =>
    obtain ⟨nodes, hnodes, hholds⟩ :=
      ih (fun op hop ↦ hrecords op (mem_append_left _ hop)) hrun.of_append
    have hop : op ∈ ops ++ [op] := mem_append_right ops (.head _)
    have hstep : runInserts hash info (ops ++ [op]) =
        (op.run hash info (indexTable nodes)).2.1 := by
      rw [runInserts, foldl_append, ← runInserts, hnodes]
      rfl
    rw [filter_append, hstep]
    by_cases haccepted : op.accepted = true
    · refine ⟨put (keyOrder info op.key) compareBytes op.key op.item nodes, ?_, ?_⟩
      · rw [op.run_index hash info (hrun.short op hop haccepted)
          (by rw [hrecords op hop]; exact Nat.le_succ _) nodes, if_pos haccepted]
      · rw [filter_cons_of_pos haccepted, filter_nil]
        refine hholds.insert (fun other hother ↦ ?_) fun other hother ↦ ?_
        · have hmem := mem_append_left [op] (mem_filter.mp hother).1
          rw [IndexInsert.keyFields, IndexInsert.keyFields, length_map, length_map,
            hrecords other hmem, hrecords op hop]
        · exact hrun.apart op hop other (mem_append_left _ (mem_filter.mp hother).1)
            haccepted (mem_filter.mp hother).2
    · refine ⟨nodes, op.run_refused hash info (Bool.not_eq_true _ ▸ haccepted) nodes, ?_⟩
      rwa [filter_cons_of_neg haccepted, filter_nil, append_nil]

end

/-- After a run of inserts into an index, a scan fetches exactly the distinct records of the inserts
that were carried out. Assumes: no record has a text or blob of more than 72 bytes in a column, and
two records whose indexed fields do not differ under the comparison of the index have the same key.
-/
theorem inserts_read_back (hash : MdbHash) (pKeyInfo : KeyInfo) (index : ℕ → UInt8)
    (ops : List IndexInsert) (hrecords : ∀ op ∈ ops, RowidRecord pKeyInfo op)
    (hrun : FaithfulRun pKeyInfo ops) :
    (fetchAll index (runInserts hash pKeyInfo ops) : Multiset Bytes) =
      (insertedRecords ops).toFinset.val := by
  obtain ⟨nodes, hnodes, hholds⟩ :=
    runInserts_holds hash (fun op hop ↦ (hrecords op hop).columns) hrun
  have hkeys : ((nodes.map (Node.mapKey IndexKey.bytes)).map Node.key).Nodup := by
    rw [map_map]
    exact hholds.distinct
  have htidy : Tidy compareBytes (nodes.map (Node.mapKey IndexKey.bytes)) := by
    refine ⟨fun node hnode ↦ ?_, fun node hnode ↦ ?_⟩
    · obtain ⟨other, hother, rfl⟩ := mem_map.mp hnode
      exact hholds.tidy.filled other hother
    · obtain ⟨other, hother, rfl⟩ := mem_map.mp hnode
      exact hholds.tidy.sorted other hother
  have hfetched : fetchAll index (runInserts hash pKeyInfo ops) =
      (entries (nodes.map (Node.mapKey IndexKey.bytes))).map (sqlite3BtreeKeyFetch index) := by
    rw [hnodes]
    rfl
  rw [hfetched]
  refine (Multiset.Nodup.ext (Multiset.coe_nodup.mpr ?_) (Finset.nodup _)).mpr fun z ↦ ?_
  · refine List.Nodup.map_on ?_ (entries_nodup compareBytes_linear htidy hkeys)
    intro left hleft right hright hsame
    obtain ⟨op, _, rfl⟩ := (hholds.entries_iff left).mp hleft
    obtain ⟨other, _, rfl⟩ := (hholds.entries_iff right).mp hright
    rw [op.fetch, other.fetch] at hsame
    exact IndexInsert.entry_of_record hsame
  · rw [Multiset.mem_coe, mem_map, ← Finset.mem_def, mem_toFinset, insertedRecords, mem_map]
    constructor
    · rintro ⟨entry, hentry, rfl⟩
      obtain ⟨op, hop, rfl⟩ := (hholds.entries_iff entry).mp hentry
      exact ⟨op, hop, (op.fetch index).symm⟩
    · rintro ⟨op, hop, rfl⟩
      exact ⟨(op.key.bytes, op.item), (hholds.entries_iff _).mpr ⟨op, hop, rfl⟩, op.fetch index⟩

/-- The insert of the record `(1, 7)`. -/
def insertOneSeven : IndexInsert :=
  .ofRecord 1 [.int 1] (.int 7) [3, 1, 1, 1, 7]
    ⟨by decide, SQLITE_MAX_LENGTH, [3, 1, 1, 1, 7], 0, Nat.le_refl _, by decide, rfl⟩ (by decide)
    (by decide)

/-- The insert of the record `(1.0, 8)`. -/
def insertRealEight : IndexInsert :=
  .ofRecord 1 [.real ⟨0x3ff0000000000000, by decide⟩] (.int 8)
    [3, 7, 1, 0x3f, 0xf0, 0, 0, 0, 0, 0, 0, 8]
    ⟨by decide, SQLITE_MAX_LENGTH, [3, 7, 1, 0x3f, 0xf0, 0, 0, 0, 0, 0, 0, 8], 0, Nat.le_refl _,
      by decide, rfl⟩ (by decide) (by decide)

theorem inserts_read_back_oneSeven :
    (fetchAll (fun _ ↦ 0) (runInserts .fnv ⟨[(none, false)]⟩ [insertOneSeven, insertOneSeven]) :
      Multiset Bytes) = (insertedRecords [insertOneSeven, insertOneSeven]).toFinset.val :=
  inserts_read_back .fnv ⟨[(none, false)]⟩ (fun _ ↦ 0) [insertOneSeven, insertOneSeven] (by
      intro op hop
      obtain rfl : op = insertOneSeven := by simpa using hop
      exact ⟨rfl, 7, rfl⟩)
    ⟨by decide, fun op hop other hother _ _ _ ↦ by
      obtain rfl : op = insertOneSeven := by simpa using hop
      obtain rfl : other = insertOneSeven := by simpa using hother
      rfl⟩

/-- The integer `1` and the double `1.0` are equal in an index. After the records `(1, 7)` and
`(1.0, 8)` have been inserted, the second one is read back as `(1, 8)`. -/
theorem inserts_merge_equal_keys :
    fetchAll (fun _ ↦ 0) (runInserts .fnv ⟨[(none, false)]⟩ [insertOneSeven, insertRealEight]) =
        [[3, 1, 1, 1, 7], [3, 1, 1, 1, 8]] ∧
      (fetchAll (fun _ ↦ 0) (runInserts .fnv ⟨[(none, false)]⟩ [insertOneSeven, insertRealEight]) :
        Multiset Bytes) ≠ (insertedRecords [insertOneSeven, insertRealEight]).toFinset.val := by
  have hfetched : fetchAll (fun _ ↦ 0)
      (runInserts .fnv ⟨[(none, false)]⟩ [insertOneSeven, insertRealEight]) =
        [[3, 1, 1, 1, 7], [3, 1, 1, 1, 8]] := by
    decide +kernel
  refine ⟨hfetched, fun hsame ↦ ?_⟩
  have hmem : insertRealEight.z ∈
      (insertedRecords [insertOneSeven, insertRealEight]).toFinset.val := by
    rw [← Finset.mem_def, mem_toFinset]
    decide
  rw [← hsame, hfetched, Multiset.mem_coe] at hmem
  exact absurd hmem (by decide)

end LumoSQL
