import LumoSQL.Foundation.Walk
import LumoSQL.Index.Fidelity
import LumoSQL.Index.RowidItem

/-!
# The order of an index scan

A scan of an index should come by its entries in the order of the indexed fields, and among equal
fields in the order of the rowids. The fields are compared by `BtreeCompare`, so they are in order.
The rowids are compared as data items, byte by byte. `index_order_iff` says that the scan of an
index is in order exactly if any two rowids with equal fields have serial types in their order, or
one serial type and one sign.
-/

namespace LumoSQL

open Foundation List Option Value

/-- The records that `First`, `Next`, … come by. -/
def forwardRecords (index : ℕ → UInt8) : MdbTable → List Bytes
  | .dupSort nodes =>
    (walk (entries nodes) (nextPlace (entries nodes)) (entries nodes).length
      (firstPlace (entries nodes))).map (sqlite3BtreeKeyFetch index)
  | _ => []

/-- The comparison of two records by their indexed fields. -/
def compareIndexed (pKeyInfo : KeyInfo) (z other : Bytes) : ℤ :=
  (sqlite3VdbeRecordCompare pKeyInfo z (ofBytes other)
    { aMem := sqlite3VdbeRecordUnpack (ofBytes other) other.length 0 pKeyInfo.nField
      incrKey := false
      prefixMatch := true
      prefixSearch := false
      rowid := 0 }).1

/-- The rowid of a record, the field behind the indexed ones. -/
def recordRowid (pKeyInfo : KeyInfo) (z : Bytes) : Option Int64 :=
  match (sqlite3VdbeRecordUnpack (ofBytes z) z.length 0
    (pKeyInfo.nField + 1))[pKeyInfo.nField]? with
  | some (.int i) => some i
  | _ => none

/-- The first record is before the second by the indexed fields, or by the rowid if they are equal.
-/
def IndexOrder (pKeyInfo : KeyInfo) (z other : Bytes) : Prop :=
  compareIndexed pKeyInfo z other < 0 ∨
    (compareIndexed pKeyInfo z other = 0 ∧ ∃ r ∈ recordRowid pKeyInfo z,
      ∃ s ∈ recordRowid pKeyInfo other, r.toInt < s.toInt)

def SamePair (pKeyInfo : KeyInfo) (z other : Bytes) : Prop :=
  compareIndexed pKeyInfo z other = 0 ∧ recordRowid pKeyInfo z = recordRowid pKeyInfo other

/-- The scan is in order and comes by the pairs of the inserted records. -/
structure IndexScan (pKeyInfo : KeyInfo) (index : ℕ → UInt8) (ops : List IndexInsert)
    (table : MdbTable) : Prop where
  ordered : (forwardRecords index table).Pairwise (IndexOrder pKeyInfo)
  visited : ∀ op ∈ ops, op.accepted = true →
    ∃ z ∈ forwardRecords index table, SamePair pKeyInfo z op.z
  inserted : ∀ z ∈ forwardRecords index table,
    ∃ op ∈ ops, op.accepted = true ∧ SamePair pKeyInfo z op.z

/-- The inserted records have one file format, a rowid behind the columns, and in the columns short
fields that are no real numbers. -/
structure RowidRun (pKeyInfo : KeyInfo) (fileFormat : ℕ) (ops : List IndexInsert) : Prop where
  format : ∀ op ∈ ops, op.recordFormat = fileFormat
  records : ∀ op ∈ ops, RowidRecord pKeyInfo op
  short : ∀ op ∈ ops, ShortFields op.fields
  notReal : ∀ op ∈ ops, ∀ v ∈ op.fields, v.NotReal

/-- Rowids that are inserted with equal fields have serial types in their order, or one serial type
and one sign. -/
def SerialOrder (pKeyInfo : KeyInfo) (fileFormat : ℕ) (ops : List IndexInsert) : Prop :=
  ∀ op ∈ ops, ∀ other ∈ ops, op.accepted = true → other.accepted = true →
    lexCompare pKeyInfo.compareField 0 op.keyFields other.keyFields = 0 →
      ∀ r s : Int64, op.last = .int r → other.last = .int s → r.toInt < s.toInt →
        SerialBefore fileFormat r s

/-- The entry has a field for every column and the item of a rowid, under one file format. -/
structure RowidEntry (pKeyInfo : KeyInfo) (fileFormat : ℕ) (entry : IndexKey × Bytes) (r : Int64) :
    Prop where
  format : entry.1.fileFormat = fileFormat
  columns : entry.1.fields.length = pKeyInfo.nField
  item : entry.2 = lastItem fileFormat (.int r)

/-- The store has an entry for the fields and the rowid of every insert that was carried out, and no
other ones. -/
structure HoldsPairs (pKeyInfo : KeyInfo) (fileFormat : ℕ) (ops : List IndexInsert)
    (nodes : List (Node IndexKey Bytes)) : Prop where
  store : IndexStore pKeyInfo (fun _ ↦ Value.NotReal) pKeyInfo.nField nodes
  origin : ∀ entry ∈ entries nodes, ∃ r, RowidEntry pKeyInfo fileFormat entry r ∧
    ∃ op ∈ ops, op.accepted = true ∧ op.last = .int r ∧
      lexCompare pKeyInfo.compareField 0 entry.1.fields op.keyFields = 0
  present : ∀ op ∈ ops, op.accepted = true → ∀ r : Int64, op.last = .int r →
    ∃ entry ∈ entries nodes, RowidEntry pKeyInfo fileFormat entry r ∧
      lexCompare pKeyInfo.compareField 0 entry.1.fields op.keyFields = 0

section

variable {pKeyInfo : KeyInfo} {fileFormat : ℕ} {entry other : IndexKey × Bytes} {r s : Int64}
  {ops : List IndexInsert} {nodes : List (Node IndexKey Bytes)} {index : ℕ → UInt8}

/-! ### The records of entries -/

variable {op : IndexInsert} {z : Bytes}

section

variable (hentry : RowidEntry pKeyInfo fileFormat entry r)

include hentry

/-- The record of an entry is taken apart into its fields and the rowid. -/
theorem RowidEntry.unpack (n : ℕ) (hz : z = sqlite3BtreeKeyFetch index (entry.1.bytes, entry.2)) :
    (sqlite3VdbeRecordUnpack (ofBytes z) z.length 0 n).map (Mem.value (ofBytes z)) =
      (entry.1.fields ++ [Value.int r]).take n := by
  have htype := serialType_int_lt entry.1.fileFormat r
  have hbytes : z = recordBytes entry.1.fileFormat
      (keyHeader entry.1.fileFormat entry.1.fields + 1) (entry.1.fields ++ [.int r]) := by
    rw [hz, hentry.item, ← hentry.format]
    exact keyFetch_entry index entry.1.ok htype
  exact recordUnpack_values n (entry.1.ok.recordable.append_int r)
    (entry.1.ok.header.append_last entry.1.ok.fits entry.1.ok.varint htype) hbytes

theorem RowidEntry.rowid :
    recordRowid pKeyInfo (sqlite3BtreeKeyFetch index (entry.1.bytes, entry.2)) = some r := by
  obtain ⟨z, hz⟩ : ∃ z, z = sqlite3BtreeKeyFetch index (entry.1.bytes, entry.2) := ⟨_, rfl⟩
  have hvalue := congrArg (fun values ↦ values[pKeyInfo.nField]?)
    (hentry.unpack (pKeyInfo.nField + 1) hz)
  have hlast : ((entry.1.fields ++ [Value.int r]).take (pKeyInfo.nField + 1))[pKeyInfo.nField]? =
      some (.int r) := by
    rw [← hentry.columns, take_of_length_le (by simp), getElem?_concat_length]
  simp only [hlast, getElem?_map, map_eq_some_iff] at hvalue
  obtain ⟨register, hregister, hint⟩ := hvalue
  rw [← hz, recordRowid, hregister]
  cases register with
  | int i => exact congrArg some (int.inj hint)
  | _ => exact absurd hint (by simp [Mem.value])

/-- Records of entries are compared by the fields of their keys. -/
theorem RowidEntry.compareIndexed (hother : RowidEntry pKeyInfo fileFormat other s) :
    compareIndexed pKeyInfo (sqlite3BtreeKeyFetch index (entry.1.bytes, entry.2))
        (sqlite3BtreeKeyFetch index (other.1.bytes, other.2)) =
      lexCompare pKeyInfo.compareField 0 entry.1.fields other.1.fields := by
  have hitem : ItemOf (.int r) entry.2 :=
    ⟨fileFormat, trivial, serialType_int_lt fileFormat r, hentry.item⟩
  have hlength : other.1.fields.length ≤ entry.1.fields.length := by
    rw [hentry.columns, hother.columns]
  rw [LumoSQL.compareIndexed, fetch_compare pKeyInfo index _ entry.1 hitem,
    hother.unpack pKeyInfo.nField rfl, take_left' hother.columns]
  simp only [compareFields, lexCompare_shorter _ hlength, Bool.false_eq_true, if_false, if_true]
  split_ifs with hdiffer
  · rfl
  · exact (not_not.mp hdiffer).symm

theorem RowidEntry.indexOrder_iff (hother : RowidEntry pKeyInfo fileFormat other s) :
    IndexOrder pKeyInfo (sqlite3BtreeKeyFetch index (entry.1.bytes, entry.2))
        (sqlite3BtreeKeyFetch index (other.1.bytes, other.2)) ↔
      lexCompare pKeyInfo.compareField 0 entry.1.fields other.1.fields < 0 ∨
        (lexCompare pKeyInfo.compareField 0 entry.1.fields other.1.fields = 0 ∧
          r.toInt < s.toInt) := by
  simp [IndexOrder, hentry.compareIndexed hother, hentry.rowid, hother.rowid, exists_eq_left']

theorem RowidEntry.samePair_iff (hother : RowidEntry pKeyInfo fileFormat other s) :
    SamePair pKeyInfo (sqlite3BtreeKeyFetch index (entry.1.bytes, entry.2))
        (sqlite3BtreeKeyFetch index (other.1.bytes, other.2)) ↔
      lexCompare pKeyInfo.compareField 0 entry.1.fields other.1.fields = 0 ∧ r = s := by
  rw [SamePair, hentry.compareIndexed hother, hentry.rowid, hother.rowid, some_inj]

end

theorem forwardRecords_index (index : ℕ → UInt8) (nodes : List (Node IndexKey Bytes)) :
    forwardRecords index (indexTable nodes) =
      (entries nodes).map fun entry ↦ sqlite3BtreeKeyFetch index (entry.1.bytes, entry.2) := by
  rw [indexTable, forwardRecords, forward_eq _ (Nat.le_refl _), entries_mapKey, List.map_map]
  rfl

/-! ### The entries of a run -/

theorem RowidRun.comparable (hrun : RowidRun pKeyInfo fileFormat ops) :
    ComparableRun pKeyInfo (fun _ ↦ Value.NotReal) pKeyInfo.nField ops := by
  refine ⟨fun _ ↦ compareField_trans (memCompare_trans _), fun op hop _ ↦ hrun.short op hop, ?_⟩
  intro op hop _
  refine ⟨?_, fun j v hv ↦ ?_⟩
  · rw [IndexInsert.keyFields, length_map]
    exact (hrun.records op hop).columns
  · obtain ⟨w, hw, rfl⟩ := mem_map.mp (mem_of_getElem? hv)
    exact (hrun.notReal op hop w hw).expand

theorem RowidRun.insertEntry (hrun : RowidRun pKeyInfo fileFormat ops) (hop : op ∈ ops) :
    ∃ r : Int64, op.last = .int r ∧ RowidEntry pKeyInfo fileFormat (op.key, op.item) r := by
  obtain ⟨hcolumns, r, hlast⟩ := hrun.records op hop
  refine ⟨r, hlast, hrun.format op hop, ?_, ?_⟩
  · exact (length_map _).trans hcolumns
  · show lastItem op.recordFormat op.last.expand = _
    rw [hrun.format op hop, hlast]
    rfl

theorem RowidRun.storedEntry (hrun : RowidRun pKeyInfo fileFormat ops) (hfrom : ComesFrom ops nodes)
    (hentry : entry ∈ entries nodes) : ∃ r, RowidEntry pKeyInfo fileFormat entry r := by
  obtain ⟨node, hnode, hkey, hitem⟩ := mem_entries.mp hentry
  obtain ⟨⟨op, hop, _, hopKey⟩, hitems⟩ := hfrom node hnode
  obtain ⟨item, hitemOp, _, hopItem⟩ := hitems entry.2 hitem
  obtain ⟨_, _, hkeyEntry⟩ := hrun.insertEntry hop
  obtain ⟨r, _, hitemEntry⟩ := hrun.insertEntry hitemOp
  rw [hopKey] at hkey
  refine ⟨r, ?_, ?_, ?_⟩
  · rw [← hkey]
    exact hkeyEntry.format
  · rw [← hkey]
    exact hkeyEntry.columns
  · rw [hopItem]
    exact hitemEntry.item

/-- After a run the store has the pairs of the inserts that were carried out. -/
theorem RowidRun.holdsPairs (hash : MdbHash) (hrun : RowidRun pKeyInfo fileFormat ops) :
    ∃ nodes, runInserts hash pKeyInfo ops = indexTable nodes ∧
      HoldsPairs pKeyInfo fileFormat ops nodes := by
  have hcomparable := hrun.comparable
  have horiented := lexCompareField_oriented pKeyInfo
  obtain ⟨nodes, hindex, hstore, hfrom, hstored⟩ :=
    runInserts_content hash hcomparable (Nat.le_succ _)
  refine ⟨nodes, hindex, hstore, fun entry hentry ↦ ?_, fun op hop haccepted r hlast ↦ ?_⟩
  · obtain ⟨r, hrowid⟩ := hrun.storedEntry hfrom hentry
    obtain ⟨op, hop, haccepted, hequal, hitem⟩ := (hstored entry.1.fields entry.2
      (hstore.fields_of_mem hentry)).mp ⟨entry, hentry, horiented.self _, rfl⟩
    obtain ⟨s, hlast, hopEntry⟩ := hrun.insertEntry hop
    have hsame : r = s := lastItem_int_inj (hrowid.item.symm.trans (hitem.trans hopEntry.item))
    exact ⟨r, hrowid, op, hop, haccepted, hsame ▸ hlast, hequal⟩
  · obtain ⟨entry, hentry, hequal, hitem⟩ :=
      (hstored op.keyFields op.item (hcomparable.fields op hop haccepted)).mpr
        ⟨op, hop, haccepted, horiented.self _, rfl⟩
    obtain ⟨s, hrowid⟩ := hrun.storedEntry hfrom hentry
    obtain ⟨r', hlast', hopEntry⟩ := hrun.insertEntry hop
    have hr : r' = r := int.inj (hlast'.symm.trans hlast)
    have hsame : s = r' := lastItem_int_inj (hrowid.item.symm.trans (hitem.trans hopEntry.item))
    exact ⟨entry, hentry, hsame.trans hr ▸ hrowid, (horiented.eq_zero_comm _ _).mp hequal⟩

/-! ### The order of a scan -/

section

variable (hholds : HoldsPairs pKeyInfo fileFormat ops nodes)
  (hrun : RowidRun pKeyInfo fileFormat ops)

include hholds hrun

theorem HoldsPairs.visited (index : ℕ → UInt8) (hop : op ∈ ops) (haccepted : op.accepted = true) :
    ∃ z ∈ forwardRecords index (indexTable nodes), SamePair pKeyInfo z op.z := by
  obtain ⟨r, hlast, hopEntry⟩ := hrun.insertEntry hop
  obtain ⟨entry, hentry, hrowid, hequal⟩ := hholds.present op hop haccepted r hlast
  refine ⟨sqlite3BtreeKeyFetch index (entry.1.bytes, entry.2), ?_, ?_⟩
  · rw [forwardRecords_index]
    exact mem_map.mpr ⟨entry, hentry, rfl⟩
  · rw [← op.fetch index]
    exact (hrowid.samePair_iff hopEntry).mpr ⟨hequal, rfl⟩

theorem HoldsPairs.inserted (hz : z ∈ forwardRecords index (indexTable nodes)) :
    ∃ op ∈ ops, op.accepted = true ∧ SamePair pKeyInfo z op.z := by
  rw [forwardRecords_index] at hz
  obtain ⟨entry, hentry, rfl⟩ := mem_map.mp hz
  obtain ⟨r, hrowid, op, hop, haccepted, hlast, hequal⟩ := hholds.origin entry hentry
  obtain ⟨r', hlast', hopEntry⟩ := hrun.insertEntry hop
  refine ⟨op, hop, haccepted, ?_⟩
  rw [← op.fetch index]
  exact (hrowid.samePair_iff hopEntry).mpr ⟨hequal, int.inj (hlast.symm.trans hlast')⟩

/-- The rowids with equal fields have serial types in order if the scan is in order. -/
theorem HoldsPairs.serialOrder
    (hscan : (forwardRecords index (indexTable nodes)).Pairwise (IndexOrder pKeyInfo)) :
    SerialOrder pKeyInfo fileFormat ops := by
  have horiented := lexCompareField_oriented pKeyInfo
  have hcomparable := hrun.comparable
  have htrans := lexCompareField_trans hcomparable.transitive pKeyInfo.nField
  intro op hop other hother haccepted hotherAccepted hequal r s hlast hotherLast hless
  obtain ⟨a, ha, haEntry, haEqual⟩ := hholds.present op hop haccepted r hlast
  obtain ⟨b, hb, hbEntry, hbEqual⟩ := hholds.present other hother hotherAccepted s hotherLast
  have haFields := hholds.store.fields_of_mem ha
  have hbFields := hholds.store.fields_of_mem hb
  have hopFields := hcomparable.fields op hop haccepted
  have hsame : lexCompare pKeyInfo.compareField 0 a.1.fields b.1.fields = 0 := by
    have hleft := htrans.congr_left horiented hopFields
      (hcomparable.fields other hother hotherAccepted) hbFields hequal
    have hright := htrans.congr_left horiented haFields hopFields hbFields haEqual
    exact hright.2.mpr (hleft.2.mpr ((horiented.eq_zero_comm _ _).mp hbEqual))
  have hne : a ≠ b := by
    rintro rfl
    have hrowid : r = s := lastItem_int_inj (haEntry.item.symm.trans hbEntry.item)
    rw [hrowid] at hless
    exact lt_irrefl _ hless
  rw [forwardRecords_index, pairwise_map] at hscan
  rcases pairwise_either ((hholds.store.ordered.entries_sorted hholds.store.tidy).and
    hscan) ha hb hne
    with ⟨hbefore | ⟨_, hitems⟩, _⟩ | ⟨_, hscanned⟩
  · exact absurd hsame hbefore.ne
  · rw [haEntry.item, hbEntry.item] at hitems
    exact (compareItem_neg_iff hless).mp hitems
  · rcases (hbEntry.indexOrder_iff haEntry).mp hscanned with hbefore | ⟨_, hrowids⟩
    · exact absurd ((horiented.eq_zero_comm _ _).mp hsame) hbefore.ne
    · exact absurd hless hrowids.asymm

/-- The scan is in order if the rowids with equal fields have serial types in order. -/
theorem HoldsPairs.indexOrder (hserial : SerialOrder pKeyInfo fileFormat ops) (index : ℕ → UInt8) :
    (forwardRecords index (indexTable nodes)).Pairwise (IndexOrder pKeyInfo) := by
  have horiented := lexCompareField_oriented pKeyInfo
  have hcomparable := hrun.comparable
  have htrans := lexCompareField_trans hcomparable.transitive pKeyInfo.nField
  rw [forwardRecords_index, pairwise_map]
  refine (hholds.store.ordered.entries_sorted hholds.store.tidy).imp_of_mem
    fun {a b} ha hb hsorted ↦ ?_
  obtain ⟨r, haEntry, op, hop, haccepted, hlast, haEqual⟩ := hholds.origin a ha
  obtain ⟨s, hbEntry, other, hother, hotherAccepted, hotherLast, hbEqual⟩ := hholds.origin b hb
  rw [haEntry.indexOrder_iff hbEntry]
  rcases hsorted with hbefore | ⟨hkey, hitems⟩
  · exact .inl hbefore
  · -- two items of one key, so the rowids went in with equal fields
    rw [← hkey] at hbEqual ⊢
    have hequal := (htrans.congr_left horiented (hholds.store.fields_of_mem ha)
        (hcomparable.fields other hother hotherAccepted) (hcomparable.fields op hop haccepted)
        hbEqual).2.mp haEqual
    refine .inr ⟨horiented.self _, ?_⟩
    rw [haEntry.item, hbEntry.item] at hitems
    rcases lt_trichotomy r.toInt s.toInt with hless | heq | hgreater
    · exact hless
    · rw [Int64.toInt_inj.mp heq, compareBytes_oriented.self] at hitems
      exact absurd hitems (lt_irrefl 0)
    · have hbefore := hserial other hother op hop hotherAccepted haccepted hequal s r
        hotherLast hlast
        hgreater
      exact absurd ((compareItem_neg_iff hgreater).mpr hbefore) (compareBytes_linear.asymm hitems)

end

/-- The scan of an index is in order exactly if the rowids with equal fields have serial types in
their order, or one serial type and one sign. -/
theorem index_order_iff (hash : MdbHash) (index : ℕ → UInt8)
    (hrun : RowidRun pKeyInfo fileFormat ops) :
    IndexScan pKeyInfo index ops (runInserts hash pKeyInfo ops) ↔
      SerialOrder pKeyInfo fileFormat ops := by
  obtain ⟨nodes, hindex, hholds⟩ := hrun.holdsPairs hash
  rw [hindex]
  constructor
  · intro hscan
    exact hholds.serialOrder hrun hscan.ordered
  · intro hserial
    exact ⟨hholds.indexOrder hrun hserial index,
      fun op hop haccepted ↦ hholds.visited hrun index hop haccepted,
      fun z hz ↦ hholds.inserted hrun hz⟩

end

/-- The insert of the record with the field `5` and the rowid `1`. -/
def insertFiveOne : IndexInsert :=
  .ofRecord 1 [.int 5] (.int 1) [3, 1, 1, 5, 1]
    ⟨by decide, SQLITE_MAX_LENGTH, [3, 1, 1, 5, 1], 0, Nat.le_refl _, by decide, rfl⟩ (by decide)
    (by decide)

/-- The insert of the record with the field `5` and the rowid `-1`. -/
def insertFiveMinusOne : IndexInsert :=
  .ofRecord 1 [.int 5] (.int (-1)) [3, 1, 1, 5, 255]
    ⟨by decide, SQLITE_MAX_LENGTH, [3, 1, 1, 5, 255], 0, Nat.le_refl _, by decide, rfl⟩ (by decide)
    (by decide)

theorem index_order_iff_five :
    IndexScan ⟨[(none, false)]⟩ (fun _ ↦ 0) [insertFiveOne, insertFiveMinusOne]
        (runInserts .fnv ⟨[(none, false)]⟩ [insertFiveOne, insertFiveMinusOne]) ↔
      SerialOrder ⟨[(none, false)]⟩ 1 [insertFiveOne, insertFiveMinusOne] := by
  refine index_order_iff .fnv (fun _ ↦ 0) ⟨?_, ?_, ?_, ?_⟩
  · decide
  · intro op hop
    rcases mem_cons.mp hop with rfl | hop
    · exact ⟨rfl, 1, rfl⟩
    · rw [mem_singleton.mp hop]
      exact ⟨rfl, -1, rfl⟩
  · decide
  · intro op hop v hv
    have hfields : op.fields = [.int 5] := by
      rcases mem_cons.mp hop with rfl | hop
      · rfl
      · rw [mem_singleton.mp hop]
        rfl
    rw [hfields] at hv
    rw [mem_singleton.mp hv]
    trivial

/-- A scan comes by the rowid `1` before the rowid `-1`, whose one byte is `255`. -/
theorem index_order_fails_negative : forwardRecords (fun _ ↦ 0) (runInserts .fnv ⟨[(none, false)]⟩
      [insertFiveOne, insertFiveMinusOne]) = [[3, 1, 1, 5, 1], [3, 1, 1, 5, 255]] ∧
    ¬ IndexScan ⟨[(none, false)]⟩ (fun _ ↦ 0) [insertFiveOne, insertFiveMinusOne]
      (runInserts .fnv ⟨[(none, false)]⟩ [insertFiveOne, insertFiveMinusOne]) := by
  have hrecords : forwardRecords (fun _ ↦ 0)
      (runInserts .fnv ⟨[(none, false)]⟩ [insertFiveOne, insertFiveMinusOne]) =
        [[3, 1, 1, 5, 1], [3, 1, 1, 5, 255]] := by
    decide
  have hequal : compareIndexed ⟨[(none, false)]⟩ [3, 1, 1, 5, 1] [3, 1, 1, 5, 255] = 0 := by decide
  have hone : recordRowid ⟨[(none, false)]⟩ [3, 1, 1, 5, 1] = some 1 := by decide
  have hminus : recordRowid ⟨[(none, false)]⟩ [3, 1, 1, 5, 255] = some (-1) := by decide
  refine ⟨hrecords, fun hscan ↦ ?_⟩
  have hordered := hscan.ordered
  rw [hrecords, pairwise_pair, IndexOrder, hequal, hone, hminus] at hordered
  simp only [lt_irrefl, false_or, true_and, mem_some_iff, exists_eq_left'] at hordered
  cases hordered

end LumoSQL
