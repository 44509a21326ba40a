import LumoSQL.Index.ScanOrder
import LumoSQL.Index.Seek

/-!
# An index as a set of pairs

By its purpose an index is a set of pairs of fields and a rowid, where fields that do not differ
under the comparison of the index are the same. `OP_IdxInsert` should add one pair and
`OP_IdxDelete` should take one away. `pairStep` says this on sets of pairs, and `storedPairs` is the
set of the pairs a scan of an index comes by.

An insert cuts the item of the rowid out of a record, while a delete makes one of a register, looks
for it under the key that is equal to the other registers and goes on with another entry if it is
not there. `RowidStore.moveto` says that the search reports an equal entry exactly if the pair is
stored, and is at it then. So every run of inserts and deletes does to the stored pairs what it does
to the set (`index_refines_pairs`).
-/

namespace LumoSQL

open Foundation List Option

/-! ### The opcodes -/

/-- `OP_IdxInsert` of a record with a field for every column and a rowid. The fields are short and
no real numbers. -/
structure IdxInsert (pKeyInfo : KeyInfo) (fileFormat : ℕ) where
  call : IndexInsert
  rowid : Int64
  format : call.recordFormat = fileFormat
  columns : call.fields.length = pKeyInfo.nField
  last : call.last = .int rowid
  short : ShortFields call.fields
  notReal : ∀ v ∈ call.fields, v.NotReal

/-- `OP_IdxDelete` with registers that hold a field for every column and a rowid. The fields are
short and no real numbers. The buffer of the cursor may hold anything, and `outcome` is the code
LMDB reports for the removal. -/
structure IdxDelete (pKeyInfo : KeyInfo) (fileFormat : ℕ) where
  aMem : List Mem
  mem : ℕ → UInt8
  index : ℕ → UInt8
  past : Bool
  outcome : MdbRc
  fields : List Value
  rowid : Int64
  values : aMem.map (Mem.value mem) = fields ++ [.int rowid]
  columns : fields.length = pKeyInfo.nField
  short : Short fileFormat aMem
  notReal : ∀ v ∈ fields, v.NotReal

inductive IndexOp (pKeyInfo : KeyInfo) (fileFormat : ℕ)
  | idxInsert (op : IdxInsert pKeyInfo fileFormat)
  | idxDelete (op : IdxDelete pKeyInfo fileFormat)

section

variable {pKeyInfo : KeyInfo} {fileFormat : ℕ}

/-- The unpacked record of `OP_IdxDelete`. -/
def IdxDelete.record (op : IdxDelete pKeyInfo fileFormat) : UnpackedRecord where
  aMem := op.aMem
  incrKey := false
  prefixMatch := false
  prefixSearch := false
  rowid := 0

/-- `OP_IdxDelete`: the code and the content. -/
def IdxDelete.run (hash : MdbHash) (table : MdbTable) (op : IdxDelete pKeyInfo fileFormat) :
    Option (Rc × MdbTable) :=
  (sqlite3BtreeMovetoUnpacked hash pKeyInfo fileFormat op.past op.index table op.mem
    (some op.record)
    0).map fun moved ↦ match moved.place with
      | some place =>
        if moved.rc = .ok ∧ moved.res = 0 then sqlite3BtreeDelete op.outcome table place
        else (moved.rc, table)
      | none => (moved.rc, table)

def IndexOp.run (hash : MdbHash) (table : MdbTable) : IndexOp pKeyInfo fileFormat → Option MdbTable
  | .idxInsert op => some (op.call.run hash pKeyInfo table).2.1
  | .idxDelete op => (op.run hash table).map Prod.snd

def runOps (hash : MdbHash) (ops : List (IndexOp pKeyInfo fileFormat)) : Option MdbTable :=
  ops.foldlM (IndexOp.run hash) (indexTable [])

end

/-! ### The set of pairs -/

def fieldClass (pKeyInfo : KeyInfo) (fields : List Value) : Set (List Value) :=
  classOf (FieldsOf (fun _ ↦ Value.NotReal) pKeyInfo.nField)
    (lexCompare pKeyInfo.compareField 0) fields

/-- What an opcode that is carried out does to a set of pairs. -/
def pairStep {pKeyInfo : KeyInfo} {fileFormat : ℕ} (pairs : Set (Set (List Value) × Int64)) :
    IndexOp pKeyInfo fileFormat → Set (Set (List Value) × Int64)
  | .idxInsert op =>
    if op.call.accepted then insert (fieldClass pKeyInfo op.call.keyFields, op.rowid)
      pairs else pairs
  | .idxDelete op =>
    if op.outcome = .success then pairs \ {(fieldClass pKeyInfo op.fields, op.rowid)} else pairs

def recordFields (pKeyInfo : KeyInfo) (z : Bytes) : List Value :=
  (sqlite3VdbeRecordUnpack (ofBytes z) z.length 0 pKeyInfo.nField).map (Mem.value (ofBytes z))

def storedPairs (pKeyInfo : KeyInfo) (index : ℕ → UInt8) (table : MdbTable) :
    Set (Set (List Value) × Int64) :=
  {pair | ∃ z ∈ forwardRecords index table, ∃ r ∈ recordRowid pKeyInfo z,
    pair = (fieldClass pKeyInfo (recordFields pKeyInfo z), r)}

/-- The store of an index of pairs: all keys and items are of one file format, and the items are
those of rowids. -/
structure RowidStore (pKeyInfo : KeyInfo) (fileFormat : ℕ) (nodes : List (Node IndexKey Bytes)) :
    Prop where
  store : IndexStore pKeyInfo (fun _ ↦ Value.NotReal) pKeyInfo.nField nodes
  rowids : ∀ node ∈ nodes, node.key.fileFormat = fileFormat ∧
    ∀ item ∈ node.items, ∃ r : Int64, item = lastItem fileFormat (.int r)

def pairsWith (pKeyInfo : KeyInfo) (P : List Value → Int64 → Prop) :
    Set (Set (List Value) × Int64) :=
  {pair | ∃ fields r, FieldsOf (fun _ ↦ Value.NotReal) pKeyInfo.nField fields ∧ P fields r ∧
    pair = (fieldClass pKeyInfo fields, r)}

section

variable {pKeyInfo : KeyInfo} {fileFormat : ℕ} {nodes : List (Node IndexKey Bytes)}
  {fields : List Value} {r : Int64}

theorem compareField_notReal (pKeyInfo : KeyInfo) (i : ℕ) :
    TransOn Value.NotReal (pKeyInfo.compareField i) := compareField_trans (memCompare_trans _)

theorem fieldClass_eq_iff {other : List Value}
    (hfields : FieldsOf (fun _ ↦ Value.NotReal) pKeyInfo.nField fields)
    (hother : FieldsOf (fun _ ↦ Value.NotReal) pKeyInfo.nField other) :
    fieldClass pKeyInfo fields = fieldClass pKeyInfo other ↔
      lexCompare pKeyInfo.compareField 0 fields other = 0 :=
  classOf_eq_iff (lexCompareField_trans (compareField_notReal pKeyInfo) _)
    (lexCompareField_oriented pKeyInfo) hfields hother

theorem pairsWith_congr {P Q : List Value → Int64 → Prop}
    (hiff : ∀ fields, FieldsOf (fun _ ↦ Value.NotReal) pKeyInfo.nField fields →
      ∀ r, (P fields r ↔ Q fields r)) : pairsWith pKeyInfo P = pairsWith pKeyInfo Q := by
  ext pair
  exact exists_congr fun fields ↦ exists_congr fun r ↦ and_congr_right fun hfields ↦
    and_congr_left fun _ ↦ hiff fields hfields r

variable {before after : List (Node IndexKey Bytes)} {less greater : List Bytes}
  {node : Node IndexKey Bytes} (P : List Value → Int64 → Prop) (op : IdxInsert pKeyInfo fileFormat)
  (hash : MdbHash)

theorem pairsWith_insert (hfields : FieldsOf (fun _ ↦ Value.NotReal) pKeyInfo.nField fields)
    (r : Int64) : pairsWith pKeyInfo (fun other s ↦ P other s ∨
        (lexCompare pKeyInfo.compareField 0 other fields = 0 ∧ s = r)) =
      insert (fieldClass pKeyInfo fields, r) (pairsWith pKeyInfo P) := by
  ext pair
  constructor
  · rintro ⟨other, s, hother, hold | ⟨hequal, rfl⟩, rfl⟩
    · exact .inr ⟨other, s, hother, hold, rfl⟩
    · exact .inl (Prod.ext ((fieldClass_eq_iff hother hfields).mpr hequal) rfl)
  · rintro (rfl | ⟨other, s, hother, hold, rfl⟩)
    · exact ⟨fields, r, hfields, .inr ⟨(lexCompareField_oriented pKeyInfo).self _, rfl⟩, rfl⟩
    · exact ⟨other, s, hother, .inl hold, rfl⟩

theorem pairsWith_remove (hfields : FieldsOf (fun _ ↦ Value.NotReal) pKeyInfo.nField fields)
    (r : Int64) : pairsWith pKeyInfo (fun other s ↦ P other s ∧
        ¬ (lexCompare pKeyInfo.compareField 0 other fields = 0 ∧ s = r)) =
      pairsWith pKeyInfo P \ {(fieldClass pKeyInfo fields, r)} := by
  ext pair
  constructor
  · rintro ⟨other, s, hother, ⟨hold, hne⟩, rfl⟩
    refine ⟨⟨other, s, hother, hold, rfl⟩, fun hsame ↦ hne ?_⟩
    obtain ⟨hclass, hrowid⟩ := Prod.mk.inj hsame
    exact ⟨(fieldClass_eq_iff hother hfields).mp hclass, hrowid⟩
  · rintro ⟨⟨other, s, hother, hold, rfl⟩, hne⟩
    refine ⟨other, s, hother, ⟨hold, fun hsame ↦ hne ?_⟩, rfl⟩
    exact Prod.ext ((fieldClass_eq_iff hother hfields).mpr hsame.1) hsame.2

/-! ### What is stored -/

theorem RowidStore.nil (pKeyInfo : KeyInfo) (fileFormat : ℕ) : RowidStore pKeyInfo fileFormat [] :=
  ⟨⟨⟨by simp, by simp⟩, List.Pairwise.nil, by simp, by simp⟩, by simp⟩

theorem RowidStore.rowidEntry (hstore : RowidStore pKeyInfo fileFormat nodes)
    {entry : IndexKey × Bytes} (hentry : entry ∈ entries nodes) :
    ∃ r, RowidEntry pKeyInfo fileFormat entry r := by
  obtain ⟨node, hnode, hkey, hitem⟩ := mem_entries.mp hentry
  obtain ⟨hformat, hitems⟩ := hstore.rowids node hnode
  obtain ⟨r, hr⟩ := hitems entry.2 hitem
  exact ⟨r, hkey ▸ hformat, (hstore.store.fields_of_mem hentry).1, hr⟩

theorem RowidStore.storedPairs_eq (hstore : RowidStore pKeyInfo fileFormat nodes)
    (index : ℕ → UInt8) :
    storedPairs pKeyInfo index (indexTable nodes) = pairsWith pKeyInfo fun fields r ↦
      Stored pKeyInfo nodes fields (lastItem fileFormat (.int r)) := by
  have hrecord : ∀ {entry : IndexKey × Bytes} {r : Int64}, RowidEntry pKeyInfo fileFormat entry r →
        recordFields pKeyInfo (sqlite3BtreeKeyFetch index (entry.1.bytes, entry.2)) =
          entry.1.fields := fun hentry ↦ by
    rw [recordFields, hentry.unpack pKeyInfo.nField rfl, take_left' hentry.columns]
  ext pair
  constructor
  · rintro ⟨z, hz, r, hr, rfl⟩
    rw [forwardRecords_index] at hz
    obtain ⟨entry, hentry, rfl⟩ := mem_map.mp hz
    obtain ⟨s, hrowid⟩ := hstore.rowidEntry hentry
    rw [hrowid.rowid, mem_some_iff] at hr
    rw [hrecord hrowid]
    exact ⟨entry.1.fields, r, hstore.store.fields_of_mem hentry,
      ⟨entry, hentry, (lexCompareField_oriented pKeyInfo).self _, hr ▸ hrowid.item⟩, rfl⟩
  · rintro ⟨fields, r, hfields, ⟨entry, hentry, hequal, hitem⟩, rfl⟩
    obtain ⟨s, hrowid⟩ := hstore.rowidEntry hentry
    have hsame : s = r := lastItem_int_inj (hrowid.item.symm.trans hitem)
    refine ⟨sqlite3BtreeKeyFetch index (entry.1.bytes, entry.2), ?_, r, ?_, ?_⟩
    · rw [forwardRecords_index]
      exact mem_map.mpr ⟨entry, hentry, rfl⟩
    · rw [hrowid.rowid, hsame]
      exact mem_some_self r
    · rw [hrecord hrowid,
        (fieldClass_eq_iff hfields (hstore.store.fields_of_mem hentry)).mpr hequal]

theorem RowidStore.once (hstore : RowidStore pKeyInfo fileFormat nodes) (index : ℕ → UInt8) :
    (forwardRecords index (indexTable nodes)).Pairwise
      fun z other ↦ ¬ SamePair pKeyInfo z other := by
  rw [forwardRecords_index, pairwise_map]
  refine (hstore.store.ordered.entries_sorted hstore.store.tidy).imp_of_mem
    fun {a b} ha hb hsorted hsame ↦ ?_
  obtain ⟨r, haEntry⟩ := hstore.rowidEntry ha
  obtain ⟨s, hbEntry⟩ := hstore.rowidEntry hb
  obtain ⟨hequal, hrowid⟩ := (haEntry.samePair_iff hbEntry).mp hsame
  rcases hsorted with hless | ⟨_, hless⟩
  · exact absurd hequal hless.ne
  · rw [haEntry.item, hbEntry.item, hrowid, compareBytes_oriented.self] at hless
    exact absurd hless (lt_irrefl 0)

/-! ### Inserting -/

theorem IdxInsert.fieldsOf :
    FieldsOf (fun _ ↦ Value.NotReal) pKeyInfo.nField op.call.keyFields := by
  refine ⟨(length_map _).trans op.columns, fun j v hv ↦ ?_⟩
  obtain ⟨w, hw, rfl⟩ := mem_map.mp (mem_of_getElem? hv)
  exact (op.notReal w hw).expand

theorem IdxInsert.item_eq : op.call.item = lastItem fileFormat (.int op.rowid) := by
  rw [IndexInsert.item, op.format, op.last]
  rfl

theorem IdxInsert.refines (hstore : RowidStore pKeyInfo fileFormat nodes)
    (op : IdxInsert pKeyInfo fileFormat) (index : ℕ → UInt8) :
    ∃ nodes', (op.call.run hash pKeyInfo (indexTable nodes)).2.1 = indexTable nodes' ∧
      RowidStore pKeyInfo fileFormat nodes' ∧ storedPairs pKeyInfo index (indexTable nodes') =
        pairStep (storedPairs pKeyInfo index (indexTable nodes)) (.idxInsert op) := by
  have hroom : op.call.fields.length ≤ pKeyInfo.nField + 1 := by
    rw [op.columns]
    exact Nat.le_succ _
  refine ⟨_, op.call.run_index hash pKeyInfo op.short hroom nodes, ?_⟩
  by_cases haccepted : op.call.accepted = true
  · rw [if_pos haccepted]
    have hnew : RowidStore pKeyInfo fileFormat
        (put (keyOrder pKeyInfo op.call.key) compareBytes op.call.key op.call.item nodes) :=
      ⟨hstore.store.put (compareField_notReal pKeyInfo) op.fieldsOf op.call.itemOf,
        put_forall (P := fun key : IndexKey ↦ key.fileFormat = fileFormat) compareBytes_linear
          hstore.rowids op.format ⟨op.rowid, op.item_eq⟩⟩
    refine ⟨hnew, ?_⟩
    have hpairs : ∀ fields, FieldsOf (fun _ ↦ Value.NotReal) pKeyInfo.nField fields → ∀ r : Int64,
        (Stored pKeyInfo (put (keyOrder pKeyInfo op.call.key) compareBytes op.call.key op.call.item
            nodes) fields (lastItem fileFormat (.int r)) ↔
          Stored pKeyInfo nodes fields (lastItem fileFormat (.int r)) ∨
            (lexCompare pKeyInfo.compareField 0 fields op.call.keyFields = 0 ∧ r = op.rowid)) := by
      intro fields hfields r
      rw [stored_put (compareField_notReal pKeyInfo) hstore.store op.fieldsOf hfields, op.item_eq]
      refine or_congr_right (and_congr_right fun _ ↦ ⟨lastItem_int_inj, ?_⟩)
      rintro rfl
      rfl
    rw [hnew.storedPairs_eq, hstore.storedPairs_eq, pairStep, if_pos haccepted,
      ← pairsWith_insert _ op.fieldsOf, pairsWith_congr hpairs]
  · rw [if_neg haccepted]
    refine ⟨hstore, ?_⟩
    rw [pairStep, if_neg haccepted]

/-! ### Removing -/

theorem IdxDelete.fieldsOf (op : IdxDelete pKeyInfo fileFormat) :
    FieldsOf (fun _ ↦ Value.NotReal) pKeyInfo.nField op.fields :=
  ⟨op.columns, fun _ v hv ↦ op.notReal v (mem_of_getElem? hv)⟩

/-- A search with the registers of a delete, under any file format: no entry has its fields, or it
is at the item nearest to that of its rowid, and reports whether that is the one of its rowid. -/
theorem RowidStore.moveto_nearest (hstore : RowidStore pKeyInfo fileFormat nodes)
    (op : IdxDelete pKeyInfo fileFormat) (format : ℕ) :
    ∃ moved, sqlite3BtreeMovetoUnpacked hash pKeyInfo format op.past op.index (indexTable nodes)
        op.mem (some op.record) 0 = some moved ∧ moved.rc = .ok ∧
      ((moved.res ≠ 0 ∧ ∀ entry, ¬ Sibling pKeyInfo nodes op.fields entry) ∨
        ∃ before node after less found greater, nodes = before ++ node :: after ∧
          node.items = less ++ found :: greater ∧
          NearestItem (Sibling pKeyInfo nodes op.fields) (lastItem format (.int op.rowid))
            (node.key, found) ∧
          moved.place = some (before.length, less.length) ∧
          (moved.res = 0 ↔ found = lastItem fileFormat (.int op.rowid))) := by
  have hitem : rowidItem (.int op.rowid) format = lastItem format (.int op.rowid) :=
    rowidItem_eq (v := .int op.rowid) trivial (serialType_int_lt format op.rowid)
  have hsquash : squashIndexKey hash op.mem op.record.aMem format none =
      (op.mem, op.record.aMem, none) := squashIndexKey_short (op.short.format format) none
  obtain ⟨moved, hmoved, hrc, hnone |
      ⟨before, node, after, less, found, greater, rfl, hitems, hnearest, hat, hres⟩⟩ :=
    moveto_rowid (compareField_notReal pKeyInfo) hstore.store hsquash op.values op.fieldsOf rfl
      op.past op.index 0
  · exact ⟨moved, hmoved, hrc, .inl hnone⟩
  · have hin : node ∈ before ++ node :: after := by simp
    obtain ⟨s, hs⟩ := (hstore.rowids node hin).2 found (by rw [hitems]; simp)
    have hitemOf : ItemOf (.int s) found :=
      ⟨fileFormat, trivial, serialType_int_lt fileFormat s, hs⟩
    have hcompare : moved.res = pKeyInfo.compareField op.fields.length (.int s) (.int op.rowid) :=
      hres.trans (hnearest.1.entryCompare_eq
        ((hstore.store.fields node hin).1.trans op.columns.symm) op.values rfl hitemOf op.index)
    rw [hitem] at hnearest
    refine ⟨moved, hmoved, hrc, .inr ⟨before, node, after, less, found, greater, rfl, hitems,
      hnearest, hat, ?_⟩⟩
    rw [hcompare, compareField_eq_zero, sqlite3MemCompare, compareNumbers_eq_zero, Int64.toInt_inj,
      hs]
    exact ⟨fun hsame ↦ by rw [hsame], lastItem_int_inj⟩

/-- The search of a delete is at its pair and reports an equal entry, or the pair is not stored and
it reports a difference. -/
theorem RowidStore.moveto (hstore : RowidStore pKeyInfo fileFormat nodes)
    (op : IdxDelete pKeyInfo fileFormat) :
    ∃ moved, sqlite3BtreeMovetoUnpacked hash pKeyInfo fileFormat op.past op.index (indexTable nodes)
        op.mem (some op.record) 0 = some moved ∧ moved.rc = .ok ∧
      ((moved.res = 0 ∧ ∃ before node after less greater, nodes = before ++ node :: after ∧
          node.items = less ++ lastItem fileFormat (.int op.rowid) :: greater ∧
          lexCompare pKeyInfo.compareField 0 op.fields node.key.fields = 0 ∧
          moved.place = some (before.length, less.length)) ∨
        (moved.res ≠ 0 ∧
          ¬ Stored pKeyInfo nodes op.fields (lastItem fileFormat (.int op.rowid)))) := by
  obtain ⟨moved, hmoved, hrc, ⟨hres, hnone⟩ |
      ⟨before, node, after, less, found, greater, rfl, hitems, hnearest, hat, hzero⟩⟩ :=
    hstore.moveto_nearest hash op fileFormat
  · exact ⟨moved, hmoved, hrc, .inr ⟨hres, fun ⟨entry, hentry, hsame, _⟩ ↦
      hnone entry ⟨hentry, hsame⟩⟩⟩
  · by_cases hfound : found = lastItem fileFormat (.int op.rowid)
    · rw [hfound] at hitems
      exact ⟨moved, hmoved, hrc, .inl ⟨hzero.mpr hfound, before, node, after, less, greater, rfl,
        hitems, hnearest.1.2, hat⟩⟩
    · refine ⟨moved, hmoved, hrc, .inr ⟨mt hzero.mp hfound, ?_⟩⟩
      rintro ⟨entry, hentry, hsame, hstored⟩
      rw [← hstored] at hnearest
      exact hfound ((hnearest.eq_of_mem ⟨hentry, hsame⟩).trans hstored)

/-- Without the entry at the place of its pair, the store has the other pairs. -/
theorem RowidStore.erase (hstore : RowidStore pKeyInfo fileFormat (before ++ node :: after))
    (hitems : node.items = less ++ lastItem fileFormat (.int r) :: greater)
    (hfields : FieldsOf (fun _ ↦ Value.NotReal) pKeyInfo.nField fields)
    (hsame : lexCompare pKeyInfo.compareField 0 fields node.key.fields = 0) (index : ℕ → UInt8) :
    RowidStore pKeyInfo fileFormat
        (eraseAt (before ++ node :: after) (before.length, less.length)) ∧
      storedPairs pKeyInfo index
          (indexTable (eraseAt (before ++ node :: after) (before.length, less.length))) =
        storedPairs pKeyInfo index (indexTable (before ++ node :: after)) \
          {(fieldClass pKeyInfo fields, r)} := by
  have horiented := lexCompareField_oriented pKeyInfo
  have hnode := hstore.store.fields node (by simp)
  have hnew : RowidStore pKeyInfo fileFormat
      (eraseAt (before ++ node :: after) (before.length, less.length)) :=
    ⟨hstore.store.erase hitems,
      eraseAt_forall (P := fun key : IndexKey ↦ key.fileFormat = fileFormat) hitems hstore.rowids⟩
  refine ⟨hnew, ?_⟩
  have hpairs : ∀ other, FieldsOf (fun _ ↦ Value.NotReal) pKeyInfo.nField other → ∀ s : Int64,
      (Stored pKeyInfo (eraseAt (before ++ node :: after) (before.length, less.length)) other
          (lastItem fileFormat (.int s)) ↔
        Stored pKeyInfo (before ++ node :: after) other (lastItem fileFormat (.int s)) ∧
          ¬ (lexCompare pKeyInfo.compareField 0 other fields = 0 ∧ s = r)) := by
    intro other hother s
    have hequal : lexCompare pKeyInfo.compareField 0 other node.key.fields = 0 ↔
        lexCompare pKeyInfo.compareField 0 other fields = 0 := by
      rw [horiented.eq_zero_comm other, horiented.eq_zero_comm other]
      exact ((lexCompareField_trans (compareField_notReal pKeyInfo) _).congr_left horiented hfields
        hnode hother hsame).2.symm
    rw [stored_erase (compareField_notReal pKeyInfo) hstore.store hitems hother, hequal]
    refine and_congr_right fun _ ↦ not_congr (and_congr_right fun _ ↦ ⟨lastItem_int_inj, ?_⟩)
    rintro rfl
    rfl
  rw [hnew.storedPairs_eq, hstore.storedPairs_eq, ← pairsWith_remove _ hfields,
    pairsWith_congr hpairs]

theorem IdxDelete.refines (hstore : RowidStore pKeyInfo fileFormat nodes)
    (op : IdxDelete pKeyInfo fileFormat) (index : ℕ → UInt8) :
    ∃ rc nodes', op.run hash (indexTable nodes) = some (rc, indexTable nodes') ∧
      RowidStore pKeyInfo fileFormat nodes' ∧ storedPairs pKeyInfo index (indexTable nodes') =
        pairStep (storedPairs pKeyInfo index (indexTable nodes)) (.idxDelete op) := by
  obtain ⟨moved, hmoved, hrc, hfound⟩ := hstore.moveto hash op
  rcases hfound with ⟨hres, before, node, after, less, greater, rfl, hitems, hsame, hat⟩ |
    ⟨hres, hnot⟩
  · have hrun : op.run hash (indexTable (before ++ node :: after)) =
        some (errmap op.outcome, indexTable (if op.outcome = .success then
          eraseAt (before ++ node :: after) (before.length, less.length)
          else before ++ node :: after)) := by
      rw [IdxDelete.run, hmoved, map_some]
      simp only [hat, hrc, hres, and_self, if_true, sqlite3BtreeDelete, indexTable,
        MdbTable.eraseAt,
        eraseAt_mapKey]
      split_ifs <;> rfl
    refine ⟨_, _, hrun, ?_⟩
    rw [pairStep]
    by_cases hsuccess : op.outcome = .success
    · rw [if_pos hsuccess, if_pos hsuccess]
      exact hstore.erase hitems op.fieldsOf hsame index
    · rw [if_neg hsuccess, if_neg hsuccess]
      exact ⟨hstore, rfl⟩
  · have hrun : op.run hash (indexTable nodes) = some (.ok, indexTable nodes) := by
      rw [IdxDelete.run, hmoved, map_some]
      simp only [hres, and_false, if_false, hrc]
      split <;> rfl
    have hmiss : (fieldClass pKeyInfo op.fields, op.rowid) ∉
        storedPairs pKeyInfo index (indexTable nodes) := by
      rw [hstore.storedPairs_eq]
      rintro ⟨other, s, hother, hstored, hpair⟩
      obtain ⟨hclass, rfl⟩ := Prod.mk.inj hpair
      exact hnot ((Stored.congr (compareField_notReal pKeyInfo) hstore.store op.fieldsOf hother
        ((fieldClass_eq_iff op.fieldsOf hother).mp hclass)).mpr hstored)
    refine ⟨.ok, nodes, hrun, hstore, ?_⟩
    rw [pairStep, Set.sdiff_singleton_eq_self hmiss, ite_self]

/-- After every run of inserts and deletes a scan comes by the pairs that were inserted and not
since deleted, each once. -/
theorem index_refines_pairs (hash : MdbHash) (index : ℕ → UInt8)
    (ops : List (IndexOp pKeyInfo fileFormat)) : ∃ table, runOps hash ops = some table ∧
      storedPairs pKeyInfo index table = ops.foldl pairStep ∅ ∧
      (forwardRecords index table).Pairwise fun z other ↦ ¬ SamePair pKeyInfo z other := by
  have hrun : ∃ nodes, runOps hash ops = some (indexTable nodes) ∧
      RowidStore pKeyInfo fileFormat nodes ∧
      storedPairs pKeyInfo index (indexTable nodes) = ops.foldl pairStep ∅ := by
    induction ops using List.reverseRecOn with
    | nil =>
      refine ⟨[], rfl, RowidStore.nil pKeyInfo fileFormat, ?_⟩
      ext pair
      simp [storedPairs, forwardRecords_index, entries]
    | append_singleton ops op ih =>
      obtain ⟨nodes, htable, hstore, hpairs⟩ := ih
      have hstep : runOps hash (ops ++ [op]) = op.run hash (indexTable nodes) := by
        rw [runOps, foldlM_append, ← runOps, htable]
        simp
      rw [hstep, foldl_append, ← hpairs]
      cases op with
      | idxInsert op =>
        obtain ⟨nodes', hnodes, hstore', hpairs'⟩ := op.refines hash hstore index
        exact ⟨nodes', congrArg some hnodes, hstore', hpairs'⟩
      | idxDelete op =>
        obtain ⟨rc, nodes', hnodes, hstore', hpairs'⟩ := op.refines hash hstore index
        refine ⟨nodes', ?_, hstore', hpairs'⟩
        rw [IndexOp.run, hnodes]
        rfl
  obtain ⟨nodes, htable, hstore, hpairs⟩ := hrun
  exact ⟨indexTable nodes, htable, hpairs, hstore.once index⟩

end

end LumoSQL
