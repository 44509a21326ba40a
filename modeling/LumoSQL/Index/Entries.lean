import LumoSQL.Index.Access

/-!
# An index by the fields of its entries

A stored key is the string of its fields under a file format. `IndexKey` is the fields of a key that
can be stored and `IndexKey.bytes` its string, and an index whose keys are all such strings is a
store of `IndexKey`s with the strings in the place of the keys. On such an index the functions of
`btree.c` compare fields: `IndexInsert.run_index` says what an insert does to the store, and
`movetoRecord_index` what a search finds in it.

An `IndexInsert` is a call of `sqlite3BtreeInsert` with a record that `OP_MakeRecord` has made,
wherever the record is in memory and whatever the allocator and LMDB report.
-/

namespace LumoSQL

open Foundation List

structure IndexKey where
  fileFormat : ℕ
  fields : List Value
  ok : KeyFields fileFormat fields

def IndexKey.bytes (key : IndexKey) : Bytes := indexKey key.fileFormat key.fields

def indexTable (nodes : List (Node IndexKey Bytes)) : MdbTable :=
  .dupSort (nodes.map (Node.mapKey IndexKey.bytes))

/-- The comparison of the fields of a search, with its flags, and those of a stored key. -/
def probeFields (pKeyInfo : KeyInfo) (fields : List Value) (incrKey prefixMatch : Bool)
    (key : IndexKey) : ℤ :=
  -compareFields pKeyInfo key.fields fields incrKey prefixMatch

def keyOrder (pKeyInfo : KeyInfo) (key other : IndexKey) : ℤ :=
  probeFields pKeyInfo key.fields false false other

/-- The length of no text and no blob is above the bound of `squashIndexKey`. -/
def ShortFields (fields : List Value) : Prop := ∀ v ∈ fields, v.size ≤ 72

instance (fields : List Value) : Decidable (ShortFields fields) :=
  inferInstanceAs (Decidable (∀ v ∈ fields, v.size ≤ 72))

/-- A call of `sqlite3BtreeInsert` with a record of `OP_MakeRecord`. -/
structure IndexInsert where
  recordFormat : ℕ
  fileFormat : ℕ
  fields : List Value
  last : Value
  z : Bytes
  made : MadeRecord recordFormat (fields ++ [last]) z
  oneByte : sqlite3VdbeSerialType last recordFormat < 128
  mem : ℕ → UInt8
  pKey : ℕ
  stands : Stands mem pKey z
  nKey : Int64
  size : nKey.toInt = z.length
  allocated : Bool
  outcome : MdbRc

namespace IndexInsert

def keyFields (op : IndexInsert) : List Value := op.fields.map Value.expand

def key (op : IndexInsert) : IndexKey where
  fileFormat := op.recordFormat
  fields := op.keyFields
  ok := op.made.keyFields op.oneByte

def item (op : IndexInsert) : Bytes := lastItem op.recordFormat op.last.expand

def accepted (op : IndexInsert) : Bool := op.allocated && decide (op.outcome = .success)

def run (hash : MdbHash) (pKeyInfo : KeyInfo) (table : MdbTable) (op : IndexInsert) :
    Rc × MdbTable × (ℕ → UInt8) :=
  sqlite3BtreeInsert hash pKeyInfo op.fileFormat op.allocated op.outcome table op.mem (some op.pKey)
    op.nKey []

/-- The insert of a record that stands alone in memory, when nothing fails. -/
def ofRecord (fileFormat : ℕ) (fields : List Value) (last : Value) (z : Bytes)
    (made : MadeRecord fileFormat (fields ++ [last]) z)
    (oneByte : sqlite3VdbeSerialType last fileFormat < 128)
    (size : (Int64.ofNat z.length).toInt = z.length) : IndexInsert where
  recordFormat := fileFormat
  fileFormat := fileFormat
  fields := fields
  last := last
  z := z
  made := made
  oneByte := oneByte
  mem := ofBytes z
  pKey := 0
  stands := stands_ofBytes z
  nKey := Int64.ofNat z.length
  size := size
  allocated := true
  outcome := .success

end IndexInsert

section

variable (hash : MdbHash) (pKeyInfo : KeyInfo)

/-! ### Comparing -/

/-- A comparison with the string of a key is the comparison with its fields. -/
theorem btreeCompare_bytes (mem : ℕ → UInt8) (p : UnpackedRecord) (key : IndexKey) :
    btreeCompare pKeyInfo mem p key.bytes =
      probeFields pKeyInfo (p.aMem.map (Mem.value mem)) p.incrKey p.prefixMatch key := by
  rw [btreeCompare, IndexKey.bytes, indexKey,
    recordCompare_fields key.ok.recordable key.ok.header mem p, probeFields]

/-- Keys of one length are equal exactly if their fields do not differ. -/
theorem keyOrder_eq_zero_iff {key other : IndexKey}
    (hlength : key.fields.length = other.fields.length) : keyOrder pKeyInfo key other = 0 ↔
      lexCompare pKeyInfo.compareField 0 key.fields other.fields = 0 := by
  rw [keyOrder, probeFields, neg_eq_zero, compareFields_of_le pKeyInfo hlength.ge]
  exact (lexCompare_oriented (compareField_oriented pKeyInfo) 0).eq_zero_comm _ _

variable {fields : List Value} {fileFormat format : ℕ} (op : IndexInsert)

theorem short_memsAt (hexpanded : ∀ v ∈ fields, v.Expanded) (hshort : ShortFields fields)
    (fileFormat' a : ℕ) : Short fileFormat' (memsAt format a fields) := by
  induction fields generalizing a with
  | nil => exact fun pMem hpMem ↦ absurd hpMem (not_mem_nil)
  | cons v rest ih =>
    obtain ⟨hv, hrest⟩ := forall_mem_cons.mp hshort
    obtain ⟨_, hexpandedRest⟩ := forall_mem_cons.mp hexpanded
    refine forall_mem_cons.mpr ⟨fun hlong ↦ ?_, ih hexpandedRest hrest _⟩
    have hn : (v.memAt a).n ≤ v.size := by
      cases v with
      | null | int i | real r => exact le_refl 0
      | text bytes => exact le_refl _
      | blob bytes nZero => exact Nat.le_add_right _ _
    exact absurd hlong.2 (by omega)

theorem Value.size_expand (v : Value) : v.expand.size = v.size := by
  cases v with
  | blob bytes nZero =>
    rw [Value.expand, Value.size, Value.size, length_append, length_replicate, add_zero]
  | _ => rfl

theorem ShortFields.expand (hshort : ShortFields fields) :
    ShortFields (fields.map Value.expand) := by
  intro v hv
  obtain ⟨w, hw, rfl⟩ := mem_map.mp hv
  rw [w.size_expand]
  exact hshort w hw

/-! ### Inserting -/

/-- What is made of a record with short fields before the put.
Assumes: the record has at most one field more than the registers of the cursor hold. -/
theorem MadeRecord.splitRecord_short {recordFormat : ℕ} {last : Value} {z : Bytes}
    (hmade : MadeRecord recordFormat (fields ++ [last]) z)
    (hlast : sqlite3VdbeSerialType last recordFormat < 128) {mem : ℕ → UInt8} {a : ℕ}
    (hstands : Stands mem a z) (format : ℕ) (hshort : ShortFields fields)
    (hroom : fields.length ≤ pKeyInfo.nField + 1) :
    ∃ split, splitRecord hash pKeyInfo format mem a z.length = split ∧
      split.key.mvSize = (indexKey recordFormat (fields.map Value.expand)).length ∧
      split.aMem.map (Mem.value split.mem) = fields.map Value.expand ∧
      split.key.bytes split.mem = indexKey recordFormat (fields.map Value.expand) ∧
      split.data.bytes split.mem = lastItem recordFormat last.expand := by
  obtain ⟨mem', hsplit, hkey, hitem, hunpack⟩ := hmade.split hlast hstands (pKeyInfo.nField + 1)
  have hok := hmade.keyFields hlast
  have hall : (memsAt recordFormat (a + keyHeader recordFormat (fields.map Value.expand))
      (fields.map Value.expand)).take (pKeyInfo.nField + 1) =
        memsAt recordFormat (a + keyHeader recordFormat (fields.map Value.expand))
          (fields.map Value.expand) := by
    refine take_of_length_le ?_
    rwa [memsAt_length, length_map]
  have hregisters : Short format (memsAt recordFormat
      (a + keyHeader recordFormat (fields.map Value.expand)) (fields.map Value.expand)) :=
    short_memsAt hok.recordable.expanded hshort.expand _ _
  refine ⟨_, rfl, ?_⟩
  simp only [splitRecord, hsplit, hunpack]
  rw [hall, squashIndexKey_short hregisters]
  exact ⟨rfl, memsAt_value hok.recordable (hok.stands_data hkey), hkey, hitem⟩

/-- What an insert makes of a record with short fields before the put.
Assumes: the record has at most one field more than the registers of the cursor hold. -/
theorem IndexInsert.splitRecord_short (hshort : ShortFields op.fields)
    (hroom : op.fields.length ≤ pKeyInfo.nField + 1) :
    ∃ split, splitRecord hash pKeyInfo op.fileFormat op.mem op.pKey op.z.length = split ∧
      split.aMem.map (Mem.value split.mem) = op.keyFields ∧
      split.key.bytes split.mem = op.key.bytes ∧ split.data.bytes split.mem = op.item := by
  obtain ⟨split, hsplit, -, hparts⟩ := op.made.splitRecord_short hash pKeyInfo op.oneByte op.stands
    op.fileFormat hshort hroom
  exact ⟨split, hsplit, hparts⟩

/-- A record with short fields goes into the store under its own fields. -/
theorem IndexInsert.run_index (hshort : ShortFields op.fields)
    (hroom : op.fields.length ≤ pKeyInfo.nField + 1) (nodes : List (Node IndexKey Bytes)) :
    (op.run hash pKeyInfo (indexTable nodes)).2.1 = indexTable
      (if op.accepted then put (keyOrder pKeyInfo op.key) compareBytes op.key op.item nodes
      else nodes) := by
  have hsize : op.nKey.toInt.toNat = op.z.length := by
    rw [op.size]
    rfl
  obtain ⟨split, hsplit, hvalues, hkey, hitem⟩ := op.splitRecord_short hash pKeyInfo hshort hroom
  have hprobe : (fun k ↦ btreeCompare pKeyInfo split.mem split.record (IndexKey.bytes k)) =
      keyOrder pKeyInfo op.key := by
    funext k
    rw [btreeCompare_bytes]
    show probeFields pKeyInfo (split.aMem.map (Mem.value split.mem)) false false k = _
    rw [hvalues]
    rfl
  simp only [IndexInsert.run, indexTable, sqlite3BtreeInsert, hsize, hsplit, hkey,
    hitem, put_mapKey, hprobe, IndexInsert.accepted]
  by_cases hallocated : op.allocated = true
  · by_cases hsuccess : op.outcome = .success
    · simp [hallocated, hsuccess, Bool.and_self]
    · simp [hallocated, hsuccess, Bool.and_false]
  · simp [hallocated, Bool.false_and]

theorem IndexInsert.run_refused (hrefused : op.accepted = false)
    (nodes : List (Node IndexKey Bytes)) :
    (op.run hash pKeyInfo (indexTable nodes)).2.1 = indexTable nodes := by
  simp only [IndexInsert.run, indexTable, sqlite3BtreeInsert]
  rw [IndexInsert.accepted] at hrefused
  by_cases hallocated : op.allocated = true
  · rw [hallocated, Bool.true_and, decide_eq_false_iff_not] at hrefused
    simp [hallocated, if_neg hrefused]
  · simp [hallocated]

/-! ### Seeking -/

/-- Where a search for these fields leads: to the item made of the last field under the key that is
equal to the search, if there are more fields than columns, and else to the first key that is not
less than the search. -/
def seekPlace (fileFormat : ℕ) (fields : List Value) (incrKey prefixMatch : Bool)
    (nodes : List (Node IndexKey Bytes)) : Option (ℕ × ℕ) :=
  let probe := probeFields pKeyInfo fields incrKey prefixMatch
  let both := if pKeyInfo.nField < fields.length then
      getBothRange probe compareBytes (rowidItem (fields.getLastD .null) fileFormat) nodes
    else none
  both.or (setRange probe nodes)

/-- The result of a search in an index: the comparison with the record of the entry it leads to. The
registers are those `squashIndexKey` leaves. -/
theorem movetoRecord_index {mem mem' : ℕ → UInt8} {pUnKey : UnpackedRecord} {aMem : List Mem}
    {key : Option MdbVal}
    (hsquash : squashIndexKey hash mem pUnKey.aMem format none = (mem', aMem, key))
    (index : ℕ → UInt8) (nodes : List (Node IndexKey Bytes)) :
    movetoRecord hash pKeyInfo format index mem pUnKey
      (nodes.map (Node.mapKey IndexKey.bytes)) =
      match (seekPlace pKeyInfo format (aMem.map (Mem.value mem')) pUnKey.incrKey
          pUnKey.prefixMatch nodes).bind (entryAt nodes) with
      | none => ⟨.ok, -1, none, mem', some { pUnKey with aMem := aMem }⟩
      | some entry =>
        let compared := sqlite3VdbeRecordCompare pKeyInfo
          (sqlite3BtreeKeyFetch index (entry.1.bytes, entry.2)) mem' { pUnKey with aMem := aMem }
        ⟨.ok, compared.1, seekPlace pKeyInfo format (aMem.map (Mem.value mem'))
          pUnKey.incrKey pUnKey.prefixMatch nodes, mem', some compared.2⟩ := by
  have hprobe : (fun k ↦ btreeCompare pKeyInfo mem' { pUnKey with aMem := aMem }
      (IndexKey.bytes k)) =
      probeFields pKeyInfo (aMem.map (Mem.value mem')) pUnKey.incrKey pUnKey.prefixMatch :=
    funext fun k ↦ btreeCompare_bytes pKeyInfo mem' _ k
  have hlast : (aMem.getLastD .null).value mem' = (aMem.map (Mem.value mem')).getLastD .null := by
    rw [getLastD_eq_getLast?, getLastD_eq_getLast?, getLast?_map]
    cases aMem.getLast? <;> rfl
  simp only [movetoRecord, hsquash, getBothRange_mapKey, setRange_mapKey, hprobe, hlast]
  rw [seekPlace, length_map]
  obtain ⟨place, hplace⟩ : ∃ place, place = (if pKeyInfo.nField < aMem.length then
      getBothRange (probeFields pKeyInfo (aMem.map (Mem.value mem')) pUnKey.incrKey
        pUnKey.prefixMatch) compareBytes
        (rowidItem ((aMem.map (Mem.value mem')).getLastD .null) format) nodes
      else none).or (setRange (probeFields pKeyInfo (aMem.map (Mem.value mem')) pUnKey.incrKey
        pUnKey.prefixMatch) nodes) := ⟨_, rfl⟩
  rw [← hplace]
  cases place with
  | none => rfl
  | some place =>
    simp only [Option.bind_some, entryAt_mapKey]
    cases entryAt nodes place <;> rfl

end

def runInserts (hash : MdbHash) (pKeyInfo : KeyInfo) (ops : List IndexInsert) : MdbTable :=
  ops.foldl (fun table op ↦ (op.run hash pKeyInfo table).2.1) (indexTable [])

/-! ### Keys and records as strings -/

/-- The fields of a key are what its string is unpacked into. -/
theorem IndexKey.unpack (key : IndexKey) {n : ℕ} (hn : key.fields.length ≤ n) :
    (sqlite3VdbeRecordUnpack (ofBytes key.bytes) key.bytes.length 0 n).map
      (Mem.value (ofBytes key.bytes)) = key.fields := by
  have hbytes : key.bytes = recordBytes _ _ _ := rfl
  rw [recordUnpack_values n key.ok.recordable key.ok.header hbytes, take_of_length_le hn]

theorem IndexKey.fields_of_bytes {key other : IndexKey} (hbytes : key.bytes = other.bytes) :
    key.fields = other.fields := by
  have hkey := key.unpack (Nat.le_add_right key.fields.length other.fields.length)
  have hother := other.unpack (Nat.le_add_left other.fields.length key.fields.length)
  rw [hbytes] at hkey
  exact hkey.symm.trans hother

/-- What is fetched from the entry of an inserted record is the record. -/
theorem IndexInsert.fetch (op : IndexInsert) (index : ℕ → UInt8) :
    sqlite3BtreeKeyFetch index (op.key.bytes, op.item) = op.z := by
  rw [op.made.bytes_key op.oneByte]
  refine keyFetch_entry index op.key.ok ?_
  rw [serialType_expand]
  exact op.oneByte

theorem IndexInsert.entry_of_record {op other : IndexInsert} (hz : op.z = other.z) :
    (op.key.bytes, op.item) = (other.key.bytes, other.item) := by
  obtain ⟨mem, hsplit, hkey, hitem, _⟩ := op.made.split op.oneByte (stands_ofBytes op.z) 0
  obtain ⟨mem', hsplit', hkey', hitem', _⟩ :=
    other.made.split other.oneByte (stands_ofBytes other.z) 0
  rw [hz, hsplit'] at hsplit
  obtain ⟨rfl, hkeys, hitems⟩ := by simpa only [Prod.mk.injEq] using hsplit
  have hkeyLength := (MdbVal.mk.inj hkeys).1
  have hitemLength := (MdbVal.mk.inj hitems).1
  rw [hkeyLength] at hitem'
  exact Prod.ext (hkey.unique hkey' hkeyLength.symm) (hitem.unique hitem' hitemLength.symm)

end LumoSQL
