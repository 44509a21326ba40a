import LumoSQL.Foundation.SortedDups
import LumoSQL.Index.Squash

/-!
# Inserting, seeking and fetching

The tables of an environment are LMDB databases: a table of rows has `MDB_INTEGERKEY`, an index has
`MDB_DUPSORT` and the comparison `BtreeCompare`, and the unnamed database has neither. This module
has the functions of `btree.c` that put an entry into one (`sqlite3BtreeInsert`), look one up
(`sqlite3BtreeMovetoUnpacked`) and read the key of one (`sqlite3BtreeKeyFetch`), on the content the
cursor of the call sees.

LMDB is what its documentation says: a store of sorted duplicates with the comparison it was given,
whose put keeps a stored key that is equal. The code it reports for a put is an argument, and so is
where a search for a row that is not there leaves the cursor.
-/

namespace LumoSQL

open Foundation List

/-- The content of a database by its flags. -/
inductive MdbTable
  | integerKey (nodes : List (Node UInt64 Bytes))
  | plain (nodes : List (Node Bytes Bytes))
  | dupSort (nodes : List (Node Bytes Bytes))
  deriving DecidableEq

def MdbTable.mdEntries : MdbTable → ℕ
  | .integerKey nodes => (entries nodes).length
  | .plain nodes => (entries nodes).length
  | .dupSort nodes => (entries nodes).length

/-- The comparison of an integer key with the stored ones, as unsigned numbers. -/
def integerProbe (key other : UInt64) : ℤ := compareNumbers key.toNat other.toNat

/-- `BtreeCompare` of the record of a search and a stored key. -/
def btreeCompare (pKeyInfo : KeyInfo) (mem : ℕ → UInt8) (p : UnpackedRecord) (b : Bytes) : ℤ :=
  -(sqlite3VdbeRecordCompare pKeyInfo b mem p).1

/-- The bytes of a `i64` in memory, the least significant one first. -/
def i64Bytes (i : Int64) : Bytes := (bigEndian 8 (i.toInt % 2 ^ 64).toNat).reverse

/-! ### Inserting -/

/-- An entry for LMDB that has been made of a record in place: the memory, the registers of the
fields, the key and the data. -/
structure SplitRecord where
  mem : ℕ → UInt8
  aMem : List Mem
  key : MdbVal
  data : MdbVal

/-- The part of `sqlite3BtreeInsert` before the put, for a record of `nKey` bytes. -/
def splitRecord (hash : MdbHash) (pKeyInfo : KeyInfo) (fileFormat : ℕ) (mem : ℕ → UInt8)
    (pKey nKey : ℕ) : SplitRecord :=
  let split := splitIndexKey mem ⟨nKey, pKey⟩
  let p := sqlite3VdbeRecordUnpack split.1 nKey pKey (pKeyInfo.nField + 1)
  let squashed := squashIndexKey hash split.1 p fileFormat (some split.2.1)
  ⟨squashed.1, squashed.2.1, squashed.2.2.getD split.2.1, split.2.2⟩

def SplitRecord.record (split : SplitRecord) : UnpackedRecord :=
  { aMem := split.aMem, incrKey := false, prefixMatch := false, prefixSearch := false, rowid := 0 }

/-- `sqlite3BtreeInsert`: the code, the content and the memory. The unpacked record may not be
`allocated`, and `outcome` is the code of the put. -/
def sqlite3BtreeInsert (hash : MdbHash) (pKeyInfo : KeyInfo) (fileFormat : ℕ) (allocated : Bool)
    (outcome : MdbRc) (table : MdbTable) (mem : ℕ → UInt8) (pKey : Option ℕ) (nKey : Int64)
    (data : Bytes) : Rc × MdbTable × (ℕ → UInt8) :=
  match table, pKey with
  | .integerKey nodes, _ =>
    let key := nKey.toUInt64
    (errmap outcome, if outcome = .success then
      .integerKey (putOver (integerProbe key) key data nodes) else table, mem)
  | .plain nodes, none =>
    let key := i64Bytes nKey
    (errmap outcome, if outcome = .success then
      .plain (putOver (compareBytes key) key data nodes) else table, mem)
  -- the comparison of an index reads a record that is not there
  | .dupSort _, none => (errmap outcome, table, mem)
  | .plain nodes, some pKey =>
    if allocated then
      let split := splitRecord hash pKeyInfo fileFormat mem pKey nKey.toInt.toNat
      let key := split.key.bytes split.mem
      (errmap outcome, if outcome = .success then
        .plain (putOver (compareBytes key) key (split.data.bytes split.mem) nodes) else table,
        split.mem)
    else (.nomem, table, mem)
  | .dupSort nodes, some pKey =>
    if allocated then
      let split := splitRecord hash pKeyInfo fileFormat mem pKey nKey.toInt.toNat
      (errmap outcome, if outcome = .success then
        .dupSort (put (btreeCompare pKeyInfo split.mem split.record) compareBytes
          (split.key.bytes split.mem) (split.data.bytes split.mem) nodes) else table,
        split.mem)
    else (.nomem, table, mem)

/-! ### Removing -/

def MdbTable.eraseAt (place : ℕ × ℕ) : MdbTable → MdbTable
  | .integerKey nodes => .integerKey (Foundation.eraseAt nodes place)
  | .plain nodes => .plain (Foundation.eraseAt nodes place)
  | .dupSort nodes => .dupSort (Foundation.eraseAt nodes place)

/-- `sqlite3BtreeDelete` of a cursor at a place: the code and the content. `outcome` is the code of
the removal. -/
def sqlite3BtreeDelete (outcome : MdbRc) (table : MdbTable) (place : ℕ × ℕ) : Rc × MdbTable :=
  (errmap outcome, if outcome = .success then table.eraseAt place else table)

/-! ### Fetching -/

/-- `sqlite3BtreeKeyFetch` on an entry of an index, into the buffer of the cursor. -/
def sqlite3BtreeKeyFetch (index : ℕ → UInt8) (entry : Bytes × Bytes) : Bytes :=
  read (joinIndexKey index entry.1 entry.2) 0 (entry.1.length + entry.2.length)

/-! ### Seeking -/

/-- What `sqlite3BtreeMovetoUnpacked` leaves: the code, `*pRes`, the entry the cursor designates,
the memory and the record of the search. -/
structure Moved where
  rc : Rc
  res : ℤ
  place : Option (ℕ × ℕ)
  mem : ℕ → UInt8
  pUnKey : Option UnpackedRecord

/-- The size of the buffer for the last field of a search. -/
def ROWIDMAXSIZE : ℕ := 10

/-- The data item made of the last field of a search; its serial type is kept in a `u8`. -/
def rowidItem (rowid : Value) (fileFormat : ℕ) : Bytes :=
  let serialType := sqlite3VdbeSerialType rowid fileFormat % 256
  let typed := write (fun _ ↦ 0) 0 (putVarint32 serialType)
  let buf := write typed 1 (sqlite3VdbeSerialPut (ROWIDMAXSIZE - 1) rowid fileFormat)
  read buf 0 (sqlite3VdbeSerialTypeLen serialType + 1)

/-- The search in a table of rows. If the row is not there, `past` says whether the slot it would be
in is behind the last entry of its page. -/
def movetoRow (past : Bool) (mem : ℕ → UInt8) (pUnKey : Option UnpackedRecord) (intKey : Int64)
    (nodes : List (Node UInt64 Bytes)) : Moved :=
  let probe := integerProbe intKey.toUInt64
  match nodes.findIdx? fun node ↦ probe node.key = 0 with
  | some i => ⟨.ok, 0, some (i, 0), mem, pUnKey⟩
  | none =>
    if past then ⟨.ok, -1, none, mem, pUnKey⟩
    else ⟨.ok, 1, (nodes.findIdx? fun node ↦ probe node.key < 0).map (·, 0), mem, pUnKey⟩

/-- The search in an index. -/
def movetoRecord (hash : MdbHash) (pKeyInfo : KeyInfo) (fileFormat : ℕ) (index mem : ℕ → UInt8)
    (pUnKey : UnpackedRecord) (nodes : List (Node Bytes Bytes)) : Moved :=
  let squashed := squashIndexKey hash mem pUnKey.aMem fileFormat none
  let mem := squashed.1
  let pUnKey := { pUnKey with aMem := squashed.2.1 }
  let probe := btreeCompare pKeyInfo mem pUnKey
  let both := if pKeyInfo.nField < pUnKey.aMem.length then
      getBothRange probe compareBytes
        (rowidItem ((pUnKey.aMem.getLastD .null).value mem) fileFormat) nodes
    else none
  let place := both.or (setRange probe nodes)
  match place.bind (entryAt nodes) with
  | none => ⟨.ok, -1, none, mem, some pUnKey⟩
  | some entry =>
    let compared := sqlite3VdbeRecordCompare pKeyInfo (sqlite3BtreeKeyFetch index entry) mem pUnKey
    ⟨.ok, compared.1, place, mem, some compared.2⟩

/-- `sqlite3BtreeMovetoUnpacked`; `none` where it reads through a pointer that is `NULL` or not set.
-/
def sqlite3BtreeMovetoUnpacked (hash : MdbHash) (pKeyInfo : KeyInfo) (fileFormat : ℕ) (past : Bool)
    (index : ℕ → UInt8) (table : MdbTable) (mem : ℕ → UInt8) (pUnKey : Option UnpackedRecord)
    (intKey : Int64) : Option Moved :=
  if table.mdEntries = 0 then some ⟨.ok, -1, none, mem, pUnKey⟩
  else
    match table, pUnKey with
    | .integerKey nodes, _ => some (movetoRow past mem pUnKey intKey nodes)
    | .dupSort nodes, some pUnKey =>
      some (movetoRecord hash pKeyInfo fileFormat index mem pUnKey nodes)
    -- a row that is found in the unnamed database is compared with the record of the search
    | .plain nodes, none =>
      if ∀ node ∈ nodes, compareBytes (i64Bytes intKey) node.key ≠ 0 then
        some ⟨.ok, if past then -1 else 1, if past then none else
          (nodes.findIdx? fun node ↦ compareBytes (i64Bytes intKey) node.key < 0).map (·, 0),
          mem, pUnKey⟩
      else none
    | .dupSort _, none => none
    | .plain _, some _ => none

/-! ### The entry of a record -/

def keyHeader (fileFormat : ℕ) (fields : List Value) : ℕ :=
  headerSize ((typeBytes fileFormat fields).length + 1) - 1

/-- The key that a record of these fields and one field more is split into. -/
def indexKey (fileFormat : ℕ) (fields : List Value) : Bytes :=
  recordBytes fileFormat (keyHeader fileFormat fields) fields

structure KeyFields (fileFormat : ℕ) (fields : List Value) : Prop where
  recordable : Recordable fileFormat fields
  types : (typeBytes fileFormat fields).length + 1 < 2 ^ 31

section

variable {format : ℕ} {fields : List Value} {last : Value} {z : Bytes}

theorem KeyFields.succ (hfields : KeyFields format fields) : keyHeader format fields + 1 =
    headerSize ((typeBytes format fields).length + 1) := by
  obtain ⟨hsize, _⟩ := headerSize_right hfields.types
  rw [keyHeader]
  omega

theorem KeyFields.varint (hfields : KeyFields format fields) :
    sqlite3VarintLen (keyHeader format fields + 1) =
      sqlite3VarintLen (keyHeader format fields) := by
  rw [hfields.succ, keyHeader, headerSize_pred hfields.types]

theorem KeyFields.fits (hfields : KeyFields format fields) :
    keyHeader format fields + 1 < 2 ^ 32 := by
  rw [hfields.succ]
  exact (headerSize_right hfields.types).2

theorem KeyFields.header (hfields : KeyFields format fields) :
    HeaderFor format (keyHeader format fields) fields := by
  obtain ⟨hsize, _⟩ := headerSize_right hfields.types
  have hsucc := hfields.succ
  have hvarint := hfields.varint
  have hfits := hfields.fits
  rw [← hsucc] at hsize
  exact ⟨by omega, by omega⟩

variable {a : ℕ} {mem : ℕ → UInt8} (index : ℕ → UInt8)

theorem KeyFields.stands_data (hfields : KeyFields format fields)
    (hstands : Stands mem a (indexKey format fields)) :
    Stands mem (a + keyHeader format fields) (dataBytes format fields) :=
  hfields.header.stands_data hstands

/-- The fields of a record but for the last one can be those of a key. -/
theorem MadeRecord.keyFields (hmade : MadeRecord format (fields ++ [last]) z)
    (hlast : sqlite3VdbeSerialType last format < 128) :
    KeyFields format (fields.map Value.expand) := by
  have hrecordable := hmade.recordable
  have htypes := hmade.types_length
  rw [map_append] at hrecordable
  rw [map_append, map_singleton, typeBytes_append, typeBytes_cons, serialType_expand,
    putVarint32_one hlast, typeBytes_nil, append_nil, length_append,
    length_singleton] at htypes
  exact ⟨⟨fun v hv ↦ hrecordable.expanded v (mem_append_left _ hv),
    fun v hv ↦ hrecordable.types v (mem_append_left _ hv)⟩, htypes⟩

theorem makeHeader_append (hlast : sqlite3VdbeSerialType last format < 128) :
    makeHeader format ((fields ++ [last]).map Value.expand) =
      headerSize ((typeBytes format (fields.map Value.expand)).length + 1) := by
  rw [makeHeader, map_append, map_singleton, typeBytes_append, typeBytes_cons,
    serialType_expand, putVarint32_one hlast, typeBytes_nil, append_nil, length_append,
    length_singleton]

/-- The bytes of a record, by the header of its key. -/
theorem MadeRecord.bytes_key (hmade : MadeRecord format (fields ++ [last]) z)
    (hlast : sqlite3VdbeSerialType last format < 128) :
    z = recordBytes format (keyHeader format (fields.map Value.expand) + 1)
      (fields.map Value.expand ++ [last.expand]) := by
  rw [(hmade.keyFields hlast).succ, ← makeHeader_append hlast]
  exact hmade.bytes_eq.trans (by rw [map_append, map_singleton])

/-- What is fetched from an entry is a record of the fields of its key and of its item, which may
have been written under different file formats. -/
theorem keyFetch_cells {itemFormat : ℕ} (hfields : KeyFields format fields)
    (hlast : sqlite3VdbeSerialType last itemFormat < 128) :
    sqlite3BtreeKeyFetch index (indexKey format fields, lastItem itemFormat last) =
      putVarint32 (keyHeader format fields + 1) ++
        (cellTypes ((fields.map fun v ↦ (format, v)) ++ [(itemFormat, last)]) ++
          cellData ((fields.map fun v ↦ (format, v)) ++ [(itemFormat, last)])) :=
  joinIndexKey_key index hfields.header hfields.fits hfields.varint hlast

/-- What is fetched from an entry is a record if the size of its header has a varint of the same
length as that of the key. -/
theorem keyFetch_record {hdr : ℕ} (hhdr : HeaderFor format hdr fields)
    (hfits : hdr + 1 < 2 ^ 32) (hvarint : sqlite3VarintLen (hdr + 1) = sqlite3VarintLen hdr)
    (hlast : sqlite3VdbeSerialType last format < 128) :
    sqlite3BtreeKeyFetch index (recordBytes format hdr fields, lastItem format last) =
      recordBytes format (hdr + 1) (fields ++ [last]) := by
  have hcells : (fields.map fun v ↦ (format, v)) ++ [(format, last)] =
      (fields ++ [last]).map fun v ↦ (format, v) := by
    rw [map_append, map_singleton]
  rw [sqlite3BtreeKeyFetch, joinIndexKey_key index hhdr hfits hvarint hlast, hcells, cellTypes_map,
    cellData_map, recordBytes]

/-- What is fetched from the entry of a record is the record. -/
theorem keyFetch_entry (hfields : KeyFields format fields)
    (hlast : sqlite3VdbeSerialType last format < 128) :
    sqlite3BtreeKeyFetch index (indexKey format fields, lastItem format last) =
      recordBytes format (keyHeader format fields + 1) (fields ++ [last]) :=
  keyFetch_record index hfields.header hfields.fits hfields.varint hlast

/-- A record in memory is split into its key and its item, which stand where it stood, and unpacked
into its fields but for the last one. -/
theorem MadeRecord.split (hmade : MadeRecord format (fields ++ [last]) z)
    (hlast : sqlite3VdbeSerialType last format < 128) (hstands : Stands mem a z) (room : ℕ) :
    ∃ mem', splitIndexKey mem ⟨z.length, a⟩ =
        (mem', ⟨(indexKey format (fields.map Value.expand)).length, a⟩,
          ⟨(lastItem format last.expand).length,
            a + (indexKey format (fields.map Value.expand)).length⟩) ∧
      Stands mem' a (indexKey format (fields.map Value.expand)) ∧
      Stands mem' (a + (indexKey format (fields.map Value.expand)).length)
        (lastItem format last.expand) ∧
      sqlite3VdbeRecordUnpack mem' z.length a room =
        (memsAt format (a + keyHeader format (fields.map Value.expand))
          (fields.map Value.expand)).take room := by
  have hkey := hmade.keyFields hlast
  have hbytes := hmade.bytes_key hlast
  have hrecordable := hmade.recordable
  rw [map_append, map_singleton] at hrecordable
  have hlast' : sqlite3VdbeSerialType last.expand format < 128 := by
    rwa [serialType_expand]
  have hheader := hkey.header.append_last hkey.fits hkey.varint hlast'
  rw [hbytes] at hstands
  obtain ⟨mem', hsplit, hparts, _⟩ := splitIndexKey_record hrecordable hheader
    (by rw [Nat.add_sub_cancel, hkey.varint]) hlast' hstands
  rw [Nat.add_sub_cancel, stands_append] at hparts
  rw [Nat.add_sub_cancel] at hsplit
  have hlength : (indexKey format (fields.map Value.expand)).length ≤ z.length := by
    rw [hbytes, indexKey, recordBytes_length hheader, recordBytes_length hkey.header,
      dataBytes_append, length_append]
    omega
  refine ⟨mem', ?_, hparts.1, hparts.2, ?_⟩
  · rwa [hbytes]
  · exact recordUnpack_fields room hkey.recordable hkey.header hparts.1 hlength

end

end LumoSQL
