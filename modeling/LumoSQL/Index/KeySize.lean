import LumoSQL.Index.Order

/-!
# The size of a key, its bytes and its rowid

Three functions of `btree.c` give the key of the entry a cursor is at. `sqlite3BtreeKeySize` adds up
the sizes of the key and the data of its node, `sqlite3BtreeKey` copies bytes of the key of the node
alone, and `sqlite3BtreeKeyFetch` joins the key with the current data item. The data of a node with
several items is no item but a page or a database of them, so the sizes agree exactly for a node
without `F_DUPDATA`, and `sqlite3BtreeKey` is never able to copy as many bytes as the size says.

`sqlite3VdbeIdxRowid` takes the rowid from the joined key as long as the size does not ask for more
of it than there is. `keySize_disagrees` says what is left of the agreement.
-/

namespace LumoSQL

open Foundation List

/-- `PAGEHDRSZ`: what a page of data items has in front of them. -/
def PAGEHDRSZ : ℕ := 16

/-- The node of an index a cursor is at, with the current data item. The data of the node is the
item, or a page or a database of items if `F_DUPDATA` is set. -/
structure LeafNode where
  key : Bytes
  nodeData : Bytes
  item : Bytes
  dupData : Bool
  single : dupData = false → nodeData = item
  several : dupData = true → PAGEHDRSZ ≤ nodeData.length

/-- `sqlite3BtreeKeySize` in an index. -/
def sqlite3BtreeKeySize (node : LeafNode) : ℕ := node.key.length + node.nodeData.length

/-- `sqlite3BtreeKeyFetch` at a node. -/
def LeafNode.fetch (index : ℕ → UInt8) (node : LeafNode) : Bytes :=
  sqlite3BtreeKeyFetch index (node.key, node.item)

/-- `sqlite3BtreeKey`: the bytes that are copied. -/
def sqlite3BtreeKey (node : LeafNode) (offset amt : ℕ) : Except Rc Bytes :=
  if offset + amt ≤ node.key.length then .ok ((node.key.drop offset).take amt)
  else .error .corrupt

/-- `sqlite3VdbeMemFromBtree` for a key; the memory for a copy may not be `grown`. -/
def sqlite3VdbeMemFromBtree (index : ℕ → UInt8) (grown : Bool) (node : LeafNode)
    (offset amt : ℕ) : Except Rc Bytes :=
  let zData := node.fetch index
  if offset + amt ≤ zData.length then .ok ((zData.drop offset).take amt)
  else if grown then sqlite3BtreeKey node offset amt
  else .error .nomem

def sqlite3VdbeIdxRowid (index : ℕ → UInt8) (grown : Bool) (node : LeafNode) : Except Rc Int64 :=
  match sqlite3VdbeMemFromBtree index grown node 0 (sqlite3BtreeKeySize node) with
  | .error rc => .error rc
  | .ok m =>
    let z := ofBytes m
    let szHdr := (getVarint32 z 0).1
    if szHdr < 3 ∨ m.length < szHdr then .error .corrupt
    else
      let typeRowid := (getVarint32 z (szHdr - 1)).1
      if typeRowid < 1 ∨ 9 < typeRowid ∨ typeRowid = 7 then .error .corrupt
      else
        let lenRowid := sqlite3VdbeSerialTypeLen typeRowid
        if m.length < szHdr + lenRowid then .error .corrupt
        else
          match (sqlite3VdbeSerialGet z (m.length - lenRowid) typeRowid).1 with
          | .int i => .ok i
          -- the other types have been excluded
          | _ => .ok 0

/-- The size is that of the fetched key, the key is copied in that size, and the rowid is read from
it. -/
structure KeyAgrees (index : ℕ → UInt8) (grown : Bool) (node : LeafNode)
    (rowid : Int64) : Prop where
  size : sqlite3BtreeKeySize node = (node.fetch index).length
  copied : sqlite3BtreeKey node 0 (sqlite3BtreeKeySize node) = .ok (node.fetch index)
  read : sqlite3VdbeIdxRowid index grown node = .ok rowid

section

variable {node : LeafNode} {key : IndexKey} {fileFormat format : ℕ} {rowid : Int64}

variable (index : ℕ → UInt8)

theorem fetch_length (node : LeafNode) :
    (node.fetch index).length = node.key.length + node.item.length := read_length _ _ _

theorem lastItem_int_length (format : ℕ) (rowid : Int64) :
    0 < (lastItem format (.int rowid)).length ∧ (lastItem format (.int rowid)).length ≤ 9 := by
  have hsmall : ∀ serialType < 10, sqlite3VdbeSerialTypeLen serialType ≤ 8 := by decide
  have hshort := hsmall _ (Nat.lt_succ_of_le (serialTypeInt_range rowid.toInt format).2.1)
  rw [lastItem, length_append, putVarint32_one (serialType_int_lt format rowid),
    length_singleton, serialBytes_length (v := .int rowid) trivial, add_comm]
  exact ⟨Nat.succ_pos _, Nat.succ_le_succ hshort⟩

/-- The rowid is read from a joined key.
Assumes: there is a field beside the rowid. -/
theorem idxRowid_joined (grown : Bool) (hfields : key.fields ≠ []) (hkey : node.key = key.bytes)
    (hitem : node.item = lastItem format (.int rowid))
    (hsize : sqlite3BtreeKeySize node = (node.fetch index).length) :
    sqlite3VdbeIdxRowid index grown node = .ok rowid := by
  have hcopied : sqlite3VdbeMemFromBtree index grown node 0 (sqlite3BtreeKeySize node) =
      .ok (node.fetch index) := by
    simp [sqlite3VdbeMemFromBtree, hsize, drop_zero, take_length]
  have htype := serialType_int_lt format rowid
  have hparts : node.fetch index = putVarint32 (keyHeader key.fileFormat key.fields + 1) ++
      (typeBytes key.fileFormat key.fields ++
        (putVarint32 (sqlite3VdbeSerialType (.int rowid) format) ++
          (dataBytes key.fileFormat key.fields ++ serialBytes (.int rowid) format))) := by
    rw [LeafNode.fetch, hkey, hitem, IndexKey.bytes, keyFetch_cells index key.ok htype,
      cellTypes_append, cellData_append, cellTypes_map, cellData_map, cellTypes_cons, cellData_cons]
    simp [cellTypes, cellData]
  have hfirst : 0 < (typeBytes key.fileFormat key.fields).length := by
    obtain ⟨v, rest, hcons⟩ := exists_cons_of_ne_nil hfields
    have hv := key.ok.recordable.types v (by rw [hcons]; simp)
    have hpos := varintLen_pos (sqlite3VdbeSerialType v key.fileFormat)
    rw [hcons, typeBytes_cons, length_append, putVarint32_length hv]
    omega
  have hfits := key.ok.fits
  have hheader := key.ok.header.size
  have hone := putVarint32_one htype
  have hlen := serialBytes_length (v := .int rowid) trivial format
  have hrange : 1 ≤ sqlite3VdbeSerialType (.int rowid) format ∧
      sqlite3VdbeSerialType (.int rowid) format ≤ 9 ∧
        sqlite3VdbeSerialType (.int rowid) format ≠ 7 := serialTypeInt_range rowid.toInt format
  have hvarintPos := varintLen_pos (keyHeader key.fileFormat key.fields)
  have hhead := putVarint32_length hfits
  rw [key.ok.varint] at hhead
  generalize node.fetch index = z at hparts hcopied
  generalize keyHeader key.fileFormat key.fields = hdr at hparts hfits hheader hhead hvarintPos
  -- where the five parts of the joined key are
  have hlength := congrArg List.length hparts
  have hstands := stands_ofBytes z
  rw [hparts, stands_append, stands_append, stands_append, stands_append, ← hparts, hhead,
    zero_add, ← hheader, hone, length_singleton, ← hone] at hstands
  obtain ⟨hhdrAt, _, htypeAt, _, hvalueAt⟩ := hstands
  simp only [length_append, hhead, hone, length_singleton, hlen] at hlength
  have hszHdr : (getVarint32 (ofBytes z) 0).1 = hdr + 1 := by rw [getVarint32_put hfits hhdrAt]
  have htypeRowid : (getVarint32 (ofBytes z) hdr).1 = _ :=
    congrArg Prod.fst (getVarint32_put (lt_trans htype (by decide)) htypeAt)
  have hget := serialGet_put (v := .int rowid) trivial 0 format hvalueAt
  have hplace : z.length - sqlite3VdbeSerialTypeLen (sqlite3VdbeSerialType (.int rowid) format) =
      hdr + 1 + (dataBytes key.fileFormat key.fields).length := by
    omega
  simp only [sqlite3VdbeIdxRowid, hcopied, hszHdr, Nat.add_sub_cancel, htypeRowid, hplace, hget]
  rw [if_neg (by omega), if_neg (by omega), if_neg (by omega)]
  rfl

/-- The size, the bytes and the rowid of an entry never agree: as many bytes as the size says are
never copied. The size and the rowid are right exactly if the node has no page or database of items.
Assumes: an entry of an index with a column, whose item is a rowid. -/
theorem keySize_disagrees (key : IndexKey) (fileFormat : ℕ) (index : ℕ → UInt8) (grown : Bool)
    (hfields : key.fields ≠ [])
    (hkey : node.key = key.bytes) (hitem : node.item = lastItem fileFormat (.int rowid)) :
    ¬ KeyAgrees index grown node rowid ∧
      sqlite3BtreeKey node 0 (sqlite3BtreeKeySize node) = .error .corrupt ∧
      (sqlite3BtreeKeySize node = (node.fetch index).length ↔ node.dupData = false) ∧
      (sqlite3VdbeIdxRowid index grown node = .ok rowid ↔ node.dupData = false) := by
  have hbounds := lastItem_int_length fileFormat rowid
  rw [← hitem] at hbounds
  have hdata : 0 < node.nodeData.length := by
    cases hdup : node.dupData with
    | false => rw [node.single hdup]; exact hbounds.1
    | true => exact lt_of_lt_of_le (by decide) (node.several hdup)
  have hcorrupt : sqlite3BtreeKey node 0 (sqlite3BtreeKeySize node) = .error .corrupt := by
    rw [sqlite3BtreeKey, if_neg]
    rw [sqlite3BtreeKeySize]
    omega
  have hlonger : node.dupData = true → (node.fetch index).length < sqlite3BtreeKeySize node := by
    intro hdup
    have hseveral := node.several hdup
    rw [fetch_length, sqlite3BtreeKeySize]
    rw [PAGEHDRSZ] at hseveral
    omega
  have hsize : sqlite3BtreeKeySize node = (node.fetch index).length ↔ node.dupData = false := by
    rw [← Bool.not_eq_true]
    refine ⟨fun hsame hdup ↦ absurd hsame (hlonger hdup).ne', fun hsingle ↦ ?_⟩
    rw [fetch_length, sqlite3BtreeKeySize, node.single (by simpa using hsingle)]
  refine ⟨fun hagrees ↦ ?_, hcorrupt, hsize, ⟨fun hread ↦ ?_, fun hsingle ↦ ?_⟩⟩
  · exact absurd (hcorrupt.symm.trans hagrees.copied) (by simp)
  · -- with more bytes asked for than there are, the copy fails
    rw [← Bool.not_eq_true]
    intro hdup
    have hless := hlonger hdup
    simp only [sqlite3VdbeIdxRowid, sqlite3VdbeMemFromBtree, zero_add, not_le.mpr hless, if_false,
      hcorrupt] at hread
    cases grown with
    | false | true => cases hread
  · exact idxRowid_joined index grown hfields hkey hitem (hsize.mpr hsingle)

end

/-- The key of the indexed value `5`. -/
def keyFive : IndexKey := ⟨1, [.int 5], ⟨⟨by decide, by decide⟩, by decide⟩⟩

/-- The node of the key `5` with the one rowid `7`. -/
def singleNode : LeafNode where
  key := [2, 1, 5]
  nodeData := [1, 7]
  item := [1, 7]
  dupData := false
  single := fun _ ↦ rfl
  several := fun h ↦ absurd h (by decide)

/-- The node of the key `5` with several rowids in a database of their own, at the rowid `7`. -/
def severalNode : LeafNode where
  key := [2, 1, 5]
  nodeData := List.replicate 48 0
  item := [1, 7]
  dupData := true
  single := fun h ↦ absurd h (by decide)
  several := fun _ ↦ by decide

theorem keySize_disagrees_single : ¬ KeyAgrees (fun _ ↦ 0) true singleNode 7 ∧
    sqlite3BtreeKey singleNode 0 (sqlite3BtreeKeySize singleNode) = .error .corrupt ∧
    (sqlite3BtreeKeySize singleNode = (singleNode.fetch fun _ ↦ 0).length ↔
      singleNode.dupData = false) ∧
    (sqlite3VdbeIdxRowid (fun _ ↦ 0) true singleNode = .ok 7 ↔ singleNode.dupData = false) :=
  keySize_disagrees keyFive 1 (fun _ ↦ 0) true (cons_ne_nil _ _) (by decide) (by decide)

/-- With several rowids under one key the size is too large by the difference of the page or
database of items and the item, the key is not copied, and reading the rowid fails as if the
database were corrupt. -/
theorem idxRowid_corrupt_several : sqlite3BtreeKeySize severalNode = 51 ∧
    severalNode.fetch (fun _ ↦ 0) = [3, 1, 1, 5, 7] ∧
    sqlite3BtreeKey severalNode 0 51 = .error .corrupt ∧
    sqlite3VdbeIdxRowid (fun _ ↦ 0) true severalNode = .error .corrupt := by
  refine ⟨rfl, by decide, rfl, by decide⟩

end LumoSQL
