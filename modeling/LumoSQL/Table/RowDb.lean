import LumoSQL.Btree.Catalog
import LumoSQL.Table.RowidOrder

/-!
# Tables of rows as databases of a content

A content keeps a database as the bytes of its entries, and the functions on rows take it as the
nodes of an `MdbTable`. `Db.table` and `Db.ofTable` go from one to the other, and on a table of rows
they are inverse (`RowDb.table_eq`).

`RowInterface` is what a caller expects of a table of rows: a row that was inserted is found under
its rowid, and its rowid is read back. A database with `MDB_INTEGERKEY` has it
(`rowInterface_integerKey`). On the others the search that finds the row goes on to compare it with
a record that is not there (`not_rowInterface_plain`, `not_rowInterface_dupSort`).
-/

namespace LumoSQL

open Foundation List Option

/-! ### Databases and tables -/

/-- The key of a row as it stands in memory, the low byte first. -/
def u64Bytes (key : UInt64) : Bytes := (bigEndian 8 key.toNat).reverse

/-- The 64-bit value that `memcpy` takes from the beginning of some bytes. -/
def ofU64Bytes (bytes : Bytes) : UInt64 := UInt64.ofNat (ofBigEndian (bytes.take 8).reverse)

/-- The nodes of a database. -/
def Db.table (db : Db) : MdbTable :=
  if db.integerKey then
    .integerKey (db.entries.map fun entry ↦ ⟨ofU64Bytes entry.1, [entry.2]⟩)
  else if db.dupSort then
    .dupSort ((db.entries.splitBy fun a b ↦ a.1 == b.1).map fun group ↦
      ⟨(group.headD ([], [])).1, group.map Prod.snd⟩)
  else .plain (db.entries.map fun entry ↦ ⟨entry.1, [entry.2]⟩)

/-- The database with these nodes. -/
def Db.ofTable : MdbTable → Db
  | .integerKey nodes =>
    ⟨true, false, ((Foundation.entries nodes).map fun entry ↦ (u64Bytes entry.1, entry.2)).dedup,
      List.nodup_dedup _⟩
  | .plain nodes => ⟨false, false, (Foundation.entries nodes).dedup, List.nodup_dedup _⟩
  | .dupSort nodes => ⟨false, true, (Foundation.entries nodes).dedup, List.nodup_dedup _⟩

def RowDb (db : Db) : Prop := ∃ nodes, TableStore nodes ∧ db = .ofTable (.integerKey nodes)

/-- What the functions on a cursor take beside the database: how LMDB hashes and treats a call on a
transaction with a child, the fields of an index, the file format, the buffer and the memory, and
where a search that fails leaves the cursor. -/
structure BtreeContext where
  parentOpens : Bool
  hash : MdbHash
  pKeyInfo : KeyInfo
  fileFormat : ℕ
  index : ℕ → UInt8
  mem : ℕ → UInt8
  past : Bool

namespace BtreeContext

/-- The table after `sqlite3BtreeInsert` with a row, the put being carried out. -/
def inserted (ctx : BtreeContext) (table : MdbTable) (rowid : Int64) (data : Bytes) : MdbTable :=
  (sqlite3BtreeInsert ctx.hash ctx.pKeyInfo ctx.fileFormat true .success table ctx.mem none rowid
    data).2.1

/-- `sqlite3BtreeMovetoUnpacked` with a rowid. -/
def moveto (ctx : BtreeContext) (table : MdbTable) (rowid : Int64) : Option Moved :=
  sqlite3BtreeMovetoUnpacked ctx.hash ctx.pKeyInfo ctx.fileFormat ctx.past ctx.index table ctx.mem
    none rowid

/-- The table after a search for a rowid and `sqlite3BtreeDelete` of the row that it finds. -/
def deleted (ctx : BtreeContext) (table : MdbTable) (rowid : Int64) : MdbTable :=
  match ctx.moveto table rowid with
  | none => table
  | some moved =>
    if moved.res = 0 then
      moved.place.elim table fun place ↦ (sqlite3BtreeDelete .success table place).2
    else table

end BtreeContext

/-- `sqlite3BtreeKeySize` of the entry at a place. That of an index entry depends on the page it is
on. -/
def MdbTable.keySizeAt (place : ℕ × ℕ) : MdbTable → Option Int64
  | .integerKey nodes => (entryAt nodes place).map sqlite3BtreeKeySizeRow
  | .plain nodes =>
    (entryAt nodes place).map fun entry ↦ Int64.ofNat (entry.1.length + entry.2.length)
  | .dupSort _ => none

/-- The rows that `First`, `Next`, … come by: what `sqlite3BtreeKeySize` and `sqlite3BtreeDataFetch`
give. -/
def MdbTable.scanRows : MdbTable → List (Int64 × Option Bytes)
  | .integerKey nodes =>
    (walk (entries nodes) (nextPlace (entries nodes)) (entries nodes).length
      (firstPlace (entries nodes))).map fun entry ↦ (sqlite3BtreeKeySizeRow entry, some entry.2)
  | .plain nodes =>
    (walk (entries nodes) (nextPlace (entries nodes)) (entries nodes).length
      (firstPlace (entries nodes))).map fun entry ↦
        (Int64.ofNat (entry.1.length + entry.2.length), none)
  | .dupSort _ => []

def without (rows : List (Int64 × Option Bytes)) (rowid : Int64) : List (Int64 × Option Bytes) :=
  rows.filter fun other ↦ other.1 ≠ rowid

def overwrite (rows : List (Int64 × Option Bytes)) (row : Int64 × Bytes) :
    List (Int64 × Option Bytes) :=
  (row.1, some row.2) :: without rows row.1

/-- A row that is inserted is found under its rowid, and its rowid is read back. -/
def RowInterface (ctx : BtreeContext) (table : MdbTable) : Prop :=
  ∀ (rowid : Int64) (data : Bytes), ∃ moved place,
    ctx.moveto (ctx.inserted table rowid data) rowid = some moved ∧ moved.rc = .ok ∧
      moved.res = 0 ∧ moved.place = some place ∧
      (ctx.inserted table rowid data).keySizeAt place = some rowid

/-! ### Round trips -/

theorem ofU64Bytes_u64Bytes (key : UInt64) : ofU64Bytes (u64Bytes key) = key := by
  have hlength : (u64Bytes key).length = 8 := by simp [u64Bytes]
  have hfits : key.toNat % 256 ^ 8 = key.toNat := Nat.mod_eq_of_lt key.toNat_lt
  rw [ofU64Bytes, take_of_length_le hlength.le, u64Bytes, reverse_reverse,
    ofBigEndian_bigEndian, hfits, UInt64.ofNat_toNat]

section

variable {nodes : List (Node UInt64 Bytes)}

theorem table_ofTable (hstore : TableStore nodes) :
    (Db.ofTable (.integerKey nodes)).table = .integerKey nodes := by
  have hbytes : ((entries nodes).map fun entry ↦ (u64Bytes entry.1, entry.2)).Nodup := by
    refine List.Nodup.of_map (fun entry : Bytes × Bytes ↦ ofU64Bytes entry.1) ?_
    have hkeys : (fun entry : Bytes × Bytes ↦ ofU64Bytes entry.1) ∘
        (fun entry : UInt64 × Bytes ↦ (u64Bytes entry.1, entry.2)) = Prod.fst := by
      funext entry
      exact ofU64Bytes_u64Bytes entry.1
    rw [List.map_map, hkeys, Single.entries_keys hstore.rows]
    exact hstore.keys_nodup
  have hnodes : (fun entry : Bytes × Bytes ↦
      (⟨ofU64Bytes entry.1, [entry.2]⟩ : Node UInt64 Bytes)) ∘
      (fun entry : UInt64 × Bytes ↦ (u64Bytes entry.1, entry.2)) =
        fun entry ↦ ⟨entry.1, [entry.2]⟩ := by
    funext entry
    simp [Function.comp_apply, ofU64Bytes_u64Bytes]
  simp only [Db.ofTable, Db.table, if_true, hbytes.dedup, List.map_map, hnodes]
  rw [Single.nodes_eq hstore.rows]

end

theorem RowDb.empty : RowDb (.empty true false) := ⟨[], TableStore.nil, rfl⟩

theorem RowDb.table_eq {db : Db} (hdb : RowDb db) :
    ∃ nodes, TableStore nodes ∧ db.table = .integerKey nodes ∧ db =
      .ofTable (.integerKey nodes) := by
  obtain ⟨nodes, hstore, rfl⟩ := hdb
  exact ⟨nodes, hstore, table_ofTable hstore, rfl⟩

/-! ### The interface -/

section

variable {ctx : BtreeContext} {nodes : List (Node UInt64 Bytes)} {rowid : Int64} {data : Bytes}

@[simp] theorem inserted_integerKey :
    ctx.inserted (.integerKey nodes) rowid data = .integerKey (insertRow rowid data nodes) := by
  rw [BtreeContext.inserted, insert_integerKey, if_pos rfl]

theorem entries_length_ne_zero {κ δ : Type*} {node : Node κ δ} {nodes : List (Node κ δ)} {item : δ}
    (hnode : node ∈ nodes) (hitem : node.items = [item]) : (entries nodes).length ≠ 0 := by
  have hentry : (node.key, item) ∈ entries nodes :=
    mem_entries.mpr ⟨node, hnode, rfl, by simp [hitem]⟩
  exact ne_of_gt (length_pos_of_mem hentry)

/-- A table of rows finds what was inserted into it. -/
theorem rowInterface_integerKey (ctx : BtreeContext) (hstore : TableStore nodes) :
    RowInterface ctx (.integerKey nodes) := by
  intro rowid data
  obtain ⟨node, hnode, hzero, hitem⟩ := exists_mem_putOver (integerProbe rowid.toUInt64)
    (integerProbe_eq_zero.mpr rfl) data nodes
  have hentries : (MdbTable.integerKey (insertRow rowid data nodes)).mdEntries ≠ 0 :=
    entries_length_ne_zero hnode hitem
  obtain ⟨place, found, hmoved, hentry⟩ := movetoRow_mem (hstore.insertRow rowid data) ctx.past
    ctx.mem none ⟨_, (mem_entries_insertRow hstore _).mpr (.inl rfl), rfl⟩
  refine ⟨⟨.ok, 0, some place, ctx.mem, none⟩, place, ?_, rfl, rfl, rfl, ?_⟩
  · rw [inserted_integerKey, BtreeContext.moveto, sqlite3BtreeMovetoUnpacked, if_neg hentries]
    exact congrArg some hmoved
  · rw [inserted_integerKey, MdbTable.keySizeAt, hentry]
    simp [sqlite3BtreeKeySizeRow]

/-- A row that is found in a database without `MDB_INTEGERKEY` is compared with no record. -/
theorem not_rowInterface_plain (ctx : BtreeContext) (nodes : List (Node Bytes Bytes)) :
    ¬RowInterface ctx (.plain nodes) := by
  intro hinterface
  obtain ⟨moved, _, hmoved, _⟩ := hinterface 0 []
  have hself : compareBytes (i64Bytes 0) (i64Bytes 0) = 0 := by decide
  obtain ⟨node, hnode, hzero, hitem⟩ := exists_mem_putOver (compareBytes (i64Bytes 0)) hself
    ([] : Bytes) nodes
  have hinserted : ctx.inserted (.plain nodes) 0 [] =
      .plain (putOver (compareBytes (i64Bytes 0)) (i64Bytes 0) [] nodes) := by
    simp [BtreeContext.inserted, sqlite3BtreeInsert]
  have hentries : (MdbTable.plain (putOver (compareBytes (i64Bytes 0)) (i64Bytes 0) []
      nodes)).mdEntries ≠ 0 := entries_length_ne_zero hnode hitem
  rw [hinserted, BtreeContext.moveto, sqlite3BtreeMovetoUnpacked, if_neg hentries] at hmoved
  rw [if_neg fun hmiss ↦ hmiss node hnode hzero] at hmoved
  cases hmoved

/-- A search in a database without `MDB_INTEGERKEY` reports no row. -/
theorem moveto_plain_res {ctx : BtreeContext} {nodes : List (Node Bytes Bytes)} {moved : Moved}
    (hmoved : ctx.moveto (.plain nodes) rowid = some moved) : moved.res ≠ 0 := by
  rw [BtreeContext.moveto, sqlite3BtreeMovetoUnpacked] at hmoved
  by_cases hempty : (MdbTable.plain nodes).mdEntries = 0
  · rw [if_pos hempty] at hmoved
    cases hmoved
    simp
  · rw [if_neg hempty] at hmoved
    by_cases hmiss : ∀ node ∈ nodes, compareBytes (i64Bytes rowid) node.key ≠ 0
    · rw [if_pos hmiss] at hmoved
      cases hmoved
      split_ifs <;> simp
    · rw [if_neg hmiss] at hmoved
      cases hmoved

theorem not_rowInterface_dupSort (ctx : BtreeContext) (nodes : List (Node Bytes Bytes)) :
    ¬RowInterface ctx (.dupSort nodes) := by
  intro hinterface
  obtain ⟨moved, _, hmoved, _, hres, _⟩ := hinterface 0 []
  have hinserted : ctx.inserted (.dupSort nodes) 0 [] = .dupSort nodes := by
    simp [BtreeContext.inserted, sqlite3BtreeInsert]
  rw [hinserted, BtreeContext.moveto, sqlite3BtreeMovetoUnpacked] at hmoved
  split_ifs at hmoved
  cases hmoved
  cases hres

/-- Only a database with `MDB_INTEGERKEY` has the interface. -/
theorem integerKey_of_rowInterface {db : Db} (hinterface : RowInterface ctx db.table) :
    db.integerKey = true := by
  unfold Db.table at hinterface
  split_ifs at hinterface with hinteger hdup
  · exact hinteger
  · exact absurd hinterface (not_rowInterface_dupSort ctx _)
  · exact absurd hinterface (not_rowInterface_plain ctx _)

/-! ### Scans -/

theorem scanRows_integerKey (nodes : List (Node UInt64 Bytes)) :
    (MdbTable.integerKey nodes).scanRows =
      (entries nodes).map fun entry ↦ (entry.1.toInt64, some entry.2) := by
  rw [MdbTable.scanRows, forward_eq _ (le_refl _)]
  rfl

theorem scanRows_nodup (hstore : TableStore nodes) :
    ((MdbTable.integerKey nodes).scanRows.map Prod.fst).Nodup := by
  have hfst : (Prod.fst ∘ fun entry : UInt64 × Bytes ↦ (entry.1.toInt64, some entry.2)) =
      UInt64.toInt64 ∘ Prod.fst := rfl
  rw [scanRows_integerKey, List.map_map, hfst, ← List.map_map, Single.entries_keys hstore.rows]
  refine hstore.keys_nodup.map fun a b hsame ↦ ?_
  rw [← UInt64.toUInt64_toInt64 a, hsame, UInt64.toUInt64_toInt64]

/-- After an insert a scan comes by the row that was inserted and those with other rowids. -/
theorem mem_scanRows_insertRow (hstore : TableStore nodes) (row : Int64 × Option Bytes) :
    row ∈ (MdbTable.integerKey (insertRow rowid data nodes)).scanRows ↔
      row ∈ overwrite (MdbTable.integerKey nodes).scanRows (rowid, data) := by
  simp only [scanRows_integerKey, overwrite, without, List.mem_map, mem_entries_insertRow hstore,
    mem_cons, mem_filter, decide_eq_true_eq]
  constructor
  · rintro ⟨entry, rfl | ⟨hold, hne⟩, rfl⟩
    · exact .inl (by rw [Int64.toInt64_toUInt64])
    · refine .inr ⟨⟨entry, hold, rfl⟩, fun hsame ↦ hne ?_⟩
      rw [← hsame, UInt64.toUInt64_toInt64]
  · rintro (rfl | ⟨⟨entry, hold, rfl⟩, hne⟩)
    · exact ⟨_, .inl rfl, by rw [Int64.toInt64_toUInt64]⟩
    · refine ⟨entry, .inr ⟨hold, fun hsame ↦ hne ?_⟩, rfl⟩
      rw [hsame, Int64.toInt64_toUInt64]

theorem deleted_cases (ctx : BtreeContext) (table : MdbTable) (rowid : Int64) :
    ctx.deleted table rowid = table ∨ ∃ place, ctx.deleted table rowid = table.eraseAt place := by
  unfold BtreeContext.deleted
  cases ctx.moveto table rowid with
  | none => exact .inl rfl
  | some moved =>
    simp only
    split_ifs
    · cases moved.place with
      | none => exact .inl rfl
      | some place => exact .inr ⟨place, rfl⟩
    · exact .inl rfl

/-- After a delete a scan comes by the rows with other rowids. -/
theorem mem_scanRows_deleted (ctx : BtreeContext) (hstore : TableStore nodes) (rowid : Int64)
    (row : Int64 × Option Bytes) : row ∈ (ctx.deleted (.integerKey nodes) rowid).scanRows ↔
      row ∈ without (MdbTable.integerKey nodes).scanRows rowid := by
  rw [without, mem_filter, decide_eq_true_eq]
  -- without the rowid among the keys nothing is taken away
  have hmiss : (∀ node ∈ nodes, node.key ≠ rowid.toUInt64) →
      row ∈ (MdbTable.integerKey nodes).scanRows → row.1 ≠ rowid := by
    intro hkeys hrow hsame
    rw [scanRows_integerKey] at hrow
    obtain ⟨entry, hentry, rfl⟩ := mem_map.mp hrow
    obtain ⟨node, hnode, hkey, _⟩ := mem_entries.mp hentry
    refine hkeys node hnode ?_
    rw [hkey, ← hsame, UInt64.toUInt64_toInt64]
  by_cases hempty : (MdbTable.integerKey nodes).mdEntries = 0
  · have hnil : entries nodes = [] := length_eq_zero_iff.mp hempty
    have hnone : ctx.deleted (.integerKey nodes) rowid = .integerKey nodes := by
      simp only [BtreeContext.deleted, BtreeContext.moveto, sqlite3BtreeMovetoUnpacked,
        if_pos hempty]
      rfl
    rw [hnone, scanRows_integerKey, hnil]
    simp
  · have hmoveto : ctx.moveto (.integerKey nodes) rowid =
        some (movetoRow ctx.past ctx.mem none rowid nodes) := by
      rw [BtreeContext.moveto, sqlite3BtreeMovetoUnpacked, if_neg hempty]
    rcases movetoRow_cases hstore rowid ctx.past ctx.mem none with ⟨hkeys, hres⟩ |
      ⟨before, item, after, rfl, hmoved⟩
    · have hnone : ctx.deleted (.integerKey nodes) rowid = .integerKey nodes := by
        simp [BtreeContext.deleted, hmoveto, if_neg hres]
      rw [hnone]
      exact ⟨fun hrow ↦ ⟨hrow, hmiss hkeys hrow⟩, fun hrow ↦ hrow.1⟩
    · have hitems : (⟨rowid.toUInt64, [item]⟩ : Node UInt64 Bytes).items = [] ++ item :: [] := rfl
      have herased : eraseAt (before ++ ⟨rowid.toUInt64, [item]⟩ :: after) (before.length, 0) =
          before ++ after := eraseAt_split hitems
      have hdeleted : ctx.deleted (.integerKey
          (before ++ ⟨rowid.toUInt64, [item]⟩ :: after)) rowid =
          .integerKey (before ++ after) := by
        simp [BtreeContext.deleted, hmoveto, hmoved, sqlite3BtreeDelete, MdbTable.eraseAt, herased]
      obtain ⟨hbefore, hafter⟩ := hstore.ordered.keys_ne integerProbe_oriented
      have hothers : ∀ entry ∈ entries (before ++ after), entry.1.toInt64 ≠ rowid := by
        intro entry hentry hsame
        obtain ⟨node, hnode, hkey, _⟩ := mem_entries.mp hentry
        have hrowid : node.key = rowid.toUInt64 := by
          rw [hkey, ← hsame, UInt64.toUInt64_toInt64]
        rcases mem_append.mp hnode with hin | hin
        · exact hbefore node hin hrowid
        · exact hafter node hin hrowid
      rw [hdeleted, scanRows_integerKey, scanRows_integerKey, List.mem_map, List.mem_map]
      constructor
      · rintro ⟨entry, hentry, rfl⟩
        refine ⟨⟨entry, ?_, rfl⟩, hothers entry hentry⟩
        rw [entries_append, mem_append] at hentry ⊢
        rw [mem_entries_cons]
        tauto
      · rintro ⟨⟨entry, hentry, rfl⟩, hne⟩
        refine ⟨entry, ?_, rfl⟩
        rw [entries_append, mem_append, mem_entries_cons] at hentry
        rw [entries_append, mem_append]
        rcases hentry with hin | ⟨hkey, _⟩ | hin
        · exact .inl hin
        · refine absurd ?_ hne
          rw [hkey, Int64.toInt64_toUInt64]
        · exact .inr hin

end

end LumoSQL
