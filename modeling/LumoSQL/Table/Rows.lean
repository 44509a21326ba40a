import LumoSQL.Foundation.Walk
import LumoSQL.Index.Access

/-!
# Tables of rows

A table is an LMDB database with `MDB_INTEGERKEY`: the key of a row is its rowid as it is in memory,
and LMDB compares these eight bytes as unsigned numbers. `TableStore` says that the rows are in this
order, one item for each. An insert puts its row in the place of the one with its rowid
(`mem_entries_insertRow`) and keeps the order (`TableStore.insertRow`).

A rowid is read back as it was (`Int64.toInt64_toUInt64`), and unsigned numbers are in the order of
the signed ones that are not negative and of those that are (`integerProbe_neg_iff`).
-/

namespace LumoSQL

open Foundation

/-- The rows of a table are in the order of their rowids as unsigned numbers. -/
structure TableStore (nodes : List (Node UInt64 Bytes)) : Prop where
  ordered : Ordered integerProbe nodes
  rows : ∀ node ∈ nodes, ∃ item, node.items = [item]

def insertRow (rowid : Int64) (data : Bytes) (nodes : List (Node UInt64 Bytes)) :
    List (Node UInt64 Bytes) :=
  putOver (integerProbe rowid.toUInt64) rowid.toUInt64 data nodes

section

theorem toInt64_toInt (key : UInt64) : key.toInt64.toInt =
    if key.toNat < 2 ^ 63 then (key.toNat : ℤ) else (key.toNat : ℤ) - 2 ^ 64 := by
  show key.toBitVec.toInt = _
  rw [BitVec.toInt_eq_toNat_cond]
  show (if 2 * key.toNat < 2 ^ 64 then (key.toNat : ℤ) else (key.toNat : ℤ) - _) = _
  split_ifs <;> omega

theorem toUInt64_toNat (rowid : Int64) : (rowid.toUInt64.toNat : ℤ) =
    if 0 ≤ rowid.toInt then rowid.toInt else rowid.toInt + 2 ^ 64 := by
  have hback := toInt64_toInt rowid.toUInt64
  have hlt := rowid.toUInt64.toNat_lt
  rw [Int64.toInt64_toUInt64] at hback
  split_ifs at hback ⊢ <;> omega

theorem integerProbe_neg_iff {a b : Int64} (hsign : 0 ≤ a.toInt ↔ 0 ≤ b.toInt) :
    integerProbe a.toUInt64 b.toUInt64 < 0 ↔ a.toInt < b.toInt := by
  have ha := toUInt64_toNat a
  have hb := toUInt64_toNat b
  rw [integerProbe, compareNumbers_neg]
  split_ifs at ha hb <;> omega

theorem integerProbe_eq_zero {key other : UInt64} : integerProbe key other = 0 ↔ key = other := by
  rw [integerProbe, compareNumbers_eq_zero, Int.natCast_inj, UInt64.toNat_inj]

theorem integerProbe_oriented : Oriented integerProbe := fun key other ↦
  compareNumbers_oriented key.toNat other.toNat

theorem integerProbe_trans : TransOn (fun _ ↦ True) integerProbe := fun key other third _ _ _ ↦
  compareNumbers_trans key.toNat other.toNat third.toNat trivial trivial trivial

end

section

variable {nodes : List (Node UInt64 Bytes)} {rowid : Int64} {data : Bytes}

theorem TableStore.nil : TableStore [] := ⟨List.Pairwise.nil, by simp⟩

theorem TableStore.insertRow (hstore : TableStore nodes) (rowid : Int64) (data : Bytes) :
    TableStore (insertRow rowid data nodes) := by
  refine ⟨hstore.ordered.putOver integerProbe_oriented integerProbe_trans
    (fun _ _ ↦ trivial) trivial
    (fun _ _ ↦ Iff.rfl) (fun _ _ ↦ Iff.rfl), ?_⟩
  exact Single.putOver hstore.rows _ _ _

theorem TableStore.keys_nodup (hstore : TableStore nodes) : (nodes.map Node.key).Nodup := by
  rw [List.nodup_iff_pairwise_ne, List.pairwise_map]
  refine hstore.ordered.imp fun {a b} hless hsame ↦ ?_
  rw [hsame, integerProbe_oriented.self] at hless
  exact absurd hless (lt_irrefl 0)

/-- An insert puts its row in the place of the one with its rowid. -/
theorem mem_entries_insertRow (hstore : TableStore nodes) (entry : UInt64 × Bytes) :
    entry ∈ entries (insertRow rowid data nodes) ↔
      entry = (rowid.toUInt64, data) ∨ (entry ∈ entries nodes ∧ entry.1 ≠ rowid.toUInt64) :=
  mem_entries_putOver (integerProbe_eq_zero.mpr rfl) hstore.keys_nodup
    (fun _ hzero ↦ (integerProbe_eq_zero.mp hzero).symm) data entry

theorem insert_integerKey (hash : MdbHash) (info : KeyInfo) (format : ℕ) (allocated : Bool)
    (outcome : MdbRc) (nodes : List (Node UInt64 Bytes)) (mem : ℕ → UInt8) (pKey : Option ℕ)
    (rowid : Int64) (data : Bytes) :
    sqlite3BtreeInsert hash info format allocated outcome (.integerKey nodes) mem pKey rowid
        data = (errmap outcome,
      .integerKey (if outcome = .success then insertRow rowid data nodes else nodes), mem) := by
  simp only [sqlite3BtreeInsert, insertRow]
  split_ifs <;> rfl

end

section

variable {nodes : List (Node UInt64 Bytes)} {rowid : Int64}

/-- The search finds the node of the rowid, or there is none. -/
theorem movetoRow_cases (hstore : TableStore nodes) (rowid : Int64) (past : Bool) (mem : ℕ → UInt8)
    (pUnKey : Option UnpackedRecord) : ((∀ node ∈ nodes, node.key ≠ rowid.toUInt64) ∧
      (movetoRow past mem pUnKey rowid nodes).res ≠ 0) ∨
    ∃ before item after, nodes = before ++ ⟨rowid.toUInt64, [item]⟩ :: after ∧
      movetoRow past mem pUnKey rowid nodes = ⟨.ok, 0, some (before.length, 0), mem, pUnKey⟩ := by
  rcases findIdx_cases (fun node : Node UInt64 Bytes ↦ integerProbe rowid.toUInt64 node.key = 0)
    nodes with ⟨hnone, hmiss⟩ | ⟨before, node, after, rfl, hfind, hzero, _⟩
  · refine .inl ⟨fun node hnode hsame ↦ hmiss node hnode (integerProbe_eq_zero.mpr hsame.symm), ?_⟩
    simp only [movetoRow, hnone]
    split_ifs <;> simp
  · obtain ⟨item, hitem⟩ := hstore.rows node (by simp)
    refine .inr ⟨before, item, after, ?_, ?_⟩
    · rw [integerProbe_eq_zero.mp hzero, ← hitem]
    · simp [movetoRow, hfind]

theorem movetoRow_mem (hstore : TableStore nodes) (past : Bool) (mem : ℕ → UInt8)
    (pUnKey : Option UnpackedRecord) (hmem : ∃ entry ∈ entries nodes, entry.1 = rowid.toUInt64) :
    ∃ place data, movetoRow past mem pUnKey rowid nodes = ⟨.ok, 0, some place, mem, pUnKey⟩ ∧
      entryAt nodes place = some (rowid.toUInt64, data) := by
  rcases movetoRow_cases hstore rowid past mem pUnKey with ⟨hmiss, _⟩ |
    ⟨before, item, after, rfl, hmoved⟩
  · obtain ⟨entry, hentry, hkey⟩ := hmem
    obtain ⟨node, hnode, hnodeKey, _⟩ := mem_entries.mp hentry
    exact absurd (hnodeKey.trans hkey) (hmiss node hnode)
  · refine ⟨(before.length, 0), item, hmoved, ?_⟩
    rw [entryAt_middle]
    rfl

end

end LumoSQL
