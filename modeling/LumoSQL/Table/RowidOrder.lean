import LumoSQL.Table.Rows

/-!
# The order of rowids in a scan

A scan of a table should come by its rows in the signed order of their rowids. LMDB orders them as
unsigned numbers, in which every negative rowid comes behind every other one. `rowid_order_iff` says
that the scans of a table are in order exactly if its rowids are all negative or all not negative.
In every case each row is visited once and its rowid is read back as it was (`mem_forwardRowids`).
-/

namespace LumoSQL

open Foundation List

/-- A call of `sqlite3BtreeInsert` with a row, and the code LMDB reports for the put. -/
structure RowInsert where
  rowid : Int64
  data : Bytes
  outcome : MdbRc

def RowInsert.accepted (op : RowInsert) : Bool := decide (op.outcome = .success)

/-- A run of inserts into a new table. The comparison of an index, the file format and the memory
are not looked at. -/
def runRows (hash : MdbHash) (pKeyInfo : KeyInfo) (fileFormat : ℕ) (mem : ℕ → UInt8)
    (ops : List RowInsert) : MdbTable :=
  ops.foldl (fun table op ↦ (sqlite3BtreeInsert hash pKeyInfo fileFormat true op.outcome
    table mem none
    op.rowid op.data).2.1) (.integerKey [])

/-- `sqlite3BtreeKeySize` in a table: the key itself. -/
def sqlite3BtreeKeySizeRow (entry : UInt64 × Bytes) : Int64 := entry.1.toInt64

/-- The rowids that `First`, `Next`, … come by. -/
def forwardRowids : MdbTable → List Int64
  | .integerKey nodes =>
    (walk (entries nodes) (nextPlace (entries nodes)) (entries nodes).length
      (firstPlace (entries nodes))).map sqlite3BtreeKeySizeRow
  | _ => []

/-- The rowids that `Last`, `Previous`, … come by. -/
def backwardRowids : MdbTable → List Int64
  | .integerKey nodes =>
    (walk (entries nodes) previousPlace (entries nodes).length (lastPlace (entries nodes))).map
      sqlite3BtreeKeySizeRow
  | _ => []

/-- The scans come by the inserted rowids, each once, in increasing and in decreasing order. -/
structure ScansInOrder (ops : List RowInsert) (table : MdbTable) : Prop where
  forward : (forwardRowids table).Pairwise fun a b ↦ a.toInt < b.toInt
  backward : (backwardRowids table).Pairwise fun a b ↦ b.toInt < a.toInt
  visited : ∀ rowid, rowid ∈ forwardRowids table ↔ ∃ op ∈ ops, op.accepted = true ∧ op.rowid = rowid

def OneSign (ops : List RowInsert) : Prop :=
  ∀ op ∈ ops, ∀ other ∈ ops, op.accepted = true → other.accepted = true →
    (0 ≤ op.rowid.toInt ↔ 0 ≤ other.rowid.toInt)

section

variable {nodes : List (Node UInt64 Bytes)}

/-- After a run of inserts the table has the rows of those that were carried out. -/
theorem runRows_store (hash : MdbHash) (info : KeyInfo) (format : ℕ) (mem : ℕ → UInt8)
    (ops : List RowInsert) :
    ∃ nodes, runRows hash info format mem ops = .integerKey nodes ∧ TableStore nodes ∧
      ∀ key, (∃ entry ∈ entries nodes, entry.1 = key) ↔
        ∃ op ∈ ops, op.accepted = true ∧ op.rowid.toUInt64 = key := by
  induction ops using List.reverseRecOn with
  | nil => exact ⟨[], rfl, TableStore.nil, by simp [entries]⟩
  | append_singleton ops op ih =>
    obtain ⟨nodes, htable, hstore, hkeys⟩ := ih
    have hstep : runRows hash info format mem (ops ++ [op]) =
        .integerKey (if op.outcome = .success then insertRow op.rowid op.data
          nodes else nodes) := by
      rw [runRows, foldl_append, ← runRows, htable]
      simp [insert_integerKey]
    by_cases hsuccess : op.outcome = .success
    · rw [if_pos hsuccess] at hstep
      refine ⟨_, hstep, hstore.insertRow _ _, fun key ↦ ?_⟩
      have haccepted : op.accepted = true := decide_eq_true hsuccess
      simp only [mem_entries_insertRow hstore, mem_append, mem_singleton, or_and_right,
        exists_or, exists_eq_left, haccepted, true_and, ← hkeys key]
      constructor
      · rintro (hnew | ⟨entry, ⟨hold, _⟩, hkey⟩)
        · exact .inr hnew
        · exact .inl ⟨entry, hold, hkey⟩
      · rintro (⟨entry, hold, hkey⟩ | hnew)
        · by_cases hsame : op.rowid.toUInt64 = key
          · exact .inl hsame
          · exact .inr ⟨entry, ⟨hold, fun hentry ↦ hsame (hentry.symm.trans hkey)⟩, hkey⟩
        · exact .inl hnew
    · rw [if_neg hsuccess] at hstep
      refine ⟨nodes, hstep, hstore, fun key ↦ ?_⟩
      have hrefused : op.accepted = false := decide_eq_false hsuccess
      rw [hkeys key]
      simp [or_and_right, exists_or, hrefused]

theorem TableStore.forwardRowids_eq (hstore : TableStore nodes) :
    forwardRowids (.integerKey nodes) = (nodes.map Node.key).map UInt64.toInt64 := by
  rw [forwardRowids, forward_eq _ (le_refl _), ← Single.entries_keys hstore.rows, map_map]
  rfl

theorem backwardRowids_eq (nodes : List (Node UInt64 Bytes)) :
    backwardRowids (.integerKey nodes) = (forwardRowids (.integerKey nodes)).reverse := by
  rw [backwardRowids, backward_eq _ (le_refl _), map_reverse, forwardRowids,
    forward_eq _ (le_refl _)]

theorem mem_forwardRowids (hstore : TableStore nodes) (rowid : Int64) :
    rowid ∈ forwardRowids (.integerKey nodes) ↔ ∃ entry ∈ entries nodes,
      entry.1 = rowid.toUInt64 := by
  rw [hstore.forwardRowids_eq, ← Single.entries_keys hstore.rows, map_map, mem_map]
  refine exists_congr fun entry ↦ and_congr_right fun _ ↦ ?_
  show entry.1.toInt64 = rowid ↔ entry.1 = rowid.toUInt64
  constructor
  · rintro rfl
    exact (UInt64.toUInt64_toInt64 _).symm
  · rintro hkey
    rw [hkey, Int64.toInt64_toUInt64]

/-- The scans of a table are in order exactly if its rowids are all negative or all not negative. -/
theorem rowid_order_iff (hash : MdbHash) (pKeyInfo : KeyInfo) (fileFormat : ℕ) (mem : ℕ → UInt8)
    (ops : List RowInsert) :
    ScansInOrder ops (runRows hash pKeyInfo fileFormat mem ops) ↔ OneSign ops := by
  obtain ⟨nodes, htable, hstore, hkeys⟩ := runRows_store hash pKeyInfo fileFormat mem ops
  have hvisited : ∀ rowid, rowid ∈ forwardRowids (.integerKey nodes) ↔
      ∃ op ∈ ops, op.accepted = true ∧ op.rowid = rowid := by
    intro rowid
    rw [mem_forwardRowids hstore, hkeys]
    refine exists_congr fun op ↦ and_congr_right fun _ ↦ and_congr_right fun _ ↦ ?_
    refine ⟨fun hkey ↦ ?_, fun hrowid ↦ hrowid ▸ rfl⟩
    rw [← Int64.toInt64_toUInt64 op.rowid, hkey, Int64.toInt64_toUInt64]
  have hunsigned : (forwardRowids (.integerKey nodes)).Pairwise fun a b ↦
      integerProbe a.toUInt64 b.toUInt64 < 0 := by
    rw [hstore.forwardRowids_eq, map_map, pairwise_map]
    refine hstore.ordered.imp fun hless ↦ ?_
    exact hless
  rw [htable]
  constructor
  · intro hscans op hop other hother haccepted hotherAccepted
    -- a negative rowid comes behind the others in the scan and before them in order
    have hapart : (forwardRowids (.integerKey nodes)).Pairwise fun a b ↦
        (0 ≤ a.toInt ↔ 0 ≤ b.toInt) := by
      refine (hunsigned.and hscans.forward).imp fun {a b} hboth ↦ ?_
      have ha := toUInt64_toNat a
      have hb := toUInt64_toNat b
      have hless := compareNumbers_neg.mp hboth.1
      have hsigned : a.toInt < b.toInt := hboth.2
      constructor
      · intro hnonneg
        exact hnonneg.trans hsigned.le
      · intro hnonneg
        have hlow := a.le_toInt
        have hhigh := b.toInt_lt
        split_ifs at ha hb <;> omega
    have hopIn := (hvisited op.rowid).mpr ⟨op, hop, haccepted, rfl⟩
    have hotherIn := (hvisited other.rowid).mpr ⟨other, hother, hotherAccepted, rfl⟩
    by_cases hsame : op.rowid = other.rowid
    · rw [hsame]
    · have hsymm : Std.Symm fun a b : Int64 ↦ (0 ≤ a.toInt ↔ 0 ≤ b.toInt) :=
        ⟨fun _ _ hiff ↦ hiff.symm⟩
      exact hapart.forall hopIn hotherIn hsame
  · intro hsign
    have hforward : (forwardRowids (.integerKey nodes)).Pairwise fun a b ↦ a.toInt < b.toInt := by
      refine hunsigned.imp_of_mem fun {a b} ha hb hless ↦ ?_
      obtain ⟨op, hop, haccepted, rfl⟩ := (hvisited a).mp ha
      obtain ⟨other, hother, hotherAccepted, rfl⟩ := (hvisited b).mp hb
      exact (integerProbe_neg_iff (hsign op hop other hother haccepted hotherAccepted)).mp hless
    refine ⟨hforward, ?_, hvisited⟩
    rwa [backwardRowids_eq, pairwise_reverse]

end

/-- A table with the rows `5` and `-3`, in which a scan comes by `5` first. -/
theorem rowid_order_mixed : forwardRowids (runRows .fnv ⟨[]⟩ 1 (fun _ ↦ 0)
        [⟨-3, [], .success⟩, ⟨5, [], .success⟩]) = [5, -3] ∧
    ¬ ScansInOrder [⟨-3, [], .success⟩, ⟨5, [], .success⟩]
      (runRows .fnv ⟨[]⟩ 1 (fun _ ↦ 0) [⟨-3, [], .success⟩, ⟨5, [], .success⟩]) := by
  have hrowids : forwardRowids
      (runRows .fnv ⟨[]⟩ 1 (fun _ ↦ 0) [⟨-3, [], .success⟩, ⟨5, [], .success⟩]) = [5, -3] := by
    decide
  refine ⟨hrowids, fun hscans ↦ ?_⟩
  have hforward := hscans.forward
  rw [hrowids] at hforward
  exact absurd hforward (by decide)

end LumoSQL
