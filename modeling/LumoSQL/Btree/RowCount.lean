import LumoSQL.Btree.Catalog

/-!
# The rows that clearing a table counts

`sqlite3BtreeClearTable` adds the number of the rows to a counter. It reads that number from
`mt_dbs`, the array of the records of the databases, at the place of the root number. LMDB indexes
the array by its handles: 0 is the list of free pages, 1 the unnamed database, and a table gets the
first free handle from 2 on when it is opened for the first time (`dbiStep`).

`clearTable_counts_iff` says when the counter is right.
-/

namespace LumoSQL

open Foundation List Option

/-! ### The handles -/

inductive DbiEvent
  | opened (root : ℕ)
  | dropped (root : ℕ)

/-- The tables that have a handle, from handle 2 on. -/
def dbiStep (dbis : List (Option ℕ)) : DbiEvent → List (Option ℕ)
  | .opened root =>
    if some root ∈ dbis then dbis
    else if none ∈ dbis then dbis.set (dbis.idxOf none) (some root)
    else dbis ++ [some root]
  | .dropped root => dbis.map fun dbi ↦ if dbi = some root then none else dbi

/-- `mt_dbs` of a transaction. A record is `stale` until the transaction has used its database; it
and a place without a database hold what was left there. -/
structure MtDbs where
  history : List DbiEvent
  stale : ℕ → Bool
  left : ℕ → ℕ

namespace MtDbs

def name (dbs : MtDbs) : ℕ → Option DbName
  | 0 => none
  | 1 => some .unnamed
  | i + 2 => ((dbs.history.foldl dbiStep [])[i]?).join.map DbName.tab

/-- `md_entries` of the record at a place. -/
def mdEntries (dbs : MtDbs) (content : Content) (place : ℕ) : ℕ :=
  match (dbs.name place).bind content.db with
  | some db => if dbs.stale place then dbs.left place else db.entries.length
  | none => dbs.left place

end MtDbs

/-! ### The counter -/

section

variable (parentOpens : Bool) (dbs : MtDbs) {h : Handle} {iTable : ℕ}

/-- `sqlite3BtreeClearTable` with a counter, an `int`. No code of an error turns into success, so
the counter is changed where `SQLITE_OK` is returned. -/
def clearTableCounting (h : Handle) (iTable : ℕ) (pnChange : ℤ) : Option (Rc × ℤ × Handle) :=
  h.bt.currTxn.bind fun txn ↦ let ents := dbs.mdEntries (h.env.seen txn) iTable
    (sqlite3BtreeClearTable parentOpens h iTable).map fun done ↦
      (done.1, if done.1 = .ok then (pnChange + ents).bmod (2 ^ 32) else pnChange, done.2)

/-- The table has no row, the others are as they were, and the counter is increased by the rows. -/
structure CountsRows (iTable : ℕ) (before after : Content) (pnChange counted : ℤ) : Prop where
  empty : (after.db (.tab iTable)).map Db.entries = some []
  others : ∀ other, other ≠ iTable → after.db (.tab other) = before.db (.tab other)
  count : ∀ db, before.db (.tab iTable) = some db → counted = pnChange + db.entries.length

theorem errmapAgain_eq_ok_iff (rc : Rc) : errmapAgain rc = .ok ↔ rc = .ok := by
  cases rc <;> simp [errmapAgain]

variable {parentOpens} in
/-- A call that succeeds clears the table.
Assumes: the names of the tables are entries of the unnamed database. -/
theorem clearTable_ok {txn : ℕ} (hcurr : h.bt.currTxn = some txn)
    (hlisted : (h.env.seen txn).main.entries ≠ []) {h' : Handle}
    (hcall : sqlite3BtreeClearTable parentOpens h iTable = some (.ok, h')) :
    h'.env.store = h.env.store.modifyAt txn (Content.clear (.tab iTable)) := by
  have hstore := h.env.mdbOpen_lookup parentOpens txn iTable false false
  simp only [sqlite3BtreeClearTable, onTable, BtreeTableHandle, hcurr, map_some, bind_some, hlisted,
    and_false, if_false] at hcall
  by_cases hopened : (h.env.mdbOpen parentOpens txn iTable false false false).1 = .success
  · simp only [hopened, if_true, Env.mdbDropEntries] at hcall
    split_ifs at hcall with hdropped
    · cases hcall
      rw [← hstore]
      rfl
    · exact absurd ((errmap_eq_ok_iff _).mp (congrArg Prod.fst (some.inj hcall))) hdropped
  · simp only [hopened, if_false] at hcall
    have hagain := (errmapAgain_eq_ok_iff _).mp (congrArg Prod.fst (some.inj hcall))
    exact absurd ((errmap_eq_ok_iff _).mp hagain) hopened

/-- Clearing a table counts its rows exactly if the record at the place of its root number has as
many entries, and the sum is an `int`. -/
theorem clearTable_counts_iff {frame : Frame Content} (hcurr : h.bt.currTxn = some frame.id)
    (hframe : frame ∈ h.env.store.writer) (hlisted : frame.content.main.entries ≠ []) {db : Db}
    (htable : frame.content.db (.tab iTable) = some db) {pnChange counted : ℤ} {h' : Handle}
    (hint : -2 ^ 31 ≤ pnChange)
    (hcall : clearTableCounting parentOpens dbs h iTable pnChange = some (.ok, counted, h')) :
    CountsRows iTable frame.content (h'.env.seen frame.id) pnChange counted ↔
      (dbs.mdEntries frame.content iTable : ℤ) % 2 ^ 32 = db.entries.length % 2 ^ 32 ∧
        pnChange + db.entries.length < 2 ^ 31 := by
  have hseen : h.env.seen frame.id = frame.content := Env.seen_writer hframe
  rw [clearTableCounting, hcurr, bind_some] at hcall
  obtain ⟨⟨rc, after⟩, hclear, hdone⟩ := map_eq_some_iff.mp hcall
  obtain ⟨rfl, hcounted, rfl⟩ := Prod.mk.injEq .. ▸ Prod.mk.injEq .. ▸ hdone
  rw [if_pos rfl, hseen] at hcounted
  have hafter : after.env.seen frame.id = frame.content.clear (.tab iTable) :=
    Env.seen_modifyAt hframe (clearTable_ok hcurr (hseen ▸ hlisted) hclear)
  have hcount : counted = pnChange + db.entries.length ↔
      (dbs.mdEntries frame.content iTable : ℤ) % 2 ^ 32 = db.entries.length % 2 ^ 32 ∧
        pnChange + db.entries.length < 2 ^ 31 := by
    rw [← hcounted, Int.bmod_def]
    omega
  rw [hafter, ← hcount]
  refine ⟨fun hcounts ↦ hcounts.count db htable, fun hcounted ↦ ⟨?_, fun other hother ↦ ?_, ?_⟩⟩
  · simp [Content.clear, htable, Db.empty]
  · simp [Content.clear, hother]
  · intro other hsame
    rw [hcounted, some.inj (htable.symm.trans hsame)]

end

/-- The tables 1, without a row, and 2, with one. -/
def twoTables : Content where
  db
    | .unnamed => some ⟨false, false, [(tabName 1, []), (tabName 2, [])], by decide⟩
    | .tab 1 => some (.empty true false)
    | .tab 2 => some ⟨true, false, [([7], [1])], by decide⟩
    | .tab _ => none

def onTwoTables : Handle :=
  (sqlite3BtreeBeginTrans (.opened (.created twoTables [] true) 0 0) 1).2

/-- What clearing table 2 returns and counts after some tables were opened. -/
def clearedTwo (opened : List ℕ) : Option (Rc × ℤ × Handle) :=
  clearTableCounting true ⟨opened.map .opened, fun _ ↦ false, fun _ ↦ 0⟩ onTwoTables 2 0

theorem clearTable_counts_two :
    ∃ h', clearedTwo [2] = some (.ok, 1, h') ∧ CountsRows 2 twoTables (h'.env.seen 0) 0 1 := by
  have hcount : ((clearedTwo [2]).map fun done ↦ (done.1, done.2.1)) = some (.ok, 1) := by decide
  obtain ⟨⟨_, _, h'⟩, hcall, hdone⟩ := map_eq_some_iff.mp hcount
  cases hdone
  exact ⟨h', hcall, (@clearTable_counts_iff true _ onTwoTables 2 ⟨0, twoTables⟩ rfl (.head _)
    (by decide) _ rfl _ _ _ (by decide) hcall).mpr (by decide)⟩

/-- When the tables 1 and 2 have been opened in this order, the record at place 2 is that of table
1, and the row of table 2 is not counted. -/
theorem clearTable_counts_other :
    ((clearedTwo [1, 2]).map fun done ↦ (done.1, done.2.1)) = some (.ok, 0) ∧
      (twoTables.db (.tab 2)).map (fun db ↦ db.entries.length) = some 1 := by
  decide

end LumoSQL
