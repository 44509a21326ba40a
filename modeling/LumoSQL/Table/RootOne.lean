import LumoSQL.Table.Nesting

/-!
# The table with root number 1

Root 1 is to be one table of rows in the course of a transaction: a cursor on it opens, every cursor
denotes the same database, a row that is inserted is found again, and a scan comes by the rows that
were inserted and by nothing else (`RootOne`). `BtreeTableHandle` takes root 1 for the unnamed
database while that has no entry, and for `Tab.00000001` otherwise. The unnamed database has no
`MDB_INTEGERKEY`, and it stops being empty with the first row or meta value that is put into it;
then root 1 is a table that was never created (`root_one_ephemeral`).

So root 1 is one table of rows exactly if `Tab.00000001` exists when the transaction begins and is
not dropped in it (`root_one_iff`). What the table is to have is said by `nest`, which keeps the
rows of every open statement: a statement begins with the rows around it, a release hands its rows
on, and a rollback forgets them.
-/

namespace LumoSQL

open Foundation List Option Content Env

/-! ### One table of rows -/

/-- A cursor on root 1 opens and denotes this database, and the database is a table of rows. -/
structure RootOneAt (ctx : BtreeContext) (h : Handle) (name : DbName) : Prop where
  opens : ∀ pCur, ∃ h', cursorOnRoot ctx.parentOpens h 1 pCur = some (.ok, h') ∧
    (h'.cursor pCur).mc.map MdbCursor.dbi = some name
  rows : ∀ db, h.visible.db name = some db → RowInterface ctx db.table

/-- The rows of root 1 after a call. -/
def rowsAfter (rows : List (Int64 × Option Bytes)) : DbCall → List (Int64 × Option Bytes)
  | .insert rowid data => overwrite rows (rowid, data)
  | .delete rowid => without rows rowid
  | .clearTable iTable => if iTable = 1 then [] else rows
  | .dropTable iTable => if iTable = 1 then [] else rows
  | _ => rows

/-- A scan of a database comes by the expected rows, by no rowid twice, and only by rows that were
inserted through root 1. -/
structure HoldsRows (db : Db) (expected : List (Int64 × Option Bytes)) (history : List DbCall) :
    Prop where
  rowids : (db.table.scanRows.map Prod.fst).Nodup
  rows : ∀ row, row ∈ db.table.scanRows ↔ row ∈ expected
  inserted : ∀ row ∈ db.table.scanRows, ∃ rowid data, row = (rowid, some data) ∧
    DbCall.insert rowid data ∈ history

/-- Root 1 is one table of rows after each call of a transaction, and it has the rows it had when
the transaction began and those that were inserted and not taken away. -/
def RootOne (ctx : BtreeContext) (before : List DbCall) (h : Handle) (calls : List DbCall) : Prop :=
  ∃ name, ∀ taken, taken <+: calls → RootOneAt ctx (taken.foldl (DbCall.run ctx) h) name ∧
      ∀ start db, h.visible.db name = some start →
        (taken.foldl (DbCall.run ctx) h).visible.db name = some db →
        HoldsRows db ((taken.foldl (nest rowsAfter) [start.table.scanRows]).headD [])
          (before ++ taken)

/-! ### What a call does to the table -/

/-- `Tab.00000001` after a call, when it exists. -/
def DbCall.tableAfter (ctx : BtreeContext) (db : Db) : DbCall → Option Db
  | .insert rowid data => some (.ofTable (ctx.inserted db.table rowid data))
  | .delete rowid => some (.ofTable (ctx.deleted db.table rowid))
  | .clearTable iTable => some (if iTable = 1 then .empty db.integerKey db.dupSort else db)
  | .dropTable iTable => if iTable = 1 then none else some db
  | _ => some db

variable {call : DbCall} {content : Content} {ctx : BtreeContext} {db : Db} {h : Handle}
  {name : DbName} {update : Write}

/-- A root number denotes the table with its name while `Tab.00000001` exists. -/
theorem Denotes.cases (hinv : RootInv content) {iTable : ℕ} (hname : Denotes content iTable name) :
    name = .tab iTable ∨ (name = .unnamed ∧ content.db (.tab 1) = none) := by
  rcases hname with ⟨hname, hempty⟩ | htab
  · exact .inr ⟨hname, hinv.not_exists_of_empty hempty⟩
  · exact .inl htab

theorem TopUpdate.table_one (hupdate : TopUpdate ctx content call update)
    (hasserts : call.Asserts h) (hinv : RootInv content) :
    (update content).db (.tab 1) = (content.db (.tab 1)).bind (call.tableAfter ctx) := by
  cases hupdate with
  | @drop iTable _ hname =>
    rcases hname.cases hinv with rfl | ⟨rfl, hnone⟩
    · rw [drop_tab]
      cases content.db (.tab 1) with
      | none | some db => simp [DbCall.tableAfter, eq_comm]
    · simp [drop_unnamed_tab, hnone]
  | @clear iTable _ hname =>
    rcases hname.cases hinv with rfl | ⟨rfl, hnone⟩
    · by_cases hsame : iTable = 1
      · subst hsame
        cases hdb : content.db (.tab 1) with
        | none | some db => simp [Content.clear, DbCall.tableAfter, hdb]
      · simp [Content.clear, DbCall.tableAfter, hsame, Ne.symm hsame]
    · simp [Content.clear, drop_unnamed_tab, hnone]
  | put idx iMeta => simp [put_tab, DbCall.tableAfter]
  | insert rowid data hname | delete rowid hname =>
    rcases hname.cases hinv with rfl | ⟨rfl, hnone⟩
    · cases hdb : content.db (.tab 1) with
      | none | some db => simp [Content.rewrite, DbCall.tableAfter, hdb]
    · simp [Content.rewrite, hnone]
  | insertUnnamed rowid data => simp [Content.rewrite, DbCall.tableAfter]
  | writeTable root update => simp [Content.writeTable, DbCall.tableAfter, hasserts.2.symm]

theorem mem_scanRows_tableAfter {db db' : Db} (hdb : RowDb db)
    (hafter : call.tableAfter ctx db = some db') (row : Int64 × Option Bytes) :
    row ∈ db'.table.scanRows ↔ row ∈ rowsAfter db.table.scanRows call := by
  obtain ⟨nodes, hstore, htable, _⟩ := hdb.table_eq
  cases call with
  | insert rowid data =>
    cases hafter
    rw [htable, inserted_integerKey, table_ofTable (hstore.insertRow rowid data),
      mem_scanRows_insertRow hstore]
    rfl
  | delete rowid =>
    cases hafter
    have herased : (Db.ofTable (ctx.deleted (.integerKey nodes) rowid)).table =
        ctx.deleted (.integerKey nodes) rowid := by
      rcases deleted_cases ctx (.integerKey nodes) rowid with hsame | ⟨place, herased⟩
      · rw [hsame, table_ofTable hstore]
      · rw [herased]
        exact table_ofTable (hstore.eraseAt place)
    rw [htable, herased, mem_scanRows_deleted ctx hstore]
    rfl
  | clearTable iTable =>
    cases hafter
    by_cases hsame : iTable = 1
    · obtain ⟨_, _, rfl⟩ := hdb
      rw [rowsAfter, if_pos hsame, if_pos hsame]
      have hempty : (Db.empty true false).table = .integerKey [] := rfl
      rw [show (Db.ofTable (.integerKey _)).integerKey = true from rfl,
        show (Db.ofTable (.integerKey _)).dupSort = false from rfl, hempty, scanRows_integerKey]
      rfl
    · rw [rowsAfter, if_neg hsame, if_neg hsame]
  | dropTable iTable =>
    rw [DbCall.tableAfter] at hafter
    split_ifs at hafter with hsame
    cases hafter
    rw [rowsAfter, if_neg hsame]
  | _ => exact some.inj hafter ▸ Iff.rfl

theorem CreateUpdate.first_table (hupdate : CreateUpdate update)
    (hdb : content.db (.tab 1) = some db) : (update content).db (.tab 1) = some db := by
  cases hupdate with
  | first => rw [opened_tab, if_neg (by simp [hdb]), hdb]
  | named hother _ _ => rw [opened_tab, if_neg fun h ↦ hother h.1.symm, hdb]
  | number value => rw [put_tab, hdb]

/-! ### What root 1 is -/

theorem Handle.visible_congr {h h' : Handle} (hbt : h'.bt = h.bt)
    (hstore : h'.env.store = h.env.store) : h'.visible = h.visible := by
  simp [Handle.visible, hbt, Env.seen, hstore]

theorem cursor_opens (hcurr : h.bt.currTxn ≠ none) (hname : h.visible.db name ≠ none) (pCur : ℕ) :
    ∃ h', sqlite3BtreeCursor h name pCur = some (.ok, h') ∧
      (h'.cursor pCur).mc.map MdbCursor.dbi = some name := by
  obtain ⟨txn, hcurr⟩ := ne_none_iff_exists'.mp hcurr
  have hsome : ¬(h.visible.db name).isNone = true := by simpa using hname
  rw [sqlite3BtreeCursor, hcurr, map_some, if_neg hsome]
  exact ⟨_, rfl, by simp [mdbCursorInit]⟩

namespace InTxn

variable {h : Handle}

/-- Root 1 is the unnamed database, or `Tab.00000001`, or cannot be opened. -/
theorem handle_one (hin : InTxn h) (opens : Bool) :
    (h.visible.main.entries = [] ∧ BtreeTableHandle opens h 1 = some (.ok .unnamed, h)) ∨
    (h.visible.main.entries ≠ [] ∧ h.visible.db (.tab 1) ≠ none ∧ ∃ h',
      BtreeTableHandle opens h 1 = some (.ok (.tab 1), h') ∧ h'.bt = h.bt ∧
        h'.env.store = h.env.store ∧ h'.env.outcomes = []) ∨
    (h.visible.db (.tab 1) = none ∧ ∃ h',
      BtreeTableHandle opens h 1 = some (.error .notfound, h')) := by
  obtain ⟨txn, hcurr, hfree⟩ := hin.exists_txn
  have hvisible : h.visible = h.env.seen txn := by rw [Handle.visible, hcurr]
  have hok := outcome_nil hin.codes
  rw [hvisible]
  unfold BtreeTableHandle
  rw [hcurr, map_some]
  by_cases hempty : (h.env.seen txn).main.entries = []
  · exact .inl ⟨hempty, by rw [if_pos ⟨rfl, hempty⟩]⟩
  · have hrefused : ¬(h.env.blocked txn = true ∧ opens = false) := by simp [hfree]
    rw [if_neg fun h ↦ hempty h.2]
    by_cases hone : (h.env.seen txn).db (.tab 1) = none
    · refine .inr (.inr ⟨hone, ?_⟩)
      have hopen : h.env.mdbOpen opens txn 1 false false false =
        (.notFound, h.env.spend) := by
        rw [Env.mdbOpen, if_neg hrefused, if_neg (not_not.mpr hok), if_neg (by simp [hone]),
          if_neg (by simp)]
      simp only [hopen]
      exact ⟨_, rfl⟩
    · refine .inr (.inl ⟨hempty, hone, ?_⟩)
      have hcode : (h.env.mdbOpen opens txn 1 false false false).1 = .success := by
        rw [Env.mdbOpen, if_neg hrefused, if_neg (not_not.mpr hok),
          if_pos (.inl (isSome_iff_ne_none.mpr hone))]
      have hrewrites : Rewrites (fun _ ↦ True) h
          { h with env := (h.env.mdbOpen opens txn 1 false false false).2 } :=
        .mdbOpen opens h txn false trivial
      simp only [hcode, if_true]
      exact ⟨_, rfl, rfl, mdbOpen_lookup .., hrewrites.codes hin.codes⟩

/-- Root 1 is a table of rows exactly if `Tab.00000001` exists. -/
theorem rootOneAt_iff (hin : InTxn h) (ctx : BtreeContext) (name : DbName) :
    RootOneAt ctx h name ↔ name = .tab 1 ∧ h.visible.db (.tab 1) ≠ none := by
  have hinv := hin.rootInv
  rcases hin.handle_one ctx.parentOpens with ⟨hempty, hhandle⟩ |
    ⟨hentries, hone, h', hhandle, hbt, hstore, _⟩ | ⟨hnone, h', hhandle⟩
  · have hnone := hinv.not_exists_of_empty hempty
    refine ⟨fun hat ↦ ?_, fun hboth ↦ absurd hnone hboth.2⟩
    obtain ⟨h', hopened, hdbi⟩ := hat.opens 0
    obtain ⟨h'', hcursor, hunnamed⟩ := cursor_opens hin.currTxn_ne
      (by rw [hinv.main_eq]; simp : h.visible.db .unnamed ≠ none) 0
    rw [cursorOnRoot, hhandle, bind_some] at hopened
    have hsame := some.inj (hcursor.symm.trans hopened)
    rw [← (Prod.mk.inj hsame).2, hunnamed] at hdbi
    cases hdbi
    have hinteger := integerKey_of_rowInterface (hat.rows _ hinv.main_eq)
    rw [hinv.mainDb.integerKey] at hinteger
    cases hinteger
  · have hvisible := Handle.visible_congr hbt hstore
    have hcursor := cursor_opens (hbt ▸ hin.currTxn_ne) (hvisible ▸ hone)
    constructor
    · intro hat
      obtain ⟨h₁, hopened, hdbi⟩ := hat.opens 0
      obtain ⟨h₂, hopens, hfirst⟩ := hcursor 0
      rw [cursorOnRoot, hhandle, bind_some] at hopened
      have hsame := some.inj (hopens.symm.trans hopened)
      rw [← (Prod.mk.inj hsame).2, hfirst] at hdbi
      exact ⟨(some.inj hdbi).symm, hone⟩
    · rintro ⟨rfl, _⟩
      refine ⟨fun pCur ↦ ?_, fun db hdb ↦ ?_⟩
      · rw [cursorOnRoot, hhandle, bind_some]
        exact hcursor pCur
      · obtain ⟨nodes, hstore, htable, _⟩ := (hinv.rows db hdb).table_eq
        rw [htable]
        exact rowInterface_integerKey ctx hstore
  · refine ⟨fun hat ↦ ?_, fun hboth ↦ absurd hnone hboth.2⟩
    obtain ⟨h₁, hopened, _⟩ := hat.opens 0
    rw [cursorOnRoot, hhandle, bind_some] at hopened
    exact absurd (congrArg Prod.fst (some.inj hopened)) (by simp)

end InTxn

/-! ### What a call does in the transaction -/

section

variable {ctx : BtreeContext} {h h' : Handle}

variable {call : DbCall} {content : Content} {history : List DbCall} {txn : ℕ} {update : Write}

/-- A call on the database of root 1 is carried out while `Tab.00000001` exists. -/
theorem InTxn.onTable_one (hin : InTxn h) (hone : h.visible.db (.tab 1) ≠ none)
    (hcurr : h.bt.currTxn = some txn) (opens : Bool) (code : Rc → Rc)
    (act : Env → ℕ → DbName → MdbRc × Env) (update : DbName → Write)
    (hact : ∀ env name, act env txn name = if env.outcome = .success then
      (.success, env.spend.modify txn (update name)) else (env.outcome, env.spend)) :
    ∃ rc h', onTable opens h 1 code act = some (rc, h') ∧
      h'.env.store = h.env.store.modifyAt txn (update (.tab 1)) := by
  rcases hin.handle_one opens with ⟨hempty, _⟩ |
    ⟨_, _, found, hhandle, hbt, hstore, hcodes⟩ | ⟨hnone, _⟩
  · exact absurd (hin.rootInv.not_exists_of_empty hempty) hone
  · unfold onTable
    rw [hhandle, bind_some]
    simp only [hbt, hcurr, map_some, hact, if_pos (outcome_nil hcodes)]
    exact ⟨_, _, rfl, by rw [modify_store, spend_store, hstore]⟩
  · exact absurd hnone hone

/-- The calls through root 1. -/
def DbCall.OnRootOne : DbCall → Prop
  | .insert _ _ => True
  | .delete _ => True
  | .clearTable iTable => iTable = 1
  | .dropTable iTable => iTable = 1
  | _ => False

/-- A call through root 1 is carried out while `Tab.00000001` exists. -/
theorem InTxn.carried_out (hin : InTxn h) (hone : h.visible.db (.tab 1) ≠ none)
    (hcurr : h.bt.currTxn = some txn) (hroot : call.OnRootOne) :
    ∃ update, TopUpdate ctx h.visible call update ∧
      (call.run ctx h).env.store = h.env.store.modifyAt txn update := by
  cases call with
  | insert rowid data =>
    obtain ⟨rc, after, hcall, hstore⟩ := hin.onTable_one hone hcurr ctx.parentOpens id
      (Env.mdbWrite fun table ↦ ctx.inserted table rowid data)
      (fun name ↦ Content.rewrite name fun table ↦ ctx.inserted table rowid data) fun _ _ ↦ rfl
    refine ⟨_, .insert rowid data (.inr rfl), ?_⟩
    simp [DbCall.run, writeOnRoot, hcall, hstore]
  | delete rowid =>
    obtain ⟨rc, after, hcall, hstore⟩ := hin.onTable_one hone hcurr ctx.parentOpens id
      (Env.mdbWrite fun table ↦ ctx.deleted table rowid)
      (fun name ↦ Content.rewrite name fun table ↦ ctx.deleted table rowid) fun _ _ ↦ rfl
    refine ⟨_, .delete rowid (.inr rfl), ?_⟩
    simp [DbCall.run, writeOnRoot, hcall, hstore]
  | clearTable iTable =>
    obtain rfl : iTable = 1 := hroot
    obtain ⟨rc, after, hcall, hstore⟩ := hin.onTable_one hone hcurr ctx.parentOpens errmapAgain
      Env.mdbDropEntries Content.clear fun _ _ ↦ rfl
    refine ⟨_, .clear (.inr rfl), ?_⟩
    simp [DbCall.run, sqlite3BtreeClearTable, hcall, hstore]
  | dropTable iTable =>
    obtain rfl : iTable = 1 := hroot
    obtain ⟨rc, after, hcall, hstore⟩ := hin.onTable_one hone hcurr ctx.parentOpens errmapAgain
      Env.mdbDrop Content.drop fun _ _ ↦ rfl
    refine ⟨_, .drop (.inr rfl), ?_⟩
    have hdrop : sqlite3BtreeDropTable ctx.parentOpens h 1 = some (rc, after) := hcall
    simp [DbCall.run, hdrop, hstore]
  | _ => exact hroot.elim

/-- A call that is not through root 1 leaves `Tab.00000001` as it is. -/
theorem DbCall.tableAfter_of_not (hroot : ¬call.OnRootOne) (db : Db) :
    call.tableAfter ctx db = some db := by
  cases call with
  | insert rowid data | delete rowid => exact absurd trivial hroot
  | clearTable iTable | dropTable iTable =>
    have hother : iTable ≠ 1 := hroot
    rw [DbCall.tableAfter, if_neg hother]
  | _ => rfl

/-- Only a drop of root 1 takes `Tab.00000001` away. -/
theorem DbCall.tableAfter_some (ctx : BtreeContext) (hkeep : call ≠ .dropTable 1) (db : Db) :
    ∃ db', call.tableAfter ctx db = some db' := by
  cases call with
  | dropTable iTable =>
    have hother : iTable ≠ 1 := fun hone ↦ hkeep (by rw [hone])
    exact ⟨db, if_neg hother⟩
  | _ => exact ⟨_, rfl⟩

/-- What a call that moves no transaction does to `Tab.00000001`, and to the contents around. -/
theorem MakesUpdate.table_one (hin : InTxn h) (hmakes : MakesUpdate ctx h call txn (call.run ctx h))
    (hasserts : call.Asserts h) (hcurr : h.bt.currTxn = some txn) {db : Db}
    (hdb : h.visible.db (.tab 1) = some db) :
    ∃ update : Write, (update h.visible).db (.tab 1) = call.tableAfter ctx db ∧
      (call.run ctx h).env.store = h.env.store.modifyAt txn update := by
  by_cases hroot : call.OnRootOne
  · obtain ⟨update, hupdate, hstore⟩ := hin.carried_out (by simp [hdb]) hcurr hroot
    exact ⟨update, by rw [hupdate.table_one hasserts hin.rootInv, hdb]; rfl, hstore⟩
  · rcases hmakes.store with hsame | ⟨update, hupdate, hstore⟩
    · refine ⟨id, by rw [call.tableAfter_of_not hroot]; exact hdb, ?_⟩
      rw [hsame, SnapshotStore.modifyAt_eq_self _ fun _ _ _ ↦ rfl]
    · exact ⟨update, by rw [hupdate.table_one hasserts hin.rootInv, hdb]; rfl, hstore⟩

/-! ### The rows of every open statement -/

/-- `Tab.00000001` exists in a content and has these rows. -/
def RowsOne (content : Content) (rows : List (Int64 × Option Bytes)) : Prop :=
  ∃ db, content.db (.tab 1) = some db ∧ ∀ row, row ∈ db.table.scanRows ↔ row ∈ rows

/-- What `rowsAfter` gives depends on which rows there are. -/
theorem mem_rowsAfter_congr {rows rows' : List (Int64 × Option Bytes)}
    (hsame : ∀ row, row ∈ rows ↔ row ∈ rows') (call : DbCall) (row : Int64 × Option Bytes) :
    row ∈ rowsAfter rows call ↔ row ∈ rowsAfter rows' call := by
  cases call with
  | insert rowid data =>
    simp [rowsAfter, overwrite, without, mem_filter, hsame]
  | delete rowid => simp only [rowsAfter, without, mem_filter, hsame]
  | clearTable iTable | dropTable iTable =>
    rw [rowsAfter, rowsAfter]
    split_ifs
    · exact Iff.rfl
    · exact hsame row
  | _ => exact hsame row

/-- The stack of expected rows follows the contents of the transaction.
Assumes: the call stays in the transaction and does not drop root 1. -/
theorem DbCall.frames (call : DbCall) (hin : InTxn h) (hasserts : call.Asserts h)
    (hstays : call.Stays h) (hkeep : call ≠ .dropTable 1)
    {stack : List (List (Int64 × Option Bytes))} (hrows : List.Forall₂ RowsOne h.frames stack) :
    List.Forall₂ RowsOne (call.run ctx h).frames (nest rowsAfter stack call) := by
  by_cases htxn : ∃ txn, call = .txn txn
  · obtain ⟨txn, rfl⟩ := htxn
    exact txn.frames rowsAfter hin hasserts hstays hrows
  refine (DbCall.writes_frames hin.reached hasserts (fun txn hcall ↦ htxn ⟨txn, hcall⟩)
    (fun _ _ ↦ rfl) (fun update hkind content rows hcontent ↦ ?_)
    (fun txn rows hcurr hmakes hhead ↦ ?_) hrows).2.2
  · obtain ⟨db, hdb, hmem⟩ := hcontent
    exact ⟨db, hkind.first_table hdb, hmem⟩
  · obtain ⟨db, hdb, hmem⟩ := hhead
    obtain ⟨update, hupdate, hstore⟩ := hmakes.table_one hin hasserts hcurr hdb
    obtain ⟨db', hafter⟩ := DbCall.tableAfter_some ctx hkeep db
    refine ⟨update, ⟨db', hupdate.trans hafter, fun row ↦ ?_⟩, hstore⟩
    rw [mem_scanRows_tableAfter (hin.rootInv.rows db hdb) hafter, mem_rowsAfter_congr hmem]

/-! ### Rows that were inserted -/

/-- Every row of `Tab.00000001` is one that a call of the history inserted. -/
def RowsFrom (history : List DbCall) (content : Content) : Prop :=
  ∀ db, content.db (.tab 1) = some db → ∀ row ∈ db.table.scanRows,
    ∃ rowid data, row = (rowid, some data) ∧ DbCall.insert rowid data ∈ history

theorem RowsFrom.append (hrows : RowsFrom history content) (more : List DbCall) :
    RowsFrom (history ++ more) content := by
  intro db hdb row hrow
  obtain ⟨rowid, data, hsame, hmem⟩ := hrows db hdb row hrow
  exact ⟨rowid, data, hsame, mem_append_left _ hmem⟩

theorem CreateUpdate.rowsFrom (hupdate : CreateUpdate update) (hrows : RowsFrom history content) :
    RowsFrom history (update content) := by
  intro db hdb
  cases hone : content.db (.tab 1) with
  | some old =>
    rw [hupdate.first_table hone] at hdb
    exact some.inj hdb ▸ hrows old hone
  | none =>
    cases hupdate with
    | first =>
      rw [opened_tab, if_pos ⟨rfl, hone⟩] at hdb
      cases hdb
      intro row hrow
      have hnone : (Db.empty true false).table.scanRows = [] := rfl
      rw [hnone] at hrow
      cases hrow
    | named hother _ _ =>
      rw [opened_tab, if_neg fun h ↦ hother h.1.symm, hone] at hdb
      cases hdb
    | number value =>
      rw [put_tab, hone] at hdb
      cases hdb

/-- A row after a call was there before, or the call inserted it. -/
theorem mem_rowsAfter_cases {rows : List (Int64 × Option Bytes)} {row : Int64 × Option Bytes}
    (hrow : row ∈ rowsAfter rows call) :
    row ∈ rows ∨ ∃ rowid data, row = (rowid, some data) ∧ call = .insert rowid data := by
  cases call with
  | insert rowid data =>
    rcases mem_cons.mp hrow with hnew | hold
    · exact .inr ⟨rowid, data, hnew, rfl⟩
    · exact .inl (mem_filter.mp hold).1
  | delete rowid => exact .inl (mem_filter.mp hrow).1
  | clearTable iTable | dropTable iTable =>
    rw [rowsAfter] at hrow
    split_ifs at hrow
    · cases hrow
    · exact .inl hrow
  | _ => exact .inl hrow

theorem TopUpdate.rowsFrom (hupdate : TopUpdate ctx content call update) (hasserts : call.Asserts h)
    (hinv : RootInv content) (hrows : RowsFrom history content) :
    RowsFrom (history ++ [call]) (update content) := by
  intro db hdb row hrow
  rw [hupdate.table_one hasserts hinv] at hdb
  obtain ⟨old, hone, hafter⟩ := bind_eq_some_iff.mp hdb
  rw [mem_scanRows_tableAfter (hinv.rows old hone) hafter] at hrow
  rcases mem_rowsAfter_cases hrow with hold | ⟨rowid, data, hnew, hcall⟩
  · exact hrows.append [call] old hone row hold
  · exact ⟨rowid, data, hnew, by simp [hcall]⟩

/-- The rows of every content come from the history. -/
theorem DbCall.rowsFrom (call : DbCall) (hreached : Reached h) (hasserts : call.Asserts h)
    (hrows : h.env.store.All (RowsFrom history)) :
    (call.run ctx h).env.store.All (RowsFrom (history ++ [call])) := by
  have hmore : h.env.store.All (RowsFrom (history ++ [call])) :=
    ⟨hrows.1.append [call], fun frame hframe ↦ (hrows.2 frame hframe).append [call]⟩
  rcases call.cases ctx hreached.tracks hasserts with ⟨txn, rfl⟩ | ⟨flags, rfl, hrewrites⟩ |
    ⟨txn, hcurr, hmakes⟩
  · exact txn.all hmore
  · exact hrewrites.all (fun _ hkind _ hcontent ↦ hkind.rowsFrom hcontent) hmore
  · rcases hmakes.store with hsame | ⟨update, hupdate, hstore⟩
    · rwa [hsame]
    · rw [hstore]
      refine hmore.modifyAt fun frame hframe hid ↦ ?_
      have hmem : frame ∈ h.env.store.writer ++ h.env.store.readers := mem_append_left _ hframe
      have hvisible : h.visible = frame.content := by
        rw [Handle.visible, hcurr, ← seen_writer hframe, hid]
      rw [hvisible] at hupdate
      exact hupdate.rowsFrom hasserts (hreached.inv.2 frame hmem) (hrows.2 frame hmem)

end

/-! ### Runs -/

section

variable {ctx : BtreeContext} {h : Handle} {calls : List DbCall}

/-- While root 1 is not dropped the expected rows are there. -/
theorem frames_of_prefix (hin : InTxn h)
    (hcalls : Meets (DbCall.run ctx) (fun h call ↦ call.Asserts h ∧ call.Stays h) h calls)
    (hkeep : DbCall.dropTable 1 ∉ calls) {stack : List (List (Int64 × Option Bytes))}
    (hstart : List.Forall₂ RowsOne h.frames stack) {taken : List DbCall}
    (htaken : taken <+: calls) : List.Forall₂ RowsOne (taken.foldl (DbCall.run ctx) h).frames
      (taken.foldl (nest rowsAfter) stack) := by
  induction taken using List.reverseRecOn with
  | nil => exact hstart
  | append_singleton taken call ih =>
    have hbefore := (prefix_append taken [call]).trans htaken
    obtain ⟨htxn, hnext⟩ := inTxn_of_prefix hin hcalls hbefore
    obtain ⟨hasserts, hstays⟩ := hnext call htaken
    have hcall : call ≠ .dropTable 1 := fun hdrop ↦ hkeep (htaken.subset (by simp [hdrop]))
    rw [foldl_append, foldl_append]
    exact call.frames htxn hasserts hstays hcall (ih hbefore)

/-- Every row of every content comes from the calls. -/
theorem rowsFrom_of_prefix (hreached : Reached h)
    (hcalls : Meets (DbCall.run ctx) (fun h call ↦ call.Asserts h) h calls) {history : List DbCall}
    (hstart : h.env.store.All (RowsFrom history)) :
    (calls.foldl (DbCall.run ctx) h).env.store.All (RowsFrom (history ++ calls)) := by
  induction calls generalizing h history with
  | nil =>
    rwa [append_nil]
  | cons call rest ih =>
    have hafter := ih (call.reached ctx hreached hcalls.1) hcalls.2
      (call.rowsFrom hreached hcalls.1 hstart)
    rwa [append_assoc] at hafter

theorem InTxn.dropped (hin : InTxn h) (hasserts : (DbCall.dropTable 1).Asserts h)
    (hone : h.visible.db (.tab 1) ≠ none) :
    ((DbCall.dropTable 1).run ctx h).visible.db (.tab 1) = none := by
  obtain ⟨db, hdb⟩ := ne_none_iff_exists'.mp hone
  obtain ⟨txn, hcurr, _⟩ := hin.exists_txn
  rcases (DbCall.dropTable 1).cases ctx hin.reached.tracks hasserts with ⟨_, hcall⟩ |
    ⟨_, hcall, _⟩ | ⟨_, hcurr, hmakes⟩
  · cases hcall
  · cases hcall
  · obtain ⟨update, hupdate, hstore⟩ := hmakes.table_one hin hasserts hcurr hdb
    rwa [visible_modifyAt hin.reached.tracks hasserts.1 hcurr hmakes.bt hstore]

/-- In a transaction of every state that can be reached, root 1 is one table of rows exactly if
`Tab.00000001` exists when the transaction begins and is not dropped in it.
Assumes: the calls are made as they assert, and LMDB reports no failure in the transaction. -/
theorem root_one_iff (ctx : BtreeContext) (codes : List MdbRc) (currentIsOp : Bool) (id pBt : ℕ)
    (before calls : List DbCall) (h : Handle)
    (hbefore : Meets (DbCall.run ctx) (fun h call ↦ call.Asserts h)
      (.opened (.created .fresh codes currentIsOp) id pBt) before)
    (hstate : h = before.foldl (DbCall.run ctx)
      (.opened (.created .fresh codes currentIsOp) id pBt))
    (hin : h.bt.inTrans ≠ .none) (hmain : h.bt.currTxn = h.bt.mainTxn)
    (hcodes : h.env.outcomes = [])
    (hcalls : Meets (DbCall.run ctx) (fun h call ↦ call.Asserts h ∧ call.Stays h) h calls) :
    RootOne ctx before h calls ↔ h.visible.db (.tab 1) ≠ none ∧ DbCall.dropTable 1 ∉ calls := by
  have hopened := Reached.opened codes currentIsOp id pBt
  have hreached : Reached h := by
    rw [hstate]
    exact Meets.invariant (fun _ call hreached hasserts ↦
      call.reached ctx hreached hasserts) hopened
      hbefore
  have htxn : InTxn h := ⟨hreached, hin, hcodes⟩
  constructor
  · rintro ⟨name, hone⟩
    have hexists : ∀ taken, taken <+: calls →
        (taken.foldl (DbCall.run ctx) h).visible.db (.tab 1) ≠ none := by
      intro taken htaken
      obtain ⟨hin', _⟩ := inTxn_of_prefix htxn hcalls htaken
      exact ((hin'.rootOneAt_iff ctx name).mp (hone taken htaken).1).2
    refine ⟨hexists [] nil_prefix, fun hdrop ↦ ?_⟩
    obtain ⟨taken, rest, rfl⟩ := append_of_mem hdrop
    have htaken : taken ++ [DbCall.dropTable 1] <+: taken ++ .dropTable 1 :: rest := ⟨rest, by simp⟩
    have hfirst := (prefix_append taken [DbCall.dropTable 1]).trans htaken
    obtain ⟨hin', hnext⟩ := inTxn_of_prefix htxn hcalls hfirst
    refine hexists _ htaken ?_
    rw [foldl_append]
    exact hin'.dropped (hnext _ htaken).1 (hexists taken hfirst)
  · rintro ⟨hexists, hkeep⟩
    obtain ⟨start, hstart⟩ := ne_none_iff_exists'.mp hexists
    have hframes : List.Forall₂ RowsOne h.frames [start.table.scanRows] := by
      rw [htxn.frames_main hmain]
      exact .cons ⟨start, hstart, fun _ ↦ Iff.rfl⟩ .nil
    have hfresh : (Handle.opened (.created .fresh codes currentIsOp) id pBt).env.store.All
        (RowsFrom []) := by
      refine ⟨fun db hdb ↦ ?_, by simp [Handle.opened, Env.created, SnapshotStore.idle]⟩
      exact absurd hdb (by simp [Handle.opened, Env.created, SnapshotStore.idle, Content.fresh])
    refine ⟨.tab 1, fun taken htaken ↦ ?_⟩
    obtain ⟨hin', _⟩ := inTxn_of_prefix htxn hcalls htaken
    obtain ⟨outer, houter⟩ := hin'.frames_eq
    have hrows := frames_of_prefix htxn hcalls hkeep hframes htaken
    rw [houter] at hrows
    obtain ⟨rows, stack, ⟨found, hfound, hmem⟩, _, hstack⟩ := forall₂_cons_left_iff.mp hrows
    refine ⟨(hin'.rootOneAt_iff ctx _).mpr ⟨rfl, by simp [hfound]⟩, fun start' db hstart' hdb ↦ ?_⟩
    obtain rfl := some.inj (hstart.symm.trans hstart')
    obtain rfl := some.inj (hfound.symm.trans hdb)
    obtain ⟨nodes, hstore, htable, _⟩ := (hin'.rootInv.rows found hfound).table_eq
    refine ⟨by rw [htable]; exact scanRows_nodup hstore, fun row ↦ ?_, ?_⟩
    · rw [hstack, headD_cons]
      exact hmem row
    · obtain ⟨rest, hrest⟩ := htaken
      rw [← hrest] at hcalls
      have htaken := Meets.imp (fun _ _ hguard ↦ hguard.1) (Meets.append_iff.mp hcalls).1
      have hstarted := rowsFrom_of_prefix hopened hbefore hfresh
      rw [← hstate] at hstarted
      have hhistory := rowsFrom_of_prefix hreached htaken hstarted
      obtain ⟨txn, hcurr, _⟩ := hin'.exists_txn
      have hvisible : RowsFrom (before ++ taken) (taken.foldl (DbCall.run ctx) h).visible := by
        rw [Handle.visible, hcurr]
        exact seen_of_all hhistory txn
      exact hvisible found hfound

/-- Memory of zero bytes, and an environment that refuses to open a table in a transaction with an
open child. -/
def plainContext : BtreeContext := ⟨false, .fnv, ⟨[]⟩, 4, fun _ ↦ 0, fun _ ↦ 0, false⟩

/-- A row that is inserted before a statement stays when the statement is rolled back. -/
theorem root_one_statement :
    let before : List DbCall := [.txn (.beginTrans 1), .createTable 1, .txn .commit,
      .txn (.beginTrans 1)]
    RootOne plainContext before
      (before.foldl (DbCall.run plainContext) (.opened (.created .fresh [] true) 0 0))
      [.insert 5 [1], .txn (.beginStmt 1), .insert 6 [2], .txn (.savepoint 2 0)] := by
  intro before
  refine (root_one_iff plainContext [] true 0 0 before _ _ ?_ rfl (by decide) rfl rfl ?_).mpr ?_
  · exact ⟨trivial, rfl, trivial, trivial, trivial⟩
  · exact ⟨⟨rfl, trivial⟩, ⟨rfl, trivial⟩, ⟨rfl, trivial⟩, ⟨trivial, by decide, by decide⟩, trivial⟩
  · exact ⟨isSome_iff_ne_none.mp rfl, by simp⟩

/-- A transaction on a new environment, as for a table that lasts as long as its statement: root 1
is the unnamed database, and the row that is inserted first is not found. -/
theorem root_one_ephemeral : ¬RootOne plainContext [.txn (.beginTrans 1)]
      (DbCall.run plainContext (.opened (.created .fresh [] true) 0 0)
        (.txn (.beginTrans 1))) [] := by
  rintro ⟨name, hone⟩
  have hreached := (DbCall.txn (.beginTrans 1)).reached plainContext (.opened [] true 0 0) trivial
  have hin : InTxn (DbCall.run plainContext (.opened (.created .fresh [] true) 0 0)
    (.txn (.beginTrans 1))) := ⟨hreached, by decide, rfl⟩
  have hexists := ((hin.rootOneAt_iff plainContext name).mp (hone [] nil_prefix).1).2
  exact hexists rfl

end

end LumoSQL
