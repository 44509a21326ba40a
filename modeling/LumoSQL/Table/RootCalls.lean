import LumoSQL.Btree.Invariant
import LumoSQL.Table.RowDb

/-!
# Calls on the databases of an environment

The rows of root 1 are in the unnamed database or in `Tab.00000001`, and the unnamed database has
the meta values and the names of the tables as well. `DbCall` is a call on a Btree that changes any
of them, or begins or ends transactions. What a call can do is said once, in `DbCall.cases`: it is a
call on transactions, it creates a table, or it makes one update of the current content
(`TopUpdate`).

`RootInv` holds of every content that can be reached (`DbCall.reached`): the unnamed database is a
plain one with different keys, a table `Tab.00000001` has its name among the entries of the unnamed
database, and it is a table of rows.
-/

namespace LumoSQL

open Foundation List Option SnapshotStore Content

/-! ### Calls -/

def Content.rewrite (name : DbName) (update : MdbTable → MdbTable) (content : Content) : Content :=
  ⟨Function.update content.db name ((content.db name).map fun db ↦ .ofTable (update db.table))⟩

def Content.writeTable (root : ℕ) (update : Db → Db) (content : Content) : Content :=
  ⟨Function.update content.db (.tab root) ((content.db (.tab root)).map update)⟩

def Env.mdbWrite (update : MdbTable → MdbTable) (env : Env) (t : ℕ) (name : DbName) : MdbRc × Env :=
  if env.outcome = .success then (.success, env.spend.modify t (Content.rewrite name update))
  else (env.outcome, env.spend)

def writeOnRoot (parentOpens : Bool) (h : Handle) (update : MdbTable → MdbTable) :
    Option (Rc × Handle) :=
  onTable parentOpens h 1 id (Env.mdbWrite update)

def writeOnUnnamed (h : Handle) (update : MdbTable → MdbTable) : Option (Rc × Handle) :=
  h.bt.currTxn.map fun txn ↦ let done := h.env.mdbWrite update txn .unnamed
    (errmap done.1, { h with env := done.2 })

/-- A call on a Btree. A row is inserted or deleted through a cursor that is opened on root 1, or
inserted through one that was opened while root 1 was the unnamed database; of the other tables any
entries are written. -/
inductive DbCall
  | txn (call : TxnCall)
  | createTable (flags : ℕ)
  | dropTable (iTable : ℕ)
  | clearTable (iTable : ℕ)
  | updateMeta (idx iMeta : ℕ)
  | insert (rowid : Int64) (data : Bytes)
  | insertUnnamed (rowid : Int64) (data : Bytes)
  | delete (rowid : Int64)
  | writeTable (root : ℕ) (update : Db → Db)

namespace DbCall

/-- The handle after a call. -/
def run (ctx : BtreeContext) (h : Handle) : DbCall → Handle
  | .txn call => call.run h
  | .createTable flags =>
    ((sqlite3BtreeCreateTable ctx.parentOpens h flags).map fun result ↦ result.2.2).getD h
  | .dropTable iTable => ((sqlite3BtreeDropTable ctx.parentOpens h iTable).map Prod.snd).getD h
  | .clearTable iTable => ((sqlite3BtreeClearTable ctx.parentOpens h iTable).map Prod.snd).getD h
  | .updateMeta idx iMeta => ((sqlite3BtreeUpdateMeta h idx iMeta).map Prod.snd).getD h
  | .insert rowid data => ((writeOnRoot ctx.parentOpens h fun table ↦
      ctx.inserted table rowid data).map Prod.snd).getD h
  | .insertUnnamed rowid data => ((writeOnUnnamed h fun table ↦
      ctx.inserted table rowid data).map Prod.snd).getD h
  | .delete rowid => ((writeOnRoot ctx.parentOpens h fun table ↦
      ctx.deleted table rowid).map Prod.snd).getD h
  | .writeTable root update => (h.bt.currTxn.map fun txn ↦
      { h with env := h.env.modify txn (Content.writeTable root update) }).getD h

/-- What the calls assert: those that write are made inside a write transaction, a root number and a
meta value have 32 bits, and `sqlite3BtreeUpdateMeta` is given the index of a meta value. -/
def Asserts (h : Handle) : DbCall → Prop
  | .txn call => call.Asserts h
  | .dropTable iTable => h.bt.inTrans = .write ∧ iTable < 2 ^ 32
  | .clearTable iTable => h.bt.inTrans = .write ∧ iTable < 2 ^ 32
  | .updateMeta idx iMeta => h.bt.inTrans = .write ∧ 0 < idx ∧ idx < NUMMETA ∧ iMeta < 2 ^ 32
  | .writeTable root _ => h.bt.inTrans = .write ∧ root ≠ 1
  | _ => h.bt.inTrans = .write

/-- A call on transactions is made as it asserts, and the other ones inside a write transaction. -/
theorem Asserts.write {h : Handle} {call : DbCall} (hasserts : call.Asserts h)
    (htxn : ∀ txn, call ≠ .txn txn) : h.bt.inTrans = .write := by
  cases call with
  | txn call => exact absurd rfl (htxn call)
  | createTable flags | insert rowid data | insertUnnamed rowid data | delete rowid =>
    exact hasserts
  | dropTable iTable | clearTable iTable | updateMeta idx iMeta | writeTable root update =>
    exact hasserts.1

end DbCall

/-! ### What a call does -/

def Denotes (content : Content) (iTable : ℕ) (name : DbName) : Prop :=
  (name = .unnamed ∧ content.main.entries = []) ∨ name = .tab iTable

/-- The update that a call makes of the current content. -/
inductive TopUpdate (ctx : BtreeContext) (content : Content) : DbCall → Write → Prop
  | drop {iTable : ℕ} {name : DbName} (denotes : Denotes content iTable name) :
      TopUpdate ctx content (.dropTable iTable) (Content.drop name)
  | clear {iTable : ℕ} {name : DbName} (denotes : Denotes content iTable name) :
      TopUpdate ctx content (.clearTable iTable) (Content.clear name)
  | put (idx iMeta : ℕ) : TopUpdate ctx content (.updateMeta idx iMeta)
      (Content.put (u32Bytes idx) (u32Bytes iMeta))
  | insert (rowid : Int64) (data : Bytes) {name : DbName} (denotes : Denotes content 1 name) :
      TopUpdate ctx content (.insert rowid data)
        (Content.rewrite name fun table ↦ ctx.inserted table rowid data)
  | insertUnnamed (rowid : Int64) (data : Bytes) : TopUpdate ctx content (.insertUnnamed rowid data)
      (Content.rewrite .unnamed fun table ↦ ctx.inserted table rowid data)
  | delete (rowid : Int64) {name : DbName} (denotes : Denotes content 1 name) :
      TopUpdate ctx content (.delete rowid)
        (Content.rewrite name fun table ↦ ctx.deleted table rowid)
  | writeTable (root : ℕ) (update : Db → Db) :
      TopUpdate ctx content (.writeTable root update) (Content.writeTable root update)

/-- A call makes no update, or one of the current content, and moves no transaction. -/
structure MakesUpdate (ctx : BtreeContext) (h : Handle) (call : DbCall) (txn : ℕ) (h' : Handle) :
    Prop where
  bt : h'.bt = h.bt
  codes : h.env.outcomes = [] → h'.env.outcomes = []
  store : h'.env.store = h.env.store ∨ ∃ update, TopUpdate ctx h.visible call update ∧
    h'.env.store = h.env.store.modifyAt txn update

namespace MakesUpdate

variable {ctx : BtreeContext} {h h' : Handle} {call : DbCall} {txn : ℕ}

theorem of_onTable (hcurr : h.bt.currTxn = some txn) {iTable : ℕ} {update : DbName → Write}
    (hbt : h'.bt = h.bt) (hcodes : h.env.outcomes = [] → h'.env.outcomes = [])
    (hstore : h'.env.store = h.env.store ∨ ∃ name,
      ((name = .unnamed ∧ (h.env.seen txn).main.entries = []) ∨ name = .tab iTable) ∧
        h'.env.store = h.env.store.modifyAt txn (update name))
    (hupdate : ∀ name, Denotes h.visible iTable name → TopUpdate ctx h.visible call (update name)) :
    MakesUpdate ctx h call txn h' := by
  have hvisible : h.visible = h.env.seen txn := by rw [Handle.visible, hcurr]
  refine ⟨hbt, hcodes, hstore.imp id ?_⟩
  rintro ⟨name, hname, hafter⟩
  exact ⟨update name, hupdate name (by rw [Denotes, hvisible]; exact hname), hafter⟩

theorem of_write {update : Write} (hupdate : TopUpdate ctx h.visible call update)
    (done : MdbRc × Env) (hdone : done = if h.env.outcome = .success then
      (.success, h.env.spend.modify txn update) else (h.env.outcome, h.env.spend)) :
    MakesUpdate ctx h call txn { h with env := done.2 } := by
  refine ⟨rfl, fun hnil ↦ ?_, ?_⟩
  · rw [hdone]
    split_ifs <;> simp [Env.modify, Env.spend, hnil]
  · rw [hdone]
    split_ifs
    · exact .inr ⟨update, hupdate, rfl⟩
    · exact .inl rfl

end MakesUpdate

/-- What a call can do.
Assumes: the Btree is writing where the call is not one on transactions. -/
theorem DbCall.cases (ctx : BtreeContext) (call : DbCall) {h : Handle} (htracks : Tracks h.env h.bt)
    (hasserts : call.Asserts h) : (∃ txn, call = .txn txn) ∨
      (∃ flags, call = .createTable flags ∧ Rewrites CreateUpdate h (call.run ctx h)) ∨
      ∃ txn, h.bt.currTxn = some txn ∧ MakesUpdate ctx h call txn (call.run ctx h) := by
  by_cases htxn : ∃ txn, call = .txn txn
  · exact .inl htxn
  have hwrite := hasserts.write fun txn hcall ↦ htxn ⟨txn, hcall⟩
  obtain ⟨top, rest, _, hcurr⟩ := htracks.exists_top hwrite
  refine .inr ?_
  cases call with
  | txn call => exact absurd ⟨call, rfl⟩ htxn
  | createTable flags =>
    refine .inl ⟨flags, rfl, ?_⟩
    simp only [DbCall.run]
    cases hcall : sqlite3BtreeCreateTable ctx.parentOpens h flags with
    | none => exact .refl h
    | some result => exact createTable_rewrites hcall
  | dropTable iTable =>
    obtain ⟨rc, h', hcall, hbt, hcodes, hstore⟩ := dropTable_cases ctx.parentOpens hcurr iTable
    simp only [DbCall.run, hcall, map_some, getD_some]
    exact .inr ⟨_, hcurr, .of_onTable hcurr hbt hcodes hstore fun _ hname ↦ .drop hname⟩
  | clearTable iTable =>
    obtain ⟨rc, h', hcall, hbt, hcodes, hstore⟩ :=
      onTable_cases ctx.parentOpens hcurr iTable errmapAgain Env.mdbDropEntries Content.clear
        fun _ _ ↦ rfl
    simp only [DbCall.run, sqlite3BtreeClearTable, hcall, map_some, getD_some]
    exact .inr ⟨_, hcurr, .of_onTable hcurr hbt hcodes hstore fun _ hname ↦ .clear hname⟩
  | updateMeta idx iMeta =>
    simp only [DbCall.run, sqlite3BtreeUpdateMeta, hcurr, map_some, getD_some]
    exact .inr ⟨_, rfl, .of_write (.put idx iMeta) _ rfl⟩
  | insert rowid data =>
    obtain ⟨rc, h', hcall, hbt, hcodes, hstore⟩ := onTable_cases ctx.parentOpens hcurr 1 id
      (Env.mdbWrite fun table ↦ ctx.inserted table rowid data)
      (fun name ↦ Content.rewrite name fun table ↦ ctx.inserted table rowid data) fun _ _ ↦ rfl
    simp only [DbCall.run, writeOnRoot, hcall, map_some, getD_some]
    exact .inr ⟨_, hcurr, .of_onTable hcurr hbt hcodes hstore fun _ hname ↦
      .insert rowid data hname⟩
  | insertUnnamed rowid data =>
    simp only [DbCall.run, writeOnUnnamed, hcurr, map_some, getD_some]
    exact .inr ⟨_, rfl, .of_write (.insertUnnamed rowid data) _ rfl⟩
  | delete rowid =>
    obtain ⟨rc, h', hcall, hbt, hcodes, hstore⟩ := onTable_cases ctx.parentOpens hcurr 1 id
      (Env.mdbWrite fun table ↦ ctx.deleted table rowid)
      (fun name ↦ Content.rewrite name fun table ↦ ctx.deleted table rowid) fun _ _ ↦ rfl
    simp only [DbCall.run, writeOnRoot, hcall, map_some, getD_some]
    exact .inr ⟨_, hcurr, .of_onTable hcurr hbt hcodes hstore fun _ hname ↦ .delete rowid hname⟩
  | writeTable root update =>
    simp only [DbCall.run, hcurr, map_some, getD_some]
    exact .inr ⟨_, rfl, ⟨rfl, id, .inr ⟨_, .writeTable root update, rfl⟩⟩⟩

/-! ### The unnamed database -/

structure MainDb (db : Db) : Prop where
  integerKey : db.integerKey = false
  dupSort : db.dupSort = false
  keys : (db.entries.map Prod.fst).Nodup

namespace MainDb

variable {db : Db}

theorem empty : MainDb (.empty false false) := ⟨rfl, rfl, nodup_nil⟩

theorem get_eq_some_iff (hdb : MainDb db) {key data : Bytes} :
    db.get key = some data ↔ (key, data) ∈ db.entries := by
  unfold Db.get
  rw [map_eq_some_iff]
  constructor
  · rintro ⟨entry, hfound, rfl⟩
    have hkey : entry.1 = key := by simpa using find?_some hfound
    rw [← hkey]
    exact mem_of_find?_eq_some hfound
  · intro hmem
    have hsome : (db.entries.find? fun entry ↦ entry.1 = key).isSome :=
      find?_isSome.mpr ⟨_, hmem, by simp⟩
    obtain ⟨entry, hfound⟩ := isSome_iff_exists.mp hsome
    have hkey : entry.1 = key := by simpa using find?_some hfound
    have hsame := inj_on_of_nodup_map hdb.keys (mem_of_find?_eq_some hfound) hmem hkey
    exact ⟨entry, hfound, by rw [hsame]⟩

theorem del (hdb : MainDb db) (key : Bytes) : MainDb (db.del key) :=
  ⟨hdb.integerKey, hdb.dupSort, hdb.keys.sublist (filter_sublist.map _)⟩

theorem put (hdb : MainDb db) (key data : Bytes) : MainDb (db.put key data) := by
  refine ⟨hdb.integerKey, hdb.dupSort, ?_⟩
  have hperm : ((db.put key data).entries.map Prod.fst).Perm
      (key :: (db.del key).entries.map Prod.fst) := (perm_orderedInsert _ _ _).map Prod.fst
  refine hperm.nodup_iff.mpr (nodup_cons.mpr ⟨fun hmem ↦ ?_, (hdb.del key).keys⟩)
  obtain ⟨entry, hentry, hkey⟩ := mem_map.mp hmem
  exact absurd hkey (by simpa using (mem_filter.mp hentry).2)

theorem table_eq (hdb : MainDb db) :
    db.table = .plain (db.entries.map fun entry ↦ ⟨entry.1, [entry.2]⟩) := by
  rw [Db.table, hdb.integerKey, hdb.dupSort]
  rfl

theorem ofTable_table (hdb : MainDb db) : Db.ofTable db.table = db := by
  rw [hdb.table_eq]
  cases db with
  | mk integerKey dupSort entries nodup =>
    obtain ⟨rfl, rfl, _⟩ := hdb
    simp [Db.ofTable, entries_of_pairs, nodup.dedup]

/-- An insert of a row into the unnamed database: its key has eight bytes. -/
theorem inserted (hdb : MainDb db) (ctx : BtreeContext) (rowid : Int64) (data : Bytes) :
    MainDb (.ofTable (ctx.inserted db.table rowid data)) ∧
      ∀ entry, entry ∈ (Db.ofTable (ctx.inserted db.table rowid data)).entries ↔
        entry = (i64Bytes rowid, data) ∨ (entry ∈ db.entries ∧ entry.1 ≠ i64Bytes rowid) := by
  have hself : compareBytes (i64Bytes rowid) (i64Bytes rowid) = 0 := compareBytes_eq_zero.mpr rfl
  have hnodes : ((db.entries.map fun entry ↦ (⟨entry.1, [entry.2]⟩ : Node Bytes Bytes)).map
      Node.key).Nodup := by
    rw [List.map_map]
    exact hdb.keys
  have hinserted : ctx.inserted db.table rowid data =
      .plain (putOver (compareBytes (i64Bytes rowid)) (i64Bytes rowid) data
        (db.entries.map fun entry ↦ ⟨entry.1, [entry.2]⟩)) := by
    rw [hdb.table_eq]
    simp [BtreeContext.inserted, sqlite3BtreeInsert]
  rw [hinserted]
  constructor
  · refine ⟨rfl, rfl, ?_⟩
    have hkeys := keys_putOver_nodup hself hnodes data
    rw [← Single.entries_keys (Single.putOver (.of_pairs _) _ _ _)] at hkeys
    exact hkeys.sublist ((dedup_sublist _).map _)
  · intro entry
    simp only [Db.ofTable, mem_dedup]
    rw [mem_entries_putOver hself hnodes (fun _ hzero ↦ (compareBytes_eq_zero.mp hzero).symm),
      entries_of_pairs]

theorem deleted (hdb : MainDb db) (ctx : BtreeContext) (rowid : Int64) :
    ctx.deleted db.table rowid = db.table := by
  rw [hdb.table_eq]
  unfold BtreeContext.deleted
  split
  · rfl
  · rename_i moved hmoved
    rw [if_neg (moveto_plain_res hmoved)]

/-- What an insert of a row keeps of the unnamed database. -/
theorem get_inserted (hdb : MainDb db) (ctx : BtreeContext) (rowid : Int64) (data : Bytes)
    {key : Bytes} (hkey : key.length ≠ 8) :
    (Db.ofTable (ctx.inserted db.table rowid data)).get key = db.get key := by
  obtain ⟨hafter, hmem⟩ := hdb.inserted ctx rowid data
  have hne : key ≠ i64Bytes rowid := fun heq ↦ hkey (by rw [heq]; simp [i64Bytes])
  ext value
  rw [hafter.get_eq_some_iff, hmem, hdb.get_eq_some_iff]
  simp [hne]

end MainDb

/-! ### The invariant -/

structure RootInv (content : Content) : Prop where
  unnamed : ∃ db, content.db .unnamed = some db ∧ MainDb db
  named : content.db (.tab 1) ≠ none → content.main.get (tabName 1) ≠ none
  rows : ∀ db, content.db (.tab 1) = some db → RowDb db

namespace RootInv

variable {content : Content}

theorem main_eq (hinv : RootInv content) : content.db .unnamed = some content.main := by
  obtain ⟨db, hdb, _⟩ := hinv.unnamed
  rw [Content.main, hdb]
  rfl

theorem mainDb (hinv : RootInv content) : MainDb content.main := by
  obtain ⟨db, hdb, hmain⟩ := hinv.unnamed
  rwa [Content.main, hdb]

/-- While the unnamed database has no entry there is no table. -/
theorem not_exists_of_empty (hinv : RootInv content) (hempty : content.main.entries = []) :
    content.db (.tab 1) = none := by
  by_contra hone
  refine hinv.named hone ?_
  rw [Db.get, hempty]
  rfl

/-- Another content that keeps the name of the first table while it keeps the table. -/
theorem of_main {content' : Content} {main : Db} (hmain : content'.db .unnamed = some main)
    (hdb : MainDb main) (hnamed : content'.db (.tab 1) ≠ none → main.get (tabName 1) ≠ none)
    (hrows : ∀ db, content'.db (.tab 1) = some db → RowDb db) : RootInv content' := by
  refine ⟨⟨main, hmain, hdb⟩, fun hone ↦ ?_, hrows⟩
  rw [Content.main, hmain]
  exact hnamed hone

theorem fresh : RootInv .fresh := by
  have hnone : Content.fresh.db (.tab 1) = none := by simp [Content.fresh]
  refine .of_main (by simp [Content.fresh]) .empty (fun hone ↦ absurd hnone hone) fun db hone ↦ ?_
  rw [hnone] at hone
  cases hone

theorem put (hinv : RootInv content) (key data : Bytes) : RootInv (content.put key data) := by
  refine .of_main (by simp [Content.put]) (hinv.mainDb.put key data) (fun hone ↦ ?_)
    fun db hone ↦ ?_
  · rw [put_tab] at hone
    rw [Db.get_put]
    split_ifs
    · simp
    · exact hinv.named hone
  · rw [put_tab] at hone
    exact hinv.rows db hone

/-- A database that is opened has the flags of a table of rows, or is not the first one. -/
theorem opened (hinv : RootInv content) {root : ℕ} {integerKey dupSort : Bool}
    (hflags : root = 1 → integerKey = true ∧ dupSort = false) :
    RootInv (content.opened root integerKey dupSort) := by
  unfold Content.opened
  split_ifs with hexists
  · exact hinv
  · refine .of_main (by simp [Content.create, Content.put]) (hinv.mainDb.put (tabName root) [])
      (fun hone ↦ ?_) fun db hone ↦ ?_
    · rw [Db.get_put]
      split_ifs with hname
      · simp
      · rw [create_tab, if_neg fun h ↦ hname (by rw [h])] at hone
        exact hinv.named hone
    · rw [create_tab] at hone
      split_ifs at hone with hfirst
      · obtain ⟨rfl, rfl⟩ := hflags hfirst.symm
        cases hone
        exact RowDb.empty
      · exact hinv.rows db hone

/-- The unnamed database is dropped only while it has no entry. -/
theorem drop_unnamed (hinv : RootInv content) (hempty : content.main.entries = []) :
    RootInv (content.drop .unnamed) := by
  have hnone : (content.drop .unnamed).db (.tab 1) = none := by
    rw [drop_unnamed_tab]
    exact hinv.not_exists_of_empty hempty
  have hmain : (content.drop .unnamed).db .unnamed = some (.empty false false) := by
    simp [Content.drop, hinv.mainDb.integerKey, hinv.mainDb.dupSort]
  refine .of_main hmain .empty (fun hone ↦ absurd hnone hone) fun db hone ↦ ?_
  rw [hnone] at hone
  cases hone

theorem drop (hinv : RootInv content) {iTable : ℕ} {name : DbName}
    (hname : Denotes content iTable name) (hfits : iTable < 2 ^ 32) :
    RootInv (content.drop name) := by
  rcases hname with ⟨rfl, hempty⟩ | rfl
  · exact hinv.drop_unnamed hempty
  · refine .of_main (by simp [Content.drop]) (hinv.mainDb.del (tabName iTable)) (fun hone ↦ ?_)
      fun db hone ↦ ?_
    · rw [drop_tab] at hone
      split_ifs at hone with hsame
      · exact absurd rfl hone
      · have hne : tabName 1 ≠ tabName iTable := fun heq ↦ hsame (tabName_inj (by decide) hfits heq)
        rw [Db.get_del _ hne]
        exact hinv.named hone
    · rw [drop_tab] at hone
      split_ifs at hone
      exact hinv.rows db hone

theorem clear (hinv : RootInv content) {iTable : ℕ} {name : DbName}
    (hname : Denotes content iTable name) : RootInv (content.clear name) := by
  rcases hname with ⟨rfl, hempty⟩ | rfl
  · exact hinv.drop_unnamed hempty
  · refine .of_main (by simpa [Content.clear] using hinv.main_eq) hinv.mainDb (fun hone ↦ ?_)
      fun db hone ↦ ?_
    · by_cases hsame : iTable = 1
      · subst hsame
        refine hinv.named fun hnone ↦ hone ?_
        simp [Content.clear, hnone]
      · refine hinv.named ?_
        simpa [Content.clear, Ne.symm hsame] using hone
    · by_cases hsame : iTable = 1
      · subst hsame
        have hcleared : (content.db (.tab 1)).map (fun old ↦
            Db.empty old.integerKey old.dupSort) = some db := by
          simpa [Content.clear] using hone
        obtain ⟨old, hold, rfl⟩ := map_eq_some_iff.mp hcleared
        obtain ⟨nodes, _, rfl⟩ := hinv.rows old hold
        exact RowDb.empty
      · refine hinv.rows db ?_
        simpa [Content.clear, Ne.symm hsame] using hone

end RootInv

/-! ### Writing rows -/

theorem TableStore.eraseAt {nodes : List (Node UInt64 Bytes)} (hstore : TableStore nodes)
    (place : ℕ × ℕ) : TableStore (eraseAt nodes place) := by
  unfold Foundation.eraseAt
  split
  · exact hstore
  · rename_i node hnode
    obtain ⟨item, hitem⟩ := hstore.rows node (mem_of_getElem? hnode)
    rw [if_pos (by rw [hitem]; exact Nat.le_refl 1)]
    have hsublist := eraseIdx_sublist nodes place.1
    exact ⟨List.Pairwise.sublist hsublist hstore.ordered,
      fun other hother ↦ hstore.rows other (hsublist.subset hother)⟩

theorem RowDb.inserted {db : Db} (hdb : RowDb db) (ctx : BtreeContext) (rowid : Int64)
    (data : Bytes) : RowDb (.ofTable (ctx.inserted db.table rowid data)) := by
  obtain ⟨nodes, hstore, htable, _⟩ := hdb.table_eq
  exact ⟨_, hstore.insertRow rowid data, by rw [htable, inserted_integerKey]⟩

theorem RowDb.deleted {db : Db} (hdb : RowDb db) (ctx : BtreeContext) (rowid : Int64) :
    RowDb (.ofTable (ctx.deleted db.table rowid)) := by
  obtain ⟨nodes, hstore, htable, _⟩ := hdb.table_eq
  rw [htable]
  rcases deleted_cases ctx (.integerKey nodes) rowid with hsame | ⟨place, herased⟩
  · exact ⟨nodes, hstore, by rw [hsame]⟩
  · exact ⟨_, hstore.eraseAt place, by rw [herased]; rfl⟩

namespace RootInv

variable {content : Content}

variable {name : DbName} {update : MdbTable → MdbTable}

theorem rewrite_tab (hinv : RootInv content)
    (hupdate : ∀ db, RowDb db → RowDb (.ofTable (update db.table))) :
    RootInv (content.rewrite (.tab 1) update) := by
  have hone : (content.rewrite (.tab 1) update).db (.tab 1) =
      (content.db (.tab 1)).map fun db ↦ .ofTable (update db.table) := by
    simp [Content.rewrite]
  refine .of_main (by simpa [Content.rewrite] using hinv.main_eq) hinv.mainDb (fun hsome ↦ ?_)
    fun db hdb ↦ ?_
  · refine hinv.named fun hnone ↦ hsome ?_
    rw [hone, hnone]
    rfl
  · rw [hone] at hdb
    obtain ⟨old, hold, rfl⟩ := map_eq_some_iff.mp hdb
    exact hupdate old (hinv.rows old hold)

/-- A write to the unnamed database keeps the tables. -/
theorem rewrite_unnamed (hinv : RootInv content)
    (hupdate : MainDb (.ofTable (update content.main.table)))
    (hname : (Db.ofTable (update content.main.table)).get (tabName 1) =
      content.main.get (tabName 1)) : RootInv (content.rewrite .unnamed update) := by
  have hone : (content.rewrite .unnamed update).db (.tab 1) = content.db (.tab 1) := by
    simp [Content.rewrite]
  refine .of_main (by simp [Content.rewrite, hinv.main_eq]) hupdate (fun hsome ↦ ?_) fun db hdb ↦ ?_
  · rw [hone] at hsome
    rw [hname]
    exact hinv.named hsome
  · rw [hone] at hdb
    exact hinv.rows db hdb

theorem insert_unnamed (hinv : RootInv content) (ctx : BtreeContext) (rowid : Int64)
    (data : Bytes) :
    RootInv (content.rewrite .unnamed fun table ↦ ctx.inserted table rowid data) := by
  have hlength : (tabName 1).length ≠ 8 := by decide
  exact hinv.rewrite_unnamed (hinv.mainDb.inserted ctx rowid data).1
    (hinv.mainDb.get_inserted ctx rowid data hlength)

theorem insert (hinv : RootInv content) (ctx : BtreeContext) (rowid : Int64) (data : Bytes)
    (hname : Denotes content 1 name) :
    RootInv (content.rewrite name fun table ↦ ctx.inserted table rowid data) := by
  rcases hname with ⟨rfl, _⟩ | rfl
  · exact hinv.insert_unnamed ctx rowid data
  · exact hinv.rewrite_tab fun db hdb ↦ hdb.inserted ctx rowid data

theorem delete (hinv : RootInv content) (ctx : BtreeContext) (rowid : Int64)
    (hname : Denotes content 1 name) :
    RootInv (content.rewrite name fun table ↦ ctx.deleted table rowid) := by
  have hsame : Db.ofTable (ctx.deleted content.main.table rowid) = content.main := by
    rw [hinv.mainDb.deleted, hinv.mainDb.ofTable_table]
  rcases hname with ⟨rfl, _⟩ | rfl
  · exact hinv.rewrite_unnamed (by rw [hsame]; exact hinv.mainDb) (by rw [hsame])
  · exact hinv.rewrite_tab fun db hdb ↦ hdb.deleted ctx rowid

theorem writeTable (hinv : RootInv content) {root : ℕ} (hother : root ≠ 1) (update : Db → Db) :
    RootInv (content.writeTable root update) := by
  have hone : (content.writeTable root update).db (.tab 1) = content.db (.tab 1) := by
    simp [Content.writeTable, hother.symm]
  refine .of_main (by simpa [Content.writeTable] using hinv.main_eq) hinv.mainDb ?_ ?_
  · rw [hone]
    exact hinv.named
  · rw [hone]
    exact hinv.rows

end RootInv

/-! ### Reachable states -/

variable {call : DbCall} {content : Content} {ctx : BtreeContext} {h : Handle} {update : Write}

theorem CreateUpdate.rootInv (hupdate : CreateUpdate update) (hinv : RootInv content) :
    RootInv (update content) := by
  cases hupdate with
  | first => exact hinv.opened fun _ ↦ ⟨rfl, rfl⟩
  | named hother _ _ => exact hinv.opened fun hone ↦ absurd hone hother
  | number value => exact hinv.put _ _

theorem TopUpdate.rootInv (hupdate : TopUpdate ctx content call update) (hasserts : call.Asserts h)
    (hinv : RootInv content) : RootInv (update content) := by
  cases hupdate with
  | drop hname => exact hinv.drop hname hasserts.2
  | clear hname => exact hinv.clear hname
  | put idx iMeta => exact hinv.put _ _
  | insert rowid data hname => exact hinv.insert ctx rowid data hname
  | insertUnnamed rowid data => exact hinv.insert_unnamed ctx rowid data
  | delete rowid hname => exact hinv.delete ctx rowid hname
  | writeTable root update => exact hinv.writeTable hasserts.2 update

/-- The calls that begin and end transactions write nothing. -/
theorem TxnCall.all {P : Content → Prop} (call : TxnCall) (hall : h.env.store.All P) :
    (call.run h).env.store.All P := by
  have hkeeps : Keeps P 0 (fun _ ↦ True) h (call.run h) := by
    cases call with
    | beginTrans wrflag => exact beginTrans_keeps h wrflag hall fun _ _ _ _ _ _ _ ↦ trivial
    | beginStmt stmt => exact beginStmt_keeps h stmt
    | savepoint op index => exact savepoint_keeps h (savepointOp op) index
    | rollback => exact savepoint_keeps h .rollback (-1)
    | commitPhaseOne => exact commitPhaseOne_keeps trivial h
    | commit =>
      have hfirst : Keeps P 0 (fun _ ↦ True) h (sqlite3BtreeCommitPhaseOne h).2 :=
        commitPhaseOne_keeps trivial h
      simp only [TxnCall.run, sqlite3BtreeCommit, sqlite3BtreeCommitPhaseTwo]
      split_ifs
      · exact hfirst
      · exact hfirst
  exact hkeeps.contents hall

structure Reached (h : Handle) : Prop where
  tracks : Tracks h.env h.bt
  inv : h.env.store.All RootInv

theorem Reached.opened (codes : List MdbRc) (currentIsOp : Bool) (id pBt : ℕ) :
    Reached (.opened (.created .fresh codes currentIsOp) id pBt) :=
  ⟨.idle rfl rfl rfl, RootInv.fresh, by simp [Handle.opened, Env.created, SnapshotStore.idle]⟩

theorem MakesUpdate.ids {h h' : Handle} {txn : ℕ} (hmakes : MakesUpdate ctx h call txn h') :
    h'.env.store.writer.map Frame.id = h.env.store.writer.map Frame.id := by
  rcases hmakes.store with hsame | ⟨update, _, hstore⟩
  · rw [hsame]
  · rw [hstore, modifyAt_writer, map_id_updateFrame]

/-- Every call leads from a handle that can be reached to another one. -/
theorem DbCall.reached (ctx : BtreeContext) (call : DbCall) (hreached : Reached h)
    (hasserts : call.Asserts h) : Reached (call.run ctx h) := by
  rcases call.cases ctx hreached.tracks hasserts with ⟨txn, rfl⟩ | ⟨flags, rfl, hrewrites⟩ |
    ⟨txn, hcurr, hmakes⟩
  · exact ⟨txn.tracks hreached.tracks hasserts, txn.all hreached.inv⟩
  · exact ⟨hrewrites.bt ▸ hreached.tracks.of_writer hasserts hrewrites.updates.ids,
      hrewrites.all (fun _ hkind _ hinv ↦ hkind.rootInv hinv) hreached.inv⟩
  · by_cases htxn : ∃ txn, call = .txn txn
    · obtain ⟨txn, rfl⟩ := htxn
      exact ⟨txn.tracks hreached.tracks hasserts, txn.all hreached.inv⟩
    have hwrite := hasserts.write fun txn hcall ↦ htxn ⟨txn, hcall⟩
    refine ⟨hmakes.bt ▸ hreached.tracks.of_writer hwrite hmakes.ids, ?_⟩
    rcases hmakes.store with hsame | ⟨update, hupdate, hstore⟩
    · rw [hsame]
      exact hreached.inv
    · rw [hstore]
      refine hreached.inv.modifyAt fun frame hframe hid ↦ ?_
      have hvisible : h.visible = frame.content := by
        rw [Handle.visible, hcurr, ← Env.seen_writer hframe, hid]
      rw [hvisible] at hupdate
      exact hupdate.rootInv hasserts (hreached.inv.2 frame (mem_append_left _ hframe))

end LumoSQL
