import LumoSQL.Btree.Catalog
import LumoSQL.Btree.Invariant

/-!
# The transactions LMDB is called on

While a transaction has an open child LMDB is to be called on the child only. `SchemaCall.issued`
lists the calls of LMDB that each function on tables and meta values makes, with the transaction
each one is made on, and the environment after the function is the one these calls leave
(`SchemaCall.run_env`).

Most functions call LMDB on `curr_txn`. `sqlite3BtreeCreateTable` opens its databases on `main_txn`,
which is another transaction while a statement is open (`create_table_on_parent`); so in a run every
call is made on `curr_txn` exactly if no table is created inside a statement
(`issued_on_current_iff`).
-/

namespace LumoSQL

open Foundation List Option SnapshotStore

/-! ### Calls of LMDB -/

/-- A function of LMDB that is called on a transaction. -/
inductive LmdbOp
  | openUnnamed
  | openTable (root : ℕ) (create integerKey dupSort : Bool)
  | setCompare (root : ℕ)
  | get (key : Bytes)
  | put (key data : Bytes)
  | drop (name : DbName)
  | dropEntries (name : DbName)
  | cursorInit (name : DbName)
  deriving DecidableEq

structure LmdbCall where
  txn : ℕ
  op : LmdbOp
  deriving DecidableEq

/-- The environment after a call of LMDB. -/
def LmdbCall.run (parentOpens : Bool) (env : Env) (call : LmdbCall) : Env :=
  match call.op with
  | .openUnnamed => env
  | .openTable root create integerKey dupSort =>
    (env.mdbOpen parentOpens call.txn root create integerKey dupSort).2
  | .setCompare _ => env
  | .get key => (env.mdbGet call.txn key).2
  | .put key data => (env.mdbPut call.txn key data).2
  | .drop name => (env.mdbDrop call.txn name).2
  | .dropEntries name => (env.mdbDropEntries call.txn name).2
  | .cursorInit _ => env

/-! ### The calls of LMDB that a function makes -/

/-- What `sqlite3BtreeGetMeta` calls. -/
def getMetaIssued (h : Handle) (idx : ℕ) : List LmdbCall :=
  if idx = 0 then []
  else h.bt.currTxn.elim [] fun txn ↦ [⟨txn, .openUnnamed⟩, ⟨txn, .get (u32Bytes idx)⟩]

/-- What `sqlite3BtreeUpdateMeta` calls. -/
def updateMetaIssued (h : Handle) (idx iMeta : ℕ) : List LmdbCall :=
  h.bt.currTxn.elim [] fun txn ↦ [⟨txn, .openUnnamed⟩, ⟨txn, .put (u32Bytes idx) (u32Bytes iMeta)⟩]

section

variable (parentOpens : Bool)

/-- What `BtreeTableHandle` calls: the comparison is set for a database with duplicates. -/
def tableHandleIssued (h : Handle) (iTable : ℕ) : List LmdbCall :=
  h.bt.currTxn.elim [] fun txn ↦
    if iTable = 1 ∧ (h.env.seen txn).main.entries = [] then [⟨txn, .openUnnamed⟩]
    else
      let found := h.env.mdbOpen parentOpens txn iTable false false false
      ⟨txn, .openTable iTable false false false⟩ ::
        if found.1 = .success ∧ ((found.2.seen txn).db (.tab iTable)).any Db.dupSort then
          [⟨txn, .setCompare iTable⟩]
        else []

/-- What a function calls that goes on with the database of a root number. -/
def onTableIssued (h : Handle) (iTable : ℕ) (op : DbName → LmdbOp) : List LmdbCall :=
  tableHandleIssued parentOpens h iTable ++ match BtreeTableHandle parentOpens h iTable with
    | some (.ok name, found) => found.bt.currTxn.elim [] fun txn ↦ [⟨txn, op name⟩]
    | _ => []

/-- What the part of `sqlite3BtreeCreateTable` calls that creates the first table. -/
def createFirstIssued (main last : ℕ) : List LmdbCall :=
  if last = 1 then [⟨main, .openTable last true true false⟩] else []

/-- What the part of `sqlite3BtreeCreateTable` calls that opens the database of the new table. -/
def createNamedIssued (h : Handle) (main last flags : ℕ) : List LmdbCall :=
  let intKey : Bool := flags &&& BTREE_INTKEY ≠ 0
  let create : Bool := main ∉ h.env.store.readers.map Frame.id
  let named := h.env.mdbOpen parentOpens main last create intKey !intKey
  ⟨main, .openTable last create intKey !intKey⟩ :: if named.1 = .success then
      (if intKey then [] else [⟨main, .setCompare last⟩]) ++
        updateMetaIssued { h with env := named.2 } BTREE_LARGEST_ROOT_PAGE last
    else []

/-- What `sqlite3BtreeCreateTable` calls. -/
def createTableIssued (h : Handle) (flags : ℕ) : List LmdbCall :=
  getMetaIssued h BTREE_LARGEST_ROOT_PAGE ++
    (sqlite3BtreeGetMeta h BTREE_LARGEST_ROOT_PAGE).elim [] fun got ↦
      h.bt.mainTxn.elim [] fun main ↦ let last := (got.1 + 1) % 2 ^ 32
        let first := createFirst parentOpens got.2 main last
        createFirstIssued main last ++
          if first.1 = .success then createNamedIssued parentOpens first.2.2 main first.2.1 flags
          else []

end

/-! ### Runs -/

/-- A call of a function on tables, meta values or cursors. -/
inductive SchemaCall
  | createTable (flags : ℕ)
  | clearTable (iTable : ℕ)
  | dropTable (iTable : ℕ)
  | getMeta (idx : ℕ)
  | updateMeta (idx iMeta : ℕ)
  | cursor (iTable pCur : ℕ)

namespace SchemaCall

/-- The handle after a call. -/
def run (parentOpens : Bool) (h : Handle) : SchemaCall → Handle
  | .createTable flags =>
    ((sqlite3BtreeCreateTable parentOpens h flags).map fun result ↦ result.2.2).getD h
  | .clearTable iTable => ((sqlite3BtreeClearTable parentOpens h iTable).map Prod.snd).getD h
  | .dropTable iTable => ((sqlite3BtreeDropTable parentOpens h iTable).map Prod.snd).getD h
  | .getMeta idx => ((sqlite3BtreeGetMeta h idx).map Prod.snd).getD h
  | .updateMeta idx iMeta => ((sqlite3BtreeUpdateMeta h idx iMeta).map Prod.snd).getD h
  | .cursor iTable pCur => ((cursorOnRoot parentOpens h iTable pCur).map Prod.snd).getD h

/-- The calls of LMDB that a call makes. -/
def issued (parentOpens : Bool) (h : Handle) : SchemaCall → List LmdbCall
  | .createTable flags => createTableIssued parentOpens h flags
  | .clearTable iTable => onTableIssued parentOpens h iTable .dropEntries
  | .dropTable iTable => onTableIssued parentOpens h iTable .drop
  | .getMeta idx => getMetaIssued h idx
  | .updateMeta idx iMeta => updateMetaIssued h idx iMeta
  | .cursor iTable _ => onTableIssued parentOpens h iTable .cursorInit

/-- The functions that write are called in a write transaction, the others in any transaction. -/
def Asserts (h : Handle) : SchemaCall → Prop
  | .getMeta _ => h.bt.inTrans ≠ .none
  | .cursor _ _ => h.bt.inTrans ≠ .none
  | _ => h.bt.inTrans = .write

end SchemaCall

def BtCursor.setPos (pCur : BtCursor) (pos : Option ℕ) : BtCursor :=
  { pCur with mc := pCur.mc.map fun mc ↦ { mc with pos := pos } }

/-- A call on a Btree. An insert or a delete through a cursor changes the current content, and
`sqlite3BtreeMovetoUnpacked` the position of its cursor. -/
inductive BtreeCall
  | txn (call : TxnCall)
  | schema (call : SchemaCall)
  | write (update : Write)
  | movetoUnpacked (pCur : ℕ) (pos : Option ℕ)

namespace BtreeCall

/-- The handle after a call. -/
def run (parentOpens : Bool) (h : Handle) : BtreeCall → Handle
  | .txn call => call.run h
  | .schema call => call.run parentOpens h
  | .write update => h.writes [update]
  | .movetoUnpacked pCur pos =>
    { h with cursor := Function.update h.cursor pCur ((h.cursor pCur).setPos pos) }

def Asserts (h : Handle) : BtreeCall → Prop
  | .txn call => call.Asserts h
  | .schema call => call.Asserts h
  | .write _ => h.bt.inTrans = .write
  | .movetoUnpacked _ _ => h.bt.inTrans ≠ .none

/-- Every call of LMDB that a function on tables, meta values or cursors makes is on `curr_txn`. -/
def OnCurrent (parentOpens : Bool) (h : Handle) : BtreeCall → Prop
  | .schema call => ∀ lmdb ∈ call.issued parentOpens h, some lmdb.txn = h.bt.currTxn
  | _ => True

def OutsideStatements (h : Handle) : BtreeCall → Prop
  | .schema (.createTable _) => h.bt.currTxn = h.bt.mainTxn
  | _ => True

end BtreeCall

/-! ### The list of calls is the one that is made -/

section

variable (opens : Bool) (h : Handle)

theorem getMeta_env (idx : ℕ) : (((sqlite3BtreeGetMeta h idx).map Prod.snd).getD h).env =
    (getMetaIssued h idx).foldl (LmdbCall.run opens) h.env := by
  unfold sqlite3BtreeGetMeta getMetaIssued
  split_ifs
  · rfl
  · cases h.bt.currTxn with
    | none | some txn => rfl

theorem updateMeta_env (idx iMeta : ℕ) :
    (((sqlite3BtreeUpdateMeta h idx iMeta).map Prod.snd).getD h).env =
      (updateMetaIssued h idx iMeta).foldl (LmdbCall.run opens) h.env := by
  unfold sqlite3BtreeUpdateMeta updateMetaIssued
  cases h.bt.currTxn with
  | none | some txn => rfl

theorem tableHandle_env {found : Except Rc DbName × Handle} {iTable : ℕ}
    (hcall : BtreeTableHandle opens h iTable = some found) : found.2 =
    { h with
      env := (tableHandleIssued opens h iTable).foldl (LmdbCall.run opens) h.env } := by
  unfold tableHandleIssued
  obtain ⟨txn, hcurr, rfl⟩ := map_eq_some_iff.mp hcall
  rw [hcurr, elim_some]
  by_cases hunnamed : iTable = 1 ∧ (h.env.seen txn).main.entries = []
  · rw [if_pos hunnamed, if_pos hunnamed]
    rfl
  · rw [if_neg hunnamed, if_neg hunnamed]
    simp only
    split_ifs
    · rfl
    · rfl

/-- Assumes: `act` calls `op` of LMDB and nothing else. -/
theorem onTable_env (iTable : ℕ) (code : Rc → Rc) (act : Env → ℕ → DbName → MdbRc × Env)
    (op : DbName → LmdbOp)
    (hact : ∀ env txn name, (act env txn name).2 = LmdbCall.run opens env ⟨txn, op name⟩) :
    (((onTable opens h iTable code act).map Prod.snd).getD h).env =
      (onTableIssued opens h iTable op).foldl (LmdbCall.run opens) h.env := by
  unfold onTable onTableIssued
  cases hcall : BtreeTableHandle opens h iTable with
  | none =>
    have hcurr : h.bt.currTxn = none := map_eq_none_iff.mp hcall
    simp [tableHandleIssued, hcurr]
  | some found =>
    have henv := tableHandle_env opens h hcall
    obtain ⟨result, found⟩ := found
    obtain rfl : found = _ := henv
    rw [foldl_append]
    cases result with
    | error rc => rfl
    | ok name =>
      cases hcurr : h.bt.currTxn with
      | none => simp [BtreeTableHandle, hcurr] at hcall
      | some txn => simp [hcurr, hact]

theorem cursorOnRoot_env (iTable pCur : ℕ) :
    (((cursorOnRoot opens h iTable pCur).map Prod.snd).getD h).env =
      (onTableIssued opens h iTable .cursorInit).foldl (LmdbCall.run opens) h.env := by
  unfold cursorOnRoot onTableIssued
  cases hcall : BtreeTableHandle opens h iTable with
  | none =>
    have hcurr : h.bt.currTxn = none := map_eq_none_iff.mp hcall
    simp [tableHandleIssued, hcurr]
  | some found =>
    have henv := tableHandle_env opens h hcall
    obtain ⟨result, found⟩ := found
    obtain rfl : found = _ := henv
    rw [foldl_append]
    cases result with
    | error rc => rfl
    | ok name =>
      cases hcurr : h.bt.currTxn with
      | none => simp [BtreeTableHandle, hcurr] at hcall
      | some txn =>
        simp only [bind_some, sqlite3BtreeCursor, hcurr, map_some, getD_some,
          elim_some, foldl_cons, foldl_nil, LmdbCall.run]
        split_ifs
        · rfl
        · rfl

variable {result : Rc × Option ℕ × Handle} (main last : ℕ)

theorem createFirst_env : (createFirst opens h main last).2.2.env =
    (createFirstIssued main last).foldl (LmdbCall.run opens) h.env := by
  unfold createFirst createFirstIssued
  split_ifs
  · rfl
  · rfl

theorem createNamed_env (main last flags : ℕ)
    (hcall : createNamed opens h main last flags = some result) : result.2.2.env =
      (createNamedIssued opens h main last flags).foldl (LmdbCall.run opens) h.env := by
  unfold createNamed at hcall
  unfold createNamedIssued
  rw [foldl_cons]
  by_cases hopened : (h.env.mdbOpen opens main last (main ∉ h.env.store.readers.map Frame.id)
      (flags &&& BTREE_INTKEY ≠ 0) !(decide (flags &&& BTREE_INTKEY ≠ 0))).1 = .success
  · rw [if_pos hopened] at hcall ⊢
    obtain ⟨updated, hupdated, rfl⟩ := map_eq_some_iff.mp hcall
    have hwritten := updateMeta_env opens { h with env := (h.env.mdbOpen opens main last
      (main ∉ h.env.store.readers.map Frame.id) (flags &&& BTREE_INTKEY ≠ 0)
      !(decide (flags &&& BTREE_INTKEY ≠ 0))).2 } BTREE_LARGEST_ROOT_PAGE last
    rw [hupdated] at hwritten
    rw [foldl_append]
    split_ifs
    · exact hwritten
    · exact hwritten
  · rw [if_neg hopened] at hcall ⊢
    cases hcall
    rfl

theorem createTable_env (flags : ℕ)
    (hcall : sqlite3BtreeCreateTable opens h flags = some result) : result.2.2.env =
      (createTableIssued opens h flags).foldl (LmdbCall.run opens) h.env := by
  obtain ⟨got, hgot, hrest⟩ := bind_eq_some_iff.mp hcall
  obtain ⟨main, hmain, hrest⟩ := bind_eq_some_iff.mp hrest
  have hread := getMeta_env opens h BTREE_LARGEST_ROOT_PAGE
  have hfirst := createFirst_env opens got.2 main ((got.1 + 1) % 2 ^ 32)
  rw [hgot, map_some, getD_some] at hread
  simp only [createTableIssued, hgot, hmain, elim_some, foldl_append]
  rw [← hread, ← hfirst]
  simp only at hrest
  split_ifs at hrest ⊢
  · exact createNamed_env opens _ main _ flags hrest
  · cases hrest
    rfl

theorem createFirst_bt : (createFirst opens h main last).2.2.bt = h.bt := by
  unfold createFirst
  split_ifs
  · rfl
  · rfl

/-- `sqlite3BtreeGetMeta` gets to its end in a transaction. -/
theorem getMeta_some {h : Handle} (hcurr : h.bt.currTxn ≠ none) :
    ∃ got, sqlite3BtreeGetMeta h BTREE_LARGEST_ROOT_PAGE = some got ∧ got.2.bt = h.bt := by
  obtain ⟨txn, hcurr⟩ := ne_none_iff_exists'.mp hcurr
  rw [sqlite3BtreeGetMeta, if_neg (by decide), hcurr]
  exact ⟨_, rfl, rfl⟩

theorem createTable_ne_none (hcurr : h.bt.currTxn ≠ none)
    (hmain : h.bt.mainTxn ≠ none) (flags : ℕ) : sqlite3BtreeCreateTable opens h flags ≠ none := by
  obtain ⟨got, hgot, hbt⟩ := getMeta_some hcurr
  obtain ⟨txn, hcurr⟩ := ne_none_iff_exists'.mp hcurr
  obtain ⟨main, hmain⟩ := ne_none_iff_exists'.mp hmain
  have hnamed : ∀ last (found : Handle), found.bt = h.bt →
      createNamed opens found main last flags ≠ none := by
    intro last found hfound
    simp only [createNamed, sqlite3BtreeUpdateMeta, hfound, hcurr]
    split_ifs
    · simp
    · simp
  simp only [sqlite3BtreeCreateTable, hgot, hmain, bind_some]
  split_ifs
  · exact hnamed _ _ (by rw [createFirst_bt, hbt])
  · simp

/-- The environment after a call is the one that its calls of LMDB leave. -/
theorem SchemaCall.run_env (htracks : Tracks h.env h.bt) (call : SchemaCall) :
    (call.run opens h).env = (call.issued opens h).foldl (LmdbCall.run opens) h.env := by
  cases call with
  | createTable flags =>
    rw [SchemaCall.run, SchemaCall.issued]
    cases hcall : sqlite3BtreeCreateTable opens h flags with
    | some result => exact createTable_env opens h flags hcall
    | none =>
      have hcurr : h.bt.currTxn = none := by
        by_contra hcurr
        have hmain : h.bt.mainTxn ≠ none := fun hnone ↦
          hcurr (htracks.currTxn_eq_none_iff.mpr (htracks.mainTxn_eq_none_iff.mp hnone))
        exact createTable_ne_none opens h hcurr hmain flags hcall
      simp [createTableIssued, getMetaIssued, sqlite3BtreeGetMeta, hcurr, BTREE_LARGEST_ROOT_PAGE]
  | clearTable iTable =>
    exact onTable_env opens h iTable errmapAgain Env.mdbDropEntries .dropEntries
      fun _ _ _ ↦ rfl
  | dropTable iTable =>
    exact onTable_env opens h iTable errmapAgain Env.mdbDrop .drop fun _ _ _ ↦ rfl
  | getMeta idx => exact getMeta_env opens h idx
  | updateMeta idx iMeta => exact updateMeta_env opens h idx iMeta
  | cursor iTable pCur => exact cursorOnRoot_env opens h iTable pCur

theorem SchemaCall.run_env_create : ((createTable 1).run true freshWriter).env =
    ((createTable 1).issued true freshWriter).foldl (LmdbCall.run true) freshWriter.env :=
  SchemaCall.run_env true freshWriter (tracks_beginTrans _ 1 (.idle rfl rfl rfl)) _

end

/-! ### Which transaction they are made on -/

section

variable {opens : Bool} {h : Handle} {lmdb : LmdbCall}

/-- Calls that are all made on the transaction of a handle, when it has one. -/
theorem txn_of_mem_elim {curr : Option ℕ} {calls : ℕ → List LmdbCall}
    (hcalls : ∀ txn, ∀ lmdb ∈ calls txn, lmdb.txn = txn) (hmem : lmdb ∈ curr.elim [] calls) :
    some lmdb.txn = curr := by
  cases curr with
  | none => cases hmem
  | some txn => rw [hcalls txn lmdb hmem]

theorem getMetaIssued_txn {idx : ℕ} (hmem : lmdb ∈ getMetaIssued h idx) :
    some lmdb.txn = h.bt.currTxn := by
  unfold getMetaIssued at hmem
  split_ifs at hmem
  · cases hmem
  · refine txn_of_mem_elim (fun txn lmdb hissued ↦ ?_) hmem
    rcases mem_pair.mp hissued with rfl | rfl
    · rfl
    · rfl

theorem updateMetaIssued_txn {idx iMeta : ℕ} (hmem : lmdb ∈ updateMetaIssued h idx iMeta) :
    some lmdb.txn = h.bt.currTxn := by
  refine txn_of_mem_elim (fun txn lmdb hissued ↦ ?_) hmem
  rcases mem_pair.mp hissued with rfl | rfl
  · rfl
  · rfl

theorem tableHandleIssued_txn {iTable : ℕ} (hmem : lmdb ∈ tableHandleIssued opens h iTable) :
    some lmdb.txn = h.bt.currTxn := by
  refine txn_of_mem_elim (fun txn lmdb hissued ↦ ?_) hmem
  by_cases hunnamed : iTable = 1 ∧ (h.env.seen txn).main.entries = []
  · rw [if_pos hunnamed] at hissued
    rw [mem_singleton.mp hissued]
  · rw [if_neg hunnamed] at hissued
    rcases mem_cons.mp hissued with rfl | hcompare
    · rfl
    · split_ifs at hcompare
      · rw [mem_singleton.mp hcompare]
      · cases hcompare

theorem onTableIssued_txn {iTable : ℕ} {op : DbName → LmdbOp}
    (hmem : lmdb ∈ onTableIssued opens h iTable op) : some lmdb.txn = h.bt.currTxn := by
  rcases mem_append.mp hmem with hfirst | hsecond
  · exact tableHandleIssued_txn hfirst
  · cases hcall : BtreeTableHandle opens h iTable with
    | none =>
      rw [hcall] at hsecond
      cases hsecond
    | some found =>
      have hfound := tableHandle_env opens h hcall
      obtain ⟨result, found⟩ := found
      obtain rfl : found = _ := hfound
      rw [hcall] at hsecond
      cases result with
      | error rc => cases hsecond
      | ok name =>
        refine txn_of_mem_elim (fun txn lmdb hissued ↦ ?_) hsecond
        rw [mem_singleton.mp hissued]

/-- The part that opens the new database calls LMDB on both transactions. -/
theorem createNamedIssued_txn {main last flags : ℕ}
    (hmem : lmdb ∈ createNamedIssued opens h main last flags) :
    lmdb.txn = main ∨ some lmdb.txn = h.bt.currTxn := by
  rcases mem_cons.mp hmem with rfl | hrest
  · exact .inl rfl
  · split_ifs at hrest
    · exact .inr (updateMetaIssued_txn hrest)
    · rcases mem_append.mp hrest with hcompare | hupdate
      · exact .inl (by rw [mem_singleton.mp hcompare])
      · exact .inr (updateMetaIssued_txn hupdate)
    · cases hrest

/-- `sqlite3BtreeCreateTable` calls LMDB on both its transactions. -/
theorem createTableIssued_txn {flags : ℕ} (hmem : lmdb ∈ createTableIssued opens h flags) :
    some lmdb.txn = h.bt.currTxn ∨ some lmdb.txn = h.bt.mainTxn := by
  rcases mem_append.mp hmem with hread | hrest
  · exact .inl (getMetaIssued_txn hread)
  · cases hgot : sqlite3BtreeGetMeta h BTREE_LARGEST_ROOT_PAGE with
    | none =>
      rw [hgot] at hrest
      cases hrest
    | some got =>
      cases hmain : h.bt.mainTxn with
      | none =>
        rw [hgot, hmain] at hrest
        cases hrest
      | some main =>
        rw [hgot, hmain, elim_some, elim_some] at hrest
        have hreads : Rewrites (fun _ ↦ True) h got.2 := getMeta_rewrites hgot
        have hbt : got.2.bt = h.bt := hreads.bt
        rcases mem_append.mp hrest with hfirst | hnamed
        · unfold createFirstIssued at hfirst
          split_ifs at hfirst
          · exact .inr (by rw [mem_singleton.mp hfirst])
          · cases hfirst
        · split_ifs at hnamed
          · rcases createNamedIssued_txn hnamed with hsame | hcurr
            · exact .inr (by rw [hsame])
            · rw [createFirst_bt, hbt] at hcurr
              exact .inl hcurr
          · cases hnamed

theorem exists_createTableIssued {main : ℕ} (hcurr : h.bt.currTxn ≠ none)
    (hmain : h.bt.mainTxn = some main) (flags : ℕ) :
    ∃ lmdb ∈ createTableIssued opens h flags, lmdb.txn = main := by
  obtain ⟨got, hgot, _⟩ := getMeta_some hcurr
  unfold createTableIssued
  rw [hgot, hmain, elim_some, elim_some]
  by_cases hone : (got.1 + 1) % 2 ^ 32 = 1
  · refine ⟨⟨main, .openTable 1 true true false⟩, ?_, rfl⟩
    refine mem_append_right _ (mem_append_left _ ?_)
    rw [createFirstIssued, if_pos hone, hone]
    exact mem_singleton_self _
  · have hfirst : (createFirst opens got.2 main ((got.1 + 1) % 2 ^ 32)).1 = .success := by
      rw [createFirst, if_neg hone]
    simp only [if_pos hfirst]
    exact ⟨_, mem_append_right _ (mem_append_right _ (.head _)), rfl⟩

end

/-! ### Runs -/

/-- A handle with the transactions of another one. -/
structure SameTxns (h h' : Handle) : Prop where
  inTrans : h'.bt.inTrans = h.bt.inTrans
  mainTxn : h'.bt.mainTxn = h.bt.mainTxn
  currTxn : h'.bt.currTxn = h.bt.currTxn
  ids : h'.env.store.writer.map Frame.id = h.env.store.writer.map Frame.id
  readers : h'.env.store.readers = h.env.store.readers

theorem SameTxns.tracks {h h' : Handle} (hsame : SameTxns h h') (htracks : Tracks h.env h.bt) :
    Tracks h'.env h'.bt := by
  rcases htracks with ⟨hin, hmain, hcurr⟩ | ⟨hin, reader, hmem, hmain, hcurr⟩ |
    ⟨hin, hopen, hmain, hcurr⟩
  · exact .idle (hsame.inTrans.trans hin) (hsame.mainTxn.trans hmain) (hsame.currTxn.trans hcurr)
  · exact .reading (hsame.inTrans.trans hin) reader (by rw [hsame.readers]; exact hmem)
      (hsame.mainTxn.trans hmain) (hsame.currTxn.trans hcurr)
  · refine .writing (hsame.inTrans.trans hin) (fun hnil ↦ hopen ?_) ?_ ?_
    · have hids := hsame.ids
      rw [hnil, map_nil] at hids
      exact map_eq_nil_iff.mp hids.symm
    · rw [hsame.mainTxn, hsame.ids, hmain]
    · rw [hsame.currTxn, hsame.ids, hcurr]

theorem Rewrites.sameTxns {kind : Write → Prop} {h h' : Handle} (hrewrites : Rewrites kind h h') :
    SameTxns h h' :=
  ⟨by rw [hrewrites.bt], by rw [hrewrites.bt], by rw [hrewrites.bt], hrewrites.updates.ids,
    hrewrites.updates.readers⟩

variable {h : Handle} (parentOpens : Bool) (call : BtreeCall)

/-- A call on the database of a root number moves no transaction. -/
theorem sameTxns_onTable {parentOpens : Bool} (hcurr : h.bt.currTxn ≠ none) {iTable : ℕ}
    {code : Rc → Rc} {act : Env → ℕ → DbName → MdbRc × Env} (update : DbName → Write)
    (hact : ∀ env txn name, act env txn name = if env.outcome = .success then
      (.success, env.spend.modify txn (update name)) else (env.outcome, env.spend)) :
    SameTxns h (((onTable parentOpens h iTable code act).map Prod.snd).getD h) := by
  obtain ⟨txn, hcurr⟩ := ne_none_iff_exists'.mp hcurr
  obtain ⟨rc, h', hcall, hbt, _, hstore⟩ := onTable_cases parentOpens hcurr iTable code act update
    fun env name ↦ hact env txn name
  rw [hcall, map_some, getD_some]
  rcases hstore with hsame | ⟨name, _, hmodified⟩
  · exact ⟨by rw [hbt], by rw [hbt], by rw [hbt], by rw [hsame], by rw [hsame]⟩
  · refine ⟨by rw [hbt], by rw [hbt], by rw [hbt], ?_, by rw [hmodified]; rfl⟩
    rw [hmodified, modifyAt_writer, map_id_updateFrame]

theorem sameTxns_cursor (hcurr : h.bt.currTxn ≠ none) (iTable pCur : ℕ) :
    SameTxns h (((cursorOnRoot parentOpens h iTable pCur).map Prod.snd).getD h) := by
  obtain ⟨txn, hcurr⟩ := ne_none_iff_exists'.mp hcurr
  obtain ⟨found, h', hcall, hbt, hstore, _⟩ := tableHandle_cases parentOpens hcurr iTable
  rw [cursorOnRoot, hcall, bind_some]
  cases found with
  | error rc => exact ⟨by rw [← hbt]; rfl, by rw [← hbt]; rfl, by rw [← hbt]; rfl,
      by rw [← hstore]; rfl, by rw [← hstore]; rfl⟩
  | ok name =>
    simp only [sqlite3BtreeCursor, hbt, hcurr, map_some, getD_some]
    split_ifs
    · exact ⟨by rw [hbt], by rw [hbt], by rw [hbt], by rw [hstore], by rw [hstore]⟩
    · exact ⟨rfl, rfl, hcurr.symm, by rw [hstore], by rw [hstore]⟩

/-- In a transaction a function on tables, meta values or cursors moves no transaction. -/
theorem SchemaCall.sameTxns (hcurr : h.bt.currTxn ≠ none) (call : SchemaCall) :
    SameTxns h (call.run parentOpens h) := by
  have hrefl : SameTxns h h := ⟨rfl, rfl, rfl, rfl, rfl⟩
  cases call with
  | createTable flags =>
    rw [SchemaCall.run]
    cases hcall : sqlite3BtreeCreateTable parentOpens h flags with
    | none => exact hrefl
    | some result => exact (createTable_rewrites hcall).sameTxns
  | clearTable iTable => exact sameTxns_onTable hcurr Content.clear fun _ _ _ ↦ rfl
  | dropTable iTable => exact sameTxns_onTable hcurr Content.drop fun _ _ _ ↦ rfl
  | getMeta idx =>
    rw [SchemaCall.run]
    cases hcall : sqlite3BtreeGetMeta h idx with
    | none => exact hrefl
    | some got =>
      have hreads : Rewrites (fun _ ↦ True) h got.2 := getMeta_rewrites hcall
      exact hreads.sameTxns
  | updateMeta idx iMeta =>
    rw [SchemaCall.run]
    cases hcall : sqlite3BtreeUpdateMeta h idx iMeta with
    | none => exact hrefl
    | some result =>
      have hwrites : Rewrites (fun _ ↦ True) h result.2 := updateMeta_rewrites trivial hcall
      exact hwrites.sameTxns
  | cursor iTable pCur => exact sameTxns_cursor parentOpens hcurr iTable pCur

theorem SchemaCall.currTxn_ne (call : SchemaCall) (hasserts : call.Asserts h)
    (htracks : Tracks h.env h.bt) : h.bt.currTxn ≠ none := by
  have hin : h.bt.inTrans ≠ .none := by
    cases call with
    | getMeta idx | cursor iTable pCur => exact hasserts
    | _ => exact fun hnone ↦ absurd (hasserts.symm.trans hnone) (by simp)
  exact fun hnone ↦ hin (htracks.currTxn_eq_none_iff.mp hnone)

/-- A call keeps the handle in agreement with its environment. -/
theorem BtreeCall.tracks (htracks : Tracks h.env h.bt) (hasserts : call.Asserts h) :
    Tracks (call.run parentOpens h).env (call.run parentOpens h).bt := by
  cases call with
  | txn call => exact call.tracks htracks hasserts
  | schema call =>
    exact (call.sameTxns parentOpens (call.currTxn_ne hasserts htracks)).tracks htracks
  | write update => exact htracks.of_writer hasserts (by simp [BtreeCall.run, Handle.writes])
  | movetoUnpacked pCur pos => exact htracks

/-- A call makes its calls of LMDB on `curr_txn` exactly if it creates no table in a statement. -/
theorem BtreeCall.onCurrent_iff (htracks : Tracks h.env h.bt) (hasserts : call.Asserts h) :
    call.OnCurrent parentOpens h ↔ call.OutsideStatements h := by
  cases call with
  | txn call | write update | movetoUnpacked pCur pos => exact Iff.rfl
  | schema call =>
    cases call with
    | createTable flags =>
      have hcurr := SchemaCall.currTxn_ne (.createTable flags) hasserts htracks
      obtain ⟨_, last, _, hmain⟩ := htracks.exists_bottom hasserts
      constructor
      · intro honCurrent
        obtain ⟨lmdb, hmem, htxn⟩ := exists_createTableIssued hcurr hmain flags
        have hsame := honCurrent lmdb hmem
        rw [htxn] at hsame
        exact hsame.symm.trans hmain.symm
      · intro houtside lmdb hmem
        rcases createTableIssued_txn hmem with hsame | hsame
        · exact hsame
        · exact hsame.trans houtside.symm
    | clearTable iTable | dropTable iTable | cursor iTable pCur =>
      exact ⟨fun _ ↦ trivial, fun _ _ hmem ↦ onTableIssued_txn hmem⟩
    | getMeta idx => exact ⟨fun _ ↦ trivial, fun _ _ hmem ↦ getMetaIssued_txn hmem⟩
    | updateMeta idx iMeta => exact ⟨fun _ ↦ trivial, fun _ _ hmem ↦ updateMetaIssued_txn hmem⟩

/-- In a run every call of LMDB is made on `curr_txn` exactly if every table is created outside
statements.
Assumes: the calls are made as they assert. -/
theorem issued_on_current_iff (parentOpens : Bool) (env : Env) (id pBt : ℕ) (calls : List BtreeCall)
    (hasserts : Meets (BtreeCall.run parentOpens) (fun h call ↦ call.Asserts h) (.opened env id pBt)
      calls) :
    Meets (BtreeCall.run parentOpens) (fun h call ↦ call.OnCurrent parentOpens h)
        (.opened env id pBt) calls ↔
      Meets (BtreeCall.run parentOpens) (fun h call ↦ call.OutsideStatements h)
        (.opened env id pBt) calls := by
  have hstart : Tracks (Handle.opened env id pBt).env (Handle.opened env id pBt).bt :=
    .idle rfl rfl rfl
  generalize Handle.opened env id pBt = h at hasserts hstart
  induction calls generalizing h with
  | nil => exact Iff.rfl
  | cons call rest ih =>
    exact and_congr (call.onCurrent_iff parentOpens hstart hasserts.1)
      (ih _ hasserts.2 (call.tracks parentOpens hstart hasserts.1))

/-- A table that is created before a statement, and a meta value that is read in it. -/
theorem issued_on_current_statement :
    Meets (BtreeCall.run true) (fun h call ↦ call.OnCurrent true h)
      (.opened (.created .fresh [] true) 0 0)
      [.txn (.beginTrans 1), .schema (.createTable 1), .txn (.beginStmt 1),
        .schema (.getMeta 4)] := by
  refine (issued_on_current_iff true _ 0 0 _ ?_).mpr ?_
  · exact ⟨trivial, rfl, rfl, (by decide : InTrans.write ≠ .none), trivial⟩
  · exact ⟨trivial, rfl, trivial, trivial, trivial⟩

/-- A table that is created in a statement is opened on the transaction around the statement. -/
theorem create_table_on_parent : ¬Meets (BtreeCall.run true) (fun h call ↦ call.OnCurrent true h)
      (.opened (.created .fresh [] true) 0 0)
      [.txn (.beginTrans 1), .txn (.beginStmt 1), .schema (.createTable 1)] := by
  rintro ⟨_, _, honCurrent, _⟩
  exact absurd (honCurrent ⟨0, .openTable 1 true true false⟩ (by decide)) (by decide)

end LumoSQL
