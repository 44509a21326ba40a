import LumoSQL.Btree.DeadCursors
import LumoSQL.Btree.Issued
import LumoSQL.Index.Fidelity

/-!
# The keys that are searched in an index

`BtreeCompare` takes the record of a search from `a[1]`, the slot behind the key that LMDB hands it,
so every call of LMDB that can compare a key in a database with sorted duplicates has to pass two
values, the second of which points to the unpacked record of the key. `Search` is such a call with
what it passes (`KeyArg`), and `KeyArg.Unpacked` says that the record is the one of the key.

Keys are searched by `sqlite3BtreeInsert`, `sqlite3BtreeMovetoUnpacked` and the loop of
`sqlite3BtreeBeginTrans` that moves the cursors to a write transaction; the other calls of LMDB are
given no key, or one for the unnamed database. Two of these places are wrong
(`search_without_record`). The loop passes one value. An insert passes the record of the key, but
when `squashIndexKey` has cut a long field, it moves the fields behind it in memory and leaves the
record pointing to where they were. `searches_unpacked` says in which runs of either version of
`btree.c` every search gets the record of its key.
-/

namespace LumoSQL

open Foundation List Option Function Env

/-! ### What a search passes -/

def keyValues (nField : ℕ) (key : Bytes) : List Value :=
  (sqlite3VdbeRecordUnpack (ofBytes key) key.length 0 (nField + 1)).map (Mem.value (ofBytes key))

/-- What is passed as the key: one value; a key and the fields of the record behind it; or the
fields of a record behind a value that is no key, the record being what is searched. -/
inductive KeyArg
  | single (key : Bytes)
  | record (nField : ℕ) (key : Bytes) (fields : List Value)
  | probe (fields : List Value)

def KeyArg.Unpacked : KeyArg → Prop
  | .single _ => False
  | .record nField key fields => keyValues nField key = fields
  | .probe _ => True

/-- A call of LMDB that can compare a key, on a database with or without sorted duplicates. -/
structure Search where
  dupSort : Bool
  arg : KeyArg

/-- The comparison of an index gets the record of the key. -/
def Search.Unpacked (search : Search) : Prop := search.dupSort = true → search.arg.Unpacked

def Env.integerKeyAt (env : Env) (mc : MdbCursor) : Bool :=
  (((env.seen mc.txn).db mc.dbi).map Db.integerKey).getD false

/-! ### The searches of the functions -/

/-- The arguments of `sqlite3BtreeInsert` that make the key, and whether the unpacked record is
allocated. -/
structure InsertArgs where
  pKeyInfo : KeyInfo
  fileFormat : ℕ
  allocated : Bool
  mem : ℕ → UInt8
  pKey : Option ℕ
  nKey : Int64

/-- The arguments of `sqlite3BtreeMovetoUnpacked`. -/
structure MovetoArgs where
  pKeyInfo : KeyInfo
  fileFormat : ℕ
  mem : ℕ → UInt8
  pUnKey : Option UnpackedRecord
  intKey : Int64

section

variable (hash : MdbHash) (env : Env)

/-- The search of `mdb_cursor_put` in `sqlite3BtreeInsert`. -/
def insertSearches (mc : MdbCursor) (args : InsertArgs) : List Search :=
  if env.integerKeyAt mc then [⟨env.dupSortAt mc, .single (i64Bytes args.nKey)⟩]
  else
    match args.pKey with
    | none => [⟨env.dupSortAt mc, .single (i64Bytes args.nKey)⟩]
    | some pKey =>
      if args.allocated then
        let split := splitRecord hash args.pKeyInfo args.fileFormat args.mem pKey
          args.nKey.toInt.toNat
        [⟨env.dupSortAt mc, .record args.pKeyInfo.nField (split.key.bytes split.mem)
          (split.aMem.map (Mem.value split.mem))⟩]
      else []

/-- The searches of `mdb_cursor_get` in `sqlite3BtreeMovetoUnpacked`: `MDB_SET` with the number of a
row, or `MDB_GET_BOTH_RANGE` and `MDB_SET_RANGE` with a record. -/
def movetoSearches (mc : MdbCursor) (args : MovetoArgs) : List Search :=
  if env.cursorEntries mc = [] then []
  else if env.integerKeyAt mc then [⟨env.dupSortAt mc, .single (i64Bytes args.intKey)⟩]
  else
    match args.pUnKey with
    | none => [⟨env.dupSortAt mc, .single (i64Bytes args.intKey)⟩]
    | some pUnKey =>
      let squashed := squashIndexKey hash args.mem pUnKey.aMem args.fileFormat none
      let search : Search := ⟨env.dupSortAt mc, .probe (squashed.2.1.map (Mem.value squashed.1))⟩
      if args.pKeyInfo.nField < pUnKey.aMem.length then [search, search] else [search]

/-- The search that moves one cursor to a write transaction, when its key can be read. -/
def moveSearches (txn : ℕ) : Option MdbCursor → List Search
  | none => []
  | some mc =>
    match env.mdbCursorCurrent mc with
    | .ok entry => [⟨env.dupSortAt (mdbCursorInit txn mc.dbi), .single entry.1⟩]
    | .error _ => []

/-- The searches of the loop of `sqlite3BtreeBeginTrans`. The versions differ in the entry that the
search goes to, `place`. -/
def movesSearches (place : List (Bytes × Bytes) → Bytes × Bytes → Option ℕ) (txn : ℕ) :
    List ℕ → (ℕ → Option MdbCursor) → List Search
  | [], _ => []
  | pCur :: rest, mcs =>
    moveSearches env txn (mcs pCur) ++ movesSearches place txn rest
      (Function.update mcs pCur ((mcs pCur).map (movedTo place env txn)))

/-- The searches of `sqlite3BtreeBeginTrans`. -/
def beginSearches (place : List (Bytes × Bytes) → Bytes × Bytes → Option ℕ) (p : Btree)
    (mcs : ℕ → Option MdbCursor) (wrflag : ℕ) : List Search :=
  if p.inTrans = .read ∧ wrflag ≠ 0 then
    match env.mdbTxnBegin none false with
    | (.ok txn, env) => movesSearches env place txn p.pCursor mcs
    | (.error _, _) => []
  else []

end

/-! ### When a function passes the record of its key -/

/-- The arguments of an insert are a record of `OP_MakeRecord` without a long field, that has at
most one field more than the index. -/
def InsertArgs.ShortRecord (args : InsertArgs) : Prop :=
  ∃ op : IndexInsert, args.pKey = some op.pKey ∧ args.mem = op.mem ∧ args.nKey = op.nKey ∧
    args.fileFormat = op.fileFormat ∧ ShortFields op.fields ∧
    op.fields.length ≤ args.pKeyInfo.nField + 1

/-- An insert into an index is given a record without a long field. -/
def InsertGuard (env : Env) (mc : Option MdbCursor) (args : InsertArgs) : Prop :=
  ∀ mc', mc = some mc' → env.dupSortAt mc' = true → env.integerKeyAt mc' = false ∧ args.ShortRecord

/-- A search in an index that is not empty is given a record. -/
def MovetoGuard (env : Env) (mc : Option MdbCursor) (args : MovetoArgs) : Prop :=
  ∀ mc', mc = some mc' → env.dupSortAt mc' = true → env.cursorEntries mc' ≠ [] →
    env.integerKeyAt mc' = false ∧ args.pUnKey ≠ none

/-- Where a read transaction is given up for a write transaction and LMDB takes `MDB_CURRENT` for an
operation, no cursor of the handle is at an entry of an index. -/
def BeginGuard (env : Env) (p : Btree) (mcs : ℕ → Option MdbCursor) (wrflag : ℕ) : Prop :=
  p.inTrans = .read ∧ wrflag ≠ 0 ∧ env.outcome = .success ∧ env.store.writer = [] ∧
      env.currentIsOp = true →
    ∀ pCur ∈ p.pCursor, ∀ mc, mcs pCur = some mc →
      ((env.store.durable.db mc.dbi).map Db.dupSort).getD false = true → env.rowAt mc = none

section

variable {hash : MdbHash} {env : Env}

theorem keyValues_bytes {nField : ℕ} {key : IndexKey} (hroom : key.fields.length ≤ nField + 1) :
    keyValues nField key.bytes = key.fields := by
  have hstands : Stands (ofBytes key.bytes) 0 key.bytes := stands_ofBytes key.bytes
  have hunpack := recordUnpack_fields (nField + 1) key.ok.recordable key.ok.header hstands
    (Nat.le_refl _)
  have hall : (memsAt key.fileFormat (0 + keyHeader key.fileFormat key.fields) key.fields).take
      (nField + 1) = memsAt key.fileFormat
        (0 + keyHeader key.fileFormat key.fields) key.fields := by
    refine take_of_length_le ?_
    rwa [memsAt_length]
  have hlength : key.bytes.length = (recordBytes key.fileFormat
      (keyHeader key.fileFormat key.fields) key.fields).length := rfl
  rw [keyValues, hlength, hunpack, hall]
  exact memsAt_value key.ok.recordable (key.ok.stands_data hstands)

variable {args : InsertArgs} {mc : MdbCursor}
  (place : List (Bytes × Bytes) → Bytes × Bytes → Option ℕ) (txn : ℕ)

theorem insertSearches_dupSort {search : Search}
    (hsearch : search ∈ insertSearches hash env mc args) : search.dupSort = env.dupSortAt mc := by
  unfold insertSearches at hsearch
  by_cases hinteger : env.integerKeyAt mc = true
  · rw [if_pos hinteger] at hsearch
    rw [mem_singleton.mp hsearch]
  · rw [if_neg hinteger] at hsearch
    cases hpKey : args.pKey with
    | none =>
      rw [hpKey] at hsearch
      rw [mem_singleton.mp hsearch]
    | some pKey =>
      simp only [hpKey] at hsearch
      by_cases hallocated : args.allocated = true
      · rw [if_pos hallocated] at hsearch
        rw [mem_singleton.mp hsearch]
      · rw [if_neg hallocated] at hsearch
        cases hsearch

/-- An insert passes the record of its key when it meets its guard. -/
theorem insert_unpacked (hguard : InsertGuard env (some mc) args) :
    ∀ search ∈ insertSearches hash env mc args, search.Unpacked := by
  intro search hsearch hdup
  rw [insertSearches_dupSort hsearch] at hdup
  obtain ⟨hinteger, op, hpKey, hmem, hnKey, hformat, hshort, hroom⟩ := hguard mc rfl hdup
  have hsize : args.nKey.toInt.toNat = op.z.length := by
    rw [hnKey, op.size]
    rfl
  obtain ⟨split, hsplit, hvalues, hkey, -⟩ := op.splitRecord_short hash args.pKeyInfo hshort hroom
  rw [insertSearches, if_neg (by simp [hinteger]), hpKey] at hsearch
  simp only [hmem, hformat, hsize, hsplit, hvalues, hkey] at hsearch
  by_cases hallocated : args.allocated = true
  · rw [if_pos hallocated] at hsearch
    obtain rfl := mem_singleton.mp hsearch
    refine keyValues_bytes ?_
    show op.keyFields.length ≤ _
    rwa [IndexInsert.keyFields, length_map]
  · rw [if_neg hallocated] at hsearch
    cases hsearch

/-- A seek passes a record exactly when it meets its guard. -/
theorem moveto_unpacked_iff {args : MovetoArgs} :
    (∀ search ∈ movetoSearches hash env mc args, search.Unpacked) ↔
      MovetoGuard env (some mc) args := by
  unfold movetoSearches MovetoGuard
  by_cases hempty : env.cursorEntries mc = []
  · rw [if_pos hempty]
    refine iff_of_true (by simp) fun mc' hmc _ hne ↦ ?_
    cases hmc
    exact absurd hempty hne
  · rw [if_neg hempty]
    by_cases hinteger : env.integerKeyAt mc = true
    · rw [if_pos hinteger]
      simp [Search.Unpacked, KeyArg.Unpacked, hinteger, hempty]
    · rw [if_neg hinteger]
      cases args.pUnKey with
      | none => simp [Search.Unpacked, KeyArg.Unpacked, hempty]
      | some pUnKey =>
        refine iff_of_true (fun search hsearch _ ↦ ?_) fun mc' hmc _ _ ↦ ?_
        · simp only at hsearch
          split_ifs at hsearch
          · rcases mem_cons.mp hsearch with rfl | hsearch
            · trivial
            · rw [mem_singleton.mp hsearch]
              trivial
          · rw [mem_singleton.mp hsearch]
            trivial
        · cases hmc
          exact ⟨Bool.eq_false_iff.mpr hinteger, by simp⟩

/-- A cursor on an index that can be read is searched without a record. -/
theorem moveSearches_unpacked_iff (mc : Option MdbCursor) :
    (∀ search ∈ moveSearches env txn mc, search.Unpacked) ↔
      ∀ mc', mc = some mc' → env.dupSortAt (mdbCursorInit txn mc'.dbi) = true →
        env.readable mc' = none := by
  cases mc with
  | none => simp [moveSearches]
  | some mc =>
    rw [moveSearches]
    cases hread : env.readable mc with
    | some entry =>
      rw [(mdbCursorCurrent_ok_iff mc entry).mpr hread]
      simp [Search.Unpacked, KeyArg.Unpacked, hread]
    | none =>
      rcases hcurrent : env.mdbCursorCurrent mc with rc | entry
      · simp [hread]
      · rw [(mdbCursorCurrent_ok_iff mc entry).mp hcurrent] at hread
        cases hread

/-- The loop searches only with records when no cursor on an index can be read. -/
theorem movesSearches_unpacked_iff (cursors : List ℕ) (mcs : ℕ → Option MdbCursor) :
    (∀ search ∈ movesSearches env place txn cursors mcs, search.Unpacked) ↔
      ∀ pCur ∈ cursors, ∀ mc, mcs pCur = some mc →
        env.dupSortAt (mdbCursorInit txn mc.dbi) = true → env.readable mc = none := by
  induction cursors generalizing mcs with
  | nil => simp [movesSearches]
  | cons pCur rest ih =>
    rw [movesSearches, forall_mem_append, moveSearches_unpacked_iff, ih, forall_mem_cons]
    refine and_congr_right fun hfirst ↦ forall₂_congr fun other _ ↦ ?_
    -- a cursor on the list twice has no position the second time
    by_cases heq : other = pCur
    · subst heq
      refine iff_of_true (fun mc hmc hdup ↦ ?_) hfirst
      rw [update_self] at hmc
      obtain ⟨old, hold, rfl⟩ := map_eq_some_iff.mp hmc
      have hunread : env.readable old = none := hfirst old hold hdup
      have hmoved : movedTo place env txn old = ⟨txn, old.dbi, none⟩ := by
        rw [movedTo, hunread]
        rfl
      rw [hmoved, Env.readable]
      split_ifs <;> rfl
    · rw [update_of_ne heq]

/-- Beginning a transaction searches only with records exactly when it meets its guard. -/
theorem begin_unpacked_iff (p : Btree) (mcs : ℕ → Option MdbCursor) (wrflag : ℕ) :
    (∀ search ∈ beginSearches env place p mcs wrflag, search.Unpacked) ↔
      BeginGuard env p mcs wrflag := by
  unfold beginSearches BeginGuard
  by_cases hup : p.inTrans = .read ∧ wrflag ≠ 0
  · rw [if_pos hup]
    rcases hbegin : env.mdbTxnBegin none false with ⟨rc | txn, env'⟩
    · refine iff_of_true (by simp) ?_
      rintro ⟨-, -, hok, hidle, -⟩
      rw [mdbTxnBegin_write hidle, if_pos hok] at hbegin
      cases hbegin
    · obtain ⟨hidle, rfl, rfl⟩ := mdbTxnBegin_write_ok hbegin
      have hok : env.outcome = .success := by
        by_contra hfail
        rw [mdbTxnBegin_write hidle, if_neg hfail] at hbegin
        cases hbegin
      refine (movesSearches_unpacked_iff place _ p.pCursor mcs).trans ?_
      have hdup : ∀ dbi, env.pushed.dupSortAt (mdbCursorInit env.store.next dbi) =
          ((env.store.durable.db dbi).map Db.dupSort).getD false := by
        intro dbi
        rw [Env.dupSortAt, mdbCursorInit, (seen_next hidle 0).1]
      have hread : ∀ mc, env.pushed.readable mc = none ↔
          (env.currentIsOp = true → env.rowAt mc = none) := by
        intro mc
        rw [Env.readable, rowAt_pushed hidle]
        by_cases hop : env.currentIsOp = true
        · simp [Env.pushed, Env.spend, hop]
        · simp [Env.pushed, Env.spend, hop]
      constructor
      · rintro hall ⟨-, -, -, -, hop⟩ pCur hmem mc hmc hindex
        exact (hread mc).mp (hall pCur hmem mc hmc ((hdup mc.dbi).trans hindex)) hop
      · intro hall pCur hmem mc hmc hindex
        refine (hread mc).mpr fun hop ↦ ?_
        exact hall ⟨hup.1, hup.2, hok, hidle, hop⟩ pCur hmem mc hmc
          ((hdup mc.dbi).symm.trans hindex)
  · rw [if_neg hup]
    exact iff_of_true (by simp) fun hwould ↦ absurd ⟨hwould.1, hwould.2.1⟩ hup

end

/-! ### Runs -/

/-- A call of the Btree interface. An insert leaves its cursor at some position and changes the
current content, a seek and a step leave it at some position, and a delete changes the content. -/
inductive KeyedCall
  | insert (pCur : ℕ) (args : InsertArgs) (pos : Option ℕ) (update : Write)
  | movetoUnpacked (pCur : ℕ) (args : MovetoArgs) (pos : Option ℕ)
  | step (pCur : ℕ) (pos : Option ℕ)
  | delete (update : Write)
  | txn (call : TxnCall)
  | schema (call : SchemaCall)

namespace KeyedCall

/-- The handle after a call. -/
def run (parentOpens : Bool) (h : Handle) : KeyedCall → Handle
  | .insert pCur _ pos update =>
    { h.writes [update] with
      cursor := Function.update h.cursor pCur ((h.cursor pCur).setPos pos) }
  | .movetoUnpacked pCur _ pos =>
    { h with cursor := Function.update h.cursor pCur ((h.cursor pCur).setPos pos) }
  | .step pCur pos =>
    { h with cursor := Function.update h.cursor pCur ((h.cursor pCur).setPos pos) }
  | .delete update => h.writes [update]
  | .txn call => call.run h
  | .schema call => call.run parentOpens h

/-- The searches of a call. -/
def searches (hash : MdbHash) (h : Handle) : KeyedCall → List Search
  | .insert pCur args _ _ =>
    (h.cursor pCur).mc.elim [] fun mc ↦ insertSearches hash h.env mc args
  | .movetoUnpacked pCur args _ =>
    (h.cursor pCur).mc.elim [] fun mc ↦ movetoSearches hash h.env mc args
  | .txn (.beginTrans wrflag) =>
    beginSearches h.env placeBoth h.bt (fun pCur ↦ (h.cursor pCur).mc) wrflag
  | _ => []

/-- Every search of a call in an index gets the record of its key. -/
def SearchesUnpacked (hash : MdbHash) (h : Handle) (call : KeyedCall) : Prop :=
  ∀ search ∈ call.searches hash h, search.Unpacked

/-- When the searches of a call get the record of their key. -/
def Guard (h : Handle) : KeyedCall → Prop
  | .insert pCur args _ _ => InsertGuard h.env (h.cursor pCur).mc args
  | .movetoUnpacked pCur args _ => MovetoGuard h.env (h.cursor pCur).mc args
  | .txn (.beginTrans wrflag) => BeginGuard h.env h.bt (fun pCur ↦ (h.cursor pCur).mc) wrflag
  | _ => True

end KeyedCall

variable {env : Env} {mc : Option MdbCursor} (hash : MdbHash)

theorem insert_unpacked_elim {args : InsertArgs} (hguard : InsertGuard env mc args) :
    ∀ search ∈ mc.elim [] fun mc ↦ insertSearches hash env mc args, search.Unpacked := by
  cases mc with
  | none => simp
  | some mc => exact insert_unpacked hguard

theorem moveto_unpacked_elim {args : MovetoArgs} (hguard : MovetoGuard env mc args) :
    ∀ search ∈ mc.elim [] fun mc ↦ movetoSearches hash env mc args, search.Unpacked := by
  cases mc with
  | none => simp
  | some mc => exact moveto_unpacked_iff.mpr hguard

theorem KeyedCall.Guard.unpacked {h : Handle} {call : KeyedCall} (hguard : call.Guard h) :
    call.SearchesUnpacked hash h := by
  cases call with
  | insert pCur args pos update => exact insert_unpacked_elim hash hguard
  | movetoUnpacked pCur args pos => exact moveto_unpacked_elim hash hguard
  | txn call =>
    cases call with
    | beginTrans wrflag => exact (begin_unpacked_iff _ _ _ _).mpr hguard
    | _ => simp [KeyedCall.SearchesUnpacked, KeyedCall.searches]
  | _ => simp [KeyedCall.SearchesUnpacked, KeyedCall.searches]

namespace NotForking

inductive KeyedCall
  | insert (pCur : ℕ) (args : InsertArgs) (pos : Option ℕ) (mcInit : Bool) (update : Write)
  | movetoUnpacked (pCur : ℕ) (args : MovetoArgs) (pos : Option ℕ) (mcInit : Bool)
  | other (call : Call)

namespace KeyedCall

def run (h : Handle) : KeyedCall → Handle
  | .insert pCur _ pos mcInit update => (Call.operate pCur pos mcInit [update]).run h
  | .movetoUnpacked pCur _ pos mcInit => (Call.operate pCur pos mcInit []).run h
  | .other call => call.run h

/-- The searches of a call. -/
def searches (hash : MdbHash) (h : Handle) : KeyedCall → List Search
  | .insert pCur args _ _ _ =>
    (h.cursor pCur).mc.elim [] fun mc ↦ insertSearches hash h.env mc args
  | .movetoUnpacked pCur args _ _ =>
    (h.cursor pCur).mc.elim [] fun mc ↦ movetoSearches hash h.env mc args
  | .other (.beginTrans wrflag) =>
    beginSearches h.env placeKey h.bt (fun pCur ↦ (h.cursor pCur).mc) wrflag
  | _ => []

/-- Every search of a call in an index gets the record of its key. -/
def SearchesUnpacked (hash : MdbHash) (h : Handle) (call : KeyedCall) : Prop :=
  ∀ search ∈ call.searches hash h, search.Unpacked

/-- When the searches of a call get the record of their key. -/
def Guard (h : Handle) : KeyedCall → Prop
  | .insert pCur args _ _ _ => InsertGuard h.env (h.cursor pCur).mc args
  | .movetoUnpacked pCur args _ _ => MovetoGuard h.env (h.cursor pCur).mc args
  | .other (.beginTrans wrflag) => BeginGuard h.env h.bt (fun pCur ↦ (h.cursor pCur).mc) wrflag
  | _ => True

theorem Guard.unpacked (hash : MdbHash) {h : Handle} {call : KeyedCall} (hguard : call.Guard h) :
    call.SearchesUnpacked hash h := by
  cases call with
  | insert pCur args pos mcInit update => exact insert_unpacked_elim hash hguard
  | movetoUnpacked pCur args pos mcInit => exact moveto_unpacked_elim hash hguard
  | other call =>
    cases call with
    | beginTrans wrflag => exact (begin_unpacked_iff _ _ _ _).mpr hguard
    | _ => simp [SearchesUnpacked, searches]

end KeyedCall

end NotForking

/-- Assumes: runs of the two versions, from any state, all of whose calls meet the guard. Every
search of the runs in an index gets the record of its key. -/
theorem searches_unpacked (hash : MdbHash) :
    (∀ (parentOpens : Bool) (h : Handle) (calls : List KeyedCall),
      Meets (KeyedCall.run parentOpens) KeyedCall.Guard h calls →
        Meets (KeyedCall.run parentOpens) (KeyedCall.SearchesUnpacked hash) h calls) ∧
    (∀ (h : NotForking.Handle) (calls : List NotForking.KeyedCall),
      Meets NotForking.KeyedCall.run NotForking.KeyedCall.Guard h calls →
        Meets NotForking.KeyedCall.run (NotForking.KeyedCall.SearchesUnpacked hash) h calls) :=
  ⟨fun _ _ _ hmeets ↦ hmeets.imp fun _ _ hguard ↦ hguard.unpacked hash,
    fun _ _ hmeets ↦ hmeets.imp fun _ _ hguard ↦ hguard.unpacked hash⟩

/-- The arguments of the insert of the record `(1, 7)`. -/
def oneSevenArgs : InsertArgs :=
  ⟨⟨[(none, false)]⟩, 1, true, insertOneSeven.mem, some 0, insertOneSeven.nKey⟩

/-- The arguments of a seek to the key `(1)`. -/
def oneArgs : MovetoArgs :=
  ⟨⟨[(none, false)]⟩, 1, fun _ ↦ 0, some ⟨[.int 1], false, false, false, 0⟩, 0⟩

/-- A read transaction that is given up for a write transaction, an insert into an index and a seek.
-/
def insertAndSeek : List KeyedCall :=
  [.txn (.beginTrans 0), .schema (.cursor 2 5), .txn (.beginTrans 1),
    .insert 5 oneSevenArgs (some 0) id, .movetoUnpacked 5 oneArgs (some 0)]

/-- The searches of the run get the record of their key. -/
theorem insert_and_seek_unpacked : Meets (KeyedCall.run true) (KeyedCall.SearchesUnpacked .fnv)
      (Handle.opened (Env.created duplicateContent [] false) 1 1) insertAndSeek := by
  refine (searches_unpacked .fnv).1 true _ insertAndSeek
    ⟨fun hup ↦ absurd hup.1 (by decide), trivial, fun hup ↦ absurd hup.2.2.2.2 (by decide),
      fun mc hmc _ ↦ ?_, fun mc hmc _ _ ↦ ?_, trivial⟩
  · cases hmc
    exact ⟨rfl, insertOneSeven, rfl, rfl, rfl, rfl, by decide, by decide⟩
  · cases hmc
    exact ⟨rfl, by decide⟩

/-- The record of a text of 73 bytes, the text `ab` and the number 7. -/
def longRecord : Bytes :=
  [5, 0x81, 0x1f, 17, 1] ++ List.replicate 73 0x41 ++ [0x61, 0x62, 7]

def longArgs : InsertArgs :=
  ⟨⟨[(none, false), (none, false)]⟩, 1, true, ofBytes longRecord, some 0, 81⟩

/-- What the insert makes of the record: the key has the text `ab`, the record behind it `bb`. -/
theorem longRecord_moved : let split := splitRecord .fnv longArgs.pKeyInfo 1 longArgs.mem 0 81
    (keyValues 2 (split.key.bytes split.mem))[1]? = some (.text [0x61, 0x62]) ∧
      (split.aMem.map (Mem.value split.mem))[1]? = some (.text [0x62, 0x62]) := by
  decide +kernel

/-- An insert of a record with a long field searches with a record that is not the one of its key,
whatever LMDB makes of `MDB_CURRENT`. Where it is an operation, the loop that moves a cursor on an
entry of an index searches without a record, in both versions. -/
theorem search_without_record : (¬ Meets (KeyedCall.run true) (KeyedCall.SearchesUnpacked .fnv)
      (Handle.opened (Env.created duplicateContent [] false) 1 1)
      [.txn (.beginTrans 1), .schema (.cursor 2 5), .insert 5 longArgs (some 0) id]) ∧
    (¬ Meets (KeyedCall.run true) (KeyedCall.SearchesUnpacked .fnv)
      (Handle.opened (Env.created duplicateContent [] true) 1 1)
      [.txn (.beginTrans 0), .schema (.cursor 2 5), .step 5 (some 0), .txn (.beginTrans 1)]) ∧
    (¬ Meets NotForking.KeyedCall.run (NotForking.KeyedCall.SearchesUnpacked .fnv)
      (NotForking.Handle.opened (Env.created duplicateContent [] true) 1 1)
      [.other (.beginTrans 0), .other (.cursor (.tab 2) 5), .other (.operate 5 (some 0) true []),
        .other (.beginTrans 1)]) := by
  refine ⟨fun hmeets ↦ ?_, fun hmeets ↦ ?_, fun hmeets ↦ ?_⟩
  · have hsame : KeyArg.Unpacked _ := hmeets.2.2.1 _ (.head _) rfl
    have hsecond := congrArg (fun fields ↦ fields[1]?) hsame
    obtain ⟨hkey, hrecord⟩ := longRecord_moved
    have hbytes := (hkey.symm.trans hsecond).trans hrecord
    cases hbytes
  · exact hmeets.2.2.2.1 _ (.head _) rfl
  · exact hmeets.2.2.2.1 _ (.head _) rfl

end LumoSQL
