import LumoSQL.Btree.Cursor

/-!
# Cursors of the not-forking version

The version of `btree.c` under `not-forking` does not keep the LMDB cursor inside its own one: `mc`
points to a cursor that LMDB has allocated, and `mc_init` stands for the flag of LMDB that the other
version looks at. This module has the functions that are different: moving the cursors when a read
transaction is given up for a write transaction, clearing, closing and zeroing a cursor, and phase
one of a commit. `sqlite3BtreeBeginStmt` and `sqlite3BtreeSavepoint` are the same in both versions
and touch no cursor (`Handle.onBtree`).

`mdb_cursor_open` is documented to fail on invalid parameters only, so it succeeds here.
-/

namespace LumoSQL

open Foundation

namespace Env

def rowAt (env : Env) (mc : MdbCursor) : Option (Bytes × Bytes) :=
  mc.pos.bind fun i ↦ (env.cursorEntries mc)[i]?

def dupSortAt (env : Env) (mc : MdbCursor) : Bool :=
  (((env.seen mc.txn).db mc.dbi).map Db.dupSort).getD false

/-- `mdb_cursor_get` with `MDB_SET`: the first entry of the key; a cursor that does not find it
stays as it is. -/
def mdbCursorSet (env : Env) (mc : MdbCursor) (key : Bytes) : MdbCursor :=
  match (env.cursorEntries mc).findIdx? fun entry ↦ entry.1 = key with
  | some i => { mc with pos := some i }
  | none => mc

/-- The code of `EINVAL`. -/
def einval : MdbRc := .other 22

/-- `mdb_cursor_count`, which is for sorted duplicates only. -/
def mdbCursorCount (env : Env) (mc : Option MdbCursor) : MdbRc :=
  match mc with
  | none => einval
  | some mc =>
    if env.dupSortAt mc then if mc.pos = none then einval else .success
    else .incompatible

end Env

namespace NotForking

/-- `struct BtCursor`. -/
structure BtCursor where
  pBtree : Option ℕ
  mc : Option MdbCursor
  mcInit : Bool
  deriving DecidableEq, Repr

/-- What a call on a Btree can touch: its environment, itself and the memory of cursors. -/
structure Handle where
  env : Env
  bt : Btree
  cursor : ℕ → BtCursor

/-- The handle `sqlite3BtreeOpen` returns. -/
def Handle.opened (env : Env) (id pBt : ℕ) : Handle :=
  ⟨env, ⟨id, pBt, none, none, .none, []⟩, fun _ ↦ ⟨none, none, false⟩⟩

/-- A function that both versions have and that touches no cursor. -/
def Handle.onBtree (h : Handle) (f : LumoSQL.Handle → Rc × LumoSQL.Handle) : Rc × Handle :=
  let result := f ⟨h.env, h.bt, fun _ ↦ ⟨none, none⟩⟩
  (result.1, { h with env := result.2.env, bt := result.2.bt })

def mdbCursorInitialised (env : Env) (pCur : BtCursor) : Bool :=
  pCur.mcInit && env.mdbCursorCount pCur.mc ≠ Env.einval

/-- `sqlite3BtreeCursorHasMoved`: the value of `*pHasMoved`. -/
def sqlite3BtreeCursorHasMoved (env : Env) (pCur : BtCursor) : Bool :=
  !mdbCursorInitialised env pCur

def sqlite3BtreeCursorZero : BtCursor := ⟨none, none, false⟩

/-- `sqlite3BtreeCursor` on the database `name`; `mc_init` is left as it is. Without a transaction
it dereferences a null pointer. -/
def sqlite3BtreeCursor (h : Handle) (name : DbName) (pCur : ℕ) : Option (Rc × Handle) :=
  h.bt.currTxn.map fun txn ↦
    if ((h.env.seen txn).db name).isNone then (errmap .notFound, h)
    else
      let opened : BtCursor :=
        ⟨some h.bt.id, some (mdbCursorInit txn name), (h.cursor pCur).mcInit⟩
      (.ok, { h with
        bt := { h.bt with pCursor := pCur :: h.bt.pCursor }
        cursor := Function.update h.cursor pCur opened })

/-- `sqlite3BtreeClearCursor`: the cursor is taken to the first entry. -/
def sqlite3BtreeClearCursor (env : Env) (pCur : BtCursor) : BtCursor :=
  { pCur with
    mc := pCur.mc.map fun mc ↦ (env.mdbCursorFirst mc).2
    mcInit := true }

def sqlite3BtreeCloseCursor (h : Handle) (pCur : ℕ) : Handle :=
  { h with
    bt := if (h.cursor pCur).pBtree.isSome then
        { h.bt with pCursor := h.bt.pCursor.erase pCur }
      else h.bt
    cursor := Function.update h.cursor pCur (sqlite3BtreeClearCursor h.env (h.cursor pCur)) }

/-- What the loop of `sqlite3BtreeBeginTrans` does with one cursor: a new LMDB cursor on the write
transaction, taken to the key of the old one where that can be read. -/
def moveCursor (env : Env) (txn : ℕ) (pCur : BtCursor) : BtCursor :=
  { pCur with mc := pCur.mc.map fun old ↦
      match env.mdbCursorCurrent old with
      | .ok entry => env.mdbCursorSet (mdbCursorInit txn old.dbi) entry.1
      | .error _ => mdbCursorInit txn old.dbi }

/-- The loop of `sqlite3BtreeBeginTrans`. -/
def moveCursors (env : Env) (txn : ℕ) (cursors : List ℕ) (cursor : ℕ → BtCursor) : ℕ → BtCursor :=
  cursors.foldl (fun cursor pCur ↦
    Function.update cursor pCur (moveCursor env txn (cursor pCur))) cursor

/-- The part of `sqlite3BtreeBeginTrans` after a write transaction has begun. -/
def beganWrite (h : Handle) (env : Env) (txn : ℕ) : Handle :=
  match h.bt.inTrans, h.bt.mainTxn with
  | .read, some rtxn =>
    { env := env.mdbTxnAbort rtxn
      bt := h.bt.began .write txn
      cursor := moveCursors env txn h.bt.pCursor h.cursor }
  | _, _ => { h with env := env, bt := h.bt.began .write txn }

def sqlite3BtreeBeginTrans (h : Handle) (wrflag : ℕ) : Rc × Handle :=
  if h.bt.inTrans = .write ∨ (h.bt.inTrans = .read ∧ wrflag = 0) then (.ok, h)
  else
    match h.env.mdbTxnBegin none (wrflag = 0) with
    | (.error rc, env) => (errmap rc, { h with env := env })
    | (.ok txn, env) =>
      if wrflag = 0 then (.ok, { h with env := env, bt := h.bt.began .read txn })
      else (.ok, beganWrite h env txn)

def sqlite3BtreeBeginStmt (h : Handle) (iStatement : ℤ) : Rc × Handle :=
  h.onBtree fun h ↦ LumoSQL.sqlite3BtreeBeginStmt h iStatement

def sqlite3BtreeSavepoint (h : Handle) (op : SavepointOp) (iSavepoint : ℤ) : Rc × Handle :=
  h.onBtree fun h ↦ LumoSQL.sqlite3BtreeSavepoint h op iSavepoint

def sqlite3BtreeRollback (h : Handle) : Rc × Handle := sqlite3BtreeSavepoint h .rollback (-1)

/-- The loop of `sqlite3BtreeCommitPhaseOne` that closes and zeroes every cursor of the handle. -/
def closeCursors : List ℕ → Handle → Handle
  | [], h => h
  | pCur :: rest, h =>
    let closed := sqlite3BtreeCloseCursor h pCur
    closeCursors rest
      { closed with cursor := Function.update closed.cursor pCur sqlite3BtreeCursorZero }

def sqlite3BtreeCommitPhaseOne (h : Handle) : Rc × Handle :=
  match h.bt.mainTxn with
  | none => (.ok, closeCursors h.bt.pCursor h)
  | some t =>
    let committed := h.env.mdbTxnCommit t
    (errmap committed.1, closeCursors h.bt.pCursor { h with
      env := committed.2
      bt := h.bt.ended })

end NotForking

end LumoSQL
