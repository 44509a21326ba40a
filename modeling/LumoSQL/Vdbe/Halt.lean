import LumoSQL.Vdbe.CloseStatement
import LumoSQL.Vdbe.Commit

/-!
# Halting a statement

`sqlite3VdbeHalt` decides what becomes of a statement's transaction. In autocommit mode, when no
other statement is writing, it commits or rolls back everything; otherwise it closes the statement
transaction, and some errors roll everything back. This module is that function with the functions
it calls, and the rules for the halts that runs of whole statements meet: in autocommit mode
(`halt_commits`), in an explicit transaction (`halt_releases`, `halt_rolls_back`), and of a
statement that has halted already (`halt_halted`).
-/

namespace LumoSQL

open Foundation

/-- What a statement asks of code outside the backend, besides what `vdbeCommit` asks. -/
structure Surroundings extends Outside where
  vtabInSync : Bool
  vtabSavepoint : SavepointOp → Rc
  vtabSavepointBegin : Rc
  allocSavepoint : Bool

/-- The primary code of a result code, `rc & 0xff`. -/
def Rc.primary : Rc → Rc
  | .constraintForeignkey => .constraint
  | .constraintCommithook => .constraint
  | rc => rc

/-- The errors after which a statement cannot just be closed. -/
def isSpecialError (rc : Rc) : Bool :=
  rc.primary = .nomem ∨ rc.primary = .ioerr ∨ rc.primary = .interrupt ∨ rc.primary = .full

def sqlite3RollbackAll (db : Sqlite3) : Sqlite3 :=
  let rolled := forEachDb (fun rc h ↦ (rc, (sqlite3BtreeRollback h).2)) .ok db.world db.aDb
  { db with world := rolled.2.1, aDb := rolled.2.2, nDeferredCons := 0 }

def sqlite3CloseSavepoints (db : Sqlite3) : Sqlite3 :=
  { db with pSavepoint := [], nSavepoint := 0, nStatement := 0, isTransactionSavepoint := false }

/-- A rollback of everything that ends an explicit transaction too. -/
def abandonTransaction (db : Sqlite3) : Sqlite3 :=
  { sqlite3CloseSavepoints (sqlite3RollbackAll db) with autoCommit := true }

def sqlite3VdbeCheckFk (db : Sqlite3) (p : Vdbe) (deferred : Bool) : Rc × Vdbe :=
  if (deferred ∧ 0 < db.nDeferredCons) ∨ (¬ deferred ∧ 0 < p.nFkConstraint) then
    (.error, { p with rc := .constraintForeignkey, errorAction := .abort })
  else (.ok, p)

/-- `closeAllCursors`: each cursor is closed on the Btree it is open on. -/
def closeAllCursors (db : Sqlite3) (cursors : List ℕ) : Sqlite3 :=
  cursors.foldl (fun db pCur ↦
    let closed := forEachDb (fun rc h ↦
      (rc, if (h.cursor pCur).pBtree = some h.bt.id then sqlite3BtreeCloseCursor h pCur else h))
      .ok db.world db.aDb
    { db with world := closed.2.1, aDb := closed.2.2 }) db

/-- The first part of `sqlite3VdbeHalt`: after a special error the statement has to be rolled back,
or the whole transaction. -/
def haltSpecial (db : Sqlite3) (p : Vdbe) : Sqlite3 × Option SavepointOp :=
  if isSpecialError p.rc ∧ (¬ p.readOnly ∨ p.rc.primary ≠ .interrupt) then
    if (p.rc.primary = .nomem ∨ p.rc.primary = .full) ∧ p.usesStmtJournal then (db, some .rollback)
    else (abandonTransaction db, none)
  else (db, none)

/-- The condition under which `sqlite3VdbeHalt` ends the transaction: autocommit mode, and no other
statement is writing. -/
def haltEndsTransaction (around : Surroundings) (db : Sqlite3) (p : Vdbe) : Prop :=
  ¬ around.vtabInSync ∧ db.autoCommit ∧ db.writeVdbeCnt = if p.readOnly then 0 else 1

instance (around : Surroundings) (db : Sqlite3) (p : Vdbe) :
    Decidable (haltEndsTransaction around db p) :=
  inferInstanceAs (Decidable (_ ∧ _))

/-- The part of `sqlite3VdbeHalt` that ends the transaction. An error of its own is a return without
halting. -/
def haltTransaction (around : Surroundings) (db : Sqlite3) (p : Vdbe) :
    Except (Rc × Sqlite3 × Vdbe) (Sqlite3 × Vdbe) :=
  if p.rc = .ok ∨ (p.errorAction = .fail ∧ ¬ isSpecialError p.rc) then
    let checked := sqlite3VdbeCheckFk db p true
    if checked.1 ≠ .ok ∧ p.readOnly then .error (.error, db, checked.2)
    else
      let committed :=
        if checked.1 ≠ .ok then (Rc.constraintForeignkey, db) else vdbeCommit around.toOutside db
      if committed.1 = .busy ∧ p.readOnly then .error (.busy, committed.2, checked.2)
      else if committed.1 ≠ .ok then
        .ok ({ sqlite3RollbackAll committed.2 with nStatement := 0 },
          { checked.2 with rc := committed.1 })
      else .ok ({ committed.2 with nDeferredCons := 0, nStatement := 0 }, checked.2)
  else .ok ({ sqlite3RollbackAll db with nStatement := 0 }, p)

/-- The part of `sqlite3VdbeHalt` for a statement inside a transaction: what is to become of the
statement transaction. -/
def haltStatement (db : Sqlite3) (p : Vdbe) (special : Option SavepointOp) :
    Sqlite3 × Option SavepointOp :=
  match special with
  | some op => (db, some op)
  | none =>
    if p.rc = .ok ∨ p.errorAction = .fail then (db, some .release)
    else if p.errorAction = .abort then (db, some .rollback)
    else (abandonTransaction db, none)

/-- The part of `sqlite3VdbeHalt` that closes the statement transaction. -/
def haltClose (around : Surroundings) (db : Sqlite3) (p : Vdbe) (op : Option SavepointOp) :
    Sqlite3 × Vdbe :=
  match op with
  | none => (db, p)
  | some eOp =>
    let closed := sqlite3VdbeCloseStatement around.vtabSavepoint db p eOp
    if closed.1 = .ok then closed.2
    else (abandonTransaction closed.2.1,
      if closed.2.2.rc = .ok ∨ closed.2.2.rc.primary = .constraint then
        { closed.2.2 with rc := closed.1 }
      else closed.2.2)

/-- The end of `sqlite3VdbeHalt`: the statement is counted out and its result reported. -/
def haltDone (db : Sqlite3) (p : Vdbe) : Rc × Sqlite3 × Vdbe :=
  let db := if p.started then db.countOut p.readOnly else db
  let p := { p with running := false, rc := if db.mallocFailed then .nomem else p.rc }
  (if p.rc = .busy then .busy else .ok, db, p)

/-- The part of `sqlite3VdbeHalt` after the statement's cursors have been closed. -/
def haltClosed (around : Surroundings) (db : Sqlite3) (p : Vdbe) : Rc × Sqlite3 × Vdbe :=
  if ¬ p.running then (.ok, db, p)
  else if ¬ p.started then haltDone db p
  else
    let special := haltSpecial db p
    let db := special.1
    let p := if p.rc = .ok then (sqlite3VdbeCheckFk db p false).2 else p
    if haltEndsTransaction around db p then
      match haltTransaction around db p with
      | .error result => result
      | .ok (db, p) =>
        let closed := haltClose around db p special.2
        haltDone closed.1 closed.2
    else
      let decided := haltStatement db p special.2
      let closed := haltClose around decided.1 p decided.2
      haltDone closed.1 closed.2

def sqlite3VdbeHalt (around : Surroundings) (db : Sqlite3) (p : Vdbe) : Rc × Sqlite3 × Vdbe :=
  haltClosed around (closeAllCursors db p.apCsr)
    { p with rc := if db.mallocFailed then .nomem else p.rc, apCsr := [] }

/-- A statement in the middle of its run: `rc` is its result so far, and `iStatement` the number of
its statement transaction, zero when it has none. -/
def executing (readOnly usesStmtJournal : Bool) (iStatement : ℕ) (rc : Rc) : Vdbe where
  rc := rc
  errorAction := .abort
  readOnly := readOnly
  usesStmtJournal := usesStmtJournal
  iStatement := iStatement
  nStmtDefCons := 0
  nFkConstraint := 0
  apCsr := []
  started := true
  running := true

/-! ### Rules -/

section

variable (around : Surroundings) (db : Sqlite3) (readOnly journal : Bool)
  (stmt : ℕ) {rc : Rc}

theorem halt_halted {p : Vdbe} (hhalted : p.running = false) (hcursors : p.apCsr = [])
    (hmalloc : db.mallocFailed = false) : sqlite3VdbeHalt around db p = (.ok, db, p) := by
  cases p
  simp_all [sqlite3VdbeHalt, haltClosed, closeAllCursors]

/-- In an explicit transaction a statement without an error releases its statement transaction. -/
theorem halt_releases (hauto : db.autoCommit = false) (hmalloc : db.mallocFailed = false) :
    sqlite3VdbeHalt around db (executing readOnly journal stmt .ok) =
      let closed := haltClose around db (executing readOnly journal stmt .ok)
        (some .release)
      haltDone closed.1 closed.2 := by
  simp [sqlite3VdbeHalt, haltClosed, executing, closeAllCursors, hmalloc, haltSpecial,
    isSpecialError,
    Rc.primary, sqlite3VdbeCheckFk, haltEndsTransaction, hauto, haltStatement]

/-- A statement without a statement transaction has nothing to close. -/
theorem haltClose_none (rc : Rc) (op : SavepointOp) :
    haltClose around db (executing readOnly journal 0 rc) (some op) =
      (db, executing readOnly journal 0 rc) := by
  simp [haltClose, sqlite3VdbeCloseStatement, executing]

/-- In an explicit transaction an ordinary error of a statement without a statement transaction
changes nothing. -/
theorem halt_rolls_back (hauto : db.autoCommit = false) (hmalloc : db.mallocFailed = false)
    (herror : rc ≠ .ok) (hordinary : isSpecialError rc = false) :
    sqlite3VdbeHalt around db (executing readOnly journal 0 rc) =
      haltDone db (executing readOnly journal 0 rc) := by
  have hspecial : haltSpecial db (executing readOnly journal 0 rc) = (db, none) := by
    simp [haltSpecial, executing, hordinary]
  have hclose := haltClose_none around db readOnly journal rc .rollback
  simp only [executing] at hspecial hclose
  simp [sqlite3VdbeHalt, haltClosed, executing, closeAllCursors, hmalloc, hspecial, herror,
    haltEndsTransaction, hauto, haltStatement, hclose]

theorem haltDone_ok (hmalloc : db.mallocFailed = false) :
    haltDone db (executing readOnly journal stmt .ok) = (.ok, db.countOut readOnly,
      { executing readOnly journal stmt .ok with running := false }) := by
  have hkeep : (db.countOut readOnly).mallocFailed = false := hmalloc
  simp [haltDone, executing, hkeep]

section

variable (hauto : db.autoCommit = true) (hmalloc : db.mallocFailed = false)
  (hsync : around.vtabInSync = false) (hcount : db.writeVdbeCnt = if readOnly then 0 else 1)

include hauto hmalloc hsync hcount

/-- In autocommit mode a statement without an error commits, when no other statement is writing and
no foreign key is violated. -/
theorem halt_commits {db' : Sqlite3} (hcons : db.nDeferredCons = 0)
    (hcommit : vdbeCommit around.toOutside db = (.ok, db')) :
    sqlite3VdbeHalt around db (executing readOnly journal stmt .ok) =
      haltDone { db' with nDeferredCons := 0, nStatement := 0 }
        (executing readOnly journal stmt .ok) := by
  simp [sqlite3VdbeHalt, haltClosed, executing, closeAllCursors, hmalloc, haltSpecial,
    isSpecialError,
    Rc.primary, sqlite3VdbeCheckFk, haltEndsTransaction, hauto, hsync, hcount, haltTransaction,
    hcons, hcommit, haltClose]

/-- In autocommit mode an ordinary error rolls everything back. -/
theorem halt_rolls_all_back (herror : rc ≠ .ok) (hordinary : isSpecialError rc = false) :
    sqlite3VdbeHalt around db (executing readOnly journal stmt rc) =
      haltDone { sqlite3RollbackAll db with nStatement := 0 }
        (executing readOnly journal stmt rc) := by
  have hspecial : haltSpecial db (executing readOnly journal stmt rc) =
    (db, none) := by
    simp [haltSpecial, executing, hordinary]
  simp only [executing] at hspecial
  simp [sqlite3VdbeHalt, haltClosed, executing, closeAllCursors, hmalloc, hspecial, herror,
    haltEndsTransaction, hauto, hsync, hcount, haltTransaction, haltClose]

end

end

end LumoSQL
