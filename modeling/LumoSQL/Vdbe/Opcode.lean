import LumoSQL.Vdbe.Halt

/-!
# The transaction opcodes

`OP_Transaction`, `OP_AutoCommit` and `OP_Savepoint` of `vdbe.c`, and the frame in which a program
runs: the statement is counted in, the opcodes run until one of them fails or returns, and the
statement is halted. `OP_Savepoint` calls `sqlite3BtreeSavepoint` on every slot of `aDb` without
looking whether it holds a Btree; a slot without one is a null pointer, and the run ends there
(`none`).
-/

namespace LumoSQL

open Foundation

/-- How an opcode ends: control goes to the next one, to `vdbe_error_halt` with a code, or to
`vdbe_return`. -/
inductive Next
  | next
  | error (rc : Rc)
  | ret
  deriving DecidableEq, Repr

/-- The result of a statement after an opcode has ended in this way. -/
def Next.into (flow : Next) (p : Vdbe) : Vdbe :=
  match flow with
  | .error rc => { p with rc := rc }
  | _ => p

/-- The connection after a call on the Btree in slot `i` has left the handle `h`. -/
def Sqlite3.setDb (db : Sqlite3) (i : ℕ) (h : Handle) : Sqlite3 :=
  { db with world := db.world.update h, aDb := db.aDb.set i (some h.bt) }

/-- Writes in the current transaction of the Btree in slot `i`. -/
def Sqlite3.writeDb (db : Sqlite3) (i : ℕ) (ws : List Write) : Sqlite3 :=
  match db.aDb[i]? with
  | some (some bt) => db.setDb i ((db.world.handle bt).writes ws)
  | _ => db

/-- The part of `OP_Transaction` that opens a statement transaction on the Btree `bt` in slot
`p1`. -/
def beginStatement (around : Surroundings) (db : Sqlite3) (p : Vdbe) (p1 : ℕ) (bt : Btree) :
    Next × Sqlite3 × Vdbe :=
  let db := if p.iStatement = 0 then { db with nStatement := db.nStatement + 1 } else db
  let p := if p.iStatement = 0 then { p with iStatement := db.nSavepoint + db.nStatement } else p
  let p := { p with nStmtDefCons := db.nDeferredCons }
  if around.vtabSavepointBegin ≠ .ok then (.error around.vtabSavepointBegin, db, p)
  else
    let began := sqlite3BtreeBeginStmt (db.world.handle bt) p.iStatement
    (if began.1 = .ok then .next else .error began.1, db.setDb p1 began.2, p)

def opTransaction (around : Surroundings) (db : Sqlite3) (p : Vdbe) (p1 p2 : ℕ) :
    Next × Sqlite3 × Vdbe :=
  match db.aDb[p1]? with
  | some (some bt) =>
    let began := sqlite3BtreeBeginTrans (db.world.handle bt) p2
    let db := db.setDb p1 began.2
    if began.1 = .busy then (.ret, db, { p with rc := .busy })
    else if began.1 ≠ .ok then (.error began.1, db, p)
    else if p2 ≠ 0 ∧ p.usesStmtJournal ∧ (db.autoCommit = false ∨ 1 < db.activeVdbeCnt) then
      beginStatement around db p p1 began.2.bt
    else (.next, db, p)
  | _ => (.next, db, p)

def opAutoCommit (around : Surroundings) (db : Sqlite3) (p : Vdbe)
    (desiredAutoCommit iRollback : Bool) : Next × Sqlite3 × Vdbe :=
  if (desiredAutoCommit ∧ ¬ db.autoCommit) ∧ ¬ iRollback ∧ 0 < db.writeVdbeCnt then
    (.error .busy, db, p)
  else if desiredAutoCommit ≠ db.autoCommit then
    if iRollback then
      (.ret, sqlite3CloseSavepoints { sqlite3RollbackAll db with autoCommit := true }, p)
    else
      let checked := sqlite3VdbeCheckFk db p true
      if checked.1 ≠ .ok then (.ret, db, checked.2)
      else
        let halted := sqlite3VdbeHalt around { db with autoCommit := desiredAutoCommit } checked.2
        if halted.1 = .busy then
          (.ret, { halted.2.1 with autoCommit := !desiredAutoCommit },
            { halted.2.2 with rc := .busy })
        else (.ret, sqlite3CloseSavepoints halted.2.1, halted.2.2)
  else (.error .error, db, p)

/-- The branch of `OP_Savepoint` that opens a savepoint. -/
def opSavepointBegin (around : Surroundings) (db : Sqlite3) (p : Vdbe) (zName : CString) :
    Next × Sqlite3 × Vdbe :=
  if 0 < db.writeVdbeCnt then (.error .busy, db, p)
  else if around.vtabSavepointBegin ≠ .ok then (.error around.vtabSavepointBegin, db, p)
  else if ¬ around.allocSavepoint then (.next, db, p)
  else
    let counted :=
      if db.autoCommit then { db with autoCommit := false, isTransactionSavepoint := true }
      else { db with nSavepoint := db.nSavepoint + 1 }
    (.next, { counted with pSavepoint := ⟨zName, db.nDeferredCons⟩ :: db.pSavepoint }, p)

/-- The loop of `OP_Savepoint` over `sqlite3BtreeSavepoint`, which dereferences every slot. -/
def savepointDbs (op : SavepointOp) (iSavepoint : ℤ) :
    World → List (Option Btree) → Option (Rc × World × List (Option Btree))
  | world, [] => some (.ok, world, [])
  | _, none :: _ => none
  | world, some bt :: rest =>
    let called := sqlite3BtreeSavepoint (world.handle bt) op iSavepoint
    if called.1 ≠ .ok then some (called.1, world.update called.2, some called.2.bt :: rest)
    else (savepointDbs op iSavepoint (world.update called.2) rest).map fun after ↦
      (after.1, after.2.1, some called.2.bt :: after.2.2)

/-- The end of `OP_Savepoint` on the savepoint at `index` from the innermost: the savepoints inside
it are destroyed, and it too by a release. -/
def closeSavepoint (db : Sqlite3) (op : SavepointOp) (index : ℕ) (pSavepoint : Savepoint)
    (isTransaction : Bool) : Sqlite3 :=
  match op with
  | .release =>
    { db with
      pSavepoint := db.pSavepoint.drop (index + 1)
      nSavepoint := db.nSavepoint - index - if isTransaction then 0 else 1 }
  | .rollback =>
    { db with
      pSavepoint := db.pSavepoint.drop index
      nSavepoint := db.nSavepoint - index
      nDeferredCons := pSavepoint.nDeferredCons }

/-- The branch of `OP_Savepoint` that releases a savepoint or rolls back to it. -/
def opSavepointEnd (around : Surroundings) (db : Sqlite3) (p : Vdbe) (op : SavepointOp)
    (zName : CString) : Option (Next × Sqlite3 × Vdbe) :=
  let named : Savepoint → Bool := fun s ↦ sqlite3StrICmp s.zName.bytes zName.bytes = 0
  match db.pSavepoint.find? named with
  | none => some (.error .error, db, p)
  | some pSavepoint =>
    let index := db.pSavepoint.findIdx named
    if 0 < db.writeVdbeCnt ∧ op = .release then some (.error .busy, db, p)
    else
      let isTransaction : Bool := index + 1 = db.pSavepoint.length ∧ db.isTransactionSavepoint
      if isTransaction ∧ op = .release then
        let checked := sqlite3VdbeCheckFk db p true
        if checked.1 ≠ .ok then some (.ret, db, checked.2)
        else
          let halted := sqlite3VdbeHalt around { db with autoCommit := true } checked.2
          if halted.1 = .busy then
            some (.ret, { halted.2.1 with autoCommit := false }, { halted.2.2 with rc := .busy })
          else
            let db := closeSavepoint { halted.2.1 with isTransactionSavepoint := false } op index
              pSavepoint isTransaction
            some (if halted.2.2.rc = .ok then .next else .error halted.2.2.rc, db, halted.2.2)
      else
        (savepointDbs op (db.nSavepoint - index - 1) db.world db.aDb).map fun ended ↦
          let db := { db with world := ended.2.1, aDb := ended.2.2 }
          if ended.1 ≠ .ok then (.error ended.1, db, p)
          else
            let db := closeSavepoint db op index pSavepoint isTransaction
            if ¬ isTransaction ∧ around.vtabSavepoint op ≠ .ok then
              (.error (around.vtabSavepoint op), db, p)
            else (.next, db, p)

/-- Runs the opcodes of a statement: it is counted in, and halted when they are through. -/
def runProgram (around : Surroundings) (db : Sqlite3) (p : Vdbe)
    (body : Sqlite3 → Vdbe → Option (Next × Sqlite3 × Vdbe)) : Option (Rc × Sqlite3 × Vdbe) :=
  (body (db.countIn p.readOnly) { p with started := true }).map fun ended ↦
    sqlite3VdbeHalt around ended.2.1 (ended.1.into ended.2.2)

def prepared (readOnly usesStmtJournal : Bool) : Vdbe :=
  { executing readOnly usesStmtJournal 0 .ok with started := false }

/-! ### Rules for whole statements -/

section

variable (around : Surroundings) (db : Sqlite3) {db₁ db₂ : Sqlite3}
  {readOnly usesStmtJournal : Bool}
  (body : Sqlite3 → Vdbe → Option (Next × Sqlite3 × Vdbe)) {rc : Rc}

def afterProgram (db : Sqlite3) (readOnly usesStmtJournal : Bool)
    (body : Sqlite3 → Vdbe → Option (Next × Sqlite3 × Vdbe)) : Option Sqlite3 :=
  (runProgram around db (prepared readOnly usesStmtJournal) body).map fun ended ↦ ended.2.1

variable {flow : Next} {p : Vdbe}

/-- The opcodes of a statement run, and it is halted. -/
theorem afterProgram_eq
    (hbody : body (db.countIn readOnly) (executing readOnly usesStmtJournal 0 .ok) =
      some (flow, db₁, p)) : afterProgram around db readOnly usesStmtJournal body =
      some (sqlite3VdbeHalt around db₁ (flow.into p)).2.1 := by
  have hstart : { prepared readOnly usesStmtJournal with started := true } =
      executing readOnly usesStmtJournal 0 .ok := rfl
  have hcount : (prepared readOnly usesStmtJournal).readOnly = readOnly := rfl
  unfold afterProgram runProgram
  rw [hstart, hcount, hbody]
  rfl

/-- In an explicit transaction a statement that ends without an error, and without a statement
transaction, leaves what its opcodes left. -/
theorem afterProgram_next
    (hbody : body (db.countIn readOnly) (executing readOnly usesStmtJournal 0 .ok) =
      some (.next, db₁, executing readOnly usesStmtJournal 0 .ok))
    (hauto : db₁.autoCommit = false) (hmalloc : db₁.mallocFailed = false) :
    afterProgram around db readOnly usesStmtJournal body = some (db₁.countOut readOnly) := by
  have hhalt := halt_releases around db₁ readOnly usesStmtJournal 0 hauto hmalloc
  rw [haltClose_none] at hhalt
  rw [afterProgram_eq around db body hbody]
  exact congrArg (fun halted ↦ some halted.2.1) hhalt

section

variable
  (hbody : body (db.countIn readOnly) (executing readOnly usesStmtJournal 0 .ok) =
    some (.error rc, db₁, executing readOnly usesStmtJournal 0 .ok))

include hbody

/-- In an explicit transaction a statement that ends with an ordinary error leaves what its opcodes
left. -/
theorem afterProgram_error (hauto : db₁.autoCommit = false) (hmalloc : db₁.mallocFailed = false)
    (herror : rc ≠ .ok) (hordinary : isSpecialError rc = false) :
    afterProgram around db readOnly usesStmtJournal body = some (db₁.countOut readOnly) := by
  rw [afterProgram_eq around db body hbody]
  exact congrArg (fun halted ↦ some halted.2.1)
    (halt_rolls_back around db₁ readOnly usesStmtJournal hauto hmalloc herror hordinary)

/-- In autocommit mode a statement that ends with an ordinary error rolls everything back. -/
theorem afterProgram_auto_error (hauto : db₁.autoCommit = true) (hmalloc : db₁.mallocFailed = false)
    (hsync : around.vtabInSync = false) (hcount : db₁.writeVdbeCnt = if readOnly then 0 else 1)
    (herror : rc ≠ .ok) (hordinary : isSpecialError rc = false) :
    afterProgram around db readOnly usesStmtJournal body =
      some ({ sqlite3RollbackAll db₁ with nStatement := 0 }.countOut readOnly) := by
  rw [afterProgram_eq around db body hbody]
  exact congrArg (fun halted ↦ some halted.2.1)
    (halt_rolls_all_back around db₁ readOnly usesStmtJournal 0 hauto hmalloc hsync hcount herror
      hordinary)

end

/-- In autocommit mode a statement that ends without an error commits. -/
theorem afterProgram_commits (hflow : ∀ rc, flow ≠ .error rc)
    (hbody : body (db.countIn readOnly) (executing readOnly usesStmtJournal 0 .ok) =
      some (flow, db₁, executing readOnly usesStmtJournal 0 .ok)) (hauto : db₁.autoCommit = true)
    (hmalloc : db₁.mallocFailed = false) (hsync : around.vtabInSync = false)
    (hcount : db₁.writeVdbeCnt = if readOnly then 0 else 1) (hcons : db₁.nDeferredCons = 0)
    (hcommit : vdbeCommit around.toOutside db₁ = (.ok, db₂)) :
    afterProgram around db readOnly usesStmtJournal body =
      some ({ db₂ with nDeferredCons := 0, nStatement := 0 }.countOut readOnly) := by
  have hhalt := congrArg (fun halted ↦ some halted.2.1)
    (halt_commits around db₁ readOnly usesStmtJournal 0 hauto hmalloc hsync hcount hcons hcommit)
  rw [afterProgram_eq around db body hbody]
  cases flow with
  | error rc => exact absurd rfl (hflow rc)
  | next | ret => exact hhalt

/-- A statement that an opcode has halted leaves what that opcode left. -/
theorem afterProgram_halted (hflow : ∀ rc, flow ≠ .error rc)
    (hbody : body (db.countIn readOnly) (executing readOnly usesStmtJournal 0 .ok) =
      some (flow, db₁, p)) (hhalted : p.running = false) (hcursors : p.apCsr = [])
    (hmalloc : db₁.mallocFailed = false) :
    afterProgram around db readOnly usesStmtJournal body = some db₁ := by
  have hhalt := congrArg (fun halted ↦ some halted.2.1)
    (halt_halted around db₁ hhalted hcursors hmalloc)
  rw [afterProgram_eq around db body hbody]
  cases flow with
  | error rc => exact absurd rfl (hflow rc)
  | next | ret => exact hhalt

/-- Turning autocommit mode on or off halts the statement and closes the savepoints. -/
theorem opAutoCommit_turns {p p' : Vdbe} (desired : Bool) (hturn : desired ≠ db.autoCommit)
    (hcount : db.writeVdbeCnt = 0) (hcons : db.nDeferredCons = 0)
    (hhalt : sqlite3VdbeHalt around { db with autoCommit := desired } p = (.ok, db₁, p')) :
    opAutoCommit around db p desired false = (.ret, sqlite3CloseSavepoints db₁, p') := by
  have hcheck : sqlite3VdbeCheckFk db p true = (.ok, p) := by
    simp [sqlite3VdbeCheckFk, hcons]
  have hquiet : ¬ ((desired = true ∧ ¬ db.autoCommit = true) ∧ ¬ false = true ∧
      0 < db.writeVdbeCnt) := by
    rw [hcount]
    exact fun hbusy ↦ absurd hbusy.2.2 (Nat.lt_irrefl 0)
  rw [opAutoCommit, if_neg hquiet, if_pos hturn, if_neg Bool.false_ne_true]
  simp [hcheck, hhalt]

/-- Asking for the mode the connection is in is an error. -/
theorem opAutoCommit_refuses {desired rollback : Bool} (hsame : desired = db.autoCommit) :
    opAutoCommit around db p desired rollback = (.error .error, db, p) := by
  have hstay : ¬ ((desired = true ∧ ¬ db.autoCommit = true) ∧ ¬ rollback = true ∧
      0 < db.writeVdbeCnt) := by
    rw [hsame]
    exact fun hturn ↦ hturn.1.2 hturn.1.1
  rw [opAutoCommit, if_neg hstay, if_neg (not_not.mpr hsame)]

/-- Releasing the savepoint that opened the transaction halts the statement in autocommit mode. -/
theorem opSavepointEnd_commits {p p' : Vdbe} {zName : CString} {pSavepoint : Savepoint} {index : ℕ}
    (hfind : db.pSavepoint.find? (fun s ↦ sqlite3StrICmp s.zName.bytes zName.bytes = 0) =
      some pSavepoint)
    (hindex : db.pSavepoint.findIdx (fun s ↦ sqlite3StrICmp s.zName.bytes zName.bytes = 0) = index)
    (hlast : index + 1 = db.pSavepoint.length) (hopener : db.isTransactionSavepoint = true)
    (hcount : db.writeVdbeCnt = 0) (hcons : db.nDeferredCons = 0)
    (hhalt : sqlite3VdbeHalt around { db with autoCommit := true } p = (.ok, db₁, p'))
    (hok : p'.rc = .ok) :
    opSavepointEnd around db p .release zName = some (.next,
      closeSavepoint { db₁ with isTransactionSavepoint := false } .release index pSavepoint true,
      p') := by
  have hcheck : sqlite3VdbeCheckFk db p true = (.ok, p) := by
    simp [sqlite3VdbeCheckFk, hcons]
  have hquiet : ¬ 0 < db.writeVdbeCnt := by
    rw [hcount]
    exact Nat.lt_irrefl 0
  have houtermost : decide (index + 1 = db.pSavepoint.length ∧ db.isTransactionSavepoint = true) =
      true := decide_eq_true ⟨hlast, hopener⟩
  simp [opSavepointEnd, hfind, hindex, hquiet, houtermost, hcheck, hhalt, hok]

end

end LumoSQL
