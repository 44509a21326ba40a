import LumoSQL.Btree.Cursor
import LumoSQL.Vdbe.Savepoints

/-!
# A scan beside another statement

Two statements of one connection take turns. The second is a scan: `sqlite3BtreeFirst`, then
`sqlite3BtreeNext` until it reports the end. The first may begin a transaction, open cursors of its
own, write to other tables than the scanned one, and halt.

Three things the first statement does reach the scan's cursor. When it halts in autocommit mode the
commit zeroes every cursor of the Btree, and a zeroed cursor reports the end of its table. When it
begins to write, the scan's cursor is moved to the write transaction and may lose its row. And while
it has a statement transaction open, calls on the transaction around it are refused, which
`sqlite3BtreeNext` takes for a step to another row. `ScanGuard` excludes each of them where it does
harm; in a run inside the guard the scan returns the rows of its table in order and then ends
(`scan_runs_complete`). `scan_truncated` is a scan that loses its last row because the other
statement halts.
-/

namespace LumoSQL

open Foundation List Option Function

/-! ### The two statements -/

/-- A write that does not touch the table `name`. -/
structure SparingWrite (name : DbName) where
  run : Write
  spares : ∀ content, (run content).db name = content.db name

/-- A scan and another statement on one connection: the cursor of the scan and the environment it
is on, the rows it has returned, how often it has been asked for a row, and whether it has ended. -/
structure TwoStatements where
  db : Sqlite3
  first : Vdbe
  pCur : ℕ
  pBt : ℕ
  returned : List (Bytes × Bytes)
  steps : ℕ
  ended : Bool

/-- The steps the statements can take. The cursors of the first statement lie elsewhere in memory
than that of the scan. -/
inductive ScanEvent (name : DbName)
  | transaction (wrflag : ℕ)
  | openCursor (table : DbName) (place : ℕ)
  | write (w : SparingWrite name)
  | halt
  | next

def ScanEvent.isNext {name : DbName} : ScanEvent name → Bool
  | .next => true
  | _ => false

namespace TwoStatements

def cursor (s : TwoStatements) : BtCursor := s.db.world.cursor s.pCur

def env (s : TwoStatements) : Env := s.db.world.env s.pBt

def setCursor (s : TwoStatements) (pCur : BtCursor) : Sqlite3 :=
  { s.db with world := { s.db.world with
      cursor := Function.update s.db.world.cursor s.pCur pCur } }

/-- A cursor of the first statement is opened on the main database. -/
def openFirst (s : TwoStatements) (table : DbName) (pCur : ℕ) : TwoStatements :=
  match s.db.aDb[0]? with
  | some (some m) =>
    match sqlite3BtreeCursor (s.db.world.handle m) table pCur with
    | some (.ok, h) =>
      { s with
        db := s.db.setDb 0 h
        first := { s.first with apCsr := pCur :: s.first.apCsr } }
    | _ => s
  | _ => s

/-- `OP_Next` of the scan. -/
def scanNext (s : TwoStatements) : TwoStatements :=
  let moved := sqlite3BtreeNext s.env s.cursor
  { s with
    db := s.setCursor moved.2
    returned := s.returned ++ if moved.1 then [] else (moved.2.row s.env).toList
    steps := s.steps + 1
    ended := moved.1 }

/-- One step. A statement that has halted takes no more steps, and a scan that has ended returns
nothing more. -/
def step {name : DbName} (around : Surroundings) (s : TwoStatements) :
    ScanEvent name → TwoStatements
  | .transaction wrflag =>
    if s.first.running then
      let began := opTransaction around s.db s.first 0 wrflag
      { s with db := began.2.1, first := began.1.into began.2.2 }
    else s
  | .openCursor table place => if s.first.running then s.openFirst table (s.pCur + 1 + place) else s
  | .write w => if s.first.running then { s with db := s.db.writeDb 0 [w.run] } else s
  | .halt =>
    if s.first.running then
      let halted := sqlite3VdbeHalt around s.db s.first
      { s with db := halted.2.1, first := halted.2.2 }
    else s
  | .next => if s.ended then { s with steps := s.steps + 1 } else s.scanNext

end TwoStatements

/-- The first steps of the scan on the main database, `OP_OpenRead` and `OP_Rewind`. -/
def startScan (db : Sqlite3) (first : Vdbe) (name : DbName) (pCur : ℕ) : Option TwoStatements :=
  match db.aDb[0]? with
  | some (some m) =>
    match sqlite3BtreeCursor (db.world.handle m) name pCur with
    | some (.ok, h) =>
      (sqlite3BtreeFirst h.env (h.cursor pCur)).map fun found ↦
        { db := db.setDb 0 { h with cursor := Function.update h.cursor pCur found.2 }
          first := first
          pCur := pCur
          pBt := m.pBt
          returned := if found.1 then [] else (found.2.row h.env).toList
          steps := 1
          ended := found.1 }
    | _ => none
  | _ => none

def TwoStatements.rowsLeft (s : TwoStatements) : Bool :=
  match s.cursor.mc with
  | some mc => mc.pos.any fun i ↦ i + 1 < (s.env.cursorEntries mc).length
  | none => false

/-- The steps that leave a scan alone that has not ended: an upgrade to a write transaction where
`MDB_CURRENT` is an operation, the halt of the first statement when no row is left or when it ends
no transaction, and a step of the scan while no transaction is nested in the one of its cursor. -/
def ScanGuard {name : DbName} (around : Surroundings) (s : TwoStatements) : ScanEvent name → Prop
  | .transaction wrflag => s.ended = false → wrflag ≠ 0 →
      (∃ m, s.db.aDb[0]? = some (some m) ∧ m.inTrans = .read) → s.env.currentIsOp = true
  | .halt => s.ended = false → s.rowsLeft = true →
      s.first.rc = .ok ∧ s.db.mallocFailed = false ∧ ¬ haltEndsTransaction around s.db s.first
  | .next => s.ended = false → ∀ mc, s.cursor.mc = some mc → s.env.blocked mc.txn = false
  | _ => True

/-! ### What the connection keeps -/

/-- The connection keeps a property of every content of the environment `e` and a property of one
cursor, and its Btrees stay on their environments. -/
structure Kept (e : ℕ) (P : Content → Prop) (pCur : ℕ) (J : BtCursor → Prop) (db db' : Sqlite3) :
    Prop where
  contents : (db.world.env e).store.All P → (db'.world.env e).store.All P
  cursor : J (db.world.cursor pCur) → J (db'.world.cursor pCur)
  places : db'.aDb.map (Option.map Btree.pBt) = db.aDb.map (Option.map Btree.pBt)

section

variable {e : ℕ} {P : Content → Prop} {pCur : ℕ} {J : BtCursor → Prop}

variable {h : Handle} {m : Btree} (around : Surroundings) (db : Sqlite3) (p : Vdbe) (wrflag : ℕ)
  (op : Option SavepointOp)

theorem Kept.refl : Kept e P pCur J db db := ⟨id, id, rfl⟩

theorem Kept.trans {db db' db'' : Sqlite3} (hfirst : Kept e P pCur J db db')
    (hsecond : Kept e P pCur J db' db'') : Kept e P pCur J db db'' where
  contents := hsecond.contents ∘ hfirst.contents
  cursor := hsecond.cursor ∘ hfirst.cursor
  places := hsecond.places.trans hfirst.places

theorem Kept.of_same {db db' db'' : Sqlite3} (hkept : Kept e P pCur J db db')
    (hworld : db''.world = db'.world) (hslots : db''.aDb = db'.aDb) : Kept e P pCur J db db'' where
  contents := by
    rw [hworld]
    exact hkept.contents
  cursor := by
    rw [hworld]
    exact hkept.cursor
  places := by
    rw [hslots]
    exact hkept.places

theorem Keeps.update {world : World} {p : Btree} (hkeeps : Keeps P pCur J (world.handle p) h) :
    ((world.env e).store.All P → ((world.update h).env e).store.All P) ∧
      (J (world.cursor pCur) → J ((world.update h).cursor pCur)) := by
  refine ⟨fun hall ↦ ?_, hkeeps.cursor⟩
  by_cases he : e = h.bt.pBt
  · rw [he, World.update_env_self]
    refine hkeeps.contents ?_
    show (world.env p.pBt).store.All P
    have hplace : h.bt.pBt = p.pBt := hkeeps.place
    rwa [← hplace, ← he]
  · rwa [World.update_env_of_ne world he]

/-- A loop over the attached databases keeps what its calls keep. -/
theorem forEachDb_kept {call : Rc → Handle → Rc × Handle}
    (hcall : ∀ rc h, Keeps P pCur J h (call rc h).2) (rc : Rc) (world : World)
    (aDb : List (Option Btree)) :
    ((world.env e).store.All P → ((forEachDb call rc world aDb).2.1.env e).store.All P) ∧
      (J (world.cursor pCur) → J ((forEachDb call rc world aDb).2.1.cursor pCur)) ∧
      (forEachDb call rc world aDb).2.2.map (Option.map Btree.pBt) =
        aDb.map (Option.map Btree.pBt) := by
  induction aDb generalizing rc world with
  | nil => exact ⟨id, id, rfl⟩
  | cons slot rest ih =>
    cases slot with
    | none =>
      obtain ⟨hcontents, hcursor, hplaces⟩ := ih rc world
      exact ⟨hcontents, hcursor, congrArg (List.cons none) hplaces⟩
    | some p =>
      have hkeeps := hcall rc (world.handle p)
      obtain ⟨hcontents, hcursor⟩ := hkeeps.update (e := e)
      obtain ⟨hcontents', hcursor', hplaces⟩ :=
        ih (call rc (world.handle p)).1 (world.update (call rc (world.handle p)).2)
      refine ⟨hcontents' ∘ hcontents, hcursor' ∘ hcursor, ?_⟩
      show some (call rc (world.handle p)).2.bt.pBt :: _ = some p.pBt :: _
      rw [hkeeps.place]
      exact congrArg (List.cons _) hplaces

theorem Kept.loop (rc : Rc) (call : Rc → Handle → Rc × Handle)
    (hcall : ∀ rc h, Keeps P pCur J h (call rc h).2) : Kept e P pCur J db { db with
      world := (forEachDb call rc db.world db.aDb).2.1
      aDb := (forEachDb call rc db.world db.aDb).2.2 } := by
  obtain ⟨hcontents, hcursor, hplaces⟩ := forEachDb_kept (e := e) hcall rc db.world db.aDb
  exact ⟨hcontents, hcursor, hplaces⟩

theorem Kept.setDb {db : Sqlite3} (hslot : db.aDb[0]? = some (some m))
    (hkeeps : Keeps P pCur J (db.world.handle m) h) : Kept e P pCur J db (db.setDb 0 h) := by
  obtain ⟨hcontents, hcursor⟩ := hkeeps.update (e := e)
  refine ⟨hcontents, hcursor, ?_⟩
  show (db.aDb.set 0 (some h.bt)).map (Option.map Btree.pBt) = _
  have hplace : h.bt.pBt = m.pBt := hkeeps.place
  cases hdbs : db.aDb with
  | nil => simp [hdbs] at hslot
  | cons slot rest =>
    obtain rfl : slot = some m := by simpa [hdbs] using hslot
    rw [set_cons_zero, map_cons, map_cons, map_some, map_some, hplace]

theorem beginStatement_kept {db : Sqlite3} (hslot : db.aDb[0]? = some (some m)) :
    Kept e P pCur J db (beginStatement around db p 0 m).2.1 := by
  have hopen : ∀ db' : Sqlite3, db'.world = db.world → db'.aDb = db.aDb → ∀ stmt : ℤ,
      Kept e P pCur J db
        (db'.setDb 0 (sqlite3BtreeBeginStmt (db'.world.handle m) stmt).2) := by
    intro db' hworld hslots stmt
    have hsame : Kept e P pCur J db db' := (Kept.refl db).of_same hworld hslots
    refine hsame.trans (Kept.setDb ?_ (beginStmt_keeps _ stmt))
    rwa [hslots]
  simp only [beginStatement]
  by_cases hfirst : p.iStatement = 0
  · split_ifs
    · exact (Kept.refl db).of_same rfl rfl
    · exact hopen { db with nStatement := db.nStatement + 1 } rfl rfl _
    · exact hopen { db with nStatement := db.nStatement + 1 } rfl rfl _
  · split_ifs
    · exact Kept.refl db
    · exact hopen db rfl rfl _
    · exact hopen db rfl rfl _

theorem opTransaction_kept
    (hbegin : ∀ m, db.aDb[0]? = some (some m) → Keeps P pCur J (db.world.handle m)
      (sqlite3BtreeBeginTrans (db.world.handle m) wrflag).2) :
    Kept e P pCur J db (opTransaction around db p 0 wrflag).2.1 := by
  unfold opTransaction
  split
  · rename_i m hslot
    have hset : Kept e P pCur J db
        (db.setDb 0 (sqlite3BtreeBeginTrans (db.world.handle m) wrflag).2) :=
      Kept.setDb hslot (hbegin m hslot)
    have hslot' : (db.setDb 0 (sqlite3BtreeBeginTrans (db.world.handle m) wrflag).2).aDb[0]? =
        some (some (sqlite3BtreeBeginTrans (db.world.handle m) wrflag).2.bt) := by
      obtain ⟨hpos, _⟩ := List.getElem?_eq_some_iff.mp hslot
      exact getElem?_set_self hpos
    simp only
    split_ifs
    · exact hset
    · exact hset
    · exact hset.trans (beginStatement_kept around p hslot')
    · exact hset
  · exact Kept.refl db

theorem opTransaction_apCsr :
    ((opTransaction around db p 0 wrflag).1.into (opTransaction around db p 0 wrflag).2.2).apCsr =
      p.apCsr := by
  have hinto : ∀ (flow : Next) (q : Vdbe), (flow.into q).apCsr = q.apCsr := by
    intro flow q
    cases flow <;> rfl
  rw [hinto]
  unfold opTransaction
  split
  · simp only
    split_ifs
    · rfl
    · rfl
    · simp only [beginStatement]
      split_ifs <;> rfl
    · rfl
  · rfl

theorem rollbackAll_kept : Kept e P pCur J db (sqlite3RollbackAll db) :=
  (Kept.loop db .ok (fun rc h ↦ (rc, (sqlite3BtreeRollback h).2))
    fun _ h ↦ savepoint_keeps h .rollback (-1)).of_same rfl rfl

theorem abandonTransaction_kept : Kept e P pCur J db (abandonTransaction db) :=
  (rollbackAll_kept db).of_same rfl rfl

/-- Assumes: the property of the cursor holds of a zeroed one. -/
theorem vdbeCommit_kept (hzero : J sqlite3BtreeCursorZero) (outside : Outside) (db : Sqlite3) :
    Kept e P pCur J db (vdbeCommit outside db).2 := by
  have hcall : ∀ rc h, Keeps P pCur J h (phaseOneCall rc h).2 := by
    intro rc h
    unfold phaseOneCall
    split_ifs
    · exact commitPhaseOne_keeps hzero h
    · exact Keeps.refl h
  have hloop : Kept e P pCur J db (commitDbs db).2 := Kept.loop db .ok phaseOneCall hcall
  simp only [vdbeCommit, finishDbs_eq]
  split_ifs
  · exact Kept.refl db
  · exact Kept.refl db
  · exact hloop
  · exact Kept.refl db
  · exact hloop
  · exact hloop
  · exact hloop

theorem closeStatement_kept (vtabSavepoint : SavepointOp → Rc) (db : Sqlite3) (p : Vdbe)
    (eOp : SavepointOp) :
    Kept e P pCur J db (sqlite3VdbeCloseStatement vtabSavepoint db p eOp).2.1 := by
  unfold sqlite3VdbeCloseStatement
  by_cases hopen : db.nStatement ≠ 0 ∧ p.iStatement ≠ 0
  · rw [if_pos hopen]
    exact (Kept.loop db .ok (closeCall eOp (p.iStatement - 1))
      fun _ h ↦ closeStatementBtree_keeps h eOp (p.iStatement - 1)).of_same rfl rfl
  · rw [if_neg hopen]
    exact Kept.refl db

theorem closeAllCursors_kept {cursors : List ℕ} (howner : pCur ∉ cursors) :
    Kept e P pCur J db (closeAllCursors db cursors) := by
  induction cursors generalizing db with
  | nil => exact Kept.refl db
  | cons other rest ih =>
    obtain ⟨hne, hrest⟩ := not_or.mp (mt mem_cons.mpr howner)
    refine Kept.trans ?_ (ih _ hrest)
    refine (Kept.loop db .ok (fun rc h ↦ (rc, if (h.cursor other).pBtree = some h.bt.id then
      sqlite3BtreeCloseCursor h other else h)) fun _ h ↦ ?_).of_same rfl rfl
    split_ifs
    · exact closeCursor_keeps h hne
    · exact Keeps.refl h

theorem closeAllCursors_ends (cursors : List ℕ) (p : Vdbe) :
    haltEndsTransaction around (closeAllCursors db cursors) p ↔
      haltEndsTransaction around db p := by
  induction cursors generalizing db with
  | nil => exact Iff.rfl
  | cons other rest ih => exact ih _

theorem haltClose_kept : Kept e P pCur J db (haltClose around db p op).1 := by
  unfold haltClose
  cases op with
  | none => exact Kept.refl db
  | some eOp =>
    have hclosed : Kept e P pCur J db
        (sqlite3VdbeCloseStatement around.vtabSavepoint db p eOp).2.1 := closeStatement_kept _ _ _ _
    by_cases hok : (sqlite3VdbeCloseStatement around.vtabSavepoint db p eOp).1 = .ok
    · simp only [if_pos hok]
      exact hclosed
    · simp only [if_neg hok]
      exact hclosed.trans (abandonTransaction_kept _)

theorem haltSpecial_kept : Kept e P pCur J db (haltSpecial db p).1 := by
  unfold haltSpecial
  split_ifs
  · exact Kept.refl db
  · exact abandonTransaction_kept db
  · exact Kept.refl db

theorem haltStatement_kept (special : Option SavepointOp) :
    Kept e P pCur J db (haltStatement db p special).1 := by
  unfold haltStatement
  split
  · exact Kept.refl db
  · split_ifs
    · exact Kept.refl db
    · exact Kept.refl db
    · exact abandonTransaction_kept db

theorem haltDone_kept : Kept e P pCur J db (haltDone db p).2.1 := by
  show Kept e P pCur J db (if p.started then db.countOut p.readOnly else db)
  split_ifs
  · exact (Kept.refl db).of_same rfl rfl
  · exact Kept.refl db

/-- Assumes: the property of the cursor holds of a zeroed one. -/
theorem haltTransaction_kept (hzero : J sqlite3BtreeCursorZero) (around : Surroundings)
    (db : Sqlite3) (p : Vdbe) :
    (∀ result, haltTransaction around db p = .error result → Kept e P pCur J db result.2.1) ∧
      ∀ result, haltTransaction around db p = .ok result → Kept e P pCur J db result.1 := by
  have hcommitted : Kept e P pCur J db (if (sqlite3VdbeCheckFk db p true).1 ≠ .ok then
      (Rc.constraintForeignkey, db) else vdbeCommit around.toOutside db).2 := by
    split_ifs
    · exact Kept.refl db
    · exact vdbeCommit_kept hzero _ db
  simp only [haltTransaction]
  generalize (if (sqlite3VdbeCheckFk db p true).1 ≠ .ok then (Rc.constraintForeignkey, db)
    else vdbeCommit around.toOutside db) = committed at hcommitted ⊢
  split_ifs
  · exact ⟨fun _ herror ↦ Except.error.inj herror ▸ Kept.refl db, fun _ hok ↦ by simp at hok⟩
  · exact ⟨fun _ herror ↦ Except.error.inj herror ▸ hcommitted, fun _ hok ↦ by simp at hok⟩
  · refine ⟨fun _ herror ↦ by simp at herror, fun _ hok ↦ Except.ok.inj hok ▸ ?_⟩
    exact (hcommitted.trans (rollbackAll_kept _)).of_same rfl rfl
  · refine ⟨fun _ herror ↦ by simp at herror, fun _ hok ↦ Except.ok.inj hok ▸ ?_⟩
    exact hcommitted.of_same rfl rfl
  · refine ⟨fun _ herror ↦ by simp at herror, fun _ hok ↦ Except.ok.inj hok ▸ ?_⟩
    exact (rollbackAll_kept db).of_same rfl rfl

/-- Checking foreign keys changes at most the result of a statement. -/
theorem checkFk_ends (db db' : Sqlite3) (p : Vdbe) (deferred : Bool) :
    haltEndsTransaction around db' (sqlite3VdbeCheckFk db p deferred).2 ↔
      haltEndsTransaction around db' p := by
  unfold sqlite3VdbeCheckFk
  split_ifs <;> exact Iff.rfl

theorem checkFk_apCsr (deferred : Bool) : (sqlite3VdbeCheckFk db p deferred).2.apCsr = p.apCsr := by
  unfold sqlite3VdbeCheckFk
  split_ifs <;> rfl

theorem haltClose_apCsr : (haltClose around db p op).2.apCsr = p.apCsr := by
  unfold haltClose sqlite3VdbeCloseStatement
  cases op with
  | none => rfl
  | some eOp => split_ifs <;> simp only <;> split_ifs <;> rfl

theorem haltTransaction_apCsr :
    (∀ result, haltTransaction around db p = .error result → result.2.2.apCsr = p.apCsr) ∧
      ∀ result, haltTransaction around db p = .ok result → result.2.apCsr = p.apCsr := by
  have hcheck := checkFk_apCsr db p true
  simp only [haltTransaction]
  generalize (if (sqlite3VdbeCheckFk db p true).1 ≠ .ok then (Rc.constraintForeignkey, db)
    else vdbeCommit around.toOutside db) = committed
  split_ifs
  · exact ⟨fun _ herror ↦ Except.error.inj herror ▸ hcheck, fun _ hok ↦ by simp at hok⟩
  · exact ⟨fun _ herror ↦ Except.error.inj herror ▸ hcheck, fun _ hok ↦ by simp at hok⟩
  · exact ⟨fun _ herror ↦ by simp at herror, fun _ hok ↦ Except.ok.inj hok ▸ hcheck⟩
  · exact ⟨fun _ herror ↦ by simp at herror, fun _ hok ↦ Except.ok.inj hok ▸ hcheck⟩
  · exact ⟨fun _ herror ↦ by simp at herror, fun _ hok ↦ Except.ok.inj hok ▸ rfl⟩

/-- What `sqlite3VdbeHalt` does after the statement's cursors have been closed: nothing, or only the
counting out; the end of the transaction, with an error of its own or with the statement transaction
closed after it; or only the end of the statement transaction. -/
theorem haltClosed_cases :
    haltClosed around db p = (.ok, db, p) ∨ haltClosed around db p = haltDone db p ∨
      ∃ q, q.apCsr = p.apCsr ∧
        (∀ db', haltEndsTransaction around db' q ↔ haltEndsTransaction around db' p) ∧
        ((haltEndsTransaction around (haltSpecial db p).1 q ∧
            (haltTransaction around (haltSpecial db p).1 q = .error (haltClosed around db p) ∨
              ∃ ended, haltTransaction around (haltSpecial db p).1 q = .ok ended ∧
                haltClosed around db p =
                  haltDone (haltClose around ended.1 ended.2 (haltSpecial db p).2).1
                    (haltClose around ended.1 ended.2 (haltSpecial db p).2).2)) ∨
          ∃ decided, decided = haltStatement (haltSpecial db p).1 q (haltSpecial db p).2 ∧
            haltClosed around db p = haltDone (haltClose around decided.1 q decided.2).1
              (haltClose around decided.1 q decided.2).2) := by
  by_cases hrunning : p.running = true
  · by_cases hstarted : p.started = true
    · refine .inr (.inr ⟨if p.rc = .ok then
        (sqlite3VdbeCheckFk (haltSpecial db p).1 p false).2 else p, ?_, ?_, ?_⟩)
      · split_ifs
        · exact checkFk_apCsr _ p false
        · rfl
      · intro db'
        split_ifs
        · exact checkFk_ends around _ db' p false
        · exact Iff.rfl
      · simp only [haltClosed, hrunning, hstarted, not_true_eq_false, if_false]
        generalize
          (if p.rc = .ok then (sqlite3VdbeCheckFk (haltSpecial db p).1 p false).2 else p) = q
        by_cases hends : haltEndsTransaction around (haltSpecial db p).1 q
        · simp only [if_pos hends]
          cases hresult : haltTransaction around (haltSpecial db p).1 q with
          | error result => exact .inl ⟨hends, .inl rfl⟩
          | ok result => exact .inl ⟨hends, .inr ⟨result, rfl, rfl⟩⟩
        · simp only [if_neg hends]
          exact .inr ⟨_, rfl, rfl⟩
    · exact .inr (.inl (by rw [haltClosed, if_neg (not_not.mpr hrunning), if_pos hstarted]))
  · exact .inl (by rw [haltClosed, if_pos hrunning])

theorem halt_apCsr : (sqlite3VdbeHalt around db p).2.2.apCsr = [] := by
  suffices hrest : ∀ db q, (haltClosed around db q).2.2.apCsr = q.apCsr from hrest _ _
  intro db p
  rcases haltClosed_cases around db p with hresult | hresult |
    ⟨q, hsame, _, ⟨_, herror | ⟨ended, hended, hresult⟩⟩ | ⟨decided, _, hresult⟩⟩
  · rw [hresult]
  · rw [hresult]
    rfl
  · exact ((haltTransaction_apCsr around _ q).1 _ herror).trans hsame
  · rw [hresult]
    exact (haltClose_apCsr around _ _ _).trans
      (((haltTransaction_apCsr around _ q).2 _ hended).trans hsame)
  · rw [hresult]
    exact (haltClose_apCsr around _ q _).trans hsame

/-- Assumes: the property of the cursor holds of a zeroed one, or the halt ends no transaction. -/
theorem haltClosed_kept
    (hsafe : J sqlite3BtreeCursorZero ∨ (p.rc = .ok ∧ ¬ haltEndsTransaction around db p)) :
    Kept e P pCur J db (haltClosed around db p).2.1 := by
  have hspecial : Kept e P pCur J db (haltSpecial db p).1 := haltSpecial_kept db p
  have hzero : haltEndsTransaction around (haltSpecial db p).1 p → J sqlite3BtreeCursorZero := by
    intro hends
    refine hsafe.resolve_right ?_
    rintro ⟨hok, hquiet⟩
    have hnone : haltSpecial db p = (db, none) := by
      simp [haltSpecial, hok, isSpecialError, Rc.primary]
    rw [hnone] at hends
    exact hquiet hends
  rcases haltClosed_cases around db p with hresult | hresult |
    ⟨q, _, hends, ⟨hq, herror | ⟨ended, hended, hresult⟩⟩ | ⟨decided, hdecided, hresult⟩⟩
  · rw [hresult]
    exact Kept.refl db
  · rw [hresult]
    exact haltDone_kept db p
  · have hzeroed := hzero ((hends _).mp hq)
    exact hspecial.trans ((haltTransaction_kept hzeroed around _ q).1 _ herror)
  · have hzeroed := hzero ((hends _).mp hq)
    rw [hresult]
    exact hspecial.trans (((haltTransaction_kept hzeroed around _ q).2 _ hended).trans
      ((haltClose_kept around _ _ _).trans (haltDone_kept _ _)))
  · have hstatement : Kept e P pCur J (haltSpecial db p).1 decided.1 :=
      hdecided ▸ haltStatement_kept _ q _
    rw [hresult]
    exact hspecial.trans
      (hstatement.trans ((haltClose_kept around _ q _).trans (haltDone_kept _ _)))

/-- Assumes: the property of the cursor holds of a zeroed one, or the halt ends no transaction. -/
theorem halt_kept (howner : pCur ∉ p.apCsr) (hsafe : J sqlite3BtreeCursorZero ∨
      (p.rc = .ok ∧ db.mallocFailed = false ∧ ¬ haltEndsTransaction around db p)) :
    Kept e P pCur J db (sqlite3VdbeHalt around db p).2.1 := by
  refine Kept.trans (closeAllCursors_kept db howner) (haltClosed_kept around _ _ ?_)
  refine hsafe.imp id ?_
  rintro ⟨hok, hmalloc, hends⟩
  simp only [hmalloc, Bool.false_eq_true, if_false]
  exact ⟨hok, fun h ↦ hends ((closeAllCursors_ends around db p.apCsr _).mp h)⟩

end

/-! ### Every step keeps the scan -/

section

variable {name : DbName} {rows : List (Bytes × Bytes)} {around : Surroundings} {s : TwoStatements}

variable {db : Sqlite3} {m : Btree} {pCur : ℕ} (event : ScanEvent name)

/-- The first Btree of a connection stays on its environment. -/
theorem Kept.slot {e : ℕ} {P : Content → Prop} {J : BtCursor → Prop} {db db' : Sqlite3}
    (hkept : Kept e P pCur J db db') (hslot : db.aDb[0]? = some (some m)) :
    ∃ m', db'.aDb[0]? = some (some m') ∧ m'.pBt = m.pBt := by
  have hplaces := congrArg (fun slots ↦ slots[0]?) hkept.places
  simp only [getElem?_map, hslot, map_some] at hplaces
  cases hslot' : db'.aDb[0]? with
  | none => simp [hslot'] at hplaces
  | some slot =>
    cases slot with
    | none => simp [hslot'] at hplaces
    | some m' => exact ⟨m', rfl, by simpa [hslot'] using hplaces⟩

/-- The scan has returned the rows it has been asked for, and its cursor is at the last of them. -/
structure ScanInv (name : DbName) (rows : List (Bytes × Bytes)) (s : TwoStatements) : Prop where
  contents : s.env.store.All (HasRows name rows)
  owner : s.pCur ∉ s.first.apCsr
  slot : ∃ m, s.db.aDb[0]? = some (some m) ∧ m.pBt = s.pBt
  started : 0 < s.steps
  returned : s.returned = rows.take s.steps
  ended : s.ended = true ↔ rows.length < s.steps
  at_row : s.ended = false → CursorAt name rows (s.steps - 1) s.cursor

section

variable (hinv : ScanInv name rows s)

include hinv

/-- A step of the first statement that keeps the connection. -/
theorem ScanInv.of_kept {first : Vdbe} (hkept : Kept s.pBt (HasRows name rows) s.pCur
      (fun pCur ↦ s.ended = false → CursorAt name rows (s.steps - 1) pCur) s.db db)
    (howner : s.pCur ∉ first.apCsr) : ScanInv name rows { s with db := db, first := first } := by
  obtain ⟨m, hslot, hplace⟩ := hinv.slot
  obtain ⟨m', hslot', hplace'⟩ := hkept.slot hslot
  exact ⟨hkept.contents hinv.contents, howner, ⟨m', hslot', hplace'.trans hplace⟩, hinv.started,
    hinv.returned, hinv.ended, hkept.cursor hinv.at_row⟩

theorem ScanInv.not_past (hended : s.ended = false) : s.steps ≤ rows.length := by
  by_contra hpast
  have htrue : s.ended = true := hinv.ended.mpr (by omega)
  exact Bool.noConfusion (htrue.symm.trans hended)

/-- The last row has been returned when the scan has not ended and no row is left. -/
theorem ScanInv.last_row (hended : s.ended = false) (hleft : s.rowsLeft = false) :
    s.steps - 1 + 1 = rows.length := by
  have hstarted := hinv.started
  have hwithin := hinv.not_past hended
  rcases hinv.at_row hended with ⟨mc, hmc, hdbi, hpos⟩ | ⟨_, hlast⟩
  · have hentries := cursorEntries_of_all hinv.contents hdbi
    have hmore : ¬ s.steps - 1 + 1 < rows.length := by
      simpa [TwoStatements.rowsLeft, hmc, hpos, hentries] using hleft
    omega
  · exact hlast

theorem ScanInv.halt (hguard : ScanGuard around s (.halt : ScanEvent name)) :
    ScanInv name rows (s.step around (.halt : ScanEvent name)) := by
  simp only [TwoStatements.step]
  split_ifs
  · refine hinv.of_kept (halt_kept around s.db s.first hinv.owner ?_) ?_
    · by_cases hsafe : s.ended = false → s.rowsLeft = false
      · exact .inl fun hended ↦ CursorAt.zero (hinv.last_row hended (hsafe hended))
      · obtain ⟨hended, hleft⟩ := Classical.not_imp.mp hsafe
        exact .inr (hguard hended (by simpa using hleft))
    · rw [halt_apCsr]
      exact not_mem_nil
  · exact hinv

theorem ScanInv.transaction {wrflag : ℕ}
    (hguard : ScanGuard around s (.transaction wrflag : ScanEvent name)) :
    ScanInv name rows (s.step around (.transaction wrflag : ScanEvent name)) := by
  simp only [TwoStatements.step]
  split_ifs
  · refine hinv.of_kept (opTransaction_kept around s.db s.first wrflag ?_) ?_
    · intro m hslot
      obtain ⟨m', hslot', hplace⟩ := hinv.slot
      obtain rfl : m = m' := by simpa using hslot.symm.trans hslot'
      have henv : s.db.world.env m.pBt = s.env := by rw [hplace]; rfl
      refine beginTrans_keeps _ wrflag (by rw [World.handle, henv]; exact hinv.contents) ?_
      intro hwrite hin env txn hall hcurrent hat hended
      have hop : env.currentIsOp = true := by
        rw [hcurrent, World.handle, henv]
        exact hguard hended hwrite ⟨m, hslot, hin⟩
      have hstarted := hinv.started
      have hwithin := hinv.not_past hended
      exact moveCursors_at hall hop (by omega) txn _ (hat hended)
    · rw [opTransaction_apCsr]
      exact hinv.owner
  · exact hinv

theorem ScanInv.write (w : SparingWrite name) : ScanInv name rows (s.step around (.write w)) := by
  simp only [TwoStatements.step]
  split_ifs
  · refine hinv.of_kept ?_ hinv.owner
    obtain ⟨m, hslot, _⟩ := hinv.slot
    simp only [Sqlite3.writeDb, hslot]
    refine Kept.setDb hslot (writes_keeps _ ?_)
    intro w' hw' content hrows
    obtain rfl := mem_singleton.mp hw'
    rwa [HasRows, w.spares content]
  · exact hinv

theorem ScanInv.openCursor (table : DbName) (place : ℕ) :
    ScanInv name rows (s.step around (.openCursor table place : ScanEvent name)) := by
  have hne : s.pCur ≠ s.pCur + 1 + place := by omega
  simp only [TwoStatements.step]
  split_ifs
  · unfold TwoStatements.openFirst
    split
    · rename_i m hslot
      split
      · rename_i h hopened
        refine hinv.of_kept (Kept.setDb hslot (cursor_keeps hne hopened)) ?_
        rw [mem_cons, not_or]
        exact ⟨hne, hinv.owner⟩
      · exact hinv
    · exact hinv
  · exact hinv

theorem ScanInv.next (hguard : ScanGuard around s (.next : ScanEvent name)) :
    ScanInv name rows (s.step around (.next : ScanEvent name)) := by
  have hstarted := hinv.started
  simp only [TwoStatements.step]
  by_cases hended : s.ended = true
  · rw [if_pos hended]
    have hpast := hinv.ended.mp hended
    refine ⟨hinv.contents, hinv.owner, hinv.slot, by simp, ?_, ?_, ?_⟩
    · show s.returned = rows.take (s.steps + 1)
      rw [hinv.returned, take_of_length_le (by omega), take_of_length_le (by omega)]
    · exact ⟨fun _ ↦ by show rows.length < s.steps + 1; omega, fun _ ↦ hended⟩
    · exact fun h ↦ Bool.noConfusion (hended.symm.trans h)
  · have hrunning : s.ended = false := by simpa using hended
    have hwithin := hinv.not_past hrunning
    have hat := hinv.at_row hrunning
    obtain ⟨hend, hmore⟩ := next_of_at hinv.contents hat (by omega) (hguard hrunning)
    have hlast : (sqlite3BtreeNext s.env s.cursor).1 = true ↔ s.steps = rows.length := by
      rw [hend]
      omega
    rw [if_neg hended]
    have hcursor : s.scanNext.cursor = (sqlite3BtreeNext s.env s.cursor).2 :=
      update_self ..
    refine ⟨hinv.contents, hinv.owner, hinv.slot, by simp [TwoStatements.scanNext], ?_, ?_, ?_⟩
    · show s.returned ++ (if (sqlite3BtreeNext s.env s.cursor).1 then []
        else ((sqlite3BtreeNext s.env s.cursor).2.row s.env).toList) = rows.take (s.steps + 1)
      rw [take_add_one, hinv.returned]
      by_cases hdone : s.steps = rows.length
      · rw [if_pos (hlast.mpr hdone), getElem?_eq_none (by omega), toList_none]
      · have hrow := (hmore (by omega)).2
        rw [if_neg (mt hlast.mp hdone), hrow, Nat.sub_add_cancel hstarted]
    · show (sqlite3BtreeNext s.env s.cursor).1 = true ↔ rows.length < s.steps + 1
      rw [hlast]
      omega
    · intro hleft
      have hnot : s.steps ≠ rows.length := fun h ↦
        Bool.noConfusion ((hlast.mpr h).symm.trans hleft)
      have hat' := (hmore (by omega)).1
      rw [hcursor]
      show CursorAt name rows (s.steps + 1 - 1) _
      rw [show s.steps + 1 - 1 = s.steps - 1 + 1 by omega]
      exact hat'

end

/-- Assumes: a step inside the guard. -/
theorem ScanInv.step (hguard : ScanGuard around s event) (hinv : ScanInv name rows s) :
    ScanInv name rows (s.step around event) := by
  cases event with
  | transaction wrflag => exact hinv.transaction hguard
  | openCursor table place => exact hinv.openCursor table place
  | write w => exact hinv.write w
  | halt => exact hinv.halt hguard
  | next => exact hinv.next hguard

/-- The scan is asked for a row by its own steps only. -/
theorem steps_step : (s.step around event).steps = s.steps + event.isNext.toNat := by
  cases event with
  | transaction wrflag | write w | halt =>
    show (if s.first.running then _ else s).steps = s.steps
    split_ifs <;> rfl
  | openCursor table place =>
    show (if s.first.running then s.openFirst table (s.pCur + 1 + place) else s).steps = s.steps
    unfold TwoStatements.openFirst
    split_ifs
    · split
      · split <;> rfl
      · rfl
    · rfl
  | next =>
    show (if s.ended then _ else s.scanNext).steps = s.steps + 1
    split_ifs <;> rfl

theorem steps_run (events : List (ScanEvent name)) :
    (events.foldl (TwoStatements.step around) s).steps =
      s.steps + events.countP ScanEvent.isNext := by
  induction events generalizing s with
  | nil => rfl
  | cons event rest ih =>
    rw [foldl_cons, ih, steps_step, countP_cons]
    cases event.isNext <;> simp; omega

/-! ### The runs of the scan -/

/-- Assumes: a Btree that has a transaction. The scan starts at the first row. -/
theorem startScan_inv (first : Vdbe) (hslot : db.aDb[0]? = some (some m))
    (htracks : Tracks (db.world.env m.pBt) m) (hin : m.inTrans ≠ .none)
    (hrows : (db.world.env m.pBt).store.All (HasRows name rows)) (howner : pCur ∉ first.apCsr) :
    ∃ s, startScan db first name pCur = some s ∧ ScanInv name rows s ∧ s.steps = 1 := by
  obtain ⟨txn, hcurr, hfree⟩ := htracks.exists_free hin
  have hexists : ((db.world.handle m).visible.db name).isNone = false := by
    have hseen := seen_of_all hrows txn
    have hvisible : (db.world.handle m).visible = (db.world.env m.pBt).seen txn := by
      simp [Handle.visible, World.handle, hcurr]
    rw [hvisible]
    cases hdb : ((db.world.env m.pBt).seen txn).db name with
    | none => simp [HasRows, hdb] at hseen
    | some table => rfl
  have hcursor : sqlite3BtreeCursor (db.world.handle m) name pCur = some (.ok,
      { db.world.handle m with
        bt := { m with pCursor := pCur :: m.pCursor }
        cursor := Function.update db.world.cursor pCur
          ⟨some m.id, some (mdbCursorInit txn name)⟩ }) := by
    have hcurr' : (db.world.handle m).bt.currTxn = some txn := hcurr
    rw [sqlite3BtreeCursor, hcurr', map_some, if_neg (by simp [hexists])]
    rfl
  obtain ⟨found, hfound, hend, hat⟩ : ∃ found, sqlite3BtreeFirst (db.world.handle m).env
        ⟨some m.id, some (mdbCursorInit txn name)⟩ = some found ∧ (found.1 = true ↔ rows = []) ∧
      (rows ≠ [] → CursorAt name rows 0 found.2 ∧
        found.2.row (db.world.handle m).env = rows[0]?) :=
    first_of_rows hrows rfl rfl hfree
  refine ⟨_, by
    rw [startScan, hslot]
    simp only [hcursor, update_self]
    rw [hfound]
    rfl, ?_, rfl⟩
  have hempty : rows = [] ↔ rows.length < 1 := by
    rw [← length_eq_zero_iff]
    omega
  refine ⟨?_, howner, ⟨_, getElem?_set_self ?_, rfl⟩, Nat.one_pos, ?_, hend.trans hempty, ?_⟩
  · show (Function.update db.world.env m.pBt (db.world.env m.pBt) m.pBt).store.All _
    rwa [update_self]
  · exact (List.getElem?_eq_some_iff.mp hslot).1
  · show (if found.1 then [] else (found.2.row _).toList) = rows.take 1
    by_cases hnil : rows = []
    · rw [if_pos (hend.mpr hnil), hnil, take_nil]
    · rw [if_neg (mt hend.mp hnil), (hat hnil).2, take_one, head?_eq_getElem?]
  · intro hmore
    have hne : rows ≠ [] := fun hnil ↦ Bool.noConfusion ((hend.mpr hnil).symm.trans hmore)
    have hcursor : CursorAt name rows 0 (Function.update (Function.update db.world.cursor pCur
        ⟨some m.id, some (mdbCursorInit txn name)⟩) pCur found.2 pCur) := by
      rw [update_self]
      exact (hat hne).1
    exact hcursor

/-- In a run whose steps all meet the guard, the scan returns the rows of the table in order, one
for each time it is asked, and it ends when it is asked for one more: a scan that has ended has
returned the whole table. -/
theorem scan_runs_complete (around : Surroundings) (db : Sqlite3) (first : Vdbe) (name : DbName)
    (rows : List (Bytes × Bytes)) (pCur : ℕ) (m : Btree) (hslot : db.aDb[0]? = some (some m))
    (htracks : Tracks (db.world.env m.pBt) m) (hin : m.inTrans ≠ .none)
    (hrows : (db.world.env m.pBt).store.All (HasRows name rows)) (howner : pCur ∉ first.apCsr) :
    ∃ s, startScan db first name pCur = some s ∧ ∀ events : List (ScanEvent name),
        Meets (TwoStatements.step around) (ScanGuard around) s events →
          (events.foldl (TwoStatements.step around) s).returned =
              rows.take (1 + events.countP ScanEvent.isNext) ∧
            ((events.foldl (TwoStatements.step around) s).ended = true ↔
              rows.length ≤ events.countP ScanEvent.isNext) ∧
            ((events.foldl (TwoStatements.step around) s).ended = true →
              (events.foldl (TwoStatements.step around) s).returned = rows) := by
  obtain ⟨s, hstart, hinv, hsteps⟩ := startScan_inv first hslot htracks hin hrows howner
  refine ⟨s, hstart, fun events hmeets ↦ ?_⟩
  have hend : ScanInv name rows (events.foldl (TwoStatements.step around) s) :=
    hmeets.invariant (fun _ event hheld hguard ↦ hheld.step event hguard) hinv
  have hasked : (events.foldl (TwoStatements.step around) s).steps =
      1 + events.countP ScanEvent.isNext := by
    rw [steps_run, hsteps]
  have hreturned := hend.returned
  have hended := hend.ended
  rw [hasked] at hreturned hended
  refine ⟨hreturned, hended.trans (by omega), fun hover ↦ ?_⟩
  rw [hreturned, take_of_length_le]
  have hpast := hended.mp hover
  omega

end

def twoRows : List (Bytes × Bytes) := [([1], []), ([2], [])]

def scanned : Content :=
  ⟨fun name ↦ if name = .tab 2 then some ⟨true, false, twoRows, by decide⟩ else none⟩

/-- A connection in autocommit mode whose main database is in a read transaction. -/
def readingConnection : Sqlite3 where
  world := ⟨fun _ ↦ ⟨(SnapshotStore.idle scanned).beginRead, [], false⟩, fun _ ↦ ⟨none, none⟩⟩
  aDb := [some ⟨0, 0, some 0, some 0, .read, []⟩]
  autoCommit := true
  isTransactionSavepoint := false
  pSavepoint := []
  nSavepoint := 0
  nStatement := 0
  nDeferredCons := 0
  activeVdbeCnt := 2
  writeVdbeCnt := 0
  mallocFailed := false

/-- A reading statement in its run. -/
def readingStatement : Vdbe where
  rc := .ok
  errorAction := .abort
  readOnly := true
  usesStmtJournal := false
  iStatement := 0
  nStmtDefCons := 0
  nFkConstraint := 0
  apCsr := []
  started := true
  running := true

theorem twoRows_everywhere :
    (readingConnection.world.env 0).store.All (HasRows (.tab 2) twoRows) := by
  refine ⟨rfl, fun frame hframe ↦ ?_⟩
  obtain rfl := mem_singleton.mp hframe
  rfl

def twoRowsRun (events : List (ScanEvent (.tab 2))) : Option TwoStatements :=
  (startScan readingConnection readingStatement (.tab 2) 0).map
    (events.foldl (TwoStatements.step calmSurroundings))

/-- When the first statement halts after the scan has returned the last row, the scan is
complete. -/
theorem scan_runs_complete_twoRows : ∃ s, twoRowsRun [.next, .halt, .next] = some s ∧
    s.ended = true ∧ s.returned = twoRows := by
  obtain ⟨s, hstart, hruns⟩ := scan_runs_complete calmSurroundings readingConnection
    readingStatement (.tab 2) twoRows 0 ⟨0, 0, some 0, some 0, .read, []⟩ rfl
    (.reading rfl ⟨0, scanned⟩ (.head _) rfl rfl) (by decide) twoRows_everywhere
    not_mem_nil
  obtain ⟨_, hended, hwhole⟩ := hruns [.next, .halt, .next] (by
    cases hstart
    refine ⟨fun _ mc hmc ↦ ?_, fun _ hleft ↦ ?_, fun _ mc hmc ↦ ?_, trivial⟩
    · cases hmc
      rfl
    · cases hleft
    · have hzeroed : none = some mc := hmc
      exact absurd hzeroed (some_ne_none mc).symm)
  have hover := hended.mpr (by decide)
  exact ⟨_, by rw [twoRowsRun, hstart]; rfl, hover, hwhole hover⟩

/-- When the first statement halts after the first row, the scan ends without the second: the commit
has zeroed its cursor. -/
theorem scan_truncated : ∃ s, twoRowsRun [.halt, .next] = some s ∧
    s.ended = true ∧ s.returned ≠ twoRows := by
  refine ⟨_, rfl, rfl, ?_⟩
  decide

end LumoSQL
