import LumoSQL.Btree.Resting
import LumoSQL.Foundation.GuardedRun
import LumoSQL.Vdbe.Opcode

/-!
# Savepoints of one connection

A user sees transactions and savepoints as a stack of named snapshots: `SAVEPOINT` pushes one,
`ROLLBACK TO` restores one and keeps it, `RELEASE` forgets one, and only the end of the outermost
one makes anything durable. `RefState` is that machine.

The connection keeps the stack of names in `db->pSavepoint`, but `OP_Savepoint` opens nothing in the
store, so there is no snapshot to go back to: `ROLLBACK TO` aborts the main transaction and
`RELEASE` commits it, whatever savepoint is named. Before that, both call `sqlite3BtreeSavepoint` on
every slot of `aDb`, and the slot of the temp database is a null pointer until it is first used.

`Follows` relates a connection between statements to the reference machine. It is kept by every
command in the cases `SavepointGuard` lists (`execute_follows`), so a run inside them shows the user
exactly the reference machine's contents (`savepoint_runs_agree`). Outside them it does not:
`rollbackTo_loses_writes` is a `ROLLBACK TO` that takes back writes made before its savepoint.
-/

namespace LumoSQL

open Foundation List Option World

/-! ### The commands -/

/-- The commands of a run. -/
inductive Command
  | beginTransaction
  | savepoint (name : CString)
  | rollbackTo (name : CString)
  | release (name : CString)
  | commit
  | rollback
  | read
  | write (usesStmtJournal : Bool) (ws : List Write)

def writeBody (around : Surroundings) (ws : List Write) (db : Sqlite3) (p : Vdbe) :
    Next × Sqlite3 × Vdbe :=
  let began := opTransaction around db p 0 1
  if began.1 = .next then (.next, began.2.1.writeDb 0 ws, began.2.2) else began

/-- Runs a command to its end. -/
def execute (around : Surroundings) (db : Sqlite3) : Command → Option Sqlite3
  | .beginTransaction =>
    afterProgram around db true false fun db p ↦ some (opAutoCommit around db p false false)
  | .savepoint name =>
    afterProgram around db true false fun db p ↦ some (opSavepointBegin around db p name)
  | .rollbackTo name =>
    afterProgram around db true false fun db p ↦ opSavepointEnd around db p .rollback name
  | .release name =>
    afterProgram around db true false fun db p ↦ opSavepointEnd around db p .release name
  | .commit =>
    afterProgram around db true false fun db p ↦ some (opAutoCommit around db p true false)
  | .rollback =>
    afterProgram around db true false fun db p ↦ some (opAutoCommit around db p true true)
  | .read =>
    afterProgram around db true false fun db p ↦ some (opTransaction around db p 0 0)
  | .write usesStmtJournal ws =>
    afterProgram around db false usesStmtJournal fun db p ↦ some (writeBody around ws db p)

/-! ### The reference machine -/

def SameName (a b : CString) : Prop := a.bytes.map upperToLower = b.bytes.map upperToLower

instance (a b : CString) : Decidable (SameName a b) := inferInstanceAs (Decidable (_ = _))

/-- A stack of named snapshots over a durable content. Outside a transaction the stack is empty and
what is seen is durable; a transaction that a savepoint opened has that savepoint at the bottom. -/
structure RefState where
  durable : Content
  current : Content
  inTransaction : Bool
  transactionSavepoint : Bool
  stack : List (CString × Content)
  outside : inTransaction = false → current = durable ∧ transactionSavepoint = false ∧ stack = []
  opened : transactionSavepoint = true → stack ≠ []

def openFrom (name : CString) : List (CString × Content) →
    Option ((CString × Content) × List (CString × Content))
  | [] => none
  | entry :: rest => if SameName entry.1 name then some (entry, rest) else openFrom name rest

namespace RefState

def closed (content : Content) : RefState :=
  ⟨content, content, false, false, [], fun _ ↦ ⟨rfl, rfl, rfl⟩, fun h ↦ absurd h (by simp)⟩

def inside (durable current : Content) (transactionSavepoint : Bool)
    (stack : List (CString × Content)) (opened : transactionSavepoint = true → stack ≠ []) :
    RefState :=
  ⟨durable, current, true, transactionSavepoint, stack, fun h ↦ absurd h (by simp), opened⟩

/-- One command. -/
def step (ref : RefState) : Command → RefState
  | .beginTransaction =>
    if ref.inTransaction then ref
    else inside ref.durable ref.current false [] fun h ↦ absurd h (by simp)
  | .savepoint name =>
    inside ref.durable ref.current (ref.transactionSavepoint || !ref.inTransaction)
      ((name, ref.current) :: ref.stack) fun _ ↦ by simp
  | .rollbackTo name =>
    match openFrom name ref.stack with
    | none => ref
    | some (entry, rest) =>
      inside ref.durable entry.2 ref.transactionSavepoint (entry :: rest) fun _ ↦ by simp
  | .release name =>
    match openFrom name ref.stack with
    | none => ref
    | some (_, rest) =>
      if h : rest = [] ∧ ref.transactionSavepoint then closed ref.current
      else inside ref.durable ref.current ref.transactionSavepoint rest fun hopen hnil ↦
        h ⟨hnil, hopen⟩
  | .commit => if ref.inTransaction then closed ref.current else ref
  | .rollback => if ref.inTransaction then closed ref.durable else ref
  | .read => ref
  | .write _ ws =>
    if ref.inTransaction then
      { ref with
        current := applyWrites ref.current ws
        inTransaction := true
        outside := fun h ↦ absurd h (by simp) }
    else closed (applyWrites ref.current ws)

end RefState

/-! ### The connection between statements -/

/-- Virtual tables, hooks and the allocator stand in no command's way. -/
structure Calm (around : Surroundings) : Prop where
  vtabSync : around.vtabSync = .ok
  hook : around.xCommitCallback.getD 0 = 0
  vtabInSync : around.vtabInSync = false
  vtabSavepoint : ∀ op, around.vtabSavepoint op = .ok
  vtabSavepointBegin : around.vtabSavepointBegin = .ok
  allocSavepoint : around.allocSavepoint = true

/-- A slot of `aDb` that is empty or holds a Btree that is not in use. -/
def IdleSlot (slot : Option Btree) : Prop :=
  ∀ q, slot = some q → q.inTrans = .none ∧ q.mainTxn = none ∧ q.currTxn = none ∧ q.pCursor = []

/-- The connection with main Btree `m` and the slot `temp` between statements, its bookkeeping being
that of the reference machine. -/
def restingDb (world : World) (m : Btree) (temp : Option Btree) (ref : RefState) : Sqlite3 where
  world := world
  aDb := [some m, temp]
  autoCommit := !ref.inTransaction
  isTransactionSavepoint := ref.transactionSavepoint
  pSavepoint := ref.stack.map fun entry ↦ ⟨entry.1, 0⟩
  nSavepoint := ref.stack.length - if ref.transactionSavepoint then 1 else 0
  nStatement := 0
  nDeferredCons := 0
  activeVdbeCnt := 0
  writeVdbeCnt := 0
  mallocFailed := false

/-- A connection between statements shows the contents of the reference machine. -/
def Follows (db : Sqlite3) (ref : RefState) : Prop :=
  ∃ world m temp, db = restingDb world m temp ref ∧ IdleSlot temp ∧
    Holds (world.handle m) ref.current ref.durable ∧ (ref.inTransaction = false → m.inTrans = .none)

/-- The commands that do what the reference machine does: all but a `ROLLBACK TO` and a `RELEASE`
inside a transaction that find their savepoint. Those need the temp database to be open; the first
needs a snapshot equal to the durable content, the second that nothing unsaved is seen. -/
def SavepointGuard (db : Sqlite3) (ref : RefState) : Command → Prop
  | .rollbackTo name => ∀ entry rest, openFrom name ref.stack = some (entry, rest) →
      none ∉ db.aDb ∧ entry.2 = ref.durable
  | .release name => ∀ entry rest, openFrom name ref.stack = some (entry, rest) →
      ¬ (rest = [] ∧ ref.transactionSavepoint) → none ∉ db.aDb ∧ ref.current = ref.durable
  | _ => True

/-! ### Calls on the two slots -/

section

variable (db : Sqlite3) {m : Btree} {temp : Option Btree} {current stored : Content}

theorem IdleSlot.phaseOne (hidle : IdleSlot temp) (rc : Rc) (q : Btree) (hq : temp = some q)
    (world : World) : phaseOneCall rc (world.handle q) = (rc, world.handle q) := by
  obtain ⟨_, hmain, _, hcursors⟩ := hidle q hq
  unfold phaseOneCall
  split_ifs with hok
  · rw [hok]
    simp [sqlite3BtreeCommitPhaseOne, World.handle, hmain, hcursors, closeCursors]
  · rfl

theorem IdleSlot.close (hidle : IdleSlot temp) (eOp : SavepointOp) (index : ℤ) (rc : Rc)
    (q : Btree) (hq : temp = some q) (world : World) :
    closeCall eOp index rc (world.handle q) = (rc, world.handle q) := by
  obtain ⟨_, _, hcurr, _⟩ := hidle q hq
  rw [closeCall, closed_idle (h := world.handle q) hcurr]
  by_cases hok : rc = .ok
  · rw [if_pos hok, hok]
  · rw [if_neg hok]

theorem IdleSlot.rollback (hidle : IdleSlot temp) (q : Btree) (hq : temp = some q) (world : World) :
    (sqlite3BtreeRollback (world.handle q)).2 = world.handle q := by
  obtain ⟨_, _, hcurr, _⟩ := hidle q hq
  rw [sqlite3BtreeRollback, savepoint_idle (h := world.handle q) hcurr]

theorem rollbackAll_resting (hslots : db.aDb = [some m, temp]) (hidle : IdleSlot temp)
    (hholds : Holds (db.world.handle m) current stored) :
    ∃ h', sqlite3RollbackAll db = { db with
        world := db.world.update h'
        aDb := [some h'.bt, temp]
        nDeferredCons := 0 } ∧ Holds h' stored stored ∧ h'.bt.inTrans = .none := by
  obtain ⟨h', hrolled, hholds', _, hended⟩ := hholds.savepoint_rollback (-1)
  refine ⟨h', ?_, hholds', hended⟩
  have hloop : forEachDb (fun rc h ↦ (rc, (sqlite3BtreeRollback h).2)) .ok db.world
      [some m, temp] = (.ok, db.world.update h', [some h'.bt, temp]) :=
    forEachDb_pair (by rw [sqlite3BtreeRollback, hrolled])
      fun q hq world ↦ by rw [hidle.rollback q hq]
  simp [sqlite3RollbackAll, hslots, hloop]

/-- A commit makes durable what the main Btree sees. -/
theorem vdbeCommit_resting {around : Surroundings} (hcalm : Calm around)
    (hslots : db.aDb = [some m, temp]) (hidle : IdleSlot temp)
    (hholds : Holds (db.world.handle m) current stored) :
    ∃ h', vdbeCommit around.toOutside db = (.ok, { db with
        world := db.world.update h'
        aDb := [some h'.bt, temp] }) ∧ Holds h' current current ∧ h'.bt.inTrans = .none := by
  obtain ⟨h', hcommitted, hholds', _, hended⟩ := hholds.commit
  refine ⟨h', ?_, hholds', hended⟩
  have hloop : forEachDb phaseOneCall .ok db.world [some m, temp] =
      (.ok, db.world.update h', [some h'.bt, temp]) :=
    forEachDb_pair (by rw [phaseOneCall, if_pos rfl, hcommitted]) (hidle.phaseOne .ok)
  have hsimple : SimpleCase around.toOutside db := by
    refine .inr ?_
    rw [nTrans, hslots]
    exact countP_le_length
  simp [vdbeCommit, hcalm.vtabSync, hcalm.hook, hsimple, finishDbs_eq, commitDbs, hslots, hloop]

end

/-! ### Every command keeps the connection in step -/

/-- The list `pSavepoint` for a stack of the reference machine. -/
abbrev savepointsOf (stack : List (CString × Content)) : List Savepoint :=
  stack.map fun entry ↦ ⟨entry.1, 0⟩

/-- The savepoint a name refers to, as `OP_Savepoint` looks for it. -/
theorem find_savepoint (name : CString) (stack : List (CString × Content)) :
    (savepointsOf stack).find? (fun s ↦ sqlite3StrICmp s.zName.bytes name.bytes = 0) =
      (openFrom name stack).map fun found ↦ ⟨found.1.1, 0⟩ := by
  induction stack with
  | nil => rfl
  | cons entry rest ih =>
    have hname := sqlite3StrICmp_eq_zero_iff entry.1.noNul name.noNul
    rw [savepointsOf, map_cons, find?_cons, openFrom]
    by_cases hsame : SameName entry.1 name
    · rw [if_pos hsame, decide_eq_true (hname.mpr hsame)]
      rfl
    · rwa [if_neg hsame, decide_eq_false fun heq ↦ hsame (hname.mp heq)]

/-- Where the savepoint stands that a name refers to. -/
theorem drop_savepoint {name : CString} {stack : List (CString × Content)}
    {entry : CString × Content} {rest : List (CString × Content)}
    (hfound : openFrom name stack = some (entry, rest)) : ∃ inner, stack = inner ++ entry :: rest ∧
      (savepointsOf stack).findIdx (fun s ↦ sqlite3StrICmp s.zName.bytes name.bytes = 0) =
        inner.length := by
  induction stack with
  | nil => exact absurd hfound (by simp [openFrom])
  | cons head tail ih =>
    have hname := sqlite3StrICmp_eq_zero_iff head.1.noNul name.noNul
    rw [openFrom] at hfound
    by_cases hsame : SameName head.1 name
    · rw [if_pos hsame] at hfound
      cases hfound
      refine ⟨[], rfl, ?_⟩
      rw [savepointsOf, map_cons, findIdx_cons, decide_eq_true (hname.mpr hsame)]
      rfl
    · rw [if_neg hsame] at hfound
      obtain ⟨inner, rfl, hindex⟩ := ih hfound
      refine ⟨head :: inner, rfl, ?_⟩
      rw [savepointsOf, map_cons, findIdx_cons,
        decide_eq_false fun heq ↦ hsame (hname.mp heq), hindex]
      rfl

section

variable {around : Surroundings} {db : Sqlite3} {ref : RefState}

def Advances (around : Surroundings) (db : Sqlite3) (ref : RefState) (cmd : Command) : Prop :=
  ∃ db', execute around db cmd = some db' ∧ Follows db' (ref.step cmd)

/-- The connection with main Btree `m`, in terms of the world and the reference state it has been
brought to. -/
theorem Follows.of_handle {world : World} {h : Handle} {temp : Option Btree} (hidle : IdleSlot temp)
    (hholds : Holds h ref.current ref.durable)
    (hended : ref.inTransaction = false → h.bt.inTrans = .none) :
    Follows (restingDb (world.update h) h.bt temp ref) ref :=
  ⟨world.update h, h.bt, temp, rfl, hidle, by rw [handle_update]; exact hholds, hended⟩

section

variable {world : World} {m : Btree} {temp : Option Btree} {ref' : RefState} {h : Handle}
  {readOnly journal : Bool} {body : Sqlite3 → Vdbe → Option (Next × Sqlite3 × Vdbe)}

/-- In a transaction a program that ends without an error leaves what its opcodes left. -/
theorem next_follows (hidle : IdleSlot temp)
    (hbody : body ((restingDb world m temp ref).countIn readOnly)
      (executing readOnly journal 0 .ok) =
        some (.next, (restingDb (world.update h) h.bt temp ref').countIn readOnly,
          executing readOnly journal 0 .ok))
    (hin : ref'.inTransaction = true) (hholds : Holds h ref'.current ref'.durable) :
    ∃ db', afterProgram around (restingDb world m temp ref) readOnly journal body =
      some db' ∧ Follows db' ref' := by
  have hafter := afterProgram_next around _ _ hbody (by simp [restingDb, Sqlite3.countIn, hin]) rfl
  have hcount : ((restingDb (world.update h) h.bt temp ref').countIn readOnly).countOut readOnly =
      restingDb (world.update h) h.bt temp ref' := by cases readOnly <;> rfl
  rw [hcount] at hafter
  exact ⟨_, hafter, Follows.of_handle hidle hholds fun hout ↦ absurd (hin.symm.trans hout)
    Bool.noConfusion⟩

/-- Outside a transaction a program that ends without an error commits. -/
theorem commits_follows {flow : Next} (hcalm : Calm around) (hidle : IdleSlot temp)
    (hflow : ∀ rc, flow ≠ .error rc) (hbody : body ((restingDb world m temp ref).countIn readOnly)
      (executing readOnly journal 0 .ok) =
        some (flow, (restingDb (world.update h) h.bt temp ref').countIn readOnly,
          executing readOnly journal 0 .ok))
    (hout : ref'.inTransaction = false) {stored : Content} (hholds : Holds h ref'.current stored) :
    ∃ db', afterProgram around (restingDb world m temp ref) readOnly journal body =
      some db' ∧ Follows db' ref' := by
  obtain ⟨h', hcommit, hholds', hended'⟩ := vdbeCommit_resting
    ((restingDb (world.update h) h.bt temp ref').countIn readOnly) hcalm rfl hidle
    (by rw [← handle_update world h] at hholds; exact hholds)
  have hafter := afterProgram_commits around _ _ hflow hbody
    (by simp [restingDb, Sqlite3.countIn, hout]) rfl hcalm.vtabInSync (by cases readOnly <;> rfl)
    rfl hcommit
  refine ⟨restingDb ((world.update h).update h') h'.bt temp ref', ?_,
    Follows.of_handle hidle ?_ fun _ ↦ hended'⟩
  · rw [hafter]
    cases readOnly <;> rfl
  · rw [← (ref'.outside hout).1]
    exact hholds'

end

section

variable (hcalm : Calm around) (hfollows : Follows db ref)

include hcalm hfollows

/-- A command that ends with an ordinary error changes nothing that can be seen. -/
theorem error_follows {body : Sqlite3 → Vdbe → Option (Next × Sqlite3 × Vdbe)}
    (hbody : body (db.countIn true) (executing true false 0 .ok) =
      some (.error .error, db.countIn true, executing true false 0 .ok)) :
    ∃ db', afterProgram around db true false body = some db' ∧ Follows db' ref := by
  obtain ⟨world, m, temp, rfl, hidle, hholds, hended⟩ := hfollows
  by_cases hin : ref.inTransaction = true
  · have hafter := afterProgram_error around _ _ hbody (by simp [restingDb, hin, Sqlite3.countIn])
      rfl (by decide) (by decide)
    exact ⟨_, hafter, world, m, temp, rfl, hidle, hholds, hended⟩
  · have hout : ref.inTransaction = false := Bool.eq_false_iff.mpr hin
    obtain ⟨h', hrolled, hholds', hended'⟩ :=
      rollbackAll_resting ((restingDb world m temp ref).countIn true) rfl hidle hholds
    have hafter := afterProgram_auto_error around _ _ hbody
      (by simp [restingDb, hout, Sqlite3.countIn]) rfl hcalm.vtabInSync rfl (by decide) (by decide)
    rw [hrolled] at hafter
    have hsame := (ref.outside hout).1
    refine ⟨_, hafter, Follows.of_handle hidle ?_ fun _ ↦ hended'⟩
    rw [hsame]
    exact hholds'

/-- `BEGIN` inside a transaction, and `COMMIT` and `ROLLBACK` outside one, are refused. -/
theorem refused_follows {desired rollback : Bool} (hsame : desired = !ref.inTransaction) :
    ∃ db', afterProgram around db true false
      (fun db p ↦ some (opAutoCommit around db p desired rollback)) = some db' ∧
        Follows db' ref := by
  refine error_follows hcalm hfollows ?_
  obtain ⟨world, m, temp, rfl, _⟩ := hfollows
  exact congrArg some (opAutoCommit_refuses around _ hsame)

theorem savepoint_follows (name : CString) : Advances around db ref (.savepoint name) := by
  obtain ⟨world, m, temp, rfl, hidle, hholds, hended⟩ := hfollows
  have hbody : opSavepointBegin around ((restingDb world m temp ref).countIn true)
      (executing true false 0 .ok) name = (.next,
        (restingDb world m temp (ref.step (.savepoint name))).countIn true,
        executing true false 0 .ok) := by
    by_cases hin : ref.inTransaction = true
    · have hcount : ref.stack.length - (if ref.transactionSavepoint then 1 else 0) + 1 =
          ref.stack.length + 1 - (if ref.transactionSavepoint then 1 else 0) := by
        split_ifs with hopen
        · have hpos := length_pos_iff.mpr (ref.opened hopen)
          omega
        · rfl
      simp [opSavepointBegin, Sqlite3.countIn, restingDb, hcalm.vtabSavepointBegin,
        hcalm.allocSavepoint, hin, RefState.step, RefState.inside, hcount]
    · obtain ⟨_, hnot, hnil⟩ := ref.outside (Bool.eq_false_iff.mpr hin)
      simp [opSavepointBegin, Sqlite3.countIn, restingDb, hcalm.vtabSavepointBegin,
        hcalm.allocSavepoint, Bool.eq_false_iff.mpr hin, RefState.step, RefState.inside, hnot, hnil]
  have hafter := afterProgram_next around (restingDb world m temp ref)
    (fun db p ↦ some (opSavepointBegin around db p name)) (congrArg some hbody) rfl rfl
  exact ⟨_, hafter, world, m, temp, rfl, hidle, hholds, fun h ↦ absurd h Bool.noConfusion⟩

theorem beginTransaction_follows : Advances around db ref .beginTransaction := by
  by_cases hin : ref.inTransaction = true
  · rw [Advances, RefState.step, if_pos hin]
    exact refused_follows hcalm hfollows (by rw [hin]; rfl)
  · have hout : ref.inTransaction = false := Bool.eq_false_iff.mpr hin
    obtain ⟨world, m, temp, rfl, hidle, hholds, hended⟩ := hfollows
    rw [Advances, RefState.step, if_neg hin]
    have hhalt := halt_releases around
      { (restingDb world m temp ref).countIn true with autoCommit := false } true false 0 rfl rfl
    rw [haltClose_none] at hhalt
    have hbody := opAutoCommit_turns around ((restingDb world m temp ref).countIn true) false
      (by simp [restingDb, Sqlite3.countIn, hout]) rfl rfl
      (hhalt.trans (haltDone_ok _ true false 0 rfl))
    have hafter := afterProgram_halted around (restingDb world m temp ref)
      (fun db p ↦ some (opAutoCommit around db p false false)) (by simp)
      (congrArg some hbody) rfl rfl rfl
    exact ⟨_, hafter, world, m, temp, rfl, hidle, hholds, fun h ↦ absurd h Bool.noConfusion⟩

theorem commit_follows : Advances around db ref .commit := by
  by_cases hin : ref.inTransaction = true
  · rw [Advances, RefState.step, if_pos hin]
    obtain ⟨world, m, temp, rfl, hidle, hholds, hended⟩ := hfollows
    obtain ⟨h', hcommit, hholds', hended'⟩ := vdbeCommit_resting
      { (restingDb world m temp ref).countIn true with autoCommit := true } hcalm rfl hidle hholds
    have hhalt := halt_commits around _ true false 0 rfl rfl hcalm.vtabInSync rfl rfl hcommit
    have hbody := opAutoCommit_turns around ((restingDb world m temp ref).countIn true) true
      (by simp [restingDb, Sqlite3.countIn, hin]) rfl rfl
      (hhalt.trans (haltDone_ok _ true false 0 rfl))
    have hafter := afterProgram_halted around (restingDb world m temp ref)
      (fun db p ↦ some (opAutoCommit around db p true false)) (by simp)
      (congrArg some hbody) rfl rfl rfl
    exact ⟨restingDb (world.update h') h'.bt temp (.closed ref.current), hafter,
      Follows.of_handle hidle hholds' fun _ ↦ hended'⟩
  · rw [Advances, RefState.step, if_neg hin]
    exact refused_follows hcalm hfollows (by rw [Bool.eq_false_iff.mpr hin]; rfl)

theorem rollback_follows : Advances around db ref .rollback := by
  by_cases hin : ref.inTransaction = true
  · rw [Advances, RefState.step, if_pos hin]
    obtain ⟨world, m, temp, rfl, hidle, hholds, hended⟩ := hfollows
    obtain ⟨h', hrolled, hholds', hended'⟩ :=
      rollbackAll_resting ((restingDb world m temp ref).countIn true) rfl hidle hholds
    have hbody : opAutoCommit around ((restingDb world m temp ref).countIn true)
        (executing true false 0 .ok) true true = (.ret,
          (restingDb (world.update h') h'.bt temp (.closed ref.durable)).countIn true,
          executing true false 0 .ok) := by
      simp only [opAutoCommit, hrolled]
      simp [restingDb, Sqlite3.countIn, hin, sqlite3CloseSavepoints, RefState.closed]
    exact commits_follows hcalm hidle (by simp) (congrArg some hbody) rfl hholds'
  · rw [Advances, RefState.step, if_neg hin]
    exact refused_follows hcalm hfollows (by rw [Bool.eq_false_iff.mpr hin]; rfl)

end

variable {entry : CString × Content} {h' : Handle} {m : Btree} {name : CString} {op : SavepointOp}
  {temp : Option Btree} {world : World}

/-- `OP_Transaction` on the main Btree, without a statement transaction. -/
theorem opTransaction_resting (around : Surroundings) (db : Sqlite3) (p : Vdbe) {wrflag : ℕ}
    (hslots : db.aDb = [some m, temp]) (hworld : db.world = world)
    (hbegan : sqlite3BtreeBeginTrans (world.handle m) wrflag = (.ok, h'))
    (hplain : ¬ (wrflag ≠ 0 ∧ p.usesStmtJournal ∧ (db.autoCommit = false ∨ 1 < db.activeVdbeCnt))) :
    opTransaction around db p 0 wrflag =
      (.next, { db with world := world.update h', aDb := [some h'.bt, temp] }, p) := by
  subst hworld
  simp only [opTransaction, hslots, getElem?_cons_zero, hbegan, Sqlite3.setDb, reduceCtorEq,
    ne_eq, not_true_eq_false, if_false, set_cons_zero]
  rw [if_neg hplain]

theorem read_follows (hcalm : Calm around) (hfollows : Follows db ref) :
    Advances around db ref .read := by
  obtain ⟨world, m, temp, rfl, hidle, hholds, hended⟩ := hfollows
  obtain ⟨h', hbegan, hholds', _, _⟩ := hholds.beginTrans 0
  have hbody := congrArg some (opTransaction_resting around
    ((restingDb world m temp ref).countIn true) (executing true false 0 .ok) rfl rfl hbegan
    (by simp))
  by_cases hin : ref.inTransaction = true
  · exact next_follows hidle hbody hin hholds'
  · exact commits_follows hcalm hidle (by simp) hbody (Bool.eq_false_iff.mpr hin) hholds'

/-- Releasing a statement transaction on the main Btree. -/
theorem haltClose_resting (db : Sqlite3) (hcalm : Calm around) (hslots : db.aDb = [some m, temp])
    (hidle : IdleSlot temp) (hopen : db.nStatement ≠ 0) (journal : Bool) {stmt : ℕ}
    (hnumber : stmt ≠ 0)
    (hclosed : closeStatementBtree (db.world.handle m) .release (stmt - 1) = (.ok, h')) :
    haltClose around db (executing false journal stmt .ok) (some .release) =
      ({ db with
          world := db.world.update h'
          aDb := [some h'.bt, temp]
          nStatement := db.nStatement - 1 }, executing false journal 0 .ok) := by
  have hloop : forEachDb (closeCall .release (stmt - 1)) .ok db.world [some m, temp] =
      (.ok, db.world.update h', [some h'.bt, temp]) :=
    forEachDb_pair (by simp only [closeCall, hclosed, if_true]) (hidle.close .release _ .ok)
  have hguard : db.nStatement ≠ 0 ∧
      (executing false journal stmt .ok).iStatement ≠ 0 := ⟨hopen, hnumber⟩
  rw [haltClose, sqlite3VdbeCloseStatement, if_pos hguard]
  simp [executing, hslots, hloop, hcalm.vtabSavepoint]

/-- A writing statement without a statement transaction. -/
theorem write_plain (around : Surroundings) (temp : Option Btree) {journal : Bool}
    (hholds : Holds (world.handle m) ref.current ref.durable)
    (hplain : ¬ (journal = true ∧ ref.inTransaction = true)) (ws : List Write) :
    ∃ h', writeBody around ws ((restingDb world m temp ref).countIn false)
        (executing false journal 0 .ok) =
        (.next, (restingDb (world.update h') h'.bt temp ref).countIn false,
          executing false journal 0 .ok) ∧
      Holds h' (applyWrites ref.current ws) ref.durable := by
  obtain ⟨h', hbegan, hholds', _, hwrite⟩ := hholds.beginTrans 1
  have hbody := opTransaction_resting around ((restingDb world m temp ref).countIn false)
    (executing false journal 0 .ok) rfl rfl hbegan (by
      simp only [restingDb, Sqlite3.countIn, executing]
      rintro ⟨_, hjournal, hauto | hother⟩
      · exact hplain ⟨hjournal, by simpa using hauto⟩
      · exact absurd hother (by simp))
  refine ⟨h'.writes ws, ?_, hholds'.writes (hwrite one_ne_zero) ws⟩
  rw [writeBody, hbody]
  simp only [if_true, Sqlite3.writeDb, getElem?_cons_zero, Sqlite3.setDb, handle_update,
    set_cons_zero]
  have hover : (world.update h').update (h'.writes ws) = world.update (h'.writes ws) :=
    update_update world rfl
  simp [restingDb, Sqlite3.countIn, hover]

theorem beginStatement_opens (hcalm : Calm around) (db : Sqlite3) {p : Vdbe} {bt : Btree}
    {stmt : Handle} (hfirst : p.iStatement = 0)
    (hstmt : sqlite3BtreeBeginStmt (db.world.handle bt) (db.nSavepoint + (db.nStatement + 1) : ℕ) =
      (.ok, stmt)) :
    beginStatement around db p 0 bt = (.next,
      { db with nStatement := db.nStatement + 1 }.setDb 0 stmt,
      { p with
        iStatement := db.nSavepoint + (db.nStatement + 1)
        nStmtDefCons := db.nDeferredCons }) := by
  simp only [beginStatement, hfirst, hcalm.vtabSavepointBegin, if_true, ne_eq, not_true_eq_false,
    if_false, hstmt]

/-- A writing statement with a statement transaction, until it halts. -/
theorem write_journalled (temp : Option Btree) (hcalm : Calm around)
    (hholds : Holds (world.handle m) ref.current ref.durable) (hin : ref.inTransaction = true)
    (ws : List Write) : ∃ opened h' : Handle, ∃ iStatement : ℕ, iStatement ≠ 0 ∧
      writeBody around ws ((restingDb world m temp ref).countIn false)
        (executing false true 0 .ok) =
        (.next, { (restingDb (world.update opened) opened.bt temp ref).countIn false with
          nStatement := 1 }, executing false true iStatement .ok) ∧
      closeStatementBtree opened .release (iStatement - 1) = (.ok, h') ∧
      Holds h' (applyWrites ref.current ws) ref.durable := by
  obtain ⟨h', hbegan, hholds', _, hwrite⟩ := hholds.beginTrans 1
  have hwriting := hwrite one_ne_zero
  obtain ⟨h'', hclosed, hholds'', _⟩ := hholds'.statement hwriting
    (Int.natCast_pos.mpr (restingDb world m temp ref).nSavepoint.succ_pos) ws
  obtain ⟨stmt, hstmt, hplace⟩ : ∃ stmt, sqlite3BtreeBeginStmt h'
      ((restingDb world m temp ref).nSavepoint + 1 : ℕ) = (.ok, stmt) ∧
      stmt.bt.pBt = h'.bt.pBt := by
    rcases beginStmt_cases h' ((restingDb world m temp ref).nSavepoint + 1 : ℕ) hholds'.tracks
      hwriting with ⟨_, _, hfail, _⟩ | ⟨_, hstmt⟩
    · exact absurd (Env.outcome_nil hholds'.working) hfail
    · exact ⟨_, hstmt, rfl⟩
  rw [hstmt] at hclosed
  refine ⟨stmt.writes ws, h'', (restingDb world m temp ref).nSavepoint + 1, Nat.succ_ne_zero _, ?_,
    hclosed, hholds''⟩
  have hover : ((world.update h').update stmt).update (stmt.writes ws) =
      world.update (stmt.writes ws) := by
    have hinner := update_update world hplace
    rw [hinner]
    exact update_update world rfl
  have hopened := beginStatement_opens hcalm
    (((restingDb world m temp ref).countIn false).setDb 0 h')
    (p := executing false true 0 .ok) rfl
    (show sqlite3BtreeBeginStmt ((world.update h').handle h'.bt) _ = _ by
      rw [handle_update]
      exact hstmt)
  have hbegins : opTransaction around ((restingDb world m temp ref).countIn false)
      (executing false true 0 .ok) 0 1 = beginStatement around
        (((restingDb world m temp ref).countIn false).setDb 0 h') (executing false true 0 .ok) 0
        h'.bt := by
    simp [opTransaction, restingDb, Sqlite3.countIn, Sqlite3.setDb, executing, hbegan, hin]
  rw [writeBody, hbegins, hopened]
  simp only [if_true, Sqlite3.writeDb, Sqlite3.setDb, restingDb, Sqlite3.countIn,
    set_cons_zero, getElem?_cons_zero, handle_update, hover]
  rfl

theorem write_follows (hcalm : Calm around) (hfollows : Follows db ref) (journal : Bool)
    (ws : List Write) : Advances around db ref (.write journal ws) := by
  obtain ⟨world, m, temp, rfl, hidle, hholds, hended⟩ := hfollows
  by_cases hin : ref.inTransaction = true
  · have hcurrent : (ref.step (.write journal ws)).current =
      applyWrites ref.current ws := by
      rw [RefState.step, if_pos hin]
    have hdurable : (ref.step (.write journal ws)).durable = ref.durable := by
      rw [RefState.step, if_pos hin]
    have hstill : (ref.step (.write journal ws)).inTransaction = true := by
      rw [RefState.step, if_pos hin]
    have hbooks : ∀ world m, restingDb world m temp (ref.step (.write journal ws)) =
        restingDb world m temp ref := by
      intro world m
      rw [RefState.step, if_pos hin]
      simp [restingDb, hin]
    -- A statement transaction is opened only for a statement that asks for one.
    suffices hrun : ∃ (world' : World) (h' : Handle), execute around (restingDb world m temp ref)
        (.write journal ws) = some (restingDb (world'.update h') h'.bt temp ref) ∧
        Holds h' (applyWrites ref.current ws) ref.durable by
      obtain ⟨world', h', hafter, hholds'⟩ := hrun
      refine ⟨_, hafter, ?_⟩
      rw [← hbooks]
      refine Follows.of_handle hidle ?_ fun hout ↦ absurd (hstill.symm.trans hout) Bool.noConfusion
      rw [hcurrent, hdurable]
      exact hholds'
    by_cases hjournal : journal = true
    · subst hjournal
      obtain ⟨opened, h', stmt, hnumber, hbody, hclosed, hholds'⟩ :=
        write_journalled temp hcalm hholds hin ws
      rw [← handle_update world opened] at hclosed
      have hafter := afterProgram_eq around (restingDb world m temp ref)
        (fun db p ↦ some (writeBody around ws db p)) (congrArg some hbody)
      have hclose := haltClose_resting
        { (restingDb (world.update opened) opened.bt temp ref).countIn false with nStatement := 1 }
        hcalm rfl hidle one_ne_zero true hnumber hclosed
      have hhalt := halt_releases around
        { (restingDb (world.update opened) opened.bt temp ref).countIn false with nStatement := 1 }
        false true stmt (by simp [restingDb, Sqlite3.countIn, hin]) rfl
      have hdone := (hhalt.trans (congrArg (fun closed ↦ haltDone closed.1 closed.2) hclose)).trans
        (haltDone_ok _ false true 0 rfl)
      exact ⟨world.update opened, h', hafter.trans (congrArg (fun halted ↦ some halted.2.1) hdone),
        hholds'⟩
    · obtain ⟨h', hbody, hholds'⟩ := write_plain around temp hholds
        (fun hboth ↦ hjournal hboth.1) ws
      have hafter := afterProgram_next around (restingDb world m temp ref)
        (fun db p ↦ some (writeBody around ws db p)) (congrArg some hbody)
        (by simp [restingDb, Sqlite3.countIn, hin]) rfl
      exact ⟨world, h', hafter, hholds'⟩
  · have hout : ref.inTransaction = false := Bool.eq_false_iff.mpr hin
    obtain ⟨_, hnot, hnil⟩ := ref.outside hout
    obtain ⟨h', hbody, hholds'⟩ := write_plain around temp hholds (fun hboth ↦ hin hboth.2) ws
    have hbooks : restingDb (world.update h') h'.bt temp ref =
        restingDb (world.update h') h'.bt temp (.closed (applyWrites ref.current ws)) := by
      simp [restingDb, RefState.closed, hout, hnot, hnil]
    rw [hbooks] at hbody
    rw [Advances, RefState.step, if_neg hin]
    exact commits_follows hcalm hidle (by simp) (congrArg some hbody) rfl hholds'

/-- The savepoint operation on the two slots, when both hold a Btree. -/
theorem savepointDbs_resting {index : ℤ} (hidle : IdleSlot temp) (hopen : temp ≠ none)
    (hcalled : sqlite3BtreeSavepoint (world.handle m) op index = (.ok, h')) :
    savepointDbs op index world [some m, temp] =
      some (.ok, world.update h', [some h'.bt, temp]) := by
  obtain ⟨q, rfl⟩ := ne_none_iff_exists'.mp hopen
  obtain ⟨_, _, hcurr, _⟩ := hidle q rfl
  have htemp : sqlite3BtreeSavepoint ((world.update h').handle q) op index =
      (.ok, (world.update h').handle q) := savepoint_idle hcurr op index
  simp only [savepointDbs, hcalled, htemp, ne_eq, not_true_eq_false, if_false, update_handle,
    map_some]
  rfl

/-- `OP_Savepoint` on a savepoint that the reference machine finds, unless it releases the one that
opened the transaction. Assumes: the call on the main Btree leaves the contents of a reference state
in which the savepoints are those that `closeSavepoint` leaves. -/
theorem savepointEnd_follows (hcalm : Calm around) (hfollows : Follows db ref) {ref' : RefState}
    {rest : List (CString × Content)} (hfound : openFrom name ref.stack = some (entry, rest))
    (hopen : none ∉ db.aDb) (hin : ref'.inTransaction = true)
    (hinside : ¬ ((rest = [] ∧ ref.transactionSavepoint = true) ∧ op = .release))
    (hcalled : ∀ {h : Handle}, Holds h ref.current ref.durable → ∀ index, ∃ h',
      sqlite3BtreeSavepoint h op index = (.ok, h') ∧ Holds h' ref'.current ref'.durable)
    (hbooks : ∀ inner, ref.stack = inner ++ entry :: rest → ∀ world m temp,
      closeSavepoint ((restingDb world m temp ref).countIn true) op inner.length ⟨entry.1, 0⟩
          (rest = [] ∧ ref.transactionSavepoint = true) =
        (restingDb world m temp ref').countIn true) :
    ∃ db', afterProgram around db true false (fun db p ↦ opSavepointEnd around db p op name) =
      some db' ∧ Follows db' ref' := by
  obtain ⟨inner, hstack, hindex⟩ := drop_savepoint hfound
  obtain ⟨world, m, temp, rfl, hidle, hholds, _⟩ := hfollows
  have htemp : temp ≠ none := fun hnone ↦ hopen (by simp [restingDb, hnone])
  obtain ⟨h', hleft, hholds'⟩ := hcalled hholds
    ((restingDb world m temp ref).nSavepoint - inner.length - 1)
  refine next_follows hidle ?_ hin hholds'
  have hfind := find_savepoint name ref.stack
  rw [hfound] at hfind
  have hlast : (inner.length + 1 = ref.stack.length) = (rest = []) := by
    rw [hstack, ← length_eq_zero_iff]
    simp only [length_append, length_cons]
    exact propext ⟨fun h ↦ by omega, fun h ↦ by omega⟩
  have hdbs := savepointDbs_resting hidle htemp hleft
  rw [← hbooks inner hstack]
  simp only [opSavepointEnd, restingDb, Sqlite3.countIn, hfind, map_some, hindex,
    length_map, hlast] at hdbs ⊢
  rw [if_neg (by simp), if_neg (by simpa using hinside), hdbs]
  simp [hcalm.vtabSavepoint]

theorem RefState.inTransaction_of_found {rest : List (CString × Content)}
    (hfound : openFrom name ref.stack = some (entry, rest)) : ref.inTransaction = true := by
  by_contra hout
  rw [(ref.outside (Bool.eq_false_iff.mpr hout)).2.2, openFrom] at hfound
  cases hfound

theorem opSavepointEnd_unknown (hnone : openFrom name ref.stack = none) (op : SavepointOp) :
    opSavepointEnd around ((restingDb world m temp ref).countIn true)
        (executing true false 0 .ok) op name =
      some (.error .error, (restingDb world m temp ref).countIn true,
        executing true false 0 .ok) := by
  have hfind := find_savepoint name ref.stack
  rw [hnone] at hfind
  simp [opSavepointEnd, restingDb, Sqlite3.countIn, hfind]

section

variable (hcalm : Calm around) (hfollows : Follows db ref)

include hcalm hfollows

/-- `ROLLBACK TO` and `RELEASE` of a name that no savepoint has are refused. -/
theorem unknown_follows (hnone : openFrom name ref.stack = none) (op : SavepointOp) :
    ∃ db', afterProgram around db true false (fun db p ↦ opSavepointEnd around db p op name) =
      some db' ∧ Follows db' ref := by
  refine error_follows hcalm hfollows ?_
  obtain ⟨world, m, temp, rfl, _⟩ := hfollows
  exact opSavepointEnd_unknown hnone op

theorem rollbackTo_follows (name : CString) (hguard : SavepointGuard db ref (.rollbackTo name)) :
    Advances around db ref (.rollbackTo name) := by
  cases hfound : openFrom name ref.stack with
  | none =>
    rw [Advances, RefState.step, hfound]
    exact unknown_follows hcalm hfollows hfound .rollback
  | some found =>
    obtain ⟨entry, rest⟩ := found
    have hin := RefState.inTransaction_of_found hfound
    obtain ⟨hopen, hdurable⟩ := hguard entry rest hfound
    rw [Advances, RefState.step, hfound]
    refine savepointEnd_follows hcalm hfollows hfound hopen rfl (by simp)
      (fun hholds index ↦ ?_) fun inner hstack world m temp ↦ ?_
    · obtain ⟨h', hrolled, hholds', _⟩ := hholds.savepoint_rollback index
      exact ⟨h', hrolled, hdurable ▸ hholds'⟩
    · have hcount : ref.stack.length - (if ref.transactionSavepoint then 1 else 0) - inner.length =
          rest.length + 1 - (if ref.transactionSavepoint then 1 else 0) := by
        rw [hstack, length_append, length_cons]
        split_ifs <;> omega
      have hdrop : (savepointsOf ref.stack).drop inner.length = savepointsOf (entry :: rest) := by
        rw [savepointsOf, ← map_drop, hstack, drop_left]
      simp only [closeSavepoint, restingDb, Sqlite3.countIn, RefState.inside, hcount, hdrop, hin,
        length_cons]
      rfl

/-- Releasing the savepoint that opened the transaction commits it. -/
theorem releaseTransaction_follows (hfound : openFrom name ref.stack = some (entry, []))
    (hopener : ref.transactionSavepoint = true) :
    ∃ db', execute around db (.release name) = some db' ∧ Follows db' (.closed ref.current) := by
  obtain ⟨inner, hstack, hindex⟩ := drop_savepoint hfound
  obtain ⟨world, m, temp, rfl, hidle, hholds, _⟩ := hfollows
  obtain ⟨h', hcommit, hholds', hended'⟩ := vdbeCommit_resting
    { (restingDb world m temp ref).countIn true with autoCommit := true } hcalm rfl hidle hholds
  have hhalt := (halt_commits around _ true false 0 rfl rfl hcalm.vtabInSync rfl rfl hcommit).trans
    (haltDone_ok _ true false 0 rfl)
  have hfind := find_savepoint name ref.stack
  rw [hfound] at hfind
  have hlast : inner.length + 1 = ref.stack.length := by
    rw [hstack, length_append, length_singleton]
  have hbody := opSavepointEnd_commits around ((restingDb world m temp ref).countIn true)
    hfind hindex
    (hlast.trans (length_map _).symm) hopener rfl rfl hhalt rfl
  have hafter := afterProgram_halted around (restingDb world m temp ref)
    (fun db p ↦ opSavepointEnd around db p .release name) (by simp) hbody rfl rfl rfl
  refine ⟨restingDb (world.update h') h'.bt temp (.closed ref.current), hafter.trans ?_,
    Follows.of_handle hidle hholds' fun _ ↦ hended'⟩
  have hcount : ref.stack.length - (if ref.transactionSavepoint then 1 else 0) - inner.length =
      0 := by
    rw [hopener, if_pos rfl]
    omega
  have hdrop : (savepointsOf ref.stack).drop (inner.length + 1) = [] := by
    rw [hlast, drop_eq_nil_of_le (by rw [length_map])]
  simp only [closeSavepoint, restingDb, Sqlite3.countOut, Sqlite3.countIn, hcount, hdrop]
  rfl

theorem release_follows (name : CString) (hguard : SavepointGuard db ref (.release name)) :
    Advances around db ref (.release name) := by
  cases hfound : openFrom name ref.stack with
  | none =>
    rw [Advances, RefState.step, hfound]
    exact unknown_follows hcalm hfollows hfound .release
  | some found =>
    obtain ⟨entry, rest⟩ := found
    by_cases hopener : rest = [] ∧ ref.transactionSavepoint = true
    · have hstep : ref.step (.release name) = .closed ref.current := by
        rw [RefState.step, hfound]
        exact dif_pos hopener
      obtain ⟨rfl, hopener⟩ := hopener
      rw [Advances, hstep]
      exact releaseTransaction_follows hcalm hfollows hfound hopener
    · have hin := RefState.inTransaction_of_found hfound
      obtain ⟨hopen, hdurable⟩ := hguard entry rest hfound hopener
      have hstep : ref.step (.release name) = .inside ref.durable ref.current
          ref.transactionSavepoint rest fun hopen hnil ↦ hopener ⟨hnil, hopen⟩ := by
        rw [RefState.step, hfound]
        exact dif_neg hopener
      rw [Advances, hstep]
      refine savepointEnd_follows hcalm hfollows hfound hopen rfl (fun h ↦ hopener h.1)
        (fun hholds index ↦ ?_) fun inner hstack world m temp ↦ ?_
      · obtain ⟨h', hreleased, hholds', _⟩ := hholds.savepoint_release index
        refine ⟨h', hreleased, ?_⟩
        rw [← hdurable]
        exact hholds'
      · have hcount : ref.stack.length - (if ref.transactionSavepoint then 1 else 0) -
            inner.length - 1 = rest.length - (if ref.transactionSavepoint then 1 else 0) := by
          rw [hstack, length_append, length_cons]
          split_ifs <;> omega
        have hdrop : (savepointsOf ref.stack).drop (inner.length + 1) = savepointsOf rest := by
          rw [savepointsOf, ← map_drop, hstack, ← drop_drop, drop_left, drop_one, tail_cons]
        simp only [closeSavepoint, restingDb, Sqlite3.countIn, RefState.inside, hdrop, hin,
          decide_eq_true_eq, if_neg hopener, hcount]
        rfl

end

/-- Every command inside the guard keeps the connection in step with the reference machine. -/
theorem execute_follows (hcalm : Calm around) (cmd : Command) (hfollows : Follows db ref)
    (hguard : SavepointGuard db ref cmd) : Advances around db ref cmd := by
  cases cmd with
  | beginTransaction => exact beginTransaction_follows hcalm hfollows
  | savepoint name => exact savepoint_follows hcalm hfollows name
  | rollbackTo name => exact rollbackTo_follows hcalm hfollows name hguard
  | release name => exact release_follows hcalm hfollows name hguard
  | commit => exact commit_follows hcalm hfollows
  | rollback => exact rollback_follows hcalm hfollows
  | read => exact read_follows hcalm hfollows
  | write journal ws => exact write_follows hcalm hfollows journal ws

end

/-! ### Runs -/

/-- The content the main database shows through its Btree, and its durable content. -/
def Sqlite3.Shows (db : Sqlite3) (current durable : Content) : Prop :=
  ∃ m rest, db.aDb = some m :: rest ∧ (db.world.handle m).visible = current ∧
    (db.world.env m.pBt).store.durable = durable

/-- A connection as it is opened on a database, with the given slot for the temp database. -/
def Sqlite3.opened (content : Content) (currentIsOp : Bool) (temp : Option Btree) : Sqlite3 where
  world := ⟨fun _ ↦ Env.created content [] currentIsOp, fun _ ↦ ⟨none, none⟩⟩
  aDb := [some ⟨0, 0, none, none, .none, []⟩, temp]
  autoCommit := true
  isTransactionSavepoint := false
  pSavepoint := []
  nSavepoint := 0
  nStatement := 0
  nDeferredCons := 0
  activeVdbeCnt := 0
  writeVdbeCnt := 0
  mallocFailed := false

theorem Follows.opened (content : Content) (currentIsOp : Bool) {temp : Option Btree}
    (hidle : IdleSlot temp) : Follows (Sqlite3.opened content currentIsOp temp) (.closed content) :=
  ⟨_, _, temp, rfl, hidle,
    Holds.of_ended (p := ⟨0, 0, none, none, .none, []⟩) rfl rfl rfl rfl, fun _ ↦ rfl⟩

theorem Follows.shows {db : Sqlite3} {ref : RefState} (hfollows : Follows db ref) :
    db.Shows ref.current ref.durable := by
  obtain ⟨world, m, temp, rfl, _, hholds, _⟩ := hfollows
  exact ⟨m, [temp], rfl, hholds.visible, hholds.durable⟩

/-- Assumes: nothing outside the backend stands in the way, and the slot of the temp database is
empty or holds a Btree that is not in use. A run of commands inside the guard does what the
reference machine does: after each of its commands the connection shows the contents of the
reference machine. -/
theorem savepoint_runs_agree (around : Surroundings) (hcalm : Calm around) (content : Content)
    (currentIsOp : Bool) (temp : Option Btree) (hidle : IdleSlot temp) (commands : List Command)
    (hguarded : Guarded (execute around) RefState.step SavepointGuard
      (Sqlite3.opened content currentIsOp temp) (.closed content) commands) (count : ℕ) :
    ∃ db, run (execute around) (Sqlite3.opened content currentIsOp temp) (commands.take count) =
        some db ∧
      db.Shows ((commands.take count).foldl RefState.step (.closed content)).current
        ((commands.take count).foldl RefState.step (.closed content)).durable := by
  obtain ⟨db, hrun, hfollows⟩ := hguarded.simulates_take
    (fun _ _ cmd hfollows hguard ↦ execute_follows hcalm cmd hfollows hguard)
    (Follows.opened content currentIsOp hidle) count
  exact ⟨db, hrun, hfollows.shows⟩

/-- Nothing outside the backend fails. -/
def calmSurroundings : Surroundings where
  toOutside := calmOutside
  vtabInSync := false
  vtabSavepoint := fun _ ↦ .ok
  vtabSavepointBegin := .ok
  allocSavepoint := true

def savepointName : CString := ⟨[97], by decide⟩

/-- The release of the savepoint that opened a transaction makes the writes in it durable. -/
theorem savepoint_runs_agree_release : ∃ db, run (execute calmSurroundings)
      (Sqlite3.opened ⟨fun _ ↦ none⟩ false none)
      [.savepoint savepointName, .write true [createTab 2], .release savepointName] = some db ∧
    db.Shows (applyWrites ⟨fun _ ↦ none⟩ [createTab 2])
      (applyWrites ⟨fun _ ↦ none⟩ [createTab 2]) := by
  refine savepoint_runs_agree calmSurroundings ⟨rfl, rfl, rfl, fun _ ↦ rfl, rfl, rfl⟩ ⟨fun _ ↦ none⟩
    false none (fun q hq ↦ absurd hq (by simp)) [.savepoint savepointName,
      .write true [createTab 2], .release savepointName] ?_ 3
  refine ⟨trivial, fun _ _ ↦ ⟨trivial, fun _ _ ↦ ⟨?_, fun _ _ ↦ trivial⟩⟩⟩
  intro entry rest hfound hinside
  cases hfound
  exact absurd ⟨rfl, rfl⟩ hinside

/-- A rollback to a savepoint takes back what was written before the savepoint was opened: the table
the reference machine still shows is gone. -/
theorem rollbackTo_loses_writes : ∃ db, run (execute calmSurroundings)
      (Sqlite3.opened ⟨fun _ ↦ none⟩ false (some ⟨1, 1, none, none, .none, []⟩))
      [.beginTransaction, .write false [createTab 2], .savepoint savepointName,
        .rollbackTo savepointName] = some db ∧
    ¬ db.Shows ([Command.beginTransaction, .write false [createTab 2], .savepoint savepointName,
        .rollbackTo savepointName].foldl RefState.step (.closed ⟨fun _ ↦ none⟩)).current
      ([Command.beginTransaction, .write false [createTab 2], .savepoint savepointName,
        .rollbackTo savepointName].foldl RefState.step (.closed ⟨fun _ ↦ none⟩)).durable := by
  refine ⟨_, rfl, ?_⟩
  rintro ⟨m, rest, hslots, hvisible, _⟩
  obtain rfl := some.inj (cons.inj hslots).1
  exact absurd (congrArg (fun content ↦ (content.db (.tab 2)).isSome) hvisible) (by decide)

end LumoSQL
