import LumoSQL.Vdbe.Connection
import Mathlib.Data.List.TakeWhile

/-!
# Committing over several databases

`vdbeCommit` was written for a two-phase commit: phase one makes every database ready to commit and
can still be undone, and phase two, or the removal of a master journal, decides. In this backend
`sqlite3BtreeCommitPhaseOne` commits for good and phase two is empty, so a failure in the middle of
the loop finds the databases before it already committed, and so does a failure to remove the master
journal.

`commitDbs_durable` says what the loop over the databases does: in the order of `aDb`, every writing
Btree is committed up to the first one that LMDB refuses. `vdbeCommit_atomic_iff` gives the exact
condition under which the commit is atomic: it does not get to the loop, or nothing fails, or the
databases committed before the failure had nothing new.
-/

namespace LumoSQL

open Foundation List SnapshotStore Env World

/-- What `vdbeCommit` asks of code outside the backend: the virtual table modules, the commit hook,
the VFS and the allocator. -/
structure Outside where
  vtabSync : Rc
  xCommitCallback : Option ℤ
  filename : String
  allocMaster : Bool
  osAccess : ℕ → Rc × Bool
  osOpen : Rc
  journalname : ℕ → Option String
  syncDisabled : ℕ → Bool
  osWrite : ℕ → Rc
  sequential : Bool
  osSync : Rc
  osDelete : Rc

/-- The write transactions are counted without the temp database, which has index 1. -/
def nTrans (aDb : List (Option Btree)) : ℕ :=
  (aDb.eraseIdx 1).countP fun slot ↦ slot.any sqlite3BtreeIsInTrans

def needXcommit (aDb : List (Option Btree)) : Bool :=
  aDb.any fun slot ↦ slot.any sqlite3BtreeIsInTrans

/-- The loop that looks for an unused name for the master journal, `retryCount` names having been
tried. It gives up looking after a hundred names and takes the next one as it is. -/
def chooseMaster (outside : Outside) (retryCount : ℕ) : Rc :=
  if 100 < retryCount then .ok
  else
    match outside.osAccess retryCount with
    | (.ok, true) => chooseMaster outside (retryCount + 1)
    | (rc, _) => rc
termination_by 101 - retryCount

/-- The loop that writes the names of the journals into the master journal. The result is the first
error, or whether the master journal has to be synced. -/
def writeMaster (outside : Outside) : ℕ → Bool → List (Option Btree) → Except Rc Bool
  | _, needSync, [] => .ok needSync
  | offset, needSync, none :: rest => writeMaster outside offset needSync rest
  | offset, needSync, some p :: rest =>
    if sqlite3BtreeIsInTrans p then
      match outside.journalname p.pBt with
      | none => writeMaster outside offset needSync rest
      | some zFile =>
        if outside.osWrite offset = .ok then
          writeMaster outside (offset + zFile.utf8ByteSize + 1)
            (needSync || !outside.syncDisabled p.pBt) rest
        else .error (outside.osWrite offset)
    else writeMaster outside offset needSync rest

/-- The master journal is named, opened, written and synced. -/
def prepareMaster (outside : Outside) (aDb : List (Option Btree)) : Rc :=
  if !outside.allocMaster then .nomem
  else if chooseMaster outside 0 ≠ .ok then chooseMaster outside 0
  else if outside.osOpen ≠ .ok then outside.osOpen
  else
    match writeMaster outside 0 false aDb with
    | .error rc => rc
    | .ok needSync => if needSync && !outside.sequential then outside.osSync else .ok

/-- The body of the loop over `sqlite3BtreeCommitPhaseOne`: it stops at the first error. -/
def phaseOneCall (rc : Rc) (h : Handle) : Rc × Handle :=
  if rc = .ok then sqlite3BtreeCommitPhaseOne h else (rc, h)

/-- The body of the loop over `sqlite3BtreeCommitPhaseTwo`. -/
def phaseTwoCall (rc : Rc) (h : Handle) : Rc × Handle :=
  if rc = .ok then sqlite3BtreeCommitPhaseTwo h else (rc, h)

/-- The loop over `sqlite3BtreeCommitPhaseOne`. -/
def commitDbs (db : Sqlite3) : Rc × Sqlite3 :=
  let committed := forEachDb phaseOneCall .ok db.world db.aDb
  (committed.1, { db with world := committed.2.1, aDb := committed.2.2 })

/-- The loop over `sqlite3BtreeCommitPhaseTwo`. -/
def finishDbs (rc : Rc) (db : Sqlite3) : Rc × Sqlite3 :=
  let finished := forEachDb phaseTwoCall rc db.world db.aDb
  (finished.1, { db with world := finished.2.1, aDb := finished.2.2 })

/-- The simple case of `vdbeCommit`: at most one database file besides the temp database has a write
transaction, or the main database has no file, and no master journal is needed. -/
def SimpleCase (outside : Outside) (db : Sqlite3) : Prop :=
  outside.filename.utf8ByteSize = 0 ∨ nTrans db.aDb ≤ 1

instance (outside : Outside) (db : Sqlite3) : Decidable (SimpleCase outside db) :=
  inferInstanceAs (Decidable (_ ∨ _))

def vdbeCommit (outside : Outside) (db : Sqlite3) : Rc × Sqlite3 :=
  if outside.vtabSync ≠ .ok then (outside.vtabSync, db)
  else if needXcommit db.aDb ∧ outside.xCommitCallback.getD 0 ≠ 0 then (.constraintCommithook, db)
  else if SimpleCase outside db then
    let committed := commitDbs db
    finishDbs committed.1 committed.2
  else if prepareMaster outside db.aDb ≠ .ok then (prepareMaster outside db.aDb, db)
  else
    let committed := commitDbs db
    if committed.1 ≠ .ok then committed
    else if outside.osDelete ≠ .ok then (outside.osDelete, committed.2)
    else (.ok, (finishDbs .ok committed.2).2)

/-! ### Phase two -/

theorem forEachDb_still {call : Rc → Handle → Rc × Handle} (rc : Rc)
    (hcall : ∀ h, call rc h = (rc, h)) (world : World) (aDb : List (Option Btree)) :
    forEachDb call rc world aDb = (rc, world, aDb) := by
  induction aDb with
  | nil => rfl
  | cons slot rest ih =>
    cases slot with
    | none => simp only [forEachDb, ih]
    | some p =>
      simp only [forEachDb, hcall, update_handle, ih]
      rfl

/-- Phase two changes nothing. -/
theorem finishDbs_eq (rc : Rc) (db : Sqlite3) : finishDbs rc db = (rc, db) := by
  have hcall : ∀ h, phaseTwoCall rc h = (rc, h) := by
    intro h
    unfold phaseTwoCall sqlite3BtreeCommitPhaseTwo
    split_ifs with hok
    · rw [hok]
    · rfl
  simp [finishDbs, forEachDb_still rc hcall]

/-! ### Phase one on one Btree -/

/-- Two environments with the same durable content, write stack and codes to come. -/
def SameWriter (env env' : Env) : Prop :=
  env'.store.durable = env.store.durable ∧ env'.store.writer = env.store.writer ∧
    env'.outcomes = env.outcomes

section

variable {h : Handle}

/-- Phase one on a Btree that does not write succeeds and ends at most a read transaction. -/
theorem phaseOne_quiet (htracks : Tracks h.env h.bt) (hquiet : h.bt.inTrans ≠ .write) :
    (sqlite3BtreeCommitPhaseOne h).1 = .ok ∧
      SameWriter h.env (sqlite3BtreeCommitPhaseOne h).2.env := by
  rcases htracks with ⟨_, hmain, _⟩ | ⟨_, reader, hmem, hmain, _⟩ | ⟨hin, _, _, _⟩
  · simp only [sqlite3BtreeCommitPhaseOne, hmain, closeCursors_env]
    exact ⟨trivial, rfl, rfl, rfl⟩
  · simp only [sqlite3BtreeCommitPhaseOne, hmain, closeCursors_env, mdbTxnCommit_reader hmem]
    exact ⟨rfl, rfl, rfl, rfl⟩
  · exact absurd hin hquiet

/-- Phase one on a writing Btree makes durable what it sees, when LMDB accepts the commit. -/
theorem phaseOne_accepted (htracks : Tracks h.env h.bt) (hwrite : h.bt.inTrans = .write)
    (hok : h.env.outcome = .success) : (sqlite3BtreeCommitPhaseOne h).1 = .ok ∧
      (sqlite3BtreeCommitPhaseOne h).2.env.store.durable = h.env.store.tip := by
  obtain ⟨inner, last, hends, hmain⟩ := htracks.exists_bottom hwrite
  have hmem : last.id ∈ h.env.store.writer.map Frame.id := by simp [hends]
  simp only [sqlite3BtreeCommitPhaseOne, hmain, closeCursors_env, mdbTxnCommit_writer hmem,
    if_pos hok]
  exact ⟨rfl, (commit_outermost hends).2.1⟩

/-- Phase one on a writing Btree fails and leaves the durable content, when LMDB refuses the
commit. -/
theorem phaseOne_refused (htracks : Tracks h.env h.bt) (hwrite : h.bt.inTrans = .write)
    (hfail : h.env.outcome ≠ .success) : (sqlite3BtreeCommitPhaseOne h).1 ≠ .ok ∧
      (sqlite3BtreeCommitPhaseOne h).2.env.store.durable = h.env.store.durable := by
  obtain ⟨inner, last, hends, hmain⟩ := htracks.exists_bottom hwrite
  have hmem : last.id ∈ h.env.store.writer.map Frame.id := by simp [hends]
  simp only [sqlite3BtreeCommitPhaseOne, hmain, closeCursors_env, mdbTxnCommit_writer hmem,
    if_neg hfail]
  exact ⟨fun hok ↦ hfail ((errmap_eq_ok_iff _).mp hok), (abort_outermost hends).2.1⟩

/-- A writing Btree sees what is on top of the write stack. -/
theorem visible_eq_tip (htracks : Tracks h.env h.bt) (hwrite : h.bt.inTrans = .write) :
    h.visible = h.env.store.tip := by
  obtain ⟨top, rest, hwriter, hcurr⟩ := htracks.exists_top hwrite
  simp [Handle.visible, hcurr, seen_top hwriter, tip_of_writer hwriter]

end

/-! ### Phase one on every Btree -/

def writers : List (Option Btree) → List Btree
  | [] => []
  | none :: rest => writers rest
  | some p :: rest => if sqlite3BtreeIsInTrans p then p :: writers rest else writers rest

def accepts (world : World) (p : Btree) : Bool := (world.env p.pBt).outcome = .success

def committedFirst (world : World) (aDb : List (Option Btree)) : List Btree :=
  (writers aDb).takeWhile (accepts world)

variable {aDb : List (Option Btree)} {p : Btree} {rc : Rc} {rest : List (Option Btree)}
  {world : World}

theorem mem_writers : p ∈ writers aDb ↔ some p ∈ aDb ∧ p.inTrans = .write := by
  induction aDb with
  | nil => simp [writers]
  | cons slot rest ih =>
    cases slot with
    | none => simp [writers, ih]
    | some q =>
      by_cases hwrite : q.inTrans = .write
      · simp only [writers, sqlite3BtreeIsInTrans, hwrite, decide_true, if_true, mem_cons, ih,
          Option.some.injEq]
        constructor
        · rintro (rfl | ⟨hmem, hin⟩)
          · exact ⟨.inl rfl, hwrite⟩
          · exact ⟨.inr hmem, hin⟩
        · rintro ⟨heq | hmem, hin⟩
          · exact .inl heq
          · exact .inr ⟨hmem, hin⟩
      · simp only [writers, sqlite3BtreeIsInTrans, hwrite, decide_false, Bool.false_eq_true,
          if_false, mem_cons, ih, Option.some.injEq]
        constructor
        · rintro ⟨hmem, hin⟩
          exact ⟨.inr hmem, hin⟩
        · rintro ⟨rfl | hmem, hin⟩
          · exact absurd hin hwrite
          · exact ⟨hmem, hin⟩

theorem accepts_congr {world world' : World}
    (hsame : (world'.env p.pBt).outcomes = (world.env p.pBt).outcomes) :
    accepts world' p = accepts world p := by
  unfold accepts Env.outcome
  rw [hsame]

/-- Two worlds whose remaining writing Btrees meet the same codes commit the same of them. -/
theorem committedFirst_congr {world world' : World}
    (hsame : ∀ p ∈ writers aDb, (world'.env p.pBt).outcomes = (world.env p.pBt).outcomes) :
    committedFirst world' aDb = committedFirst world aDb := by
  have htake : ∀ ps : List Btree,
      (∀ p ∈ ps, (world'.env p.pBt).outcomes = (world.env p.pBt).outcomes) →
      ps.takeWhile (accepts world') = ps.takeWhile (accepts world) := by
    intro ps hps
    induction ps with
    | nil => rfl
    | cons p ps ih =>
      rw [takeWhile_cons, takeWhile_cons, accepts_congr (hps p (.head _)),
        ih fun q hq ↦ hps q (.tail _ hq)]
  exact htake _ hsame

/-- Assumes: a coherent connection. The other writing Btrees are on other environments. -/
theorem Coherent.writers_elsewhere (hcoherent : Coherent world (some p :: rest))
    (hwrite : p.inTrans = .write) : ∀ q ∈ writers rest, q.pBt ≠ p.pBt := by
  intro q hq hsame
  obtain ⟨hmem, hqwrite⟩ := mem_writers.mp hq
  have hapart := (pairwise_cons.mp hcoherent.apart).1 _ hmem p q rfl rfl hsame.symm
  have htracks := hcoherent.tracks p (.head _)
  have hqtracks := hcoherent.tracks q (.tail _ hmem)
  rw [hsame] at hqtracks
  exact htracks.not_both_write hqtracks hapart hwrite hqwrite

/-- What the loop has done when it ends: the result code, and the durable contents. -/
structure PhaseOneDone (world : World) (aDb : List (Option Btree)) (rc : Rc) (world' : World) :
    Prop where
  ok_iff : rc = .ok ↔ ∀ p ∈ writers aDb, accepts world p
  committed : ∀ e, (∃ p ∈ committedFirst world aDb, p.pBt = e) →
    (world'.env e).store.durable = (world.env e).store.tip
  kept : ∀ e, (¬ ∃ p ∈ committedFirst world aDb, p.pBt = e) →
    (world'.env e).store.durable = (world.env e).store.durable

/-- A Btree that does not write takes no part in what the loop does. -/
theorem PhaseOneDone.skip {world world₁ world' : World} {slot : Option Btree}
    (hskip : writers (slot :: rest) = writers rest)
    (hsame : ∀ e, SameWriter (world.env e) (world₁.env e))
    (hdone : PhaseOneDone world₁ rest rc world') : PhaseOneDone world (slot :: rest) rc world' := by
  have haccepts : accepts world₁ = accepts world := by
    ext p
    rw [accepts_congr (hsame p.pBt).2.2]
  have hfirst : committedFirst world (slot :: rest) = committedFirst world₁ rest := by
    rw [committedFirst, committedFirst, hskip, haccepts]
  refine ⟨?_, ?_, ?_⟩
  · rw [hdone.ok_iff, hskip, haccepts]
  · intro e he
    rw [hdone.committed e (hfirst ▸ he), SnapshotStore.tip, SnapshotStore.tip, (hsame e).1,
      (hsame e).2.1]
  · intro e he
    rw [hdone.kept e (hfirst ▸ he), (hsame e).1]

/-- Assumes: a coherent connection whose first Btree writes and is committed. The loop goes on with
the others, which are on other environments. -/
theorem PhaseOneDone.commit {world world₁ world' : World}
    (hwriters : writers (some p :: rest) = p :: writers rest)
    (helsewhere : ∀ q ∈ writers rest, q.pBt ≠ p.pBt) (hok : accepts world p)
    (hdurable : (world₁.env p.pBt).store.durable = (world.env p.pBt).store.tip)
    (helse : ∀ e, e ≠ p.pBt → world₁.env e = world.env e)
    (hdone : PhaseOneDone world₁ rest rc world') :
    PhaseOneDone world (some p :: rest) rc world' := by
  have haccepts : ∀ q ∈ writers rest, accepts world₁ q = accepts world q := fun q hq ↦
    accepts_congr (by rw [helse _ (helsewhere q hq)])
  have hrest : committedFirst world₁ rest = committedFirst world rest :=
    committedFirst_congr fun q hq ↦ by rw [helse _ (helsewhere q hq)]
  have hfirst : committedFirst world (some p :: rest) = p :: committedFirst world₁ rest := by
    rw [hrest, committedFirst, hwriters, takeWhile_cons, if_pos hok, committedFirst]
  refine ⟨?_, ?_, ?_⟩
  · rw [hdone.ok_iff, hwriters, forall_mem_cons]
    constructor
    · intro hall
      exact ⟨hok, fun q hq ↦ haccepts q hq ▸ hall q hq⟩
    · intro hall q hq
      exact (haccepts q hq).symm ▸ hall.2 q hq
  · intro e he
    rw [hfirst] at he
    obtain ⟨q, hq, hqe⟩ := he
    by_cases hep : e = p.pBt
    · have hnone : ¬ ∃ q ∈ committedFirst world₁ rest, q.pBt = e := by
        rintro ⟨q, hq, hqe⟩
        exact helsewhere q ((takeWhile_sublist _).subset hq) (hqe.trans hep)
      rw [hdone.kept e hnone, hep, hdurable]
    · rcases mem_cons.mp hq with rfl | hq
      · exact absurd hqe.symm hep
      · rw [hdone.committed e ⟨q, hq, hqe⟩, helse e hep]
  · intro e he
    rw [hfirst] at he
    have hep : e ≠ p.pBt := fun hep ↦ he ⟨p, .head _, hep.symm⟩
    have hnone : ¬ ∃ q ∈ committedFirst world₁ rest, q.pBt = e := by
      rintro ⟨q, hq, hqe⟩
      exact he ⟨q, .tail _ hq, hqe⟩
    rw [hdone.kept e hnone, helse e hep]

/-- Assumes: the first Btree writes and LMDB refuses its commit. Nothing has been committed. -/
theorem PhaseOneDone.refuse {world world₁ : World}
    (hwriters : writers (some p :: rest) = p :: writers rest) (hrc : rc ≠ .ok)
    (hfail : accepts world p = false)
    (hdurable : ∀ e, (world₁.env e).store.durable = (world.env e).store.durable) :
    PhaseOneDone world (some p :: rest) rc world₁ := by
  have hfirst : committedFirst world (some p :: rest) = [] := by
    rw [committedFirst, hwriters, takeWhile_cons, if_neg (by simp [hfail])]
  refine ⟨?_, ?_, fun e _ ↦ hdurable e⟩
  · rw [hwriters]
    constructor
    · intro hok
      exact absurd hok hrc
    · intro hall
      exact absurd (hall p (.head _)) (by simp [hfail])
  · intro e he
    rw [hfirst] at he
    obtain ⟨q, hq, _⟩ := he
    exact absurd hq (not_mem_nil)

/-- Assumes: a coherent connection. The loop commits the writing Btrees in order up to the first
that LMDB refuses, and returns an error exactly when there is such a one. -/
theorem phaseOne_done (hcoherent : Coherent world aDb) :
    PhaseOneDone world aDb (forEachDb phaseOneCall .ok world aDb).1
      (forEachDb phaseOneCall .ok world aDb).2.1 := by
  induction aDb generalizing world with
  | nil => exact ⟨by simp [forEachDb, writers], by simp [committedFirst, writers], fun _ _ ↦ rfl⟩
  | cons slot rest ih =>
    cases slot with
    | none => exact (ih hcoherent.tail).skip rfl fun e ↦ ⟨rfl, rfl, rfl⟩
    | some p =>
      have htracks : Tracks (world.handle p).env (world.handle p).bt := hcoherent.tracks p (.head _)
      have hconfined := commitPhaseOne_confined (world.handle p) htracks
      have hplace : (sqlite3BtreeCommitPhaseOne (world.handle p)).2.bt.pBt = p.pBt := hconfined.pBt
      have hrest := hcoherent.after_call hconfined
      have helse : ∀ e, e ≠ p.pBt →
          (world.update (sqlite3BtreeCommitPhaseOne (world.handle p)).2).env e = world.env e :=
        fun e hne ↦ update_env_of_ne world (hplace.symm ▸ hne)
      have hhere : (world.update (sqlite3BtreeCommitPhaseOne (world.handle p)).2).env p.pBt =
          (sqlite3BtreeCommitPhaseOne (world.handle p)).2.env := by
        rw [← hplace]
        exact update_env_self world _
      simp only [forEachDb, phaseOneCall, if_true]
      by_cases hwrite : p.inTrans = .write
      · have hwriters : writers (some p :: rest) = p :: writers rest := by
          simp [writers, sqlite3BtreeIsInTrans, hwrite]
        by_cases hok : (world.env p.pBt).outcome = .success
        · obtain ⟨hrc, hdurable⟩ := phaseOne_accepted htracks hwrite hok
          rw [hrc]
          exact (ih hrest).commit hwriters (hcoherent.writers_elsewhere hwrite)
            (decide_eq_true hok) (hhere ▸ hdurable) helse
        · obtain ⟨hrc, hdurable⟩ := phaseOne_refused htracks hwrite hok
          have hstill : ∀ h, phaseOneCall (sqlite3BtreeCommitPhaseOne (world.handle p)).1 h =
              ((sqlite3BtreeCommitPhaseOne (world.handle p)).1, h) := fun h ↦ if_neg hrc
          rw [forEachDb_still _ hstill]
          refine PhaseOneDone.refuse hwriters hrc (decide_eq_false hok) ?_
          intro e
          by_cases he : e = p.pBt
          · rwa [he, hhere]
          · rw [helse e he]
      · obtain ⟨hrc, hsame⟩ := phaseOne_quiet htracks hwrite
        rw [hrc]
        refine (ih hrest).skip (by simp [writers, sqlite3BtreeIsInTrans, hwrite]) ?_
        intro e
        by_cases he : e = p.pBt
        · rwa [he, hhere]
        · rw [helse e he]
          exact ⟨rfl, rfl, rfl⟩

/-! ### Atomicity -/

/-- `vdbeCommit` gets as far as committing the first database. -/
def ReachesLoop (outside : Outside) (db : Sqlite3) : Prop :=
  outside.vtabSync = .ok ∧ ¬ (needXcommit db.aDb ∧ outside.xCommitCallback.getD 0 ≠ 0) ∧
    (SimpleCase outside db ∨ prepareMaster outside db.aDb = .ok)

def newContent (db : Sqlite3) (e : ℕ) : Content :=
  if (writers db.aDb).any fun p ↦ p.pBt = e then (db.world.env e).store.tip
  else (db.world.env e).store.durable

/-- A commit is atomic: after an error every attached database is as it was, and after success every
one of them holds its new content. -/
def CommitAtomic (db : Sqlite3) (result : Rc × Sqlite3) : Prop :=
  (result.1 ≠ .ok → ∀ p, some p ∈ db.aDb →
      (result.2.world.env p.pBt).store.durable = (db.world.env p.pBt).store.durable) ∧
    (result.1 = .ok → ∀ p, some p ∈ db.aDb →
      (result.2.world.env p.pBt).store.durable = newContent db p.pBt)

/-- When a commit is atomic: no database is touched, or nothing fails, or the databases committed
before the failure have nothing new. -/
def CommitsAtomically (outside : Outside) (db : Sqlite3) : Prop :=
  ¬ ReachesLoop outside db ∨ ((∀ p ∈ writers db.aDb, accepts db.world p) ∧
      (SimpleCase outside db ∨ outside.osDelete = .ok)) ∨
    ∀ p ∈ committedFirst db.world db.aDb,
      (db.world.handle p).visible = (db.world.env p.pBt).store.durable

/-- What `vdbeCommit` can do: fail before the loop and change nothing, or run the loop and fail
exactly when a database does or the master journal cannot be deleted. -/
theorem vdbeCommit_cases (outside : Outside) (db : Sqlite3) :
    (¬ ReachesLoop outside db ∧ (vdbeCommit outside db).1 ≠ .ok ∧ (vdbeCommit outside db).2 = db) ∨
      (ReachesLoop outside db ∧ (vdbeCommit outside db).2 = (commitDbs db).2 ∧
        ((vdbeCommit outside db).1 = .ok ↔
          (commitDbs db).1 = .ok ∧ (SimpleCase outside db ∨ outside.osDelete = .ok))) := by
  by_cases hsync : outside.vtabSync = .ok
  · by_cases hhook : needXcommit db.aDb ∧ outside.xCommitCallback.getD 0 ≠ 0
    · refine .inl ⟨fun hreach ↦ hreach.2.1 hhook, ?_, ?_⟩
      · simp [vdbeCommit, hsync, hhook]
      · simp [vdbeCommit, hsync, hhook]
    · by_cases hsimple : SimpleCase outside db
      · have hresult : vdbeCommit outside db = commitDbs db := by
          simp only [vdbeCommit, hsync, ne_eq, not_true_eq_false, if_false, finishDbs_eq]
          rw [if_neg hhook, if_pos hsimple]
        refine .inr ⟨⟨hsync, hhook, .inl hsimple⟩, by rw [hresult], ?_⟩
        rw [hresult]
        exact ⟨fun hok ↦ ⟨hok, .inl hsimple⟩, And.left⟩
      · by_cases hmaster : prepareMaster outside db.aDb = .ok
        · have hresult : vdbeCommit outside db = if (commitDbs db).1 ≠ .ok then commitDbs db
              else if outside.osDelete ≠ .ok then (outside.osDelete, (commitDbs db).2)
              else (.ok, (commitDbs db).2) := by
            simp only [vdbeCommit, hsync, hmaster, ne_eq, not_true_eq_false, if_false, finishDbs_eq]
            rw [if_neg hhook, if_neg hsimple]
          refine .inr ⟨⟨hsync, hhook, .inr hmaster⟩, ?_, ?_⟩
          · rw [hresult]
            split_ifs <;> rfl
          · rw [hresult]
            split_ifs with hfail hdelete
            · exact ⟨fun hok ↦ absurd hok hfail, fun hall ↦ absurd hall.1 hfail⟩
            · refine ⟨fun hok ↦ absurd hok hdelete, ?_⟩
              rintro ⟨_, hcase | hok⟩
              · exact absurd hcase hsimple
              · exact absurd hok hdelete
            · exact ⟨fun _ ↦ ⟨not_not.mp hfail, .inr (not_not.mp hdelete)⟩, fun _ ↦ rfl⟩
        · have hresult : vdbeCommit outside db = (prepareMaster outside db.aDb, db) := by
            simp only [vdbeCommit, hsync, ne_eq, not_true_eq_false, if_false]
            rw [if_neg hhook, if_neg hsimple, if_pos hmaster]
          refine .inl ⟨?_, by rw [hresult]; exact hmaster, by rw [hresult]⟩
          rintro ⟨_, _, hcase | hcase⟩
          · exact hsimple hcase
          · exact hmaster hcase
  · have hresult : vdbeCommit outside db = (outside.vtabSync, db) := by
      rw [vdbeCommit, if_pos hsync]
    exact .inl ⟨fun hreach ↦ hsync hreach.1, by rw [hresult]; exact hsync, by rw [hresult]⟩

/-- A list of writing Btrees that LMDB accepts throughout is committed throughout. -/
theorem committedFirst_of_all (hall : ∀ p ∈ writers aDb, accepts world p) :
    committedFirst world aDb = writers aDb :=
  takeWhile_eq_self_iff.mpr hall

/-- Assumes: a coherent connection. Whatever LMDB, the VFS, the virtual tables and the commit hook
report, the commit is atomic exactly when no database is touched, or nothing fails, or the databases
committed before the failure have nothing new. -/
theorem vdbeCommit_atomic_iff (outside : Outside) (db : Sqlite3)
    (hcoherent : Coherent db.world db.aDb) :
    CommitAtomic db (vdbeCommit outside db) ↔ CommitsAtomically outside db := by
  have hdone : PhaseOneDone db.world db.aDb (commitDbs db).1 (commitDbs db).2.world :=
    phaseOne_done hcoherent
  rcases vdbeCommit_cases outside db with ⟨hearly, hrc, hsame⟩ | ⟨hreach, hdb, hok⟩
  · refine ⟨fun _ ↦ .inl hearly, fun _ ↦ ⟨?_, fun hok ↦ absurd hok hrc⟩⟩
    intro _ p _
    rw [hsame]
  · have hfirst : ∀ p ∈ committedFirst db.world db.aDb, some p ∈ db.aDb ∧
        (db.world.handle p).visible = (db.world.env p.pBt).store.tip := by
      intro p hp
      obtain ⟨hmem, hwrite⟩ := mem_writers.mp ((takeWhile_sublist _).subset hp)
      exact ⟨hmem, visible_eq_tip (h := db.world.handle p) (hcoherent.tracks p hmem) hwrite⟩
    constructor
    · rintro ⟨herror, _⟩
      by_cases hsuccess : (vdbeCommit outside db).1 = .ok
      · obtain ⟨hall, hdelete⟩ := hok.mp hsuccess
        exact .inr (.inl ⟨hdone.ok_iff.mp hall, hdelete⟩)
      · refine .inr (.inr ?_)
        intro p hp
        obtain ⟨hmem, hvisible⟩ := hfirst p hp
        rw [hvisible, ← hdone.committed p.pBt ⟨p, hp, rfl⟩, ← hdb]
        exact herror hsuccess p hmem
    · intro hcondition
      refine ⟨?_, ?_⟩
      · intro hfail p hmem
        rw [hdb]
        rcases hcondition with hearly | ⟨hall, hdelete⟩ | hnothing
        · exact absurd hreach hearly
        · exact absurd (hok.mpr ⟨hdone.ok_iff.mpr hall, hdelete⟩) hfail
        · by_cases hcommitted : ∃ q ∈ committedFirst db.world db.aDb, q.pBt = p.pBt
          · rw [hdone.committed _ hcommitted]
            obtain ⟨q, hq, hsame⟩ := hcommitted
            rw [← hsame, ← (hfirst q hq).2]
            exact hnothing q hq
          · exact hdone.kept _ hcommitted
      · intro hsuccess p hmem
        have hall := hdone.ok_iff.mp (hok.mp hsuccess).1
        rw [hdb, newContent]
        split_ifs with hwriter
        · obtain ⟨q, hq, hsame⟩ := any_eq_true.mp hwriter
          exact hdone.committed _ ⟨q, (committedFirst_of_all hall).symm ▸ hq,
            of_decide_eq_true hsame⟩
        · refine hdone.kept _ ?_
          rintro ⟨q, hq, hsame⟩
          exact hwriter (any_eq_true.mpr ⟨q, (takeWhile_sublist _).subset hq, decide_eq_true hsame⟩)

/-- A main and an attached database on which a table has been created, the attached one on an
environment that reports `codes`. -/
def mainAndAttached (codes : List MdbRc) : Sqlite3 :=
  Sqlite3.explicit ⟨fun e ↦ { (freshWriter.writes [createTab 2]).env with outcomes :=
      if e = 2 then codes else [] },
      fun _ ↦ ⟨none, none⟩⟩
    [some freshWriter.bt, none, some { freshWriter.bt with id := 2, pBt := 2 }] 0

/-- A VFS on which every call succeeds. -/
def calmOutside : Outside where
  vtabSync := .ok
  xCommitCallback := none
  filename := "main.db"
  allocMaster := true
  osAccess := fun _ ↦ (.ok, false)
  osOpen := .ok
  journalname := fun _ ↦ none
  syncDisabled := fun _ ↦ false
  osWrite := fun _ ↦ .ok
  sequential := false
  osSync := .ok
  osDelete := .ok

theorem mainAndAttached_coherent (codes : List MdbRc) :
    Coherent (mainAndAttached codes).world (mainAndAttached codes).aDb := by
  refine ⟨?_, ?_⟩
  · intro p hp
    have hcases : p = freshWriter.bt ∨ p = { freshWriter.bt with id := 2, pBt := 2 } := by
      simpa [mainAndAttached, Sqlite3.explicit] using hp
    rcases hcases with rfl | rfl
    · exact .writing rfl (cons_ne_nil _ _) rfl rfl
    · exact .writing rfl (cons_ne_nil _ _) rfl rfl
  · refine pairwise_cons.mpr ⟨?_, pairwise_cons.mpr ⟨?_, pairwise_singleton _ _⟩⟩
    · intro slot hslot p q hp hq hsame
      cases hp
      rw [hq] at hslot
      obtain rfl : q = { freshWriter.bt with id := 2, pBt := 2 } := by simpa using hslot
      cases hsame
    · intro slot _ p q hp
      cases hp

theorem vdbeCommit_atomic_mainAndAttached :
    CommitAtomic (mainAndAttached []) (vdbeCommit calmOutside (mainAndAttached [])) :=
  (vdbeCommit_atomic_iff calmOutside _ (mainAndAttached_coherent [])).mpr
    (.inr (.inl ⟨by decide, .inr rfl⟩))

/-- When LMDB refuses to commit the attached database, the commit fails with the main database
already committed. -/
theorem vdbeCommit_half_committed :
    ¬ CommitAtomic (mainAndAttached [.eio]) (vdbeCommit calmOutside (mainAndAttached [.eio])) := by
  have hmaster : prepareMaster calmOutside (mainAndAttached [.eio]).aDb = .ok := by
    have hchoose : chooseMaster calmOutside 0 = .ok := by
      rw [chooseMaster]
      rfl
    rw [prepareMaster, hchoose]
    rfl
  rintro ⟨herror, _⟩
  rcases vdbeCommit_cases calmOutside (mainAndAttached [.eio]) with ⟨hearly, _⟩ | ⟨_, hdb, hok⟩
  · exact hearly ⟨rfl, by decide, .inr hmaster⟩
  · have hfail : (vdbeCommit calmOutside (mainAndAttached [.eio])).1 ≠ .ok := fun h ↦
      absurd (hok.mp h).1 (by decide)
    have hdurable := herror hfail freshWriter.bt (.head _)
    rw [hdb] at hdurable
    exact absurd (congrArg (fun content ↦ (content.db (.tab 2)).isSome) hdurable) (by decide)

end LumoSQL
