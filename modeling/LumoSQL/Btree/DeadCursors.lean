import LumoSQL.Btree.Upgrade
import LumoSQL.Foundation.GuardedRun

/-!
# LMDB cursors whose transaction has ended

LMDB frees the cursors of a write transaction when it ends, and a cursor of a read transaction is of
no use without it. The not-forking version of `btree.c` calls LMDB on the cursors of a handle in
`sqlite3BtreeBeginTrans`, which moves them to a write transaction, and in `sqlite3BtreeClearCursor`,
which takes the cursor to the first entry and is part of closing it, so that
`sqlite3BtreeCommitPhaseOne` and `sqlite3BtreeClose` come by it for every cursor of the handle.

`NotForking.Call.uses` lists the LMDB cursors that a call uses itself, with the environment at that
moment. Phase one of a commit ends the transaction before it closes the cursors, so it always uses
ended cursors when there are any (`commit_uses_ended`), and a rollback leaves cursors that are used
when they are closed. `NotForking.uses_alive_iff` says of every run which calls are in order.
-/

namespace LumoSQL

open Foundation List Option Function SnapshotStore Env

/-! ### The transactions of a handle -/

/-- The transaction is one of the handle's: a write transaction while it writes, or its read
transaction. -/
def OwnTxn (env : Env) (p : Btree) (t : ℕ) : Prop :=
  (p.inTrans = .write ∧ t ∈ env.store.writer.map Frame.id) ∨
    (p.inTrans = .read ∧ p.mainTxn = some t)

/-- What a call on the transactions leaves of a transaction that was the handle's own as long as it
was open: it is so still. -/
structure HandsOn (env : Env) (p : Btree) (env' : Env) (p' : Btree) : Prop where
  next_le : env.store.next ≤ env'.store.next
  owned : ∀ t, t < env.store.next → (env.store.Live t → OwnTxn env p t) → env'.store.Live t →
    OwnTxn env' p' t

namespace HandsOn

variable {env env' : Env} {p p' : Btree}

/-- Assumes: the same open transactions. -/
theorem of_ids (hnext : env'.store.next = env.store.next)
    (hwriter : env'.store.writer.map Frame.id = env.store.writer.map Frame.id)
    (hreaders : env'.store.readers.map Frame.id = env.store.readers.map Frame.id) :
    HandsOn env p env' p := by
  constructor
  · exact Nat.le_of_eq hnext.symm
  · intro t _ howned hlive
    unfold OwnTxn
    rw [live_iff, hwriter, hreaders, ← live_iff] at hlive
    rw [hwriter]
    exact howned hlive

/-- Assumes: what is left open was open before and is not the handle's own. -/
theorem of_ended (hnext : env.store.next ≤ env'.store.next)
    (hleft : ∀ t, t < env.store.next → env'.store.Live t → env.store.Live t ∧ ¬ OwnTxn env p t) :
    HandsOn env p env' p' :=
  ⟨hnext, fun t ht howned hlive ↦ absurd (howned (hleft t ht hlive).1) (hleft t ht hlive).2⟩

end HandsOn

/-- What others may do with the environment meanwhile: they issue handles and end transactions, but
not those of this handle. -/
structure LeavesAlone (env : Env) (p : Btree) (env' : Env) : Prop where
  next_le : env.store.next ≤ env'.store.next
  ended : ∀ t, t < env.store.next → env'.store.Live t → env.store.Live t
  writing : p.inTrans = .write → env'.store.writer = env.store.writer
  reading : ∀ reader ∈ env.store.readers, p.mainTxn = some reader.id → reader ∈ env'.store.readers

namespace LeavesAlone

variable {env env' : Env} {p : Btree}

theorem tracks (halone : LeavesAlone env p env') (htracks : Tracks env p) : Tracks env' p := by
  by_cases hwrite : p.inTrans = .write
  · exact htracks.of_writer hwrite (by rw [halone.writing hwrite])
  · exact htracks.of_readers hwrite halone.reading

theorem handsOn (halone : LeavesAlone env p env') : HandsOn env p env' p := by
  refine ⟨halone.next_le, fun t ht howned hlive ↦ ?_⟩
  rcases howned (halone.ended t ht hlive) with ⟨hwrite, hmem⟩ | hread
  · refine .inl ⟨hwrite, ?_⟩
    rwa [halone.writing hwrite]
  · exact .inr hread

end LeavesAlone

variable {env env' : Env} {p p' : Btree} {t : ℕ} (h : Handle)

theorem not_ownTxn_idle (hin : p.inTrans = .none) : ¬ OwnTxn env p t := by
  simp [OwnTxn, hin]

theorem ownTxn_reading (hread : p.inTrans = .read) : OwnTxn env p t ↔ p.mainTxn = some t := by
  simp [OwnTxn, hread]

theorem ownTxn_writing (hwrite : p.inTrans = .write) :
    OwnTxn env p t ↔ t ∈ env.store.writer.map Frame.id := by
  rw [OwnTxn, hwrite]
  simp

theorem ownTxn_curr {env : Env} {p : Btree} (htracks : Tracks env p) (hcurr : p.currTxn = some t) :
    t < env.store.next ∧ OwnTxn env p t := by
  rcases htracks with ⟨_, _, hnone⟩ | ⟨hread, reader, hmem, hmain, hreader⟩ |
    ⟨hwrite, hopen, _, htop⟩
  · rw [hnone] at hcurr
    cases hcurr
  · rw [hreader] at hcurr
    cases hcurr
    exact ⟨env.store.issued reader (mem_append_right _ hmem), .inr ⟨hread, hmain⟩⟩
  · obtain ⟨top, rest, hwriter⟩ := exists_cons_of_ne_nil hopen
    rw [htop, hwriter] at hcurr
    obtain rfl : top.id = t := some.inj hcurr
    have hmem : top ∈ env.store.writer := hwriter ▸ (.head _)
    exact ⟨env.store.issued top (mem_append_left _ hmem), .inl ⟨hwrite, mem_map_of_mem hmem⟩⟩

theorem writer_not_reader {store : SnapshotStore Content} (hwriter : t ∈ store.writer.map Frame.id)
    : t ∉ store.readers.map Frame.id := by
  intro hreader
  obtain ⟨reader, hmem, rfl⟩ := mem_map.mp hreader
  exact reader_not_writer hmem hwriter

theorem handsOn_beginTrans (wrflag : ℕ) (htracks : Tracks h.env h.bt) :
    HandsOn h.env h.bt (sqlite3BtreeBeginTrans h wrflag).2.env
      (sqlite3BtreeBeginTrans h wrflag).2.bt := by
  rcases beginTrans_cases h wrflag htracks with ⟨hresult, _⟩ | ⟨rc, _, hresult, _⟩ |
    ⟨_, hin, hresult⟩ | ⟨_, hin, _, hresult⟩ | ⟨_, hin, hwriter, reader, hmem, hmain, hresult⟩
  · rw [hresult]
    exact HandsOn.of_ids rfl rfl rfl
  · rw [hresult]
    exact HandsOn.of_ids rfl rfl rfl
  · rw [hresult]
    exact HandsOn.of_ended (Nat.le_succ _) fun t ht hlive ↦
      ⟨(live_beginRead_iff ht).mp hlive, not_ownTxn_idle hin⟩
  · rw [hresult]
    exact HandsOn.of_ended (Nat.le_succ _) fun t ht hlive ↦
      ⟨(live_push_iff ht).mp hlive, not_ownTxn_idle hin⟩
  · have hmem' : reader ∈ h.env.store.push.readers := hmem
    have hreader := reader_not_writer hmem'
    rw [hresult]
    refine HandsOn.of_ended (Nat.le_succ _) fun t ht hlive ↦ ?_
    obtain ⟨hlive, hne⟩ := (live_dropReader_iff hreader t).mp hlive
    rw [live_push_iff ht] at hlive
    rw [ownTxn_reading hin, hmain]
    exact ⟨hlive, fun heq ↦ hne (some.inj heq).symm⟩

theorem handsOn_beginStmt (stmt : ℤ) (htracks : Tracks h.env h.bt)
    (hwrite : h.bt.inTrans = .write) : HandsOn h.env h.bt (sqlite3BtreeBeginStmt h stmt).2.env
      (sqlite3BtreeBeginStmt h stmt).2.bt := by
  rcases beginStmt_cases h stmt htracks hwrite with ⟨rc, _, _, hresult⟩ | ⟨_, hresult⟩
  · rw [hresult]
    exact HandsOn.of_ids rfl rfl rfl
  · rw [hresult]
    refine ⟨Nat.le_succ _, fun t ht howned hlive ↦ .inl ⟨hwrite, mem_cons_of_mem _ ?_⟩⟩
    exact (ownTxn_writing hwrite).mp (howned ((live_push_iff ht).mp hlive))

/-- Assumes: a writing handle, an environment without write transactions and with the same readers.
The transactions of the handle have ended. -/
theorem handsOn_outermost (hwrite : p.inTrans = .write) (hnext : env'.store.next = env.store.next)
    (hwriter : env'.store.writer = []) (hreaders : env'.store.readers = env.store.readers) :
    HandsOn env p env' p' := by
  refine HandsOn.of_ended (Nat.le_of_eq hnext.symm) fun t _ hlive ↦ ?_
  rw [live_iff, hwriter, hreaders] at hlive
  rcases hlive with hlive | hlive
  · cases hlive
  · refine ⟨(live_iff _ _).mpr (.inr hlive), fun hown ↦ ?_⟩
    exact writer_not_reader ((ownTxn_writing hwrite).mp hown) hlive

/-- Assumes: a reading handle whose read transaction is ended. -/
theorem handsOn_reader {reader : Frame Content} (hread : p.inTrans = .read)
    (hmem : reader ∈ env.store.readers) (hmain : p.mainTxn = some reader.id)
    (hstore : env'.store = env.store.dropReader reader.id) : HandsOn env p env' p' := by
  refine HandsOn.of_ended (by rw [hstore]; exact Nat.le_refl _) fun t _ hlive ↦ ?_
  rw [hstore, live_dropReader_iff (reader_not_writer hmem)] at hlive
  rw [ownTxn_reading hread, hmain]
  exact ⟨hlive.1, fun heq ↦ hlive.2 (some.inj heq).symm⟩

/-- The commit or the abort of the main transaction hands on: no transaction of the handle is left.
-/
theorem handsOn_main {env : Env} {main : ℕ} (htracks : Tracks env p) (hmain : p.mainTxn = some main)
    : HandsOn env p (env.mdbTxnCommit main).2 p' ∧ HandsOn env p (env.mdbTxnAbort main) p' := by
  rcases htracks with ⟨_, hnone, _⟩ | ⟨hread, reader, hmem, hreader, _⟩ |
    ⟨hwrite, hopen, hlast, hcurr⟩
  · rw [hnone] at hmain
    cases hmain
  · rw [hreader] at hmain
    cases hmain
    constructor
    · refine handsOn_reader hread hmem hreader ?_
      rw [mdbTxnCommit_reader hmem]
    · exact handsOn_reader hread hmem hreader (abort_reader hmem)
  · obtain ⟨inner, last, hwriter, hlast'⟩ :=
      (Tracks.writing hwrite hopen hlast hcurr : Tracks env p).exists_bottom hwrite
    rw [hlast'] at hmain
    cases hmain
    obtain ⟨hawriter, -, hareaders⟩ := abort_outermost hwriter
    obtain ⟨hcwriter, -, hcreaders⟩ := commit_outermost hwriter
    have habort : HandsOn env p (env.mdbTxnAbort last.id) p' :=
      handsOn_outermost hwrite (abort_next _ _) hawriter hareaders
    refine ⟨?_, habort⟩
    rw [mdbTxnCommit_writer (by simp [hwriter])]
    by_cases hok : env.outcome = .success
    · rw [if_pos hok]
      exact handsOn_outermost hwrite (commit_next _ _) hcwriter hcreaders
    · rw [if_neg hok]
      exact handsOn_outermost hwrite (abort_next _ _) hawriter hareaders

/-- Assumes: a writing handle whose innermost transaction is ended, with the same readers. -/
theorem handsOn_top {p : Btree} {top : Frame Content} {rest : List (Frame Content)}
    (hwrite : p.inTrans = .write) (hwriter : env.store.writer = top :: rest)
    (hnext : env'.store.next = env.store.next)
    (hids : env'.store.writer.map Frame.id = rest.map Frame.id)
    (hreaders : env'.store.readers = env.store.readers) {index : ℤ} (hindex : index ≠ -1)
    : HandsOn env p env' (savepointHandles p index (rest.head?.map Frame.id)) := by
  refine ⟨Nat.le_of_eq hnext.symm, fun t _ howned hlive ↦ ?_⟩
  rw [live_iff, hids, hreaders] at hlive
  have hlive' : env.store.Live t := by
    rw [live_iff, hwriter]
    exact hlive.imp (mem_cons_of_mem _) id
  have hrest : t ∈ rest.map Frame.id :=
    hlive.resolve_right (writer_not_reader ((ownTxn_writing hwrite).mp (howned hlive')))
  obtain ⟨next, rest', rfl⟩ := exists_cons_of_ne_nil (ne_nil_of_mem
    (mem_map.mp hrest).choose_spec.1)
  refine .inl ⟨?_, hids ▸ hrest⟩
  simp [savepointHandles, hindex, hwrite]

/-- Ending or rolling back a savepoint hands the transactions on. -/
theorem handsOn_savepoint (op : SavepointOp) (index : ℤ) (htracks : Tracks h.env h.bt) :
    HandsOn h.env h.bt (sqlite3BtreeSavepoint h op index).2.env
      (sqlite3BtreeSavepoint h op index).2.bt := by
  have hall := htracks
  rcases htracks with ⟨_, _, hcurr⟩ | ⟨hread, reader, hmem, hmain, hcurr⟩ | ⟨hwrite, _, _, _⟩
  · rw [savepoint_idle hcurr]
    exact HandsOn.of_ids rfl rfl rfl
  · rw [savepoint_reading hmem hmain hcurr]
    exact handsOn_reader hread hmem hmain rfl
  · obtain ⟨top, rest, hwriter, hcurr⟩ := hall.exists_top hwrite
    by_cases hindex : index = -1
    · obtain ⟨inner, last, -, hmain⟩ := hall.exists_bottom hwrite
      have htxn : savepointTxn h.bt index = some last.id := by
        rw [savepointTxn, if_pos hindex, hmain]
      cases op with
      | rollback =>
        simp only [sqlite3BtreeSavepoint, hcurr, htxn]
        exact (handsOn_main hall hmain).2
      | release =>
        simp only [sqlite3BtreeSavepoint, hcurr, htxn]
        exact (handsOn_main hall hmain).1
    · obtain ⟨hids, hbt⟩ := savepoint_pops hwriter hcurr op hindex
      rw [hbt]
      have hrest : (sqlite3BtreeSavepoint h op index).2.env.store.next = h.env.store.next ∧
          (sqlite3BtreeSavepoint h op index).2.env.store.readers = h.env.store.readers := by
        have habort := (abort_top hwriter).2.2
        have hcommit := (commit_top hwriter).2.2
        cases op with
        | rollback =>
          rw [savepoint_rollback_inner hwriter hcurr hindex]
          exact ⟨abort_next _ _, habort⟩
        | release =>
          rw [savepoint_release_inner hwriter hcurr hindex, mdbTxnCommit_writer (by simp [hwriter])]
          by_cases hok : h.env.outcome = .success
          · rw [if_pos hok]
            exact ⟨commit_next _ _, hcommit⟩
          · rw [if_neg hok]
            exact ⟨abort_next _ _, habort⟩
      exact handsOn_top hwrite hwriter hrest.1 hids hrest.2 hindex

/-! ### The calls of the not-forking version -/

namespace NotForking

/-- `sqlite3BtreeClose`: the cursors are closed before the transaction is aborted. The handle that
is left is that of a Btree to be opened again. -/
def sqlite3BtreeClose (h : Handle) : Handle :=
  let closed := h.bt.pCursor.foldl sqlite3BtreeCloseCursor h
  { closed with
    env := match h.bt.mainTxn with
      | none => closed.env
      | some t => closed.env.mdbTxnAbort t
    bt := { h.bt.ended with pCursor := [] } }

/-- The calls on a Btree and its cursors, and what others do with the environment between them. An
operation on a cursor leaves it at some position, with some value of `mc_init`, and may write to the
current write transaction. -/
inductive Call
  | cursor (name : DbName) (pCur : ℕ)
  | operate (pCur : ℕ) (pos : Option ℕ) (mcInit : Bool) (writes : List Write)
  | cursorZero (pCur : ℕ)
  | clearCursor (pCur : ℕ)
  | closeCursor (pCur : ℕ)
  | beginTrans (wrflag : ℕ)
  | beginStmt (iStatement : ℤ)
  | savepoint (op : SavepointOp) (iSavepoint : ℤ)
  | rollback
  | commitPhaseOne
  | close
  | elsewhere (env : Env)

namespace Call

/-- The handle after a call. -/
def run (h : Handle) : Call → Handle
  | .cursor name pCur => ((sqlite3BtreeCursor h name pCur).map Prod.snd).getD h
  | .operate pCur pos mcInit writes =>
    let moved : BtCursor := { h.cursor pCur with
      mc := (h.cursor pCur).mc.map fun mc ↦ { mc with pos := pos }
      mcInit := mcInit }
    let store := if h.bt.inTrans = .write then
        writes.foldl (fun store w ↦ store.modifyTop w) h.env.store
      else h.env.store
    { h with
      env := { h.env with store := store }
      cursor := Function.update h.cursor pCur moved }
  | .cursorZero pCur =>
    { h with cursor := Function.update h.cursor pCur sqlite3BtreeCursorZero }
  | .clearCursor pCur =>
    { h with cursor :=
        Function.update h.cursor pCur (sqlite3BtreeClearCursor h.env (h.cursor pCur)) }
  | .closeCursor pCur => sqlite3BtreeCloseCursor h pCur
  | .beginTrans wrflag => (sqlite3BtreeBeginTrans h wrflag).2
  | .beginStmt iStatement => (sqlite3BtreeBeginStmt h iStatement).2
  | .savepoint op iSavepoint => (sqlite3BtreeSavepoint h op iSavepoint).2
  | .rollback => (sqlite3BtreeRollback h).2
  | .commitPhaseOne => (sqlite3BtreeCommitPhaseOne h).2
  | .close => sqlite3BtreeClose h
  | .elsewhere env => { h with env := env }

/-- `sqlite3BtreeBeginStmt` asserts that the Btree is writing; others leave its transactions alone.
-/
def Asserts (h : Handle) : Call → Prop
  | .beginStmt _ => h.bt.inTrans = .write
  | .elsewhere env => LeavesAlone h.env h.bt env
  | _ => True

end Call

/-! ### The LMDB cursors that a call uses -/

def Alive (env : Env) (mc : Option MdbCursor) : Prop :=
  ∃ found, mc = some found ∧ env.store.Live found.txn

/-- The LMDB cursors that the loop of `sqlite3BtreeBeginTrans` uses for one cursor: the old one in
`mdb_cursor_dbi` and `mdb_cursor_get`, the new one when that has given a key, and the old one in
`mdb_cursor_close`. -/
def moveUses (env : Env) (txn : ℕ) (pCur : BtCursor) : List (Option MdbCursor) :=
  match pCur.mc with
  | none => []
  | some old =>
    [some old, some old] ++ (match env.mdbCursorCurrent old with
        | .ok _ => [some (mdbCursorInit txn old.dbi)]
        | .error _ => []) ++ [some old]

/-- The LMDB cursors that the whole loop uses. -/
def movesUses (env : Env) (txn : ℕ) : List ℕ → (ℕ → BtCursor) → List (Option MdbCursor)
  | [], _ => []
  | pCur :: rest, cursor =>
    moveUses env txn (cursor pCur) ++
      movesUses env txn rest (Function.update cursor pCur (moveCursor env txn (cursor pCur)))

/-- The LMDB cursors that closing the cursors of a list uses, `close` being what is done with each.
-/
def closesUses (close : Handle → ℕ → Handle) : List ℕ → Handle → List (Option MdbCursor)
  | [], _ => []
  | pCur :: rest, h => (h.cursor pCur).mc :: closesUses close rest (close h pCur)

def closeZero (h : Handle) (pCur : ℕ) : Handle :=
  let closed := sqlite3BtreeCloseCursor h pCur
  { closed with cursor := Function.update closed.cursor pCur sqlite3BtreeCursorZero }

/-- The LMDB cursors that a call uses itself, with the environment it uses them in. -/
def Call.uses (h : Handle) : Call → Env × List (Option MdbCursor)
  | .clearCursor pCur => (h.env, [(h.cursor pCur).mc])
  | .closeCursor pCur => (h.env, [(h.cursor pCur).mc])
  | .beginTrans wrflag =>
    if h.bt.inTrans = .read ∧ wrflag ≠ 0 then
      match h.env.mdbTxnBegin none false with
      | (.ok txn, env) => (env, movesUses env txn h.bt.pCursor h.cursor)
      | (.error _, env) => (env, [])
    else (h.env, [])
  | .commitPhaseOne =>
    match h.bt.mainTxn with
    | none => (h.env, closesUses closeZero h.bt.pCursor h)
    | some t =>
      let env := (h.env.mdbTxnCommit t).2
      (env, closesUses closeZero h.bt.pCursor { h with env := env, bt := h.bt.ended })
  | .close => (h.env, closesUses sqlite3BtreeCloseCursor h.bt.pCursor h)
  | _ => (h.env, [])

/-- The call uses only LMDB cursors that have not been closed and whose transaction has not ended.
-/
def Call.UsesAlive (h : Handle) (call : Call) : Prop :=
  ∀ mc ∈ (call.uses h).2, Alive (call.uses h).1 mc

/-- When a call is in order. A cursor is cleared or closed while its transaction is open; the Btree
is closed while that is so of every cursor of the handle; a read transaction is given up for a write
transaction, unless LMDB fails, while it is so of every cursor of the handle that has an LMDB
cursor; phase one of a commit is called when the handle has no cursor. -/
def Call.InOrder (h : Handle) : Call → Prop
  | .clearCursor pCur => Alive h.env (h.cursor pCur).mc
  | .closeCursor pCur => Alive h.env (h.cursor pCur).mc
  | .beginTrans wrflag =>
    h.bt.inTrans = .read ∧ wrflag ≠ 0 ∧ h.env.outcome = .success ∧ h.env.store.writer = [] →
      ∀ pCur ∈ h.bt.pCursor, ∀ mc, (h.cursor pCur).mc = some mc → h.env.store.Live mc.txn
  | .commitPhaseOne => h.bt.pCursor = []
  | .close => ∀ pCur ∈ h.bt.pCursor, Alive h.env (h.cursor pCur).mc
  | _ => True

/-! ### The transactions the cursors are on -/

/-- The LMDB cursor, if there still is one, is on the transaction it was on. -/
def SameTxn (before after : BtCursor) : Prop :=
  ∀ mc, after.mc = some mc → ∃ old, before.mc = some old ∧ old.txn = mc.txn

namespace SameTxn

theorem refl (pCur : BtCursor) : SameTxn pCur pCur := fun mc hmc ↦ ⟨mc, hmc, rfl⟩

theorem trans {first second third : BtCursor} (hfirst : SameTxn first second)
    (hsecond : SameTxn second third) : SameTxn first third := by
  intro mc hmc
  obtain ⟨middle, hmiddle, htxn⟩ := hsecond mc hmc
  obtain ⟨old, hold, htxn'⟩ := hfirst middle hmiddle
  exact ⟨old, hold, htxn'.trans htxn⟩

theorem zero (pCur : BtCursor) : SameTxn pCur sqlite3BtreeCursorZero := by
  intro mc hmc
  cases hmc

/-- Assumes: a change of the LMDB cursor that leaves it on its transaction. -/
theorem map {pCur : BtCursor} {f : MdbCursor → MdbCursor} (hf : ∀ mc, (f mc).txn = mc.txn)
    (pBtree : Option ℕ) (mcInit : Bool) : SameTxn pCur ⟨pBtree, pCur.mc.map f, mcInit⟩ := by
  intro mc hmc
  obtain ⟨old, hold, rfl⟩ := map_eq_some_iff.mp hmc
  exact ⟨old, hold, (hf old).symm⟩

theorem update {cursor : ℕ → BtCursor} {pCur : ℕ} {new : BtCursor}
    (hnew : SameTxn (cursor pCur) new) (other : ℕ) :
    SameTxn (cursor other) (Function.update cursor pCur new other) := by
  by_cases heq : other = pCur
  · subst heq
    rwa [update_self]
  · rw [update_of_ne heq]
    exact refl _

theorem clear (env : Env) (pCur : BtCursor) : SameTxn pCur (sqlite3BtreeClearCursor env pCur) := by
  refine map (fun mc ↦ ?_) _ _
  unfold Env.mdbCursorFirst
  split_ifs <;> rfl

end SameTxn

variable (cursors : List ℕ) (h : Handle) (other : ℕ) (wrflag : ℕ)

theorem closeCursors_env : (closeCursors cursors h).env = h.env := by
  induction cursors generalizing h with
  | nil => rfl
  | cons pCur rest ih => exact ih _

theorem closeCursors_bt : ∃ left, (closeCursors cursors h).bt = { h.bt with pCursor := left } := by
  induction cursors generalizing h with
  | nil => exact ⟨h.bt.pCursor, rfl⟩
  | cons pCur rest ih =>
    obtain ⟨left, hleft⟩ := ih (closeZero h pCur)
    refine ⟨left, hleft.trans ?_⟩
    unfold closeZero sqlite3BtreeCloseCursor
    split_ifs <;> rfl

theorem closeCursors_sameTxn :
    SameTxn (h.cursor other) ((closeCursors cursors h).cursor other) := by
  induction cursors generalizing h with
  | nil => exact SameTxn.refl _
  | cons pCur rest ih =>
    have hclosed : SameTxn (h.cursor other) ((sqlite3BtreeCloseCursor h pCur).cursor other) :=
      SameTxn.update (SameTxn.clear _ _) other
    have hzeroed : SameTxn ((sqlite3BtreeCloseCursor h pCur).cursor other)
        ((closeZero h pCur).cursor other) := SameTxn.update (SameTxn.zero _) other
    exact (hclosed.trans hzeroed).trans (ih (closeZero h pCur))

theorem foldl_close_sameTxn : (cursors.foldl sqlite3BtreeCloseCursor h).env = h.env ∧
      SameTxn (h.cursor other) ((cursors.foldl sqlite3BtreeCloseCursor h).cursor other) := by
  induction cursors generalizing h with
  | nil => exact ⟨rfl, SameTxn.refl _⟩
  | cons pCur rest ih =>
    obtain ⟨henv, hrest⟩ := ih (sqlite3BtreeCloseCursor h pCur)
    have hclosed : SameTxn (h.cursor other) ((sqlite3BtreeCloseCursor h pCur).cursor other) :=
      SameTxn.update (SameTxn.clear _ _) other
    exact ⟨henv, hclosed.trans hrest⟩

/-- Opening a cursor does nothing, or puts a new LMDB cursor on the current transaction. -/
theorem Call.run_cursor (name : DbName) (pCur : ℕ) :
    (Call.cursor name pCur).run h = h ∨ ∃ txn, h.bt.currTxn = some txn ∧
      (Call.cursor name pCur).run h = ⟨h.env, { h.bt with pCursor := pCur :: h.bt.pCursor },
        Function.update h.cursor pCur
          ⟨some h.bt.id, some (mdbCursorInit txn name), (h.cursor pCur).mcInit⟩⟩ := by
  simp only [Call.run, sqlite3BtreeCursor]
  cases hcurr : h.bt.currTxn with
  | none => exact .inl rfl
  | some txn =>
    by_cases hname : ((h.env.seen txn).db name).isNone
    · simp only [map_some, if_pos hname, getD_some, true_or]
    · refine .inr ⟨txn, rfl, ?_⟩
      simp only [map_some, if_neg hname, getD_some]

/-- A handle agrees with its environment, and the LMDB cursors are on transactions that have been
issued and are the handle's own as long as they are open. -/
structure CursorsOwned (h : Handle) : Prop where
  tracks : Tracks h.env h.bt
  issued : ∀ pCur mc, (h.cursor pCur).mc = some mc → mc.txn < h.env.store.next
  owned : ∀ pCur mc, (h.cursor pCur).mc = some mc → h.env.store.Live mc.txn →
    OwnTxn h.env h.bt mc.txn

namespace CursorsOwned

variable {h h' : Handle}

section

variable (howned : CursorsOwned h)

include howned

/-- Assumes: a call that hands the transactions on; each cursor is on the transaction it was on, or
on one of the handle. -/
theorem of_handsOn (htracks : Tracks h'.env h'.bt) (hhands : HandsOn h.env h.bt h'.env h'.bt)
    (hcursors : ∀ pCur, SameTxn (h.cursor pCur) (h'.cursor pCur) ∨
      ∀ mc, (h'.cursor pCur).mc = some mc →
        mc.txn < h'.env.store.next ∧ OwnTxn h'.env h'.bt mc.txn) : CursorsOwned h' := by
  refine ⟨htracks, fun pCur mc hmc ↦ ?_, fun pCur mc hmc hlive ↦ ?_⟩
  · rcases hcursors pCur with hsame | hown
    · obtain ⟨old, hold, htxn⟩ := hsame mc hmc
      rw [← htxn]
      exact Nat.lt_of_lt_of_le (howned.issued pCur old hold) hhands.next_le
    · exact (hown mc hmc).1
  · rcases hcursors pCur with hsame | hown
    · obtain ⟨old, hold, htxn⟩ := hsame mc hmc
      rw [← htxn] at hlive ⊢
      exact hhands.owned old.txn (howned.issued pCur old hold) (howned.owned pCur old hold) hlive
    · exact (hown mc hmc).2

/-- Assumes: a call that leaves the transactions of the handle as they are. -/
theorem of_cursors (henv : h'.env = h.env)
    (hbt : ∃ cursors, h'.bt = { h.bt with pCursor := cursors })
    (hcursors : ∀ pCur, SameTxn (h.cursor pCur) (h'.cursor pCur)) : CursorsOwned h' := by
  obtain ⟨cursors, hbt⟩ := hbt
  refine howned.of_handsOn ?_ ?_ fun pCur ↦ .inl (hcursors pCur)
  · rw [henv, hbt]
    exact howned.tracks.setCursors cursors
  · rw [henv, hbt]
    have hsame : HandsOn h.env h.bt h.env h.bt := HandsOn.of_ids rfl rfl rfl
    exact ⟨hsame.next_le, hsame.owned⟩

theorem cursor (name : DbName) (pCur : ℕ) : CursorsOwned ((Call.cursor name pCur).run h) := by
  rcases Call.run_cursor h name pCur with hrun | ⟨txn, hcurr, hrun⟩
  · rwa [hrun]
  · obtain ⟨hissued, hown⟩ := ownTxn_curr howned.tracks hcurr
    have hsame : HandsOn h.env h.bt h.env h.bt := HandsOn.of_ids rfl rfl rfl
    rw [hrun]
    refine howned.of_handsOn (howned.tracks.setCursors _) ⟨hsame.next_le, hsame.owned⟩
      fun other ↦ ?_
    by_cases heq : other = pCur
    · subst heq
      refine .inr fun mc hmc ↦ ?_
      simp only [update_self, mdbCursorInit, Option.some.injEq] at hmc
      subst hmc
      exact ⟨hissued, hown⟩
    · refine .inl ?_
      simp only [update_of_ne heq]
      exact SameTxn.refl _

theorem operate (pCur : ℕ) (pos : Option ℕ) (mcInit : Bool) (writes : List Write) :
    CursorsOwned ((Call.operate pCur pos mcInit writes).run h) := by
  have hnext : ∀ (ws : List Write) (store : SnapshotStore Content),
      (ws.foldl (fun store w ↦ store.modifyTop w) store).next = store.next := by
    intro ws
    induction ws with
    | nil => exact fun _ ↦ rfl
    | cons w rest ih => exact fun store ↦ ih (store.modifyTop w)
  have hcursors : ∀ other, SameTxn (h.cursor other)
      (((Call.operate pCur pos mcInit writes).run h).cursor other) :=
    SameTxn.update (SameTxn.map (f := fun mc ↦ { mc with pos := pos }) (fun _ ↦ rfl) _ _)
  by_cases hwrite : h.bt.inTrans = .write
  · obtain ⟨hwriter, -, hreaders⟩ := foldl_modifyTop h.env.store writes
    have hids := congrArg (List.map Frame.id) hwriter
    rw [map_id_setTop] at hids
    refine howned.of_handsOn ?_ ?_ fun other ↦ .inl (hcursors other)
    · refine howned.tracks.of_writer hwrite ?_
      simp only [Call.run, if_pos hwrite]
      exact hids
    · refine HandsOn.of_ids ?_ ?_ ?_
      · simp only [Call.run, if_pos hwrite]
        exact hnext writes _
      · simp only [Call.run, if_pos hwrite]
        exact hids
      · simp only [Call.run, if_pos hwrite]
        exact congrArg (List.map Frame.id) hreaders
  · refine howned.of_cursors ?_ ⟨h.bt.pCursor, rfl⟩ hcursors
    simp [Call.run, if_neg hwrite]

theorem beginTrans (wrflag : ℕ) : CursorsOwned (sqlite3BtreeBeginTrans h wrflag).2 := by
  have htracks : Tracks h.plain.env h.plain.bt := howned.tracks
  rw [beginTrans_eq]
  refine howned.of_handsOn (tracks_beginTrans h.plain wrflag htracks)
    (handsOn_beginTrans h.plain wrflag htracks) fun pCur ↦ ?_
  by_cases hup : h.bt.inTrans = .read ∧ wrflag ≠ 0 ∧ h.bt.mainTxn ≠ none ∧
      (LumoSQL.sqlite3BtreeBeginTrans h.plain wrflag).1 = .ok
  · obtain ⟨-, reader, hresult⟩ := LumoSQL.upgrade_result htracks hup.1 hup.2.1 hup.2.2.2
    simp only [if_pos hup, hresult, moveCursors_apply]
    split_ifs
    · refine .inr fun mc hmc ↦ ?_
      rw [moveCursor_eq] at hmc
      obtain ⟨old, -, rfl⟩ := map_eq_some_iff.mp hmc
      exact ⟨Nat.lt_succ_self _, .inl ⟨rfl, .head _⟩⟩
    · exact .inl (SameTxn.refl _)
  · simp only [if_neg hup]
    exact .inl (SameTxn.refl _)

theorem savepoint (op : SavepointOp) (index : ℤ) :
    CursorsOwned (sqlite3BtreeSavepoint h op index).2 :=
  howned.of_handsOn (tracks_savepoint h.plain op index howned.tracks)
    (handsOn_savepoint h.plain op index howned.tracks)
    fun _ ↦ .inl (SameTxn.refl _)

/-- The commit of the main transaction, before the cursors are closed. -/
theorem committed {main : ℕ} (hmain : h.bt.mainTxn = some main) :
    CursorsOwned ⟨(h.env.mdbTxnCommit main).2, h.bt.ended, h.cursor⟩ :=
  howned.of_handsOn (Tracks.ended _ _) (handsOn_main howned.tracks hmain).1
    fun _ ↦ .inl (SameTxn.refl _)

theorem commitPhaseOne : CursorsOwned (sqlite3BtreeCommitPhaseOne h).2 := by
  unfold sqlite3BtreeCommitPhaseOne
  cases hmain : h.bt.mainTxn with
  | none =>
    exact howned.of_cursors (closeCursors_env _ h) (closeCursors_bt _ h) (closeCursors_sameTxn _ h)
  | some t =>
    exact (howned.committed hmain).of_cursors (closeCursors_env _ _) (closeCursors_bt _ _)
      (closeCursors_sameTxn _ _)

theorem close : CursorsOwned (sqlite3BtreeClose h) := by
  have henv := fun other ↦ (foldl_close_sameTxn h.bt.pCursor h other).1
  have hcursors : ∀ pCur, SameTxn (h.cursor pCur) ((sqlite3BtreeClose h).cursor pCur) :=
    fun pCur ↦ (foldl_close_sameTxn h.bt.pCursor h pCur).2
  have htracks : Tracks (sqlite3BtreeClose h).env (sqlite3BtreeClose h).bt :=
    Tracks.idle rfl rfl rfl
  refine howned.of_handsOn htracks ?_ fun pCur ↦ .inl (hcursors pCur)
  simp only [sqlite3BtreeClose, henv 0]
  cases hmain : h.bt.mainTxn with
  | none =>
    have hin := howned.tracks.mainTxn_eq_none_iff.mp hmain
    exact ⟨Nat.le_refl _, fun t _ hown hlive ↦ absurd (hown hlive) (not_ownTxn_idle hin)⟩
  | some t => exact (handsOn_main howned.tracks hmain).2

/-- Every call keeps the invariant. -/
theorem run (call : Call) (hasserts : call.Asserts h) : CursorsOwned (call.run h) := by
  cases call with
  | cursor name pCur => exact howned.cursor name pCur
  | operate pCur pos mcInit writes => exact howned.operate pCur pos mcInit writes
  | cursorZero pCur =>
    exact howned.of_cursors rfl ⟨h.bt.pCursor, rfl⟩ (SameTxn.update (SameTxn.zero _))
  | clearCursor pCur =>
    exact howned.of_cursors rfl ⟨h.bt.pCursor, rfl⟩ (SameTxn.update (SameTxn.clear _ _))
  | closeCursor pCur =>
    refine howned.of_cursors rfl ?_ (SameTxn.update (SameTxn.clear _ _))
    simp only [Call.run, sqlite3BtreeCloseCursor]
    split_ifs
    · exact ⟨_, rfl⟩
    · exact ⟨h.bt.pCursor, rfl⟩
  | beginTrans wrflag => exact howned.beginTrans wrflag
  | beginStmt stmt =>
    exact howned.of_handsOn (tracks_beginStmt h.plain stmt howned.tracks hasserts)
      (handsOn_beginStmt h.plain stmt howned.tracks hasserts)
      fun pCur ↦ .inl (SameTxn.refl _)
  | savepoint op index => exact howned.savepoint op index
  | rollback => exact howned.savepoint .rollback (-1)
  | commitPhaseOne => exact howned.commitPhaseOne
  | close => exact howned.close
  | elsewhere env =>
    exact howned.of_handsOn (LeavesAlone.tracks hasserts howned.tracks)
      (LeavesAlone.handsOn hasserts) fun pCur ↦ .inl (SameTxn.refl _)

end

end CursorsOwned

/-! ### Which uses are of open cursors -/

variable {env : Env} {h : Handle} {txn : ℕ}

/-- Without a transaction no cursor of the handle is alive. -/
theorem not_alive_of_idle (howned : CursorsOwned h) (hin : h.bt.inTrans = .none) (pCur : ℕ) :
    ¬ Alive h.env (h.cursor pCur).mc := by
  rintro ⟨mc, hmc, hlive⟩
  exact not_ownTxn_idle hin (howned.owned pCur mc hmc hlive)

/-- Closing a cursor leaves the LMDB cursors on their transactions. -/
theorem alive_closeCursor_iff (h : Handle) (pCur other : ℕ) (env : Env) :
    Alive env ((sqlite3BtreeCloseCursor h pCur).cursor other).mc ↔
      Alive env (h.cursor other).mc := by
  constructor
  · rintro ⟨mc, hmc, hlive⟩
    obtain ⟨old, hold, htxn⟩ := (SameTxn.update (SameTxn.clear h.env (h.cursor pCur)) other) mc hmc
    exact ⟨old, hold, htxn ▸ hlive⟩
  · rintro ⟨old, hold, hlive⟩
    by_cases heq : other = pCur
    · subst heq
      refine ⟨(h.env.mdbCursorFirst old).2, ?_, ?_⟩
      · simp [sqlite3BtreeCloseCursor, sqlite3BtreeClearCursor, hold]
      · unfold Env.mdbCursorFirst
        split_ifs <;> exact hlive
    · refine ⟨old, ?_, hlive⟩
      simp [sqlite3BtreeCloseCursor, heq, hold]

theorem closesUses_iff (cursors : List ℕ) (h : Handle) (env : Env) :
    (∀ mc ∈ closesUses sqlite3BtreeCloseCursor cursors h, Alive env mc) ↔
      ∀ pCur ∈ cursors, Alive env (h.cursor pCur).mc := by
  induction cursors generalizing h with
  | nil => simp [closesUses]
  | cons pCur rest ih =>
    simp [closesUses, ih, alive_closeCursor_iff]

/-- Assumes: the new transaction is open. The uses of the loop for one cursor. -/
theorem moveUses_iff (hlive : env.store.Live txn) (pCur : BtCursor) :
    (∀ mc ∈ moveUses env txn pCur, Alive env mc) ↔
      ∀ mc, pCur.mc = some mc → env.store.Live mc.txn := by
  unfold moveUses
  cases hmc : pCur.mc with
  | none => simp
  | some old =>
    have hold : Alive env (some old) ↔ env.store.Live old.txn := by simp [Alive]
    have hnew : Alive env (some (mdbCursorInit txn old.dbi)) := ⟨_, rfl, hlive⟩
    rcases hread : env.mdbCursorCurrent old with rc | entry
    · simp [hread, hold]
    · simp [hread, hold, hnew]

/-- Assumes: the new transaction is open. The uses of the loop of `sqlite3BtreeBeginTrans`. -/
theorem movesUses_iff (hlive : env.store.Live txn) (cursors : List ℕ) (cursor : ℕ → BtCursor) :
    (∀ mc ∈ movesUses env txn cursors cursor, Alive env mc) ↔
      ∀ pCur ∈ cursors, ∀ mc, (cursor pCur).mc = some mc → env.store.Live mc.txn := by
  induction cursors generalizing cursor with
  | nil => simp [movesUses]
  | cons pCur rest ih =>
    rw [movesUses, forall_mem_append, moveUses_iff hlive, ih, forall_mem_cons]
    refine and_congr_right fun hfirst ↦ forall₂_congr fun other _ ↦ ?_
    -- a cursor that is on the list twice is on the new transaction the second time
    by_cases heq : other = pCur
    · subst heq
      refine iff_of_true (fun mc hmc ↦ ?_) hfirst
      rw [update_self, moveCursor_eq] at hmc
      obtain ⟨old, -, rfl⟩ := map_eq_some_iff.mp hmc
      exact hlive
    · rw [update_of_ne heq]

theorem beginTrans_usesAlive_iff (howned : CursorsOwned h) (wrflag : ℕ) :
    (Call.beginTrans wrflag).UsesAlive h ↔ (Call.beginTrans wrflag).InOrder h := by
  unfold Call.UsesAlive Call.uses Call.InOrder
  by_cases hup : h.bt.inTrans = .read ∧ wrflag ≠ 0
  · simp only [if_pos hup]
    rcases hbegin : h.env.mdbTxnBegin none false with ⟨rc | txn, env⟩
    · refine iff_of_true (by simp) ?_
      rintro ⟨-, -, hok, hidle⟩
      rw [mdbTxnBegin_write hidle, if_pos hok] at hbegin
      cases hbegin
    · obtain ⟨hidle, rfl, rfl⟩ := mdbTxnBegin_write_ok hbegin
      have hok : h.env.outcome = .success := by
        by_contra hfail
        rw [mdbTxnBegin_write hidle, if_neg hfail] at hbegin
        cases hbegin
      have hlive : h.env.pushed.store.Live h.env.store.next := by
        simp [live_iff, Env.pushed]
      refine (movesUses_iff hlive h.bt.pCursor h.cursor).trans ?_
      have hmoved : ∀ pCur mc, (h.cursor pCur).mc = some mc →
          (h.env.pushed.store.Live mc.txn ↔ h.env.store.Live mc.txn) :=
        fun pCur mc hmc ↦ live_push_iff (howned.issued pCur mc hmc)
      constructor
      · intro hall _ pCur hmem mc hmc
        exact (hmoved pCur mc hmc).mp (hall pCur hmem mc hmc)
      · intro hall pCur hmem mc hmc
        exact (hmoved pCur mc hmc).mpr (hall ⟨hup.1, hup.2, hok, hidle⟩ pCur hmem mc hmc)
  · simp only [if_neg hup]
    exact iff_of_true (by simp) fun hwould ↦ absurd ⟨hwould.1, hwould.2.1⟩ hup

/-- The uses of `sqlite3BtreeCommitPhaseOne`: when there is a cursor, the first one is on a
transaction that has ended. -/
theorem commitPhaseOne_usesAlive_iff (howned : CursorsOwned h) :
    Call.commitPhaseOne.UsesAlive h ↔ Call.commitPhaseOne.InOrder h := by
  unfold Call.UsesAlive Call.uses Call.InOrder
  cases hcursors : h.bt.pCursor with
  | nil => cases h.bt.mainTxn <;> simp [closesUses]
  | cons pCur rest =>
    refine iff_of_false (fun halive ↦ ?_) (by simp)
    cases hmain : h.bt.mainTxn with
    | none =>
      simp only [hmain, closesUses, forall_mem_cons] at halive
      exact not_alive_of_idle howned (howned.tracks.mainTxn_eq_none_iff.mp hmain) pCur halive.1
    | some t =>
      simp only [hmain, closesUses, forall_mem_cons] at halive
      exact not_alive_of_idle (howned.committed hmain) rfl pCur halive.1

/-- A call uses only open LMDB cursors when it is in order. -/
theorem usesAlive_iff_inOrder (howned : CursorsOwned h) (call : Call) :
    call.UsesAlive h ↔ call.InOrder h := by
  cases call with
  | beginTrans wrflag => exact beginTrans_usesAlive_iff howned wrflag
  | commitPhaseOne => exact commitPhaseOne_usesAlive_iff howned
  | close => exact closesUses_iff h.bt.pCursor h h.env
  | clearCursor | closeCursor => simp [Call.UsesAlive, Call.uses, Call.InOrder]
  | _ => simp [Call.UsesAlive, Call.uses, Call.InOrder]

theorem cursorsOwned_opened (env : Env) (id pBt : ℕ) : CursorsOwned (Handle.opened env id pBt) where
  tracks := .idle rfl rfl rfl
  issued := nofun
  owned := nofun

/-- Assumes: a run from the opening of a handle that meets what is asserted. In every call of the
run the backend uses only LMDB cursors that have not been closed and whose transaction has not
ended, exactly when every call of it is in order. -/
theorem uses_alive_iff (env : Env) (id pBt : ℕ) (calls : List Call)
    (hasserts : Meets Call.run Call.Asserts (Handle.opened env id pBt) calls) :
    Meets Call.run Call.UsesAlive (Handle.opened env id pBt) calls ↔
      Meets Call.run Call.InOrder (Handle.opened env id pBt) calls :=
  Meets.iff_of_invariant (fun _ call howned hasserts _ ↦ howned.run call hasserts)
    (fun _ call howned _ ↦ usesAlive_iff_inOrder howned call) (cursorsOwned_opened env id pBt)
    hasserts

/-- A read transaction with a cursor that is closed in it, before a commit. -/
def closedBefore : List Call :=
  [.beginTrans 0, .cursor (.tab 2) 5, .operate 5 (some 0) true [], .closeCursor 5, .commitPhaseOne]

/-- The run uses open cursors only. -/
theorem closed_before_commit :
    Meets Call.run Call.UsesAlive (Handle.opened (Env.created oneRowContent [] true) 1 1)
      closedBefore := by
  refine (uses_alive_iff (Env.created oneRowContent [] true) 1 1 closedBefore ?_).mpr ?_
  · exact ⟨trivial, trivial, trivial, trivial, trivial, trivial⟩
  · refine ⟨fun hread ↦ absurd hread.1 (by decide), trivial, trivial,
      ⟨⟨0, .tab 2, some 0⟩, rfl, ?_⟩,
      rfl, trivial⟩
    exact ⟨_, .head _, rfl⟩

/-- The cursor is left to the commit, which takes it to the first entry after its transaction has
ended. -/
theorem commit_uses_ended :
    Meets Call.run Call.Asserts (Handle.opened (Env.created oneRowContent [] true) 1 1)
        [.beginTrans 0, .cursor (.tab 2) 5, .commitPhaseOne] ∧
      ¬ Meets Call.run Call.UsesAlive (Handle.opened (Env.created oneRowContent [] true) 1 1)
        [.beginTrans 0, .cursor (.tab 2) 5, .commitPhaseOne] := by
  refine ⟨⟨trivial, trivial, trivial, trivial⟩, fun hmeets ↦ ?_⟩
  obtain ⟨mc, hmc, frame, hframe, -⟩ := hmeets.2.2.1 (some ⟨0, .tab 2, none⟩) (.head _)
  cases hframe

end NotForking

end LumoSQL
