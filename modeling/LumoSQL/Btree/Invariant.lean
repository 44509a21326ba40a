import LumoSQL.Btree.Handle
import LumoSQL.Foundation.GuardedRun

/-!
# The transaction handles of a Btree

`main_txn`, `curr_txn` and `inTrans` say the same thing three times, and six operations change them,
each in its own order. `TxnHandles` is what they have to agree on: whether there is a transaction,
of which kind it is, and that the links to parents lead from `curr_txn` to `main_txn` over
transactions that are open in LMDB. It follows from the agreement `Tracks` (`Tracks.txnHandles`), so
it holds after every run of the operations, whatever codes LMDB reports (`txn_handles_invariant`).
-/

namespace LumoSQL

open Foundation List Option SnapshotStore

def SAVEPOINT_ROLLBACK : ℕ := 2

/-- What `sqlite3BtreeSavepoint` takes an operation for: every one but a rollback is a release. -/
def savepointOp (op : ℕ) : SavepointOp := if op = SAVEPOINT_ROLLBACK then .rollback else .release

/-- A call that begins or ends transactions of a Btree. -/
inductive TxnCall
  | beginTrans (wrflag : ℕ)
  | beginStmt (iStatement : ℤ)
  | savepoint (op : ℕ) (iSavepoint : ℤ)
  | rollback
  | commitPhaseOne
  | commit

/-- The handle after a call. -/
def TxnCall.run (h : Handle) : TxnCall → Handle
  | .beginTrans wrflag => (sqlite3BtreeBeginTrans h wrflag).2
  | .beginStmt iStatement => (sqlite3BtreeBeginStmt h iStatement).2
  | .savepoint op iSavepoint => (sqlite3BtreeSavepoint h (savepointOp op) iSavepoint).2
  | .rollback => (sqlite3BtreeRollback h).2
  | .commitPhaseOne => (sqlite3BtreeCommitPhaseOne h).2
  | .commit => (sqlite3BtreeCommit h).2

/-- `sqlite3BtreeBeginStmt` asserts that the Btree is writing. -/
def TxnCall.Asserts (h : Handle) : TxnCall → Prop
  | .beginStmt _ => h.bt.inTrans = .write
  | _ => True

/-- What `main_txn`, `curr_txn` and `inTrans` of a Btree have to agree on. -/
structure TxnHandles (env : Env) (p : Btree) : Prop where
  none_iff_main : p.inTrans = .none ↔ p.mainTxn = none
  none_iff_curr : p.inTrans = .none ↔ p.currTxn = none
  reaches : ∀ main curr, p.mainTxn = some main → p.currTxn = some curr → env.store.Reaches curr main
  outermost : ∀ main, p.mainTxn = some main → env.store.parent main = none
  rdonly : ∀ main, p.mainTxn = some main →
    (main ∈ env.store.readers.map Frame.id ↔ p.inTrans = .read)
  same : p.inTrans = .read → p.currTxn = p.mainTxn
  live : ∀ curr t, p.currTxn = some curr → env.store.Reaches curr t → env.store.Live t

section

variable {env : Env} {p : Btree} {h : Handle}

theorem TxnHandles.of_open {main curr : ℕ} (hin : p.inTrans ≠ .none) (hmain : p.mainTxn = some main)
    (hcurr : p.currTxn = some curr) (hreaches : env.store.Reaches curr main)
    (houtermost : env.store.parent main = none)
    (hrdonly : main ∈ env.store.readers.map Frame.id ↔ p.inTrans = .read)
    (hsame : p.inTrans = .read → curr = main)
    (hlive : ∀ t, env.store.Reaches curr t → env.store.Live t) : TxnHandles env p := by
  refine ⟨by simp [hin, hmain], by simp [hin, hcurr], ?_, ?_, ?_, ?_, ?_⟩
  · rintro main' curr' hmain' hcurr'
    obtain rfl := some.inj (hmain.symm.trans hmain')
    obtain rfl := some.inj (hcurr.symm.trans hcurr')
    exact hreaches
  · rintro main' hmain'
    obtain rfl := some.inj (hmain.symm.trans hmain')
    exact houtermost
  · rintro main' hmain'
    obtain rfl := some.inj (hmain.symm.trans hmain')
    exact hrdonly
  · intro hread
    rw [hmain, hcurr, hsame hread]
  · rintro curr' t hcurr'
    obtain rfl := some.inj (hcurr.symm.trans hcurr')
    exact hlive t

/-- A Btree that agrees with its environment has its handles right. -/
theorem Tracks.txnHandles (htracks : Tracks env p) : TxnHandles env p := by
  rcases htracks with ⟨hin, hmain, hcurr⟩ | ⟨hin, reader, hmem, hmain, hcurr⟩ |
    ⟨hin, hopen, hmain, hcurr⟩
  · exact ⟨by simp [hin, hmain], by simp [hin, hcurr], by simp [hmain], by simp [hmain],
      by simp [hmain], by simp [hin], by simp [hcurr]⟩
  · refine .of_open (by simp [hin]) hmain hcurr Relation.ReflTransGen.refl
      (parent_reader hmem) ⟨fun _ ↦ hin, fun _ ↦ mem_map_of_mem hmem⟩
      (fun _ ↦ rfl) fun t hreaches ↦ ?_
    exact ⟨reader, mem_append_right _ hmem, (hreaches.of_reader hmem).symm⟩
  · -- the write stack is the chain of parents from its top to its last frame
    obtain ⟨top, rest, hwriter⟩ := exists_cons_of_ne_nil hopen
    obtain ⟨inner, last, hends⟩ : ∃ inner last, env.store.writer = inner ++ [last] :=
      ⟨_, _, (dropLast_append_getLast hopen).symm⟩
    have hlast : env.store.writer.getLast? = some last := by rw [hends, getLast?_concat]
    rw [getLast?_map, hlast] at hmain
    rw [head?_map, hwriter] at hcurr
    refine .of_open (by simp [hin]) hmain hcurr
      (reaches_last [] hwriter hlast) ?_ ?_ (by simp [hin])
      fun t hreaches ↦ ?_
    · rw [SnapshotStore.parent, hends,
        outer_outermost inner last (hends ▸ env.store.writer_distinct)]
      rfl
    · rw [hin]
      refine ⟨fun hreader ↦ ?_, fun hread ↦ absurd hread (by decide)⟩
      obtain ⟨reader, hreader, hid⟩ := mem_map.mp hreader
      refine absurd ?_ (reader_not_writer hreader)
      rw [hid]
      exact mem_map_of_mem (mem_of_getLast? hlast)
    · have hmem := hreaches.mem_writer (mem_map_of_mem (by rw [hwriter]; simp))
      obtain ⟨frame, hframe, hid⟩ := mem_map.mp hmem
      exact ⟨frame, mem_append_left _ hframe, hid⟩

theorem tracks_commit (h : Handle) (htracks : Tracks h.env h.bt) :
    Tracks (sqlite3BtreeCommit h).2.env (sqlite3BtreeCommit h).2.bt := by
  have hfirst := tracks_commitPhaseOne h htracks
  simp only [sqlite3BtreeCommit, sqlite3BtreeCommitPhaseTwo]
  split_ifs
  · exact hfirst
  · exact hfirst

/-- Every call keeps the Btree in agreement with its environment. -/
theorem TxnCall.tracks (call : TxnCall) (htracks : Tracks h.env h.bt) (hasserts : call.Asserts h) :
    Tracks (call.run h).env (call.run h).bt := by
  cases call with
  | beginTrans wrflag => exact tracks_beginTrans h wrflag htracks
  | beginStmt stmt => exact tracks_beginStmt h stmt htracks hasserts
  | savepoint op index => exact tracks_savepoint h (savepointOp op) index htracks
  | rollback => exact tracks_savepoint h .rollback (-1) htracks
  | commitPhaseOne => exact tracks_commitPhaseOne h htracks
  | commit => exact tracks_commit h htracks

/-- After every run of the calls from an opened Btree its handles are right, whatever the
environment and the codes that LMDB reports. Assumes: `sqlite3BtreeBeginStmt` is called only while
the Btree is writing. -/
theorem txn_handles_invariant (env : Env) (id pBt : ℕ) (calls : List TxnCall)
    (hasserts : Meets TxnCall.run (fun h call ↦ call.Asserts h) (Handle.opened env id pBt) calls) :
    TxnHandles (calls.foldl TxnCall.run (Handle.opened env id pBt)).env
      (calls.foldl TxnCall.run (Handle.opened env id pBt)).bt := by
  have hstep : ∀ (h : Handle) (call : TxnCall), (fun h : Handle ↦ Tracks h.env h.bt) h →
      call.Asserts h → (fun h : Handle ↦ Tracks h.env h.bt) (call.run h) :=
    fun _ call htracks hassert ↦ call.tracks htracks hassert
  have htracks := Meets.invariant hstep (.idle rfl rfl rfl) hasserts
  exact htracks.txnHandles

end

/-- A write transaction with a statement in it whose release fails. -/
theorem txn_handles_after_failure : TxnHandles
      ([.beginTrans 0, .beginTrans 1, .beginStmt 1, .savepoint 1 0].foldl TxnCall.run
        (Handle.opened (.created ⟨fun _ ↦ none⟩ [.success, .success, .success, .mapFull]
          true) 0 0)).env
      ([.beginTrans 0, .beginTrans 1, .beginStmt 1, .savepoint 1 0].foldl TxnCall.run
        (Handle.opened (.created ⟨fun _ ↦ none⟩ [.success, .success, .success, .mapFull]
          true) 0 0)).bt :=
  txn_handles_invariant _ 0 0 _ ⟨trivial, trivial, rfl, trivial, trivial⟩

end LumoSQL
