import LumoSQL.Btree.Statement

/-!
# A Btree alone on its environment, between statements

When one connection is the only user of an environment and its statements run one after the other,
the main Btree is found in one of three states between them: without a transaction, reading the
durable content, or writing in its main transaction with nothing nested in it. `Holds` is that
state, with the content the Btree sees and the durable content as its parameters, so that what an
operation does can be said in terms of the two contents alone: `Holds.beginTrans`, `Holds.writes`
and `Holds.statement` for the writes, `Holds.commit` for phase one of a commit, and
`Holds.savepoint_rollback` and `Holds.savepoint_release` for the two savepoint operations, which end
the main transaction whatever savepoint they are asked for.
-/

namespace LumoSQL

open Foundation SnapshotStore Env

/-- A Btree between statements, alone on an environment whose LMDB calls succeed: it sees `current`,
and `stored` is durable. -/
structure Holds (h : Handle) (current stored : Content) : Prop where
  tracks : Tracks h.env h.bt
  noCursors : h.bt.pCursor = []
  working : h.env.outcomes = []
  flat : h.bt.inTrans = .write → ∃ top, h.env.store.writer = [top]
  alone : h.bt.inTrans ≠ .write → h.env.store.writer = []
  visible : h.visible = current
  durable : h.env.store.durable = stored
  unwritten : h.bt.inTrans ≠ .write → current = stored

/-- A Btree without a transaction on an environment without write transactions. -/
theorem Holds.of_ended {env : Env} {p : Btree} {cursor : ℕ → BtCursor} {stored : Content}
    (hcursors : p.pCursor = []) (hcodes : env.outcomes = []) (hwriter : env.store.writer = [])
    (hdurable : env.store.durable = stored) : Holds ⟨env, p.ended, cursor⟩ stored stored where
  tracks := Tracks.ended env p
  noCursors := hcursors
  working := hcodes
  flat := fun hwrite ↦ absurd hwrite (by simp [Btree.ended])
  alone := fun _ ↦ hwriter
  visible := hdurable
  durable := hdurable
  unwritten := fun _ ↦ rfl

theorem Holds.of_writing {env : Env} {p : Btree} {cursor : ℕ → BtCursor} (top : Frame Content)
    {stored : Content} (hcursors : p.pCursor = []) (hcodes : env.outcomes = [])
    (hwrite : p.inTrans = .write) (hmain : p.mainTxn = some top.id)
    (hcurr : p.currTxn = some top.id) (hwriter : env.store.writer = [top])
    (hdurable : env.store.durable = stored) : Holds ⟨env, p, cursor⟩ top.content stored where
  tracks := .writing hwrite (by simp [hwriter]) (by simp [hwriter, hmain])
    (by simp [hwriter, hcurr])
  noCursors := hcursors
  working := hcodes
  flat := fun _ ↦ ⟨top, hwriter⟩
  alone := fun hquiet ↦ absurd hwrite hquiet
  visible := by
    simp only [Handle.visible, hcurr]
    exact seen_top hwriter
  durable := hdurable
  unwritten := fun hquiet ↦ absurd hwrite hquiet

section

variable {h : Handle} {current stored : Content}

section

variable (hholds : Holds h current stored)

include hholds

/-- While the Btree writes, its only frame holds what it sees and is both of its handles. -/
theorem Holds.exists_frame (hwrite : h.bt.inTrans = .write) :
    ∃ top, h.env.store.writer = [top] ∧ h.bt.mainTxn = some top.id ∧
      h.bt.currTxn = some top.id ∧ top.content = current := by
  obtain ⟨top, hwriter⟩ := hholds.flat hwrite
  obtain ⟨top', rest, hwriter', hcurr⟩ := hholds.tracks.exists_top hwrite
  obtain ⟨inner, last, hends, hmain⟩ := hholds.tracks.exists_bottom hwrite
  obtain ⟨rfl, rfl⟩ : top = top' ∧ [] = rest := by simpa using hwriter.symm.trans hwriter'
  have hlast : top = last := by
    have hgetLast := congrArg List.getLast? (hwriter.symm.trans hends)
    simpa using hgetLast
  refine ⟨top, hwriter, hlast ▸ hmain, hcurr, ?_⟩
  rw [← hholds.visible, Handle.visible, hcurr]
  exact (seen_top hwriter).symm

/-- Beginning a transaction, or upgrading one, changes nothing that can be seen. -/
theorem Holds.beginTrans (wrflag : ℕ) :
    ∃ h', sqlite3BtreeBeginTrans h wrflag = (.ok, h') ∧ Holds h' current stored ∧
      h'.bt.pBt = h.bt.pBt ∧ (wrflag ≠ 0 → h'.bt.inTrans = .write) := by
  rcases beginTrans_cases h wrflag hholds.tracks with ⟨hresult, hstay⟩ |
    ⟨rc, _, _, hquiet, hwhy⟩ | ⟨hread, hnone, hresult⟩ | ⟨_, hin, hwriter, hresult⟩ |
    ⟨_, hin, hwriter, reader, hmem, hmain, hresult⟩
  · refine ⟨h, hresult, hholds, rfl, fun hflag ↦ ?_⟩
    rcases hstay with hwrite | ⟨_, hzero⟩
    · exact hwrite
    · exact absurd hzero hflag
  · rcases hwhy with hcode | hbusy
    · exact absurd (outcome_nil hholds.working) hcode
    · exact absurd (hholds.alone hquiet) hbusy
  · have hquiet : h.bt.inTrans ≠ .write := by simp [hnone]
    refine ⟨_, hresult, ?_, rfl, fun hflag ↦ absurd hread hflag⟩
    refine ⟨?_, hholds.noCursors, ?_, fun hwrite ↦ absurd hwrite (by simp [Btree.began]),
      fun _ ↦ hholds.alone hquiet, ?_, hholds.durable, fun _ ↦ hholds.unwritten hquiet⟩
    · exact .reading rfl ⟨h.env.store.next, h.env.store.durable⟩ (by simp) rfl rfl
    · simp [Env.spend, hholds.working]
    · have hseen := @Env.seen_reader { h.env.spend with store := h.env.store.beginRead }
        ⟨h.env.store.next, h.env.store.durable⟩ (by simp)
      rwa [hholds.unwritten hquiet, ← hholds.durable]
  -- a write transaction begins on the durable content
  all_goals
    have hquiet : h.bt.inTrans ≠ .write := by simp [hin]
    refine ⟨_, hresult, ?_, rfl, fun _ ↦ rfl⟩
    have htip : h.env.store.tip = current := by
      rw [tip_of_idle hwriter, hholds.durable, hholds.unwritten hquiet]
    rw [← htip]
    exact Holds.of_writing ⟨h.env.store.next, h.env.store.tip⟩ hholds.noCursors
      (by simp [Env.spend, hholds.working]) rfl rfl rfl (by simp [hwriter]) hholds.durable

/-- Assumes: a writing Btree. Writes change what it sees and nothing else. -/
theorem Holds.writes (hwrite : h.bt.inTrans = .write) (ws : List Write) :
    Holds (h.writes ws) (applyWrites current ws) stored := by
  obtain ⟨top, hwriter, hmain, hcurr, rfl⟩ := hholds.exists_frame hwrite
  obtain ⟨hwriter', hdurable, _⟩ := foldl_modifyTop h.env.store ws
  rw [tip_of_writer hwriter, hwriter] at hwriter'
  exact Holds.of_writing ⟨top.id, applyWrites top.content ws⟩ hholds.noCursors
    hholds.working hwrite hmain hcurr hwriter' (hdurable.trans hholds.durable)

/-- Assumes: a writing Btree. A statement in a transaction of its own that is released changes what
the Btree sees and nothing else. -/
theorem Holds.statement (hwrite : h.bt.inTrans = .write) {stmt : ℤ} (hpos : 0 < stmt)
    (ws : List Write) :
    ∃ h', closeStatementBtree ((sqlite3BtreeBeginStmt h stmt).2.writes ws) .release
        (stmt - 1) = (.ok, h') ∧ Holds h' (applyWrites current ws) stored ∧
      h'.bt.pBt = h.bt.pBt := by
  obtain ⟨top, hwriter, hmain, hcurr, rfl⟩ := hholds.exists_frame hwrite
  obtain ⟨store, hclosed, hwriter', hdurable⟩ := statement_released hholds.tracks hwrite hwriter
    hholds.working hpos ws
  refine ⟨_, hclosed, ?_, rfl⟩
  exact Holds.of_writing ⟨top.id, applyWrites top.content ws⟩ hholds.noCursors
    hholds.working hwrite hmain rfl hwriter' (hdurable.trans hholds.durable)

/-- A Btree that does not write sees the durable content, and loses at most a read transaction.
Assumes: a call that does nothing without a transaction, and else ends it. -/
theorem Holds.ends_quiet (hquiet : h.bt.inTrans ≠ .write) {result : Rc × Handle}
    (hidle : h.bt.mainTxn = none → h.bt.currTxn = none → result = (.ok, h))
    (hreads : ∀ reader ∈ h.env.store.readers, h.bt.mainTxn = some reader.id →
      h.bt.currTxn = some reader.id → result = (.ok,
        ⟨{ h.env with store := h.env.store.dropReader reader.id }, h.bt.ended, h.cursor⟩)) :
    ∃ h', result = (.ok, h') ∧ Holds h' stored stored ∧ h'.bt.pBt = h.bt.pBt ∧
      h'.bt.inTrans = .none := by
  rcases hholds.tracks with ⟨hin, hmain, hcurr⟩ | ⟨_, reader, hmem, hmain, hcurr⟩ | ⟨hin, _, _, _⟩
  · exact ⟨h, hidle hmain hcurr, hholds.unwritten hquiet ▸ hholds, rfl, hin⟩
  · exact ⟨_, hreads reader hmem hmain hcurr, Holds.of_ended hholds.noCursors hholds.working
      (hholds.alone hquiet) hholds.durable, rfl, rfl⟩
  · exact absurd hin hquiet

/-- The commit of the only transaction makes its content durable. -/
theorem Holds.committed {top : Frame Content} (hwriter : h.env.store.writer = [top]) :
    h.env.mdbTxnCommit top.id =
        (.success, { h.env.spend with store := h.env.store.commit top.id }) ∧
      Holds ⟨{ h.env.spend with store := h.env.store.commit top.id }, h.bt.ended, h.cursor⟩
        top.content top.content := by
  obtain ⟨hwriter', hdurable, _⟩ := commit_top hwriter
  refine ⟨?_, Holds.of_ended hholds.noCursors (by simp [Env.spend, hholds.working]) hwriter'
    (by simpa using hdurable)⟩
  rw [mdbTxnCommit_writer (by simp [hwriter]), if_pos (outcome_nil hholds.working)]

/-- Phase one of a commit makes durable what the Btree sees. -/
theorem Holds.commit : ∃ h', sqlite3BtreeCommitPhaseOne h = (.ok, h') ∧ Holds h' current current ∧
      h'.bt.pBt = h.bt.pBt ∧ h'.bt.inTrans = .none := by
  by_cases hwrite : h.bt.inTrans = .write
  · obtain ⟨top, hwriter, hmain, _, rfl⟩ := hholds.exists_frame hwrite
    obtain ⟨hcommit, hholds'⟩ := hholds.committed hwriter
    refine ⟨_, ?_, hholds', rfl, rfl⟩
    simp [sqlite3BtreeCommitPhaseOne, hmain, hholds.noCursors, closeCursors, hcommit, errmap]
  · rw [hholds.unwritten hwrite]
    refine hholds.ends_quiet hwrite (fun hmain _ ↦ ?_) fun reader hmem hmain _ ↦ ?_
    · simp [sqlite3BtreeCommitPhaseOne, hmain, hholds.noCursors, closeCursors]
    · simp [sqlite3BtreeCommitPhaseOne, hmain, hholds.noCursors, closeCursors,
        mdbTxnCommit_reader hmem, errmap]

/-- Assumes: a writing Btree. Whatever savepoint is asked for, the transaction that is ended is the
main one, and none is left. -/
theorem Holds.savepoint_target (hwrite : h.bt.inTrans = .write) (index : ℤ) :
    ∃ top, h.env.store.writer = [top] ∧ h.bt.currTxn = some top.id ∧
      top.content = current ∧ savepointTxn h.bt index = some top.id ∧
      savepointHandles h.bt index (h.env.store.parent top.id) = h.bt.ended := by
  obtain ⟨top, hwriter, hmain, hcurr, hcontent⟩ := hholds.exists_frame hwrite
  refine ⟨top, hwriter, hcurr, hcontent, ?_, ?_⟩
  · unfold savepointTxn
    split_ifs
    · exact hmain
    · exact hcurr
  · rw [parent_top hwriter]
    simp [savepointHandles]

/-- A rollback to any savepoint gives up everything that is not durable. -/
theorem Holds.savepoint_rollback (index : ℤ) :
    ∃ h', sqlite3BtreeSavepoint h .rollback index = (.ok, h') ∧ Holds h' stored stored ∧
      h'.bt.pBt = h.bt.pBt ∧ h'.bt.inTrans = .none := by
  by_cases hwrite : h.bt.inTrans = .write
  · obtain ⟨top, hwriter, hcurr, _, htxn, hhandles⟩ := hholds.savepoint_target hwrite index
    obtain ⟨hwriter', hdurable, _⟩ := abort_top hwriter
    have hresult : sqlite3BtreeSavepoint h .rollback index = (.ok,
        ⟨{ h.env with store := h.env.store.abort top.id }, h.bt.ended, h.cursor⟩) := by
      simp [sqlite3BtreeSavepoint, hcurr, htxn, hhandles, Env.mdbTxnAbort]
    refine ⟨_, hresult, ?_, rfl, rfl⟩
    exact Holds.of_ended hholds.noCursors hholds.working hwriter' (hdurable.trans hholds.durable)
  · exact hholds.ends_quiet hwrite (fun _ hcurr ↦ savepoint_idle hcurr _ _)
      fun _ hmem hmain hcurr ↦ savepoint_reading hmem hmain hcurr _ _

/-- The release of any savepoint makes durable what the Btree sees. -/
theorem Holds.savepoint_release (index : ℤ) :
    ∃ h', sqlite3BtreeSavepoint h .release index = (.ok, h') ∧ Holds h' current current ∧
      h'.bt.pBt = h.bt.pBt ∧ h'.bt.inTrans = .none := by
  by_cases hwrite : h.bt.inTrans = .write
  · obtain ⟨top, hwriter, hcurr, rfl, htxn, hhandles⟩ :=
      hholds.savepoint_target hwrite index
    obtain ⟨hcommit, hholds'⟩ := hholds.committed hwriter
    refine ⟨_, ?_, hholds', rfl, rfl⟩
    simp [sqlite3BtreeSavepoint, hcurr, htxn, hhandles, hcommit, errmap]
  · rw [hholds.unwritten hwrite]
    exact hholds.ends_quiet hwrite (fun _ hcurr ↦ savepoint_idle hcurr _ _)
      fun _ hmem hmain hcurr ↦ savepoint_reading hmem hmain hcurr _ _

end

end

end LumoSQL
