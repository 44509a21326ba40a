import LumoSQL.Btree.Handle

/-!
# Statement transactions on one Btree

A statement inside an explicit transaction runs in a transaction of its own: `OP_Transaction` calls
`sqlite3BtreeBeginStmt`, and `sqlite3VdbeCloseStatement` ends it with `sqlite3BtreeSavepoint`,
once to release it, and twice to roll it back: a rollback followed by a release.
`closeStatementBtree` is that pair of calls on one Btree.

`sqlite3BtreeSavepoint` ignores which savepoint it is asked for and ends the innermost transaction,
so the release after a rollback ends one transaction too many. `release_nested`,
`release_outermost`, `rollback_nested` and `rollback_outermost` say what one call does to the stack.
`statement_atomic_iff` compares the whole statement with what its caller expects: the main
transaction still open, current and uncommitted, holding the old content after a rollback and the
new one after a release. A release gives that exactly when the statement ran directly in the main
transaction, and a rollback exactly when it ran directly inside another statement, where the extra
release takes that one with it. From the main transaction a rolled-back statement commits it
(`statement_rollback_commits`).
-/

namespace LumoSQL

open Foundation SnapshotStore Env

/-- The calls of `sqlite3VdbeCloseStatement` on one Btree. -/
def closeStatementBtree (h : Handle) (eOp : SavepointOp) (iSavepoint : ℤ) : Rc × Handle :=
  let rolled := if eOp = .rollback then sqlite3BtreeSavepoint h .rollback iSavepoint else (.ok, h)
  if rolled.1 = .ok then sqlite3BtreeSavepoint rolled.2 .release iSavepoint else rolled

/-- A statement on one Btree: it begins its transaction, writes, and is closed. -/
def runStatement (h : Handle) (iStatement : ℤ) (ws : List Write) (eOp : SavepointOp) : Handle :=
  (closeStatementBtree ((sqlite3BtreeBeginStmt h iStatement).2.writes ws) eOp (iStatement - 1)).2

def applyWrites (content : Content) (ws : List Write) : Content :=
  ws.foldl (fun content w ↦ w content) content

/-- What the caller of a statement expects: the main transaction is still open, current and
uncommitted, the handle sees `expected`, and the durable content is the old one. -/
def StatementAtomic (before after : Handle) (expected : Content) : Prop :=
  ∃ m, before.bt.mainTxn = some m ∧ after.env.store.Live m ∧ after.bt.inTrans = .write ∧
    after.bt.mainTxn = some m ∧ after.bt.currTxn = some m ∧ after.visible = expected ∧
    after.env.store.durable = before.env.store.durable

/-! ### One call on the stack of transactions -/

section

variable {h : Handle} {index : ℤ} {top next : Frame Content} {rest : List (Frame Content)}

/-- Assumes: a writing handle with a nested transaction, an index other than `-1`, and a commit
that succeeds. A release merges the innermost transaction into the one around it. -/
theorem release_nested (hwriter : h.env.store.writer = top :: next :: rest)
    (hcurr : h.bt.currTxn = some top.id) (hindex : index ≠ -1)
    (hok : h.env.outcome = .success) :
    ∃ store, sqlite3BtreeSavepoint h .release index = (.ok, { h with
        env := { h.env.spend with store := store }
        bt := { h.bt with currTxn := some next.id } }) ∧
      store.writer = ⟨next.id, top.content⟩ :: rest ∧ store.durable = h.env.store.durable ∧
      store.readers = h.env.store.readers := by
  have hmem : top.id ∈ h.env.store.writer.map Frame.id := by simp [hwriter]
  obtain ⟨hwriter', hdurable, hreaders⟩ := commit_top hwriter
  refine ⟨h.env.store.commit top.id, ?_, hwriter', by simpa using hdurable, hreaders⟩
  rw [savepoint_release_inner hwriter hcurr hindex, mdbTxnCommit_writer hmem, if_pos hok]
  simp [savepointHandles, hindex, errmap]

/-- Assumes: a writing handle without nested transactions, an index other than `-1`, and a commit
that succeeds. A release commits the main transaction. -/
theorem release_outermost (hwriter : h.env.store.writer = [top])
    (hcurr : h.bt.currTxn = some top.id) (hindex : index ≠ -1)
    (hok : h.env.outcome = .success) :
    ∃ store, sqlite3BtreeSavepoint h .release index = (.ok, { h with
        env := { h.env.spend with store := store }
        bt := h.bt.ended }) ∧
      store.writer = [] ∧ store.durable = top.content ∧
      store.readers = h.env.store.readers := by
  have hmem : top.id ∈ h.env.store.writer.map Frame.id := by simp [hwriter]
  obtain ⟨hwriter', hdurable, hreaders⟩ := commit_top hwriter
  refine ⟨h.env.store.commit top.id, ?_, hwriter', by simpa using hdurable, hreaders⟩
  rw [savepoint_release_inner hwriter hcurr hindex, mdbTxnCommit_writer hmem, if_pos hok]
  simp [savepointHandles, hindex, errmap]

/-- Assumes: a writing handle with a nested transaction and an index other than `-1`. A rollback
discards the innermost transaction. -/
theorem rollback_nested (hwriter : h.env.store.writer = top :: next :: rest)
    (hcurr : h.bt.currTxn = some top.id) (hindex : index ≠ -1) :
    ∃ store, sqlite3BtreeSavepoint h .rollback index = (.ok, { h with
        env := { h.env with store := store }
        bt := { h.bt with currTxn := some next.id } }) ∧
      store.writer = next :: rest ∧ store.durable = h.env.store.durable ∧
      store.readers = h.env.store.readers := by
  obtain ⟨hwriter', hdurable, hreaders⟩ := abort_top hwriter
  refine ⟨h.env.store.abort top.id, ?_, hwriter', hdurable, hreaders⟩
  rw [savepoint_rollback_inner hwriter hcurr hindex]
  simp [savepointHandles, hindex, Env.mdbTxnAbort]

/-- Assumes: a writing handle without nested transactions and an index other than `-1`. A rollback
aborts the main transaction. -/
theorem rollback_outermost (hwriter : h.env.store.writer = [top])
    (hcurr : h.bt.currTxn = some top.id) (hindex : index ≠ -1) :
    ∃ store, sqlite3BtreeSavepoint h .rollback index = (.ok, { h with
        env := { h.env with store := store }
        bt := h.bt.ended }) ∧
      store.writer = [] ∧ store.durable = h.env.store.durable ∧
      store.readers = h.env.store.readers := by
  obtain ⟨hwriter', hdurable, hreaders⟩ := abort_top hwriter
  refine ⟨h.env.store.abort top.id, ?_, hwriter', hdurable, hreaders⟩
  rw [savepoint_rollback_inner hwriter hcurr hindex]
  simp [savepointHandles, hindex, Env.mdbTxnAbort]

end

/-! ### The writes of a statement -/

theorem foldl_modifyTop (store : SnapshotStore Content) (ws : List Write) :
    (ws.foldl (fun store w ↦ store.modifyTop w) store).writer =
        SnapshotStore.setTop (applyWrites store.tip ws) store.writer ∧
      (ws.foldl (fun store w ↦ store.modifyTop w) store).durable = store.durable ∧
      (ws.foldl (fun store w ↦ store.modifyTop w) store).readers = store.readers := by
  induction ws generalizing store with
  | nil =>
    refine ⟨?_, rfl, rfl⟩
    cases hwriter : store.writer with
    | nil => simp [hwriter]
    | cons top rest => simp [applyWrites, SnapshotStore.tip, hwriter]
  | cons w ws ih =>
    obtain ⟨hwriter, hdurable, hreaders⟩ := ih (store.modifyTop w)
    refine ⟨?_, hdurable, hreaders⟩
    rw [List.foldl_cons, hwriter]
    cases hstack : store.writer with
    | nil => simp [hstack]
    | cons top rest => simp [applyWrites, SnapshotStore.tip, hstack]

/-- Assumes: a writing handle on which LMDB opens the nested transaction. After the writes of a
statement the stack is the old one under a frame that holds their result. -/
theorem statement_stack {h : Handle} {top : Frame Content} {rest : List (Frame Content)}
    (htracks : Tracks h.env h.bt) (hwrite : h.bt.inTrans = .write)
    (hwriter : h.env.store.writer = top :: rest) (hok : h.env.outcome = .success)
    (stmt : ℤ) (ws : List Write) :
    ∃ store, (sqlite3BtreeBeginStmt h stmt).2.writes ws = { h with
        env := { h.env.spend with store := store }
        bt := { h.bt with currTxn := some h.env.store.next } } ∧
      store.writer = ⟨h.env.store.next, applyWrites top.content ws⟩ :: top :: rest ∧
      store.durable = h.env.store.durable ∧ store.readers = h.env.store.readers := by
  obtain ⟨hwriter', hdurable, hreaders⟩ := foldl_modifyTop h.env.store.push ws
  have htip : h.env.store.tip = top.content := tip_of_writer hwriter
  refine ⟨_, ?_, ?_, hdurable, hreaders⟩
  · rcases beginStmt_cases h stmt htracks hwrite with ⟨rc, _, hfail, _⟩ | ⟨_, hresult⟩
    · exact absurd hok hfail
    · rw [hresult]
      rfl
  · rw [hwriter', push_writer, setTop_cons, push_tip, htip, hwriter]

/-! ### A whole statement -/

section

variable {h : Handle} {top : Frame Content} {rest : List (Frame Content)} {stmt : ℤ}

section

variable (htracks : Tracks h.env h.bt) (hwrite : h.bt.inTrans = .write)
  (hwriter : h.env.store.writer = top :: rest) (hcodes : h.env.outcomes = [])
  (hpos : 0 < stmt) (ws : List Write)

include htracks hwrite hwriter hcodes hpos

/-- Assumes: a writing handle on a working LMDB. After a released statement the transaction it ran
in is current again and holds its writes. -/
theorem statement_released :
    ∃ store, closeStatementBtree ((sqlite3BtreeBeginStmt h stmt).2.writes ws) .release
        (stmt - 1) = (.ok, { h with
          env := { h.env with store := store }
          bt := { h.bt with currTxn := some top.id } }) ∧
      store.writer = ⟨top.id, applyWrites top.content ws⟩ :: rest ∧
      store.durable = h.env.store.durable := by
  have hindex : stmt - 1 ≠ -1 := by omega
  obtain ⟨store, hstack, hwriter', hdurable, _⟩ := statement_stack htracks hwrite hwriter
    (outcome_nil hcodes) stmt ws
  rw [spend_nil hcodes] at hstack
  obtain ⟨store', hrelease, hwriter'', hdurable', _⟩ := release_nested
    (h := { h with env := { h.env with store := store }
                   bt := { h.bt with currTxn := some h.env.store.next } })
    hwriter' rfl hindex (outcome_nil hcodes)
  refine ⟨store', ?_, hwriter'', hdurable'.trans hdurable⟩
  rw [hstack, closeStatementBtree]
  simp only [reduceCtorEq, if_false, if_true, hrelease]
  simp [Env.spend, hcodes]

/-- Assumes: a writing handle on a working LMDB. Rolling a statement back releases the transaction
it ran in, the statement's writes gone. -/
theorem statement_rolled_back : ∃ store, runStatement h stmt ws .rollback =
        (sqlite3BtreeSavepoint { h with
          env := { h.env with store := store }
          bt := { h.bt with currTxn := some top.id } } .release (stmt - 1)).2 ∧
      store.writer = top :: rest ∧ store.durable = h.env.store.durable := by
  have hindex : stmt - 1 ≠ -1 := by omega
  obtain ⟨store, hstack, hwriter', hdurable, _⟩ := statement_stack htracks hwrite hwriter
    (outcome_nil hcodes) stmt ws
  rw [spend_nil hcodes] at hstack
  obtain ⟨store', hrollback, hwriter'', hdurable', _⟩ := rollback_nested
    (h := { h with env := { h.env with store := store }
                   bt := { h.bt with currTxn := some h.env.store.next } })
    hwriter' rfl hindex
  refine ⟨store', ?_, hwriter'', hdurable'.trans hdurable⟩
  rw [runStatement, hstack, closeStatementBtree]
  simp [hrollback]

end

end

def expectedContent (h : Handle) (ws : List Write) : SavepointOp → Content
  | .release => applyWrites h.visible ws
  | .rollback => h.visible

/-- The shape of the write stack under which closing a statement does what its caller expects: it
is released directly inside the main transaction, or rolled back directly inside the one statement
that is open in the main transaction. -/
def ClosesRight (h : Handle) : SavepointOp → Prop
  | .release => h.bt.currTxn = h.bt.mainTxn
  | .rollback => ∃ t, h.bt.currTxn = some t ∧ h.env.store.parent t = h.bt.mainTxn

section

variable {h : Handle} {stmt : ℤ} (htracks : Tracks h.env h.bt)
  (hwrite : h.bt.inTrans = .write) (hcodes : h.env.outcomes = []) (hpos : 0 < stmt)
  (ws : List Write)

include htracks hwrite hcodes hpos

/-- Assumes: a writing handle on a working LMDB. Releasing a statement is atomic exactly when it
ran directly in the main transaction. -/
theorem release_atomic_iff :
    StatementAtomic h (runStatement h stmt ws .release) (applyWrites h.visible ws) ↔
      h.bt.currTxn = h.bt.mainTxn := by
  obtain ⟨top, rest, hwriter, hcurr⟩ := htracks.exists_top hwrite
  have hvisible := Handle.visible_top hwriter hcurr
  obtain ⟨store, hrun, hwriter', hdurable⟩ :=
    statement_released htracks hwrite hwriter hcodes hpos ws
  rw [runStatement, hrun]
  constructor
  · rintro ⟨m, hmain, _, _, _, hcurr', _⟩
    rw [hmain, hcurr]
    exact hcurr'
  · intro hsame
    have hlive : store.Live top.id := by simpa using live_top hwriter'
    have hseen := @Env.seen_top ⟨store, h.env.outcomes, h.env.currentIsOp⟩ _ _ hwriter'
    refine ⟨top.id, hsame ▸ hcurr, hlive, hwrite, hsame ▸ hcurr, rfl, ?_, hdurable⟩
    rwa [hvisible]

/-- Assumes: a writing handle on a working LMDB. Rolling a statement back is atomic exactly when it
ran directly inside the one statement open in the main transaction. -/
theorem rollback_atomic_iff : StatementAtomic h (runStatement h stmt ws .rollback) h.visible ↔
      ∃ t, h.bt.currTxn = some t ∧ h.env.store.parent t = h.bt.mainTxn := by
  have hindex : stmt - 1 ≠ -1 := by omega
  obtain ⟨top, rest, hwriter, hcurr⟩ := htracks.exists_top hwrite
  have hparent := parent_top hwriter
  have hvisible := Handle.visible_top hwriter hcurr
  obtain ⟨store, hrun, hwriter', hdurable⟩ :=
    statement_rolled_back htracks hwrite hwriter hcodes hpos ws
  rw [hrun]
  cases rest with
  | nil =>
    -- The extra release ends the main transaction itself.
    obtain ⟨store', hrelease, _, _, _⟩ := release_outermost
      (h := { h with env := { h.env with store := store }
                     bt := { h.bt with currTxn := some top.id } })
      hwriter' rfl hindex (outcome_nil hcodes)
    rw [hrelease]
    constructor
    · rintro ⟨m, _, _, hin, _⟩
      exact absurd hin (by simp [Btree.ended])
    · rintro ⟨t, ht, hroot⟩
      obtain rfl : t = top.id := Option.some.inj (ht.symm.trans hcurr)
      rw [hparent] at hroot
      have hidle := htracks.mainTxn_eq_none_iff.mp hroot.symm
      exact absurd (hidle.symm.trans hwrite) (by decide)
  | cons next rest =>
    obtain ⟨store', hrelease, hwriter'', hdurable', _⟩ := release_nested
      (h := { h with env := { h.env with store := store }
                     bt := { h.bt with currTxn := some top.id } })
      hwriter' rfl hindex (outcome_nil hcodes)
    rw [hrelease]
    constructor
    · rintro ⟨m, hmain, _, _, _, hcurr', _⟩
      exact ⟨top.id, hcurr, by rw [hparent, hmain]; exact hcurr'⟩
    · rintro ⟨t, ht, hroot⟩
      obtain rfl : t = top.id := Option.some.inj (ht.symm.trans hcurr)
      have hmain : h.bt.mainTxn = some next.id := hroot.symm.trans hparent
      have hlive : store'.Live next.id := by simpa using live_top hwriter''
      have hseen := @Env.seen_top ⟨store', h.env.spend.outcomes, h.env.currentIsOp⟩ _ _ hwriter''
      refine ⟨next.id, hmain, hlive, hwrite, hmain, rfl, ?_, hdurable'.trans hdurable⟩
      rwa [hvisible]

end

/-- Assumes: a writing handle on a working LMDB and a positive statement number. Whatever the
statement writes, closing it does what its caller expects exactly when the write stack has the
shape its operation needs. -/
theorem statement_atomic_iff (h : Handle) (htracks : Tracks h.env h.bt)
    (hwrite : h.bt.inTrans = .write) (hcodes : h.env.outcomes = []) (iStatement : ℤ)
    (hpos : 0 < iStatement) (ws : List Write) (eOp : SavepointOp) :
    StatementAtomic h (runStatement h iStatement ws eOp) (expectedContent h ws eOp) ↔
      ClosesRight h eOp := by
  cases eOp with
  | release => exact release_atomic_iff htracks hwrite hcodes hpos ws
  | rollback => exact rollback_atomic_iff htracks hwrite hcodes hpos ws

def freshWriter : Handle :=
  (sqlite3BtreeBeginTrans (Handle.opened (Env.created ⟨fun _ ↦ none⟩ [] false) 0 0) 1).2

theorem statement_atomic_release_freshWriter :
    StatementAtomic freshWriter (runStatement freshWriter 1 [] .release)
      (expectedContent freshWriter [] .release) :=
  (statement_atomic_iff freshWriter (tracks_beginTrans _ 1 (.idle rfl rfl rfl)) rfl rfl 1
    (by decide) [] .release).mpr rfl

def createTab (root : ℕ) : Write := fun content ↦
  ⟨Function.update content.db (.tab root) (some ⟨true, false, [], .nil⟩)⟩

/-- After a table has been created in the main transaction, a statement that is rolled back ends
the write transaction and makes the table durable. -/
theorem statement_rollback_commits : ¬ StatementAtomic (freshWriter.writes [createTab 2])
        (runStatement (freshWriter.writes [createTab 2]) 1 [] .rollback)
        (expectedContent (freshWriter.writes [createTab 2]) [] .rollback) ∧
      (freshWriter.writes [createTab 2]).env.store.durable.db (.tab 2) = none ∧
      ((runStatement (freshWriter.writes [createTab 2]) 1 [] .rollback).env.store.durable.db
        (.tab 2)).isSome := by
  refine ⟨?_, rfl, rfl⟩
  rintro ⟨m, _, _, hin, _⟩
  cases hin

end LumoSQL
