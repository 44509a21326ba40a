import LumoSQL.Lmdb

/-!
# Btree handles and their transactions

`struct Btree` keeps two transaction handles and one flag: `main_txn` is the transaction the handle
began, `curr_txn` the innermost one nested in it, and `inTrans` says whether it reads, writes or
does neither. This module is `btree.c`'s transaction interface over them: `sqlite3BtreeBeginTrans`,
`sqlite3BtreeBeginStmt`, `sqlite3BtreeSavepoint`, `sqlite3BtreeRollback` and the two phases of
commit, with the cursors that `sqlite3BtreeBeginTrans` moves and `sqlite3BtreeCommitPhaseOne`
closes.

A call acts on a `Handle`: the Btree, the environment it is open on and the memory of its cursors.
`Tracks` is the invariant between a Btree and its environment: no transaction without `inTrans`, a
read transaction is one reader that is both handles, and while writing the write stack runs from
`curr_txn` down to `main_txn`. Every operation keeps it, whatever codes LMDB reports
(`tracks_beginTrans`, `tracks_beginStmt`, `tracks_savepoint`, `tracks_commitPhaseOne`).
-/

namespace LumoSQL

open Foundation List SnapshotStore Env

/-! ### The data -/

/-- `Btree.inTrans`. -/
inductive InTrans
  | none
  | read
  | write
  deriving DecidableEq, Repr

/-- The operations of `sqlite3BtreeSavepoint` that end a savepoint. -/
inductive SavepointOp
  | release
  | rollback
  deriving DecidableEq, Repr

/-- `struct BtCursor` with the `MDB_cursor` behind it; a zeroed cursor has neither. -/
structure BtCursor where
  pBtree : Option ℕ
  mc : Option MdbCursor
  deriving DecidableEq, Repr

/-- `struct Btree`: `id` stands for its address and `pBt` for the environment it is open on. -/
structure Btree where
  id : ℕ
  pBt : ℕ
  mainTxn : Option ℕ
  currTxn : Option ℕ
  inTrans : InTrans
  pCursor : List ℕ
  deriving DecidableEq, Repr

/-- What a call on a Btree can touch: its environment, itself and the memory of cursors. -/
structure Handle where
  env : Env
  bt : Btree
  cursor : ℕ → BtCursor

/-- The handle `sqlite3BtreeOpen` returns, the Btree `id` on the environment `pBt`. -/
def Handle.opened (env : Env) (id pBt : ℕ) : Handle :=
  ⟨env, ⟨id, pBt, none, none, .none, []⟩, fun _ ↦ ⟨none, none⟩⟩

def sqlite3BtreeIsInTrans (p : Btree) : Bool := p.inTrans = .write

/-! ### Cursors -/

def sqlite3BtreeClearCursor (pCur : BtCursor) : BtCursor :=
  { pCur with mc := pCur.mc.map fun mc ↦ { mc with pos := none } }

def sqlite3BtreeCursorZero : BtCursor := ⟨none, none⟩

/-- `sqlite3BtreeCloseCursor`: unlinks the cursor from the Btree it was opened on. -/
def sqlite3BtreeCloseCursor (h : Handle) (pCur : ℕ) : Handle :=
  { h with
    bt := if (h.cursor pCur).pBtree.isSome then
        { h.bt with pCursor := h.bt.pCursor.erase pCur }
      else h.bt
    cursor := Function.update h.cursor pCur (sqlite3BtreeClearCursor (h.cursor pCur)) }

/-- The loop of `sqlite3BtreeBeginTrans` that moves the cursors from the read transaction to the
new one, and back to their entries when these can be read. -/
def moveCursors (env : Env) (txn : ℕ) : List ℕ → (ℕ → BtCursor) → ℕ → BtCursor
  | [], cursor => cursor
  | pCur :: rest, cursor =>
    let moved := (cursor pCur).mc.map fun mc ↦
      match env.mdbCursorCurrent mc with
      | .ok entry => env.mdbCursorSetBoth (mdbCursorInit txn mc.dbi) entry
      | .error _ => mdbCursorInit txn mc.dbi
    moveCursors env txn rest (Function.update cursor pCur { cursor pCur with mc := moved })

/-! ### Transactions -/

def Btree.began (p : Btree) (mode : InTrans) (txn : ℕ) : Btree :=
  { p with inTrans := mode, mainTxn := some txn, currTxn := some txn }

def Btree.ended (p : Btree) : Btree :=
  { p with inTrans := .none, mainTxn := none, currTxn := none }

/-- The part of `sqlite3BtreeBeginTrans` after a write transaction has begun: a handle that was
reading moves its cursors to the new transaction and gives up its read transaction. -/
def beganWrite (h : Handle) (env : Env) (txn : ℕ) : Handle :=
  match h.bt.inTrans, h.bt.mainTxn with
  | .read, some rtxn =>
    { env := env.mdbTxnAbort rtxn
      bt := h.bt.began .write txn
      cursor := moveCursors env txn h.bt.pCursor h.cursor }
  | _, _ => { h with env := env, bt := h.bt.began .write txn }

def sqlite3BtreeBeginTrans (h : Handle) (wrflag : ℕ) : Rc × Handle :=
  if h.bt.inTrans = .write ∨ (h.bt.inTrans = .read ∧ wrflag = 0) then (.ok, h)
  else
    match h.env.mdbTxnBegin none (wrflag = 0) with
    | (.error rc, env) => (errmap rc, { h with env := env })
    | (.ok txn, env) =>
      if wrflag = 0 then (.ok, { h with env := env, bt := h.bt.began .read txn })
      else (.ok, beganWrite h env txn)

/-- `sqlite3BtreeBeginStmt`; the statement number is only asserted about. -/
def sqlite3BtreeBeginStmt (h : Handle) (_iStatement : ℤ) : Rc × Handle :=
  match h.env.mdbTxnBegin h.bt.currTxn false with
  | (.error rc, env) => (errmap rc, { h with env := env })
  | (.ok txn, env) => (.ok, { h with env := env, bt := { h.bt with currTxn := some txn } })

/-- The transaction that `sqlite3BtreeSavepoint` ends: the main one for index `-1`, else the
innermost. -/
def savepointTxn (p : Btree) (iSavepoint : ℤ) : Option ℕ :=
  if iSavepoint = -1 then p.mainTxn else p.currTxn

/-- The handles `sqlite3BtreeSavepoint` leaves, `parent` being the parent `curr_txn` had. -/
def savepointHandles (p : Btree) (iSavepoint : ℤ) (parent : Option ℕ) : Btree :=
  if iSavepoint = -1 then p.ended
  else if parent = none then p.ended
  else { p with currTxn := parent }

def sqlite3BtreeSavepoint (h : Handle) (op : SavepointOp) (iSavepoint : ℤ) : Rc × Handle :=
  match h.bt.currTxn with
  | none => (.ok, h)
  | some curr =>
    let parent := h.env.store.parent curr
    let bt := savepointHandles h.bt iSavepoint parent
    match savepointTxn h.bt iSavepoint with
    | none => (.ok, { h with bt := bt })
    | some t =>
      match op with
      | .rollback => (.ok, { h with env := h.env.mdbTxnAbort t, bt := bt })
      | .release =>
        let committed := h.env.mdbTxnCommit t
        (errmap committed.1, { h with env := committed.2, bt := bt })

/-- `sqlite3BtreeRollback`; the trip code is not used. -/
def sqlite3BtreeRollback (h : Handle) : Rc × Handle := sqlite3BtreeSavepoint h .rollback (-1)

/-- The loop of `sqlite3BtreeCommitPhaseOne` that closes and zeroes every cursor of the handle. -/
def closeCursors : List ℕ → Handle → Handle
  | [], h => h
  | pCur :: rest, h =>
    let closed := sqlite3BtreeCloseCursor h pCur
    closeCursors rest
      { closed with cursor := Function.update closed.cursor pCur sqlite3BtreeCursorZero }

/-- `sqlite3BtreeCommitPhaseOne`; the name of the master journal is not used. -/
def sqlite3BtreeCommitPhaseOne (h : Handle) : Rc × Handle :=
  match h.bt.mainTxn with
  | none => (.ok, closeCursors h.bt.pCursor h)
  | some t =>
    let committed := h.env.mdbTxnCommit t
    (errmap committed.1, closeCursors h.bt.pCursor { h with
      env := committed.2
      bt := h.bt.ended })

/-- `sqlite3BtreeCommitPhaseTwo` does nothing. -/
def sqlite3BtreeCommitPhaseTwo (h : Handle) : Rc × Handle := (.ok, h)

def sqlite3BtreeCommit (h : Handle) : Rc × Handle :=
  let first := sqlite3BtreeCommitPhaseOne h
  if first.1 = .ok then sqlite3BtreeCommitPhaseTwo first.2 else first

/-- A write of the Btree interface, such as an insert, a delete or a meta update, seen as its
effect on the content of the transaction it runs in. -/
abbrev Write := Content → Content

def Handle.writes (h : Handle) (ws : List Write) : Handle :=
  { h with env := { h.env with
      store := ws.foldl (fun store w ↦ store.modifyTop w) h.env.store } }

/-- The content seen through a handle: that of its current transaction, and the durable one when it
has none. -/
def Handle.visible (h : Handle) : Content :=
  match h.bt.currTxn with
  | none => h.env.store.durable
  | some t => h.env.seen t

theorem Handle.visible_top {h : Handle} {top : Frame Content} {rest : List (Frame Content)}
    (hwriter : h.env.store.writer = top :: rest) (hcurr : h.bt.currTxn = some top.id) :
    h.visible = top.content := by
  simp [Handle.visible, hcurr, seen_top hwriter]

/-! ### What a handle's transactions look like -/

/-- A Btree agrees with its environment: it has no transaction, or one read transaction that is
both of its handles, or it owns the stack of write transactions, `curr_txn` being the innermost and
`main_txn` the outermost. -/
inductive Tracks (env : Env) (p : Btree) : Prop
  | idle (inTrans : p.inTrans = .none) (main : p.mainTxn = none) (curr : p.currTxn = none)
  | reading (inTrans : p.inTrans = .read) (reader : Frame Content)
      (mem : reader ∈ env.store.readers) (main : p.mainTxn = some reader.id)
      (curr : p.currTxn = some reader.id)
  | writing (inTrans : p.inTrans = .write) (isOpen : env.store.writer ≠ [])
      (main : p.mainTxn = (env.store.writer.map Frame.id).getLast?)
      (curr : p.currTxn = (env.store.writer.map Frame.id).head?)

def Apart (p q : Btree) : Prop := ∀ t, p.mainTxn = some t → q.mainTxn ≠ some t

namespace Tracks

variable {env : Env} {p q : Btree}

section

variable (htracks : Tracks env p)

include htracks

theorem of_write (hwrite : p.inTrans = .write) :
    env.store.writer ≠ [] ∧ p.mainTxn = (env.store.writer.map Frame.id).getLast? ∧
      p.currTxn = (env.store.writer.map Frame.id).head? := by
  rcases htracks with ⟨hin, _, _⟩ | ⟨hin, _, _, _, _⟩ | ⟨_, hopen, hmain, hcurr⟩
  · rw [hin] at hwrite
    cases hwrite
  · rw [hin] at hwrite
    cases hwrite
  · exact ⟨hopen, hmain, hcurr⟩

/-- While writing, `curr_txn` is the top of the write stack. -/
theorem exists_top (hwrite : p.inTrans = .write) :
    ∃ top rest, env.store.writer = top :: rest ∧ p.currTxn = some top.id := by
  obtain ⟨hopen, -, hcurr⟩ := htracks.of_write hwrite
  obtain ⟨top, rest, hwriter⟩ := exists_cons_of_ne_nil hopen
  exact ⟨top, rest, hwriter, by simp [hcurr, hwriter]⟩

/-- While writing, `main_txn` is the bottom of the write stack. -/
theorem exists_bottom (hwrite : p.inTrans = .write) :
    ∃ inner last, env.store.writer = inner ++ [last] ∧ p.mainTxn = some last.id := by
  obtain ⟨hopen, hmain, -⟩ := htracks.of_write hwrite
  refine ⟨_, _, (dropLast_append_getLast hopen).symm, ?_⟩
  rw [hmain, getLast?_map, getLast?_eq_getLast_of_ne_nil hopen]
  rfl

/-- A handle has a transaction exactly when `inTrans` says so. -/
theorem currTxn_eq_none_iff : p.currTxn = none ↔ p.inTrans = .none := by
  rcases htracks with ⟨hin, _, hcurr⟩ | ⟨hin, reader, _, _, hcurr⟩ | ⟨hin, hopen, _, hcurr⟩
  · simp [hin, hcurr]
  · simp [hin, hcurr]
  · obtain ⟨top, rest, hwriter⟩ := exists_cons_of_ne_nil hopen
    simp [hin, hcurr, hwriter]

/-- The current transaction has no open child. -/
theorem exists_free (hin : p.inTrans ≠ .none) :
    ∃ t, p.currTxn = some t ∧ env.blocked t = false := by
  rcases htracks with ⟨hnone, _, _⟩ | ⟨_, reader, hmem, _, hcurr⟩ | ⟨_, hopen, _, hcurr⟩
  · exact absurd hnone hin
  · have hreader : reader.id ∈ env.store.readers.map Frame.id := mem_map_of_mem hmem
    exact ⟨reader.id, hcurr, by simp only [Env.blocked, not_not.mpr hreader, decide_false,
      Bool.false_and]⟩
  · obtain ⟨top, rest, hwriter⟩ := exists_cons_of_ne_nil hopen
    exact ⟨top.id, by simp [hcurr, hwriter], not_blocked_top hwriter⟩

/-- Both handles are set or neither is. -/
theorem mainTxn_eq_none_iff : p.mainTxn = none ↔ p.inTrans = .none := by
  rcases htracks with ⟨hin, hmain, _⟩ | ⟨hin, reader, _, hmain, _⟩ | ⟨hin, hopen, hmain, _⟩
  · simp [hin, hmain]
  · simp [hin, hmain]
  · simp [hin, hmain, hopen]

/-- A handle that owns no write transaction stays in agreement while its reader stays open. -/
theorem of_readers {env' : Env} (hwrite : p.inTrans ≠ .write)
    (hreaders : ∀ reader ∈ env.store.readers, p.mainTxn = some reader.id →
      reader ∈ env'.store.readers) : Tracks env' p := by
  rcases htracks with ⟨hin, hmain, hcurr⟩ | ⟨hin, reader, hmem, hmain, hcurr⟩ | ⟨hin, _, _, _⟩
  · exact .idle hin hmain hcurr
  · exact .reading hin reader (hreaders reader hmem hmain) hmain hcurr
  · exact absurd hin hwrite

/-- A handle that owns the write stack stays in agreement while its handles stay the same. -/
theorem of_writer {env' : Env} (hwrite : p.inTrans = .write)
    (hids : env'.store.writer.map Frame.id = env.store.writer.map Frame.id) : Tracks env' p := by
  obtain ⟨hopen, hmain, hcurr⟩ := htracks.of_write hwrite
  refine .writing hwrite ?_ (hids ▸ hmain) (hids ▸ hcurr)
  intro hnil
  rw [hnil, map_nil] at hids
  exact hopen (map_eq_nil_iff.mp hids.symm)

end

theorem not_both_write (hp : Tracks env p) (hq : Tracks env q) (hapart : Apart p q)
    (hwrite : p.inTrans = .write) : q.inTrans ≠ .write := by
  intro hwrite'
  obtain ⟨inner, last, hends, hmain⟩ := hp.exists_bottom hwrite
  obtain ⟨inner', last', hends', hmain'⟩ := hq.exists_bottom hwrite'
  have hlast : last = last' := by
    rw [hends'] at hends
    simpa using (congrArg List.getLast? hends).symm
  exact hapart last.id hmain (hlast ▸ hmain')

end Tracks

/-! ### Every operation keeps the agreement -/

variable {index : ℤ} {p : Btree} {rest : List (Frame Content)} {top : Frame Content}
  (cursors : List ℕ) (h : Handle) (wrflag : ℕ) (op : SavepointOp) (stmt : ℤ)

theorem closeCursors_env : (closeCursors cursors h).env = h.env := by
  induction cursors generalizing h with
  | nil => rfl
  | cons pCur rest ih => exact ih _

theorem closeCursors_bt : ∃ left, (closeCursors cursors h).bt = { h.bt with pCursor := left } := by
  induction cursors generalizing h with
  | nil => exact ⟨h.bt.pCursor, rfl⟩
  | cons pCur rest ih =>
    obtain ⟨left, hleft⟩ := ih { sqlite3BtreeCloseCursor h pCur with
      cursor := Function.update (sqlite3BtreeCloseCursor h pCur).cursor pCur
        sqlite3BtreeCursorZero }
    refine ⟨left, hleft.trans ?_⟩
    unfold sqlite3BtreeCloseCursor
    split_ifs <;> rfl

/-- The list of cursors plays no part in the agreement. -/
theorem Tracks.setCursors {env : Env} (htracks : Tracks env p) (cursors : List ℕ) :
    Tracks env { p with pCursor := cursors } := by
  rcases htracks with ⟨hin, hmain, hcurr⟩ | ⟨hin, reader, hmem, hmain, hcurr⟩ |
    ⟨hin, hopen, hmain, hcurr⟩
  · exact .idle hin hmain hcurr
  · exact .reading hin reader hmem hmain hcurr
  · exact .writing hin hopen hmain hcurr

/-- A handle without a transaction agrees with every environment. -/
theorem Tracks.ended (env : Env) (p : Btree) : Tracks env p.ended := .idle rfl rfl rfl

/-- What `sqlite3BtreeBeginTrans` can do to a handle that agrees with its environment: nothing,
because its transaction will do or because LMDB failed; begin a read or a write transaction; or
give up a read transaction for a write transaction. -/
theorem beginTrans_cases (htracks : Tracks h.env h.bt) :
    (sqlite3BtreeBeginTrans h wrflag = (.ok, h) ∧
        (h.bt.inTrans = .write ∨ h.bt.inTrans = .read ∧ wrflag = 0)) ∨
      (∃ rc, rc ≠ .ok ∧ sqlite3BtreeBeginTrans h wrflag = (rc, { h with env := h.env.spend }) ∧
        h.bt.inTrans ≠ .write ∧ (h.env.outcome ≠ .success ∨ h.env.store.writer ≠ [])) ∨
      (wrflag = 0 ∧ h.bt.inTrans = .none ∧ sqlite3BtreeBeginTrans h wrflag =
        (.ok, { h with
          env := { h.env.spend with store := h.env.store.beginRead }
          bt := h.bt.began .read h.env.store.next })) ∨
      (wrflag ≠ 0 ∧ h.bt.inTrans = .none ∧ h.env.store.writer = [] ∧
        sqlite3BtreeBeginTrans h wrflag = (.ok, { h with
          env := { h.env.spend with store := h.env.store.push }
          bt := h.bt.began .write h.env.store.next })) ∨
      (wrflag ≠ 0 ∧ h.bt.inTrans = .read ∧ h.env.store.writer = [] ∧
        ∃ reader ∈ h.env.store.readers, h.bt.mainTxn = some reader.id ∧
          sqlite3BtreeBeginTrans h wrflag = (.ok, {
            env := { h.env.spend with store := h.env.store.push.dropReader reader.id }
            bt := h.bt.began .write h.env.store.next
            cursor := moveCursors { h.env.spend with store := h.env.store.push }
              h.env.store.next h.bt.pCursor h.cursor })) := by
  by_cases hstay : h.bt.inTrans = .write ∨ (h.bt.inTrans = .read ∧ wrflag = 0)
  · exact .inl ⟨by rw [sqlite3BtreeBeginTrans, if_pos hstay], hstay⟩
  · obtain ⟨hwrite, hread⟩ := not_or.mp hstay
    rcases hbegin : h.env.mdbTxnBegin none (decide (wrflag = 0)) with ⟨rc | txn, env⟩
    · obtain ⟨rfl, hfail⟩ := mdbTxnBegin_error hbegin
      have hwhy := mdbTxnBegin_outer_error hbegin
      refine .inr (.inl ⟨errmap rc, fun hok ↦ hfail ((errmap_eq_ok_iff rc).mp hok), ?_, hwrite,
        hwhy.imp id And.right⟩)
      simp [sqlite3BtreeBeginTrans, if_neg hstay, hbegin]
    · by_cases hflag : wrflag = 0
      · have hnone : h.bt.inTrans = .none := by
          cases hin : h.bt.inTrans with
          | none => rfl
          | read => exact absurd ⟨hin, hflag⟩ hread
          | write => exact absurd hin hwrite
        have hresult : sqlite3BtreeBeginTrans h wrflag =
            (.ok, { h with env := env, bt := h.bt.began .read txn }) := by
          simp [sqlite3BtreeBeginTrans, if_neg hstay, hbegin, if_pos hflag]
        rw [decide_eq_true hflag] at hbegin
        obtain ⟨rfl, rfl⟩ := mdbTxnBegin_read_ok hbegin
        exact .inr (.inr (.inl ⟨hflag, hnone, hresult⟩))
      · have hresult : sqlite3BtreeBeginTrans h wrflag = (.ok, beganWrite h env txn) := by
          simp [sqlite3BtreeBeginTrans, if_neg hstay, hbegin, if_neg hflag]
        rw [decide_eq_false hflag] at hbegin
        obtain ⟨hidle, rfl, rfl⟩ := mdbTxnBegin_write_ok hbegin
        rcases htracks with ⟨hin, hmain, _⟩ | ⟨hin, reader, hmem, hmain, _⟩ | ⟨hin, _, _, _⟩
        · refine .inr (.inr (.inr (.inl ⟨hflag, hin, hidle, hresult.trans ?_⟩)))
          simp [beganWrite, hin]
        · refine .inr (.inr (.inr (.inr ⟨hflag, hin, hidle, reader, hmem, hmain,
            hresult.trans ?_⟩)))
          have habort := @SnapshotStore.abort_reader _ reader h.env.store.push hmem
          simp [beganWrite, hin, hmain, Env.mdbTxnAbort, habort]
        · exact absurd hin hwrite

/-- `sqlite3BtreeBeginTrans` keeps the handle in agreement with its environment. -/
theorem tracks_beginTrans (htracks : Tracks h.env h.bt) :
    Tracks (sqlite3BtreeBeginTrans h wrflag).2.env (sqlite3BtreeBeginTrans h wrflag).2.bt := by
  rcases beginTrans_cases h wrflag htracks with ⟨hresult, _⟩ | ⟨rc, _, hresult, hwrite, _⟩ |
    ⟨_, _, hresult⟩ | ⟨_, _, hidle, hresult⟩ | ⟨_, _, hidle, reader, hmem, _, hresult⟩
  · rwa [hresult]
  · rw [hresult]
    exact htracks.of_readers hwrite fun reader hreader _ ↦ hreader
  · rw [hresult]
    exact .reading rfl ⟨h.env.store.next, h.env.store.durable⟩ (by simp) rfl rfl
  · rw [hresult]
    exact .writing rfl (by simp) (by simp [Btree.began, hidle]) (by simp [Btree.began])
  · rw [hresult]
    exact .writing rfl (by simp) (by simp [Btree.began, hidle]) (by simp [Btree.began])

/-- What `sqlite3BtreeBeginStmt` does to a writing handle: LMDB fails and nothing changes, or a
transaction nested in `curr_txn` becomes the current one. -/
theorem beginStmt_cases (htracks : Tracks h.env h.bt) (hwrite : h.bt.inTrans = .write) :
    (∃ rc, rc ≠ .ok ∧ h.env.outcome ≠ .success ∧
        sqlite3BtreeBeginStmt h stmt = (rc, { h with env := h.env.spend })) ∨
      (h.env.outcome = .success ∧ sqlite3BtreeBeginStmt h stmt = (.ok, { h with
        env := { h.env.spend with store := h.env.store.push }
        bt := { h.bt with currTxn := some h.env.store.next } })) := by
  obtain ⟨top, rest, hwriter, hcurr⟩ := htracks.exists_top hwrite
  have hbegin := mdbTxnBegin_nested hwriter
  by_cases hok : h.env.outcome = .success
  · rw [if_pos hok] at hbegin
    exact .inr ⟨hok, by simp only [sqlite3BtreeBeginStmt, hcurr, hbegin]⟩
  · rw [if_neg hok] at hbegin
    refine .inl ⟨errmap h.env.outcome, fun h' ↦ hok ((errmap_eq_ok_iff _).mp h'), hok, ?_⟩
    simp [sqlite3BtreeBeginStmt, hcurr, hbegin]

/-- `sqlite3BtreeBeginStmt` keeps a writing handle in agreement with its environment. -/
theorem tracks_beginStmt (htracks : Tracks h.env h.bt) (hwrite : h.bt.inTrans = .write) :
    Tracks (sqlite3BtreeBeginStmt h stmt).2.env (sqlite3BtreeBeginStmt h stmt).2.bt := by
  obtain ⟨inner, last, hends, hmain⟩ := htracks.exists_bottom hwrite
  rcases beginStmt_cases h stmt htracks hwrite with ⟨rc, _, _, hresult⟩ | ⟨_, hresult⟩
  · rw [hresult]
    exact htracks.of_writer hwrite rfl
  · rw [hresult]
    refine .writing hwrite (by simp) ?_ (by simp)
    simp only [push_writer, hmain, hends, map_cons, map_append]
    exact (getLast?_concat (l := h.env.store.next :: inner.map Frame.id)).symm

theorem savepoint_idle {h : Handle} (hcurr : h.bt.currTxn = none) (op : SavepointOp)
    (index : ℤ) : sqlite3BtreeSavepoint h op index = (.ok, h) := by
  simp [sqlite3BtreeSavepoint, hcurr]

/-- On a reading handle `sqlite3BtreeSavepoint` ends the read transaction, whatever the operation
and the index. -/
theorem savepoint_reading {h : Handle} {reader : Frame Content}
    (hmem : reader ∈ h.env.store.readers) (hmain : h.bt.mainTxn = some reader.id)
    (hcurr : h.bt.currTxn = some reader.id) (op : SavepointOp) (index : ℤ) :
    sqlite3BtreeSavepoint h op index = (.ok, { h with
      env := { h.env with store := h.env.store.dropReader reader.id }
      bt := h.bt.ended }) := by
  have hparent : h.env.store.parent reader.id = none := parent_reader hmem
  have htxn : savepointTxn h.bt index = some reader.id := by
    unfold savepointTxn
    split_ifs
    · exact hmain
    · exact hcurr
  have hhandles : savepointHandles h.bt index none = h.bt.ended := by
    simp [savepointHandles]
  cases op with
  | rollback =>
    simp [sqlite3BtreeSavepoint, hcurr, htxn, hparent, hhandles, Env.mdbTxnAbort, abort_reader hmem]
  | release =>
    simp [sqlite3BtreeSavepoint, hcurr, htxn, hparent, hhandles, mdbTxnCommit_reader hmem, errmap]

/-- On a writing handle a rollback with an index other than `-1` aborts the innermost
transaction. -/
theorem savepoint_rollback_inner {h : Handle} (hwriter : h.env.store.writer = top :: rest)
    (hcurr : h.bt.currTxn = some top.id) (hindex : index ≠ -1) :
    sqlite3BtreeSavepoint h .rollback index = (.ok, { h with
      env := h.env.mdbTxnAbort top.id
      bt := savepointHandles h.bt index (rest.head?.map Frame.id) }) := by
  simp [sqlite3BtreeSavepoint, hcurr, savepointTxn, if_neg hindex, parent_top hwriter]

/-- On a writing handle a release with an index other than `-1` commits the innermost
transaction. -/
theorem savepoint_release_inner {h : Handle} (hwriter : h.env.store.writer = top :: rest)
    (hcurr : h.bt.currTxn = some top.id) (hindex : index ≠ -1) :
    sqlite3BtreeSavepoint h .release index = (errmap (h.env.mdbTxnCommit top.id).1, { h with
      env := (h.env.mdbTxnCommit top.id).2
      bt := savepointHandles h.bt index (rest.head?.map Frame.id) }) := by
  simp [sqlite3BtreeSavepoint, hcurr, savepointTxn, if_neg hindex, parent_top hwriter]

/-- Ending the innermost transaction, in whatever way, leaves the handles around it. -/
theorem tracks_savepointHandles {env env' : Env} (htracks : Tracks env p)
    (hwrite : p.inTrans = .write) (hwriter : env.store.writer = top :: rest)
    (hids : env'.store.writer.map Frame.id = rest.map Frame.id) (index : ℤ) :
    Tracks env' (savepointHandles p index (rest.head?.map Frame.id)) := by
  obtain ⟨inner, last, hends, hmain⟩ := htracks.exists_bottom hwrite
  unfold savepointHandles
  split_ifs with hindex hparent
  · exact Tracks.ended env' p
  · exact Tracks.ended env' p
  · have hrest : rest ≠ [] := by
      intro hnil
      exact hparent (by simp [hnil])
    have hopen : env'.store.writer ≠ [] := by
      intro hnil
      rw [hnil, map_nil] at hids
      exact hrest (map_eq_nil_iff.mp hids.symm)
    refine .writing hwrite hopen ?_ ?_
    · have hlast : (rest.map Frame.id).getLast? = (env.store.writer.map Frame.id).getLast? := by
        obtain ⟨next, rest', rfl⟩ := exists_cons_of_ne_nil hrest
        simp [hwriter]
      rw [hids, hlast, hends]
      simp [hmain]
    · rw [hids, head?_map]

/-- On a writing handle a call with an index other than `-1` takes the innermost transaction off the
write stack, whatever the operation and whatever LMDB reports. -/
theorem savepoint_pops {h : Handle} (hwriter : h.env.store.writer = top :: rest)
    (hcurr : h.bt.currTxn = some top.id) (op : SavepointOp) (hindex : index ≠ -1) :
    (sqlite3BtreeSavepoint h op index).2.env.store.writer.map Frame.id = rest.map Frame.id ∧
      (sqlite3BtreeSavepoint h op index).2.bt =
        savepointHandles h.bt index (rest.head?.map Frame.id) := by
  cases op with
  | rollback =>
    rw [savepoint_rollback_inner hwriter hcurr hindex]
    exact ⟨by rw [Env.mdbTxnAbort, (abort_top hwriter).1], rfl⟩
  | release =>
    rw [savepoint_release_inner hwriter hcurr hindex]
    refine ⟨?_, rfl⟩
    rw [mdbTxnCommit_writer (by simp [hwriter])]
    split_ifs
    · rw [(commit_top hwriter).1, map_id_setTop]
    · rw [(abort_top hwriter).1]

/-- `sqlite3BtreeSavepoint` keeps the handle in agreement with its environment, whatever LMDB
reports. -/
theorem tracks_savepoint (index : ℤ) (htracks : Tracks h.env h.bt) :
    Tracks (sqlite3BtreeSavepoint h op index).2.env (sqlite3BtreeSavepoint h op index).2.bt := by
  rcases htracks with ⟨hin, hmain, hcurr⟩ | ⟨hin, reader, hmem, hmain, hcurr⟩ |
    ⟨hin, hopen, hmain, hcurr⟩
  · rw [savepoint_idle hcurr]
    exact .idle hin hmain hcurr
  · rw [savepoint_reading hmem hmain hcurr]
    exact Tracks.ended _ _
  · have htracks : Tracks h.env h.bt := .writing hin hopen hmain hcurr
    obtain ⟨top, rest, hwriter, htop⟩ := htracks.exists_top hin
    by_cases hindex : index = -1
    · have hended : (sqlite3BtreeSavepoint h op index).2.bt = h.bt.ended := by
        unfold sqlite3BtreeSavepoint savepointHandles
        rw [htop]
        cases op <;> simp only [if_pos hindex] <;> split <;> rfl
      rw [hended]
      exact Tracks.ended _ _
    · obtain ⟨hids, hbt⟩ := savepoint_pops hwriter htop op hindex
      rw [hbt]
      exact tracks_savepointHandles htracks hin hwriter hids index

theorem savepointHandles_ids (p : Btree) (index : ℤ) (parent : Option ℕ) :
    (savepointHandles p index parent).pBt = p.pBt ∧
      (savepointHandles p index parent).id = p.id := by
  unfold savepointHandles Btree.ended
  split_ifs <;> simp

theorem savepoint_place (index : ℤ) : (sqlite3BtreeSavepoint h op index).2.bt.pBt = h.bt.pBt := by
  unfold sqlite3BtreeSavepoint
  split
  · rfl
  · rename_i curr _
    have hplace := (savepointHandles_ids h.bt index (h.env.store.parent curr)).1
    split
    · exact hplace
    · cases op <;> exact hplace

/-- `sqlite3BtreeCommitPhaseOne` leaves no transaction, whatever LMDB reports. -/
theorem commitPhaseOne_bt (htracks : Tracks h.env h.bt) :
    ∃ left, (sqlite3BtreeCommitPhaseOne h).2.bt = { h.bt.ended with pCursor := left } := by
  unfold sqlite3BtreeCommitPhaseOne
  split
  · rename_i hmain
    obtain ⟨left, hleft⟩ := closeCursors_bt h.bt.pCursor h
    have hin := htracks.mainTxn_eq_none_iff.mp hmain
    have hcurr := htracks.currTxn_eq_none_iff.mpr hin
    refine ⟨left, hleft.trans ?_⟩
    simp [Btree.ended, hin, hmain, hcurr]
  · exact closeCursors_bt _ _

/-- `sqlite3BtreeCommitPhaseOne` keeps the handle in agreement with its environment. -/
theorem tracks_commitPhaseOne (htracks : Tracks h.env h.bt) :
    Tracks (sqlite3BtreeCommitPhaseOne h).2.env (sqlite3BtreeCommitPhaseOne h).2.bt := by
  obtain ⟨left, hleft⟩ := commitPhaseOne_bt h htracks
  rw [hleft]
  exact (Tracks.ended _ h.bt).setCursors left

end LumoSQL
