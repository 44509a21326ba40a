import LumoSQL.Btree.Cursor

/-!
# What a rollback does to the cursors

`sqlite3BtreeRollback` is documented to invalidate every cursor, so that using one is an error. It
aborts the main transaction of the handle and forgets both transactions; no cursor is looked at, and
`sqlite3BtreeTripAllCursors` is empty. A cursor keeps its position, which is all that
`sqlite3BtreeCursorHasMoved` looks at, and the transaction LMDB has freed, which is what its next
operation goes through.

`CursorOp` are the operations on a cursor, with what each of them reads through the transaction of
the cursor and the code it returns. A rollback invalidates the cursors exactly when none of them has
a position and none was opened in a transaction that the rollback ends (`rollback_invalidates_iff`),
and it ends every transaction that is nested in the main one (`rollback_ended_iff`).
-/

namespace LumoSQL

open Foundation Option

/-! ### The operations on a cursor -/

/-- `sqlite3BtreeCursorHasMoved`: the value of `*pHasMoved`. A zeroed cursor has no flags. -/
def sqlite3BtreeCursorHasMoved (pCur : BtCursor) : Bool :=
  (pCur.mc.bind MdbCursor.pos).isNone

/-- The functions that take a cursor, other than `sqlite3BtreeCloseCursor`. Of the range that
`sqlite3BtreeKey` and `sqlite3BtreeData` are asked for it matters whether it lies in the payload. -/
inductive CursorOp
  | first
  | last
  | next
  | previous
  | movetoUnpacked
  | insert
  | delete
  | key (inside : Bool)
  | keySize
  | keyFetch
  | data (inside : Bool)
  | dataSize
  | dataFetch
  | eof
  | hasMoved
  | clearCursor
  | getCachedRowid
  | setCachedRowid

/-- The function reads or writes through the transaction of the cursor: it calls LMDB, or it reads
the description of the database or a page of it, which are in the transaction. Some look at the flag
`C_INITIALIZED` first. -/
def CursorOp.usesTxn (positioned : Bool) : CursorOp → Bool
  | .first | .last | .next | .previous | .movetoUnpacked | .insert | .delete => true
  | .data _ | .dataFetch => true
  | .key _ | .keySize | .keyFetch | .dataSize => positioned
  | .eof | .hasMoved | .clearCursor | .getCachedRowid | .setCachedRowid => false

/-- The code the function returns when LMDB reports `code`, for those that return one. -/
def CursorOp.returns (positioned : Bool) (code : MdbRc) : CursorOp → Option Rc
  | .first | .last | .next | .previous | .keySize | .dataSize | .hasMoved => some .ok
  | .movetoUnpacked => some (if code = .notFound then .ok else errmap code)
  | .insert | .delete => some (errmap code)
  | .key inside => some (if positioned then (if inside then .ok else .corrupt) else .error)
  | .data inside => some (if inside then .ok else .corrupt)
  | .keyFetch | .dataFetch | .eof | .clearCursor | .getCachedRowid | .setCachedRowid => none

/-! ### What a rollback should do and what it does -/

def Ended (h after : Handle) (t : ℕ) : Prop := h.env.store.Live t ∧ ¬ after.env.store.Live t

/-- What is documented of a cursor after a rollback. Operations on a cursor change its position and
leave its transaction, so that a later operation finds it at any position: it does not go through a
transaction that the rollback has ended, and where the cursor is on such a transaction it returns an
error. -/
structure Invalidated (h after : Handle) (pCur : BtCursor) : Prop where
  moved : sqlite3BtreeCursorHasMoved pCur = true
  unused : ∀ mc, pCur.mc = some mc → ∀ (op : CursorOp) (positioned : Bool),
    op.usesTxn positioned = true → ¬ Ended h after mc.txn
  refused : ∀ mc, pCur.mc = some mc → Ended h after mc.txn →
    ∀ (op : CursorOp) (positioned : Bool) (code : MdbRc) (rc : Rc),
      op.usesTxn positioned = true → op.returns positioned code = some rc → rc ≠ .ok

/-- The transaction is open, and it is the main transaction of the handle or nested in it. -/
def Handle.RollsBack (h : Handle) (t : ℕ) : Prop :=
  h.bt.currTxn ≠ none ∧ h.env.store.Live t ∧
    ∃ main, h.bt.mainTxn = some main ∧ h.env.store.Reaches t main

theorem rollback_cursor (h : Handle) : (sqlite3BtreeRollback h).2.cursor = h.cursor := by
  unfold sqlite3BtreeRollback sqlite3BtreeSavepoint
  cases h.bt.currTxn with
  | none => rfl
  | some curr =>
    cases savepointTxn h.bt (-1) with
    | none | some t => rfl

/-- A rollback ends the main transaction and everything nested in it. -/
theorem rollback_ended_iff (h : Handle) (t : ℕ) :
    Ended h (sqlite3BtreeRollback h).2 t ↔ h.RollsBack t := by
  have hsame : ∀ after : Handle, after.env = h.env → ¬ Ended h after t := by
    intro after henv hended
    refine hended.2 ?_
    rw [henv]
    exact hended.1
  unfold sqlite3BtreeRollback sqlite3BtreeSavepoint
  cases hcurr : h.bt.currTxn with
  | none => exact iff_of_false (hsame _ rfl) fun hrolls ↦ hrolls.1 hcurr
  | some curr =>
    have htxn : savepointTxn h.bt (-1) = h.bt.mainTxn := if_pos rfl
    simp only [htxn]
    cases hmain : h.bt.mainTxn with
    | none =>
      refine iff_of_false (hsame _ rfl) ?_
      rintro ⟨-, -, main, heq, -⟩
      rw [hmain] at heq
      cases heq
    | some main =>
      have habort := h.env.store.live_abort_iff main t
      constructor
      · rintro ⟨hlive, hdead⟩
        refine ⟨by simp [hcurr], hlive, main, hmain, ?_⟩
        by_contra hnot
        exact hdead (habort.mpr ⟨hlive, hnot⟩)
      · rintro ⟨-, hlive, main', heq, hreaches⟩
        rw [hmain] at heq
        cases heq
        exact ⟨hlive, fun hstill ↦ (habort.mp hstill).2 hreaches⟩

/-- In every state a rollback invalidates the cursors of the handle exactly when none of them has a
position and none is on a transaction that the rollback ends. -/
theorem rollback_invalidates_iff (h : Handle) : (∀ pCur ∈ h.bt.pCursor,
      Invalidated h (sqlite3BtreeRollback h).2 ((sqlite3BtreeRollback h).2.cursor pCur)) ↔
    ∀ pCur ∈ h.bt.pCursor, ∀ mc, (h.cursor pCur).mc = some mc →
      mc.pos = none ∧ ¬ h.RollsBack mc.txn := by
  rw [rollback_cursor]
  refine forall₂_congr fun pCur _ ↦ ?_
  constructor
  · intro hinvalid mc hmc
    constructor
    · have hmoved := hinvalid.moved
      rwa [sqlite3BtreeCursorHasMoved, hmc, bind_some, isNone_iff_eq_none] at hmoved
    · rw [← rollback_ended_iff]
      exact hinvalid.unused mc hmc .first false rfl
  · intro hclear
    have hunused : ∀ mc, (h.cursor pCur).mc = some mc →
        ¬ Ended h (sqlite3BtreeRollback h).2 mc.txn := by
      intro mc hmc
      rw [rollback_ended_iff]
      exact (hclear mc hmc).2
    constructor
    · rw [sqlite3BtreeCursorHasMoved]
      cases hmc : (h.cursor pCur).mc with
      | none => rfl
      | some mc => exact isNone_iff_eq_none.mpr (hclear mc hmc).1
    · exact fun mc hmc _ _ _ ↦ hunused mc hmc
    · exact fun mc hmc hended _ _ _ _ _ _ ↦ absurd hended (hunused mc hmc)

def oneRowContent : Content :=
  let row : Bytes × Bytes := ([1, 0, 0, 0, 0, 0, 0, 0], [7])
  ⟨fun name ↦ if name = .tab 2 then some ⟨true, false, [row], List.nodup_singleton row⟩ else none⟩

def readingHandle : Handle :=
  (sqlite3BtreeBeginTrans (Handle.opened (Env.created oneRowContent [] true) 1 1) 0).2

/-- The handle with a cursor on the table, which `sqlite3BtreeFirst` has taken to the row. -/
def scanningHandle : Option Handle :=
  (sqlite3BtreeCursor readingHandle (.tab 2) 5).bind fun opened ↦
    (sqlite3BtreeFirst opened.2.env (opened.2.cursor 5)).map fun found ↦
      { opened.2 with cursor := Function.update opened.2.cursor 5 found.2 }

/-- After a rollback the cursor has not moved, and `sqlite3BtreeFirst` on it goes through the
transaction that has been aborted and returns `SQLITE_OK`. -/
theorem rollback_keeps_cursor : ∃ h, scanningHandle = some h ∧ 5 ∈ h.bt.pCursor ∧
    sqlite3BtreeCursorHasMoved ((sqlite3BtreeRollback h).2.cursor 5) = false ∧
    ((sqlite3BtreeRollback h).2.cursor 5).mc.map MdbCursor.txn = some 0 ∧
    Ended h (sqlite3BtreeRollback h).2 0 ∧ CursorOp.first.usesTxn true = true ∧
    ∀ code, CursorOp.first.returns true code = some .ok := by
  refine ⟨_, rfl, .head _, rfl, rfl, ⟨⟨_, .head _, rfl⟩, ?_⟩, rfl, fun _ ↦ rfl⟩
  rintro ⟨frame, hframe, -⟩
  cases hframe

end LumoSQL
