import LumoSQL.Btree.Statement

/-!
# Cursors, and what becomes of them

`sqlite3BtreeCursor`, `sqlite3BtreeFirst` and `sqlite3BtreeNext`, and what the transaction calls do
to a cursor that a scan has open. `Keeps` says of a call that it keeps a property of every content
of its environment and a property of one cursor: `savepoint_keeps` needs nothing of the property of
the cursor, `commitPhaseOne_keeps` needs it of a zeroed cursor, for that is what phase one of a
commit leaves of every cursor of the handle. When a read transaction is given up for a write
transaction, every cursor is moved (`beginTrans_keeps`), and it is taken back to its row where
`mdb_cursor_get` takes `MDB_CURRENT` for an operation (`moveCursors_at`).
-/

namespace LumoSQL

open Foundation List Function

/-! ### The functions -/

/-- `sqlite3BtreeCursor` on the database `name`, which is what `BtreeTableHandle` opens. Without a
transaction it dereferences a null pointer. -/
def sqlite3BtreeCursor (h : Handle) (name : DbName) (pCur : ℕ) : Option (Rc × Handle) :=
  h.bt.currTxn.map fun txn ↦ if (h.visible.db name).isNone then (errmap .notFound, h)
    else (.ok, { h with
      bt := { h.bt with pCursor := pCur :: h.bt.pCursor }
      cursor := Function.update h.cursor pCur ⟨some h.bt.id, some (mdbCursorInit txn name)⟩ })

/-- `sqlite3BtreeFirst` with the value of `*pRes`; the code of `mdb_cursor_get` is not looked at. A
zeroed cursor is a null pointer. -/
def sqlite3BtreeFirst (env : Env) (pCur : BtCursor) : Option (Bool × BtCursor) :=
  pCur.mc.map fun mc ↦ if env.cursorEntries mc = [] then (true, pCur)
    else (false, { pCur with mc := some (env.mdbCursorFirst mc).2 })

/-- `sqlite3BtreeNext` with the value of `*pRes`: a zeroed cursor is at its end, and of the codes of
`mdb_cursor_get` only `MDB_NOTFOUND` is. -/
def sqlite3BtreeNext (env : Env) (pCur : BtCursor) : Bool × BtCursor :=
  match pCur.mc with
  | none => (true, pCur)
  | some mc =>
    if env.cursorEntries mc = [] then (true, pCur)
    else
      let moved := env.mdbCursorNext mc
      (moved.1 = .notFound, { pCur with mc := some moved.2 })

def BtCursor.row (env : Env) (pCur : BtCursor) : Option (Bytes × Bytes) :=
  pCur.mc.bind fun mc ↦ mc.pos.bind fun i ↦ (env.cursorEntries mc)[i]?

/-! ### Rows -/

/-- The table `name` exists and has these rows. -/
def HasRows (name : DbName) (rows : List (Bytes × Bytes)) (content : Content) : Prop :=
  (content.db name).map Db.entries = some rows

theorem HasRows.entries {name : DbName} {rows : List (Bytes × Bytes)} {content : Content}
    (hrows : HasRows name rows content) : content.entries name = rows := by
  rw [Content.entries, hrows]
  rfl

theorem HasRows.nodup {name : DbName} {rows : List (Bytes × Bytes)} {content : Content}
    (hrows : HasRows name rows content) : rows.Nodup :=
  hrows.entries ▸ content.entries_nodup name

section

variable {env : Env} {name : DbName} {rows : List (Bytes × Bytes)}

theorem seen_of_all {P : Content → Prop} (hall : env.store.All P) (t : ℕ) : P (env.seen t) := by
  unfold Env.seen
  cases hfound : env.store.frame? t with
  | none => exact hall.1
  | some frame => exact hall.frame hfound

/-- Whatever transaction it is in, a cursor moves over the rows that every content has. -/
theorem cursorEntries_of_all (hall : env.store.All (HasRows name rows)) {mc : MdbCursor}
    (hdbi : mc.dbi = name) : env.cursorEntries mc = rows := by
  rw [Env.cursorEntries, hdbi]
  exact (seen_of_all hall mc.txn).entries

/-- A cursor is at row `i` of the table, or has been zeroed after the last one. -/
def CursorAt (name : DbName) (rows : List (Bytes × Bytes)) (i : ℕ) (pCur : BtCursor) : Prop :=
  (∃ mc, pCur.mc = some mc ∧ mc.dbi = name ∧ mc.pos = some i) ∨
    (pCur.mc = none ∧ i + 1 = rows.length)

theorem CursorAt.zero {i : ℕ} (hlast : i + 1 = rows.length) :
    CursorAt name rows i sqlite3BtreeCursorZero := .inr ⟨rfl, hlast⟩

/-- Assumes: a cursor whose transaction has no open child. The first row is row 0, and an empty
table has none. -/
theorem first_of_rows (hall : env.store.All (HasRows name rows)) {pCur : BtCursor} {mc : MdbCursor}
    (hmc : pCur.mc = some mc) (hdbi : mc.dbi = name) (hfree : env.blocked mc.txn = false) :
    ∃ found, sqlite3BtreeFirst env pCur = some found ∧ (found.1 = true ↔ rows = []) ∧
      (rows ≠ [] → CursorAt name rows 0 found.2 ∧ found.2.row env = rows[0]?) := by
  have hentries := cursorEntries_of_all hall hdbi
  by_cases hempty : rows = []
  · refine ⟨(true, pCur), ?_, ⟨fun _ ↦ hempty, fun _ ↦ rfl⟩, fun h ↦ absurd hempty h⟩
    simp [sqlite3BtreeFirst, hmc, hentries, if_pos hempty]
  · have hmoved : env.mdbCursorFirst mc = (.success, { mc with pos := some 0 }) := by
      simp [Env.mdbCursorFirst, hfree, hentries, if_neg hempty]
    refine ⟨(false, { pCur with mc := some { mc with pos := some 0 } }), ?_,
      ⟨fun h ↦ Bool.noConfusion h, fun h ↦ absurd h hempty⟩, fun _ ↦ ⟨?_, ?_⟩⟩
    · simp [sqlite3BtreeFirst, hmc, hentries, if_neg hempty, hmoved]
    · exact .inl ⟨_, rfl, hdbi, rfl⟩
    · have hsame : env.cursorEntries { mc with pos := some 0 } = rows :=
        cursorEntries_of_all hall hdbi
      simp [BtCursor.row, hsame]

/-- Assumes: a cursor whose transaction has no open child. The next row is the one after it, and
after the last row there is none. -/
theorem next_of_at (hall : env.store.All (HasRows name rows)) {i : ℕ} {pCur : BtCursor}
    (hat : CursorAt name rows i pCur) (hrow : i < rows.length)
    (hfree : ∀ mc, pCur.mc = some mc → env.blocked mc.txn = false) :
    ((sqlite3BtreeNext env pCur).1 = true ↔ i + 1 = rows.length) ∧
      (i + 1 < rows.length → CursorAt name rows (i + 1) (sqlite3BtreeNext env pCur).2 ∧
        (sqlite3BtreeNext env pCur).2.row env = rows[i + 1]?) := by
  rcases hat with ⟨mc, hmc, hdbi, hpos⟩ | ⟨hmc, hlast⟩
  · have hentries := cursorEntries_of_all hall hdbi
    have hne : rows ≠ [] := ne_nil_of_length_pos (by omega)
    by_cases hnext : i + 1 < rows.length
    · have hmoved : env.mdbCursorNext mc = (.success, { mc with pos := some (i + 1) }) := by
        simp [Env.mdbCursorNext, hfree mc hmc, hpos, hentries, if_pos hnext]
      have hresult : sqlite3BtreeNext env pCur =
          (false, { pCur with mc := some { mc with pos := some (i + 1) } }) := by
        simp only [sqlite3BtreeNext, hmc, hentries, if_neg hne, hmoved]
        rfl
      rw [hresult]
      refine ⟨⟨fun h ↦ absurd h Bool.noConfusion, fun h ↦ by omega⟩, fun _ ↦ ⟨?_, ?_⟩⟩
      · exact .inl ⟨_, rfl, hdbi, rfl⟩
      · have hsame : env.cursorEntries { mc with pos := some (i + 1) } = rows :=
          cursorEntries_of_all hall hdbi
        simp [BtCursor.row, hsame]
    · have hmoved : env.mdbCursorNext mc = (.notFound, mc) := by
        simp [Env.mdbCursorNext, hfree mc hmc, hpos, hentries, if_neg hnext]
      have hresult : (sqlite3BtreeNext env pCur).1 = true := by
        simp only [sqlite3BtreeNext, hmc, hentries, if_neg hne, hmoved]
        rfl
      exact ⟨⟨fun _ ↦ by omega, fun _ ↦ hresult⟩, fun h ↦ absurd h hnext⟩
  · have hresult : (sqlite3BtreeNext env pCur).1 = true := by
      simp [sqlite3BtreeNext, hmc]
    exact ⟨⟨fun _ ↦ hlast, fun _ ↦ hresult⟩, fun h ↦ absurd h (by omega)⟩

end

/-! ### What the transaction calls keep -/

/-- A call keeps a property of every content of its environment and a property of one cursor, and
the Btree stays on its environment. -/
structure Keeps (P : Content → Prop) (pCur : ℕ) (J : BtCursor → Prop) (h h' : Handle) : Prop where
  contents : h.env.store.All P → h'.env.store.All P
  cursor : J (h.cursor pCur) → J (h'.cursor pCur)
  place : h'.bt.pBt = h.bt.pBt

section

variable {P : Content → Prop} {pCur : ℕ} {J : BtCursor → Prop}

variable {env : Env} {other : ℕ} (h : Handle)

theorem Keeps.refl : Keeps P pCur J h h := ⟨id, id, rfl⟩

theorem Keeps.trans {h h' h'' : Handle} (hfirst : Keeps P pCur J h h')
    (hsecond : Keeps P pCur J h' h'') : Keeps P pCur J h h'' where
  contents := hsecond.contents ∘ hfirst.contents
  cursor := hsecond.cursor ∘ hfirst.cursor
  place := hsecond.place.trans hfirst.place

theorem mdbTxnCommit_all (hall : env.store.All P) (t : ℕ) : (env.mdbTxnCommit t).2.store.All P := by
  unfold Env.mdbTxnCommit
  split_ifs
  · exact hall.commit t
  · exact hall.abort t
  · exact hall.dropReader t

theorem mdbTxnBegin_all (hall : env.store.All P) (parent : Option ℕ) (rdonly : Bool) :
    (env.mdbTxnBegin parent rdonly).2.store.All P := by
  unfold Env.mdbTxnBegin
  split
  · exact hall
  · split
    · exact hall.beginRead
    · split_ifs
      · exact hall.push
      · exact hall
    · split_ifs
      · exact hall.push
      · exact hall
    · exact hall

theorem mdbTxnBegin_currentIsOp (env : Env) (parent : Option ℕ) (rdonly : Bool) :
    (env.mdbTxnBegin parent rdonly).2.currentIsOp = env.currentIsOp := by
  unfold Env.mdbTxnBegin
  split
  · rfl
  · split
    · rfl
    · split_ifs <;> rfl
    · split_ifs <;> rfl
    · rfl

theorem savepoint_keeps (op : SavepointOp) (index : ℤ) :
    Keeps P pCur J h (sqlite3BtreeSavepoint h op index).2 := by
  refine ⟨fun hall ↦ ?_, fun hcursor ↦ ?_, savepoint_place h op index⟩
  · unfold sqlite3BtreeSavepoint
    split
    · exact hall
    · split
      · exact hall
      · cases op with
        | rollback => exact hall.abort _
        | release => exact mdbTxnCommit_all hall _
  · unfold sqlite3BtreeSavepoint
    split
    · exact hcursor
    · split
      · exact hcursor
      · cases op <;> exact hcursor

theorem closeStatementBtree_keeps (eOp : SavepointOp) (index : ℤ) :
    Keeps P pCur J h (closeStatementBtree h eOp index).2 := by
  unfold closeStatementBtree
  cases eOp with
  | release => exact savepoint_keeps h .release index
  | rollback =>
    simp only [if_true]
    split_ifs
    · exact (savepoint_keeps h .rollback index).trans (savepoint_keeps _ .release index)
    · exact savepoint_keeps h .rollback index

theorem closeCursor_place (other : ℕ) : (sqlite3BtreeCloseCursor h other).bt.pBt = h.bt.pBt := by
  unfold sqlite3BtreeCloseCursor
  split_ifs <;> rfl

theorem cursor_keeps {h h' : Handle} {name : DbName} {rc : Rc} (hne : pCur ≠ other)
    (hopened : sqlite3BtreeCursor h name other = some (rc, h')) : Keeps P pCur J h h' := by
  obtain ⟨txn, _, hresult⟩ := Option.map_eq_some_iff.mp hopened
  split_ifs at hresult
  · cases hresult
    exact Keeps.refl h
  · cases hresult
    refine ⟨id, fun hcursor ↦ ?_, rfl⟩
    show J (Function.update h.cursor other _ pCur)
    rwa [update_of_ne hne]

theorem closeCursor_keeps (hne : pCur ≠ other) :
    Keeps P pCur J h (sqlite3BtreeCloseCursor h other) := by
  refine ⟨id, fun hcursor ↦ ?_, closeCursor_place h other⟩
  show J (Function.update h.cursor other _ pCur)
  rwa [update_of_ne hne]

/-- Assumes: the property of the cursor holds of a zeroed one. -/
theorem closeCursors_keeps (hzero : J sqlite3BtreeCursorZero) (cursors : List ℕ) (h : Handle) :
    Keeps P pCur J h (closeCursors cursors h) := by
  induction cursors generalizing h with
  | nil => exact Keeps.refl h
  | cons other rest ih =>
    have hone : Keeps P pCur J h { sqlite3BtreeCloseCursor h other with
        cursor := Function.update (sqlite3BtreeCloseCursor h other).cursor other
          sqlite3BtreeCursorZero } := by
      refine ⟨id, fun hcursor ↦ ?_, (closeCursor_place h other)⟩
      show J (Function.update (Function.update h.cursor other _) other sqlite3BtreeCursorZero pCur)
      by_cases hown : pCur = other
      · rwa [hown, update_self]
      · rwa [update_of_ne hown, update_of_ne hown]
    exact hone.trans (ih _)

/-- Assumes: the property of the cursor holds of a zeroed one. -/
theorem commitPhaseOne_keeps (hzero : J sqlite3BtreeCursorZero) (h : Handle) :
    Keeps P pCur J h (sqlite3BtreeCommitPhaseOne h).2 := by
  unfold sqlite3BtreeCommitPhaseOne
  split
  · exact closeCursors_keeps hzero _ h
  · rename_i t _
    have hcommit : Keeps P pCur J h { h with env := (h.env.mdbTxnCommit t).2, bt := h.bt.ended } :=
      ⟨fun hall ↦ mdbTxnCommit_all hall t, id, rfl⟩
    exact hcommit.trans (closeCursors_keeps hzero _ _)

theorem beginStmt_keeps (stmt : ℤ) : Keeps P pCur J h (sqlite3BtreeBeginStmt h stmt).2 := by
  unfold sqlite3BtreeBeginStmt
  split
  · rename_i rc env hbegin
    refine ⟨fun hall ↦ ?_, id, rfl⟩
    have hafter := mdbTxnBegin_all hall h.bt.currTxn false
    rwa [hbegin] at hafter
  · rename_i txn env hbegin
    refine ⟨fun hall ↦ ?_, id, rfl⟩
    have hafter := mdbTxnBegin_all hall h.bt.currTxn false
    rwa [hbegin] at hafter

/-- Assumes: writes that keep the property. -/
theorem writes_keeps {ws : List Write} (hkeep : ∀ w ∈ ws, ∀ content, P content → P (w content)) :
    Keeps P pCur J h (h.writes ws) := by
  refine ⟨fun hall ↦ ?_, id, rfl⟩
  show (ws.foldl (fun store w ↦ store.modifyTop w) h.env.store).All P
  generalize h.env.store = store at hall
  induction ws generalizing store with
  | nil => exact hall
  | cons w rest ih =>
    exact ih (fun w' hw' ↦ hkeep w' (mem_cons_of_mem _ hw')) _ (hall.modifyTop (hkeep w (.head _)))

end

/-! ### A cursor at a row and the upgrade to a write transaction -/

section

variable {name : DbName} {rows : List (Bytes × Bytes)} {pCur i : ℕ}

/-- Where `MDB_CURRENT` is an operation, a cursor that is moved to the new transaction keeps its
row. -/
theorem moveCursors_at {env : Env} (hall : env.store.All (HasRows name rows))
    (hcurrent : env.currentIsOp = true) (hrow : i < rows.length) (txn : ℕ) (cursors : List ℕ)
    {cursor : ℕ → BtCursor} (hat : CursorAt name rows i (cursor pCur)) :
    CursorAt name rows i (moveCursors env txn cursors cursor pCur) := by
  induction cursors generalizing cursor with
  | nil => exact hat
  | cons other rest ih =>
    refine ih ?_
    by_cases hown : pCur = other
    · rw [hown, update_self]
      rcases hat with ⟨mc, hmc, hdbi, hpos⟩ | ⟨hmc, hlast⟩
      · have hentry : env.mdbCursorCurrent mc = .ok rows[i] := by
          simp [Env.mdbCursorCurrent, hcurrent, hpos, cursorEntries_of_all hall hdbi,
            getElem?_eq_getElem hrow]
        have hentries : env.cursorEntries (mdbCursorInit txn mc.dbi) = rows :=
          cursorEntries_of_all hall hdbi
        have hset : env.mdbCursorSetBoth (mdbCursorInit txn mc.dbi) rows[i] =
            ⟨txn, mc.dbi, some i⟩ := by
          rw [Env.mdbCursorSetBoth, hentries, if_pos (getElem_mem hrow),
            hall.1.nodup.idxOf_getElem i hrow]
          rfl
        refine .inl ⟨⟨txn, mc.dbi, some i⟩, ?_, hdbi, rfl⟩
        rw [← hown]
        simp [hmc, hentry, hset]
      · refine .inr ⟨?_, hlast⟩
        rw [← hown]
        simp [hmc]
    · rwa [update_of_ne hown]

/-- Assumes: where the Btree gives up a read transaction, moving the cursor keeps its property. -/
theorem beginTrans_keeps {P : Content → Prop} {J : BtCursor → Prop} (h : Handle) (wrflag : ℕ)
    (hall : h.env.store.All P)
    (hmove : wrflag ≠ 0 → h.bt.inTrans = .read → ∀ env txn, env.store.All P →
      env.currentIsOp = h.env.currentIsOp → J (h.cursor pCur) →
        J (moveCursors env txn h.bt.pCursor h.cursor pCur)) :
    Keeps P pCur J h (sqlite3BtreeBeginTrans h wrflag).2 := by
  by_cases hstay : h.bt.inTrans = .write ∨ (h.bt.inTrans = .read ∧ wrflag = 0)
  · rw [sqlite3BtreeBeginTrans, if_pos hstay]
    exact Keeps.refl h
  · have hafter := mdbTxnBegin_all hall none (wrflag = 0)
    have hcurrent := mdbTxnBegin_currentIsOp h.env none (wrflag = 0)
    rw [sqlite3BtreeBeginTrans, if_neg hstay]
    rcases hbegin : h.env.mdbTxnBegin none (decide (wrflag = 0)) with ⟨rc | txn, env⟩
    · rw [hbegin] at hafter
      exact ⟨fun _ ↦ hafter, id, rfl⟩
    · rw [hbegin] at hafter hcurrent
      by_cases hread : wrflag = 0
      · simp only [if_pos hread]
        exact ⟨fun _ ↦ hafter, id, rfl⟩
      · simp only [if_neg hread]
        unfold beganWrite
        split
        · rename_i rtxn hin hmain
          exact ⟨fun _ ↦ hafter.abort rtxn, hmove hread hin env txn hafter hcurrent, rfl⟩
        · exact ⟨fun _ ↦ hafter, id, rfl⟩

end

end LumoSQL
