import LumoSQL.Btree.Invalidation
import LumoSQL.Btree.NotForking
import LumoSQL.Foundation.Walk

/-!
# Cursor positions in the upgrade to a write transaction

`sqlite3BtreeBeginTrans` moves every cursor of a reading handle to the new write transaction. A
cursor should stay on its entry when the entry is in the snapshot of the write transaction, and be
reported as moved otherwise (`PositionKept`).

Both versions of `btree.c` read the entry with `mdb_cursor_get` and `MDB_CURRENT`, which is
documented as a flag of `mdb_cursor_put`; where LMDB does not take it for an operation every
position is lost. Where it does, the first version looks for the key and the data item and the
positions are right. The not-forking version looks for the key alone, so that a cursor on a later
duplicate goes to the first one (`upgrade_duplicate`), and leaves `mc_init` as it is, so that a
cursor on a table that has lost its entry is not reported as moved. `upgrade_keeps_iff` says of both
versions when the positions are kept.
-/

namespace LumoSQL

open Foundation List Option SnapshotStore

/-- What is expected of a cursor in the upgrade: on an entry that the snapshot of the write
transaction has it designates that entry, and otherwise it is reported as moved. -/
structure PositionKept (before after : Env) (snapshot : Content) (old new : Option MdbCursor)
    (hasMoved : Bool) : Prop where
  kept : ∀ mc entry, old = some mc → before.rowAt mc = some entry →
    entry ∈ snapshot.entries mc.dbi →
    ∃ mc', new = some mc' ∧ mc'.dbi = mc.dbi ∧ after.store.Live mc'.txn ∧
      after.rowAt mc' = some entry
  lost : (∀ mc entry, old = some mc → before.rowAt mc = some entry →
    entry ∉ snapshot.entries mc.dbi) → hasMoved = true

/-! ### The environments of the upgrade -/

section

variable {env : Env}

def Env.readable (env : Env) (mc : MdbCursor) : Option (Bytes × Bytes) :=
  if env.currentIsOp then env.rowAt mc else none

theorem readable_eq_some {mc : MdbCursor} {entry : Bytes × Bytes}
    (hread : env.readable mc = some entry) :
    env.currentIsOp = true ∧ env.rowAt mc = some entry := by
  by_cases hop : env.currentIsOp = true
  · rw [Env.readable, if_pos hop] at hread
    exact ⟨hop, hread⟩
  · rw [Env.readable, if_neg hop] at hread
    cases hread

theorem mdbCursorCurrent_ok_iff (mc : MdbCursor) (entry : Bytes × Bytes) :
    env.mdbCursorCurrent mc = .ok entry ↔ env.readable mc = some entry := by
  unfold Env.mdbCursorCurrent Env.readable Env.rowAt
  by_cases hcurrent : env.currentIsOp = true
  · rw [if_pos hcurrent, if_pos hcurrent]
    cases mc.pos.bind fun i ↦ (env.cursorEntries mc)[i]? with
    | none | some found => simp
  · rw [if_neg hcurrent, if_neg hcurrent]
    simp

def Env.pushed (env : Env) : Env := { env.spend with store := env.store.push }

def Env.upgraded (env : Env) (reader : ℕ) : Env :=
  { env.spend with store := env.store.push.dropReader reader }

/-- Assumes: no write transaction. Beginning one changes nothing of what the others see, and it sees
the durable content. -/
theorem seen_pushed (hidle : env.store.writer = []) (t : ℕ) : env.pushed.seen t = env.seen t := by
  have htip : env.store.tip = env.store.durable := by
    rw [SnapshotStore.tip, hidle]
  unfold Env.seen SnapshotStore.frame?
  simp only [Env.pushed, push_writer, push_readers,
    push_durable, hidle, cons_append, nil_append, find?_cons]
  by_cases ht : env.store.next = t
  · subst ht
    have hnone : env.store.readers.find? (fun frame ↦ frame.id = env.store.next) = none := by
      rw [find?_eq_none]
      intro frame hframe heq
      exact env.store.next_not_mem (mem_map.mpr
        ⟨frame, mem_append_right _ hframe, by simpa using heq⟩)
    simp [hnone, htip]
  · simp [ht]

theorem rowAt_pushed (hidle : env.store.writer = []) (mc : MdbCursor) :
    env.pushed.rowAt mc = env.rowAt mc := by
  unfold Env.rowAt Env.cursorEntries
  rw [seen_pushed hidle]

/-- The write transaction sees the durable content, also when the read transaction is given up. -/
theorem seen_next (hidle : env.store.writer = []) (reader : ℕ) :
    env.pushed.seen env.store.next = env.store.durable ∧
      (env.upgraded reader).seen env.store.next = env.store.durable := by
  have htip : env.store.tip = env.store.durable := by
    rw [SnapshotStore.tip, hidle]
  unfold Env.seen SnapshotStore.frame?
  simp [Env.pushed, Env.upgraded, htip]

theorem live_upgraded (env : Env) (reader : ℕ) : (env.upgraded reader).store.Live env.store.next :=
  ⟨⟨env.store.next, env.store.tip⟩, mem_append_left _ (.head _), rfl⟩

theorem cursorEntries_next (hidle : env.store.writer = []) (reader : ℕ) (dbi : DbName)
    (pos : Option ℕ) :
    env.pushed.cursorEntries ⟨env.store.next, dbi, pos⟩ = env.store.durable.entries dbi ∧
      (env.upgraded reader).cursorEntries ⟨env.store.next, dbi, pos⟩ =
        env.store.durable.entries dbi := by
  obtain ⟨hpushed, hupgraded⟩ := seen_next hidle reader
  unfold Env.cursorEntries
  rw [hpushed, hupgraded]
  exact ⟨rfl, rfl⟩

end

/-! ### Moving a cursor -/

/-- A cursor on the new transaction, at the place that the search for the entry of the old one
gives. -/
def movedTo (place : List (Bytes × Bytes) → Bytes × Bytes → Option ℕ) (env : Env) (txn : ℕ)
    (mc : MdbCursor) : MdbCursor :=
  ⟨txn, mc.dbi, (env.readable mc).bind (place (env.cursorEntries ⟨txn, mc.dbi, none⟩))⟩

def placeBoth (entries : List (Bytes × Bytes)) (entry : Bytes × Bytes) : Option ℕ :=
  if entry ∈ entries then some (entries.idxOf entry) else none

def placeKey (entries : List (Bytes × Bytes)) (entry : Bytes × Bytes) : Option ℕ :=
  entries.findIdx? fun other ↦ other.1 = entry.1

variable {entries : List (Bytes × Bytes)} {entry : Bytes × Bytes} {i : ℕ}
  {place : List (Bytes × Bytes) → Bytes × Bytes → Option ℕ}

theorem placeBoth_eq_some (hplace : placeBoth entries entry = some i) :
    entries[i]? = some entry := by
  unfold placeBoth at hplace
  by_cases hmem : entry ∈ entries
  · rw [if_pos hmem] at hplace
    rw [← some.inj hplace]
    exact getElem?_idxOf hmem
  · rw [if_neg hmem] at hplace
    cases hplace

theorem placeKey_eq_some (hplace : placeKey entries entry = some i) :
    ∃ found, entries[i]? = some found ∧ found.1 = entry.1 ∧
      entries.find? (fun other ↦ other.1 = entry.1) = some found := by
  obtain ⟨hi, hfound, hbefore⟩ := findIdx?_eq_some_iff_getElem.mp hplace
  refine ⟨entries[i], getElem?_eq_getElem hi, by simpa using hfound, ?_⟩
  rw [find?_eq_some_iff_getElem]
  exact ⟨hfound, i, hi, rfl, fun j hj ↦ by simpa using hbefore j hj⟩

/-- Assumes: a place at which the search finds an entry that it would be found for. Moving a cursor
once more does nothing. -/
theorem movedTo_idem (hplace : ∀ entries entry i, place entries entry = some i →
      ∃ found, entries[i]? = some found ∧ place entries found = some i) (env : Env) (txn : ℕ)
    (mc : MdbCursor) :
    movedTo place env txn (movedTo place env txn mc) = movedTo place env txn mc := by
  unfold movedTo
  congr 1
  cases hpos : (env.readable mc).bind (place (env.cursorEntries ⟨txn, mc.dbi, none⟩)) with
  | none =>
    have hread : env.readable ⟨txn, mc.dbi, none⟩ = none := by
      unfold Env.readable Env.rowAt
      simp
    rw [hread]
    rfl
  | some i =>
    obtain ⟨entry, hentry, hi⟩ := bind_eq_some_iff.mp hpos
    obtain ⟨found, hfound, hagain⟩ := hplace _ _ _ hi
    have hread : env.readable ⟨txn, mc.dbi, some i⟩ = some found := by
      rwa [Env.readable, if_pos (readable_eq_some hentry).1]
    rwa [hread]

/-- What the loops do with the LMDB cursor of each cursor. -/
theorem match_current_eq {env : Env} {txn : ℕ} {mc : MdbCursor} {search : Bytes × Bytes → MdbCursor}
    (hsearch : ∀ entry, search entry =
      ⟨txn, mc.dbi, place (env.cursorEntries ⟨txn, mc.dbi, none⟩) entry⟩) :
    (match env.mdbCursorCurrent mc with
      | .ok entry => search entry
      | .error _ => mdbCursorInit txn mc.dbi) = movedTo place env txn mc := by
  cases hcurrent : env.mdbCursorCurrent mc with
  | ok entry =>
    rw [movedTo, (mdbCursorCurrent_ok_iff mc entry).mp hcurrent]
    exact hsearch entry
  | error rc =>
    have hread : env.readable mc = none := by
      cases hread : env.readable mc with
      | none => rfl
      | some entry =>
        rw [(mdbCursorCurrent_ok_iff mc entry).mpr hread] at hcurrent
        cases hcurrent
    rw [movedTo, hread]
    rfl

section

variable {env : Env} {place : List (Bytes × Bytes) → Bytes × Bytes → Option ℕ}

/-- Assumes: no write transaction. The place of a moved cursor is looked for in the durable content,
for the entry that was read before. -/
theorem movedTo_pushed (hidle : env.store.writer = []) (mc : MdbCursor) :
    movedTo place env.pushed env.store.next mc = ⟨env.store.next, mc.dbi,
      (env.readable mc).bind (place (env.store.durable.entries mc.dbi))⟩ := by
  have hread : env.pushed.readable mc = env.readable mc := by
    unfold Env.readable
    rw [rowAt_pushed hidle]
    rfl
  rw [movedTo, hread, (cursorEntries_next hidle 0 mc.dbi none).1]

theorem rowAt_upgraded (hidle : env.store.writer = []) (reader : ℕ) (dbi : DbName)
    (pos : Option ℕ) : (env.upgraded reader).rowAt ⟨env.store.next, dbi, pos⟩ =
      pos.bind fun i ↦ (env.store.durable.entries dbi)[i]? := by
  unfold Env.rowAt
  rw [(cursorEntries_next hidle reader dbi pos).2]

end

/-! ### The first version -/

/-- What the loop of `sqlite3BtreeBeginTrans` does with one cursor. -/
def moveCursor (env : Env) (txn : ℕ) (pCur : BtCursor) : BtCursor :=
  { pCur with mc := pCur.mc.map (movedTo placeBoth env txn) }

theorem moveCursors_eq_foldl (env : Env) (txn : ℕ) (cursors : List ℕ) (cursor : ℕ → BtCursor) :
    moveCursors env txn cursors cursor = cursors.foldl (fun cursor pCur ↦
      Function.update cursor pCur (moveCursor env txn (cursor pCur))) cursor := by
  induction cursors generalizing cursor with
  | nil => rfl
  | cons pCur rest ih =>
    have hone : (cursor pCur).mc.map (fun mc ↦ match env.mdbCursorCurrent mc with
        | .ok entry => env.mdbCursorSetBoth (mdbCursorInit txn mc.dbi) entry
        | .error _ => mdbCursorInit txn mc.dbi) =
        (cursor pCur).mc.map (movedTo placeBoth env txn) := by
      congr 1
      funext mc
      refine match_current_eq fun entry ↦ ?_
      unfold Env.mdbCursorSetBoth mdbCursorInit placeBoth
      split_ifs <;> rfl
    show moveCursors env txn rest (Function.update cursor pCur { cursor pCur with
      mc := (cursor pCur).mc.map fun mc ↦ match env.mdbCursorCurrent mc with
        | .ok entry => env.mdbCursorSetBoth (mdbCursorInit txn mc.dbi) entry
        | .error _ => mdbCursorInit txn mc.dbi }) = _
    rw [hone]
    exact ih _

theorem moveCursors_apply (env : Env) (txn : ℕ) (cursors : List ℕ) (cursor : ℕ → BtCursor)
    {pCur : ℕ} (hmem : pCur ∈ cursors) :
    moveCursors env txn cursors cursor pCur = moveCursor env txn (cursor pCur) := by
  have hidem : ∀ pCur, moveCursor env txn (moveCursor env txn pCur) = moveCursor env txn pCur := by
    intro pCur
    unfold moveCursor
    cases hmc : pCur.mc with
    | none => rfl
    | some mc =>
      have hplace : ∀ entries entry i, placeBoth entries entry = some i →
          ∃ found, entries[i]? = some found ∧ placeBoth entries found = some i :=
        fun entries entry i hi ↦ ⟨entry, placeBoth_eq_some hi, hi⟩
      simp [movedTo_idem hplace]
  rw [moveCursors_eq_foldl, foldl_update_idem hidem, if_pos hmem]

/-- Assumes: a handle that agrees with its environment and has a read transaction, and a write
transaction that begins. No write transaction was open, and the cursors are moved to the new one. -/
theorem upgrade_result {h : Handle} {wrflag : ℕ} (htracks : Tracks h.env h.bt)
    (hread : h.bt.inTrans = .read) (hflag : wrflag ≠ 0)
    (hok : (sqlite3BtreeBeginTrans h wrflag).1 = .ok) :
    h.env.store.writer = [] ∧ ∃ reader, (sqlite3BtreeBeginTrans h wrflag).2 =
      { env := h.env.upgraded reader
        bt := h.bt.began .write h.env.store.next
        cursor := moveCursors h.env.pushed h.env.store.next h.bt.pCursor h.cursor } := by
  rcases beginTrans_cases h wrflag htracks with ⟨_, hstay⟩ | ⟨rc, hrc, hresult, _⟩ |
    ⟨hzero, _⟩ | ⟨_, hnone, _⟩ | ⟨_, _, hidle, reader, _, _, hresult⟩
  · rcases hstay with hwrite | ⟨_, hzero⟩
    · rw [hread] at hwrite
      cases hwrite
    · exact absurd hzero hflag
  · rw [hresult] at hok
    exact absurd hok hrc
  · exact absurd hzero hflag
  · rw [hread] at hnone
    cases hnone
  · exact ⟨hidle, reader.id, by rw [hresult]; rfl⟩

/-- What the upgrade makes of one cursor of the first version. -/
theorem positionKept_iff {env : Env} (hidle : env.store.writer = []) (reader : ℕ)
    (pCur : BtCursor) : PositionKept env (env.upgraded reader) env.store.durable pCur.mc
      (moveCursor env.pushed env.store.next pCur).mc
      (sqlite3BtreeCursorHasMoved (moveCursor env.pushed env.store.next pCur)) ↔
    ∀ mc entry, pCur.mc = some mc → env.rowAt mc = some entry →
      entry ∈ env.store.durable.entries mc.dbi → env.currentIsOp = true := by
  constructor
  · intro hkept mc entry hmc hrow hmem
    obtain ⟨mc', hmc', -, -, hrow'⟩ := hkept.kept mc entry hmc hrow hmem
    rw [moveCursor, hmc, map_some, movedTo_pushed hidle] at hmc'
    rw [← some.inj hmc', rowAt_upgraded hidle] at hrow'
    obtain ⟨i, hplace, -⟩ := bind_eq_some_iff.mp hrow'
    obtain ⟨found, hread, -⟩ := bind_eq_some_iff.mp hplace
    exact (readable_eq_some hread).1
  · intro hcurrent
    constructor
    · intro mc entry hmc hrow hmem
      have hread : env.readable mc = some entry := by
        rw [Env.readable, if_pos (hcurrent mc entry hmc hrow hmem), hrow]
      have hplace : placeBoth (env.store.durable.entries mc.dbi) entry =
          some ((env.store.durable.entries mc.dbi).idxOf entry) := if_pos hmem
      have hmoved : (moveCursor env.pushed env.store.next pCur).mc = some ⟨env.store.next, mc.dbi,
          some ((env.store.durable.entries mc.dbi).idxOf entry)⟩ := by
        simp [moveCursor, hmc, movedTo_pushed hidle, hread, hplace]
      refine ⟨_, hmoved, rfl, live_upgraded env reader, ?_⟩
      rw [rowAt_upgraded hidle]
      exact placeBoth_eq_some hplace
    · intro hlost
      cases hmc : pCur.mc with
      | none =>
        rw [sqlite3BtreeCursorHasMoved, moveCursor, hmc]
        rfl
      | some mc =>
        rw [sqlite3BtreeCursorHasMoved, moveCursor, hmc, map_some, movedTo_pushed hidle,
          bind_some, isNone_iff_eq_none, bind_eq_none_iff]
        intro entry hread
        exact if_neg (hlost mc entry hmc (readable_eq_some hread).2)

/-! ### The not-forking version -/

namespace NotForking

theorem moveCursor_eq (env : Env) (txn : ℕ) (pCur : BtCursor) :
    moveCursor env txn pCur = { pCur with mc := pCur.mc.map (movedTo placeKey env txn) } := by
  have hone : pCur.mc.map (fun mc ↦ match env.mdbCursorCurrent mc with
      | .ok entry => env.mdbCursorSet (mdbCursorInit txn mc.dbi) entry.1
      | .error _ => mdbCursorInit txn mc.dbi) = pCur.mc.map (movedTo placeKey env txn) := by
    congr 1
    funext mc
    refine match_current_eq fun entry ↦ ?_
    unfold Env.mdbCursorSet mdbCursorInit placeKey
    split
    · rename_i i hi
      rw [hi]
    · rename_i hi
      rw [hi]
  rw [← hone]
  rfl

theorem moveCursor_idem (env : Env) (txn : ℕ) (pCur : BtCursor) :
    moveCursor env txn (moveCursor env txn pCur) = moveCursor env txn pCur := by
  simp only [moveCursor_eq]
  cases hmc : pCur.mc with
  | none => rfl
  | some mc =>
    have hplace : ∀ entries entry i, placeKey entries entry = some i →
        ∃ found, entries[i]? = some found ∧ placeKey entries found = some i := by
      intro entries entry i hi
      obtain ⟨found, hfound, hkey, -⟩ := placeKey_eq_some hi
      refine ⟨found, hfound, ?_⟩
      rwa [placeKey, hkey]
    simp [movedTo_idem hplace]

theorem moveCursors_apply (env : Env) (txn : ℕ) (cursors : List ℕ) (cursor : ℕ → BtCursor)
    (pCur : ℕ) : moveCursors env txn cursors cursor pCur =
      if pCur ∈ cursors then moveCursor env txn (cursor pCur) else cursor pCur := by
  rw [moveCursors, foldl_update_idem (moveCursor_idem env txn)]

abbrev Handle.plain (h : Handle) : LumoSQL.Handle := ⟨h.env, h.bt, fun _ ↦ ⟨none, none⟩⟩

/-- `sqlite3BtreeBeginTrans` differs from that of the first version in the cursors, which stay
unless a read transaction is given up for a write transaction. -/
theorem beginTrans_eq (h : Handle) (wrflag : ℕ) : sqlite3BtreeBeginTrans h wrflag =
    ((LumoSQL.sqlite3BtreeBeginTrans h.plain wrflag).1,
      ⟨(LumoSQL.sqlite3BtreeBeginTrans h.plain wrflag).2.env,
        (LumoSQL.sqlite3BtreeBeginTrans h.plain wrflag).2.bt,
        if h.bt.inTrans = .read ∧ wrflag ≠ 0 ∧ h.bt.mainTxn ≠ none ∧
            (LumoSQL.sqlite3BtreeBeginTrans h.plain wrflag).1 = .ok then
          moveCursors h.env.pushed h.env.store.next h.bt.pCursor h.cursor
        else h.cursor⟩) := by
  unfold sqlite3BtreeBeginTrans LumoSQL.sqlite3BtreeBeginTrans
  by_cases hstay : h.bt.inTrans = .write ∨ (h.bt.inTrans = .read ∧ wrflag = 0)
  · have hflags : ¬ (h.bt.inTrans = .read ∧ wrflag ≠ 0) := by
      rintro ⟨hread, hflag⟩
      exact hstay.elim (fun hwrite ↦ by cases hread.symm.trans hwrite) fun hzero ↦ hflag hzero.2
    simp [if_pos hstay, ← and_assoc, hflags]
  · simp only [if_neg hstay]
    rcases hbegin : h.env.mdbTxnBegin none (decide (wrflag = 0)) with ⟨rc | txn, env⟩
    · have hrc := mt (errmap_eq_ok_iff rc).mp (Env.mdbTxnBegin_error hbegin).2
      simp [hrc]
    · by_cases hflag : wrflag = 0
      · simp [hflag]
      · rw [decide_eq_false hflag] at hbegin
        obtain ⟨-, rfl, rfl⟩ := Env.mdbTxnBegin_write_ok hbegin
        simp only [if_neg hflag, beganWrite, LumoSQL.beganWrite]
        cases h.bt.inTrans <;> cases h.bt.mainTxn <;> simp [hflag, Env.pushed]

/-- Assumes: as for the first version. -/
theorem upgrade_result {h : Handle} {wrflag : ℕ} (htracks : Tracks h.env h.bt)
    (hread : h.bt.inTrans = .read) (hflag : wrflag ≠ 0)
    (hok : (sqlite3BtreeBeginTrans h wrflag).1 = .ok) :
    h.env.store.writer = [] ∧ ∃ reader, (sqlite3BtreeBeginTrans h wrflag).2 =
      { env := h.env.upgraded reader
        bt := h.bt.began .write h.env.store.next
        cursor := moveCursors h.env.pushed h.env.store.next h.bt.pCursor h.cursor } := by
  have hmain : h.bt.mainTxn ≠ none := fun hnone ↦ by
    cases hread.symm.trans (htracks.mainTxn_eq_none_iff.mp hnone)
  rw [beginTrans_eq] at hok ⊢
  obtain ⟨hidle, reader, hresult⟩ := @LumoSQL.upgrade_result h.plain _ htracks hread hflag hok
  exact ⟨hidle, reader, by rw [if_pos ⟨hread, hflag, hmain, hok⟩, hresult]⟩

/-- Where the upgrade keeps the position of a cursor. On an entry that is still there, the entry can
be read with `MDB_CURRENT` and is the first of its key. Without such an entry, `mc_init` is clear,
or the cursor is on an index and the search finds no entry of the key. -/
structure UpgradeKeeps (env : Env) (pCur : BtCursor) (mc : MdbCursor) : Prop where
  present : ∀ entry, env.rowAt mc = some entry → entry ∈ env.store.durable.entries mc.dbi →
    env.currentIsOp = true ∧
      (env.store.durable.entries mc.dbi).find? (fun other ↦ other.1 = entry.1) = some entry
  absent : (∀ entry, env.rowAt mc = some entry → entry ∉ env.store.durable.entries mc.dbi) →
    pCur.mcInit = false ∨
      (((env.store.durable.db mc.dbi).map Db.dupSort).getD false = true ∧
        (env.currentIsOp = true → ∀ entry, env.rowAt mc = some entry →
          ∀ other ∈ env.store.durable.entries mc.dbi, other.1 ≠ entry.1))

variable {durable : List (Bytes × Bytes)} {env : Env} {mc : MdbCursor}

/-- Whether a cursor on the new write transaction is reported as moved. -/
theorem hasMoved_upgraded (hidle : env.store.writer = []) (reader : ℕ) (pBtree : Option ℕ)
    (mcInit : Bool) (dbi : DbName) (pos : Option ℕ) :
    sqlite3BtreeCursorHasMoved (env.upgraded reader)
        ⟨pBtree, some ⟨env.store.next, dbi, pos⟩, mcInit⟩ = true ↔
      mcInit = false ∨
        (((env.store.durable.db dbi).map Db.dupSort).getD false = true ∧ pos = none) := by
  have hdup : (env.upgraded reader).dupSortAt ⟨env.store.next, dbi, pos⟩ =
      ((env.store.durable.db dbi).map Db.dupSort).getD false := by
    rw [Env.dupSortAt, (seen_next hidle reader).2]
  unfold sqlite3BtreeCursorHasMoved mdbCursorInitialised Env.mdbCursorCount
  simp only [hdup]
  cases mcInit with
  | false => simp
  | true =>
    cases ((env.store.durable.db dbi).map Db.dupSort).getD false with
    | false => simp [Env.einval]
    | true =>
      cases pos with
      | none => simp
      | some i => simp [Env.einval]

/-- The moved cursor is at the first entry of the key that was read. -/
theorem placed_row_iff {entry : Bytes × Bytes} :
    ((env.readable mc).bind (placeKey durable)).bind (fun i ↦ durable[i]?) = some entry ↔
      ∃ read, env.readable mc = some read ∧
        durable.find? (fun other ↦ other.1 = read.1) = some entry := by
  constructor
  · intro hbind
    obtain ⟨i, hplace, hi⟩ := bind_eq_some_iff.mp hbind
    obtain ⟨read, hread, hplace⟩ := bind_eq_some_iff.mp hplace
    obtain ⟨found, hfound, -, hfind⟩ := placeKey_eq_some hplace
    refine ⟨read, hread, ?_⟩
    rw [hfind, ← hfound, hi]
  · rintro ⟨read, hread, hfind⟩
    cases hi : placeKey durable read with
    | none =>
      have hnot := findIdx?_eq_none_iff.mp hi entry (mem_of_find?_eq_some hfind)
      rw [find?_some hfind] at hnot
      cases hnot
    | some i =>
      obtain ⟨found, hfound, -, hfind'⟩ := placeKey_eq_some hi
      rw [hread, bind_some, hi, bind_some, hfound, ← hfind', hfind]

/-- The moved cursor has no position when nothing was read or the key is gone. -/
theorem placed_none_iff : (env.readable mc).bind (placeKey durable) = none ↔
      (env.currentIsOp = true → ∀ entry, env.rowAt mc = some entry →
        ∀ other ∈ durable, other.1 ≠ entry.1) := by
  rw [bind_eq_none_iff]
  constructor
  · intro hnone hop entry hentry other hother
    have hread : env.readable mc = some entry := by
      rw [Env.readable, if_pos hop, hentry]
    exact of_decide_eq_false (findIdx?_eq_none_iff.mp (hnone entry hread) other hother)
  · intro hnone entry hread
    obtain ⟨hop, hentry⟩ := readable_eq_some hread
    refine findIdx?_eq_none_iff.mpr fun other hother ↦ ?_
    exact decide_eq_false (hnone hop entry hentry other hother)

/-- What the upgrade makes of one cursor of the not-forking version. -/
theorem positionKept_iff (hidle : env.store.writer = []) (reader : ℕ) (pCur : BtCursor) :
    PositionKept env (env.upgraded reader) env.store.durable pCur.mc
      (moveCursor env.pushed env.store.next pCur).mc
      (sqlite3BtreeCursorHasMoved (env.upgraded reader)
        (moveCursor env.pushed env.store.next pCur)) ↔
    ∀ mc, pCur.mc = some mc → UpgradeKeeps env pCur mc := by
  cases hmc : pCur.mc with
  | none =>
    refine iff_of_true ⟨?_, ?_⟩ ?_
    · intro mc entry hsome
      cases hsome
    · intro _
      rw [sqlite3BtreeCursorHasMoved, mdbCursorInitialised, moveCursor_eq, hmc]
      simp [Env.mdbCursorCount]
    · intro mc hsome
      cases hsome
  | some mc =>
    have hmoved : moveCursor env.pushed env.store.next pCur = ⟨pCur.pBtree,
        some ⟨env.store.next, mc.dbi,
          (env.readable mc).bind (placeKey (env.store.durable.entries mc.dbi))⟩, pCur.mcInit⟩ := by
      rw [moveCursor_eq, hmc, map_some, movedTo_pushed hidle]
    have hreport := (hasMoved_upgraded hidle reader pCur.pBtree pCur.mcInit mc.dbi
      ((env.readable mc).bind (placeKey (env.store.durable.entries mc.dbi)))).trans
      (or_congr_right (and_congr_right' placed_none_iff))
    rw [hmoved]
    constructor
    · rintro ⟨hkept, hlost⟩ _ ⟨⟩
      refine ⟨fun entry hentry hmem ↦ ?_, fun habsent ↦ hreport.mp (hlost ?_)⟩
      · obtain ⟨_, ⟨⟩, -, -, hrow⟩ := hkept mc entry rfl hentry hmem
        rw [rowAt_upgraded hidle] at hrow
        obtain ⟨read, hread, hfind⟩ := placed_row_iff.mp hrow
        obtain ⟨hop, hentry'⟩ := readable_eq_some hread
        rw [hentry] at hentry'
        cases hentry'
        exact ⟨hop, hfind⟩
      · rintro _ entry ⟨⟩ hentry
        exact habsent entry hentry
    · intro hkeeps
      obtain ⟨hpresent, habsent⟩ := hkeeps mc rfl
      refine ⟨?_, fun hlost ↦ hreport.mpr (habsent fun entry hentry ↦ hlost mc entry rfl hentry)⟩
      rintro _ entry ⟨⟩ hentry hmem
      obtain ⟨hop, hfind⟩ := hpresent entry hentry hmem
      refine ⟨_, rfl, rfl, live_upgraded env reader, ?_⟩
      rw [rowAt_upgraded hidle]
      refine placed_row_iff.mpr ⟨entry, ?_, hfind⟩
      rw [Env.readable, if_pos hop, hentry]

end NotForking

/-! ### Both versions -/

def NotForking.Handle.visible (h : NotForking.Handle) : Content :=
  match h.bt.currTxn with
  | none => h.env.store.durable
  | some t => h.env.seen t

/-- Assumes: a handle that agrees with its environment and has a read transaction, and a write
transaction that begins. In the first version the positions of all cursors are kept exactly when
LMDB takes `MDB_CURRENT` for an operation or no cursor is on an entry that is still there; in the
not-forking version exactly when `NotForking.UpgradeKeeps` holds of every cursor. -/
theorem upgrade_keeps_iff (wrflag : ℕ) :
    (∀ h : Handle, Tracks h.env h.bt → h.bt.inTrans = .read → wrflag ≠ 0 →
      (sqlite3BtreeBeginTrans h wrflag).1 = .ok →
      ((∀ pCur ∈ h.bt.pCursor, PositionKept h.env (sqlite3BtreeBeginTrans h wrflag).2.env
        (sqlite3BtreeBeginTrans h wrflag).2.visible (h.cursor pCur).mc
        ((sqlite3BtreeBeginTrans h wrflag).2.cursor pCur).mc
        (sqlite3BtreeCursorHasMoved ((sqlite3BtreeBeginTrans h wrflag).2.cursor pCur))) ↔
      ∀ pCur ∈ h.bt.pCursor, ∀ mc entry, (h.cursor pCur).mc = some mc →
        h.env.rowAt mc = some entry → entry ∈ h.env.store.durable.entries mc.dbi →
        h.env.currentIsOp = true)) ∧
    (∀ h : NotForking.Handle, Tracks h.env h.bt → h.bt.inTrans = .read →
      wrflag ≠ 0 → (NotForking.sqlite3BtreeBeginTrans h wrflag).1 = .ok →
      ((∀ pCur ∈ h.bt.pCursor, PositionKept h.env (NotForking.sqlite3BtreeBeginTrans h wrflag).2.env
        (NotForking.sqlite3BtreeBeginTrans h wrflag).2.visible (h.cursor pCur).mc
        ((NotForking.sqlite3BtreeBeginTrans h wrflag).2.cursor pCur).mc
        (NotForking.sqlite3BtreeCursorHasMoved (NotForking.sqlite3BtreeBeginTrans h wrflag).2.env
          ((NotForking.sqlite3BtreeBeginTrans h wrflag).2.cursor pCur))) ↔
      ∀ pCur ∈ h.bt.pCursor, ∀ mc, (h.cursor pCur).mc = some mc →
        NotForking.UpgradeKeeps h.env (h.cursor pCur) mc)) := by
  constructor
  · intro h htracks hread hflag hok
    obtain ⟨hidle, reader, hresult⟩ := upgrade_result htracks hread hflag hok
    rw [hresult]
    refine forall₂_congr fun pCur hmem ↦ ?_
    have hvisible := (seen_next hidle reader).2
    simp only [Handle.visible, Btree.began, hvisible, moveCursors_apply _ _ _ _ hmem]
    exact positionKept_iff hidle reader (h.cursor pCur)
  · intro h htracks hread hflag hok
    obtain ⟨hidle, reader, hresult⟩ := NotForking.upgrade_result htracks hread hflag hok
    rw [hresult]
    refine forall₂_congr fun pCur hmem ↦ ?_
    have hvisible := (seen_next hidle reader).2
    simp only [NotForking.Handle.visible, Btree.began, hvisible,
      NotForking.moveCursors_apply, if_pos hmem]
    exact NotForking.positionKept_iff hidle reader (h.cursor pCur)

/-- A handle that has begun a read transaction on a content, with a cursor at an entry of the table
with root 2. -/
def cursorHandle (content : Content) (currentIsOp : Bool) (pos : Option ℕ) : Handle :=
  let reading := (sqlite3BtreeBeginTrans
    (Handle.opened (Env.created content [] currentIsOp) 1 1) 0).2
  { reading with
    bt := { reading.bt with pCursor := [5] }
    cursor := fun _ ↦ ⟨some 1, some ⟨0, .tab 2, pos⟩⟩ }

def NotForking.cursorHandle (content : Content) (currentIsOp : Bool) (pos : Option ℕ)
    (mcInit : Bool) : NotForking.Handle :=
  let h := LumoSQL.cursorHandle content currentIsOp pos
  ⟨h.env, h.bt, fun _ ↦ ⟨some 1, some ⟨0, .tab 2, pos⟩, mcInit⟩⟩

theorem tracks_cursorHandle (content : Content) (currentIsOp : Bool) (pos : Option ℕ) :
    Tracks (cursorHandle content currentIsOp pos).env (cursorHandle content currentIsOp pos).bt :=
  (tracks_beginTrans _ 0 (Tracks.ended _ ⟨1, 1, none, none, .none, []⟩)).setCursors [5]

/-- A cursor on the row of a table keeps it in both versions where `MDB_CURRENT` is an operation. -/
theorem upgrade_keeps_row :
    (∀ pCur ∈ [5], PositionKept (cursorHandle oneRowContent true (some 0)).env
      (sqlite3BtreeBeginTrans (cursorHandle oneRowContent true (some 0)) 1).2.env
      (sqlite3BtreeBeginTrans (cursorHandle oneRowContent true (some 0)) 1).2.visible
      ((cursorHandle oneRowContent true (some 0)).cursor pCur).mc
      ((sqlite3BtreeBeginTrans (cursorHandle oneRowContent true (some 0)) 1).2.cursor pCur).mc
      (sqlite3BtreeCursorHasMoved
        ((sqlite3BtreeBeginTrans (cursorHandle oneRowContent true (some 0)) 1).2.cursor pCur))) ∧
    ∀ pCur ∈ [5], PositionKept (NotForking.cursorHandle oneRowContent true (some 0) true).env
      (NotForking.sqlite3BtreeBeginTrans
        (NotForking.cursorHandle oneRowContent true (some 0) true) 1).2.env
      (NotForking.sqlite3BtreeBeginTrans
        (NotForking.cursorHandle oneRowContent true (some 0) true) 1).2.visible
      ((NotForking.cursorHandle oneRowContent true (some 0) true).cursor pCur).mc
      ((NotForking.sqlite3BtreeBeginTrans
        (NotForking.cursorHandle oneRowContent true (some 0) true) 1).2.cursor pCur).mc
      (NotForking.sqlite3BtreeCursorHasMoved (NotForking.sqlite3BtreeBeginTrans
        (NotForking.cursorHandle oneRowContent true (some 0) true) 1).2.env
        ((NotForking.sqlite3BtreeBeginTrans
          (NotForking.cursorHandle oneRowContent true (some 0) true) 1).2.cursor pCur)) := by
  constructor
  · exact ((upgrade_keeps_iff 1).1 (cursorHandle oneRowContent true (some 0))
      (tracks_cursorHandle oneRowContent true (some 0)) rfl Nat.one_ne_zero rfl).mpr
        fun _ _ _ _ _ _ _ ↦ rfl
  · refine ((upgrade_keeps_iff 1).2 (NotForking.cursorHandle oneRowContent true (some 0) true)
      (tracks_cursorHandle oneRowContent true (some 0)) rfl Nat.one_ne_zero rfl).mpr ?_
    rintro pCur - _ ⟨⟩
    constructor
    · rintro _ ⟨⟩ -
      exact ⟨rfl, rfl⟩
    · intro habsent
      exact absurd (.head _) (habsent _ rfl)

/-- The content whose index with root 2 has one key with two data items. -/
def duplicateContent : Content :=
  ⟨fun name ↦ if name = .tab 2 then
    some ⟨false, true, [([3], [1]), ([3], [2])], by decide⟩ else none⟩

/-- A cursor is on an entry that the write transaction has as well. Where `MDB_CURRENT` is not an
operation the first version loses the entry, and where it is the not-forking version goes to another
item of the key. -/
theorem upgrade_duplicate :
    (cursorHandle oneRowContent false (some 0)).env.rowAt ⟨0, .tab 2, some 0⟩ =
        some ([1, 0, 0, 0, 0, 0, 0, 0], [7]) ∧
      (sqlite3BtreeBeginTrans (cursorHandle oneRowContent false (some 0)) 1).1 = .ok ∧
      (sqlite3BtreeBeginTrans (cursorHandle oneRowContent false (some 0)) 1).2.visible.entries
        (.tab 2) = [([1, 0, 0, 0, 0, 0, 0, 0], [7])] ∧
      ((sqlite3BtreeBeginTrans (cursorHandle oneRowContent false (some 0)) 1).2.cursor 5).mc =
        some ⟨1, .tab 2, none⟩ ∧
    (NotForking.cursorHandle duplicateContent true (some 1) true).env.rowAt ⟨0, .tab 2, some 1⟩ =
        some ([3], [2]) ∧
      (NotForking.sqlite3BtreeBeginTrans
        (NotForking.cursorHandle duplicateContent true (some 1) true) 1).1 = .ok ∧
      (NotForking.sqlite3BtreeBeginTrans
        (NotForking.cursorHandle duplicateContent true (some 1) true) 1).2.visible.entries
        (.tab 2) = [([3], [1]), ([3], [2])] ∧
      ((NotForking.sqlite3BtreeBeginTrans
        (NotForking.cursorHandle duplicateContent true (some 1) true) 1).2.cursor 5).mc =
        some ⟨1, .tab 2, some 0⟩ := by
  refine ⟨rfl, rfl, rfl, rfl, rfl, rfl, rfl, rfl⟩

end LumoSQL
