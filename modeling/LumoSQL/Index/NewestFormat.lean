import LumoSQL.Index.Pairs

/-!
# Lookups under the file format of another statement

An insert writes the item of a rowid under the file format of its own statement, and a search makes
it under the one of the statement that was prepared last. The two differ for the rowids `0` and `1`
alone, which are written without a byte from file format 4 on. The item of the search is then before
all the stored ones or behind them (`item_apart`), and the search ends at the least of these.

`lookup_newest_iff` says when a lookup does not depend on the newest statement.
-/

namespace LumoSQL

open Foundation List

def PairInserted (pKeyInfo : KeyInfo) (ops : List IndexInsert) (fields : List Value) (r : Int64) :
    Prop :=
  ∃ op ∈ ops, op.accepted = true ∧
    lexCompare pKeyInfo.compareField 0 fields op.keyFields = 0 ∧ op.last = .int r

/-- Both file formats write the rowid alike, or its item is the least one with its fields. -/
def FormatAgrees (pKeyInfo : KeyInfo) (fileFormat format : ℕ) (ops : List IndexInsert)
    (fields : List Value) (r : Int64) : Prop :=
  (4 ≤ fileFormat ↔ 4 ≤ format) ∨ (r.toInt ≠ 0 ∧ r.toInt ≠ 1) ∨
    ∀ s, PairInserted pKeyInfo ops fields s →
      compareBytes (lastItem fileFormat (.int r)) (lastItem fileFormat (.int s)) ≤ 0

section

variable {fileFormat format : ℕ} {r : Int64}

theorem lastItem_format (hsame : (4 ≤ fileFormat ↔ 4 ≤ format) ∨ (r.toInt ≠ 0 ∧ r.toInt ≠ 1)) :
    lastItem format (.int r) = lastItem fileFormat (.int r) := by
  have htype : serialTypeInt r.toInt format = serialTypeInt r.toInt fileFormat := by
    unfold serialTypeInt
    split_ifs <;> omega
  rw [lastItem, lastItem, serialBytes_int, serialBytes_int, sqlite3VdbeSerialType,
    sqlite3VdbeSerialType, htype]

/-- Where the file formats write `0` and `1` differently, the item of the one is before all items of
the other or behind them. -/
theorem item_apart (hbit : r.toInt = 0 ∨ r.toInt = 1) (hdiffer : ¬ (4 ≤ fileFormat ↔ 4 ≤ format)) :
    (∀ s : Int64, compareBytes (lastItem format (.int r)) (lastItem fileFormat (.int s)) ≤ 0) ∨
      ∀ s : Int64, 0 < compareBytes (lastItem format (.int r)) (lastItem fileFormat (.int s)) := by
  by_cases hformat : 4 ≤ format
  · refine .inr fun s ↦ ?_
    have htypes : serialTypeInt s.toInt fileFormat < serialTypeInt r.toInt format := by
      unfold serialTypeInt MAX_6BYTE
      split_ifs <;> omega
    rw [compareItem_types htypes.ne']
    exact compareNumbers_pos.mpr (by exact_mod_cast htypes)
  · refine .inl fun s ↦ ?_
    have hone : serialTypeInt r.toInt format = 1 := by
      unfold serialTypeInt MAX_6BYTE
      split_ifs <;> omega
    by_cases hother : s.toInt = 0 ∨ s.toInt = 1
    · have htypes : serialTypeInt r.toInt format < serialTypeInt s.toInt fileFormat := by
        rw [hone]
        unfold serialTypeInt MAX_6BYTE
        split_ifs <;> omega
      rw [compareItem_types htypes.ne]
      exact (compareNumbers_neg.mpr (by exact_mod_cast htypes)).le
    · -- the other items are the same under both formats
      have hsame := @lastItem_format fileFormat format s (.inr (by omega))
      rw [← hsame]
      have hrange := serialTypeInt_range s.toInt format
      rcases lt_or_ge r.toInt s.toInt with hless | hless
      · refine ((compareItem_neg_iff hless).mpr ?_).le
        unfold SerialBefore
        omega
      · refine (compareBytes_oriented.nonneg_iff _ _).mp (not_lt.mp ?_)
        rw [compareItem_neg_iff (lt_of_le_of_ne hless (by omega))]
        unfold SerialBefore
        omega

end

section

variable {pKeyInfo info : KeyInfo} {fileFormat : ℕ} {nodes : List (Node IndexKey Bytes)}
  {ops : List IndexInsert}

/-- A lookup under any file format finds the pair exactly if it was inserted and the formats agree
on it. -/
theorem RowidStore.lookup (hash : MdbHash) (hstore : RowidStore info fileFormat nodes)
    (op : IdxDelete info fileFormat) (format : ℕ)
    (hinserted : ∀ r, PairInserted info ops op.fields r ↔
      Stored info nodes op.fields (lastItem fileFormat (.int r))) :
    ∃ moved, sqlite3BtreeMovetoUnpacked hash info format op.past op.index (indexTable nodes)
        op.mem (some op.record) 0 = some moved ∧
      (moved.res = 0 ↔ PairInserted info ops op.fields op.rowid ∧
        FormatAgrees info fileFormat format ops op.fields op.rowid) := by
  obtain ⟨moved, hmoved, _, ⟨hres, hnone⟩ |
      ⟨before, node, after, less, found, greater, rfl, hitems, hnearest, _, hzero⟩⟩ :=
    hstore.moveto_nearest hash op format
  · refine ⟨moved, hmoved, iff_of_false hres fun hboth ↦ ?_⟩
    obtain ⟨entry, hentry, hsame, _⟩ := (hinserted _).mp hboth.1
    exact hnone entry ⟨hentry, hsame⟩
  · refine ⟨moved, hmoved, hzero.trans ?_⟩
    obtain ⟨s₀, hs₀⟩ := (hstore.rowids node (by simp)).2 found (by rw [hitems]; simp)
    have hleast : ¬ ((4 ≤ fileFormat ↔ 4 ≤ format) ∨ (op.rowid.toInt ≠ 0 ∧ op.rowid.toInt ≠ 1)) →
        ∀ s, PairInserted info ops op.fields s →
          compareBytes found (lastItem fileFormat (.int s)) ≤ 0 := by
      intro hdiffer s hs
      obtain ⟨entry, hentry, hsame, hitem⟩ := (hinserted s).mp hs
      rw [← hitem]
      rcases hnearest.2 with ⟨hle, hleast⟩ | ⟨_, hleast⟩
      · refine hleast entry ⟨hentry, hsame⟩ ?_
        have hsmall : op.rowid.toInt = 0 ∨ op.rowid.toInt = 1 := by omega
        rcases item_apart hsmall (fun h ↦ hdiffer (.inl h)) with hbefore | hbehind
        · exact hitem ▸ hbefore s
        · exact absurd (hs₀ ▸ hle) (not_le.mpr (hbehind s₀))
      · exact hleast entry ⟨hentry, hsame⟩
    rw [FormatAgrees, ← or_assoc]
    by_cases hagree : (4 ≤ fileFormat ↔ 4 ≤ format) ∨ (op.rowid.toInt ≠ 0 ∧ op.rowid.toInt ≠ 1)
    · rw [and_iff_left (.inl hagree), hinserted]
      refine ⟨fun hfound ↦ ⟨_, hnearest.1.1, hnearest.1.2, hfound⟩, ?_⟩
      rintro ⟨entry, hentry, hsame, hitem⟩
      rw [lastItem_format hagree, ← hitem] at hnearest
      exact (hnearest.eq_of_mem ⟨hentry, hsame⟩).trans hitem
    · rw [or_iff_right hagree]
      constructor
      · rintro rfl
        exact ⟨(hinserted _).mpr ⟨_, hnearest.1.1, hnearest.1.2, rfl⟩, hleast hagree⟩
      · rintro ⟨hrowid, hall⟩
        have hs : PairInserted info ops op.fields s₀ :=
          (hinserted _).mpr ⟨_, hnearest.1.1, hnearest.1.2, hs₀⟩
        exact compareBytes_eq_zero.mp (le_antisymm (hleast hagree _ hrowid)
          ((compareBytes_oriented.nonneg_iff _ _).mpr (hs₀ ▸ hall s₀ hs)))

/-- A lookup under another file format finds what one under the file format of the inserts finds,
which is a pair that was inserted, exactly if the pair was not inserted or the formats agree on it.
-/
theorem lookup_newest_iff (hash : MdbHash) (hrun : RowidRun pKeyInfo fileFormat ops)
    (op : IdxDelete pKeyInfo fileFormat) (format : ℕ) :
    ∃ moved other, sqlite3BtreeMovetoUnpacked hash pKeyInfo fileFormat op.past op.index
        (runInserts hash pKeyInfo ops) op.mem (some op.record) 0 = some moved ∧
      sqlite3BtreeMovetoUnpacked hash pKeyInfo format op.past op.index
        (runInserts hash pKeyInfo ops) op.mem (some op.record) 0 = some other ∧
      (((other.res = 0 ↔ moved.res = 0) ∧
          (moved.res = 0 ↔ PairInserted pKeyInfo ops op.fields op.rowid)) ↔
        (PairInserted pKeyInfo ops op.fields op.rowid →
          FormatAgrees pKeyInfo fileFormat format ops op.fields op.rowid)) := by
  obtain ⟨nodes, hindex, hstore, hfrom, hstored⟩ :=
    runInserts_content hash hrun.comparable (Nat.le_succ _)
  have hentry : ∀ node ∈ nodes, ∀ item ∈ node.items, ∃ r,
      RowidEntry pKeyInfo fileFormat (node.key, item) r := fun node hnode item hitem ↦
    hrun.storedEntry hfrom (mem_entries.mpr ⟨node, hnode, rfl, hitem⟩)
  have hrowid : RowidStore pKeyInfo fileFormat nodes := by
    refine ⟨hstore, fun node hnode ↦ ⟨?_, fun item hitem ↦ ?_⟩⟩
    · obtain ⟨found, greater, hitems⟩ := hstore.first_item hnode
      obtain ⟨_, hfirst⟩ := hentry node hnode found (by rw [hitems]; simp)
      exact hfirst.format
    · obtain ⟨r, hr⟩ := hentry node hnode item hitem
      exact ⟨r, hr.item⟩
  have hinserted : ∀ r, PairInserted pKeyInfo ops op.fields r ↔
      Stored pKeyInfo nodes op.fields (lastItem fileFormat (.int r)) := by
    intro r
    rw [hstored _ _ op.fieldsOf]
    refine exists_congr fun call ↦ and_congr_right fun hcall ↦ and_congr_right fun _ ↦
      and_congr_right fun _ ↦ ?_
    obtain ⟨s, hlast, hitem⟩ := hrun.insertEntry hcall
    have hsame : call.item = lastItem fileFormat (.int s) := hitem.item
    rw [hsame, hlast]
    exact ⟨fun h ↦ h ▸ rfl, fun h ↦ congrArg Value.int (lastItem_int_inj h).symm⟩
  obtain ⟨moved, hmoved, hfound⟩ := hrowid.lookup hash op fileFormat hinserted
  obtain ⟨other, hother, hfoundOther⟩ := hrowid.lookup hash op format hinserted
  rw [FormatAgrees, and_iff_left (.inl Iff.rfl)] at hfound
  rw [hindex]
  refine ⟨moved, other, hmoved, hother, ?_⟩
  rw [hfound, hfoundOther]
  tauto

end

/-- The insert of the record with the field `5` and the rowid `0`. -/
def insertFiveZero : IndexInsert :=
  .ofRecord 1 [.int 5] (.int 0) [3, 1, 1, 5, 0]
    ⟨by decide, SQLITE_MAX_LENGTH, [3, 1, 1, 5, 0], 0, Nat.le_refl _, by decide, rfl⟩ (by decide)
    (by decide)

/-- The search for the field `5` and the rowid `1`. -/
def searchFiveOne : IdxDelete ⟨[(none, false)]⟩ 1 where
  aMem := [.int 5, .int 1]
  mem := fun _ ↦ 0
  index := fun _ ↦ 0
  past := false
  outcome := .success
  fields := [.int 5]
  rowid := 1
  values := rfl
  columns := rfl
  short := by decide
  notReal := by simp [Value.NotReal]

theorem lookup_newest_iff_five : ∃ moved other,
    sqlite3BtreeMovetoUnpacked .fnv ⟨[(none, false)]⟩ 1 false (fun _ ↦ 0)
      (runInserts .fnv ⟨[(none, false)]⟩ [insertFiveZero, insertFiveOne]) (fun _ ↦ 0)
      (some searchFiveOne.record) 0 = some moved ∧
    sqlite3BtreeMovetoUnpacked .fnv ⟨[(none, false)]⟩ 4 false (fun _ ↦ 0)
      (runInserts .fnv ⟨[(none, false)]⟩ [insertFiveZero, insertFiveOne]) (fun _ ↦ 0)
      (some searchFiveOne.record) 0 = some other ∧
    (((other.res = 0 ↔ moved.res = 0) ∧ (moved.res = 0 ↔
        PairInserted ⟨[(none, false)]⟩ [insertFiveZero, insertFiveOne] [.int 5] 1)) ↔
      (PairInserted ⟨[(none, false)]⟩ [insertFiveZero, insertFiveOne] [.int 5] 1 →
        FormatAgrees ⟨[(none, false)]⟩ 1 4 [insertFiveZero, insertFiveOne] [.int 5] 1)) := by
  refine lookup_newest_iff .fnv ⟨by decide, ?_, by decide, ?_⟩ searchFiveOne 4
  · rw [forall_mem_cons, forall_mem_singleton]
    exact ⟨⟨rfl, 0, rfl⟩, rfl, 1, rfl⟩
  · rw [forall_mem_cons, forall_mem_singleton]
    exact ⟨searchFiveOne.notReal, searchFiveOne.notReal⟩

/-- After the rowids `0` and `1` have been inserted under file format 1, a search under file format
4 for the rowid `1` ends at the rowid `0`. -/
theorem lookup_newest_misses :
    ((sqlite3BtreeMovetoUnpacked .fnv ⟨[(none, false)]⟩ 4 false (fun _ ↦ 0)
      (runInserts .fnv ⟨[(none, false)]⟩ [insertFiveZero, insertFiveOne]) (fun _ ↦ 0)
      (some searchFiveOne.record) 0).map fun moved ↦ moved.res) = some (-1) ∧
    PairInserted ⟨[(none, false)]⟩ [insertFiveZero, insertFiveOne] [.int 5] 1 :=
  ⟨by decide, insertFiveOne, by simp, rfl, by decide, rfl⟩

end LumoSQL
