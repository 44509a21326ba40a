import LumoSQL.Btree.Catalog
import LumoSQL.Btree.Invariant

/-!
# The number of a new table

`sqlite3BtreeCreateTable` is to return the number of a table that did not exist, and to leave that
number in the meta value `BTREE_LARGEST_ROOT_PAGE` (`FreshTable`). The number comes from the meta
value, so no table may have a greater number than the meta value says (`RootsBelow`).

Three things break this. A failure to read the meta value is taken for the value 0, so the numbers
start over. A failure to write it is not reported (`create_table_not_stored`). And where LMDB
carries out `mdb_open` on a transaction with an open child, the table stands in `main_txn` and the
meta value in `curr_txn`, and a rollback of the statement takes back only the second. `CreateGuard`
excludes the three, and the last number of 32 bits, and `TableCall.Guard` a meta value below the
number of a table; then every table that is created in a run is fresh (`create_table_fresh`).
-/

namespace LumoSQL

open Foundation List Option Function SnapshotStore Content Env

/-! ### Runs -/

/-- A call on a Btree that creates, drops or numbers tables, or begins or ends a statement. -/
inductive TableCall
  | createTable (flags : ℕ)
  | dropTable (iTable : ℕ)
  | updateMeta (idx iMeta : ℕ)
  | beginStmt (iStatement : ℤ)
  | savepoint (op : ℕ) (iSavepoint : ℤ)

/-- The handle after a call. -/
def TableCall.run (parentOpens : Bool) (h : Handle) : TableCall → Handle
  | .createTable flags =>
    ((sqlite3BtreeCreateTable parentOpens h flags).map fun result ↦ result.2.2).getD h
  | .dropTable iTable => ((sqlite3BtreeDropTable parentOpens h iTable).map Prod.snd).getD h
  | .updateMeta idx iMeta => ((sqlite3BtreeUpdateMeta h idx iMeta).map Prod.snd).getD h
  | .beginStmt iStatement => (sqlite3BtreeBeginStmt h iStatement).2
  | .savepoint op iSavepoint => (sqlite3BtreeSavepoint h (savepointOp op) iSavepoint).2

/-- The calls are made inside a write transaction, and `sqlite3BtreeUpdateMeta` asserts that the
index is one of a meta value. -/
def TableCall.Asserts (h : Handle) : TableCall → Prop
  | .updateMeta idx iMeta =>
    h.bt.inTrans = .write ∧ 0 < idx ∧ idx < NUMMETA ∧ iMeta < 2 ^ 32
  | _ => h.bt.inTrans = .write

/-- What a call of `sqlite3BtreeCreateTable` that returns `SQLITE_OK` has to leave: a table that did
not exist, without entries and with the key type asked for, whose number is the stored one. -/
def FreshTable (parentOpens : Bool) (h : Handle) (flags : ℕ) : Prop :=
  ∀ root h', sqlite3BtreeCreateTable parentOpens h flags = some (.ok, root, h') →
    ∃ number, root = some number ∧ h.visible.db (.tab number) = none ∧ h'.visible.db (.tab number) =
        some (.empty (flags &&& BTREE_INTKEY ≠ 0) !(flags &&& BTREE_INTKEY ≠ 0)) ∧
      h'.visible.storedRoot = some number

/-- How many databases `sqlite3BtreeCreateTable` opens: the first table is created along with the
second. -/
def Handle.opens (h : Handle) : ℕ := if (h.readRoot + 1) % 2 ^ 32 = 1 then 2 else 1

/-- `mdb_open` succeeds every time `sqlite3BtreeCreateTable` calls it. -/
def CreateOpens (parentOpens : Bool) (h : Handle) : Prop :=
  (h.bt.currTxn = h.bt.mainTxn ∨ parentOpens = true) ∧
    ∀ i, 1 ≤ i → i ≤ h.opens → h.env.code i = .success

/-- What `sqlite3BtreeCreateTable` needs: no statement is open, the meta value is read where there
is one, it is not the last number, and the new one is written. -/
structure CreateGuard (h : Handle) : Prop where
  statement : h.bt.currTxn = h.bt.mainTxn
  read : h.env.code 0 = .success ∨ h.visible.storedRoot = none
  room : h.visible.largestRoot + 1 < 2 ^ 32
  written : h.env.code (h.opens + 1) = .success

/-- When a call can be trusted. -/
def TableCall.Guard (parentOpens : Bool) (h : Handle) : TableCall → Prop
  | .createTable _ => CreateOpens parentOpens h → CreateGuard h
  | .updateMeta idx iMeta => idx = BTREE_LARGEST_ROOT_PAGE → h.env.outcome = .success →
      ∀ root, (h.visible.db (.tab root)).isSome → root ≤ max iMeta 1
  | _ => True

/-! ### The invariant -/

/-- No table has a greater number than the meta value says; the first one is created along with the
second. -/
def RootsBelow (content : Content) : Prop :=
  ∀ root, (content.db (.tab root)).isSome → root ≤ max content.largestRoot 1

namespace RootsBelow

variable {content : Content}

theorem fresh : RootsBelow .fresh := fun _ hroot ↦ absurd hroot (by simp [Content.fresh])

/-- Another content with the same meta value and no other tables. -/
theorem of_le {content' : Content} (hbelow : RootsBelow content)
    (hstored : content'.storedRoot = content.storedRoot)
    (htables : ∀ root, (content'.db (.tab root)).isSome →
      root ≤ 1 ∨ (content.db (.tab root)).isSome) : RootsBelow content' := by
  intro root hroot
  rw [Content.largestRoot, hstored]
  rcases htables root hroot with hone | hold
  · exact hone.trans (le_max_right _ _)
  · exact hbelow root hold

theorem opened_first (hbelow : RootsBelow content) : RootsBelow (content.opened 1 true false) := by
  refine hbelow.of_le (storedRoot_opened ..) fun root hroot ↦ ?_
  rw [opened_tab] at hroot
  split_ifs at hroot with hfirst
  · exact .inl hfirst.1.le
  · exact .inr hroot

theorem drop {name : DbName} (hbelow : RootsBelow content)
    (hempty : name = .unnamed → content.main.entries = []) : RootsBelow (content.drop name) := by
  cases name with
  | unnamed =>
    have hold : content.storedRoot = none := by
      rw [Content.storedRoot, Db.get, hempty rfl]
      rfl
    have hnew : (content.drop .unnamed).storedRoot = none := by
      simp [Content.storedRoot, Content.main, Content.drop, Db.get, Db.empty]
    exact hbelow.of_le (hnew.trans hold.symm) fun root hroot ↦ .inr (by simpa using hroot)
  | tab dropped =>
    refine hbelow.of_le (storedRoot_drop_tab ..) fun root hroot ↦ .inr ?_
    rw [drop_tab] at hroot
    split_ifs at hroot
    · cases hroot
    · exact hroot

/-- Storing a meta value: the number has to reach the tables. -/
theorem put {idx iMeta : ℕ} (hbelow : RootsBelow content) (hidx : idx < 2 ^ 32)
    (hvalue : iMeta < 2 ^ 32) (hreach : idx = BTREE_LARGEST_ROOT_PAGE →
      ∀ root, (content.db (.tab root)).isSome → root ≤ max iMeta 1) :
    RootsBelow (content.put (u32Bytes idx) (u32Bytes iMeta)) := by
  intro root hroot
  rw [put_tab] at hroot
  rw [Content.largestRoot, storedRoot_put hidx hvalue]
  by_cases heq : idx = BTREE_LARGEST_ROOT_PAGE
  · rw [if_pos heq]
    exact hreach heq root hroot
  · rw [if_neg heq]
    exact hbelow root hroot

end RootsBelow

/-! ### Creating a table -/

/-- A call keeps the Btree and its transactions, and no content has a table above its meta value. -/
structure KeepsRoots (h h' : Handle) : Prop where
  bt : h'.bt = h.bt
  ids : h'.env.store.writer.map Frame.id = h.env.store.writer.map Frame.id
  below : h'.env.store.All RootsBelow

section

variable {parentOpens opens : Bool} {h : Handle} {main : ℕ}

variable {content : Content} {h' : Handle} {last : ℕ} {rest : List (Frame Content)} {root : ℕ}
  {t : ℕ} {top : Frame Content}

theorem KeepsRoots.of_store (hbelow : h.env.store.All RootsBelow) (hbt : h'.bt = h.bt)
    (hstore : h'.env.store = h.env.store) : KeepsRoots h h' :=
  ⟨hbt, by rw [hstore], by rw [hstore]; exact hbelow⟩

theorem KeepsRoots.of_modifyAt {update : Content → Content} (hbelow : h.env.store.All RootsBelow)
    (hbt : h'.bt = h.bt) (hstore : h'.env.store = h.env.store.modifyAt t update)
    (hkeeps : ∀ frame ∈ h.env.store.writer, frame.id = t → RootsBelow (update frame.content)) :
    KeepsRoots h h' := by
  refine ⟨hbt, ?_, ?_⟩
  · rw [hstore, modifyAt_writer, map_id_updateFrame]
  · rw [hstore]
    exact hbelow.modifyAt hkeeps

theorem KeepsRoots.trans {h' h'' : Handle} (hfirst : KeepsRoots h h')
    (hsecond : KeepsRoots h' h'') : KeepsRoots h h'' :=
  ⟨hsecond.bt.trans hfirst.bt, hsecond.ids.trans hfirst.ids, hsecond.below⟩

/-- The part that creates the first table: it fails and changes nothing, or leaves the first table
where the number was the first one. -/
theorem createFirst_cases (opens : Bool) (h : Handle) (hbelow : h.env.store.All RootsBelow)
    (ht : main ∈ h.env.store.writer.map Frame.id) (last : ℕ) :
    ((last = 1 → h.env.Opens opens main) ∧ (createFirst opens h main last).1 = .success ∧
      (createFirst opens h main last).2.1 = (if last = 1 then 2 else last) ∧
      (createFirst opens h main last).2.2.env = (if last = 1 then
        h.env.spend.modify main (Content.opened 1 true false) else h.env) ∧
      KeepsRoots h (createFirst opens h main last).2.2) ∨
    (last = 1 ∧ ¬h.env.Opens opens main ∧ (createFirst opens h main last).1 ≠ .success ∧
      KeepsRoots h (createFirst opens h main last).2.2) := by
  unfold createFirst
  by_cases hfirst : last = 1
  · subst hfirst
    simp only [if_true]
    rcases mdbOpen_create opens ht 1 true false with
      ⟨hopens, hopened⟩ | ⟨hopens, hcode, hstore⟩
    · refine .inl ⟨fun _ ↦ hopens, by rw [hopened], trivial, by rw [hopened], ?_⟩
      rw [hopened]
      exact .of_modifyAt hbelow rfl rfl fun frame hframe _ ↦
        (hbelow.2 frame (mem_append_left _ hframe)).opened_first
    · exact .inr ⟨trivial, hopens, hcode, .of_store hbelow rfl hstore⟩
  · simp only [if_neg hfirst]
    exact .inl ⟨fun h ↦ absurd h hfirst, trivial, trivial, trivial, .of_store hbelow rfl rfl⟩

/-- A number above the meta value belongs to no table. -/
theorem RootsBelow.not_exists (hbelow : RootsBelow content)
    (hroot : max content.largestRoot 1 < root) : content.db (.tab root) = none := by
  by_contra hsome
  exact absurd (hbelow root (isSome_iff_ne_none.mpr hsome)) (not_le.mpr hroot)

/-- A new table and the meta value that goes with it. -/
theorem RootsBelow.created (hbelow : RootsBelow content) (hroot : max content.largestRoot 1 < root)
    (hfits : root < 2 ^ 32) (integerKey dupSort : Bool) :
    RootsBelow ((content.opened root integerKey dupSort).put (u32Bytes BTREE_LARGEST_ROOT_PAGE)
      (u32Bytes root)) := by
  intro other hother
  rw [put_tab, opened_tab] at hother
  rw [Content.largestRoot, storedRoot_put (by decide) hfits, if_pos rfl, getD_some]
  split_ifs at hother with hnew
  · exact hnew.1.le.trans (le_max_left _ _)
  · exact ((hbelow other hother).trans hroot.le).trans (le_max_left _ _)

/-- The part that opens the database of the new table fails and changes nothing, or goes on to write
the meta value. -/
theorem createNamed_cases {txn : ℕ} (hcurr : h.bt.currTxn = some txn)
    (ht : main ∈ h.env.store.writer.map Frame.id) (last flags : ℕ) :
    (h.env.Opens opens main ∧ createNamed opens h main last flags =
      some (.ok, some last, { h with env := ((h.env.spend.modify main
        (Content.opened last (flags &&& BTREE_INTKEY ≠ 0) !(flags &&& BTREE_INTKEY ≠ 0))).mdbPut txn
          (u32Bytes BTREE_LARGEST_ROOT_PAGE) (u32Bytes last)).2 })) ∨
    (¬h.env.Opens opens main ∧ ∃ rc h', createNamed opens h main last flags =
      some (rc, none, h') ∧ rc ≠ .ok ∧ h'.bt = h.bt ∧ h'.env.store = h.env.store) := by
  have hwriter : (decide (main ∉ h.env.store.readers.map Frame.id)) = true := by
    refine decide_eq_true fun hreader ↦ ?_
    obtain ⟨reader, hmem, hid⟩ := mem_map.mp hreader
    exact reader_not_writer hmem (hid ▸ ht)
  unfold createNamed
  simp only [hwriter]
  rcases mdbOpen_create opens ht last (flags &&& BTREE_INTKEY ≠ 0)
    (!(flags &&& BTREE_INTKEY ≠ 0)) with ⟨hopens, hopened⟩ | ⟨hopens, hcode, hstore⟩
  · refine .inl ⟨hopens, ?_⟩
    simp only [hopened, if_true, sqlite3BtreeUpdateMeta, hcurr, map_some]
  · refine .inr ⟨hopens, errmap _, _, if_neg hcode, ?_, rfl, hstore⟩
    exact fun hok ↦ hcode ((errmap_eq_ok_iff _).mp hok)

/-- Assumes: no statement is open, the number is above the meta value and its write succeeds. The
part that opens the database of the new table leaves a fresh table where it succeeds. -/
theorem createNamed_fresh (hwriter : h.env.store.writer = top :: rest)
    (hcurr : h.bt.currTxn = some top.id) (hbelow : h.env.store.All RootsBelow)
    (hlast : max h.visible.largestRoot 1 < last) (hfits : last < 2 ^ 32) (flags : ℕ)
    (hwritten : h.env.code 1 = .success) (hopens : h.env.Opens opens top.id) :
    ∃ h', createNamed opens h top.id last flags = some (.ok, some last, h') ∧
      KeepsRoots h h' ∧ h'.visible.db (.tab last) =
        some (.empty (flags &&& BTREE_INTKEY ≠ 0) !(flags &&& BTREE_INTKEY ≠ 0)) ∧
      h'.visible.storedRoot = some last := by
  have hvisible := Handle.visible_top hwriter hcurr
  rw [hvisible] at hlast
  have ht : top.id ∈ h.env.store.writer.map Frame.id := by simp [hwriter]
  have htop : RootsBelow top.content := hbelow.2 top (by simp [hwriter])
  rcases createNamed_cases hcurr ht last flags with ⟨_, hcreated⟩ | ⟨hnot, _⟩
  · refine ⟨_, hcreated, ?_⟩
    generalize hint : (decide (flags &&& BTREE_INTKEY ≠ 0)) = intKey
    have houtcome : (h.env.spend.modify top.id (Content.opened last intKey !intKey)).outcome =
        .success := by
      rwa [← code_zero, code_modify, code_spend]
    -- both updates go to the one frame
    have hstore : (((h.env.spend.modify top.id (Content.opened last intKey !intKey)).mdbPut top.id
        (u32Bytes BTREE_LARGEST_ROOT_PAGE) (u32Bytes last)).2).store =
        h.env.store.modifyAt top.id ((Content.put (u32Bytes BTREE_LARGEST_ROOT_PAGE)
          (u32Bytes last)) ∘ Content.opened last intKey !intKey) := by
      rw [Env.mdbPut, if_pos houtcome]
      exact modifyAt_modifyAt ..
    have hkeeps : ∀ frame ∈ h.env.store.writer, frame.id = top.id →
        RootsBelow (((Content.put (u32Bytes BTREE_LARGEST_ROOT_PAGE) (u32Bytes last)) ∘
          Content.opened last intKey !intKey) frame.content) := by
      intro frame hframe hid
      have hcontent : frame.content = top.content := by
        rw [← seen_writer hframe, hid, seen_top hwriter]
      rw [hcontent]
      exact htop.created hlast hfits _ _
    have hseen := seen_modifyAt (by simp [hwriter]) hstore
    refine ⟨.of_modifyAt hbelow rfl hstore hkeeps, ?_, ?_⟩
    · simp [Handle.visible, hcurr, hseen, comp_apply, put_tab, opened_tab, htop.not_exists hlast]
    · simp only [Handle.visible, hcurr, hseen, comp_apply]
      rw [storedRoot_put (by decide) hfits, if_pos rfl]
  · exact absurd hopens hnot

theorem CreateGuard.readRoot_eq (hguard : CreateGuard h) : h.readRoot = h.visible.largestRoot := by
  unfold Handle.readRoot
  rcases hguard.read with hread | hnone
  · rw [if_pos (h.env.code_zero ▸ hread)]
  · split_ifs
    · rfl
    · rw [Content.largestRoot, hnone]
      rfl

/-- Only the innermost of the write transactions takes a call. -/
theorem eq_top_of_not_blocked {env : Env} (hwriter : env.store.writer = top :: rest)
    (ht : t ∈ env.store.writer.map Frame.id) (hfree : env.blocked t = false) : t = top.id := by
  have hreader : t ∉ env.store.readers.map Frame.id := by
    intro hmem
    obtain ⟨reader, hreader, rfl⟩ := mem_map.mp hmem
    exact reader_not_writer hreader ht
  have hhead : env.store.writer.head?.map Frame.id = some t := by
    simpa [Env.blocked, hreader] using hfree
  rw [hwriter] at hhead
  exact (some.inj hhead).symm

/-- The environment behind the part that creates the first table, where that part succeeds. -/
def Handle.firstEnv (h : Handle) (main : ℕ) : Env :=
  if (h.readRoot + 1) % 2 ^ 32 = 1 then
    h.env.spend.spend.modify main (Content.opened 1 true false)
  else h.env.spend

theorem firstEnv_blocked (h : Handle) (main t : ℕ) :
    (h.firstEnv main).blocked t = h.env.blocked t := by
  unfold Handle.firstEnv
  split_ifs
  · exact blocked_modify h.env.spend.spend main t _
  · rfl

theorem firstEnv_code (h : Handle) (main i : ℕ) :
    (h.firstEnv main).code i = h.env.code (h.opens + i) := by
  unfold Handle.firstEnv Handle.opens
  split_ifs
  · simp [add_comm, add_left_comm]
  · simp [add_comm]

section

variable (hwriter : h.env.store.writer = top :: rest) (hcurr : h.bt.currTxn = some top.id)
  (ht : main ∈ h.env.store.writer.map Frame.id) (hmain : h.bt.mainTxn = some main)

include hwriter hcurr ht hmain

theorem createOpens_of_first
    (hfirst : (h.readRoot + 1) % 2 ^ 32 = 1 → h.env.spend.Opens parentOpens main)
    (hopens : (h.firstEnv main).Opens parentOpens main) : CreateOpens parentOpens h := by
  refine ⟨?_, fun i hlow hhigh ↦ ?_⟩
  · rcases hopens.1 with hfree | hparent
    · rw [firstEnv_blocked] at hfree
      exact .inl (by rw [hcurr, hmain, eq_top_of_not_blocked hwriter ht hfree])
    · exact .inr hparent
  · by_cases hlastOpen : i = h.opens
    · have hcode := firstEnv_code h main 0
      rw [code_zero, hopens.2] at hcode
      rw [hlastOpen]
      exact hcode.symm
    · -- an open before the last one is that of the first table
      have htwo : (h.readRoot + 1) % 2 ^ 32 = 1 := by
        by_contra hone
        rw [Handle.opens, if_neg hone] at hhigh hlastOpen
        omega
      rw [Handle.opens, if_pos htwo] at hhigh hlastOpen
      have hcode := (hfirst htwo).2
      rw [← code_zero, code_spend] at hcode
      obtain rfl : i = 1 := by omega
      exact hcode

/-- The part of `sqlite3BtreeCreateTable` behind the first table, where that part succeeds.
Assumes: `base` is what the first part leaves. -/
theorem createNamed_step {base : Handle} (hbelow : h.env.store.All RootsBelow)
    (hguard : CreateOpens opens h → CreateGuard h)
    (hfirst : (h.readRoot + 1) % 2 ^ 32 = 1 → h.env.spend.Opens opens main)
    (henv : base.env = h.firstEnv main) (hkeeps : KeepsRoots h base)
    (hlast : last = if (h.readRoot + 1) % 2 ^ 32 = 1 then 2 else (h.readRoot + 1) % 2 ^ 32)
    (flags : ℕ) :
    (∃ rc h', createNamed opens base main last flags = some (rc, none, h') ∧ rc ≠ .ok ∧
      KeepsRoots h h') ∨
    ∃ h', createNamed opens base main last flags = some (.ok, some last, h') ∧
      KeepsRoots h h' ∧ h.visible.db (.tab last) = none ∧ h'.visible.db (.tab last) =
        some (.empty (flags &&& BTREE_INTKEY ≠ 0) !(flags &&& BTREE_INTKEY ≠ 0)) ∧
      h'.visible.storedRoot = some last := by
  have hcurr' : base.bt.currTxn = some top.id := by rw [hkeeps.bt, hcurr]
  have ht' : main ∈ base.env.store.writer.map Frame.id := by rw [hkeeps.ids]; exact ht
  rcases createNamed_cases hcurr' ht' last flags with ⟨hopens, _⟩ |
    ⟨_, rc, h', hnamed, hrc, hbt, hst⟩
  · refine .inr ?_
    have hready := createOpens_of_first hwriter hcurr ht hmain hfirst (henv ▸ hopens)
    have hguarded := hguard hready
    have hroot := hguarded.readRoot_eq
    have hroom := hguarded.room
    obtain rfl : main = top.id := some.inj ((hmain.symm.trans hguarded.statement.symm).trans hcurr)
    have hvisible := Handle.visible_top hwriter hcurr
    have hmemTop : top ∈ h.env.store.writer := by simp [hwriter]
    have hstored : base.visible.storedRoot = h.visible.storedRoot := by
      rw [hvisible, Handle.visible, hcurr']
      simp only [henv, Handle.firstEnv]
      split_ifs
      · rw [seen_modifyAt hmemTop rfl, storedRoot_opened]
      · rw [← seen_top hwriter]
        rfl
    have habove : max h.visible.largestRoot 1 < last ∧ last < 2 ^ 32 := by
      rw [hlast, hroot]
      split_ifs with hone <;> omega
    obtain ⟨top', rest', hwriter', hid⟩ : ∃ top' rest', base.env.store.writer = top' :: rest' ∧
        top'.id = top.id := by
      have hids := hkeeps.ids
      rw [hwriter] at hids
      cases hbase : base.env.store.writer with
      | nil => simp [hbase] at hids
      | cons top' rest' =>
        rw [hbase] at hids
        exact ⟨top', rest', rfl, (cons.inj hids).1⟩
    have habove' : max base.visible.largestRoot 1 < last := by
      rw [Content.largestRoot, hstored]
      exact habove.1
    obtain ⟨h', hnamed, hkept, hcreated, hnumber⟩ := createNamed_fresh hwriter'
      (by rw [hid]; exact hcurr') hkeeps.below habove' habove.2 flags
      (by rw [henv, firstEnv_code]; exact hguarded.written) (by rw [hid]; exact hopens)
    rw [hid] at hnamed
    have hbelow' : RootsBelow h.visible := hvisible ▸ hbelow.2 top (by simp [hwriter])
    exact ⟨h', hnamed, hkeeps.trans hkept, hbelow'.not_exists habove.1, hcreated, hnumber⟩
  · exact .inl ⟨rc, h', hnamed, hrc, hkeeps.trans (.of_store hkeeps.below hbt hst)⟩

end

/-- Assumes: the handle writes, no content has a table above its meta value, and the guard. The call
returns, leaves a fresh table where it succeeds, and keeps what it assumes. -/
theorem createTable_step (htracks : Tracks h.env h.bt) (hwrite : h.bt.inTrans = .write)
    (hbelow : h.env.store.All RootsBelow) (hguard : CreateOpens opens h → CreateGuard h)
    (flags : ℕ) : FreshTable opens h flags ∧
      ∃ rc root h', sqlite3BtreeCreateTable opens h flags = some (rc, root, h') ∧
        KeepsRoots h h' := by
  obtain ⟨top, rest, hwriter, hcurr⟩ := htracks.exists_top hwrite
  obtain ⟨inner, bottom, hends, hmain⟩ := htracks.exists_bottom hwrite
  have ht : bottom.id ∈ h.env.store.writer.map Frame.id := by simp [hends]
  have hcall : sqlite3BtreeCreateTable opens h flags =
      let first := createFirst opens { h with env := h.env.spend } bottom.id
        ((h.readRoot + 1) % 2 ^ 32)
      if first.1 = .success then createNamed opens first.2.2 bottom.id first.2.1 flags
      else some (errmap first.1, none, first.2.2) := by
    unfold sqlite3BtreeCreateTable
    rw [getMeta_root hcurr, bind_some, hmain, bind_some]
  rcases createFirst_cases opens { h with env := h.env.spend } hbelow ht
    ((h.readRoot + 1) % 2 ^ 32) with ⟨hopens, hcode, hlast, henv, hkeeps⟩ | ⟨_, _, hcode, hkeeps⟩
  · rw [if_pos hcode] at hcall
    rcases createNamed_step hwriter hcurr ht hmain hbelow hguard hopens henv
      ⟨hkeeps.bt, hkeeps.ids, hkeeps.below⟩ hlast flags with
      ⟨rc, h', hnamed, hrc, hkept⟩ | ⟨h', hnamed, hkept, hfresh⟩
    · refine ⟨fun root h'' hcreated ↦ ?_, rc, none, h', hcall.trans hnamed, hkept⟩
      have heq := some.inj ((hcall.trans hnamed).symm.trans hcreated)
      exact absurd (congrArg Prod.fst heq) hrc
    · refine ⟨fun root h'' hcreated ↦ ?_, .ok, some _, h', hcall.trans hnamed, hkept⟩
      have heq := some.inj ((hcall.trans hnamed).symm.trans hcreated)
      obtain ⟨rfl, rfl⟩ := Prod.mk.inj (Prod.mk.inj heq).2
      exact ⟨_, rfl, hfresh⟩
  · rw [if_neg hcode] at hcall
    refine ⟨fun root h'' hcreated ↦ ?_, _, none, _, hcall, ⟨hkeeps.bt, hkeeps.ids, hkeeps.below⟩⟩
    have heq := some.inj (hcall.symm.trans hcreated)
    exact absurd ((errmap_eq_ok_iff _).mp (congrArg Prod.fst heq)) hcode

end

/-! ### The other calls -/

section

variable {parentOpens : Bool} {h : Handle}

theorem dropTable_step (parentOpens : Bool) (htracks : Tracks h.env h.bt)
    (hwrite : h.bt.inTrans = .write) (hbelow : h.env.store.All RootsBelow) (iTable : ℕ) :
    ∃ rc h', sqlite3BtreeDropTable parentOpens h iTable = some (rc, h') ∧ KeepsRoots h h' := by
  obtain ⟨top, rest, hwriter, hcurr⟩ := htracks.exists_top hwrite
  obtain ⟨rc, h', hcall, hbt, _, hstore | ⟨name, hname, hstore⟩⟩ :=
    dropTable_cases parentOpens hcurr iTable
  · exact ⟨rc, h', hcall, .of_store hbelow hbt hstore⟩
  · refine ⟨rc, h', hcall, .of_modifyAt hbelow hbt hstore fun frame hframe hid ↦ ?_⟩
    refine (hbelow.2 frame (mem_append_left _ hframe)).drop fun hunnamed ↦ ?_
    rcases hname with ⟨_, hempty⟩ | htab
    · rwa [← seen_writer hframe, hid]
    · rw [hunnamed] at htab
      cases htab

theorem updateMeta_step (htracks : Tracks h.env h.bt) {idx iMeta : ℕ}
    (hasserts : (TableCall.updateMeta idx iMeta).Asserts h)
    (hguard : (TableCall.updateMeta idx iMeta).Guard parentOpens h)
    (hbelow : h.env.store.All RootsBelow) :
    ∃ rc h', sqlite3BtreeUpdateMeta h idx iMeta = some (rc, h') ∧ KeepsRoots h h' := by
  obtain ⟨hwrite, _, hidx, hvalue⟩ := hasserts
  obtain ⟨top, rest, hwriter, hcurr⟩ := htracks.exists_top hwrite
  unfold sqlite3BtreeUpdateMeta
  rw [hcurr, map_some]
  refine ⟨_, _, rfl, ?_⟩
  unfold Env.mdbPut
  split_ifs with hcode
  · refine .of_modifyAt hbelow rfl rfl fun frame hframe hid ↦ ?_
    have hvisible : h.visible = frame.content := by
      rw [Handle.visible, hcurr, ← seen_writer hframe, hid]
    have hfits : idx < 2 ^ 32 := hidx.trans (by decide)
    refine (hbelow.2 frame (mem_append_left _ hframe)).put hfits hvalue fun hroot ↦ ?_
    rw [← hvisible]
    exact hguard hroot hcode
  · exact .of_store hbelow rfl rfl

/-- Every guarded call keeps the Btree in agreement with its environment, and no content gets a
table above its meta value. -/
theorem TableCall.step (call : TableCall) (htracks : Tracks h.env h.bt)
    (hbelow : h.env.store.All RootsBelow) (hasserts : call.Asserts h)
    (hguard : call.Guard parentOpens h) :
    Tracks (call.run parentOpens h).env (call.run parentOpens h).bt ∧
      (call.run parentOpens h).env.store.All RootsBelow := by
  have hkept : ∀ h' : Handle, h.bt.inTrans = .write → KeepsRoots h h' →
      Tracks h'.env h'.bt ∧ h'.env.store.All RootsBelow := fun h' hwrite hkeeps ↦
    ⟨hkeeps.bt ▸ htracks.of_writer hwrite hkeeps.ids, hkeeps.below⟩
  cases call with
  | createTable flags =>
    obtain ⟨_, rc, root, h', hcall, hkeeps⟩ := createTable_step htracks hasserts hbelow hguard flags
    simp only [TableCall.run, hcall, map_some, getD_some]
    exact hkept h' hasserts hkeeps
  | dropTable iTable =>
    obtain ⟨rc, h', hcall, hkeeps⟩ := dropTable_step parentOpens htracks hasserts hbelow iTable
    simp only [TableCall.run, hcall, map_some, getD_some]
    exact hkept h' hasserts hkeeps
  | updateMeta idx iMeta =>
    obtain ⟨rc, h', hcall, hkeeps⟩ := updateMeta_step htracks hasserts hguard hbelow
    simp only [TableCall.run, hcall, map_some, getD_some]
    exact hkept h' hasserts.1 hkeeps
  | beginStmt stmt =>
    have hkeeps : Keeps RootsBelow 0 (fun _ ↦ True) h (sqlite3BtreeBeginStmt h stmt).2 :=
      beginStmt_keeps h stmt
    exact ⟨tracks_beginStmt h stmt htracks hasserts, hkeeps.contents hbelow⟩
  | savepoint op index =>
    have hkeeps : Keeps RootsBelow 0 (fun _ ↦ True) h
        (sqlite3BtreeSavepoint h (savepointOp op) index).2 :=
      savepoint_keeps h (savepointOp op) index
    exact ⟨tracks_savepoint h (savepointOp op) index htracks, hkeeps.contents hbelow⟩

/-- In every run whose calls are guarded, a table that is created is fresh, whatever codes LMDB
reports.
Assumes: the run starts in a write transaction on a database without tables above its meta value. -/
theorem create_table_fresh (parentOpens : Bool) (h : Handle) (calls : List TableCall) (flags : ℕ)
    (htracks : Tracks h.env h.bt) (hbelow : h.env.store.All RootsBelow)
    (hmeets : Meets (TableCall.run parentOpens)
      (fun h call ↦ call.Asserts h ∧ call.Guard parentOpens h) h (calls ++ [.createTable flags])) :
    FreshTable parentOpens (calls.foldl (TableCall.run parentOpens) h) flags := by
  obtain ⟨hrun, hcall, _⟩ := Meets.append_iff.mp hmeets
  have hstep : ∀ (h : Handle) (call : TableCall),
      (fun h : Handle ↦ Tracks h.env h.bt ∧ h.env.store.All RootsBelow) h →
      call.Asserts h ∧ call.Guard parentOpens h →
      (fun h : Handle ↦ Tracks h.env h.bt ∧ h.env.store.All RootsBelow)
        (call.run parentOpens h) := fun _ call hholds hmet ↦
    call.step hholds.1 hholds.2 hmet.1 hmet.2
  obtain ⟨htracks', hbelow'⟩ := Meets.invariant hstep ⟨htracks, hbelow⟩ hrun
  exact (createTable_step htracks' hcall.1 hbelow' hcall.2 flags).1

end

/-- A write transaction on a new environment, with the codes of the calls inside it. -/
def newWrite (outcomes : List MdbRc) : Handle :=
  (sqlite3BtreeBeginTrans (.opened (.created .fresh (.success :: outcomes) true) 0 0) 1).2

theorem newWrite_tracks (outcomes : List MdbRc) :
    Tracks (newWrite outcomes).env (newWrite outcomes).bt :=
  tracks_beginTrans _ 1 (.idle rfl rfl rfl)

theorem newWrite_below (outcomes : List MdbRc) : (newWrite outcomes).env.store.All RootsBelow := by
  refine ⟨RootsBelow.fresh, fun frame hframe ↦ ?_⟩
  obtain rfl : frame = ⟨0, .fresh⟩ := mem_singleton.mp hframe
  exact RootsBelow.fresh

/-- Two tables, with a statement that is rolled back between them. -/
theorem create_table_fresh_second :
    FreshTable true ([.createTable 1, .beginStmt 1, .savepoint 2 0].foldl (TableCall.run true)
      (newWrite [])) 2 := by
  refine create_table_fresh true (newWrite []) _ 2 (newWrite_tracks []) (newWrite_below [])
    ⟨⟨rfl, fun _ ↦ ?_⟩, ⟨rfl, trivial⟩, ⟨rfl, trivial⟩, ⟨rfl, fun _ ↦ ?_⟩, trivial⟩
  · exact ⟨by decide, .inl (by decide), by decide, by decide⟩
  · exact ⟨by decide, .inl (by decide), by decide, by decide⟩

/-- The meta value cannot be written for want of space: the call returns `SQLITE_OK` and the number
2, which is not stored. -/
theorem create_table_not_stored :
    ¬FreshTable false (newWrite [.success, .success, .success, .mapFull]) 1 ∧
      ¬FreshTable true (newWrite [.success, .success, .success, .mapFull]) 1 := by
  constructor
  all_goals
    intro hfresh
    obtain ⟨number, hroot, _, _, hstored⟩ := hfresh (some 2) _ rfl
    cases hroot
    cases hstored

end LumoSQL
