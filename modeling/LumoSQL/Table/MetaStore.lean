import LumoSQL.Table.Nesting

/-!
# Meta values as a store of their own

The meta values, the names of the tables and some rows of root 1 are all entries of the unnamed
database. Their keys have four, twelve and eight bytes, and root 1 denotes the unnamed database only
while that has no entry; so no call but `sqlite3BtreeUpdateMeta` changes a meta value, apart from
the number of the largest root.

`Layers` is what the transactions of a Btree are to a value that is kept in them: the durable value,
the one a read transaction sees, and those of a write transaction and of the statements open in it.
Run beside the calls of a Btree it says which meta values are to be read, and `sqlite3BtreeGetMeta`
reads them (`meta_values_independent`).
-/

namespace LumoSQL

open Foundation List SnapshotStore Content Env Handle

/-! ### Values kept in transactions -/

/-- The values of the transactions of one Btree: what is durable, what its read transaction sees,
and what its write transaction and the statements open in it see, the innermost first. -/
structure Layers (α : Type*) where
  durable : α
  reader : Option α
  stack : List α

namespace Layers

variable {α : Type*}

def current (layers : Layers α) : α := layers.stack.headD (layers.reader.getD layers.durable)

def ended (layers : Layers α) : SavepointOp → Layers α
  | .rollback => ⟨layers.durable, none, []⟩
  | .release => ⟨layers.stack.headD layers.durable, none, []⟩

/-- The values after a call, the writing calls being carried out on the current one. -/
def step (write : α → DbCall → α) (layers : Layers α) : DbCall → Layers α
  | .txn (.beginTrans wrflag) =>
    if layers.stack.isEmpty = false ∨ (layers.reader.isSome ∧ wrflag = 0) then layers
    else if wrflag = 0 then { layers with reader := some layers.durable }
    else ⟨layers.durable, none, [layers.durable]⟩
  | .txn (.savepoint op iSavepoint) =>
    if iSavepoint = -1 ∨ layers.stack.length ≤ 1 then layers.ended (savepointOp op)
    else { layers with stack := nest write layers.stack (.txn (.savepoint op iSavepoint)) }
  | .txn .rollback => layers.ended .rollback
  | .txn .commitPhaseOne => layers.ended .release
  | .txn .commit => layers.ended .release
  | call => { layers with stack := nest write layers.stack call }

theorem ended_nil {layers : Layers α} (hstack : layers.stack = []) (op : SavepointOp) :
    layers.ended op = ⟨layers.durable, none, []⟩ := by
  cases op with
  | rollback => rfl
  | release => rw [ended, hstack, headD_nil]

end Layers

/-- The values describe the contents of the transactions of a Btree that is alone in its
environment. -/
structure Layered {α : Type*} (R : Content → α → Prop) (h : Handle) (layers : Layers α) : Prop where
  durable : R h.env.store.durable layers.durable
  reading : h.bt.inTrans = .read → ∃ value, layers.reader = some value ∧ R h.visible value
  notReading : h.bt.inTrans ≠ .read → layers.reader = none
  writing : List.Forall₂ R (h.env.store.writer.map Frame.content) layers.stack
  alone : h.bt.inTrans ≠ .write → h.env.store.writer = []

namespace Layered

variable {α : Type*} {R : Content → α → Prop} {h : Handle} {layers : Layers α}

theorem stack_nil (hlayered : Layered R h layers) (hquiet : h.bt.inTrans ≠ .write) :
    layers.stack = [] := by
  have hwriting := hlayered.writing
  rw [hlayered.alone hquiet] at hwriting
  exact forall₂_nil_left_iff.mp hwriting

theorem visible (hlayered : Layered R h layers) (htracks : Tracks h.env h.bt) :
    R h.visible layers.current := by
  cases hmode : h.bt.inTrans with
  | none =>
    have hquiet : h.bt.inTrans ≠ .write := by simp [hmode]
    rw [Layers.current, hlayered.stack_nil hquiet, hlayered.notReading (by simp [hmode]),
      Handle.visible, htracks.currTxn_eq_none_iff.mpr hmode]
    exact hlayered.durable
  | read =>
    obtain ⟨value, hreader, hvalue⟩ := hlayered.reading hmode
    rw [Layers.current, hlayered.stack_nil (by simp [hmode]), hreader]
    exact hvalue
  | write =>
    obtain ⟨top, rest, hwriter, hcurr⟩ := htracks.exists_top hmode
    have hvisible := visible_top hwriter hcurr
    have hwriting := hlayered.writing
    rw [hwriter, map_cons] at hwriting
    obtain ⟨value, stack, hvalue, _, hstack⟩ := forall₂_cons_left_iff.mp hwriting
    rwa [Layers.current, hstack, hvisible]

theorem of_ended {value : α} (hmode : h.bt.inTrans = .none) (hwriter : h.env.store.writer = [])
    (hdurable : R h.env.store.durable value) : Layered R h ⟨value, none, []⟩ where
  durable := hdurable
  reading hread := absurd (hmode.symm.trans hread) (by simp)
  notReading _ := rfl
  writing := by
    rw [hwriter]
    exact .nil
  alone _ := hwriter

theorem of_began {value : α} (txn : ℕ) (hmode : h.bt.inTrans = .write)
    (hwriter : h.env.store.writer = [⟨txn, h.env.store.durable⟩])
    (hdurable : R h.env.store.durable value) : Layered R h ⟨value, none, [value]⟩ where
  durable := hdurable
  reading hread := absurd (hmode.symm.trans hread) (by simp)
  notReading _ := rfl
  writing := by
    rw [hwriter]
    exact .cons hdurable .nil
  alone hquiet := absurd hmode hquiet

section

variable (hlayered : Layered R h layers)

include hlayered

/-- The value at the top of the stack describes what the innermost write transaction sees. -/
theorem tip : R h.env.store.tip (layers.stack.headD layers.durable) := by
  have hwriting := hlayered.writing
  cases hwriter : h.env.store.writer with
  | nil =>
    rw [hwriter, map_nil] at hwriting
    rw [forall₂_nil_left_iff.mp hwriting, tip_of_idle hwriter]
    exact hlayered.durable
  | cons top rest =>
    rw [hwriter, map_cons] at hwriting
    obtain ⟨value, stack, hvalue, _, hstack⟩ := forall₂_cons_left_iff.mp hwriting
    rwa [hstack, tip_of_writer hwriter]

theorem stack_ne_nil (htracks : Tracks h.env h.bt) (hmode : h.bt.inTrans = .write) :
    layers.stack ≠ [] := by
  obtain ⟨top, rest, hwriter, _⟩ := htracks.exists_top hmode
  intro hnil
  have hwriting := hlayered.writing
  rw [hwriter, hnil] at hwriting
  cases hwriting

theorem beginTrans (htracks : Tracks h.env h.bt) (hcodes : h.env.outcomes = [])
    (write : α → DbCall → α) (wrflag : ℕ) : Layered R (sqlite3BtreeBeginTrans h wrflag).2
      (layers.step write (.txn (.beginTrans wrflag))) := by
  rw [Layers.step]
  rcases beginTrans_cases h wrflag htracks with ⟨hresult, hstay⟩ |
    ⟨rc, _, _, hquiet, hwhy⟩ | ⟨hread, hnone, hresult⟩ | ⟨hflag, hnone, hwriter, hresult⟩ |
    ⟨hflag, hreading, hwriter, reader, hmem, hmain, hresult⟩
  · have hstays : layers.stack.isEmpty = false ∨ (layers.reader.isSome ∧ wrflag = 0) := by
      rcases hstay with hmode | ⟨hmode, hzero⟩
      · exact .inl (by simpa using hlayered.stack_ne_nil htracks hmode)
      · obtain ⟨value, hreader, _⟩ := hlayered.reading hmode
        exact .inr ⟨by simp [hreader], hzero⟩
    rwa [if_pos hstays, hresult]
  · rcases hwhy with hcode | hbusy
    · exact absurd (outcome_nil hcodes) hcode
    · exact absurd (hlayered.alone hquiet) hbusy
  · have hquiet : h.bt.inTrans ≠ .write := by simp [hnone]
    rw [hlayered.stack_nil hquiet, hlayered.notReading (by simp [hnone]), if_neg (by simp),
      if_pos hread, hresult]
    have hseen := @Env.seen_reader { h.env.spend with store := h.env.store.beginRead }
      ⟨h.env.store.next, h.env.store.durable⟩ (by simp)
    refine ⟨hlayered.durable, fun _ ↦ ⟨layers.durable, rfl, ?_⟩, fun hother ↦ absurd rfl hother, ?_,
      fun _ ↦ hlayered.alone hquiet⟩
    · have hvisible : Handle.visible ⟨{ h.env.spend with store := h.env.store.beginRead },
          h.bt.began .read h.env.store.next, h.cursor⟩ = h.env.store.durable := hseen
      rw [hvisible]
      exact hlayered.durable
    · have hwriting := hlayered.writing
      rwa [hlayered.stack_nil hquiet] at hwriting
  · have hquiet : h.bt.inTrans ≠ .write := by simp [hnone]
    rw [hlayered.stack_nil hquiet, hlayered.notReading (by simp [hnone]), if_neg (by simp),
      if_neg hflag, hresult]
    refine .of_began h.env.store.next rfl ?_ hlayered.durable
    simp [hwriter, tip_of_idle hwriter]
  · rw [hlayered.stack_nil (by simp [hreading]), if_neg (by simp [hflag]), if_neg hflag, hresult]
    refine .of_began h.env.store.next rfl ?_ hlayered.durable
    simp [hwriter, tip_of_idle hwriter]

/-- The main transaction ends, with every statement that is open in it. -/
theorem ends_main {h' : Handle} {op : SavepointOp} (hmode : h'.bt.inTrans = .none)
    (hwriter : h'.env.store.writer = []) (hdurable : h'.env.store.durable = match op with
      | .rollback => h.env.store.durable
      | .release => h.env.store.tip) : Layered R h' (layers.ended op) := by
  cases op with
  | rollback => exact .of_ended hmode hwriter (hdurable ▸ hlayered.durable)
  | release => exact .of_ended hmode hwriter (hdurable ▸ hlayered.tip)

/-- Outside a write transaction a savepoint with any index ends the read transaction. -/
theorem savepoint_quiet (htracks : Tracks h.env h.bt) (hquiet : h.bt.inTrans ≠ .write)
    (op : SavepointOp) (index : ℤ) :
    Layered R (sqlite3BtreeSavepoint h op index).2 (layers.ended op) := by
  rw [Layers.ended_nil (hlayered.stack_nil hquiet)]
  rcases htracks with ⟨hmode, _, hcurr⟩ | ⟨_, reader, hmem, hmain, hcurr⟩ | ⟨hmode, _⟩
  · rw [savepoint_idle hcurr]
    exact .of_ended hmode (hlayered.alone hquiet) hlayered.durable
  · rw [savepoint_reading hmem hmain hcurr]
    exact .of_ended rfl (hlayered.alone hquiet) hlayered.durable
  · exact absurd hmode hquiet

theorem savepoint_main (htracks : Tracks h.env h.bt) (hcodes : h.env.outcomes = [])
    (op : SavepointOp) : Layered R (sqlite3BtreeSavepoint h op (-1)).2 (layers.ended op) := by
  by_cases hwrite : h.bt.inTrans = .write
  · obtain ⟨top, rest, hwriter, hcurr⟩ := htracks.exists_top hwrite
    obtain ⟨inner, last, hends, hmain⟩ := htracks.exists_bottom hwrite
    have hmem : last.id ∈ h.env.store.writer.map Frame.id := by simp [hends]
    cases op with
    | rollback =>
      obtain ⟨hafter, hdurable, _⟩ := abort_outermost hends
      have hresult : sqlite3BtreeSavepoint h .rollback (-1) =
          (.ok, { h with env := h.env.mdbTxnAbort last.id, bt := h.bt.ended }) := by
        simp [sqlite3BtreeSavepoint, hcurr, savepointTxn, savepointHandles, hmain]
      rw [hresult]
      exact hlayered.ends_main rfl hafter hdurable
    | release =>
      obtain ⟨hafter, hdurable, _⟩ := commit_outermost hends
      have hresult : sqlite3BtreeSavepoint h .release (-1) = (.ok, { h with
          env := { h.env.spend with store := h.env.store.commit last.id }, bt := h.bt.ended }) := by
        simp [sqlite3BtreeSavepoint, hcurr, savepointTxn, savepointHandles, hmain,
          mdbTxnCommit_writer hmem, if_pos (outcome_nil hcodes), errmap]
      rw [hresult]
      exact hlayered.ends_main rfl hafter hdurable
  · exact hlayered.savepoint_quiet htracks hwrite op _

/-- Without statements a savepoint with any index is the main transaction. -/
theorem savepoint_outermost (htracks : Tracks h.env h.bt) (hcodes : h.env.outcomes = [])
    (op : SavepointOp) (index : ℤ) (hstack : layers.stack.length ≤ 1) :
    Layered R (sqlite3BtreeSavepoint h op index).2 (layers.ended op) := by
  by_cases hindex : index = -1
  · rw [hindex]
    exact hlayered.savepoint_main htracks hcodes op
  by_cases hwrite : h.bt.inTrans = .write
  · obtain ⟨top, rest, hwriter, hcurr⟩ := htracks.exists_top hwrite
    have hlength := hlayered.writing.length_eq
    rw [hwriter, map_cons, length_cons, length_map] at hlength
    obtain rfl : rest = [] := length_eq_zero_iff.mp (by omega)
    cases op with
    | rollback =>
      obtain ⟨store, hcall, hafter, hdurable, _⟩ := rollback_outermost hwriter hcurr hindex
      rw [hcall]
      exact hlayered.ends_main rfl hafter hdurable
    | release =>
      obtain ⟨store, hcall, hafter, hdurable, _⟩ :=
        release_outermost hwriter hcurr hindex (outcome_nil hcodes)
      rw [hcall]
      exact hlayered.ends_main rfl hafter (hdurable.trans (tip_of_writer hwriter).symm)
  · exact hlayered.savepoint_quiet htracks hwrite op _

theorem commitPhaseOne (htracks : Tracks h.env h.bt) (hcodes : h.env.outcomes = []) :
    Layered R (sqlite3BtreeCommitPhaseOne h).2 (layers.ended .release) := by
  obtain ⟨left, hbt⟩ := commitPhaseOne_bt h htracks
  have hmode : (sqlite3BtreeCommitPhaseOne h).2.bt.inTrans = .none := by
    rw [hbt]
    rfl
  have henv : ∀ t, h.bt.mainTxn = some t →
      (sqlite3BtreeCommitPhaseOne h).2.env = (h.env.mdbTxnCommit t).2 := by
    intro t hmain
    simp [sqlite3BtreeCommitPhaseOne, hmain, closeCursors_env]
  by_cases hwrite : h.bt.inTrans = .write
  · obtain ⟨inner, last, hends, hmain⟩ := htracks.exists_bottom hwrite
    have hmem : last.id ∈ h.env.store.writer.map Frame.id := by simp [hends]
    obtain ⟨hafter, hdurable, _⟩ := commit_outermost hends
    have hcommitted := henv last.id hmain
    rw [mdbTxnCommit_writer hmem, if_pos (outcome_nil hcodes)] at hcommitted
    exact hlayered.ends_main hmode (by rw [hcommitted]; exact hafter)
      (by rw [hcommitted]; exact hdurable)
  · rw [Layers.ended_nil (hlayered.stack_nil hwrite)]
    rcases htracks with ⟨_, hmain, _⟩ | ⟨_, reader, hmem, hmain, _⟩ | ⟨hwriting, _⟩
    · have hsame : (sqlite3BtreeCommitPhaseOne h).2.env = h.env := by
        simp [sqlite3BtreeCommitPhaseOne, hmain, closeCursors_env]
      exact .of_ended hmode (by rw [hsame]; exact hlayered.alone hwrite)
        (by rw [hsame]; exact hlayered.durable)
    · have hcommitted := henv reader.id hmain
      rw [mdbTxnCommit_reader hmem] at hcommitted
      exact .of_ended hmode (by rw [hcommitted]; exact hlayered.alone hwrite)
        (by rw [hcommitted]; exact hlayered.durable)
    · exact absurd hwriting hwrite

end

end Layered

variable {env : Env} {h : Handle} {idx : ℕ} {α : Type*} (call : TxnCall) {R : Content → α → Prop}
  {layers : Layers α} (content : Content)

theorem Layered.of_frames {h h' : Handle} (hlayered : Layered R h layers)
    (hmode : h.bt.inTrans = .write) (hmode' : h'.bt.inTrans = .write)
    (hdurable : h'.env.store.durable = h.env.store.durable) {stack : List α}
    (hframes : List.Forall₂ R h'.frames stack) : Layered R h' { layers with stack := stack } where
  durable := hdurable ▸ hlayered.durable
  reading hread := absurd (hmode'.symm.trans hread) (by simp)
  notReading _ := hlayered.notReading (by simp [hmode])
  writing := frames_write hmode' ▸ hframes
  alone hquiet := absurd hmode' hquiet

theorem TxnCall.layered (hreached : Reached h) (hcodes : h.env.outcomes = [])
    (hasserts : call.Asserts h) (hlayered : Layered R h layers) (write : α → DbCall → α) :
    Layered R (call.run h) (layers.step write (.txn call)) := by
  have htracks := hreached.tracks
  -- a call that stays in the write transaction does to the values what `nest` does
  have hstays : ∀ call : TxnCall, h.bt.inTrans = .write → call.Asserts h →
      (DbCall.txn call).Stays h →
      Layered R (call.run h) { layers with stack := nest write layers.stack (.txn call) } := by
    intro call hwrite hasserts hstays
    have hin : InTxn h := ⟨hreached, by simp [hwrite], hcodes⟩
    obtain ⟨hmode, hdurable, _⟩ := call.stays_kept hin hasserts hstays
    have hrelated := hlayered.writing
    rw [← frames_write hwrite] at hrelated
    exact hlayered.of_frames hwrite (hmode.trans hwrite) hdurable
      (call.frames write hin hasserts hstays hrelated)
  cases call with
  | beginTrans wrflag => exact hlayered.beginTrans htracks hcodes write wrflag
  | beginStmt stmt => exact hstays _ hasserts hasserts trivial
  | savepoint op index =>
    rw [Layers.step]
    split_ifs with hends
    · rcases hends with rfl | hstack
      · exact hlayered.savepoint_main htracks hcodes (savepointOp op)
      · exact hlayered.savepoint_outermost htracks hcodes (savepointOp op) index hstack
    · obtain ⟨hindex, hstack⟩ := not_or.mp hends
      have hwrite : h.bt.inTrans = .write := by
        by_contra hquiet
        rw [hlayered.stack_nil hquiet] at hstack
        exact hstack (by simp)
      refine hstays _ hwrite trivial ⟨hindex, fun hmain ↦ hstack ?_⟩
      have hin : InTxn h := ⟨hreached, by simp [hwrite], hcodes⟩
      have hone := hin.frames_main hmain
      rw [frames_write hwrite] at hone
      rw [← hlayered.writing.length_eq, hone, length_singleton]
  | rollback => exact hlayered.savepoint_main htracks hcodes .rollback
  | commitPhaseOne => exact hlayered.commitPhaseOne htracks hcodes
  | commit =>
    have hsame : (sqlite3BtreeCommit h).2 = (sqlite3BtreeCommitPhaseOne h).2 := by
      simp only [sqlite3BtreeCommit, sqlite3BtreeCommitPhaseTwo]
      split_ifs <;> rfl
    rw [TxnCall.run, hsame]
    exact hlayered.commitPhaseOne htracks hcodes

/-! ### Environments that report no failure -/

theorem Env.mdbTxnBegin_codes (hcodes : env.outcomes = []) (parent : Option ℕ) (rdonly : Bool) :
    (env.mdbTxnBegin parent rdonly).2.outcomes = [] := by
  have hspend : env.spend.outcomes = [] := by simp [Env.spend, hcodes]
  unfold Env.mdbTxnBegin
  rw [if_neg (not_not.mpr (outcome_nil hcodes))]
  split
  · exact hspend
  · split_ifs <;> exact hspend
  · split_ifs <;> exact hspend
  · exact hspend

theorem Env.mdbTxnCommit_codes (hcodes : env.outcomes = []) (t : ℕ) :
    (env.mdbTxnCommit t).2.outcomes = [] := by
  have hspend : env.spend.outcomes = [] := by simp [Env.spend, hcodes]
  unfold Env.mdbTxnCommit
  split_ifs
  · exact hspend
  · exact hspend
  · exact hcodes

theorem savepoint_codes (hcodes : h.env.outcomes = []) (op : SavepointOp) (index : ℤ) :
    (sqlite3BtreeSavepoint h op index).2.env.outcomes = [] := by
  unfold sqlite3BtreeSavepoint
  split
  · exact hcodes
  · split
    · exact hcodes
    · cases op with
      | rollback => exact hcodes
      | release => exact mdbTxnCommit_codes hcodes _

theorem commitPhaseOne_codes (hcodes : h.env.outcomes = []) :
    (sqlite3BtreeCommitPhaseOne h).2.env.outcomes = [] := by
  unfold sqlite3BtreeCommitPhaseOne
  split
  · rwa [closeCursors_env]
  · rw [closeCursors_env]
    exact mdbTxnCommit_codes hcodes _

/-- Where LMDB reports no failure it goes on doing so. -/
theorem TxnCall.codes (hcodes : h.env.outcomes = []) : (call.run h).env.outcomes = [] := by
  cases call with
  | beginTrans wrflag =>
    have hbegin := mdbTxnBegin_codes hcodes none (wrflag = 0)
    rw [TxnCall.run, sqlite3BtreeBeginTrans]
    by_cases hstay : h.bt.inTrans = .write ∨ (h.bt.inTrans = .read ∧ wrflag = 0)
    · rwa [if_pos hstay]
    · rw [if_neg hstay]
      rcases hresult : h.env.mdbTxnBegin none (decide (wrflag = 0)) with ⟨rc | txn, env⟩
      all_goals rw [hresult] at hbegin
      · exact hbegin
      · by_cases hflag : wrflag = 0
        · simp only [if_pos hflag]
          exact hbegin
        · simp only [if_neg hflag, beganWrite]
          split
          · exact hbegin
          · exact hbegin
  | beginStmt stmt =>
    have hbegin := mdbTxnBegin_codes hcodes h.bt.currTxn false
    simp only [TxnCall.run, sqlite3BtreeBeginStmt]
    split
    · rename_i hresult
      rwa [hresult] at hbegin
    · rename_i hresult
      rwa [hresult] at hbegin
  | savepoint op index => exact savepoint_codes hcodes (savepointOp op) index
  | rollback => exact savepoint_codes hcodes .rollback (-1)
  | commitPhaseOne => exact commitPhaseOne_codes hcodes
  | commit =>
    simp only [TxnCall.run, sqlite3BtreeCommit, sqlite3BtreeCommitPhaseTwo]
    split_ifs
    · exact commitPhaseOne_codes hcodes
    · exact commitPhaseOne_codes hcodes

theorem DbCall.codes (ctx : BtreeContext) (call : DbCall) (htracks : Tracks h.env h.bt)
    (hasserts : call.Asserts h) (hcodes : h.env.outcomes = []) :
    (call.run ctx h).env.outcomes = [] := by
  rcases call.cases ctx htracks hasserts with ⟨txn, rfl⟩ | ⟨flags, rfl, hrewrites⟩ |
    ⟨txn, hcurr, hmakes⟩
  · exact txn.codes hcodes
  · exact hrewrites.codes hcodes
  · exact hmakes.codes hcodes

/-! ### Meta values -/

/-- The meta value with an index: the one under its key, and 0 without one. -/
def Content.metaValue (content : Content) (idx : ℕ) : ℕ :=
  ((content.main.get (u32Bytes idx)).map ofU32Bytes).getD 0

/-- The meta values after a call: only `sqlite3BtreeUpdateMeta` changes one. -/
def metaAfter (values : ℕ → ℕ) : DbCall → ℕ → ℕ
  | .updateMeta idx iMeta => Function.update values idx iMeta
  | _ => values

def metaLayers (calls : List DbCall) : Layers (ℕ → ℕ) :=
  calls.foldl (Layers.step metaAfter) ⟨fun _ ↦ 0, none, []⟩

/-- The index of a meta value other than the number of the largest root. -/
def IsMeta (idx : ℕ) : Prop := 0 < idx ∧ idx < NUMMETA ∧ idx ≠ BTREE_LARGEST_ROOT_PAGE

structure HasMeta (content : Content) (values : ℕ → ℕ) : Prop where
  root : RootInv content
  values : ∀ idx, IsMeta idx → content.metaValue idx = values idx

theorem Content.metaValue_congr {content content' : Content}
    (hget : content'.main.get (u32Bytes idx) = content.main.get (u32Bytes idx)) :
    content'.metaValue idx = content.metaValue idx := by
  rw [Content.metaValue, hget, Content.metaValue]

theorem Content.metaValue_put (key data : Bytes) (idx : ℕ) : (content.put key data).metaValue idx =
      if u32Bytes idx = key then ofU32Bytes data else content.metaValue idx := by
  rw [Content.metaValue, main_put, Db.get_put]
  split_ifs
  · rfl
  · rfl

theorem Content.metaValue_opened (root : ℕ) (integerKey dupSort : Bool) (idx : ℕ) :
    (content.opened root integerKey dupSort).metaValue idx = content.metaValue idx := by
  unfold Content.opened
  split_ifs
  · rfl
  · refine metaValue_congr ?_
    rw [main_create, Db.get_put, if_neg (u32Bytes_ne_tabName _ _)]

theorem IsMeta.fits (hidx : IsMeta idx) : idx < 2 ^ 32 :=
  hidx.2.1.trans (by decide)

theorem CreateUpdate.hasMeta {update : Write} (hupdate : CreateUpdate update) {content : Content}
    {values : ℕ → ℕ} (hmeta : HasMeta content values) : HasMeta (update content) values := by
  refine ⟨hupdate.rootInv hmeta.root, fun idx hidx ↦ ?_⟩
  rw [← hmeta.values idx hidx]
  cases hupdate with
  | first => exact metaValue_opened content 1 true false idx
  | @named root _ _ intKey => exact metaValue_opened content root intKey (!intKey) idx
  | number value =>
    rw [metaValue_put, if_neg]
    intro hsame
    exact hidx.2.2 (u32Bytes_inj hidx.fits (by decide) hsame)

section

variable {ctx : BtreeContext} {content : Content} {values : ℕ → ℕ}

/-- A write to a database keeps the meta values, when it is one of the unnamed database that keeps
what is not under a key of eight bytes. -/
theorem HasMeta.rewrite_values (hmeta : HasMeta content values) {name : DbName}
    {update : MdbTable → MdbTable} (hname : name = .unnamed → ∀ key : Bytes, key.length ≠ 8 →
      (Db.ofTable (update content.main.table)).get key = content.main.get key) {idx : ℕ}
    (hidx : IsMeta idx) : (content.rewrite name update).metaValue idx = values idx := by
  rw [← hmeta.values idx hidx]
  refine metaValue_congr ?_
  cases name with
  | unnamed =>
    have hmain : (content.rewrite .unnamed update).main = .ofTable (update content.main.table) := by
      rw [Content.main, Content.rewrite]
      simp [hmeta.root.main_eq]
    rw [hmain]
    exact hname rfl _ (by simp [u32Bytes])
  | tab root =>
    have hmain : (content.rewrite (.tab root) update).main = content.main := by
      simp [Content.main, Content.rewrite]
    rw [hmain]

/-- Dropping the empty unnamed database keeps the meta values: there are none. -/
theorem HasMeta.drop_unnamed_values (hmeta : HasMeta content values)
    (hempty : content.main.entries = []) {idx : ℕ} (hidx : IsMeta idx) :
    (content.drop .unnamed).metaValue idx = values idx := by
  rw [← hmeta.values idx hidx]
  refine metaValue_congr ?_
  have hmain : (content.drop .unnamed).main =
      .empty content.main.integerKey content.main.dupSort := by
    simp [Content.drop, Content.main]
  rw [hmain, Db.get, Db.get, hempty]
  rfl

theorem TopUpdate.hasMeta {call : DbCall} {update : Write} {h : Handle}
    (hupdate : TopUpdate ctx content call update) (hasserts : call.Asserts h)
    (hmeta : HasMeta content values) : HasMeta (update content) (metaAfter values call) := by
  refine ⟨hupdate.rootInv hasserts hmeta.root, fun idx hidx ↦ ?_⟩
  have hinv := hmeta.root
  cases hupdate with
  | drop hname =>
    rcases hname with ⟨rfl, hempty⟩ | rfl
    · exact hmeta.drop_unnamed_values hempty hidx
    · rw [metaAfter, ← hmeta.values idx hidx]
      refine metaValue_congr ?_
      have hmain : ∀ root, (content.drop (.tab root)).main = content.main.del (tabName root) := by
        intro root
        simp [Content.drop, Content.main]
      rw [hmain, Db.get_del _ (u32Bytes_ne_tabName _ _)]
      all_goals simp
  | clear hname =>
    rcases hname with ⟨rfl, hempty⟩ | rfl
    · exact hmeta.drop_unnamed_values hempty hidx
    · rw [metaAfter, ← hmeta.values idx hidx]
      refine metaValue_congr ?_
      simp [Content.clear, Content.main]
      all_goals simp
  | put idx' iMeta =>
    obtain ⟨_, _, hlt, hfits⟩ := hasserts
    rw [metaValue_put, metaAfter, Function.update_apply]
    by_cases hsame : idx = idx'
    · rw [if_pos (by rw [hsame]), if_pos hsame, ofU32Bytes_u32Bytes hfits]
    · have hkey : u32Bytes idx ≠ u32Bytes idx' := fun heq ↦
        hsame (u32Bytes_inj hidx.fits (hlt.trans (by decide)) heq)
      rw [if_neg hkey, if_neg hsame, hmeta.values idx hidx]
  | insert rowid data hname | insertUnnamed rowid data =>
    exact hmeta.rewrite_values (fun _ _ hkey ↦ hinv.mainDb.get_inserted ctx rowid data hkey) hidx
  | delete rowid hname =>
    refine hmeta.rewrite_values (fun _ _ _ ↦ ?_) hidx
    rw [hinv.mainDb.deleted, hinv.mainDb.ofTable_table]
  | writeTable root update =>
    rw [metaAfter, ← hmeta.values idx hidx]
    · refine metaValue_congr ?_
      simp [Content.writeTable, Content.main]
    all_goals simp

end

variable {h : Handle} {layers : Layers (ℕ → ℕ)} {txn : ℕ} (ctx : BtreeContext)

/-- `sqlite3BtreeUpdateMeta` puts the value under its key. -/
theorem updateMeta_store (hcurr : h.bt.currTxn = some txn) (hcodes : h.env.outcomes = [])
    (idx iMeta : ℕ) : ((DbCall.updateMeta idx iMeta).run ctx h).env.store =
      h.env.store.modifyAt txn (Content.put (u32Bytes idx) (u32Bytes iMeta)) := by
  simp [DbCall.run, sqlite3BtreeUpdateMeta, hcurr, Env.mdbPut, if_pos (outcome_nil hcodes),
    modify_store, spend_store]

/-- A call that moves no transaction updates the current content as it is to update its meta
values. -/
theorem MakesUpdate.hasMeta {ctx : BtreeContext} {call : DbCall}
    (hmakes : MakesUpdate ctx h call txn (call.run ctx h)) (hcurr : h.bt.currTxn = some txn)
    (hcodes : h.env.outcomes = []) (hasserts : call.Asserts h) {values : ℕ → ℕ}
    (hmeta : HasMeta h.visible values) :
    ∃ update : Write, HasMeta (update h.visible) (metaAfter values call) ∧
      (call.run ctx h).env.store = h.env.store.modifyAt txn update := by
  rcases hmakes.store with hsame | ⟨update, hupdate, hstore⟩
  · have hunchanged : metaAfter values call = values →
        ∃ update : Write, HasMeta (update h.visible) (metaAfter values call) ∧
          (call.run ctx h).env.store = h.env.store.modifyAt txn update := by
      intro hvalues
      refine ⟨fun content ↦ content, by rw [hvalues]; exact hmeta, ?_⟩
      rw [hsame, modifyAt_eq_self _ fun _ _ _ ↦ rfl]
    cases call with
    | updateMeta idx iMeta =>
      have hput : TopUpdate ctx h.visible (.updateMeta idx iMeta) _ := .put idx iMeta
      exact ⟨_, hput.hasMeta hasserts hmeta, updateMeta_store ctx hcurr hcodes idx iMeta⟩
    | _ => exact hunchanged rfl
  · exact ⟨update, hupdate.hasMeta hasserts hmeta, hstore⟩

theorem DbCall.layered (call : DbCall) (hreached : Reached h) (hcodes : h.env.outcomes = [])
    (hasserts : call.Asserts h) (hlayered : Layered HasMeta h layers) :
    Layered HasMeta (call.run ctx h) (layers.step metaAfter call) := by
  by_cases htxn : ∃ txn, call = .txn txn
  · obtain ⟨txn, rfl⟩ := htxn
    exact txn.layered hreached hcodes hasserts hlayered metaAfter
  have hother : ∀ txn, call ≠ .txn txn := fun txn hcall ↦ htxn ⟨txn, hcall⟩
  have hwrite := hasserts.write hother
  have hstep : layers.step metaAfter call =
      { layers with stack := nest metaAfter layers.stack call } := by
    cases call with
    | txn call => exact absurd rfl (hother call)
    | _ => rfl
  have hrelated := hlayered.writing
  rw [← frames_write hwrite] at hrelated
  obtain ⟨hmode, hdurable, hframes⟩ := DbCall.writes_frames hreached hasserts hother
    (fun _ _ ↦ rfl) (fun _ hkind _ _ hmeta ↦ hkind.hasMeta hmeta)
    (fun _ _ hcurr hmakes hmeta ↦ hmakes.hasMeta hcurr hcodes hasserts hmeta) hrelated
  rw [hstep]
  exact hlayered.of_frames hwrite hmode hdurable hframes

structure MetaRun (h : Handle) (layers : Layers (ℕ → ℕ)) : Prop where
  reached : Reached h
  codes : h.env.outcomes = []
  layered : Layered HasMeta h layers

theorem MetaRun.opened (currentIsOp : Bool) (id pBt : ℕ) :
    MetaRun (.opened (.created .fresh [] currentIsOp) id pBt) (metaLayers []) where
  reached := .opened [] currentIsOp id pBt
  codes := rfl
  layered := by
    refine .of_ended rfl rfl ⟨RootInv.fresh, fun idx _ ↦ ?_⟩
    have hmain : Content.fresh.main = .empty false false := by simp [Content.fresh, Content.main]
    have hstore : (Handle.opened (.created .fresh [] currentIsOp) id pBt).env.store.durable =
      .fresh := rfl
    rw [hstore, Content.metaValue, hmain]
    rfl

theorem MetaRun.of_calls (hrun : MetaRun h layers) {calls : List DbCall}
    (hcalls : Meets (DbCall.run ctx) (fun h call ↦ call.Asserts h) h calls) :
    MetaRun (calls.foldl (DbCall.run ctx) h) (calls.foldl (Layers.step metaAfter) layers) := by
  induction calls generalizing h layers with
  | nil => exact hrun
  | cons call rest ih =>
    obtain ⟨hasserts, hrest⟩ := hcalls
    exact ih ⟨call.reached ctx hrun.reached hasserts,
      call.codes ctx hrun.reached.tracks hasserts hrun.codes,
      call.layered ctx hrun.reached hrun.codes hasserts hrun.layered⟩ hrest

/-- `sqlite3BtreeGetMeta` reads the meta value of the content it sees. -/
theorem getMeta_visible (hin : h.bt.currTxn ≠ none) (hcodes : h.env.outcomes = []) {idx : ℕ}
    (hidx : 0 < idx) : ∃ h', sqlite3BtreeGetMeta h idx = some (h.visible.metaValue idx, h') := by
  obtain ⟨txn, hcurr⟩ := Option.ne_none_iff_exists'.mp hin
  have hvisible : h.visible = h.env.seen txn := by rw [Handle.visible, hcurr]
  rw [sqlite3BtreeGetMeta, if_neg hidx.ne', hcurr, Option.map_some, hvisible, Content.metaValue,
    Env.mdbGet, if_neg (not_not.mpr (outcome_nil hcodes))]
  cases (h.env.seen txn).main.get (u32Bytes idx) with
  | none | some data => exact ⟨_, rfl⟩

/-- Every meta value but the number of the largest root is that of the last
`sqlite3BtreeUpdateMeta` that the current transaction sees, and such a call changes no table.
Assumes: the calls are made as they assert. -/
theorem meta_values_independent (ctx : BtreeContext) (currentIsOp : Bool) (id pBt : ℕ)
    (calls : List DbCall) (h : Handle)
    (hcalls : Meets (DbCall.run ctx) (fun h call ↦ call.Asserts h)
      (.opened (.created .fresh [] currentIsOp) id pBt) calls)
    (hstate : h = calls.foldl (DbCall.run ctx) (.opened (.created .fresh [] currentIsOp) id pBt)) :
    (∀ idx, IsMeta idx → h.bt.inTrans ≠ .none →
        ∃ h', sqlite3BtreeGetMeta h idx = some ((metaLayers calls).current idx, h')) ∧
      ∀ idx iMeta, (DbCall.updateMeta idx iMeta).Asserts h → ∀ root,
        ((DbCall.updateMeta idx iMeta).run ctx h).visible.db (.tab root) =
          h.visible.db (.tab root) ∧
        ((DbCall.updateMeta idx iMeta).run ctx h).visible.main.get (tabName root) =
          h.visible.main.get (tabName root) := by
  have hrun : MetaRun h (metaLayers calls) := by
    rw [hstate]
    exact (MetaRun.opened currentIsOp id pBt).of_calls ctx hcalls
  have htracks := hrun.reached.tracks
  constructor
  · intro idx hidx hin
    have hcurr : h.bt.currTxn ≠ none := fun hnone ↦ hin (htracks.currTxn_eq_none_iff.mp hnone)
    obtain ⟨h', hget⟩ := getMeta_visible hcurr hrun.codes hidx.1
    exact ⟨h', by rw [hget, (hrun.layered.visible htracks).values idx hidx]⟩
  · intro idx iMeta hasserts root
    obtain ⟨top, rest, _, hcurr⟩ := htracks.exists_top hasserts.1
    have hstore := updateMeta_store ctx hcurr hrun.codes idx iMeta
    have hbt : ((DbCall.updateMeta idx iMeta).run ctx h).bt = h.bt := by
      simp [DbCall.run, sqlite3BtreeUpdateMeta, hcurr]
    rw [visible_modifyAt htracks hasserts.1 hcurr hbt hstore, put_tab, main_put,
      Db.get_put, if_neg (u32Bytes_ne_tabName idx root).symm]
    exact ⟨rfl, rfl⟩

/-- A value that a statement wrote is gone when the statement is rolled back, and a row in the
unnamed database is in nobody's way. -/
theorem meta_values_statement :
    let calls : List DbCall := [.txn (.beginTrans 1), .updateMeta 1 7, .insertUnnamed 1 [9],
      .txn (.beginStmt 1), .updateMeta 1 8, .txn (.savepoint 2 0)]
    ∃ h', sqlite3BtreeGetMeta
      (calls.foldl (DbCall.run ⟨false, .fnv, ⟨[]⟩, 4, fun _ ↦ 0, fun _ ↦ 0, false⟩)
        (.opened (.created .fresh [] true) 0 0)) 1 = some (7, h') := by
  intro calls
  refine (meta_values_independent _ true 0 0 calls _ ?_ rfl).1 1 ⟨by decide, by decide, by decide⟩
    (by decide)
  exact ⟨trivial, ⟨rfl, by decide, by decide, by decide⟩, rfl, rfl,
    ⟨rfl, by decide, by decide, by decide⟩, trivial, trivial⟩

end LumoSQL
