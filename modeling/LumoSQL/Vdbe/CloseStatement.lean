import LumoSQL.Vdbe.Connection

/-!
# Closing a statement over several databases

`sqlite3VdbeCloseStatement` closes a statement on every attached Btree, not only on those where
`OP_Transaction` began a statement transaction for it. On any other Btree with a transaction the
same `sqlite3BtreeSavepoint` calls end whatever is current there.

`closeStatement_frame_iff` says exactly when the Btrees outside the statement are left alone: the
call does nothing, or none of them has a transaction and no rolled-back Btree of the statement
commits its main transaction under their eyes. `closed_currTxn_ne` is the reason for the first half:
a Btree with a transaction loses its current one. `closed_durable` is the reason for the second: the
release that follows a rollback commits the main transaction when it is next on the stack.
-/

namespace LumoSQL

open Foundation List Option SnapshotStore

/-- The body of the loop of `sqlite3VdbeCloseStatement`: the first error is kept. -/
def closeCall (eOp : SavepointOp) (iSavepoint : ℤ) (rc : Rc) (h : Handle) : Rc × Handle :=
  let closed := closeStatementBtree h eOp iSavepoint
  (if rc = .ok then closed.1 else rc, closed.2)

def sqlite3VdbeCloseStatement (vtabSavepoint : SavepointOp → Rc) (db : Sqlite3) (p : Vdbe)
    (eOp : SavepointOp) : Rc × Sqlite3 × Vdbe :=
  if db.nStatement ≠ 0 ∧ p.iStatement ≠ 0 then
    let closed := forEachDb (closeCall eOp (p.iStatement - 1)) .ok db.world db.aDb
    let rolled := if closed.1 = .ok ∧ eOp = .rollback then vtabSavepoint .rollback else closed.1
    (if rolled = .ok then vtabSavepoint .release else rolled,
      { db with
        world := closed.2.1
        aDb := closed.2.2
        nStatement := db.nStatement - 1
        nDeferredCons := if eOp = .rollback then p.nStmtDefCons else db.nDeferredCons },
      { p with iStatement := 0 })
  else (.ok, db, p)

/-! ### What closing does to one Btree -/

section

variable {h : Handle} {index : ℤ} {top next : Frame Content} {rest : List (Frame Content)}

/-- Without a transaction there is nothing to close. -/
theorem closed_idle (hcurr : h.bt.currTxn = none) (eOp : SavepointOp) (index : ℤ) :
    closeStatementBtree h eOp index = (.ok, h) := by
  cases eOp <;> simp [closeStatementBtree, savepoint_idle hcurr]

theorem closed_reading {reader : Frame Content} (hmem : reader ∈ h.env.store.readers)
    (hmain : h.bt.mainTxn = some reader.id) (hcurr : h.bt.currTxn = some reader.id)
    (eOp : SavepointOp) (index : ℤ) :
    closeStatementBtree h eOp index = (.ok, { h with
      env := { h.env with store := h.env.store.dropReader reader.id }
      bt := h.bt.ended }) := by
  cases eOp with
  | release =>
    simp only [closeStatementBtree, reduceCtorEq, if_false, if_true]
    rw [savepoint_reading hmem hmain hcurr]
  | rollback =>
    simp only [closeStatementBtree, if_true, savepoint_reading hmem hmain hcurr .rollback]
    exact savepoint_idle rfl .release index

/-- Assumes: a writing Btree. One call leaves a current transaction from further out, or none. -/
theorem savepoint_currTxn_mem (hwriter : h.env.store.writer = top :: rest)
    (hcurr : h.bt.currTxn = some top.id) (op : SavepointOp) (hindex : index ≠ -1) :
    ∀ t, (sqlite3BtreeSavepoint h op index).2.bt.currTxn = some t → t ∈ rest.map Frame.id := by
  intro t ht
  rw [(savepoint_pops hwriter hcurr op hindex).2] at ht
  cases rest with
  | nil => exact absurd ht (by simp [savepointHandles, hindex, Btree.ended])
  | cons next rest =>
    have hnext : next.id = t := by simpa [savepointHandles, hindex] using ht
    simp [hnext]

/-- Assumes: a Btree with a transaction. Closing a statement takes its current transaction away. -/
theorem closed_currTxn_ne (htracks : Tracks h.env h.bt) (htxn : h.bt.inTrans ≠ .none)
    (eOp : SavepointOp) (hindex : index ≠ -1) :
    (closeStatementBtree h eOp index).2.bt.currTxn ≠ h.bt.currTxn := by
  rcases htracks with ⟨hin, _, _⟩ | ⟨_, reader, hmem, hmain, hcurr⟩ | ⟨hin, hopen, hmain, hcurr⟩
  · exact absurd hin htxn
  · rw [closed_reading hmem hmain hcurr, hcurr]
    exact (some_ne_none _).symm
  · have htracks : Tracks h.env h.bt := .writing hin hopen hmain hcurr
    obtain ⟨top, rest, hwriter, htop⟩ := htracks.exists_top hin
    have hfresh : top.id ∉ rest.map Frame.id := by
      have hdistinct := h.env.store.writer_distinct
      rw [hwriter, map_cons] at hdistinct
      exact (nodup_cons.mp hdistinct).1
    rw [htop]
    intro hsame
    apply hfresh
    cases eOp with
    | release => exact savepoint_currTxn_mem hwriter htop .release hindex _ hsame
    | rollback =>
      -- The rollback pops the top; the release that follows only pops further.
      have hok : (sqlite3BtreeSavepoint h .rollback index).1 = .ok := by
        rw [savepoint_rollback_inner hwriter htop hindex]
      have htracks' := tracks_savepoint h .rollback index htracks
      have hids := (savepoint_pops hwriter htop .rollback hindex).1
      have hmem := savepoint_currTxn_mem hwriter htop .rollback hindex
      simp only [closeStatementBtree, if_true, if_pos hok] at hsame
      rcases htracks' with ⟨_, _, hcurr'⟩ | ⟨_, reader, hreader, hmain', hcurr'⟩ |
        ⟨hin', hopen', hmain', hcurr'⟩
      · rw [savepoint_idle hcurr'] at hsame
        exact absurd (hcurr'.symm.trans hsame) (by simp)
      · rw [savepoint_reading hreader hmain' hcurr'] at hsame
        exact absurd hsame (by simp [Btree.ended])
      · have htracks' : Tracks _ _ := .writing hin' hopen' hmain' hcurr'
        obtain ⟨top', rest', hwriter', htop'⟩ := htracks'.exists_top hin'
        have hdeep := savepoint_currTxn_mem hwriter' htop' .release hindex _ hsame
        rw [← hids, hwriter']
        exact .tail _ hdeep

/-- Releasing the innermost transaction makes its content durable when it is the outermost one too
and LMDB commits it. -/
theorem release_durable (hwriter : h.env.store.writer = top :: rest)
    (hcurr : h.bt.currTxn = some top.id) (hindex : index ≠ -1) :
    (sqlite3BtreeSavepoint h .release index).2.env.store.durable =
      if rest = [] ∧ h.env.outcome = .success then top.content else h.env.store.durable := by
  rw [savepoint_release_inner hwriter hcurr hindex, Env.mdbTxnCommit_writer (by simp [hwriter])]
  by_cases hok : h.env.outcome = .success
  · rw [if_pos hok]
    simp [(commit_top hwriter).2.1, hok, List.isEmpty_iff]
  · rw [if_neg hok]
    simp [(abort_top hwriter).2.1, hok]

/-- Assumes: a Btree in a nested transaction. Closing a statement changes the durable content
only by a rollback next to the main transaction, whose content the release that follows commits. -/
theorem closed_durable (hwriter : h.env.store.writer = top :: next :: rest)
    (hcurr : h.bt.currTxn = some top.id) (hindex : index ≠ -1) (eOp : SavepointOp) :
    (closeStatementBtree h eOp index).2.env.store.durable =
      if eOp = .rollback ∧ rest = [] ∧ h.env.outcome = .success then next.content
      else h.env.store.durable := by
  cases eOp with
  | release =>
    have hreleased := release_durable hwriter hcurr hindex
    simpa [closeStatementBtree] using hreleased
  | rollback =>
    obtain ⟨store, hrolled, hwriter', hdurable, _⟩ := rollback_nested hwriter hcurr hindex
    have hreleased := release_durable
      (h := { h with env := { h.env with store := store }
                     bt := { h.bt with currTxn := some next.id } }) hwriter' rfl hindex
    simp only [closeStatementBtree, if_true, hrolled]
    rw [hreleased, hdurable]
    simp [Env.outcome]

end

/-! ### The whole connection -/

/-- A statement transaction is open on the Btrees in `S`: they are writing in a transaction nested
in their main one. -/
def StatementOn (db : Sqlite3) (S : Set ℕ) : Prop :=
  ∀ p, some p ∈ db.aDb → p.id ∈ S → p.inTrans = .write ∧ p.currTxn ≠ p.mainTxn

/-- The Btrees outside `S` keep their transactions, what they see and their durable content. -/
def OthersUnchanged (S : Set ℕ) (db db' : Sqlite3) : Prop :=
  ∀ (i : ℕ) (q : Btree), db.aDb[i]? = some (some q) → q.id ∉ S →
    ∃ q', db'.aDb[i]? = some (some q') ∧ q'.mainTxn = q.mainTxn ∧ q'.currTxn = q.currTxn ∧
      q'.inTrans = q.inTrans ∧ (db'.world.handle q').visible = (db.world.handle q).visible ∧
      (db'.world.env q.pBt).store.durable = (db.world.env q.pBt).store.durable

/-- The release after the rollback of a statement reaches the main transaction of a Btree and
commits content that is not durable yet. -/
def CommitsMain (env : Env) (p : Btree) : Prop :=
  ∃ t m, p.currTxn = some t ∧ p.mainTxn = some m ∧ env.store.parent t = some m ∧
    env.outcome = .success ∧ env.seen m ≠ env.store.durable

/-- When closing a statement on the Btrees in `S` leaves the others alone: it does nothing, or the
others have no transaction and, when it is rolled back, no Btree of `S` on one of their environments
commits its main transaction. -/
def ClosesAlone (S : Set ℕ) (db : Sqlite3) (p : Vdbe) (eOp : SavepointOp) : Prop :=
  db.nStatement = 0 ∨ p.iStatement = 0 ∨
    ∀ q, some q ∈ db.aDb → q.id ∉ S → q.inTrans = .none ∧
      (eOp = .rollback → ∀ a, some a ∈ db.aDb → a.id ∈ S → a.pBt = q.pBt →
        ¬ CommitsMain (db.world.env a.pBt) a)

section

variable {S : Set ℕ} {db : Sqlite3} {index : ℤ}

theorem closeCall_confined (eOp : SavepointOp) (index : ℤ) (rc : Rc) (h : Handle)
    (htracks : Tracks h.env h.bt) : Confined h (closeCall eOp index rc h).2 :=
  closeStatementBtree_confined h eOp index htracks

/-- Assumes: a Btree in a nested transaction. What closing a statement on it makes of the durable
content, in terms of its handles. -/
theorem closed_durable_eq_iff {h : Handle} (htracks : Tracks h.env h.bt)
    (hwrite : h.bt.inTrans = .write) (hnested : h.bt.currTxn ≠ h.bt.mainTxn)
    (hindex : index ≠ -1) (eOp : SavepointOp) :
    (closeStatementBtree h eOp index).2.env.store.durable = h.env.store.durable ↔
      (eOp = .rollback → ¬ CommitsMain h.env h.bt) := by
  obtain ⟨top, rest, hwriter, hcurr⟩ := htracks.exists_top hwrite
  obtain ⟨inner, last, hends, hmain⟩ := htracks.exists_bottom hwrite
  cases rest with
  | nil =>
    -- A single frame would be both handles.
    have hlast : last = top := by
      rw [hends] at hwriter
      simpa using congrArg List.getLast? hwriter
    exact absurd (by rw [hcurr, hmain, hlast]) hnested
  | cons next rest =>
    have hparent := parent_top hwriter
    have hseen : h.env.seen next.id = next.content := Env.seen_second hwriter
    rw [closed_durable hwriter hcurr hindex eOp]
    have hcommits : CommitsMain h.env h.bt ↔
        rest = [] ∧ h.env.outcome = .success ∧ next.content ≠ h.env.store.durable := by
      constructor
      · rintro ⟨t, m, ht, hm, hroot, hok, hne⟩
        obtain rfl : t = top.id := some.inj (ht.symm.trans hcurr)
        obtain rfl : m = next.id := some.inj (hroot.symm.trans hparent)
        have hid : last.id = next.id := some.inj (hmain.symm.trans hm)
        exact ⟨eq_nil_of_last hwriter hends hid, hok, hseen ▸ hne⟩
      · rintro ⟨rfl, hok, hne⟩
        refine ⟨top.id, next.id, hcurr, ?_, hparent, hok, hseen.symm ▸ hne⟩
        rw [hends] at hwriter
        have hlast : last = next := by simpa using congrArg List.getLast? hwriter
        rw [hmain, hlast]
    rw [hcommits]
    by_cases hcase : eOp = .rollback ∧ rest = [] ∧ h.env.outcome = .success
    · rw [if_pos hcase]
      constructor
      · intro hsame _ hcommit
        exact hcommit.2.2 hsame
      · intro hnot
        by_contra hne
        exact hnot hcase.1 ⟨hcase.2.1, hcase.2.2, hne⟩
    · rw [if_neg hcase]
      exact ⟨fun _ hop hcommit ↦ hcase ⟨hop, hcommit.1, hcommit.2.1⟩, fun _ ↦ rfl⟩

/-- Assumes: a coherent connection whose Btrees outside `S` have no transaction, and a statement
open on those in `S`. What closing it makes of the durable content of an environment depends only on
the Btree of `S` there. -/
theorem closeDbs_durable_iff (hcoherent : Coherent db.world db.aDb) (hopen : StatementOn db S)
    (hothers : ∀ q, some q ∈ db.aDb → q.id ∉ S → q.inTrans = .none) (hindex : index ≠ -1)
    (eOp : SavepointOp) (e : ℕ) :
    ((forEachDb (closeCall eOp index) .ok db.world db.aDb).2.1.env e).store.durable =
        (db.world.env e).store.durable ↔
      (eOp = .rollback → ∀ a, some a ∈ db.aDb → a.id ∈ S → a.pBt = e →
        ¬ CommitsMain (db.world.env a.pBt) a) := by
  have hidle : ∀ q, some q ∈ db.aDb → q.id ∉ S → q.currTxn = none := fun q hq hout ↦
    (hcoherent.tracks q hq).currTxn_eq_none_iff.mpr (hothers q hq hout)
  by_cases hmember : ∃ a, some a ∈ db.aDb ∧ a.id ∈ S ∧ a.pBt = e
  · obtain ⟨a, ha, hin, rfl⟩ := hmember
    obtain ⟨hwrite, hnested⟩ := hopen a ha hin
    have htracks := hcoherent.tracks a ha
    obtain ⟨front, back, hsplit⟩ := append_of_mem ha
    have hpairs := hcoherent.apart
    rw [hsplit, pairwise_append, pairwise_cons] at hpairs
    have hsub : ∀ q, some q ∈ front ++ back → some q ∈ db.aDb := by
      intro q hq
      rw [hsplit]
      rcases mem_append.mp hq with hfront | hback
      · exact mem_append_left _ hfront
      · exact mem_append_right _ (.tail _ hback)
    -- Another Btree of the statement on this environment would have to write as well.
    have hout : ∀ q, some q ∈ front ++ back → q.pBt = a.pBt → q.id ∉ S := by
      intro q hq hsame hqin
      have hqmem := hsub q hq
      have hqtracks := hcoherent.tracks q hqmem
      rw [hsame] at hqtracks
      obtain ⟨hqwrite, _⟩ := hopen q hqmem hqin
      rcases mem_append.mp hq with hfront | hback
      · have hapart := hpairs.2.2 _ hfront _ (.head _) q a rfl rfl hsame
        exact hqtracks.not_both_write htracks hapart hqwrite hwrite
      · have hapart := hpairs.2.1.1 _ hback a q rfl rfl hsame.symm
        exact htracks.not_both_write hqtracks hapart hwrite hqwrite
    have hquiet : ∀ rc h, some h.bt ∈ front ++ back → h.bt.pBt = a.pBt →
        (closeCall eOp index rc h).2.env = h.env := by
      intro rc h hmem hsame
      rw [closeCall, closed_idle (hidle h.bt (hsub h.bt hmem) (hout h.bt hmem hsame))]
    obtain ⟨rc, cursor, henv⟩ := forEachDb_env_single (closeCall eOp index)
      (fun rc h ↦ closeStatementBtree_place h eOp index) hquiet .ok db.world
    rw [hsplit, henv]
    refine (closed_durable_eq_iff (h := ⟨db.world.env a.pBt, a, cursor⟩) htracks hwrite hnested
      hindex eOp).trans ?_
    constructor
    · intro hself hop b hb hbin hsame
      have hba : b = a := by
        rcases mem_append.mp hb with hfront | hback
        · exact absurd hbin (hout b (mem_append_left _ hfront) hsame)
        · rcases mem_cons.mp hback with heq | hback
          · exact some.inj heq
          · exact absurd hbin (hout b (mem_append_right _ hback) hsame)
      rw [hba]
      exact hself hop
    · intro hall hop
      exact hall hop a (hsplit ▸ ha) hin rfl
  · have hquiet : ∀ rc h, some h.bt ∈ db.aDb → h.bt.pBt = e →
        (closeCall eOp index rc h).2.env = h.env := by
      intro rc h hmem hsame
      rw [closeCall, closed_idle (hidle h.bt hmem fun hin ↦ hmember ⟨h.bt, hmem, hin, hsame⟩)]
    rw [forEachDb_env_of_idle (closeCall eOp index) e (fun rc h _ ↦
      closeStatementBtree_place h eOp index) hquiet]
    exact ⟨fun _ _ a ha hin hsame ↦ absurd ⟨a, ha, hin, hsame⟩ hmember, fun _ ↦ rfl⟩

end

/-- Assumes: a coherent connection and a statement open on the Btrees in `S`. Closing it, by either
operation and whatever LMDB reports, leaves the transactions and contents of all other Btrees as
they were exactly when it does nothing, or the others have no transaction and no Btree of `S` on one
of their environments commits its main transaction. -/
theorem closeStatement_frame_iff (vtabSavepoint : SavepointOp → Rc) (S : Set ℕ) (db : Sqlite3)
    (p : Vdbe) (eOp : SavepointOp) (hcoherent : Coherent db.world db.aDb)
    (hopen : StatementOn db S) :
    OthersUnchanged S db (sqlite3VdbeCloseStatement vtabSavepoint db p eOp).2.1 ↔
      ClosesAlone S db p eOp := by
  by_cases hguard : db.nStatement ≠ 0 ∧ p.iStatement ≠ 0
  · have hindex : (p.iStatement : ℤ) - 1 ≠ -1 := by omega
    have hslots := fun {i : ℕ} {q : Btree} (hslot : db.aDb[i]? = some (some q)) ↦
      forEachDb_slots hcoherent (closeCall_confined eOp (p.iStatement - 1)) .ok hslot
    simp only [sqlite3VdbeCloseStatement, if_pos hguard]
    constructor
    · intro hunchanged
      refine .inr (.inr ?_)
      have hothers : ∀ q, some q ∈ db.aDb → q.id ∉ S → q.inTrans = .none := by
        intro q hq hout
        obtain ⟨i, hslot⟩ := mem_iff_getElem?.mp hq
        obtain ⟨rc, env, cursor, htracks, hcalled⟩ := hslots hslot
        obtain ⟨q', hslot', _, hcurr, _⟩ := hunchanged i q hslot hout
        have hq' := some.inj (some.inj (hcalled.symm.trans hslot'))
        by_contra htxn
        rw [← hq'] at hcurr
        exact closed_currTxn_ne (h := ⟨env, q, cursor⟩) htracks htxn eOp hindex hcurr
      intro q hq hout
      obtain ⟨i, hslot⟩ := mem_iff_getElem?.mp hq
      obtain ⟨q', _, _, _, _, _, hdurable⟩ := hunchanged i q hslot hout
      exact ⟨hothers q hq hout,
        (closeDbs_durable_iff hcoherent hopen hothers hindex eOp q.pBt).mp hdurable⟩
    · intro halone
      rcases halone with hnone | hnone | halone
      · exact absurd hnone hguard.1
      · exact absurd hnone hguard.2
      · intro i q hslot hout
        have hq := mem_of_getElem? hslot
        obtain ⟨rc, env, cursor, htracks, hcalled⟩ := hslots hslot
        have hcurr : q.currTxn = none := htracks.currTxn_eq_none_iff.mpr (halone q hq hout).1
        have hdurable := (closeDbs_durable_iff hcoherent hopen
          (fun q hq hout ↦ (halone q hq hout).1) hindex eOp q.pBt).mpr (halone q hq hout).2
        rw [closeCall, closed_idle (h := ⟨env, q, cursor⟩) hcurr] at hcalled
        refine ⟨q, hcalled, rfl, rfl, rfl, ?_, hdurable⟩
        simp only [Handle.visible, World.handle, hcurr]
        exact hdurable
  · simp only [sqlite3VdbeCloseStatement, if_neg hguard]
    refine ⟨fun _ ↦ ?_, fun _ i q hslot _ ↦ ⟨q, hslot, rfl, rfl, rfl, rfl, rfl⟩⟩
    by_cases hnone : db.nStatement = 0
    · exact .inl hnone
    · exact .inr (.inl (not_not.mp fun hne ↦ hguard ⟨hnone, hne⟩))

/-- A connection on two environments in an explicit transaction, with a statement open on its first
Btree and `other` for its second. -/
def twoBtrees (other : Handle) : Sqlite3 :=
  Sqlite3.explicit
    ⟨fun e ↦ if e = 0 then (sqlite3BtreeBeginStmt freshWriter 1).2.env else other.env,
      fun _ ↦ ⟨none, none⟩⟩
    [some (sqlite3BtreeBeginStmt freshWriter 1).2.bt, some other.bt] 1

/-- A statement with a statement transaction. -/
def journalled : Vdbe where
  rc := .ok
  errorAction := .abort
  readOnly := false
  usesStmtJournal := true
  iStatement := 1
  nStmtDefCons := 0
  nFkConstraint := 0
  apCsr := []
  started := true
  running := true

/-- A second Btree without a transaction is left alone. -/
theorem closeStatement_frame_idle : OthersUnchanged {0}
      (twoBtrees (Handle.opened (Env.created ⟨fun _ ↦ none⟩ [] false) 1 1))
      (sqlite3VdbeCloseStatement (fun _ ↦ .ok)
        (twoBtrees (Handle.opened (Env.created ⟨fun _ ↦ none⟩ [] false) 1 1))
        journalled .release).2.1 := by
  refine (closeStatement_frame_iff (fun _ ↦ .ok) {0} _ journalled .release ⟨?_, ?_⟩ ?_).mpr ?_
  · intro p hp
    rcases mem_cons.mp hp with heq | hp
    · cases heq
      exact tracks_beginStmt _ 1 (tracks_beginTrans _ 1 (.idle rfl rfl rfl)) rfl
    · obtain rfl := some.inj (mem_singleton.mp hp)
      exact .idle rfl rfl rfl
  · refine pairwise_pair.mpr ?_
    rintro p q hp hq hsame
    cases hp
    cases hq
    cases hsame
  · intro p hp hin
    rcases mem_cons.mp hp with heq | hp
    · cases heq
      exact ⟨rfl, by decide⟩
    · obtain rfl := some.inj (mem_singleton.mp hp)
      exact absurd (Set.mem_singleton_iff.mp hin) Nat.one_ne_zero
  · refine .inr (.inr ?_)
    intro q hq hout
    rcases mem_cons.mp hq with heq | hq
    · cases heq
      exact absurd rfl hout
    · obtain rfl := some.inj (mem_singleton.mp hq)
      exact ⟨rfl, fun hop ↦ absurd hop (by decide)⟩

/-- Releasing a statement on the first Btree commits the transaction in which a table has been
created on the second. -/
theorem closeStatement_commits_other :
    ¬ OthersUnchanged {0}
      (twoBtrees { freshWriter.writes [createTab 2] with
        bt := { freshWriter.bt with id := 1, pBt := 1 } })
      (sqlite3VdbeCloseStatement (fun _ ↦ .ok)
        (twoBtrees { freshWriter.writes [createTab 2] with
          bt := { freshWriter.bt with id := 1, pBt := 1 } })
        journalled .release).2.1 := by
  intro hunchanged
  obtain ⟨q', _, _, _, _, _, hdurable⟩ := hunchanged 1 _ rfl
    (fun hin ↦ Nat.one_ne_zero (Set.mem_singleton_iff.mp hin))
  exact absurd (congrArg (fun content ↦ (content.db (.tab 2)).isSome) hdurable) (by decide)

end LumoSQL
