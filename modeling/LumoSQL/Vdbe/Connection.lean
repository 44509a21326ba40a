import LumoSQL.Btree.Statement
import LumoSQL.Record.Collation

/-!
# A connection and its attached databases

`struct sqlite3` holds an array of attached databases, each with a Btree or none, and everything
that `vdbeaux.c` and `main.c` do to their transactions is a loop over it. `forEachDb` is that loop:
it calls a function on each Btree in turn and threads the result code through. Btrees of one
connection may be open on one environment, so a call on one of them can be felt by another.

`Coherent` is what the calls keep: every Btree agrees with its environment and no two of them share
a transaction. `Confined` is what makes a call safe for the other Btrees on its environment, and
`savepoint_confined` and `commitPhaseOne_confined` prove it for the two calls that end transactions,
whatever codes LMDB reports. `forEachDb_slots` then gives each Btree an environment it agrees with
when its turn in the loop comes.
-/

namespace LumoSQL

open Foundation List Function

/-! ### Data -/

/-- The environments, by the name `Btree.pBt` has for them, and the memory of cursors. -/
structure World where
  env : ℕ → Env
  cursor : ℕ → BtCursor

/-- What a constraint does to the statement that violates it. -/
inductive OnError
  | none
  | rollback
  | abort
  | fail
  | ignore
  | replace
  deriving DecidableEq, Repr

structure CString where
  bytes : Bytes
  noNul : 0 ∉ bytes

/-- `sqlite3StrICmp`, the terminating zero bytes being the ends of the lists. -/
def sqlite3StrICmp : Bytes → Bytes → ℤ
  | [], [] => 0
  | [], b :: _ => 0 - (upperToLower b).toNat
  | a :: _, [] => (upperToLower a).toNat - 0
  | a :: as, b :: bs =>
    if upperToLower a = upperToLower b then sqlite3StrICmp as bs
    else (upperToLower a).toNat - (upperToLower b).toNat

/-- `sqlite3StrICmp` finds two names equal when they are equal up to the case of their letters. -/
theorem sqlite3StrICmp_eq_zero_iff {a b : Bytes} (ha : 0 ∉ a) (hb : 0 ∉ b) :
    sqlite3StrICmp a b = 0 ↔ a.map upperToLower = b.map upperToLower := by
  induction a generalizing b with
  | nil =>
    cases b with
    | nil => simp [sqlite3StrICmp]
    | cons y ys =>
      have hy := upperToLower_ne_zero (c := y) fun hzero ↦ hb (hzero ▸ (.head _))
      simp only [sqlite3StrICmp, map_nil, map_cons, reduceCtorEq, iff_false]
      omega
  | cons x xs ih =>
    have hx := upperToLower_ne_zero (c := x) fun hzero ↦ ha (hzero ▸ (.head _))
    cases b with
    | nil =>
      simp only [sqlite3StrICmp, map_nil, map_cons, reduceCtorEq, iff_false]
      omega
    | cons y ys =>
      by_cases hxy : upperToLower x = upperToLower y
      · have htail := ih (fun hmem ↦ ha (.tail _ hmem)) (fun hmem ↦ hb (.tail _ hmem))
        rw [sqlite3StrICmp, if_pos hxy, htail, map_cons, map_cons, hxy, List.cons.injEq]
        simp
      · have hne : (upperToLower x).toNat ≠ (upperToLower y).toNat := fun heq ↦
          hxy (UInt8.toNat_inj.mp heq)
        rw [sqlite3StrICmp, if_neg hxy, map_cons, map_cons, List.cons.injEq]
        simp only [hxy, false_and, iff_false]
        omega

structure Savepoint where
  zName : CString
  nDeferredCons : ℤ

/-- `struct sqlite3`, as far as transactions go. The savepoints stand innermost first. -/
structure Sqlite3 where
  world : World
  aDb : List (Option Btree)
  autoCommit : Bool
  isTransactionSavepoint : Bool
  pSavepoint : List Savepoint
  nSavepoint : ℕ
  nStatement : ℕ
  nDeferredCons : ℤ
  activeVdbeCnt : ℕ
  writeVdbeCnt : ℕ
  mallocFailed : Bool

/-- `struct Vdbe`, as far as transactions go: `apCsr` are the cursors it has open, `started` stands
for `pc >= 0` and `running` for `magic == VDBE_MAGIC_RUN`. -/
structure Vdbe where
  rc : Rc
  errorAction : OnError
  readOnly : Bool
  usesStmtJournal : Bool
  iStatement : ℕ
  nStmtDefCons : ℤ
  nFkConstraint : ℤ
  apCsr : List ℕ
  started : Bool
  running : Bool

/-- A connection in an explicit transaction without savepoints, running one writing statement. -/
def Sqlite3.explicit (world : World) (aDb : List (Option Btree)) (nStatement : ℕ) : Sqlite3 where
  world := world
  aDb := aDb
  autoCommit := false
  isTransactionSavepoint := false
  pSavepoint := []
  nSavepoint := 0
  nStatement := nStatement
  nDeferredCons := 0
  activeVdbeCnt := 1
  writeVdbeCnt := 1
  mallocFailed := false

def Sqlite3.countIn (db : Sqlite3) (readOnly : Bool) : Sqlite3 :=
  { db with
    activeVdbeCnt := db.activeVdbeCnt + 1
    writeVdbeCnt := if readOnly then db.writeVdbeCnt else db.writeVdbeCnt + 1 }

def Sqlite3.countOut (db : Sqlite3) (readOnly : Bool) : Sqlite3 :=
  { db with
    activeVdbeCnt := db.activeVdbeCnt - 1
    writeVdbeCnt := if readOnly then db.writeVdbeCnt else db.writeVdbeCnt - 1 }

def World.handle (world : World) (p : Btree) : Handle := ⟨world.env p.pBt, p, world.cursor⟩

/-- The world after a call on a Btree has left the handle `h`. -/
def World.update (world : World) (h : Handle) : World :=
  ⟨Function.update world.env h.bt.pBt h.env, h.cursor⟩

/-- A loop over the attached databases that skips the slots without a Btree. The call gets the
result code so far. -/
def forEachDb (call : Rc → Handle → Rc × Handle) :
    Rc → World → List (Option Btree) → Rc × World × List (Option Btree)
  | rc, world, [] => (rc, world, [])
  | rc, world, none :: rest =>
    let after := forEachDb call rc world rest
    (after.1, after.2.1, none :: after.2.2)
  | rc, world, some p :: rest =>
    let called := call rc (world.handle p)
    let after := forEachDb call called.1 (world.update called.2) rest
    (after.1, after.2.1, some called.2.bt :: after.2.2)

variable {env : Env} {t : ℕ} (world : World) (p : Btree) (h : Handle) (eOp : SavepointOp)
  (index : ℤ)

@[simp] theorem World.update_env_self : (world.update h).env h.bt.pBt = h.env := update_self _ _ _

@[simp] theorem World.update_handle : world.update (world.handle p) = world := by
  simp [World.update, World.handle]

/-- The Btree of a handle finds the handle again in the world it has been put into. -/
@[simp] theorem World.handle_update : (world.update h).handle h.bt = h := by
  simp [World.update, World.handle]

theorem World.update_update {h h' : Handle} (hplace : h'.bt.pBt = h.bt.pBt) :
    (world.update h).update h' = world.update h' := by
  simp [World.update, hplace, update_idem]

theorem World.update_env_of_ne {h : Handle} {e : ℕ} (hne : e ≠ h.bt.pBt) :
    (world.update h).env e = world.env e := update_of_ne hne _ _

/-! ### Agreement of a whole connection -/

/-- Every Btree agrees with its environment, and those open on one environment share no
transaction. -/
structure Coherent (world : World) (aDb : List (Option Btree)) : Prop where
  tracks : ∀ p, some p ∈ aDb → Tracks (world.env p.pBt) p
  apart : aDb.Pairwise fun slot slot' ↦
    ∀ p q, slot = some p → slot' = some q → p.pBt = q.pBt → Apart p q

/-- A call leaves its Btree in agreement, on the same environment, and every other Btree there as
it was. -/
structure Confined (h h' : Handle) : Prop where
  pBt : h'.bt.pBt = h.bt.pBt
  id : h'.bt.id = h.bt.id
  tracks : Tracks h'.env h'.bt
  others : ∀ q, Tracks h.env q → Apart h.bt q → Tracks h'.env q ∧ Apart h'.bt q

theorem Confined.refl {h : Handle} (htracks : Tracks h.env h.bt) : Confined h h :=
  ⟨rfl, rfl, htracks, fun _ hq hapart ↦ ⟨hq, hapart⟩⟩

theorem Confined.trans {h h' h'' : Handle} (hfirst : Confined h h') (hsecond : Confined h' h'') :
    Confined h h'' where
  pBt := hsecond.pBt.trans hfirst.pBt
  id := hsecond.id.trans hfirst.id
  tracks := hsecond.tracks
  others := by
    intro q hq hapart
    obtain ⟨hq', hapart'⟩ := hfirst.others q hq hapart
    exact hsecond.others q hq' hapart'

/-- Assumes: the new main transaction is the old one or none, readers other than the Btree's own
stay open, and a Btree that does not write leaves the write stack alone. Such a call is confined. -/
theorem Confined.of_store {h h' : Handle} (hpBt : h'.bt.pBt = h.bt.pBt) (hid : h'.bt.id = h.bt.id)
    (htracks : Tracks h.env h.bt) (htracks' : Tracks h'.env h'.bt)
    (hmain : h'.bt.mainTxn = none ∨ h'.bt.mainTxn = h.bt.mainTxn)
    (hreaders : ∀ reader ∈ h.env.store.readers, h.bt.mainTxn ≠ some reader.id →
      reader ∈ h'.env.store.readers)
    (hwriter : h.bt.inTrans ≠ .write → h'.env.store.writer = h.env.store.writer) :
    Confined h h' where
  pBt := hpBt
  id := hid
  tracks := htracks'
  others := by
    intro q hq hapart
    refine ⟨?_, ?_⟩
    · by_cases hwrite : q.inTrans = .write
      · have hown : h.bt.inTrans ≠ .write := fun hown ↦ htracks.not_both_write hq hapart hown hwrite
        exact hq.of_writer hwrite (by rw [hwriter hown])
      · exact hq.of_readers hwrite fun reader hreader hqmain ↦
          hreaders reader hreader fun hown ↦ hapart _ hown hqmain
    · intro t ht
      rcases hmain with hnone | hsame
      · rw [hnone] at ht
        cases ht
      · exact hapart t (hsame ▸ ht)

/-! ### The calls that end transactions are confined -/

/-- The handles `sqlite3BtreeSavepoint` leaves are the old main transaction or none. -/
theorem savepointHandles_mainTxn (parent : Option ℕ) :
    (savepointHandles p index parent).mainTxn = none ∨
      (savepointHandles p index parent).mainTxn = p.mainTxn := by
  unfold savepointHandles Btree.ended
  split_ifs <;> simp

theorem closeStatementBtree_place : (closeStatementBtree h eOp index).2.bt.pBt = h.bt.pBt := by
  unfold closeStatementBtree
  cases eOp with
  | release => exact savepoint_place h .release index
  | rollback =>
    simp only [if_true]
    split_ifs
    · exact (savepoint_place _ .release index).trans (savepoint_place h .rollback index)
    · exact savepoint_place h .rollback index

/-- Ending write transactions touches no reader. -/
theorem mdbTxnCommit_readers (ht : t ∈ env.store.writer.map Frame.id) :
    (env.mdbTxnCommit t).2.store.readers = env.store.readers := by
  rw [Env.mdbTxnCommit_writer ht]
  split_ifs
  · rw [SnapshotStore.commit, if_pos ht]
    rfl
  · rw [SnapshotStore.abort, if_pos ht]
    rfl

theorem mdbTxnAbort_readers (ht : t ∈ env.store.writer.map Frame.id) :
    (env.mdbTxnAbort t).store.readers = env.store.readers := by
  rw [Env.mdbTxnAbort, SnapshotStore.abort, if_pos ht]
  rfl

/-- While a Btree writes, the transaction a savepoint call ends is one of the write stack. -/
theorem savepointTxn_mem {p : Btree} (htracks : Tracks env p) (hwrite : p.inTrans = .write)
    (index : ℤ) : ∃ t, savepointTxn p index = some t ∧ t ∈ env.store.writer.map Frame.id := by
  obtain ⟨top, rest, hwriter, hcurr⟩ := htracks.exists_top hwrite
  obtain ⟨inner, last, hends, hmain⟩ := htracks.exists_bottom hwrite
  by_cases hindex : index = -1
  · exact ⟨last.id, by rw [savepointTxn, if_pos hindex, hmain], by simp [hends]⟩
  · exact ⟨top.id, by rw [savepointTxn, if_neg hindex, hcurr], by simp [hwriter]⟩

theorem savepoint_confined (op : SavepointOp) (index : ℤ) (htracks : Tracks h.env h.bt) :
    Confined h (sqlite3BtreeSavepoint h op index).2 := by
  have htracks' := tracks_savepoint h op index htracks
  by_cases hwrite : h.bt.inTrans = .write
  · obtain ⟨top, rest, hwriter, hcurr⟩ := htracks.exists_top hwrite
    obtain ⟨t, htxn, ht⟩ := savepointTxn_mem htracks hwrite index
    have hparts : (sqlite3BtreeSavepoint h op index).2.bt =
          savepointHandles h.bt index (h.env.store.parent top.id) ∧
        (sqlite3BtreeSavepoint h op index).2.env.store.readers = h.env.store.readers := by
      cases op with
      | rollback =>
        simp only [sqlite3BtreeSavepoint, hcurr, htxn]
        exact ⟨trivial, mdbTxnAbort_readers ht⟩
      | release =>
        simp only [sqlite3BtreeSavepoint, hcurr, htxn]
        exact ⟨trivial, mdbTxnCommit_readers ht⟩
    obtain ⟨hbt, hreaders⟩ := hparts
    obtain ⟨hpBt, hid⟩ := savepointHandles_ids h.bt index (h.env.store.parent top.id)
    refine Confined.of_store (hbt ▸ hpBt) (hbt ▸ hid) htracks htracks' ?_ ?_ ?_
    · rw [hbt]
      exact savepointHandles_mainTxn h.bt index _
    · intro reader hreader _
      rwa [hreaders]
    · exact fun hown ↦ absurd hwrite hown
  · rcases htracks with ⟨_, _, hcurr⟩ | ⟨hin, reader, hmem, hmain, hcurr⟩ | ⟨hin, _, _, _⟩
    · rw [savepoint_idle hcurr] at htracks' ⊢
      exact Confined.refl htracks'
    · have hreading : Tracks h.env h.bt := .reading hin reader hmem hmain hcurr
      rw [savepoint_reading hmem hmain hcurr] at htracks' ⊢
      refine Confined.of_store rfl rfl hreading htracks' (.inl rfl) ?_ fun _ ↦ rfl
      intro other hother hne
      refine mem_filter.mpr ⟨hother, ?_⟩
      have hid : other.id ≠ reader.id := fun heq ↦ hne (heq ▸ hmain)
      simpa using hid
    · exact absurd hin hwrite

theorem closeStatementBtree_confined (htracks : Tracks h.env h.bt) :
    Confined h (closeStatementBtree h eOp index).2 := by
  unfold closeStatementBtree
  cases eOp with
  | release => exact savepoint_confined h .release index htracks
  | rollback =>
    have hrolled := savepoint_confined h .rollback index htracks
    simp only [if_true]
    split_ifs
    · exact hrolled.trans (savepoint_confined _ .release index hrolled.tracks)
    · exact hrolled

/-- `sqlite3BtreeCommitPhaseOne` is confined, whatever LMDB reports. -/
theorem commitPhaseOne_confined (htracks : Tracks h.env h.bt) :
    Confined h (sqlite3BtreeCommitPhaseOne h).2 := by
  have htracks' := tracks_commitPhaseOne h htracks
  obtain ⟨left, hleft⟩ := commitPhaseOne_bt h htracks
  refine Confined.of_store (by rw [hleft]; rfl) (by rw [hleft]; rfl) htracks htracks'
    (.inl (by rw [hleft]; rfl)) ?_ ?_
  · intro reader hreader hne
    unfold sqlite3BtreeCommitPhaseOne
    split
    · rwa [closeCursors_env]
    · rename_i t hmain
      rw [closeCursors_env]
      by_cases ht : t ∈ h.env.store.writer.map Frame.id
      · rwa [mdbTxnCommit_readers ht]
      · rw [Env.mdbTxnCommit, if_neg ht]
        refine mem_filter.mpr ⟨hreader, ?_⟩
        have hid : reader.id ≠ t := fun heq ↦ hne (by rw [hmain, heq])
        simpa using hid
  · intro hown
    rcases htracks with ⟨_, hmain, _⟩ | ⟨_, reader, hmem, hmain, _⟩ | ⟨hin, _, _, _⟩
    · simp [sqlite3BtreeCommitPhaseOne, hmain, closeCursors_env]
    · simp [sqlite3BtreeCommitPhaseOne, hmain, closeCursors_env, Env.mdbTxnCommit_reader hmem,
        SnapshotStore.dropReader_writer]
    · exact absurd hin hown

/-! ### The loop -/

section

variable {call : Rc → Handle → Rc × Handle}

variable {aDb : List (Option Btree)} {p : Btree} {rest : List (Option Btree)} {world : World}

/-- Assumes: confined calls. After a call on the first Btree the others still form a coherent
connection. -/
theorem Coherent.after_call (hcoherent : Coherent world (some p :: rest)) {h : Handle}
    (hconfined : Confined (world.handle p) h) : Coherent (world.update h) rest := by
  obtain ⟨hhead, htail⟩ := pairwise_cons.mp hcoherent.apart
  refine ⟨?_, htail⟩
  intro q hq
  have htracks := hcoherent.tracks q (.tail _ hq)
  have hpBt : h.bt.pBt = p.pBt := hconfined.pBt
  by_cases hsame : q.pBt = p.pBt
  · have hapart : Apart p q := hhead _ hq p q rfl rfl hsame.symm
    rw [hsame] at htracks
    have hafter := (hconfined.others q htracks hapart).1
    simpa [World.update, hpBt, hsame] using hafter
  · simpa [World.update, hpBt, update_of_ne hsame] using htracks

theorem Coherent.tail {slot : Option Btree} (hcoherent : Coherent world (slot :: rest)) :
    Coherent world rest :=
  ⟨fun p hp ↦ hcoherent.tracks p (.tail _ hp), (pairwise_cons.mp hcoherent.apart).2⟩

/-- Assumes: a coherent connection and confined calls. Each Btree is called once, at a moment when
it agrees with its environment. -/
theorem forEachDb_slots (hcoherent : Coherent world aDb)
    (hcall : ∀ rc h, Tracks h.env h.bt → Confined h (call rc h).2) (rc : Rc) {i : ℕ}
    (hslot : aDb[i]? = some (some p)) :
    ∃ rc' env cursor, Tracks env p ∧ (forEachDb call rc world aDb).2.2[i]? =
      some (some (call rc' ⟨env, p, cursor⟩).2.bt) := by
  induction aDb generalizing rc world i with
  | nil => cases hslot
  | cons slot rest ih =>
    cases slot with
    | none =>
      cases i with
      | zero => cases hslot
      | succ i => exact ih hcoherent.tail rc hslot
    | some q =>
      have htracks := hcoherent.tracks q (.head _)
      cases i with
      | zero =>
        obtain rfl : q = p := by simpa using hslot
        exact ⟨rc, world.env q.pBt, world.cursor, htracks, rfl⟩
      | succ i => exact ih (hcoherent.after_call (hcall rc (world.handle q) htracks)) _ hslot

theorem forEachDb_append (rc : Rc) (world : World) (front back : List (Option Btree)) :
    (forEachDb call rc world (front ++ back)).2.1 =
      (forEachDb call (forEachDb call rc world front).1
        (forEachDb call rc world front).2.1 back).2.1 := by
  induction front generalizing rc world with
  | nil => rfl
  | cons slot rest ih =>
    cases slot with
    | none => exact ih rc world
    | some p => exact ih _ _

/-- Assumes: calls that keep their Btree on its environment. An environment on which every call
does nothing is left alone. -/
theorem forEachDb_env_of_idle (call : Rc → Handle → Rc × Handle) (e : ℕ)
    (hpBt : ∀ rc h, some h.bt ∈ aDb → (call rc h).2.bt.pBt = h.bt.pBt)
    (hidle : ∀ rc h, some h.bt ∈ aDb → h.bt.pBt = e → (call rc h).2.env = h.env) (rc : Rc)
    (world : World) : (forEachDb call rc world aDb).2.1.env e = world.env e := by
  induction aDb generalizing rc world with
  | nil => rfl
  | cons slot rest ih =>
    have hpBt' := fun rc h hmem ↦ hpBt rc h (mem_cons_of_mem slot hmem)
    have hidle' := fun rc h hmem ↦ hidle rc h (mem_cons_of_mem slot hmem)
    cases slot with
    | none => exact ih hpBt' hidle' rc world
    | some p =>
      have hplace := hpBt rc (world.handle p) (.head _)
      refine (ih hpBt' hidle' _ _).trans ?_
      by_cases hsame : p.pBt = e
      · have henv := hidle rc (world.handle p) (.head _) hsame
        simp only [World.update, hplace, henv]
        rw [World.handle, hsame, update_eq_self]
      · simp only [World.update, hplace]
        exact update_of_ne (fun h ↦ hsame h.symm) _ _

/-- Assumes: calls that keep their Btree on its environment. An environment on which every call but
one does nothing is left as that call leaves it. -/
theorem forEachDb_env_single (call : Rc → Handle → Rc × Handle) {front back : List (Option Btree)}
    (hpBt : ∀ rc h, (call rc h).2.bt.pBt = h.bt.pBt)
    (hidle : ∀ rc h, some h.bt ∈ front ++ back → h.bt.pBt = p.pBt → (call rc h).2.env = h.env)
    (rc : Rc) (world : World) :
    ∃ rc' cursor, (forEachDb call rc world (front ++ some p :: back)).2.1.env p.pBt =
      (call rc' ⟨world.env p.pBt, p, cursor⟩).2.env := by
  have hfront := forEachDb_env_of_idle call p.pBt (fun rc h _ ↦ hpBt rc h)
    (fun rc h hmem ↦ hidle rc h (mem_append_left _ hmem)) rc world
  have hback := fun rc world ↦ forEachDb_env_of_idle call p.pBt (fun rc h _ ↦ hpBt rc h)
    (fun rc h hmem ↦ hidle rc h (mem_append_right _ hmem)) rc world
  refine ⟨(forEachDb call rc world front).1, (forEachDb call rc world front).2.1.cursor, ?_⟩
  rw [forEachDb_append]
  refine (hback _ _).trans ?_
  simp only [World.update, hpBt]
  rw [World.handle, hfront, update_self]

/-- Assumes: a call that does nothing on the second slot. -/
theorem forEachDb_pair {rc rc' : Rc} {m : Btree} {temp : Option Btree} {h' : Handle}
    (hcall : call rc (world.handle m) = (rc', h')) (htemp : ∀ q, temp = some q → ∀ world : World,
      call rc' (world.handle q) = (rc', world.handle q)) :
    forEachDb call rc world [some m, temp] = (rc', world.update h', [some h'.bt, temp]) := by
  cases temp with
  | none => simp only [forEachDb, hcall]
  | some q =>
    simp only [forEachDb, hcall, htemp q rfl, World.update_handle]
    rfl

end

end LumoSQL
