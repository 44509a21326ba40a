import LumoSQL.Foundation.SnapshotStore
import Mathlib.Data.Int.Notation

/-!
# The LMDB environment under the backend

LMDB itself is not part of the repository. What `btree.c` relies on is its documented behaviour:
read transactions see an immutable snapshot, write transactions run one at a time and nest, and
every call reports a code that `errmap` turns into an SQLite result code. An environment `Env` is a
snapshot store of database contents together with the codes its coming calls will report, so that
every pattern of success and failure is an environment.

`mdbTxnBegin`, `mdbTxnCommit` and `mdbTxnAbort` are the transaction calls, and `mdbCursorFirst`,
`mdbCursorNext` and `mdbCursorInit` the cursor calls used for scans. A transaction with an open
child takes no call but commit and abort: a cursor on it reports `MDB_BAD_TXN`.
-/

namespace LumoSQL

open Foundation List SnapshotStore

/-! ### Result codes -/

/-- The codes LMDB calls return that `errmap` names, and the remaining ones by number. -/
inductive MdbRc
  | success
  | eacces
  | eio
  | panic
  | eperm
  | enomem
  | enoent
  | enospc
  | mapFull
  | notFound
  | versionMismatch
  | invalid
  | pageNotFound
  | corrupted
  | incompatible
  | badRslot
  | badTxn
  | badValsize
  | other (code : ℤ)
  deriving DecidableEq, Repr

/-- The SQLite result codes the backend and its callers use, with the two extended codes of
`SQLITE_CONSTRAINT` that end a commit. -/
inductive Rc
  | ok
  | error
  | internal
  | perm
  | abort
  | busy
  | nomem
  | readonly
  | interrupt
  | ioerr
  | corrupt
  | notfound
  | full
  | cantopen
  | schema
  | toobig
  | constraint
  | constraintForeignkey
  | constraintCommithook
  | misuse
  | notadb
  | done
  deriving DecidableEq, Repr

/-- `errmap`: the SQLite code for an LMDB code. -/
def errmap : MdbRc → Rc
  | .success => .ok
  | .eacces => .readonly
  | .eio => .ioerr
  | .panic => .ioerr
  | .eperm => .perm
  | .enomem => .nomem
  | .enoent => .cantopen
  | .enospc => .full
  | .mapFull => .full
  | .notFound => .notfound
  | .versionMismatch => .notadb
  | .invalid => .notadb
  | .pageNotFound => .corrupt
  | .corrupted => .corrupt
  | .incompatible => .schema
  | .badRslot => .misuse
  | .badTxn => .abort
  | .badValsize => .toobig
  | .other _ => .internal

/-- An LMDB error never turns into success. -/
@[simp] theorem errmap_eq_ok_iff (rc : MdbRc) : errmap rc = .ok ↔ rc = .success := by
  cases rc <;> simp [errmap]

/-! ### Contents -/

abbrev Bytes := List UInt8

instance lawfulEntry : LawfulBEq (Bytes × Bytes) := inferInstance

/-- A database of the environment: LMDB's unnamed one, or the table with a root number, stored
under the name `Tab.%08x`. -/
inductive DbName
  | unnamed
  | tab (root : ℕ)
  deriving DecidableEq, Repr

/-- One database: its key type and its entries in scan order. No entry stands twice. -/
structure Db where
  integerKey : Bool
  dupSort : Bool
  entries : List (Bytes × Bytes)
  nodup : entries.Nodup

structure Content where
  db : DbName → Option Db

def Content.entries (content : Content) (name : DbName) : List (Bytes × Bytes) :=
  ((content.db name).map Db.entries).getD []

theorem Content.entries_nodup (content : Content) (name : DbName) :
    (content.entries name).Nodup := by
  unfold Content.entries
  cases content.db name with
  | none => exact nodup_nil
  | some db => exact db.nodup

/-! ### Transactions -/

/-- An environment: the open transactions with the durable content, and the codes the coming
fallible calls report, in order; when they run out, calls succeed. `currentIsOp` says whether
`mdb_cursor_get` takes `MDB_CURRENT`, documented as a flag of `mdb_cursor_put`, for an operation. -/
structure Env where
  store : SnapshotStore Content
  outcomes : List MdbRc
  currentIsOp : Bool

namespace Env

def created (content : Content) (outcomes : List MdbRc) (currentIsOp : Bool) : Env :=
  ⟨SnapshotStore.idle content, outcomes, currentIsOp⟩

def outcome (env : Env) : MdbRc := env.outcomes.headD .success

def spend (env : Env) : Env := { env with outcomes := env.outcomes.tail }

/-- `mdb_txn_begin`. A nested transaction needs its parent innermost, and a second outermost write
transaction cannot begin while one is open. -/
def mdbTxnBegin (env : Env) (parent : Option ℕ) (rdonly : Bool) : Except MdbRc ℕ × Env :=
  if env.outcome ≠ .success then (.error env.outcome, env.spend)
  else
    match parent, rdonly with
    | none, true => (.ok env.store.next, { env.spend with store := env.store.beginRead })
    | none, false =>
      if env.store.writer.isEmpty then
        (.ok env.store.next, { env.spend with store := env.store.push })
      else (.error (.other 16), env.spend)
    | some t, false =>
      if env.store.writer.head?.map Frame.id = some t then
        (.ok env.store.next, { env.spend with store := env.store.push })
      else (.error .badTxn, env.spend)
    | some _, true => (.error (.other 22), env.spend)

/-- `mdb_txn_commit`. A read transaction just ends. A write transaction ends whether or not its
commit succeeds. -/
def mdbTxnCommit (env : Env) (t : ℕ) : MdbRc × Env :=
  if t ∈ env.store.writer.map Frame.id then
    if env.outcome = .success then
      (.success, { env.spend with store := env.store.commit t })
    else (env.outcome, { env.spend with store := env.store.abort t })
  else (.success, { env with store := env.store.dropReader t })

def mdbTxnAbort (env : Env) (t : ℕ) : Env := { env with store := env.store.abort t }

/-- The content the transaction `t` sees, the durable one when it is not open. -/
def seen (env : Env) (t : ℕ) : Content :=
  ((env.store.frame? t).map Frame.content).getD env.store.durable

/-- A call on the transaction `t` other than commit and abort is refused: it has ended, or has an
open child. -/
def blocked (env : Env) (t : ℕ) : Bool :=
  decide (t ∉ env.store.readers.map Frame.id) &&
    decide (env.store.writer.head?.map Frame.id ≠ some t)

end Env

/-! ### What the transaction calls do -/

namespace Env

@[simp] theorem spend_store (env : Env) : env.spend.store = env.store := rfl

variable {env : Env} {rc : MdbRc} {rdonly : Bool} {reader : Frame Content}
  {rest : List (Frame Content)} {top : Frame Content} {txn : ℕ}

theorem outcome_nil (hcodes : env.outcomes = []) : env.outcome = .success := by
  simp [outcome, hcodes]

theorem spend_nil (hcodes : env.outcomes = []) : env.spend = env := by
  cases env with
  | mk store outcomes current =>
    subst hcodes
    rfl

/-- A call that finds its transaction innermost among the write transactions is not refused. -/
theorem not_blocked_top (hwriter : env.store.writer = top :: rest) :
    env.blocked top.id = false := by
  simp [blocked, hwriter]

theorem seen_top (hwriter : env.store.writer = top :: rest) : env.seen top.id = top.content := by
  simp [seen, SnapshotStore.frame?, hwriter]

/-- The transaction around the innermost one sees the content of its own frame. -/
theorem seen_second {top next : Frame Content} (hwriter : env.store.writer = top :: next :: rest) :
    env.seen next.id = next.content := by
  rw [seen, frame?_of_mem (mem_append_left _ (by simp [hwriter]))]
  rfl

theorem seen_reader (hreader : reader ∈ env.store.readers) :
    env.seen reader.id = reader.content := by
  rw [seen, frame?_of_mem (mem_append_right _ hreader)]
  rfl

theorem mdbTxnBegin_read (env : Env) : env.mdbTxnBegin none true = if env.outcome = .success then
        (.ok env.store.next, { env.spend with store := env.store.beginRead })
      else (.error env.outcome, env.spend) := by
  unfold mdbTxnBegin
  by_cases hok : env.outcome = .success <;> simp [hok]

/-- Assumes: no write transaction is open. -/
theorem mdbTxnBegin_write (hidle : env.store.writer = []) : env.mdbTxnBegin none false =
      if env.outcome = .success then
        (.ok env.store.next, { env.spend with store := env.store.push })
      else (.error env.outcome, env.spend) := by
  unfold mdbTxnBegin
  by_cases hok : env.outcome = .success <;> simp [hok, hidle]

/-- Assumes: the parent is the innermost write transaction. -/
theorem mdbTxnBegin_nested (hwriter : env.store.writer = top :: rest) :
    env.mdbTxnBegin (some top.id) false = if env.outcome = .success then
        (.ok env.store.next, { env.spend with store := env.store.push })
      else (.error env.outcome, env.spend) := by
  unfold mdbTxnBegin
  by_cases hok : env.outcome = .success <;> simp [hok, hwriter]

/-- A failed begin changes nothing but the codes still to come. -/
theorem mdbTxnBegin_error {env env' : Env} {parent : Option ℕ}
    (hbegin : env.mdbTxnBegin parent rdonly = (.error rc, env')) :
    env' = env.spend ∧ rc ≠ .success := by
  unfold mdbTxnBegin at hbegin
  split at hbegin
  · rename_i hfail
    obtain ⟨hrc, henv⟩ := Prod.mk.inj hbegin
    exact ⟨henv.symm, fun h ↦ hfail ((Except.error.inj hrc).trans h)⟩
  · split at hbegin
    · exact absurd (congrArg Prod.fst hbegin) (by simp)
    · split at hbegin
      · exact absurd (congrArg Prod.fst hbegin) (by simp)
      · obtain ⟨hrc, henv⟩ := Prod.mk.inj hbegin
        exact ⟨henv.symm, fun h ↦ by rw [h] at hrc; cases hrc⟩
    · split at hbegin
      · exact absurd (congrArg Prod.fst hbegin) (by simp)
      · obtain ⟨hrc, henv⟩ := Prod.mk.inj hbegin
        exact ⟨henv.symm, fun h ↦ by rw [h] at hrc; cases hrc⟩
    · obtain ⟨hrc, henv⟩ := Prod.mk.inj hbegin
      exact ⟨henv.symm, fun h ↦ by rw [h] at hrc; cases hrc⟩

/-- An outermost transaction fails to begin because of the code LMDB reports, or because another
write transaction is open. -/
theorem mdbTxnBegin_outer_error {env env' : Env}
    (hbegin : env.mdbTxnBegin none rdonly = (.error rc, env')) :
    env.outcome ≠ .success ∨ (rdonly = false ∧ env.store.writer ≠ []) := by
  by_cases hok : env.outcome = .success
  · cases rdonly with
    | true =>
      rw [mdbTxnBegin_read, if_pos hok] at hbegin
      exact absurd (congrArg Prod.fst hbegin) (by simp)
    | false =>
      refine .inr ⟨rfl, fun hidle ↦ ?_⟩
      rw [mdbTxnBegin_write hidle, if_pos hok] at hbegin
      exact absurd (congrArg Prod.fst hbegin) (by simp)
  · exact .inl hok

/-- A read transaction that begins sees the durable content. -/
theorem mdbTxnBegin_read_ok {env env' : Env} (hbegin : env.mdbTxnBegin none true = (.ok txn, env'))
    : txn = env.store.next ∧ env' = { env.spend with store := env.store.beginRead } := by
  rw [mdbTxnBegin_read] at hbegin
  split_ifs at hbegin with hok
  · obtain ⟨htxn, henv⟩ := Prod.mk.inj hbegin
    exact ⟨(Except.ok.inj htxn).symm, henv.symm⟩
  · exact absurd (congrArg Prod.fst hbegin) (by simp)

/-- An outermost write transaction begins only when no other is open. -/
theorem mdbTxnBegin_write_ok {env env' : Env}
    (hbegin : env.mdbTxnBegin none false = (.ok txn, env')) :
    env.store.writer = [] ∧ txn = env.store.next ∧
      env' = { env.spend with store := env.store.push } := by
  cases hwriter : env.store.writer with
  | nil =>
    rw [mdbTxnBegin_write hwriter] at hbegin
    split_ifs at hbegin with hok
    · obtain ⟨htxn, henv⟩ := Prod.mk.inj hbegin
      exact ⟨rfl, (Except.ok.inj htxn).symm, henv.symm⟩
    · exact absurd (congrArg Prod.fst hbegin) (by simp)
  | cons top rest =>
    unfold mdbTxnBegin at hbegin
    split at hbegin
    · exact absurd (congrArg Prod.fst hbegin) (by simp)
    · simp [hwriter] at hbegin

/-- The commit of a read transaction cannot fail. -/
theorem mdbTxnCommit_reader (hreader : reader ∈ env.store.readers) : env.mdbTxnCommit reader.id =
      (.success, { env with store := env.store.dropReader reader.id }) := by
  rw [mdbTxnCommit, if_neg (reader_not_writer hreader)]

theorem mdbTxnCommit_writer {t : ℕ} (ht : t ∈ env.store.writer.map Frame.id) : env.mdbTxnCommit t =
      if env.outcome = .success then
        (.success, { env.spend with store := env.store.commit t })
      else (env.outcome, { env.spend with store := env.store.abort t }) := by
  rw [mdbTxnCommit, if_pos ht]

end Env

/-! ### Cursors -/

/-- `MDB_cursor`: the transaction and database it was opened on, and the position of its entry,
none while `C_INITIALIZED` is clear. -/
structure MdbCursor where
  txn : ℕ
  dbi : DbName
  pos : Option ℕ
  deriving DecidableEq, Repr

namespace Env

def cursorEntries (env : Env) (mc : MdbCursor) : List (Bytes × Bytes) :=
  (env.seen mc.txn).entries mc.dbi

/-- `mdb_cursor_get` with `MDB_FIRST`. -/
def mdbCursorFirst (env : Env) (mc : MdbCursor) : MdbRc × MdbCursor :=
  if env.blocked mc.txn then (.badTxn, mc)
  else if env.cursorEntries mc = [] then (.notFound, { mc with pos := none })
  else (.success, { mc with pos := some 0 })

/-- `mdb_cursor_get` with `MDB_NEXT`: from no position it goes to the first entry. -/
def mdbCursorNext (env : Env) (mc : MdbCursor) : MdbRc × MdbCursor :=
  if env.blocked mc.txn then (.badTxn, mc)
  else
    match mc.pos with
    | none => env.mdbCursorFirst mc
    | some i =>
      if i + 1 < (env.cursorEntries mc).length then (.success, { mc with pos := some (i + 1) })
      else (.notFound, mc)

/-- `mdb_cursor_get` with `MDB_CURRENT`. -/
def mdbCursorCurrent (env : Env) (mc : MdbCursor) : Except MdbRc (Bytes × Bytes) :=
  if env.currentIsOp then
    match mc.pos.bind fun i ↦ (env.cursorEntries mc)[i]? with
    | some entry => .ok entry
    | none => .error (.other 22)
  else .error (.other 22)

/-- `mdb_cursor_set` with `MDB_GET_BOTH`: the position of the entry with this key and data. -/
def mdbCursorSetBoth (env : Env) (mc : MdbCursor) (entry : Bytes × Bytes) : MdbCursor :=
  if entry ∈ env.cursorEntries mc then
    { mc with pos := some ((env.cursorEntries mc).idxOf entry) }
  else mc

end Env

/-- `mdb_cursor_init`: a cursor without a position. -/
def mdbCursorInit (txn : ℕ) (dbi : DbName) : MdbCursor := ⟨txn, dbi, none⟩

end LumoSQL
