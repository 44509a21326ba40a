import LumoSQL.Btree.Cursor
import LumoSQL.Record.Compare
import Mathlib.Data.List.Sort

/-!
# Tables and meta values

A table is a named database of the environment, `Tab.` and its root number in hexadecimal. LMDB
keeps the names of the databases as entries of its unnamed database, and the backend keeps the meta
values of the database there too, under the bytes of their index. `Content.create` and
`Content.drop` are what creating and dropping a database do to a content, `Content.put` is a put to
the unnamed one.

`sqlite3BtreeGetMeta` reads a meta value, and reports every failure to read it as 0.
`sqlite3BtreeCreateTable` takes the number of the new table from the meta value
`BTREE_LARGEST_ROOT_PAGE`, creates the table in `main_txn` and writes the meta value in `curr_txn`.
`BtreeTableHandle` finds the database of a root number; root 1 is the unnamed database while that
has no entry.

The documentation of LMDB forbids calls on a transaction that has an open child. `parentOpens` says
what `mdb_open` does when it is called all the same: it is carried out, or refused.
-/

namespace LumoSQL

open Foundation List Option SnapshotStore

/-! ### Contents -/

/-- A 32-bit value as it stands in memory, the low byte first. -/
def u32Bytes (value : ℕ) : Bytes := (bigEndian 4 value).reverse

/-- The 32-bit value that `memcpy` takes from the beginning of some bytes. -/
def ofU32Bytes (bytes : Bytes) : ℕ := ofBigEndian (bytes.take 4).reverse

def hexDigit (digit : ℕ) : UInt8 := UInt8.ofNat (if digit < 10 then 48 + digit else 87 + digit)

/-- The name of a table, `Tab.%08x`. -/
def tabName (root : ℕ) : Bytes :=
  ([84, 97, 98, 46] : Bytes) ++
    (List.range 8).map fun i ↦ hexDigit ((root >>> (4 * (7 - i))) &&& 0xf)

/-- `mdb_put` on a database without duplicates: the entry replaces the one with its key. -/
def Db.put (db : Db) (key data : Bytes) : Db where
  integerKey := db.integerKey
  dupSort := db.dupSort
  entries := (db.entries.filter fun entry ↦ entry.1 ≠ key).orderedInsert
    (fun a b ↦ compareBytes a.1 b.1 ≤ 0) (key, data)
  nodup := by
    refine (List.perm_orderedInsert _ _ _).nodup_iff.mpr (List.nodup_cons.mpr ⟨?_, ?_⟩)
    · simp
    · exact db.nodup.filter _

/-- `mdb_del` on a database without duplicates. -/
def Db.del (db : Db) (key : Bytes) : Db where
  integerKey := db.integerKey
  dupSort := db.dupSort
  entries := db.entries.filter fun entry ↦ entry.1 ≠ key
  nodup := db.nodup.filter _

/-- `mdb_get` on a database without duplicates. -/
def Db.get (db : Db) (key : Bytes) : Option Bytes :=
  (db.entries.find? fun entry ↦ entry.1 = key).map Prod.snd

def Db.empty (integerKey dupSort : Bool) : Db := ⟨integerKey, dupSort, [], List.nodup_nil⟩

def Content.main (content : Content) : Db := (content.db .unnamed).getD (.empty false false)

/-- The content of a new environment: the unnamed database, without entries. -/
def Content.fresh : Content := ⟨Function.update (fun _ ↦ none) .unnamed (some (.empty false false))⟩

/-- What `mdb_put` to the unnamed database leaves. -/
def Content.put (key data : Bytes) (content : Content) : Content :=
  ⟨Function.update content.db .unnamed (some (content.main.put key data))⟩

/-- What creating the database of a root number leaves: the database without entries, and its name
among the entries of the unnamed one. The data under the name is LMDB's own. -/
def Content.create (root : ℕ) (integerKey dupSort : Bool) (content : Content) : Content :=
  ⟨Function.update (content.put (tabName root) []).db (.tab root)
    (some (.empty integerKey dupSort))⟩

/-- What `mdb_drop` leaves: a table is gone with its name, the unnamed database is emptied. -/
def Content.drop : DbName → Content → Content
  | .unnamed, content => ⟨Function.update content.db .unnamed
      (some (.empty content.main.integerKey content.main.dupSort))⟩
  | .tab root, content => ⟨Function.update
      (Function.update content.db .unnamed (some (content.main.del (tabName root))))
      (.tab root) none⟩

/-- What `mdb_drop` leaves without the flag to delete the database: it has no entry. -/
def Content.clear : DbName → Content → Content
  | .unnamed, content => content.drop .unnamed
  | .tab root, content => ⟨Function.update content.db (.tab root)
      ((content.db (.tab root)).map fun db ↦ .empty db.integerKey db.dupSort)⟩

/-- What a successful `mdb_open` leaves: the database is created when it does not exist. -/
def Content.opened (root : ℕ) (integerKey dupSort : Bool) (content : Content) : Content :=
  if (content.db (.tab root)).isSome then content else content.create root integerKey dupSort

/-! ### Calls of LMDB -/

namespace Env

/-- `mdb_get` on the unnamed database. -/
def mdbGet (env : Env) (t : ℕ) (key : Bytes) : Except MdbRc Bytes × Env :=
  if env.outcome ≠ .success then (.error env.outcome, env.spend)
  else
    match (env.seen t).main.get key with
    | some data => (.ok data, env.spend)
    | none => (.error .notFound, env.spend)

/-- Runs an update on the content of the write transaction `t`. -/
def modify (env : Env) (t : ℕ) (update : Content → Content) : Env :=
  { env with store := env.store.modifyAt t update }

/-- `mdb_put` on the unnamed database. -/
def mdbPut (env : Env) (t : ℕ) (key data : Bytes) : MdbRc × Env :=
  if env.outcome = .success then (.success, env.spend.modify t (Content.put key data))
  else (env.outcome, env.spend)

/-- `mdb_drop` with the flag that deletes the database. -/
def mdbDrop (env : Env) (t : ℕ) (name : DbName) : MdbRc × Env :=
  if env.outcome = .success then (.success, env.spend.modify t (Content.drop name))
  else (env.outcome, env.spend)

/-- `mdb_drop` without the flag that deletes the database. -/
def mdbDropEntries (env : Env) (t : ℕ) (name : DbName) : MdbRc × Env :=
  if env.outcome = .success then (.success, env.spend.modify t (Content.clear name))
  else (env.outcome, env.spend)

/-- `mdb_open` with the name of a table; `create`, `integerKey` and `dupSort` are its flags. The
flags of a database that exists are not changed, and a read transaction creates none. -/
def mdbOpen (parentOpens : Bool) (env : Env) (t root : ℕ) (create integerKey dupSort : Bool) :
    MdbRc × Env :=
  if env.blocked t ∧ parentOpens = false then (.badTxn, env)
  else if env.outcome ≠ .success then (env.outcome, env.spend)
  else if ((env.seen t).db (.tab root)).isSome ∨
      (create ∧ t ∈ env.store.writer.map Frame.id) then
    (.success, env.spend.modify t (Content.opened root integerKey dupSort))
  else if create then (.eacces, env.spend)
  else (.notFound, env.spend)

end Env

/-! ### The functions -/

def BTREE_LARGEST_ROOT_PAGE : ℕ := 4

def BTREE_INTKEY : ℕ := 1

def NUMMETA : ℕ := 16

/-- `errmap` of the number of an SQLite code: it is taken for an error of the system, most of which
`errmap` does not name. -/
def errmapAgain : Rc → Rc
  | .ok => .ok
  | .notfound => errmap .enomem
  | .full => errmap .eacces
  | .internal => errmap .enoent
  | .error => errmap .eperm
  | .busy => errmap .eio
  | _ => .internal

section

variable (parentOpens : Bool)

/-- `BtreeTableHandle`: the database of a root number. The unnamed database is opened without a
failure. Without a transaction it dereferences a null pointer. -/
def BtreeTableHandle (h : Handle) (iTable : ℕ) : Option (Except Rc DbName × Handle) :=
  h.bt.currTxn.map fun txn ↦
    if iTable = 1 ∧ (h.env.seen txn).main.entries = [] then (.ok .unnamed, h)
    else
      let found := h.env.mdbOpen parentOpens txn iTable false false false
      (if found.1 = .success then .ok (.tab iTable) else .error (errmap found.1),
        { h with env := found.2 })

/-- `sqlite3BtreeGetMeta`: whatever keeps it from reading the value, it is 0. -/
def sqlite3BtreeGetMeta (h : Handle) (idx : ℕ) : Option (ℕ × Handle) :=
  if idx = 0 then some (0, h)
  else
    h.bt.currTxn.map fun txn ↦
      let got := h.env.mdbGet txn (u32Bytes idx)
      (match got.1 with
        | .ok data => ofU32Bytes data
        | .error _ => 0, { h with env := got.2 })

/-- `sqlite3BtreeUpdateMeta` on an environment that is not read-only. -/
def sqlite3BtreeUpdateMeta (h : Handle) (idx iMeta : ℕ) : Option (Rc × Handle) :=
  h.bt.currTxn.map fun txn ↦
    let written := h.env.mdbPut txn (u32Bytes idx) (u32Bytes iMeta)
    (errmap written.1, { h with env := written.2 })

/-- The part of `sqlite3BtreeCreateTable` that creates the first table along with the second: the
code it ends with, and the number after it. -/
def createFirst (h : Handle) (main last : ℕ) : MdbRc × ℕ × Handle :=
  if last = 1 then
    let first := h.env.mdbOpen parentOpens main last true true false
    (first.1, last + 1, { h with env := first.2 })
  else (.success, last, h)

/-- The part of `sqlite3BtreeCreateTable` that opens the database of the new table. -/
def createNamed (h : Handle) (main last flags : ℕ) : Option (Rc × Option ℕ × Handle) :=
  let intKey : Bool := flags &&& BTREE_INTKEY ≠ 0
  let named := h.env.mdbOpen parentOpens main last (main ∉ h.env.store.readers.map Frame.id)
    intKey !intKey
  let h : Handle := { h with env := named.2 }
  if named.1 = .success then
    (sqlite3BtreeUpdateMeta h BTREE_LARGEST_ROOT_PAGE last).map fun updated ↦
      (.ok, some last, updated.2)
  else some (errmap named.1, none, h)

/-- `sqlite3BtreeCreateTable` with the value it writes to `*piTable`. The code of
`sqlite3BtreeUpdateMeta` is not looked at. -/
def sqlite3BtreeCreateTable (h : Handle) (flags : ℕ) : Option (Rc × Option ℕ × Handle) :=
  (sqlite3BtreeGetMeta h BTREE_LARGEST_ROOT_PAGE).bind fun got ↦
    h.bt.mainTxn.bind fun main ↦
      let first := createFirst parentOpens got.2 main ((got.1 + 1) % 2 ^ 32)
      if first.1 = .success then createNamed parentOpens first.2.2 main first.2.1 flags
      else some (errmap first.1, none, first.2.2)

/-- `sqlite3BtreeDropTable`; a code of `BtreeTableHandle` goes through `errmap` a second time. -/
def sqlite3BtreeDropTable (h : Handle) (iTable : ℕ) : Option (Rc × Handle) :=
  (BtreeTableHandle parentOpens h iTable).bind fun found ↦
    match found.1 with
    | .error rc => some (errmapAgain rc, found.2)
    | .ok name =>
      found.2.bt.currTxn.map fun txn ↦
        let dropped := found.2.env.mdbDrop txn name
        (errmap dropped.1, { found.2 with env := dropped.2 })

/-- A call on the database of a root number: `act` in the current transaction, or `code` of the code
of `BtreeTableHandle`. -/
def onTable (h : Handle) (iTable : ℕ) (code : Rc → Rc) (act : Env → ℕ → DbName → MdbRc × Env) :
    Option (Rc × Handle) :=
  (BtreeTableHandle parentOpens h iTable).bind fun found ↦
    match found.1 with
    | .error rc => some (code rc, found.2)
    | .ok name =>
      found.2.bt.currTxn.map fun txn ↦
        let done := act found.2.env txn name
        (errmap done.1, { found.2 with env := done.2 })

/-- `sqlite3BtreeClearTable` without a counter; a code of `BtreeTableHandle` goes through `errmap` a
second time. -/
def sqlite3BtreeClearTable (h : Handle) (iTable : ℕ) : Option (Rc × Handle) :=
  onTable parentOpens h iTable errmapAgain Env.mdbDropEntries

/-- `sqlite3BtreeCursor` on a root number. -/
def cursorOnRoot (h : Handle) (iTable pCur : ℕ) : Option (Rc × Handle) :=
  (BtreeTableHandle parentOpens h iTable).bind fun found ↦
    match found.1 with
    | .error rc => some (rc, found.2)
    | .ok name => sqlite3BtreeCursor found.2 name pCur

end

/-! ### What they do to a content -/

/-- Looking through a list into which an element was inserted.
Assumes: no other element is looked for when the inserted one is. -/
theorem find?_orderedInsert {α : Type*} (r : α → α → Prop) [DecidableRel r] {p : α → Bool} {a : α}
    {l : List α} (hrest : p a = true → l.find? p = none) :
    (l.orderedInsert r a).find? p = if p a = true then some a else l.find? p := by
  have hparts : l.find? p = ((l.takeWhile fun b ↦ ¬r a b).find? p).or
      ((l.dropWhile fun b ↦ ¬r a b).find? p) := by
    rw [← find?_append, takeWhile_append_dropWhile]
  rw [orderedInsert_eq_take_drop, find?_append, find?_cons]
  by_cases hpa : p a = true
  · have hnone := hparts.symm.trans (hrest hpa)
    rw [or_eq_none_iff] at hnone
    simp only [hpa, hnone.1, none_or, if_true]
  · simp [hpa, hparts]

variable {a b : ℕ} (db : Db)

theorem Db.get_del {key other : Bytes} (hne : other ≠ key) :
    (db.del key).get other = db.get other := by
  have hsame : (fun entry : Bytes × Bytes ↦ decide (decide (entry.1 ≠ key) = true ∧
      decide (entry.1 = other) = true)) = fun entry ↦ decide (entry.1 = other) := by
    funext entry
    by_cases heq : entry.1 = other
    · simp [heq, hne]
    · simp [heq]
  rw [Db.get, Db.del, find?_filter, hsame]
  rfl

/-- A put is seen under its key and nowhere else. -/
theorem Db.get_put (key data other : Bytes) :
    (db.put key data).get other = if other = key then some data else db.get other := by
  have hrest : decide (key = other) = true →
      (db.del key).entries.find? (fun entry ↦ decide (entry.1 = other)) = none := by
    intro heq
    rw [find?_eq_none]
    intro entry hentry
    have hne := (mem_filter.mp hentry).2
    simp only [← of_decide_eq_true heq]
    simpa using hne
  have hfind := find?_orderedInsert (fun a b : Bytes × Bytes ↦ compareBytes a.1 b.1 ≤ 0)
    (p := fun entry : Bytes × Bytes ↦ decide (entry.1 = other)) (a := (key, data))
    (l := (db.del key).entries) hrest
  have hget : (db.put key data).get other =
      (if decide (key = other) = true then some (key, data)
        else (db.del key).entries.find? (fun entry ↦ decide (entry.1 = other))).map Prod.snd :=
    congrArg (Option.map Prod.snd) hfind
  rw [hget]
  by_cases heq : other = key
  · simp [heq]
  · have hne : ¬key = other := fun h ↦ heq h.symm
    rw [if_neg heq, if_neg (by simpa using hne)]
    exact db.get_del heq

theorem ofU32Bytes_u32Bytes {value : ℕ} (hvalue : value < 2 ^ 32) :
    ofU32Bytes (u32Bytes value) = value := by
  have hlength : (u32Bytes value).length = 4 := by simp [u32Bytes]
  rw [ofU32Bytes, take_of_length_le hlength.le, u32Bytes, reverse_reverse,
    ofBigEndian_bigEndian]
  exact Nat.mod_eq_of_lt hvalue

theorem u32Bytes_inj (ha : a < 2 ^ 32) (hb : b < 2 ^ 32) (heq : u32Bytes a = u32Bytes b) :
    a = b := by
  rw [← ofU32Bytes_u32Bytes ha, heq, ofU32Bytes_u32Bytes hb]

/-- The name of a table is no key of a meta value. -/
theorem u32Bytes_ne_tabName (value root : ℕ) : u32Bytes value ≠ tabName root := by
  intro heq
  have hlength := congrArg List.length heq
  simp [u32Bytes, tabName] at hlength

theorem hexDigit_inj (ha : a < 16) (hb : b < 16) (heq : hexDigit a = hexDigit b) : a = b := by
  have hall : ∀ a b : Fin 16, hexDigit a = hexDigit b → a = b := by decide
  exact congrArg Fin.val (hall ⟨a, ha⟩ ⟨b, hb⟩ heq)

/-- Tables with different numbers have different names. -/
theorem tabName_inj (ha : a < 2 ^ 32) (hb : b < 2 ^ 32) (heq : tabName a = tabName b) : a = b := by
  have hdigits := map_inj_left.mp (append_cancel_left heq)
  refine Nat.eq_of_testBit_eq fun j ↦ ?_
  by_cases hj : j < 32
  · -- bit `j` is a bit of the digit it belongs to
    have hdigit := hdigits (7 - j / 4) (mem_range.mpr (by omega))
    have hsame := hexDigit_inj (Nat.lt_of_le_of_lt Nat.and_le_right (by decide))
      (Nat.lt_of_le_of_lt Nat.and_le_right (by decide)) hdigit
    have hbit := congrArg (fun digit ↦ Nat.testBit digit (j % 4)) hsame
    have hplace : 4 * (7 - (7 - j / 4)) + j % 4 = j := by omega
    have hmask : Nat.testBit 0xf (j % 4) = true := by
      have hfour : ∀ i : Fin 4, Nat.testBit 0xf i = true := by decide
      exact hfour ⟨j % 4, Nat.mod_lt _ (by decide)⟩
    simpa only [Nat.testBit_and, Nat.testBit_shiftRight, hmask, Bool.and_true, hplace] using hbit
  · have hpow : 2 ^ 32 ≤ 2 ^ j := Nat.pow_le_pow_right (by decide) (not_lt.mp hj)
    rw [Nat.testBit_lt_two_pow (ha.trans_le hpow), Nat.testBit_lt_two_pow (hb.trans_le hpow)]

namespace Content

/-- The stored value of `BTREE_LARGEST_ROOT_PAGE`, if there is one. -/
def storedRoot (content : Content) : Option ℕ :=
  (content.main.get (u32Bytes BTREE_LARGEST_ROOT_PAGE)).map ofU32Bytes

/-- The value of `BTREE_LARGEST_ROOT_PAGE`. -/
def largestRoot (content : Content) : ℕ := content.storedRoot.getD 0

variable {content : Content}

@[simp] theorem main_put (content : Content) (key data : Bytes) :
    (content.put key data).main = content.main.put key data := by
  simp [main, put]

@[simp] theorem put_tab (content : Content) (key data : Bytes) (root : ℕ) :
    (content.put key data).db (.tab root) = content.db (.tab root) := by
  simp [put]

@[simp] theorem main_create (content : Content) (root : ℕ) (integerKey dupSort : Bool) :
    (content.create root integerKey dupSort).main = content.main.put (tabName root) [] := by
  simp [main, create, put]

theorem create_tab (content : Content) (root other : ℕ) (integerKey dupSort : Bool) :
    (content.create root integerKey dupSort).db (.tab other) =
      if other = root then some (.empty integerKey dupSort) else content.db (.tab other) := by
  by_cases heq : other = root
  · simp [create, heq]
  · simp [create, put, heq]

@[simp] theorem storedRoot_create (content : Content) (root : ℕ) (integerKey dupSort : Bool) :
    (content.create root integerKey dupSort).storedRoot = content.storedRoot := by
  rw [storedRoot, main_create, Db.get_put, if_neg (u32Bytes_ne_tabName _ _), storedRoot]

@[simp] theorem storedRoot_opened (content : Content) (root : ℕ) (integerKey dupSort : Bool) :
    (content.opened root integerKey dupSort).storedRoot = content.storedRoot := by
  unfold opened
  split_ifs
  · rfl
  · exact storedRoot_create content root integerKey dupSort

/-- A table is opened as it is when it exists, and without entries otherwise. -/
theorem opened_tab (content : Content) (root other : ℕ) (integerKey dupSort : Bool) :
    (content.opened root integerKey dupSort).db (.tab other) =
      if other = root ∧ content.db (.tab root) = none then some (.empty integerKey dupSort)
      else content.db (.tab other) := by
  unfold opened
  by_cases hsome : (content.db (.tab root)).isSome
  · have hne : content.db (.tab root) ≠ none := isSome_iff_ne_none.mp hsome
    rw [if_pos hsome, if_neg fun h ↦ hne h.2]
  · have hnone : content.db (.tab root) = none := by simpa using hsome
    rw [if_neg hsome, create_tab]
    simp [hnone]

theorem storedRoot_put {idx : ℕ} (hidx : idx < 2 ^ 32) {value : ℕ} (hvalue : value < 2 ^ 32) :
    (content.put (u32Bytes idx) (u32Bytes value)).storedRoot =
      if idx = BTREE_LARGEST_ROOT_PAGE then some value else content.storedRoot := by
  rw [storedRoot, main_put, Db.get_put]
  by_cases heq : idx = BTREE_LARGEST_ROOT_PAGE
  · rw [if_pos (by rw [heq]), if_pos heq, map_some, ofU32Bytes_u32Bytes hvalue]
  · have hne : u32Bytes BTREE_LARGEST_ROOT_PAGE ≠ u32Bytes idx := fun h ↦
      heq (u32Bytes_inj (by decide) hidx h).symm
    rw [if_neg hne, if_neg heq, storedRoot]

theorem storedRoot_drop_tab (content : Content) (root : ℕ) :
    (content.drop (.tab root)).storedRoot = content.storedRoot := by
  have hmain : (content.drop (.tab root)).main = content.main.del (tabName root) := by
    simp [main, drop]
  rw [storedRoot, hmain, Db.get_del _ (u32Bytes_ne_tabName _ _), storedRoot]

theorem drop_tab (content : Content) (root other : ℕ) : (content.drop (.tab root)).db (.tab other) =
      if other = root then none else content.db (.tab other) := by
  by_cases heq : other = root
  · simp [drop, heq]
  · simp [drop, heq]

@[simp] theorem drop_unnamed_tab (content : Content) (root : ℕ) :
    (content.drop .unnamed).db (.tab root) = content.db (.tab root) := by
  simp [drop]

end Content

/-! ### What the calls do to an environment -/

namespace Env

/-- The code the call reports that comes after `i` others. -/
def code (env : Env) (i : ℕ) : MdbRc := env.outcomes.getD i .success

variable {frame : Frame Content} (parentOpens : Bool) (env : Env) (t : ℕ)
  (update : Content → Content) (i : ℕ)

theorem code_zero : env.code 0 = env.outcome := by
  unfold code outcome
  cases env.outcomes <;> rfl

@[simp] theorem code_spend : env.spend.code i = env.code (i + 1) := by
  simp [code, spend, getElem?_tail]

@[simp] theorem code_modify : (env.modify t update).code i = env.code i := rfl

@[simp] theorem modify_store : (env.modify t update).store = env.store.modifyAt t update := rfl

theorem seen_writer {env : Env} (hframe : frame ∈ env.store.writer) :
    env.seen frame.id = frame.content := by
  rw [seen, frame?_of_mem (mem_append_left _ hframe)]
  rfl

/-- A write transaction sees what an update leaves of its content. -/
theorem seen_modifyAt {env env' : Env} (hframe : frame ∈ env.store.writer)
    {update : Content → Content} (hstore : env'.store = env.store.modifyAt frame.id update) :
    env'.seen frame.id = update frame.content := by
  have hmem : (⟨frame.id, update frame.content⟩ : Frame Content) ∈ env'.store.writer := by
    rw [hstore, modifyAt_writer]
    exact mem_map.mpr ⟨frame, hframe, by simp [SnapshotStore.updateFrame]⟩
  exact seen_writer hmem

/-- `mdb_open` takes a call on the transaction and reports success. -/
def Opens (parentOpens : Bool) (env : Env) (t : ℕ) : Prop :=
  (env.blocked t = false ∨ parentOpens = true) ∧ env.outcome = .success

/-- `mdb_open` on a write transaction with the flag to create the database. -/
theorem mdbOpen_create {env : Env} {t : ℕ} (ht : t ∈ env.store.writer.map Frame.id) (root : ℕ)
    (integerKey dupSort : Bool) :
    (env.Opens parentOpens t ∧ env.mdbOpen parentOpens t root true integerKey dupSort =
        (.success, env.spend.modify t (Content.opened root integerKey dupSort))) ∨
      (¬env.Opens parentOpens t ∧
        (env.mdbOpen parentOpens t root true integerKey dupSort).1 ≠ .success ∧
        (env.mdbOpen parentOpens t root true integerKey dupSort).2.store = env.store) := by
  unfold mdbOpen Opens
  by_cases hrefused : env.blocked t = true ∧ parentOpens = false
  · refine .inr ⟨?_, ?_, ?_⟩
    · rw [hrefused.1, hrefused.2]
      simp
    · rw [if_pos hrefused]
      simp
    · rw [if_pos hrefused]
  · have htaken : env.blocked t = false ∨ parentOpens = true := by
      by_cases hblocked : env.blocked t = true
      · exact .inr (by simpa [hblocked] using hrefused)
      · exact .inl (by simpa using hblocked)
    by_cases hok : env.outcome = .success
    · refine .inl ⟨⟨htaken, hok⟩, ?_⟩
      rw [if_neg hrefused, if_neg (not_not.mpr hok), if_pos (.inr ⟨rfl, ht⟩)]
    · refine .inr ⟨fun h ↦ hok h.2, ?_, ?_⟩
      · rwa [if_neg hrefused, if_pos hok]
      · rw [if_neg hrefused, if_pos hok]
        rfl

/-- `mdb_open` without the flag to create the database changes no content. -/
theorem mdbOpen_lookup (t root : ℕ) (integerKey dupSort : Bool) :
    (env.mdbOpen parentOpens t root false integerKey dupSort).2.store = env.store := by
  unfold mdbOpen
  split_ifs with hrefused hcode hfound hcreate
  · rfl
  · rfl
  · refine env.store.modifyAt_eq_self fun frame hframe hid ↦ ?_
    have hsome : ((env.seen t).db (.tab root)).isSome := by simpa using hfound
    rw [← hid, seen_writer hframe] at hsome
    exact if_pos hsome
  · rfl
  · rfl

@[simp] theorem blocked_modify (t other : ℕ) (update : Content → Content) :
    (env.modify t update).blocked other = env.blocked other := by
  have hids : (env.store.writer.map (SnapshotStore.updateFrame t update)).head?.map Frame.id =
      env.store.writer.head?.map Frame.id := by
    rw [← head?_map, map_id_updateFrame, head?_map]
  simp only [blocked, modify, modifyAt_readers, modifyAt_writer, hids]
  congr

end Env

/-- The value `sqlite3BtreeGetMeta` finds for `BTREE_LARGEST_ROOT_PAGE`. -/
def Handle.readRoot (h : Handle) : ℕ :=
  if h.env.outcome = .success then h.visible.largestRoot else 0

theorem getMeta_root {h : Handle} {txn : ℕ} (hcurr : h.bt.currTxn = some txn) :
    sqlite3BtreeGetMeta h BTREE_LARGEST_ROOT_PAGE =
      some (h.readRoot, { h with env := h.env.spend }) := by
  have hvisible : h.visible = h.env.seen txn := by rw [Handle.visible, hcurr]
  unfold sqlite3BtreeGetMeta Handle.readRoot Env.mdbGet Content.largestRoot Content.storedRoot
  rw [if_neg (by decide), hcurr, map_some, hvisible]
  by_cases hok : h.env.outcome = .success
  · simp only [hok, ne_eq, not_true_eq_false, if_false, if_true]
    cases (h.env.seen txn).main.get (u32Bytes BTREE_LARGEST_ROOT_PAGE) with
    | none | some data => rfl
  · simp [hok]

/-! ### The updates of a call -/

/-- A call rewrites contents by updates of one kind, and moves no transaction. Where LMDB reports no
failure, none is left to be reported. -/
structure Rewrites (kind : Write → Prop) (h h' : Handle) : Prop where
  bt : h'.bt = h.bt
  updates : h.env.store.Updates kind h'.env.store
  codes : h.env.outcomes = [] → h'.env.outcomes = []

namespace Rewrites

variable {kind : Write → Prop} {h : Handle}

theorem refl (h : Handle) : Rewrites kind h h := ⟨rfl, .refl _, id⟩

theorem trans {h' h'' : Handle} (hfirst : Rewrites kind h h') (hsecond : Rewrites kind h' h'') :
    Rewrites kind h h'' :=
  ⟨hsecond.bt.trans hfirst.bt, hfirst.updates.trans hsecond.updates, hsecond.codes ∘ hfirst.codes⟩

theorem spend (h : Handle) : Rewrites kind h { h with env := h.env.spend } :=
  ⟨rfl, .refl _, fun hcodes ↦ by simp [Env.spend, hcodes]⟩

theorem modify (h : Handle) (t : ℕ) {update : Write} (hkind : kind update) :
    Rewrites kind h { h with env := h.env.spend.modify t update } :=
  ⟨rfl, .step (.refl _) t hkind, fun hcodes ↦ by simp [Env.modify, Env.spend, hcodes]⟩

theorem mdbPut (h : Handle) (t : ℕ) {key data : Bytes} (hkind : kind (Content.put key data)) :
    Rewrites kind h { h with env := (h.env.mdbPut t key data).2 } := by
  unfold Env.mdbPut
  split_ifs
  · exact modify h t hkind
  · exact spend h

theorem mdbOpen (opens : Bool) (h : Handle) (t : ℕ) {root : ℕ} (create : Bool)
    {integerKey dupSort : Bool} (hkind : kind (Content.opened root integerKey dupSort)) :
    Rewrites kind h
      { h with env := (h.env.mdbOpen opens t root create integerKey dupSort).2 } := by
  unfold Env.mdbOpen
  split_ifs
  · exact refl h
  · exact spend h
  · exact modify h t hkind
  · exact spend h
  · exact spend h

theorem all {P : Content → Prop} {h' : Handle} (hrewrites : Rewrites kind h h')
    (hkeeps : ∀ update, kind update → ∀ content, P content → P (update content))
    (hall : h.env.store.All P) : h'.env.store.All P :=
  hrewrites.updates.all hkeeps hall

end Rewrites

/-- The updates that `sqlite3BtreeCreateTable` makes. -/
inductive CreateUpdate : Write → Prop
  | first : CreateUpdate (Content.opened 1 true false)
  | named {root : ℕ} (other : root ≠ 1) (fits : root < 2 ^ 32) (intKey : Bool) :
      CreateUpdate (Content.opened root intKey !intKey)
  | number (value : ℕ) :
      CreateUpdate (Content.put (u32Bytes BTREE_LARGEST_ROOT_PAGE) (u32Bytes value))

variable {h : Handle} {kind : Write → Prop} {result : Rc × Option ℕ × Handle} {txn : ℕ}
  (opens : Bool)

theorem getMeta_rewrites {idx : ℕ} {got : ℕ × Handle} (hcall : sqlite3BtreeGetMeta h idx = some got)
    : Rewrites kind h got.2 := by
  unfold sqlite3BtreeGetMeta at hcall
  split_ifs at hcall
  · cases hcall
    exact .refl h
  · obtain ⟨txn, _, rfl⟩ := map_eq_some_iff.mp hcall
    have henv : (h.env.mdbGet txn (u32Bytes idx)).2 = h.env.spend := by
      unfold Env.mdbGet
      split_ifs
      · rfl
      · split <;> rfl
    simp only [henv]
    exact .spend h

theorem updateMeta_rewrites {idx iMeta : ℕ} {result : Rc × Handle}
    (hkind : kind (Content.put (u32Bytes idx) (u32Bytes iMeta)))
    (hcall : sqlite3BtreeUpdateMeta h idx iMeta = some result) : Rewrites kind h result.2 := by
  obtain ⟨txn, _, rfl⟩ := map_eq_some_iff.mp hcall
  exact .mdbPut h txn hkind

theorem createNamed_rewrites {opens : Bool} {main last flags : ℕ} (hother : last ≠ 1)
    (hfits : last < 2 ^ 32) (hcall : createNamed opens h main last flags = some result) :
    Rewrites CreateUpdate h result.2.2 := by
  unfold createNamed at hcall
  simp only at hcall
  have hopened := Rewrites.mdbOpen opens h main (main ∉ h.env.store.readers.map Frame.id)
    (CreateUpdate.named hother hfits (flags &&& BTREE_INTKEY ≠ 0))
  split_ifs at hcall
  · obtain ⟨updated, hupdated, rfl⟩ := map_eq_some_iff.mp hcall
    exact hopened.trans (updateMeta_rewrites (.number last) hupdated)
  · cases hcall
    exact hopened

theorem createTable_rewrites {opens : Bool} {flags : ℕ}
    (hcall : sqlite3BtreeCreateTable opens h flags = some result) :
    Rewrites CreateUpdate h result.2.2 := by
  obtain ⟨got, hgot, hrest⟩ := bind_eq_some_iff.mp hcall
  obtain ⟨main, _, hrest⟩ := bind_eq_some_iff.mp hrest
  have hread : Rewrites CreateUpdate h got.2 := getMeta_rewrites hgot
  have hfirst : ∀ last, Rewrites CreateUpdate got.2
    (createFirst opens got.2 main last).2.2 := by
    intro last
    unfold createFirst
    split_ifs with hone
    · rw [hone]
      exact .mdbOpen opens got.2 main true .first
    · exact .refl _
  have hnumber : (createFirst opens got.2 main ((got.1 + 1) % 2 ^ 32)).2.1 ≠ 1 ∧
      (createFirst opens got.2 main ((got.1 + 1) % 2 ^ 32)).2.1 < 2 ^ 32 := by
    have hmod := Nat.mod_lt (got.1 + 1) (show 0 < 2 ^ 32 by decide)
    unfold createFirst
    split_ifs with hone
    · rw [hone]
      exact ⟨by simp, by simp⟩
    · exact ⟨hone, hmod⟩
  simp only at hrest
  split_ifs at hrest
  · exact (hread.trans (hfirst _)).trans (createNamed_rewrites hnumber.1 hnumber.2 hrest)
  · cases hrest
    exact hread.trans (hfirst _)

/-- `BtreeTableHandle` changes nothing, and finds the unnamed database only for root 1 and without
an entry. -/
theorem tableHandle_cases (hcurr : h.bt.currTxn = some txn) (iTable : ℕ) :
    ∃ found h', BtreeTableHandle opens h iTable = some (found, h') ∧
      h'.bt = h.bt ∧ h'.env.store = h.env.store ∧ (h.env.outcomes = [] → h'.env.outcomes = []) ∧
      ∀ name, found = .ok name →
        (name = .unnamed ∧ (h.env.seen txn).main.entries = []) ∨ name = .tab iTable := by
  unfold BtreeTableHandle
  rw [hcurr, map_some]
  by_cases hunnamed : iTable = 1 ∧ (h.env.seen txn).main.entries = []
  · simp only [if_pos hunnamed]
    refine ⟨_, _, rfl, rfl, rfl, id, fun name hname ↦ .inl ⟨?_, hunnamed.2⟩⟩
    exact (Except.ok.inj hname).symm
  · have hkeeps : Rewrites (fun _ ↦ True) h
        { h with env := (h.env.mdbOpen opens txn iTable false false false).2 } :=
      .mdbOpen opens h txn false trivial
    simp only [if_neg hunnamed]
    refine ⟨_, _, rfl, rfl, Env.mdbOpen_lookup .., hkeeps.codes, fun name hname ↦ .inr ?_⟩
    split_ifs at hname
    exact (Except.ok.inj hname).symm

/-- A call on the database of a root number changes nothing or updates that database.
Assumes: `act` makes the update where it reports success. -/
theorem onTable_cases (hcurr : h.bt.currTxn = some txn) (iTable : ℕ) (code : Rc → Rc)
    (act : Env → ℕ → DbName → MdbRc × Env) (update : DbName → Write)
    (hact : ∀ env name, act env txn name = if env.outcome = .success then
      (.success, env.spend.modify txn (update name)) else (env.outcome, env.spend)) :
    ∃ rc h', onTable opens h iTable code act = some (rc, h') ∧
      h'.bt = h.bt ∧ (h.env.outcomes = [] → h'.env.outcomes = []) ∧
      (h'.env.store = h.env.store ∨ ∃ name,
        ((name = .unnamed ∧ (h.env.seen txn).main.entries = []) ∨ name = .tab iTable) ∧
          h'.env.store = h.env.store.modifyAt txn (update name)) := by
  obtain ⟨found, h', hhandle, hbt, hstore, hcodes, hname⟩ :=
    tableHandle_cases opens hcurr iTable
  unfold onTable
  rw [hhandle, bind_some]
  cases found with
  | error rc => exact ⟨_, _, rfl, hbt, hcodes, .inl hstore⟩
  | ok name =>
    simp only [hbt, hcurr, map_some, hact]
    refine ⟨_, _, rfl, rfl, ?_, ?_⟩
    · intro hnil
      split_ifs <;> simp [Env.modify, Env.spend, hcodes hnil]
    · split_ifs
      · refine .inr ⟨name, hname name rfl, ?_⟩
        rw [← hstore]
        rfl
      · exact .inl hstore

/-- `sqlite3BtreeDropTable` changes nothing or drops the database of the root number. -/
theorem dropTable_cases (hcurr : h.bt.currTxn = some txn) (iTable : ℕ) :
    ∃ rc h', sqlite3BtreeDropTable opens h iTable = some (rc, h') ∧
      h'.bt = h.bt ∧ (h.env.outcomes = [] → h'.env.outcomes = []) ∧
      (h'.env.store = h.env.store ∨ ∃ name,
        ((name = .unnamed ∧ (h.env.seen txn).main.entries = []) ∨ name = .tab iTable) ∧
          h'.env.store = h.env.store.modifyAt txn (Content.drop name)) :=
  onTable_cases opens hcurr iTable errmapAgain Env.mdbDrop Content.drop fun _ _ ↦ rfl

end LumoSQL
