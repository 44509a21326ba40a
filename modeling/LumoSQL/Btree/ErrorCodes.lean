import LumoSQL.Btree.Catalog
import LumoSQL.Btree.CursorFlag
import LumoSQL.Foundation.CallTree

/-!
# What becomes of the codes of LMDB

Every call of LMDB reports a code, which the functions of `btree.c` are to return as an SQLite code,
mapped once by `errmap`. This module follows the codes through the cursor moves and the table
operations: each is a program over the codes of its calls (`CallTree`), and what it reads of its
state is an argument. `MDB_NOTFOUND` is not an error, it says that there is no entry.

The moves drop the code of `mdb_cursor_get`. `sqlite3BtreeClearTable` and `sqlite3BtreeDropTable`
map what `BtreeTableHandle` has mapped already. `sqlite3BtreeCreateTable` does not look at the codes
of the calls that read and write the meta value. `errors_reach_iff` says for every operation which
errors reach the caller, and when a scan ends with the error that has occurred: only if there is
none. A scan that LMDB fails persistently never ends (`errors_lost`).
-/

namespace LumoSQL

open Foundation List Option

/-- A code that is an error: there not being an entry is none. -/
def MdbRc.IsError (rc : MdbRc) : Prop := rc ≠ .success ∧ rc ≠ .notFound

instance (rc : MdbRc) : Decidable rc.IsError := inferInstanceAs (Decidable (_ ∧ _))

def firstError (codes : List MdbRc) : Option MdbRc := codes.find? fun rc ↦ rc.IsError

/-- A function as far as it depends on the codes of LMDB. -/
abbrev Codes := CallTree MdbRc

namespace Codes

open CallTree

/-! ### The cursor moves -/

/-- `sqlite3BtreeFirst` and `sqlite3BtreeLast` with the value of `*pRes`: the code of
`mdb_cursor_get` is not looked at. A table without a root page is empty. -/
def moveToEnd (noRoot : Bool) : Codes (Rc × Bool) := do
  if noRoot then return (.ok, true)
  let _ ← reply
  return (.ok, false)

def sqlite3BtreeFirst (noRoot : Bool) : Codes (Rc × Bool) := moveToEnd noRoot

def sqlite3BtreeLast (noRoot : Bool) : Codes (Rc × Bool) := moveToEnd noRoot

/-- `sqlite3BtreeNext` and `sqlite3BtreePrevious` with the value of `*pRes`: of the codes of
`mdb_cursor_get` they look at `MDB_NOTFOUND` only. -/
def moveOn (noRoot : Bool) : Codes (Rc × Bool) := do
  if noRoot then return (.ok, true)
  let rc ← reply
  return (.ok, rc = .notFound)

def sqlite3BtreeNext (noRoot : Bool) : Codes (Rc × Bool) := moveOn noRoot

def sqlite3BtreePrevious (noRoot : Bool) : Codes (Rc × Bool) := moveOn noRoot

/-- What `sqlite3BtreeMovetoUnpacked` searches for: a rowid, the fields of an index, or the fields
with the rowid. -/
inductive Search
  | intKey
  | fields
  | fieldsRowid

/-- The calls of `mdb_cursor_get` of a search: `MDB_SET`, `MDB_SET_RANGE`, or `MDB_GET_BOTH_RANGE`
and `MDB_SET_RANGE` where that finds nothing. -/
def Search.get : Search → Codes MdbRc
  | .intKey => reply
  | .fields => reply
  | .fieldsRowid => do
    let ret ← reply
    if ret = .notFound then reply else return ret

/-- `sqlite3BtreeMovetoUnpacked`. When the search does not succeed it asks the page of the cursor
for its number of keys: without a page (`page`) that dereferences a null pointer. -/
def sqlite3BtreeMovetoUnpacked (noEntries : Bool) (search : Search) (page : Bool) :
    Codes (Option Rc) := do
  if noEntries then return some .ok
  let ret ← search.get
  if ret ≠ .success ∧ page = false then return none
  return some (errmap (if ret = .notFound then .success else ret))

/-! ### The table operations -/

def BtreeTableHandle : Codes Rc := do
  return errmap (← reply)

/-- `sqlite3BtreeClearTable` and `sqlite3BtreeDropTable`: `mdb_drop` on the database of the table,
and `errmap` of whatever code there is. -/
def dropOnTable : Codes Rc := do
  let rc ← BtreeTableHandle
  if rc ≠ .ok then return errmapAgain rc
  return errmap (← reply)

def sqlite3BtreeClearTable : Codes Rc := dropOnTable

def sqlite3BtreeDropTable : Codes Rc := dropOnTable

/-- `sqlite3BtreeGetMeta`, where the value `stored` can be read. -/
def sqlite3BtreeGetMeta (stored : ℕ) : Codes ℕ := do
  let _ ← reply
  let rc ← reply
  return if rc = .success then stored else 0

def sqlite3BtreeUpdateMeta (rdonly : Bool) : Codes Rc := do
  if rdonly then return .readonly
  let _ ← reply
  return errmap (← reply)

/-- The end of `sqlite3BtreeCreateTable`, from where the database of the table is opened. -/
def createNamed (rdonly : Bool) : Codes Rc := do
  let rc ← reply
  if rc ≠ .success then return errmap rc
  let _ ← sqlite3BtreeUpdateMeta rdonly
  return .ok

/-- `sqlite3BtreeCreateTable`; the first table is created along with the second. -/
def sqlite3BtreeCreateTable (stored : ℕ) (rdonly : Bool) : Codes Rc := do
  let last ← sqlite3BtreeGetMeta stored
  if (last + 1) % 2 ^ 32 = 1 then
    let rc ← reply
    if rc ≠ .success then return errmap rc
    createNamed rdonly
  else createNamed rdonly

def sqlite3BtreeCursor : Codes Rc := BtreeTableHandle

end Codes

/-! ### The operations together -/

/-- A cursor move or a table operation, with what it reads of its state. -/
inductive Operation
  | first (noRoot : Bool)
  | last (noRoot : Bool)
  | next (noRoot : Bool)
  | previous (noRoot : Bool)
  | movetoUnpacked (noEntries : Bool) (search : Codes.Search) (page : Bool)
  | clearTable
  | dropTable
  | createTable (stored : ℕ) (rdonly : Bool)
  | cursor

namespace Operation

/-- The operation; none where it dereferences a null pointer. -/
def code : Operation → Codes (Option Rc)
  | .first noRoot => do return some (← Codes.sqlite3BtreeFirst noRoot).1
  | .last noRoot => do return some (← Codes.sqlite3BtreeLast noRoot).1
  | .next noRoot => do return some (← Codes.sqlite3BtreeNext noRoot).1
  | .previous noRoot => do return some (← Codes.sqlite3BtreePrevious noRoot).1
  | .movetoUnpacked noEntries search page => Codes.sqlite3BtreeMovetoUnpacked noEntries search page
  | .clearTable => do return some (← Codes.sqlite3BtreeClearTable)
  | .dropTable => do return some (← Codes.sqlite3BtreeDropTable)
  | .createTable stored rdonly => do return some (← Codes.sqlite3BtreeCreateTable stored rdonly)
  | .cursor => do return some (← Codes.sqlite3BtreeCursor)

/-- The codes of the calls of `mdb_open` that create the databases of `sqlite3BtreeCreateTable`,
after the two calls that read the meta value: that of the first table where it is created and fails,
or else that of the new one. -/
def createCode (stored : ℕ) (answer : ℕ → MdbRc) : MdbRc :=
  if ((if answer 1 = .success then stored else 0) + 1) % 2 ^ 32 = 1 then
    if answer 2 = .success then answer 3 else answer 2
  else answer 2

/-- When the first error reaches the caller. -/
def Reported (answer : ℕ → MdbRc) (rc : MdbRc) : Operation → Prop
  | .first _ | .last _ | .next _ | .previous _ => False
  | .movetoUnpacked _ _ page => page = true
  | .clearTable | .dropTable => answer 0 = .success
  | .createTable stored _ => errmap (createCode stored answer) = errmap rc
  | .cursor => True

end Operation

/-- A code that is mapped twice is another one. -/
theorem errmapAgain_ne {rc : MdbRc} (hrc : rc ≠ .success) :
    errmapAgain (errmap rc) ≠ errmap rc := by
  cases rc with
  | success => exact absurd rfl hrc
  | other code => exact Rc.noConfusion
  | _ => decide

/-- The moves return success whatever LMDB reports. -/
theorem moves_ok (noRoot : Bool) (answer : ℕ → MdbRc) :
    ((Codes.moveToEnd noRoot).run answer).1 = .ok ∧ ((Codes.moveOn noRoot).run answer).1 = .ok := by
  cases noRoot <;> simp [Codes.moveToEnd, Codes.moveOn]

theorem isError_of_firstError {codes : List MdbRc} {rc : MdbRc}
    (hfirst : firstError codes = some rc) : rc.IsError := by
  have hfound := find?_some hfirst
  exact of_decide_eq_true hfound

theorem firstError_singleton {code rc : MdbRc} (hfirst : firstError [code] = some rc) : code = rc :=
  (mem_singleton.mp (mem_of_find?_eq_some hfirst)).symm

theorem firstError_cons {code : MdbRc} (hfine : ¬ code.IsError) (codes : List MdbRc) :
    firstError (code :: codes) = firstError codes := by
  rw [firstError, find?_cons, decide_eq_false hfine]
  rfl

section

variable {answer : ℕ → MdbRc} {rc : MdbRc}

/-- The code of a search is that of the call that fails. -/
theorem search_reports {search : Codes.Search}
    (hfirst : firstError (search.get.trace answer) = some rc) : search.get.run answer = rc := by
  cases search with
  | intKey | fields => exact firstError_singleton hfirst
  | fieldsRowid =>
    by_cases hmissing : answer 0 = .notFound
    · have hfine : ¬ MdbRc.IsError .notFound := by decide
      simp [Codes.Search.get, hmissing, firstError_cons hfine] at hfirst ⊢
      exact firstError_singleton hfirst
    · simp [Codes.Search.get, hmissing] at hfirst ⊢
      exact firstError_singleton hfirst

/-- A search returns the error if the cursor has a page. -/
theorem movetoUnpacked_reports {noEntries page : Bool} {search : Codes.Search} (hfirst : firstError
      ((Codes.sqlite3BtreeMovetoUnpacked noEntries search page).trace answer) = some rc) :
    (Codes.sqlite3BtreeMovetoUnpacked noEntries search page).run answer = some (errmap rc) ↔
      page = true := by
  obtain ⟨hfailed, hfound⟩ := isError_of_firstError hfirst
  cases noEntries with
  | true => exact absurd hfirst (by simp [Codes.sqlite3BtreeMovetoUnpacked, firstError])
  | false =>
    have htrace : (Codes.sqlite3BtreeMovetoUnpacked false search page).trace answer =
        search.get.trace answer := by
      simp only [Codes.sqlite3BtreeMovetoUnpacked, Bool.false_eq_true, if_false,
        CallTree.trace_bind]
      split_ifs <;> simp
    rw [htrace] at hfirst
    have hget := search_reports hfirst
    cases page with
    | true => simp [Codes.sqlite3BtreeMovetoUnpacked, hget, hfound]
    | false => simp [Codes.sqlite3BtreeMovetoUnpacked, hget, hfailed]

/-- The first error of `sqlite3BtreeClearTable` and `sqlite3BtreeDropTable` reaches the caller
exactly if it is one of `mdb_drop`. -/
theorem dropOnTable_reports (hfirst : firstError (Codes.dropOnTable.trace answer) = some rc) :
    some (Codes.dropOnTable.run answer) = some (errmap rc) ↔ answer 0 = .success := by
  rw [some_inj]
  by_cases hopened : answer 0 = .success
  · have hfine : ¬ MdbRc.IsError .success := by decide
    simp [Codes.dropOnTable, Codes.BtreeTableHandle, hopened, errmap, firstError_cons hfine]
      at hfirst ⊢
    rw [firstError_singleton hfirst]
  · simp [Codes.dropOnTable, Codes.BtreeTableHandle, hopened] at hfirst ⊢
    rw [firstError_singleton hfirst] at hopened ⊢
    exact errmapAgain_ne hopened

/-- `sqlite3BtreeCreateTable` returns the code of the calls that create databases. -/
theorem createTable_run (stored : ℕ) (rdonly : Bool) (answer : ℕ → MdbRc) :
    (Codes.sqlite3BtreeCreateTable stored rdonly).run answer =
      errmap (Operation.createCode stored answer) := by
  have hnamed : ∀ later : ℕ → MdbRc, (Codes.createNamed rdonly).run later = errmap (later 0) := by
    intro later
    by_cases hopened : later 0 = .success
    · simp [Codes.createNamed, hopened, errmap]
    · simp [Codes.createNamed, hopened]
  rw [Operation.createCode]
  by_cases hone : ((if answer 1 = .success then stored else 0) + 1) % 2 ^ 32 = 1
  · by_cases hopened : answer 2 = .success
    · simp [Codes.sqlite3BtreeCreateTable, Codes.sqlite3BtreeGetMeta, hone, hopened, hnamed,
        -Nat.reducePow]
    · simp [Codes.sqlite3BtreeCreateTable, Codes.sqlite3BtreeGetMeta, hone, hopened, -Nat.reducePow]
  · simp [Codes.sqlite3BtreeCreateTable, Codes.sqlite3BtreeGetMeta, hone, hnamed, -Nat.reducePow]

theorem Operation.reports (op : Operation) (hfirst : firstError (op.code.trace answer) = some rc) :
    op.code.run answer = some (errmap rc) ↔ op.Reported answer rc := by
  have hfailed : ¬ some Rc.ok = some (errmap rc) := fun hok ↦
    (isError_of_firstError hfirst).1 ((errmap_eq_ok_iff rc).mp (some_inj.mp hok).symm)
  have hdropped : ∀ {value : Rc}, value = .ok → (some value = some (errmap rc) ↔ False) := by
    rintro _ rfl
    exact iff_of_false hfailed id
  cases op with
  | first noRoot | last noRoot =>
    rw [Operation.code, CallTree.run_map]
    exact hdropped (moves_ok noRoot answer).1
  | next noRoot | previous noRoot =>
    rw [Operation.code, CallTree.run_map]
    exact hdropped (moves_ok noRoot answer).2
  | movetoUnpacked noEntries search page => exact movetoUnpacked_reports hfirst
  | clearTable | dropTable =>
    rw [Operation.code, CallTree.trace_map] at hfirst
    rw [Operation.code, CallTree.run_map]
    exact dropOnTable_reports hfirst
  | createTable stored rdonly =>
    rw [Operation.code, CallTree.run_map, createTable_run, some_inj]
    rfl
  | cursor =>
    rw [Operation.code, CallTree.trace_map] at hfirst
    rw [Operation.code, CallTree.run_map, Codes.sqlite3BtreeCursor, Codes.BtreeTableHandle,
      CallTree.run_map]
    exact iff_of_true (congrArg (some ∘ errmap) (firstError_singleton hfirst)) trivial

end

/-! ### Scans -/

/-- The codes that LMDB fails with at the steps of a scan, or success: whether there is an entry is
up to the place of the cursor. -/
abbrev Faults := ℕ → { rc : MdbRc // rc ≠ .notFound }

/-- A step of the scan `First`, then `Next`: the code with `*pRes`, and the cursor. -/
def scanStep (c : TableCursor) (faults : Faults) : ℕ → (Rc × Bool) × TableCursor
  | 0 =>
    let got := c.mdbCursorGet (faults 0) (firstPlace c.entries)
    ((Codes.sqlite3BtreeFirst (c.entries = [])).run fun _ ↦ got.1, c.sqlite3BtreeFirst (faults 0))
  | k + 1 =>
    let before := (scanStep c faults k).2
    let got := before.mdbCursorGet (faults (k + 1)) before.next
    ((Codes.sqlite3BtreeNext (before.entries = [])).run fun _ ↦ got.1,
      before.sqlite3BtreeNext (faults (k + 1)))

/-- The scan that goes on while `*pRes` is 0 takes at most one step more than there are entries, and
returns the errors of its steps. -/
def ScanReports (c : TableCursor) (faults : Faults) : Prop :=
  ∃ k ≤ c.entries.length, (scanStep c faults k).1.2 = true ∧
    (∀ j < k, (scanStep c faults j).1.2 = false) ∧
    (c.entries ≠ [] → ∀ i ≤ k, (faults i).1 ≠ .success →
      (scanStep c faults i).1.1 = errmap (faults i))

section

variable {c : TableCursor} {faults : Faults}

theorem scanStep_ok (k : ℕ) : (scanStep c faults k).1.1 = .ok := by
  cases k with
  | zero => exact (moves_ok _ _).1
  | succ k => exact (moves_ok _ _).2

/-- While LMDB does not fail, the scan is at one entry after the other. -/
theorem scanStep_clear {k : ℕ} (hk : k < c.entries.length)
    (hclear : ∀ i ≤ k, (faults i).1 = .success) :
    scanStep c faults k = ((.ok, false), { c with pos := some k }) := by
  have hfull : c.entries ≠ [] := ne_nil_of_length_pos (by omega)
  induction k with
  | zero =>
    simp [scanStep, Codes.sqlite3BtreeFirst, Codes.moveToEnd, TableCursor.sqlite3BtreeFirst,
      TableCursor.mdbCursorGet, firstPlace, hfull, hclear 0 (le_refl 0)]
  | succ k ih =>
    rw [scanStep, ih (by omega) fun i hi ↦ hclear i (by omega)]
    simp [Codes.sqlite3BtreeNext, Codes.moveOn, TableCursor.sqlite3BtreeNext,
      TableCursor.mdbCursorGet, TableCursor.next, nextPlace, hfull, hclear _ (le_refl _), hk]

/-- A scan without a failure ends behind the last entry. -/
theorem scanStep_end (hfull : c.entries ≠ [])
    (hclear : ∀ i ≤ c.entries.length, (faults i).1 = .success) :
    (scanStep c faults c.entries.length).1.2 = true := by
  obtain ⟨k, hk⟩ := Nat.exists_eq_succ_of_ne_zero (length_pos_iff.mpr hfull).ne'
  have hlast := scanStep_clear (c := c) (k := k) (by omega) fun i hi ↦ hclear i (by omega)
  rw [hk, scanStep, hlast]
  simp [Codes.sqlite3BtreeNext, Codes.moveOn, TableCursor.mdbCursorGet, TableCursor.next, nextPlace,
    hfull, hclear _ hk.ge, hk]

/-- A scan ends in time with the errors of its steps exactly if there are none. -/
theorem scanReports_iff : ScanReports c faults ↔
    c.entries = [] ∨ ∀ i ≤ c.entries.length, (faults i).1 = .success := by
  by_cases hempty : c.entries = []
  · refine iff_of_true ⟨0, Nat.zero_le _, ?_, by simp, fun hfull ↦ absurd hempty hfull⟩
      (.inl hempty)
    simp [scanStep, Codes.sqlite3BtreeFirst, Codes.moveToEnd, hempty]
  rw [or_iff_right hempty]
  constructor
  · rintro ⟨k, hk, hended, hgoes, hcodes⟩
    -- the first step that LMDB fails comes before the end, and its code is dropped
    have hclear : ∀ i ≤ k, (faults i).1 = .success := by
      intro i hi
      by_contra hfault
      have hcode := hcodes hempty i hi hfault
      rw [scanStep_ok] at hcode
      exact hfault ((errmap_eq_ok_iff _).mp hcode.symm)
    rcases lt_or_eq_of_le hk with hlt | rfl
    · rw [scanStep_clear hlt hclear] at hended
      exact absurd hended Bool.false_ne_true
    · exact hclear
  · intro hclear
    refine ⟨c.entries.length, le_refl _, scanStep_end hempty hclear, fun j hj ↦ ?_,
      fun _ i hi hfault ↦ absurd (hclear i hi) hfault⟩
    rw [scanStep_clear hj fun i hi ↦ hclear i (by omega)]

end

/-- The first error that a call of LMDB reports to an operation is returned in the cases that
`Operation.Reported` lists, and a scan ends in time with the errors of its steps exactly if the
table is empty or there are none. -/
theorem errors_reach_iff (op : Operation) (answer : ℕ → MdbRc) (rc : MdbRc) (c : TableCursor)
    (faults : Faults) :
    (firstError (op.code.trace answer) = some rc →
      (op.code.run answer = some (errmap rc) ↔ op.Reported answer rc)) ∧
    (ScanReports c faults ↔
      c.entries = [] ∨ ∀ i ≤ c.entries.length, (faults i).1 = .success) :=
  ⟨op.reports, scanReports_iff⟩

/-- A cursor on a table that cannot be opened for an error of the disk returns it, and a scan of one
entry ends. -/
theorem errors_reach_cursor : (Operation.cursor.code.run fun _ ↦ .eio) = some (errmap .eio) ∧
    ScanReports ⟨true, false, [([1], [2])], none⟩ fun _ ↦ ⟨.success, by decide⟩ := by
  have hboth := errors_reach_iff .cursor (fun _ ↦ .eio) .eio ⟨true, false, [([1], [2])], none⟩
    fun _ ↦ ⟨.success, by decide⟩
  exact ⟨(hboth.1 rfl).mpr trivial, hboth.2.mpr (.inr fun _ _ ↦ rfl)⟩

/-- `sqlite3BtreeClearTable` of a table that cannot be opened for an error of the disk returns
`SQLITE_INTERNAL`, and a scan of one entry goes on for ever if the disk fails. -/
theorem errors_lost : firstError (Operation.clearTable.code.trace fun _ ↦ .eio) = some .eio ∧
    (Operation.clearTable.code.run fun _ ↦ .eio) = some .internal ∧ errmap .eio = .ioerr ∧
    ∀ k, (scanStep ⟨true, false, [([1], [2])], none⟩ (fun _ ↦ ⟨.eio, by decide⟩) k).1 =
      (.ok, false) := by
  refine ⟨rfl, rfl, rfl, fun k ↦ ?_⟩
  have hstays : scanStep ⟨true, false, [([1], [2])], none⟩ (fun _ ↦ ⟨.eio, by decide⟩) k =
      ((.ok, false), ⟨true, false, [([1], [2])], none⟩) := by
    induction k with
    | zero => rfl
    | succ k ih =>
      rw [scanStep, ih]
      rfl
  rw [hstays]

end LumoSQL
