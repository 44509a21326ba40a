import LumoSQL.Btree.NotForking
import LumoSQL.Foundation.GuardedRun
import LumoSQL.Foundation.Walk

/-!
# The flag of the not-forking cursors

The first version of `btree.c` asks LMDB's own flag `C_INITIALIZED` whether a cursor is at an entry.
The not-forking version keeps `mc_init` beside the LMDB cursor, which every operation has to set or
clear, and asks `mdb_cursor_count` as well, which can tell on an index only
(`NotForking.TableCursor.mdbCursorInitialised`). This module runs the two versions on the same
calls, over any content of the table (`Both.step`).

They do not agree (`flag_lost`): a search that finds its row leaves `mc_init` clear on a cursor that
has just been opened, so that the row cannot be read, and clearing a cursor takes it to the first
entry. `flags_agree_iff` says in which runs they do, and that the row of a search can be read and a
cleared cursor counts as moved there.

LMDB's side is what both versions share: a call that LMDB fails leaves the cursor as it is, and
where a search that finds nothing leaves it is an argument of the call.
-/

namespace LumoSQL

open Foundation

/-! ### A cursor over a table -/

/-- An LMDB cursor with the table it is on: whether it is open, whether the table has sorted
duplicates, its entries, and the position, none while `C_INITIALIZED` is clear. -/
structure TableCursor where
  isOpen : Bool
  dupSort : Bool
  entries : List (Bytes × Bytes)
  pos : Option ℕ

/-- Where LMDB stores an entry: the entries and the place after it, by the entries before. -/
structure PutEffect where
  store : List (Bytes × Bytes) → List (Bytes × Bytes)
  place : List (Bytes × Bytes) → ℕ
  valid : ∀ entries, place entries < (store entries).length

namespace TableCursor

/-- `mdb_cursor_get` of the entry at a place; the first argument is the code that LMDB fails with,
or success. -/
def mdbCursorGet (rc : MdbRc) (place : Option ℕ) (c : TableCursor) : MdbRc × TableCursor :=
  if rc ≠ .success then (rc, c)
  else
    match place with
    | none => (.notFound, c)
    | some i => (.success, { c with pos := some i })

/-- The place `MDB_NEXT` goes to; from no position it is the first one. -/
def next (c : TableCursor) : Option ℕ :=
  match c.pos with
  | none => firstPlace c.entries
  | some i => nextPlace c.entries i

/-- The place `MDB_PREV` goes to; from no position it is the last one. -/
def previous (c : TableCursor) : Option ℕ :=
  match c.pos with
  | none => lastPlace c.entries
  | some i => previousPlace i

/-- The searches of `sqlite3BtreeMovetoUnpacked`: the first entry they accept, or where a search
leaves the cursor that finds none. -/
def mdbCursorSeek (rc : MdbRc) (seeks : Bytes × Bytes → Bool) (left : Option ℕ) (c : TableCursor) :
    TableCursor :=
  if rc ≠ .success then c else { c with pos := (c.entries.findIdx? seeks).or left }

def mdbCursorPut (rc : MdbRc) (effect : PutEffect) (c : TableCursor) : TableCursor :=
  if rc ≠ .success then c
  else { c with entries := effect.store c.entries, pos := some (effect.place c.entries) }

/-- `mdb_cursor_del`: the cursor stays at its place, unless the table is empty then. -/
def mdbCursorDel (rc : MdbRc) (c : TableCursor) : MdbRc × TableCursor :=
  match c.pos with
  | none => (Env.einval, c)
  | some i =>
    if rc ≠ .success then (rc, c)
    else if i < c.entries.length then
      let left := c.entries.eraseIdx i
      (.success, { c with entries := left, pos := if left = [] then none else some i })
    else (.notFound, c)

/-- `mdb_cursor_count` of an LMDB cursor, which may be `NULL`. -/
def mdbCursorCount (c : TableCursor) : MdbRc :=
  if c.isOpen = false then Env.einval
  else if c.dupSort then if c.pos = none then Env.einval else .success
  else .incompatible

/-! ### The first version -/

/-- The test of the first version, `mc->mc_flags & C_INITIALIZED`. -/
def initialised (c : TableCursor) : Bool := c.pos.isSome

def sqlite3BtreeCursorZero : TableCursor := ⟨false, false, [], none⟩

/-- `sqlite3BtreeCursor` on a table. -/
def sqlite3BtreeCursor (dupSort : Bool) (entries : List (Bytes × Bytes)) : TableCursor :=
  ⟨true, dupSort, entries, none⟩

/-- `sqlite3BtreeFirst`; an empty table has no root page. -/
def sqlite3BtreeFirst (rc : MdbRc) (c : TableCursor) : TableCursor :=
  if c.entries = [] then c else (c.mdbCursorGet rc (firstPlace c.entries)).2

def sqlite3BtreeLast (rc : MdbRc) (c : TableCursor) : TableCursor :=
  if c.entries = [] then c else (c.mdbCursorGet rc (lastPlace c.entries)).2

def sqlite3BtreeNext (rc : MdbRc) (c : TableCursor) : TableCursor :=
  if c.entries = [] then c else (c.mdbCursorGet rc c.next).2

def sqlite3BtreePrevious (rc : MdbRc) (c : TableCursor) : TableCursor :=
  if c.entries = [] then c else (c.mdbCursorGet rc c.previous).2

def sqlite3BtreeMovetoUnpacked (rc : MdbRc) (seeks : Bytes × Bytes → Bool) (left : Option ℕ)
    (c : TableCursor) : TableCursor :=
  if c.entries = [] then { c with pos := none } else c.mdbCursorSeek rc seeks left

/-- `sqlite3BtreeInsert`; the unpacked record may not be allocated. -/
def sqlite3BtreeInsert (allocated : Bool) (rc : MdbRc) (effect : PutEffect) (c : TableCursor) :
    TableCursor :=
  if allocated then c.mdbCursorPut rc effect else c

def sqlite3BtreeDelete (rc : MdbRc) (c : TableCursor) : TableCursor := (c.mdbCursorDel rc).2

def sqlite3BtreeClearCursor (c : TableCursor) : TableCursor := { c with pos := none }

end TableCursor

/-! ### The not-forking version -/

/-- A cursor of the not-forking version: the LMDB cursor and `mc_init`. -/
structure NotForking.TableCursor where
  mc : LumoSQL.TableCursor
  mcInit : Bool

namespace NotForking.TableCursor

def mdbCursorInitialised (c : TableCursor) : Bool := c.mcInit && c.mc.mdbCursorCount ≠ Env.einval

/-- `sqlite3BtreeCursorHasMoved`: the value of `*pHasMoved`. -/
def sqlite3BtreeCursorHasMoved (c : TableCursor) : Bool := !c.mdbCursorInitialised

/-- The entry whose key `sqlite3BtreeKeyFetch` returns, none where it returns `NULL`. -/
def sqlite3BtreeKeyFetch (c : TableCursor) : Option (Bytes × Bytes) :=
  if c.mdbCursorInitialised then c.mc.pos.bind fun i ↦ c.mc.entries[i]? else none

def sqlite3BtreeCursorZero : TableCursor := ⟨LumoSQL.TableCursor.sqlite3BtreeCursorZero, false⟩

/-- `sqlite3BtreeCursor` on a table. -/
def sqlite3BtreeCursor (dupSort : Bool) (entries : List (Bytes × Bytes)) (c : TableCursor) :
    TableCursor :=
  { c with mc := LumoSQL.TableCursor.sqlite3BtreeCursor dupSort entries }

/-- `sqlite3BtreeFirst` and `sqlite3BtreeLast`, with the place they go to. -/
def moveToEnd (rc : MdbRc) (place : Option ℕ) (c : TableCursor) : TableCursor :=
  let got := c.mc.mdbCursorGet rc place
  ⟨got.2, if got.1 = .notFound ∨ got.1 = .success then true else c.mcInit⟩

def sqlite3BtreeFirst (rc : MdbRc) (c : TableCursor) : TableCursor :=
  c.moveToEnd rc (firstPlace c.mc.entries)

def sqlite3BtreeLast (rc : MdbRc) (c : TableCursor) : TableCursor :=
  c.moveToEnd rc (lastPlace c.mc.entries)

def sqlite3BtreeNext (rc : MdbRc) (c : TableCursor) : TableCursor :=
  ⟨(c.mc.mdbCursorGet rc c.mc.next).2, true⟩

def sqlite3BtreePrevious (rc : MdbRc) (c : TableCursor) : TableCursor :=
  ⟨(c.mc.mdbCursorGet rc c.mc.previous).2, true⟩

def sqlite3BtreeMovetoUnpacked (rc : MdbRc) (seeks : Bytes × Bytes → Bool) (left : Option ℕ)
    (c : TableCursor) : TableCursor :=
  if c.mc.entries = [] then { c with mcInit := false }
  else { c with mc := c.mc.mdbCursorSeek rc seeks left }

def sqlite3BtreeInsert (allocated : Bool) (rc : MdbRc) (effect : PutEffect) (c : TableCursor) :
    TableCursor :=
  if allocated then ⟨c.mc.mdbCursorPut rc effect, true⟩ else c

def sqlite3BtreeDelete (rc : MdbRc) (c : TableCursor) : TableCursor :=
  let deleted := c.mc.mdbCursorDel rc
  ⟨deleted.2, if deleted.1 = .success then false else c.mcInit⟩

/-- `sqlite3BtreeClearCursor`, which calls LMDB also without a cursor. -/
def sqlite3BtreeClearCursor (rc : MdbRc) (c : TableCursor) : TableCursor :=
  ⟨if c.mc.isOpen then (c.mc.mdbCursorGet rc (firstPlace c.mc.entries)).2 else c.mc, true⟩

end NotForking.TableCursor

/-- The cursor over the table that an LMDB cursor of an environment is on; `NULL` is a cursor that
is not open. -/
def Env.tableCursor (env : Env) : Option MdbCursor → TableCursor
  | none => TableCursor.sqlite3BtreeCursorZero
  | some mc => ⟨true, env.dupSortAt mc, env.cursorEntries mc, mc.pos⟩

/-- The tests are those on the cursors of an environment. -/
theorem mdbCursorInitialised_tableCursor (env : Env) (pCur : NotForking.BtCursor) :
    NotForking.TableCursor.mdbCursorInitialised ⟨env.tableCursor pCur.mc, pCur.mcInit⟩ =
      NotForking.mdbCursorInitialised env pCur := by
  unfold NotForking.TableCursor.mdbCursorInitialised NotForking.mdbCursorInitialised
  cases pCur.mc with
  | none | some mc => rfl

/-! ### The two versions on the same calls -/

/-- A call on a cursor, with what LMDB reports. -/
inductive FlagCall
  | cursor (dupSort : Bool) (entries : List (Bytes × Bytes))
  | first (rc : MdbRc)
  | last (rc : MdbRc)
  | next (rc : MdbRc)
  | previous (rc : MdbRc)
  | movetoUnpacked (rc : MdbRc) (seeks : Bytes × Bytes → Bool) (left : Option ℕ)
  | insert (allocated : Bool) (rc : MdbRc) (effect : PutEffect)
  | delete (rc : MdbRc)
  | clearCursor (rc : MdbRc)
  | cursorZero

structure Both where
  original : TableCursor
  shadow : NotForking.TableCursor

namespace Both

def zero : Both :=
  ⟨TableCursor.sqlite3BtreeCursorZero, NotForking.TableCursor.sqlite3BtreeCursorZero⟩

/-- The cursors after a call. -/
def step (b : Both) : FlagCall → Both
  | .cursor dupSort entries =>
    ⟨TableCursor.sqlite3BtreeCursor dupSort entries, b.shadow.sqlite3BtreeCursor dupSort entries⟩
  | .first rc => ⟨b.original.sqlite3BtreeFirst rc, b.shadow.sqlite3BtreeFirst rc⟩
  | .last rc => ⟨b.original.sqlite3BtreeLast rc, b.shadow.sqlite3BtreeLast rc⟩
  | .next rc => ⟨b.original.sqlite3BtreeNext rc, b.shadow.sqlite3BtreeNext rc⟩
  | .previous rc => ⟨b.original.sqlite3BtreePrevious rc, b.shadow.sqlite3BtreePrevious rc⟩
  | .movetoUnpacked rc seeks left =>
    ⟨b.original.sqlite3BtreeMovetoUnpacked rc seeks left,
      b.shadow.sqlite3BtreeMovetoUnpacked rc seeks left⟩
  | .insert allocated rc effect =>
    ⟨b.original.sqlite3BtreeInsert allocated rc effect,
      b.shadow.sqlite3BtreeInsert allocated rc effect⟩
  | .delete rc => ⟨b.original.sqlite3BtreeDelete rc, b.shadow.sqlite3BtreeDelete rc⟩
  | .clearCursor rc => ⟨b.original.sqlite3BtreeClearCursor, b.shadow.sqlite3BtreeClearCursor rc⟩
  | .cursorZero => zero

def Agree (b : Both) : Prop := b.shadow.mdbCursorInitialised = b.original.initialised

/-- A cursor is read, moved and written through while it is open. -/
def Asserts (b : Both) : FlagCall → Prop
  | .cursor _ _ => True
  | .clearCursor _ => True
  | .cursorZero => True
  | _ => b.original.isOpen = true

/-- What the flag is to be right about after a call: the tests agree, the entry that a search has
found can be fetched, and a cleared cursor counts as moved. -/
def FlagRight (b : Both) (call : FlagCall) : Prop :=
  (b.step call).Agree ∧ match call with
    | .movetoUnpacked rc seeks _ => ∀ i entry, rc = .success →
      b.original.entries.findIdx? seeks = some i → b.original.entries[i]? = some entry →
        (b.step call).shadow.sqlite3BtreeKeyFetch = some entry
    | .clearCursor _ => (b.step call).shadow.sqlite3BtreeCursorHasMoved = true
    | _ => True

/-- When the flag is right after a call. -/
def Guard (b : Both) : FlagCall → Prop
  | .cursor dupSort _ => dupSort = true ∨ b.shadow.mcInit = false
  | .first rc | .last rc =>
    b.original.dupSort = true ∨ b.original.pos ≠ none ∨
      (if rc = .success then b.original.entries ≠ [] else rc ≠ .notFound)
  | .next rc | .previous rc =>
    b.original.dupSort = true ∨ b.original.pos ≠ none ∨ (rc = .success ∧ b.original.entries ≠ [])
  | .movetoUnpacked rc seeks left =>
    b.original.entries = [] ∨ rc ≠ .success ∨
      (if (b.original.entries.findIdx? seeks).or left = none then
        b.original.dupSort = true ∨ b.shadow.mcInit = false
      else b.shadow.mcInit = true)
  | .insert allocated rc _ =>
    allocated = false ∨ b.original.dupSort = true ∨ b.original.pos ≠ none ∨ rc = .success
  | .delete rc =>
    rc ≠ .success ∨ b.original.entries.length ≤ 1 ∨
      ∀ i, b.original.pos = some i → b.original.entries.length ≤ i
  | .clearCursor rc =>
    b.original.isOpen = false ∨ (b.original.dupSort = true ∧ b.original.pos = none ∧
      (rc ≠ .success ∨ b.original.entries = []))
  | .cursorZero => True

/-- Cursors on which the tests agree: the LMDB cursors are the same, and they have no position in an
empty table and while they are not open. -/
structure Matched (b : Both) : Prop where
  same : b.shadow.mc = b.original
  agree : b.Agree
  inside : b.original.entries = [] → b.original.pos = none
  closed : b.original.isOpen = false → b.original.pos = none

/-! ### One call -/

section

variable {c : TableCursor} {mcInit : Bool}

abbrev paired (c : TableCursor) (mcInit : Bool) : Both := ⟨c, ⟨c, mcInit⟩⟩

/-- Assumes: an open cursor. The test of the not-forking version, where `mdb_cursor_count` can tell
on an index only. -/
theorem initialised_open (hopen : c.isOpen = true) (mcInit : Bool) :
    NotForking.TableCursor.mdbCursorInitialised ⟨c, mcInit⟩ =
      (mcInit && (!c.dupSort || c.pos.isSome)) := by
  unfold NotForking.TableCursor.mdbCursorInitialised TableCursor.mdbCursorCount
  rw [if_neg (by simp [hopen])]
  cases hdup : c.dupSort with
  | false => cases mcInit <;> simp [Env.einval]
  | true => cases hpos : c.pos <;> cases mcInit <;> simp [Env.einval]

/-- Assumes: an open cursor. When the tests agree on an LMDB cursor that both versions have:
`mc_init` is set where there is a position, and on a table only there. -/
theorem agree_iff (hopen : c.isOpen = true) : (paired c mcInit).Agree ↔
    (c.pos ≠ none → mcInit = true) ∧ (c.dupSort = true ∨ c.pos ≠ none ∨ mcInit = false) := by
  unfold Agree TableCursor.initialised
  rw [initialised_open hopen]
  cases c.dupSort <;> cases c.pos <;> cases mcInit <;> simp

theorem agree_closed (hopen : c.isOpen = false) (hpos : c.pos = none) :
    (paired c mcInit).Agree := by
  unfold Agree NotForking.TableCursor.mdbCursorInitialised TableCursor.mdbCursorCount
    TableCursor.initialised
  rw [if_pos hopen, hpos]
  simp

theorem get_snd (rc : MdbRc) (place : Option ℕ) (c : TableCursor) : (c.mdbCursorGet rc place).2 =
      { c with pos := if rc = .success then place.or c.pos else c.pos } := by
  unfold TableCursor.mdbCursorGet
  by_cases hrc : rc = .success
  · cases place with
    | none | some i => simp [hrc]
  · simp [hrc]

variable {call : FlagCall} {mcInit' : Bool} {place : Option ℕ} {rc : MdbRc}

/-- Assumes: a step that has no place to go to in an empty table. The test for an empty table makes
no difference to the LMDB cursor. -/
theorem ite_get (hplace : c.entries = [] → place = none) (rc : MdbRc) :
    (if c.entries = [] then c else (c.mdbCursorGet rc place).2) = (c.mdbCursorGet rc place).2 := by
  by_cases hempty : c.entries = []
  · rw [if_pos hempty, get_snd, hplace hempty]
    simp
  · rw [if_neg hempty]

theorem firstPlace_eq_none_iff : firstPlace c.entries = none ↔ c.entries = [] := by
  unfold firstPlace
  split_ifs with hempty <;> simp [hempty]

theorem lastPlace_eq_none_iff : lastPlace c.entries = none ↔ c.entries = [] := by
  unfold lastPlace
  split_ifs with hempty <;> simp [hempty]

/-- What is shown of a call: the flag is right after it exactly when it meets the guard, and then
the cursors are matched. -/
def StepRight (b : Both) (call : FlagCall) : Prop :=
  (b.FlagRight call ↔ b.Guard call) ∧ (b.Guard call → Matched (b.step call))

/-- Assumes: a call after which nothing but the agreement of the tests is asked for. -/
theorem StepRight.of_agree {b : Both} (hright : b.FlagRight call ↔ (b.step call).Agree)
    (hiff : (b.step call).Agree ↔ b.Guard call)
    (hmatched : (b.step call).Agree → Matched (b.step call)) : StepRight b call :=
  ⟨hright.trans hiff, fun hguard ↦ hmatched (hiff.mpr hguard)⟩

/-- Assumes: such a call that leaves one open LMDB cursor to both versions. -/
theorem StepRight.of_paired {b : Both} (hstep : b.step call = paired c mcInit)
    (hopen : c.isOpen = true) (hinside : c.entries = [] → c.pos = none)
    (hright : b.FlagRight call ↔ (b.step call).Agree) (hiff : (c.pos ≠ none → mcInit = true) ∧
      (c.dupSort = true ∨ c.pos ≠ none ∨ mcInit = false) ↔ b.Guard call) : StepRight b call := by
  refine .of_agree hright ?_ ?_
  · rw [hstep]
    exact (agree_iff hopen).trans hiff
  · rw [hstep]
    exact fun hagree ↦ ⟨rfl, hagree, hinside,
      fun hclosed ↦ absurd (hopen.symm.trans hclosed) (by simp)⟩

theorem cursor_right (c : TableCursor) (mcInit dupSort : Bool) (entries : List (Bytes × Bytes)) :
    StepRight (paired c mcInit) (.cursor dupSort entries) := by
  refine .of_paired rfl rfl (fun _ ↦ rfl) (and_iff_left trivial) ?_
  simp [TableCursor.sqlite3BtreeCursor, Guard]

section

variable (hopen : c.isOpen = true) (hinside : c.entries = [] → c.pos = none)

include hopen hinside

/-- A call that moves the cursor to a place that is none in an empty table. -/
theorem get_right (hplace : c.entries = [] → place = none)
    (hstep : step (paired c mcInit) call = paired (c.mdbCursorGet rc place).2 mcInit')
    (hright : FlagRight (paired c mcInit) call ↔ (step (paired c mcInit) call).Agree)
    (hiff : ∀ pos, pos = (if rc = .success then place.or c.pos else c.pos) →
      ((pos ≠ none → mcInit' = true) ∧ (c.dupSort = true ∨ pos ≠ none ∨ mcInit' = false) ↔
        Guard (paired c mcInit) call)) : StepRight (paired c mcInit) call := by
  rw [get_snd] at hstep
  refine .of_paired hstep hopen (fun hempty ↦ ?_) hright (hiff _ rfl)
  have hnone := hplace hempty
  have hpos := hinside hempty
  simp [hnone, hpos]

/-- A call that moves the cursor to the first or the last entry. -/
theorem moveToEnd_right (hagree : (paired c mcInit).Agree) (hplace : place = none ↔ c.entries = [])
    (hstep : step (paired c mcInit) call = ⟨(c.mdbCursorGet rc place).2,
      NotForking.TableCursor.moveToEnd rc place ⟨c, mcInit⟩⟩)
    (hright : FlagRight (paired c mcInit) call ↔ (step (paired c mcInit) call).Agree)
    (hguard : Guard (paired c mcInit) call ↔ c.dupSort = true ∨ c.pos ≠ none ∨
      (if rc = .success then c.entries ≠ [] else rc ≠ .notFound)) :
    StepRight (paired c mcInit) call := by
  refine get_right hopen hinside hplace.mpr hstep hright ?_
  rintro pos rfl
  rw [hguard]
  by_cases hrc : rc = .success
  · subst hrc
    cases place with
    | none =>
      have hempty := hplace.mp rfl
      simp [TableCursor.mdbCursorGet, hempty]
    | some i =>
      have hne : c.entries ≠ [] := fun hempty ↦ Option.some_ne_none i (hplace.mpr hempty)
      simp [TableCursor.mdbCursorGet, hne]
  · by_cases hnot : rc = .notFound
    · subst hnot
      simp [TableCursor.mdbCursorGet]
    · simp only [TableCursor.mdbCursorGet, hrc, hnot, ne_eq, not_false_iff, if_true, if_false,
        or_self, or_true, iff_true]
      exact (agree_iff hopen).mp hagree

theorem first_right (hagree : (paired c mcInit).Agree) (rc : MdbRc) :
    StepRight (paired c mcInit) (.first rc) := by
  refine moveToEnd_right hopen hinside hagree firstPlace_eq_none_iff ?_ (and_iff_left trivial)
    Iff.rfl
  simp [step, TableCursor.sqlite3BtreeFirst, ite_get firstPlace_eq_none_iff.mpr,
    NotForking.TableCursor.sqlite3BtreeFirst]

theorem last_right (hagree : (paired c mcInit).Agree) (rc : MdbRc) :
    StepRight (paired c mcInit) (.last rc) := by
  refine moveToEnd_right hopen hinside hagree lastPlace_eq_none_iff ?_ (and_iff_left trivial)
    Iff.rfl
  simp [step, TableCursor.sqlite3BtreeLast, ite_get lastPlace_eq_none_iff.mpr,
    NotForking.TableCursor.sqlite3BtreeLast]

/-- A call that moves the cursor by one entry, to an end of the table if it is nowhere. -/
theorem step_right (place : Option ℕ) (hplace : c.pos = none → (place = none ↔ c.entries = []))
    (hstep : (c.entries = [] → place = none) →
      step (paired c mcInit) call = paired (c.mdbCursorGet rc place).2 true)
    (hright : FlagRight (paired c mcInit) call ↔ (step (paired c mcInit) call).Agree)
    (hguard : Guard (paired c mcInit) call ↔
      c.dupSort = true ∨ c.pos ≠ none ∨ (rc = .success ∧ c.entries ≠ [])) :
    StepRight (paired c mcInit) call := by
  have hempty : c.entries = [] → place = none := fun hnil ↦ (hplace (hinside hnil)).mpr hnil
  refine get_right hopen hinside hempty (hstep hempty) hright ?_
  rintro pos rfl
  rw [hguard]
  cases hpos : c.pos with
  | some i => cases place <;> by_cases hrc : rc = .success <;> simp [hrc]
  | none =>
    have hempty := hplace hpos
    by_cases hrc : rc = .success
    · cases place with
      | none => simp [hrc, hempty.mp rfl]
      | some i =>
        have hne : c.entries ≠ [] := fun hnil ↦ Option.some_ne_none i (hempty.mpr hnil)
        simp [hrc, hne]
    · simp [hrc]

theorem next_right (rc : MdbRc) : StepRight (paired c mcInit) (.next rc) := by
  refine step_right hopen hinside c.next (fun hpos ↦ ?_) (fun hplace ↦ ?_) (and_iff_left trivial)
    Iff.rfl
  · rw [TableCursor.next, hpos]
    exact firstPlace_eq_none_iff
  · simp only [step, TableCursor.sqlite3BtreeNext, ite_get hplace,
      NotForking.TableCursor.sqlite3BtreeNext]

theorem previous_right (rc : MdbRc) : StepRight (paired c mcInit) (.previous rc) := by
  refine step_right hopen hinside c.previous (fun hpos ↦ ?_) (fun hplace ↦ ?_)
    (and_iff_left trivial) Iff.rfl
  · rw [TableCursor.previous, hpos]
    exact lastPlace_eq_none_iff
  · simp only [step, TableCursor.sqlite3BtreePrevious, ite_get hplace,
      NotForking.TableCursor.sqlite3BtreePrevious]

theorem movetoUnpacked_right (hagree : (paired c mcInit).Agree) (rc : MdbRc)
    (seeks : Bytes × Bytes → Bool) (left : Option ℕ) :
    StepRight (paired c mcInit) (.movetoUnpacked rc seeks left) := by
  by_cases hempty : c.entries = []
  · have hpos := hinside hempty
    have hstep : step (paired c mcInit) (.movetoUnpacked rc seeks left) = paired c false := by
      simp only [step, TableCursor.sqlite3BtreeMovetoUnpacked,
        NotForking.TableCursor.sqlite3BtreeMovetoUnpacked, if_pos hempty]
      rw [← hpos]
    refine .of_paired hstep hopen hinside (and_iff_left fun i entry _ hfound ↦ ?_) ?_
    · rw [hempty] at hfound
      cases hfound
    · simp [hpos, Guard, hempty]
  · have hstep : step (paired c mcInit) (.movetoUnpacked rc seeks left) =
        paired (c.mdbCursorSeek rc seeks left) mcInit := by
      simp [step, TableCursor.sqlite3BtreeMovetoUnpacked,
        NotForking.TableCursor.sqlite3BtreeMovetoUnpacked, if_neg hempty]
    by_cases hrc : rc = .success
    · subst hrc
      have hseek : c.mdbCursorSeek .success seeks left =
          { c with pos := (c.entries.findIdx? seeks).or left } := by
        simp [TableCursor.mdbCursorSeek]
      rw [hseek] at hstep
      refine .of_paired hstep hopen (fun hnil ↦ absurd hnil hempty)
        ⟨And.left, fun hafter ↦ ⟨hafter, fun i entry _ hfound hentry ↦ ?_⟩⟩ ?_
      · have hpos : (c.entries.findIdx? seeks).or left = some i := by
          rw [hfound]
          rfl
        rw [hstep, hpos] at hafter ⊢
        have hinit : NotForking.TableCursor.mdbCursorInitialised
            ⟨{ c with pos := some i }, mcInit⟩ = true := hafter
        simp only [NotForking.TableCursor.sqlite3BtreeKeyFetch, if_pos hinit, Option.bind_some]
        exact hentry
      · by_cases hafter : (c.entries.findIdx? seeks).or left = none
        · simp [Guard, hempty, hafter]
        · simp [Guard, hempty, hafter]
    · have hseek : c.mdbCursorSeek rc seeks left = c := by simp [TableCursor.mdbCursorSeek, hrc]
      rw [hseek] at hstep
      exact .of_paired hstep hopen hinside (and_iff_left fun i entry hsuccess ↦ absurd hsuccess hrc)
        (iff_of_true ((agree_iff hopen).mp hagree) (.inr (.inl hrc)))

theorem insert_right (hagree : (paired c mcInit).Agree) (allocated : Bool) (rc : MdbRc)
    (effect : PutEffect) : StepRight (paired c mcInit) (.insert allocated rc effect) := by
  cases allocated with
  | false =>
    exact .of_paired rfl hopen hinside (and_iff_left trivial)
      (iff_of_true ((agree_iff hopen).mp hagree) (.inl rfl))
  | true =>
    have hstep : step (paired c mcInit) (.insert true rc effect) =
        paired (c.mdbCursorPut rc effect) true := rfl
    by_cases hrc : rc = .success
    · have hput : c.mdbCursorPut rc effect =
          { c with entries := effect.store c.entries, pos := some (effect.place c.entries) } := by
        simp [TableCursor.mdbCursorPut, hrc]
      rw [hput] at hstep
      refine .of_paired hstep hopen (fun hnil ↦ ?_) (and_iff_left trivial) (by simp [Guard, hrc])
      have hvalid := effect.valid c.entries
      rw [show effect.store c.entries = [] from hnil] at hvalid
      exact absurd hvalid (Nat.not_lt_zero _)
    · have hput : c.mdbCursorPut rc effect = c := by simp [TableCursor.mdbCursorPut, hrc]
      rw [hput] at hstep
      exact .of_paired hstep hopen hinside (and_iff_left trivial) (by simp [Guard, hrc])

theorem delete_right (hagree : (paired c mcInit).Agree) (rc : MdbRc) :
    StepRight (paired c mcInit) (.delete rc) := by
  -- a removal that fails leaves the cursors as they are
  have hfails : ∀ code, code ≠ .success → c.mdbCursorDel rc = (code, c) →
      Guard (paired c mcInit) (.delete rc) → StepRight (paired c mcInit) (.delete rc) := by
    intro code hcode hdel hguard
    have hstep : step (paired c mcInit) (.delete rc) = paired c mcInit := by
      simp [step, TableCursor.sqlite3BtreeDelete, NotForking.TableCursor.sqlite3BtreeDelete, hdel,
        if_neg hcode]
    exact .of_paired hstep hopen hinside (and_iff_left trivial)
      (iff_of_true ((agree_iff hopen).mp hagree) hguard)
  cases hpos : c.pos with
  | none =>
    refine hfails Env.einval (by decide) (by simp [TableCursor.mdbCursorDel, hpos]) ?_
    exact .inr (.inr fun i hi ↦ absurd (hpos.symm.trans hi) (by simp))
  | some i =>
    by_cases hrc : rc = .success
    · subst hrc
      by_cases hi : i < c.entries.length
      · have hstep : step (paired c mcInit) (.delete .success) = paired { c with
            entries := c.entries.eraseIdx i
            pos := if c.entries.eraseIdx i = [] then none else some i } false := by
          simp [step, TableCursor.sqlite3BtreeDelete, NotForking.TableCursor.sqlite3BtreeDelete,
            TableCursor.mdbCursorDel, hpos, hi]
        refine .of_paired hstep hopen (fun hnil ↦ if_pos hnil) (and_iff_left trivial) ?_
        have hlength : c.entries.eraseIdx i = [] ↔ c.entries.length ≤ 1 := by
          rw [← List.length_eq_zero_iff, List.length_eraseIdx_of_lt hi]
          omega
        have hpast : ¬ ∀ j, c.pos = some j → c.entries.length ≤ j :=
          fun hall ↦ absurd hi (Nat.not_lt.mpr (hall i hpos))
        simp [Guard, hlength, hpast]
      · refine hfails .notFound (by decide) (by simp [TableCursor.mdbCursorDel, hpos, hi]) ?_
        refine .inr (.inr fun j hj ↦ ?_)
        rw [hpos] at hj
        cases hj
        exact Nat.not_lt.mp hi
    · exact hfails rc hrc (by simp [TableCursor.mdbCursorDel, hpos, hrc]) (.inl hrc)

end

theorem clearCursor_right (hinside : c.entries = [] → c.pos = none)
    (hclosed : c.isOpen = false → c.pos = none) (rc : MdbRc) :
    StepRight (paired c mcInit) (.clearCursor rc) := by
  have hright : FlagRight (paired c mcInit) (.clearCursor rc) ↔
      (step (paired c mcInit) (.clearCursor rc)).Agree := by
    refine ⟨And.left, fun hagree ↦ ⟨hagree, ?_⟩⟩
    have hinit : (step (paired c mcInit) (.clearCursor rc)).shadow.mdbCursorInitialised = false :=
      hagree
    rw [NotForking.TableCursor.sqlite3BtreeCursorHasMoved, hinit]
    rfl
  by_cases hopen : c.isOpen = true
  · have hget := get_snd rc (firstPlace c.entries) c
    have hstep : step (paired c mcInit) (.clearCursor rc) =
        ⟨{ c with pos := none }, ⟨(c.mdbCursorGet rc (firstPlace c.entries)).2, true⟩⟩ := by
      simp [step, TableCursor.sqlite3BtreeClearCursor,
        NotForking.TableCursor.sqlite3BtreeClearCursor, if_pos hopen]
    have hiff : (step (paired c mcInit) (.clearCursor rc)).Agree ↔
        c.dupSort = true ∧ (if rc = .success then (firstPlace c.entries).or c.pos else c.pos) =
          none := by
      have hopen' : (c.mdbCursorGet rc (firstPlace c.entries)).2.isOpen = true := by
        rwa [hget]
      rw [hstep, Agree, initialised_open hopen', hget]
      cases c.dupSort <;> simp [TableCursor.initialised]
    have hafter : (if rc = .success then (firstPlace c.entries).or c.pos else c.pos) = none ↔
        c.pos = none ∧ (rc ≠ .success ∨ c.entries = []) := by
      by_cases hrc : rc = .success
      · simp only [hrc, if_true, ne_eq, not_true_eq_false, false_or, ← @firstPlace_eq_none_iff c]
        cases firstPlace c.entries <;> cases c.pos <;> simp
      · simp [hrc]
    refine .of_agree hright (hiff.trans ?_) fun hagree ↦ ?_
    · simp [Guard, hopen, hafter]
    · obtain ⟨-, hnone⟩ := hiff.mp hagree
      refine ⟨?_, hagree, fun _ ↦ ?_, fun _ ↦ ?_⟩
      · rw [hstep, hget, hnone]
      · rw [hstep]
      · rw [hstep]
  · have hopen' := Bool.eq_false_iff.mpr hopen
    have hpos := hclosed hopen'
    have hstep : step (paired c mcInit) (.clearCursor rc) = paired c true := by
      simp only [step, TableCursor.sqlite3BtreeClearCursor,
        NotForking.TableCursor.sqlite3BtreeClearCursor, if_neg hopen]
      rw [← hpos]
    refine .of_agree hright ?_ fun hagree ↦ ?_
    · rw [hstep]
      exact iff_of_true (agree_closed hopen' hpos) (.inl hopen')
    · rw [hstep] at hagree ⊢
      exact ⟨rfl, hagree, hinside, hclosed⟩

theorem matched_zero : Matched zero := ⟨rfl, rfl, fun _ ↦ rfl, fun _ ↦ rfl⟩

end

/-- Assumes: cursors that are matched, and a call that is made on an open cursor if it needs one. -/
theorem Matched.stepRight {b : Both} (hmatched : Matched b) (call : FlagCall)
    (hasserts : b.Asserts call) : StepRight b call := by
  obtain ⟨c, mc, mcInit⟩ := b
  obtain ⟨hsame, hagree, hinside, hclosed⟩ := hmatched
  obtain rfl : mc = c := hsame
  cases call with
  | cursor dupSort entries => exact cursor_right mc mcInit dupSort entries
  | first rc => exact first_right hasserts hinside hagree rc
  | last rc => exact last_right hasserts hinside hagree rc
  | next rc => exact next_right hasserts hinside rc
  | previous rc => exact previous_right hasserts hinside rc
  | movetoUnpacked rc seeks left =>
    exact movetoUnpacked_right hasserts hinside hagree rc seeks left
  | insert allocated rc effect => exact insert_right hasserts hinside hagree allocated rc effect
  | delete rc => exact delete_right hasserts hinside hagree rc
  | clearCursor rc => exact clearCursor_right hinside hclosed rc
  | cursorZero =>
    exact .of_agree (and_iff_left trivial) (iff_of_true matched_zero.agree trivial)
      fun _ ↦ matched_zero

end Both

/-- Assumes: calls from zeroed cursors, those that need an open cursor being made on one. The flag
is right after every call exactly when every call meets the guard. -/
theorem flags_agree_iff (calls : List FlagCall)
    (hasserts : Meets Both.step Both.Asserts .zero calls) :
    Meets Both.step Both.FlagRight .zero calls ↔ Meets Both.step Both.Guard .zero calls :=
  Meets.iff_of_invariant
    (fun _ call hmatched hasserts hguard ↦ (hmatched.stepRight call hasserts).2 hguard)
    (fun _ call hmatched hasserts ↦ (hmatched.stepRight call hasserts).1) Both.matched_zero hasserts

def scanAndSeek : List FlagCall :=
  [.cursor false [([1], [7]), ([2], [8])], .first .success, .next .success, .next .success,
    .movetoUnpacked .success (fun entry ↦ entry.1 = [1]) none, .cursorZero]

/-- The flag is right in the scan. -/
theorem flags_agree_scan : Meets Both.step Both.FlagRight .zero scanAndSeek := by
  refine (flags_agree_iff scanAndSeek ?_).mpr ?_
  · exact ⟨trivial, rfl, rfl, rfl, rfl, trivial, trivial⟩
  · refine ⟨.inr rfl, .inr (.inr ?_), .inr (.inl ?_), .inr (.inl ?_),
      .inr (.inr ?_), trivial, trivial⟩
    · decide
    · decide
    · decide
    · decide

/-- A cursor that is opened on a table of one row and taken to it by a search. -/
def searchedRow : Both :=
  (Both.zero.step (.cursor false [([1], [7])])).step
    (.movetoUnpacked .success (fun entry ↦ entry.1 = [1]) none)

def clearedRow : Both :=
  ((Both.zero.step (.cursor false [([1], [7])])).step (.first .success)).step
    (.clearCursor .success)

/-- A search on a cursor that has been opened finds its row and leaves `mc_init` clear, so that the
row cannot be fetched; and a cursor that is cleared has not moved. -/
theorem flag_lost :
    (searchedRow.original.initialised = true ∧ searchedRow.shadow.mdbCursorInitialised = false ∧
      searchedRow.shadow.sqlite3BtreeKeyFetch = none) ∧
    (clearedRow.original.initialised = false ∧ clearedRow.shadow.mdbCursorInitialised = true ∧
      clearedRow.shadow.sqlite3BtreeCursorHasMoved = false) := by
  decide

end LumoSQL
