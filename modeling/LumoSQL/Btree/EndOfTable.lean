import LumoSQL.Btree.CursorFlag

/-!
# The end of a table

`sqlite3BtreeEof` says that a cursor is not at an entry of its table, and reads LMDB's flag `C_EOF`
for that. LMDB sets the flag when a move forwards runs past the last entry; it does not set it when
a move backwards runs past the first one, where it clears `C_INITIALIZED`, and it is not asked at
all about a table that is empty. `eof_right_iff` says after which moves of a run the answer is
right, for every table or index; it is wrong after every move on an empty table and after
`sqlite3BtreePrevious` from the first entry (`eof_wrong`). `OP_SeekLe` takes the answer for whether
there is a row, and goes on with the row of an empty table (`opSeek_empty`).

What LMDB does with `C_EOF` where its versions differ is in `EofRules`.
-/

namespace LumoSQL

open Foundation List Option

/-- What a version of LMDB does with `C_EOF`: whether `MDB_LAST` sets it at the last entry, whether
a search for a range that lies past the last entry sets it, and whether a move that fails without
reaching the end leaves it as it was. -/
structure EofRules where
  last : Bool
  range : Bool
  keeps : Bool

/-- `MDB_LAST` and a range past the last entry set the flag, every other move clears it. -/
def EofRules.lmdb : EofRules := ⟨true, true, false⟩

/-- A cursor over a table with `C_EOF`, and whether its last move has run past the last entry: LMDB
leaves the position at that entry then. -/
structure EofCursor where
  mc : TableCursor
  eof : Bool
  beyond : Bool

namespace EofCursor

/-- `sqlite3BtreeCursor` on a table. -/
def sqlite3BtreeCursor (dupSort : Bool) (entries : List (Bytes × Bytes)) : EofCursor :=
  ⟨TableCursor.sqlite3BtreeCursor dupSort entries, false, false⟩

def entry (c : EofCursor) : Option (Bytes × Bytes) :=
  if c.beyond then none else c.mc.pos.bind fun i ↦ c.mc.entries[i]?

def sqlite3BtreeEof (c : EofCursor) : Bool := c.eof

/-- `sqlite3BtreeFirst`; an empty table has no root page, and LMDB is not called. -/
def sqlite3BtreeFirst (c : EofCursor) : EofCursor :=
  if c.mc.entries = [] then c else ⟨c.mc.sqlite3BtreeFirst .success, false, false⟩

def sqlite3BtreeLast (rules : EofRules) (c : EofCursor) : EofCursor :=
  if c.mc.entries = [] then c else ⟨c.mc.sqlite3BtreeLast .success, rules.last, false⟩

def sqlite3BtreeNext (c : EofCursor) : EofCursor :=
  if c.mc.entries = [] then c
  else ⟨c.mc.sqlite3BtreeNext .success, c.mc.next.isNone, c.mc.next.isNone⟩

/-- `sqlite3BtreePrevious`; LMDB clears `C_INITIALIZED` when there is no entry before. -/
def sqlite3BtreePrevious (rules : EofRules) (c : EofCursor) : EofCursor :=
  if c.mc.entries = [] then c
  else
    match c.mc.previous with
    | some _ => ⟨c.mc.sqlite3BtreePrevious .success, false, false⟩
    | none => ⟨{ c.mc with pos := none }, rules.keeps && c.eof, false⟩

/-- `sqlite3BtreeMovetoUnpacked`: `MDB_SET` on a table, which may leave the cursor anywhere when it
does not find the row, up to the end of the entries, and `MDB_SET_RANGE` on an index, which is past
the last entry then. -/
def sqlite3BtreeMovetoUnpacked (rules : EofRules) (seeks : Bytes × Bytes → Bool) (left : Option ℕ)
    (c : EofCursor) : EofCursor :=
  if c.mc.entries = [] then ⟨{ c.mc with pos := none }, c.eof, false⟩
  else
    match c.mc.entries.findIdx? seeks with
    | some _ => ⟨c.mc.sqlite3BtreeMovetoUnpacked .success seeks left, false, false⟩
    | none =>
      if c.mc.dupSort then
        ⟨c.mc.sqlite3BtreeMovetoUnpacked .success seeks (some c.mc.entries.length),
          rules.range || (rules.keeps && c.eof), false⟩
      else
        ⟨c.mc.sqlite3BtreeMovetoUnpacked .success seeks (left.map (min c.mc.entries.length)),
          rules.keeps && c.eof, false⟩

/-- A move of a cursor. -/
inductive Move
  | first
  | last
  | next
  | previous
  | movetoUnpacked (seeks : Bytes × Bytes → Bool) (left : Option ℕ)

/-- The cursor after a move. -/
def step (rules : EofRules) (c : EofCursor) : Move → EofCursor
  | .first => c.sqlite3BtreeFirst
  | .last => c.sqlite3BtreeLast rules
  | .next => c.sqlite3BtreeNext
  | .previous => c.sqlite3BtreePrevious rules
  | .movetoUnpacked seeks left => c.sqlite3BtreeMovetoUnpacked rules seeks left

/-- `sqlite3BtreeEof` is not zero if and only if the cursor is not on an entry. -/
def EofRight (c : EofCursor) : Prop := c.sqlite3BtreeEof = true ↔ c.entry = none

/-- When the answer is right after a move. -/
def Guard (rules : EofRules) (c : EofCursor) : Move → Prop
  | .first => c.mc.entries ≠ []
  | .last => c.mc.entries ≠ [] ∧ rules.last = false
  | .next => c.mc.entries ≠ []
  | .previous =>
    c.mc.entries ≠ [] ∧ (c.mc.previous ≠ none ∨ (rules.keeps = true ∧ c.eof = true))
  | .movetoUnpacked seeks left =>
    c.mc.entries ≠ [] ∧ ((∃ found ∈ c.mc.entries, seeks found = true) ∨
      if c.mc.dupSort then rules.range = true ∨ (rules.keeps = true ∧ c.eof = true)
      else ((rules.keeps = true ∧ c.eof = true) ↔ ∀ i ∈ left, c.mc.entries.length ≤ i))

/-- What the moves keep: the place is not behind the end of the entries, and LMDB has set no flag
and no position for an empty table. -/
structure Placed (c : EofCursor) : Prop where
  inside : ∀ i ∈ c.mc.pos, i ≤ c.mc.entries.length
  empty : c.mc.entries = [] → c.eof = false ∧ c.mc.pos = none

/-! ### One move -/

section

variable {rules : EofRules} {c : EofCursor}

theorem placed_cursor (dupSort : Bool) (entries : List (Bytes × Bytes)) :
    (sqlite3BtreeCursor dupSort entries).Placed :=
  ⟨fun _ hi ↦ absurd hi (not_mem_none _), fun _ ↦ ⟨rfl, rfl⟩⟩

variable {i : ℕ} {mc : TableCursor}

/-- What is shown of a move: the answer is right after it exactly if it meets the guard. -/
def StepRight (rules : EofRules) (c : EofCursor) (move : Move) : Prop :=
  ((c.step rules move).EofRight ↔ Guard rules c move) ∧ (c.step rules move).Placed

variable {move : Move} {eof : Bool}

/-- A move that arrives at an entry, with what LMDB has set `C_EOF` to. -/
theorem StepRight.arrived (hi : i < mc.entries.length)
    (hmoved : c.step rules move = ⟨{ mc with pos := some i }, eof, false⟩)
    (hguard : eof = false ↔ Guard rules c move) : StepRight rules c move := by
  have hentry : entry ⟨{ mc with pos := some i }, eof, false⟩ ≠ none := by simp [entry, hi]
  rw [StepRight, hmoved, ← hguard]
  refine ⟨by simp [EofRight, sqlite3BtreeEof, hentry], fun j hj ↦ ?_, fun hempty ↦ ?_⟩
  · exact some.inj hj ▸ Nat.le_of_lt hi
  · rw [length_eq_zero_iff.mpr hempty] at hi
    exact absurd hi (Nat.not_lt_zero i)

/-- A move that leaves the cursor at no entry, with what LMDB has set `C_EOF` to. -/
theorem StepRight.left_off (hfull : mc.entries ≠ []) {pos : Option ℕ}
    (hpos : ∀ i ∈ pos, i = mc.entries.length)
    (hmoved : c.step rules move = ⟨{ mc with pos := pos }, eof, false⟩)
    (hguard : eof = true ↔ Guard rules c move) : StepRight rules c move := by
  have hentry : entry ⟨{ mc with pos := pos }, eof, false⟩ = none := by
    cases pos with
    | none => rfl
    | some i => simp [entry, hpos i rfl]
  rw [StepRight, hmoved, ← hguard]
  exact ⟨by simp [EofRight, sqlite3BtreeEof, hentry], fun i hi ↦ Nat.le_of_eq (hpos i hi),
    fun hempty ↦ absurd hempty hfull⟩

theorem next_lt (hfull : mc.entries ≠ []) (hnext : mc.next = some i) : i < mc.entries.length := by
  cases hpos : mc.pos with
  | none =>
    simp only [TableCursor.next, hpos, firstPlace, if_neg hfull, Option.some.injEq] at hnext
    exact hnext ▸ length_pos_iff.mpr hfull
  | some j =>
    simp only [TableCursor.next, hpos, nextPlace] at hnext
    split_ifs at hnext with hj
    exact some.inj hnext ▸ hj

theorem previous_lt (hfull : mc.entries ≠ []) (hinside : ∀ i ∈ mc.pos, i ≤ mc.entries.length)
    (hprevious : mc.previous = some i) : i < mc.entries.length := by
  have hlength := length_pos_iff.mpr hfull
  cases hpos : mc.pos with
  | none =>
    simp only [TableCursor.previous, hpos, lastPlace, if_neg hfull, Option.some.injEq] at hprevious
    omega
  | some j =>
    have hj := hinside j hpos
    simp only [TableCursor.previous, hpos, previousPlace] at hprevious
    split_ifs at hprevious with hzero
    have hi := some.inj hprevious
    omega

theorem first_right (hfull : c.mc.entries ≠ []) : StepRight rules c .first := by
  have hmoved : c.step rules .first = ⟨{ c.mc with pos := some 0 }, false, false⟩ := by
    simp [step, sqlite3BtreeFirst, TableCursor.sqlite3BtreeFirst, firstPlace, hfull,
      TableCursor.mdbCursorGet]
  exact .arrived (length_pos_iff.mpr hfull) hmoved (iff_of_true rfl hfull)

theorem last_right (hfull : c.mc.entries ≠ []) : StepRight rules c .last := by
  have hmoved : c.step rules .last =
      ⟨{ c.mc with pos := some (c.mc.entries.length - 1) }, rules.last, false⟩ := by
    simp [step, sqlite3BtreeLast, TableCursor.sqlite3BtreeLast, lastPlace, hfull,
      TableCursor.mdbCursorGet]
  exact .arrived (Nat.sub_lt (length_pos_iff.mpr hfull) Nat.one_pos) hmoved
    (and_iff_right hfull).symm

theorem next_right (hplaced : c.Placed) (hfull : c.mc.entries ≠ []) : StepRight rules c .next := by
  cases hnext : c.mc.next with
  | none =>
    have hmoved : c.step rules .next = ⟨c.mc, true, true⟩ := by
      simp [step, sqlite3BtreeNext, TableCursor.sqlite3BtreeNext, hfull, hnext,
        TableCursor.mdbCursorGet]
    rw [StepRight, hmoved]
    exact ⟨iff_of_true (iff_of_true rfl rfl) hfull, hplaced.inside,
      fun hempty ↦ absurd hempty hfull⟩
  | some i =>
    have hmoved : c.step rules .next = ⟨{ c.mc with pos := some i }, false, false⟩ := by
      simp [step, sqlite3BtreeNext, TableCursor.sqlite3BtreeNext, hfull, hnext,
        TableCursor.mdbCursorGet]
    exact .arrived (next_lt hfull hnext) hmoved (iff_of_true rfl hfull)

theorem previous_right (hplaced : c.Placed) (hfull : c.mc.entries ≠ []) :
    StepRight rules c .previous := by
  cases hprevious : c.mc.previous with
  | none =>
    have hmoved : c.step rules .previous =
        ⟨{ c.mc with pos := none }, rules.keeps && c.eof, false⟩ := by
      simp [step, sqlite3BtreePrevious, hfull, hprevious]
    exact .left_off hfull (fun i hi ↦ absurd hi (not_mem_none i)) hmoved
      (by simp [Guard, hfull, hprevious])
  | some i =>
    have hmoved : c.step rules .previous = ⟨{ c.mc with pos := some i }, false, false⟩ := by
      simp [step, sqlite3BtreePrevious, TableCursor.sqlite3BtreePrevious, hfull, hprevious,
        TableCursor.mdbCursorGet]
    exact .arrived (previous_lt hfull hplaced.inside hprevious) hmoved
      (iff_of_true rfl ⟨hfull, .inl (by simp [hprevious])⟩)

theorem movetoUnpacked_right (hfull : c.mc.entries ≠ []) (seeks : Bytes × Bytes → Bool)
    (left : Option ℕ) : StepRight rules c (.movetoUnpacked seeks left) := by
  cases hfound : c.mc.entries.findIdx? seeks with
  | some i =>
    have hmoved : c.step rules (.movetoUnpacked seeks left) =
        ⟨{ c.mc with pos := some i }, false, false⟩ := by
      simp [step, sqlite3BtreeMovetoUnpacked, TableCursor.sqlite3BtreeMovetoUnpacked, hfull, hfound,
        TableCursor.mdbCursorSeek]
    obtain ⟨hi, hseeks, -⟩ := findIdx?_eq_some_iff_getElem.mp hfound
    exact .arrived hi hmoved (iff_of_true rfl ⟨hfull, .inl ⟨_, getElem_mem hi, hseeks⟩⟩)
  | none =>
    have hnone : ¬ ∃ found ∈ c.mc.entries, seeks found = true := by
      simpa using findIdx?_eq_none_iff.mp hfound
    cases hdup : c.mc.dupSort with
    | true =>
      have hmoved : c.step rules (.movetoUnpacked seeks left) =
          ⟨{ c.mc with pos := some c.mc.entries.length },
            rules.range || (rules.keeps && c.eof), false⟩ := by
        simp [step, sqlite3BtreeMovetoUnpacked, TableCursor.sqlite3BtreeMovetoUnpacked, hfull,
          hfound, TableCursor.mdbCursorSeek, hdup]
      exact .left_off hfull (fun i hi ↦ (some.inj hi).symm) hmoved
        (by simp [Guard, hfull, hnone, hdup])
    | false =>
      have hmoved : c.step rules (.movetoUnpacked seeks left) =
          ⟨{ c.mc with pos := left.map (min c.mc.entries.length) },
            rules.keeps && c.eof, false⟩ := by
        simp [step, sqlite3BtreeMovetoUnpacked, TableCursor.sqlite3BtreeMovetoUnpacked, hfull,
          hfound, TableCursor.mdbCursorSeek, hdup]
      have hguard : Guard rules c (.movetoUnpacked seeks left) ↔
          ((rules.keeps && c.eof) = true ↔ ∀ i ∈ left, c.mc.entries.length ≤ i) := by
        simp [Guard, hfull, hnone, hdup]
      by_cases hoff : ∀ i ∈ left, c.mc.entries.length ≤ i
      · refine .left_off hfull (fun i hi ↦ ?_) hmoved (hguard.trans (iff_true_right hoff)).symm
        obtain ⟨j, hj, rfl⟩ := map_eq_some_iff.mp hi
        exact Nat.min_eq_left (hoff j hj)
      · obtain ⟨i, hi, hlt⟩ : ∃ i ∈ left, i < c.mc.entries.length := by
          simpa using hoff
        obtain rfl : left = some i := hi
        rw [map_some, Nat.min_eq_right (Nat.le_of_lt hlt)] at hmoved
        exact .arrived hlt hmoved
          (Bool.eq_false_iff.trans (hguard.trans (iff_false_right hoff)).symm)

theorem step_empty (hplaced : c.Placed) (hempty : c.mc.entries = []) (move : Move) :
    (c.step rules move).mc = c.mc ∧ (c.step rules move).eof = c.eof := by
  have hcleared : { c.mc with pos := none } = c.mc := by rw [← (hplaced.empty hempty).2]
  cases move with
  | first | last | next | previous =>
    exact ⟨congrArg mc (if_pos hempty), congrArg eof (if_pos hempty)⟩
  | movetoUnpacked seeks left =>
    have hmoved : c.step rules (.movetoUnpacked seeks left) =
        ⟨{ c.mc with pos := none }, c.eof, false⟩ := if_pos hempty
    rw [hmoved]
    exact ⟨hcleared, rfl⟩

theorem entry_empty (hplaced : c.Placed) (hempty : c.mc.entries = []) : c.entry = none := by
  simp [entry, (hplaced.empty hempty).2]

/-- On an empty table the answer is wrong whatever has been done. -/
theorem not_eofRight_empty (hplaced : c.Placed) (hempty : c.mc.entries = []) : ¬ c.EofRight := by
  simp [EofRight, sqlite3BtreeEof, (hplaced.empty hempty).1, entry_empty hplaced hempty]

theorem not_guard_empty (hempty : c.mc.entries = []) (move : Move) : ¬ Guard rules c move := by
  cases move <;> simp [Guard, hempty]

/-- The answer is right after a move exactly if the move meets the guard. -/
theorem step_right (hplaced : c.Placed) (move : Move) : StepRight rules c move := by
  by_cases hempty : c.mc.entries = []
  · obtain ⟨hmc, heof⟩ := @step_empty rules c hplaced hempty move
    have hplaced' : (c.step rules move).Placed :=
      ⟨by rw [hmc]; exact hplaced.inside, by rw [hmc, heof]; exact hplaced.empty⟩
    exact ⟨iff_of_false (not_eofRight_empty hplaced' (hmc ▸ hempty)) (not_guard_empty hempty move),
      hplaced'⟩
  · cases move with
    | first => exact first_right hempty
    | last => exact last_right hempty
    | next => exact next_right hplaced hempty
    | previous => exact previous_right hplaced hempty
    | movetoUnpacked seeks left => exact movetoUnpacked_right hempty seeks left

end

/-! ### A run of moves -/

/-- Along a run of moves on any table or index, `sqlite3BtreeEof` is right after every move exactly
if every move meets the guard: the table is not empty; `sqlite3BtreeLast` does not set `C_EOF`;
there is an entry before that of `sqlite3BtreePrevious`; a search that finds nothing has set the
flag on an index, and leaves the cursor at an entry of a table. -/
theorem eof_right_iff (rules : EofRules) (dupSort : Bool) (entries : List (Bytes × Bytes))
    (moves : List Move) : Meets (step rules) (fun c move ↦ (c.step rules move).EofRight)
        (sqlite3BtreeCursor dupSort entries) moves ↔
      Meets (step rules) (Guard rules) (sqlite3BtreeCursor dupSort entries) moves :=
  Meets.iff_of_invariant (fun _ move hplaced _ _ ↦ (step_right hplaced move).2)
    (fun _ move hplaced _ ↦ (step_right hplaced move).1)
    (placed_cursor dupSort entries) (meets_of_forall (fun _ _ ↦ trivial) _ moves)

/-- A search on an empty index and a move back from the first row of a table. -/
theorem eof_wrong :
    let found := (sqlite3BtreeCursor true []).step .lmdb (.movetoUnpacked (fun _ ↦ true) none)
    let moved := ((sqlite3BtreeCursor false [([1], [10]), ([2], [20])]).step .lmdb .first).step
      .lmdb .previous
    found.entry = none ∧ found.sqlite3BtreeEof = false ∧
      moved.entry = none ∧ moved.sqlite3BtreeEof = false := by
  decide

/-- A cursor on an empty table stays as it has been opened. -/
theorem run_empty (rules : EofRules) (dupSort : Bool) (moves : List Move) :
    let c := moves.foldl (step rules) (sqlite3BtreeCursor dupSort [])
    c.Placed ∧ c.mc.entries = [] := by
  have hstep : ∀ (c : EofCursor) (move : Move), c.Placed ∧ c.mc.entries = [] → True →
      (c.step rules move).Placed ∧ (c.step rules move).mc.entries = [] := by
    rintro c move ⟨hplaced, hempty⟩ -
    obtain ⟨hmc, -⟩ := @step_empty rules c hplaced hempty move
    exact ⟨(step_right hplaced move).2, hmc ▸ hempty⟩
  have hmoves : Meets (step rules) (fun _ _ ↦ True) (sqlite3BtreeCursor dupSort []) moves :=
    meets_of_forall (fun _ _ ↦ trivial) _ moves
  exact Meets.invariant hstep ⟨placed_cursor dupSort [], rfl⟩ hmoves

end EofCursor

/-! ### The seek backwards -/

inductive SeekBack
  | lt
  | le
deriving DecidableEq

/-- `OP_SeekLt` and `OP_SeekLe` after their search with result `res`: the cursor, and whether the
opcode jumps since there is no such row. -/
def opSeek (rules : EofRules) (oc : SeekBack) (res : ℤ) (c : EofCursor) : EofCursor × Bool :=
  if 0 < res ∨ (res = 0 ∧ oc = .lt) then
    (c.sqlite3BtreePrevious rules, decide (c.mc.entries = []) || c.mc.previous.isNone)
  else (c, c.sqlite3BtreeEof)

/-- On an empty table the search gives -1, and the opcode does not jump: the program goes on with a
row that there is not. -/
theorem opSeek_empty (rules : EofRules) (oc : SeekBack) (dupSort : Bool)
    (moves : List EofCursor.Move) (seeks : Bytes × Bytes → Bool) (left : Option ℕ) :
    let c := moves.foldl (EofCursor.step rules) (EofCursor.sqlite3BtreeCursor dupSort [])
    let sought := c.sqlite3BtreeMovetoUnpacked rules seeks left
    (opSeek rules oc (-1) sought).2 = false ∧ (opSeek rules oc (-1) sought).1.entry = none := by
  intro c sought
  obtain ⟨hplaced, hempty⟩ := EofCursor.run_empty rules dupSort
    (moves ++ [.movetoUnpacked seeks left])
  rw [foldl_append] at hplaced hempty
  exact ⟨(hplaced.empty hempty).1, EofCursor.entry_empty hplaced hempty⟩

end LumoSQL
