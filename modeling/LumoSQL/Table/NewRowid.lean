import LumoSQL.Table.RootCalls

/-!
# New rowids

`OP_NewRowid` takes a rowid from one of three places: the cache that the cursors on a table share,
the last row plus one, or a random number that is looked up in the table. The cache is the rowid
after the last one that was given out; every insert and delete through any cursor of the table
resets it. `OP_Insert` does not ask whether its row is there.

`sqlite3BtreeLast` goes to the last rowid in the order of LMDB, which is unsigned: with a negative
rowid in the table it is the greatest negative one. One more is a new rowid unless it is zero, so a
row `-1` makes `OP_NewRowid` give out rows that exist, and with the register of an `AUTOINCREMENT`
table any negative rowid does (`newRowid_exists`). `newRowids_fresh` says that nothing else does.

LMDB finds the last entry of a table that is not empty, and a search for a row does not fail.
-/

namespace LumoSQL

open Foundation List Function

/-! ### The opcodes -/

def MAX_ROWID : Int64 := 0x7fffffffffffffff

/-- A table with the cursors on it: the rows, `cachedRowid` and `useRandomRowid` of each cursor, and
`db->lastRowid`. -/
structure RowidState where
  nodes : List (Node UInt64 Bytes)
  cachedRowid : ℕ → Int64
  useRandomRowid : ℕ → Bool
  lastRowid : Int64

/-- `sqlite3BtreeSetCachedRowid`: every cursor of the file on the same table. -/
def RowidState.sqlite3BtreeSetCachedRowid (s : RowidState) (iRowid : Int64) : RowidState :=
  { s with cachedRowid := fun _ ↦ iRowid }

/-- `sqlite3BtreeLast` and `sqlite3BtreeKeySize`: the rowid of the last row, if there is one. -/
def lastKey (nodes : List (Node UInt64 Bytes)) : Option Int64 :=
  (entries nodes).getLast?.map sqlite3BtreeKeySizeRow

/-- `res` of `sqlite3BtreeMovetoUnpacked` to a row is zero. -/
def rowFound (ctx : BtreeContext) (nodes : List (Node UInt64 Bytes)) (v : Int64) : Bool :=
  (ctx.moveto (.integerKey nodes) v).elim false fun moved ↦ decide (moved.res = 0)

/-- The candidate made of a random number after `cnt` collisions. -/
def randomCandidate (cnt : ℕ) (random : Int64) : Int64 :=
  (if cnt < 5 then random &&& 0xffffff else random &&& (MAX_ROWID >>> 1)) + 1

/-- The loop that looks up candidates: `random` has the numbers of `sqlite3_randomness`, and at most
`fuel` candidates are looked up. None is found where the loop ends with `SQLITE_FULL`. -/
def probeRowid (ctx : BtreeContext) (nodes : List (Node UInt64 Bytes)) (random : ℕ → Int64) :
    ℕ → ℕ → Int64 → Option Int64
  | 0, _, _ => none
  | fuel + 1, cnt, v =>
    if rowFound ctx nodes v then
      if cnt + 1 < 100 then
        probeRowid ctx nodes random fuel (cnt + 1) (randomCandidate (cnt + 1) (random (cnt + 1)))
      else none
    else some v

/-- The part of `OP_NewRowid` for a cursor with `useRandomRowid`; the loop looks up at most a
hundred candidates. -/
def randomRowid (ctx : BtreeContext) (s : RowidState) (random : ℕ → Int64) : Except Rc Int64 :=
  match probeRowid ctx s.nodes random 100 0 ((s.lastRowid &&& (MAX_ROWID >>> 1)) + 1) with
  | some v => .ok v
  | none => .error .full

/-- The rowid after the cached one or the last one, and `useRandomRowid` after it. -/
def nextRowid (s : RowidState) (pC : ℕ) : Int64 × Bool :=
  if s.cachedRowid pC = 0 then
    match lastKey s.nodes with
    | none => (1, false)
    | some v => if MAX_ROWID ≤ v then (v, true) else (v + 1, false)
  else (s.cachedRowid pC, false)

/-- `OP_NewRowid`: the rowid or the code, and the state. `p3` is the register of an `AUTOINCREMENT`
table, if there is one. -/
def opNewRowid (ctx : BtreeContext) (s : RowidState) (pC : ℕ) (p3 : Option Int64)
    (random : ℕ → Int64) : Except Rc Int64 × RowidState :=
  if s.useRandomRowid pC then (randomRowid ctx s random, s)
  else
    let next := nextRowid s pC
    let s := { s with useRandomRowid := Function.update s.useRandomRowid pC next.2 }
    let cached := fun v ↦ s.sqlite3BtreeSetCachedRowid (if v < MAX_ROWID then v + 1 else 0)
    match p3 with
    | some largest =>
      if largest = MAX_ROWID ∨ next.2 = true then (.error .full, s)
      else
        let v := if next.1 < largest + 1 then largest + 1 else next.1
        (.ok v, cached v)
    | none =>
      if next.2 then (randomRowid ctx s random, cached next.1)
      else (.ok next.1, cached next.1)

/-- `OP_Insert` of a row: `setsLast` is the flag `OPFLAG_LASTROWID` and `outcome` the code of the
put. -/
def opInsert (s : RowidState) (iKey : Int64) (data : Bytes) (setsLast : Bool) (outcome : MdbRc) :
    RowidState :=
  let s := { s with lastRowid := if setsLast then iKey else s.lastRowid }
  { s.sqlite3BtreeSetCachedRowid 0 with
    nodes := if outcome = .success then insertRow iKey data s.nodes else s.nodes }

/-- `OP_Delete` of the row a cursor is at: `outcome` is the code of the removal. -/
def opDelete (s : RowidState) (place : ℕ × ℕ) (outcome : MdbRc) : RowidState :=
  { s.sqlite3BtreeSetCachedRowid 0 with
    nodes := if outcome = .success then eraseAt s.nodes place else s.nodes }

/-! ### Runs -/

/-- An opcode on the table, or a cursor that is opened on it. -/
inductive RowidOp
  | openCursor (pC : ℕ)
  | newRowid (pC : ℕ) (p3 : Option Int64) (random : ℕ → Int64)
  | insert (iKey : Int64) (data : Bytes) (setsLast : Bool) (outcome : MdbRc)
  | delete (place : ℕ × ℕ) (outcome : MdbRc)

namespace RowidOp

/-- The state after an opcode. -/
def run (ctx : BtreeContext) (s : RowidState) : RowidOp → RowidState
  | .openCursor pC => { s with
      cachedRowid := Function.update s.cachedRowid pC 0
      useRandomRowid := Function.update s.useRandomRowid pC false }
  | .newRowid pC p3 random => (opNewRowid ctx s pC p3 random).2
  | .insert iKey data setsLast outcome => opInsert s iKey data setsLast outcome
  | .delete place outcome => opDelete s place outcome

end RowidOp

def RowidState.HasRow (s : RowidState) (rowid : Int64) : Prop :=
  ∃ entry ∈ entries s.nodes, entry.1 = rowid.toUInt64

/-- A rowid that `OP_NewRowid` gives out is not one of a row, and an insert of it overwrites
nothing. -/
def FreshRowid (ctx : BtreeContext) (s : RowidState) : RowidOp → Prop
  | .newRowid pC p3 random => ∀ v, (opNewRowid ctx s pC p3 random).1 = .ok v → ¬ s.HasRow v ∧
      ∀ data, ∀ entry ∈ entries s.nodes, entry ∈ entries (insertRow v data s.nodes)
  | _ => True

/-- Where `OP_NewRowid` is used as it should be: the cursor takes random rowids, or the table has no
negative rowid, or it is not one with `AUTOINCREMENT` and has no row `-1`. -/
def RowidGuard (s : RowidState) : RowidOp → Prop
  | .newRowid pC p3 _ => s.useRandomRowid pC = true ∨ (∀ rowid, s.HasRow rowid → 0 ≤ rowid.toInt) ∨
      (p3 = none ∧ ¬ s.HasRow (-1))
  | _ => True

/-! ### Rowids as numbers -/

theorem maxRowid_toInt : MAX_ROWID.toInt = 2 ^ 63 - 1 := by decide

theorem toInt_succ {v : Int64} (hlt : v.toInt < 2 ^ 63 - 1) : (v + 1).toInt = v.toInt + 1 := by
  have hlow := v.le_toInt
  have hone : (1 : Int64).toInt = 1 := by decide
  rw [Int64.toInt_add, hone, Int.bmod_eq_of_le] <;> omega

theorem lt_maxRowid_iff {v : Int64} : v < MAX_ROWID ↔ v.toInt < 2 ^ 63 - 1 := by
  rw [Int64.lt_iff_toInt_lt, maxRowid_toInt]

/-! ### The last row -/

section

variable {s : RowidState}

/-- The last row of a table has the greatest rowid as an unsigned number. -/
theorem lastKey_cases (hstore : TableStore s.nodes) :
    (lastKey s.nodes = none ∧ ∀ rowid, ¬ s.HasRow rowid) ∨
      ∃ last, lastKey s.nodes = some last ∧ s.HasRow last ∧
        ∀ rowid, s.HasRow rowid → rowid.toUInt64.toNat ≤ last.toUInt64.toNat := by
  unfold lastKey
  cases hlast : (entries s.nodes).getLast? with
  | none =>
    refine .inl ⟨rfl, fun rowid hrow ↦ ?_⟩
    obtain ⟨entry, hentry, -⟩ := hrow
    rw [getLast?_eq_none_iff.mp hlast] at hentry
    cases hentry
  | some entry =>
    obtain ⟨before, hentries⟩ := getLast?_eq_some_iff.mp hlast
    have hback : entry.1.toInt64.toUInt64 = entry.1 := UInt64.toUInt64_toInt64 _
    refine .inr ⟨entry.1.toInt64, rfl, ⟨entry, ?_, hback.symm⟩, fun rowid hrow ↦ ?_⟩
    · rw [hentries]
      exact mem_append_right _ (.head _)
    · have hkeys : ((entries s.nodes).map Prod.fst).Pairwise fun a b ↦ integerProbe a b < 0 := by
        rw [Single.entries_keys hstore.rows, pairwise_map]
        exact hstore.ordered
      obtain ⟨other, hother, hkey⟩ := hrow
      rw [hback, ← hkey]
      rw [hentries, map_append, pairwise_append] at hkeys
      rw [hentries] at hother
      rcases mem_append.mp hother with hbefore | hsame
      · have hless := hkeys.2.2 other.1 (mem_map_of_mem hbefore) entry.1 (by simp)
        rw [integerProbe, compareNumbers_neg] at hless
        omega
      · rw [mem_singleton.mp hsame]

variable {last rowid : Int64}

/-- When the last row is not negative, no row is, and none is greater. -/
theorem le_last_of_nonneg (hlast : 0 ≤ last.toInt)
    (hle : rowid.toUInt64.toNat ≤ last.toUInt64.toNat) :
    0 ≤ rowid.toInt ∧ rowid.toInt ≤ last.toInt := by
  have hrowid := toUInt64_toNat rowid
  have hlast' := toUInt64_toNat last
  have hlow := rowid.le_toInt
  have hhigh := last.toInt_lt
  rw [if_pos hlast] at hlast'
  split_ifs at hrowid <;> omega

/-- When the last row is negative, it is the greatest of the negative ones. -/
theorem le_last_of_neg (hlast : last.toInt < 0) (hrow : rowid.toInt < 0)
    (hle : rowid.toUInt64.toNat ≤ last.toUInt64.toNat) : rowid.toInt ≤ last.toInt := by
  have hrowid := toUInt64_toNat rowid
  have hlast' := toUInt64_toNat last
  rw [if_neg (not_le.mpr hlast)] at hlast'
  rw [if_neg (not_le.mpr hrow)] at hrowid
  omega

end

/-! ### What a cached rowid says -/

/-- A value that may be cached: above every row and with no negative one, or above every negative
row and with one. -/
structure CacheFor (s : RowidState) (v : Int64) : Prop where
  positive : 0 < v.toInt → ∀ rowid, s.HasRow rowid → 0 ≤ rowid.toInt ∧ rowid.toInt < v.toInt
  negative : v.toInt < 0 → (∃ rowid, s.HasRow rowid ∧ rowid.toInt < 0) ∧
    ∀ rowid, s.HasRow rowid → rowid.toInt < 0 → rowid.toInt < v.toInt

namespace CacheFor

variable {s : RowidState} {v : Int64}

theorem zero (s : RowidState) : CacheFor s 0 where
  positive := fun hpos ↦ absurd hpos (by decide)
  negative := fun hneg ↦ absurd hneg (by decide)

theorem congr (hcache : CacheFor s v) {s' : RowidState} (hnodes : s'.nodes = s.nodes) :
    CacheFor s' v := by
  have hrows : s'.HasRow = s.HasRow := by
    ext rowid
    rw [RowidState.HasRow, RowidState.HasRow, hnodes]
  constructor
  · rw [hrows]
    exact hcache.positive
  · rw [hrows]
    exact hcache.negative

/-- A value other than zero that may be cached is not the rowid of a row. -/
theorem fresh (hcache : CacheFor s v) (hne : v.toInt ≠ 0) : ¬ s.HasRow v := by
  intro hrow
  rcases lt_or_gt_of_ne hne with hneg | hpos
  · exact lt_irrefl _ ((hcache.negative hneg).2 v hrow hneg)
  · exact lt_irrefl _ (hcache.positive hpos v hrow).2

/-- What is cached after a value has been given out. -/
theorem succ (hcache : CacheFor s v) (hne : v.toInt ≠ 0) :
    CacheFor s (if v < MAX_ROWID then v + 1 else 0) := by
  by_cases hlt : v < MAX_ROWID
  · rw [if_pos hlt]
    have hsucc := toInt_succ (lt_maxRowid_iff.mp hlt)
    constructor
    · intro hpos rowid hrow
      rw [hsucc] at hpos ⊢
      obtain ⟨hnonneg, hless⟩ := hcache.positive (by omega) rowid hrow
      omega
    · intro hneg
      rw [hsucc] at hneg ⊢
      obtain ⟨hexists, hless⟩ := hcache.negative (by omega)
      refine ⟨hexists, fun rowid hrow hrowneg ↦ ?_⟩
      have hbefore := hless rowid hrow hrowneg
      omega
  · rw [if_neg hlt]
    exact zero s

/-- Assumes: no negative rows. A greater value may be cached too. -/
theorem mono (hcache : CacheFor s v) (hne : v.toInt ≠ 0)
    (hnonneg : ∀ rowid, s.HasRow rowid → 0 ≤ rowid.toInt) {w : Int64} (hle : v.toInt ≤ w.toInt) :
    CacheFor s w ∧ w.toInt ≠ 0 := by
  have hpos : 0 < v.toInt := by
    rcases lt_or_gt_of_ne hne with hneg | hpos
    · obtain ⟨⟨rowid, hrow, hrowneg⟩, -⟩ := hcache.negative hneg
      have hrowpos := hnonneg rowid hrow
      omega
    · exact hpos
  refine ⟨⟨fun _ rowid hrow ↦ ?_, fun hneg ↦ by omega⟩, by omega⟩
  obtain ⟨hrowpos, hless⟩ := hcache.positive hpos rowid hrow
  omega

end CacheFor

structure CachesRight (s : RowidState) : Prop where
  store : TableStore s.nodes
  cached : ∀ pC, CacheFor s (s.cachedRowid pC)

section

variable {ctx : BtreeContext} {s : RowidState}

variable {op : RowidOp} {pC : ℕ} {random : ℕ → Int64} {v : Int64}

theorem rowFound_of_hasRow (hstore : TableStore s.nodes) (hrow : s.HasRow v) :
    rowFound ctx s.nodes v = true := by
  have hentries : (MdbTable.integerKey s.nodes).mdEntries ≠ 0 := by
    obtain ⟨entry, hentry, -⟩ := hrow
    exact fun hzero ↦ ne_nil_of_mem hentry (length_eq_zero_iff.mp hzero)
  obtain ⟨place, data, hmoved, -⟩ := movetoRow_mem hstore ctx.past ctx.mem none hrow
  simp only [rowFound, BtreeContext.moveto, sqlite3BtreeMovetoUnpacked, if_neg hentries, hmoved]
  rfl

/-- A candidate that the loop accepts is not the rowid of a row. -/
theorem probeRowid_fresh (hstore : TableStore s.nodes) {fuel cnt : ℕ} {v found : Int64}
    (hprobe : probeRowid ctx s.nodes random fuel cnt v = some found) : ¬ s.HasRow found := by
  induction fuel generalizing cnt v with
  | zero => cases hprobe
  | succ fuel ih =>
    rw [probeRowid] at hprobe
    by_cases hfound : rowFound ctx s.nodes v = true
    · rw [if_pos hfound] at hprobe
      by_cases hcnt : cnt + 1 < 100
      · rw [if_pos hcnt] at hprobe
        exact ih hprobe
      · rw [if_neg hcnt] at hprobe
        cases hprobe
    · rw [if_neg hfound] at hprobe
      cases hprobe
      exact fun hrow ↦ hfound (rowFound_of_hasRow hstore hrow)

theorem randomRowid_fresh (hstore : TableStore s.nodes) (hrandom : randomRowid ctx s random = .ok v)
    : ¬ s.HasRow v := by
  unfold randomRowid at hrandom
  split at hrandom
  · rename_i found hprobe
    obtain rfl := Except.ok.inj hrandom
    exact probeRowid_fresh hstore hprobe
  · cases hrandom

/-- Assumes: no negative row, or no row `-1` and no register. The rowid after the cached one or the
last one may be cached. -/
theorem nextRowid_cacheFor (hright : CachesRight s) (pC : ℕ)
    (hguard : (∀ rowid, s.HasRow rowid → 0 ≤ rowid.toInt) ∨ ¬ s.HasRow (-1))
    (hnext : (nextRowid s pC).2 = false) :
    CacheFor s (nextRowid s pC).1 ∧ (nextRowid s pC).1.toInt ≠ 0 := by
  by_cases hcached : s.cachedRowid pC = 0
  · rw [nextRowid, if_pos hcached] at hnext ⊢
    rcases lastKey_cases hright.store with ⟨hnone, hempty⟩ | ⟨last, hlast, hrow, hgreatest⟩
    · rw [hnone]
      exact ⟨⟨fun _ rowid hrow ↦ absurd hrow (hempty rowid), fun hneg ↦ absurd hneg (by decide)⟩,
        by decide⟩
    · rw [hlast] at hnext ⊢
      by_cases hmax : MAX_ROWID ≤ last
      · simp [hmax] at hnext
      · simp only [if_neg hmax]
        have hlt : last.toInt < 2 ^ 63 - 1 := by
          rw [Int64.le_iff_toInt_le, maxRowid_toInt] at hmax
          omega
        have hsucc := toInt_succ hlt
        by_cases hnonneg : 0 ≤ last.toInt
        · refine ⟨⟨fun _ rowid hrowid ↦ ?_, fun hneg ↦ by omega⟩, by omega⟩
          have hbounds := le_last_of_nonneg hnonneg (hgreatest rowid hrowid)
          omega
        · have hneg : last.toInt < 0 := not_le.mp hnonneg
          -- with a negative row there is no row `-1`, so one more is still negative
          have hne : last.toInt ≠ -1 := by
            intro heq
            rcases hguard with hall | hminus
            · exact hnonneg (hall last hrow)
            · have hsame : last = -1 := Int64.toInt_inj.mp (heq.trans (by decide))
              exact hminus (hsame ▸ hrow)
          refine ⟨⟨fun hpos ↦ by omega,
            fun _ ↦ ⟨⟨last, hrow, hneg⟩, fun rowid hrowid hrowneg ↦ ?_⟩⟩, by omega⟩
          have hbound := le_last_of_neg hneg hrowneg (hgreatest rowid hrowid)
          omega
  · rw [nextRowid, if_neg hcached]
    refine ⟨hright.cached pC, fun hzero ↦ hcached ?_⟩
    exact Int64.toInt_inj.mp hzero

/-- A cursor goes over to random rowids at the greatest rowid only. -/
theorem nextRowid_random (hnext : (nextRowid s pC).2 = true) :
    ¬ (nextRowid s pC).1 < MAX_ROWID := by
  unfold nextRowid at hnext ⊢
  by_cases hcached : s.cachedRowid pC = 0
  · rw [if_pos hcached] at hnext ⊢
    cases hlast : lastKey s.nodes with
    | none => simp [hlast] at hnext
    | some last =>
      by_cases hmax : MAX_ROWID ≤ last
      · simp only [if_pos hmax]
        exact Int64.not_lt.mpr hmax
      · simp [hlast, hmax] at hnext
  · simp [hcached] at hnext

/-- The rows are the same and every cursor has one value cached, which may be. -/
theorem CachesRight.setCached (hright : CachesRight s) (useRandom : ℕ → Bool)
    (hcache : CacheFor s v) :
    CachesRight ({ s with useRandomRowid := useRandom }.sqlite3BtreeSetCachedRowid v) where
  store := hright.store
  cached := fun _ ↦ hcache.congr rfl

/-- Under the guard `OP_NewRowid` gives out a rowid that no row has, and caches one it may. -/
theorem opNewRowid_right (hright : CachesRight s) {p3 : Option Int64}
    (hguard : RowidGuard s (.newRowid pC p3 random)) :
    CachesRight (opNewRowid ctx s pC p3 random).2 ∧
      ∀ v, (opNewRowid ctx s pC p3 random).1 = .ok v → ¬ s.HasRow v := by
  unfold opNewRowid
  by_cases huse : s.useRandomRowid pC = true
  · rw [if_pos huse]
    exact ⟨hright, fun v hrandom ↦ randomRowid_fresh hright.store hrandom⟩
  · rw [if_neg huse]
    have hrows := hguard.resolve_left huse
    have hnextRight := nextRowid_cacheFor hright pC (hrows.imp_right And.right)
    cases p3 with
    | some largest =>
      by_cases hfull : largest = MAX_ROWID ∨ (nextRowid s pC).2 = true
      · simp only [if_pos hfull]
        exact ⟨⟨hright.store, fun other ↦ (hright.cached other).congr rfl⟩, nofun⟩
      · simp only [if_neg hfull]
        have hnonneg := hrows.resolve_right fun hnone ↦ by cases hnone.1
        obtain ⟨hcache, hne⟩ := hnextRight (Bool.not_eq_true _ ▸ fun htrue ↦ hfull (.inr htrue))
        -- the register only raises the rowid
        obtain ⟨hcache', hne'⟩ := hcache.mono hne hnonneg
          (w := if (nextRowid s pC).1 < largest + 1 then largest + 1 else (nextRowid s pC).1) <| by
            by_cases hless : (nextRowid s pC).1 < largest + 1
            · rw [if_pos hless]
              exact (Int64.lt_iff_toInt_lt.mp hless).le
            · rw [if_neg hless]
        refine ⟨hright.setCached _ (hcache'.succ hne'), fun v hv ↦ ?_⟩
        obtain rfl := Except.ok.inj hv
        exact hcache'.fresh hne'
    | none =>
      by_cases hnext : (nextRowid s pC).2 = true
      · simp only [if_pos hnext, if_neg (nextRowid_random hnext)]
        exact ⟨hright.setCached _ (CacheFor.zero s),
          fun v hrandom ↦ randomRowid_fresh hright.store hrandom⟩
      · simp only [if_neg hnext]
        obtain ⟨hcache, hne⟩ := hnextRight (Bool.not_eq_true _ ▸ hnext)
        refine ⟨hright.setCached _ (hcache.succ hne), fun v hv ↦ ?_⟩
        obtain rfl := Except.ok.inj hv
        exact hcache.fresh hne

/-- Under the guard an opcode leaves the cached rowids right. -/
theorem RowidOp.run_right (hright : CachesRight s) (hguard : RowidGuard s op) :
    CachesRight (op.run ctx s) := by
  cases op with
  | openCursor pC =>
    refine ⟨hright.store, fun other ↦ CacheFor.congr (s := s) ?_ rfl⟩
    by_cases hsame : other = pC
    · simp only [RowidOp.run, hsame, update_self]
      exact CacheFor.zero s
    · simp only [RowidOp.run, update_of_ne hsame]
      exact hright.cached other
  | newRowid pC p3 random => exact (opNewRowid_right hright hguard).1
  | insert iKey data setsLast outcome =>
    refine ⟨?_, fun _ ↦ CacheFor.zero _⟩
    by_cases hsuccess : outcome = .success
    · simp only [RowidOp.run, opInsert, if_pos hsuccess]
      exact hright.store.insertRow _ _
    · simp only [RowidOp.run, opInsert, if_neg hsuccess]
      exact hright.store
  | delete place outcome =>
    refine ⟨?_, fun _ ↦ CacheFor.zero _⟩
    by_cases hsuccess : outcome = .success
    · simp only [RowidOp.run, opDelete, if_pos hsuccess]
      exact hright.store.eraseAt _
    · simp only [RowidOp.run, opDelete, if_neg hsuccess]
      exact hright.store

/-- Under the guard the rowid that `OP_NewRowid` gives out is fresh. -/
theorem freshRowid_of_guard (hright : CachesRight s) (hguard : RowidGuard s op) :
    FreshRowid ctx s op := by
  cases op with
  | newRowid pC p3 random =>
    intro v hv
    have hfresh := (opNewRowid_right hright hguard).2 v hv
    refine ⟨hfresh, fun data entry hentry ↦ ?_⟩
    rw [mem_entries_insertRow hright.store]
    exact .inr ⟨hentry, fun hkey ↦ hfresh ⟨entry, hentry, hkey⟩⟩
  | _ => exact trivial

end

/-- In every run over a table where `OP_NewRowid` is used only while there is no negative rowid, or
without the register while there is no row `-1`, every rowid it gives out is fresh. Assumes: rows in
order, and nothing cached at the start. -/
theorem newRowids_fresh (ctx : BtreeContext) (s : RowidState) (hstore : TableStore s.nodes)
    (hcached : ∀ pC, s.cachedRowid pC = 0) (ops : List RowidOp)
    (hguard : Meets (RowidOp.run ctx) RowidGuard s ops) :
    Meets (RowidOp.run ctx) (FreshRowid ctx) s ops := by
  have hright : CachesRight s := ⟨hstore, fun pC ↦ hcached pC ▸ CacheFor.zero s⟩
  exact hguard.imp_of_invariant (fun _ _ hright ↦ RowidOp.run_right hright)
    (fun _ _ hright ↦ freshRowid_of_guard hright) hright

def rowidContext : BtreeContext := ⟨false, .fnv, ⟨[]⟩, 4, fun _ ↦ 0, fun _ ↦ 0, false⟩

/-- The rows of a table with their rowids as LMDB has them, in its order. -/
def rowidTable (rows : List UInt64) : RowidState :=
  ⟨rows.map fun key ↦ ⟨key, [[1]]⟩, fun _ ↦ 0, fun _ ↦ false, 0⟩

/-- With rows `5` and `-3` the rowid `-2` is given out and inserted, and then `-1`. -/
theorem newRowids_fresh_negative : Meets (RowidOp.run rowidContext) (FreshRowid rowidContext)
        (rowidTable [5, (-3 : Int64).toUInt64])
        [.newRowid 0 none fun _ ↦ 7, .insert (-2) [2] true .success, .newRowid 1 none fun _ ↦ 7] ∧
      (opNewRowid rowidContext (rowidTable [5, (-3 : Int64).toUInt64]) 0 none fun _ ↦ 7).1
        = .ok (-2) := by
  refine ⟨newRowids_fresh _ _ ⟨by unfold Ordered; decide, by simp [rowidTable]⟩ (fun _ ↦ rfl) _
    ⟨.inr (.inr ⟨rfl, ?_⟩), trivial, .inr (.inr ⟨rfl, ?_⟩), trivial⟩, rfl⟩
  · unfold RowidState.HasRow
    decide
  · unfold RowidState.HasRow
    decide

/-- With rows `0` and `-1` the rowid given out is `0`, and the insert of it replaces the row. In an
`AUTOINCREMENT` table with rows `5` and `-3` and the register `4` it is `5`. -/
theorem newRowid_exists :
    (opNewRowid rowidContext (rowidTable [0, (-1 : Int64).toUInt64]) 0 none fun _ ↦ 7).1 = .ok 0 ∧
      (rowidTable [0, (-1 : Int64).toUInt64]).HasRow 0 ∧ ((0 : UInt64), [(1 : UInt8)]) ∉
        entries (insertRow 0 [2] (rowidTable [0, (-1 : Int64).toUInt64]).nodes) ∧
      (opNewRowid rowidContext (rowidTable [5, (-3 : Int64).toUInt64]) 0 (some 4) fun _ ↦ 7).1
        = .ok 5 ∧
      (rowidTable [5, (-3 : Int64).toUInt64]).HasRow 5 := by
  refine ⟨rfl, ?_, ?_, rfl, ?_⟩
  · unfold RowidState.HasRow
    decide
  · decide
  · unfold RowidState.HasRow
    decide

end LumoSQL
