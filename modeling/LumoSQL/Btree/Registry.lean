import LumoSQL.Foundation.GuardedRun
import LumoSQL.Lmdb
import Mathlib.Data.List.Pairwise

/-!
# The registry of shared environments

A file is opened by LMDB once in a process. `sqlite3BtreeOpen` looks for the path in
`sqlite3SharedCacheList` and makes the new Btree one of the handles of the `BtShared` it finds,
which counts them in `nRef`; `sqlite3BtreeClose` closes the environment with the last of them.

On the path that finds a `BtShared` the count is raised twice, in the loop and after it
(`registry_reopened`), so the environment of a file that was opened a second time is never closed.
And where the name of the lock file cannot be allocated the environment has been opened and stays
open. As long as neither happens the registry is right (`registry_iff`).
-/

namespace LumoSQL

open Foundation List Option Function Prod

/-! ### The functions -/

/-- The two versions of `btree.c`. -/
inductive Backend
  | lmdbBackend
  | notForking
  deriving DecidableEq

/-- The bits of `vfsFlags` that are looked at. -/
structure OpenFlags where
  transientDb : Bool
  tempDb : Bool
  readonly : Bool
  deleteonclose : Bool

/-- What the calls report that `sqlite3BtreeOpen` makes: `sqlite3_malloc` of the Btree, of the
`BtShared` and of the name of the lock file, `mkdtemp` or `tempnam`, and LMDB. -/
structure OpenCodes where
  mallocBtree : Bool
  mkdtemp : MdbRc
  tempPath : String
  mallocShared : Bool
  envCreate : MdbRc
  envOpen : MdbRc
  mallocLockname : Bool

/-- `BtShared`, with the path of its environment. -/
structure BtShared where
  mePath : String
  nRef : ℤ
  trees : List ℕ

/-- `pBt` and `isTemp` of a Btree. -/
structure BtreePlace where
  pBt : ℕ
  isTemp : Bool

/-- What a process knows of its environments: `sqlite3SharedCacheList`, the `BtShared` and the Btree
at an address, and the environments that LMDB has open, each named by the address of its `BtShared`.
Addresses from `next` on have not been used. -/
structure Registry where
  next : ℕ
  sharedCacheList : List ℕ
  shared : ℕ → BtShared
  btree : ℕ → BtreePlace
  envs : List ℕ

/-- `zFilename` names no file. -/
def unnamedFile (zFilename : Option String) : Bool :=
  zFilename.elim true fun name ↦ name = "" || name = ":memory:"

def isTempOpen (zFilename : Option String) (flags : OpenFlags) : Backend → Bool
  | .lmdbBackend => flags.transientDb || unnamedFile zFilename
  | .notForking => flags.transientDb || flags.tempDb || unnamedFile zFilename

/-- The registry with a new `BtShared` that has one Btree; that of a temporary one is not listed. -/
def Registry.added (s : Registry) (dirPathName : String) (isTemp : Bool) : Registry where
  next := s.next + 1
  sharedCacheList := if isTemp then s.sharedCacheList else s.next :: s.sharedCacheList
  shared := Function.update s.shared s.next ⟨dirPathName, 1, [s.next]⟩
  btree := Function.update s.btree s.next ⟨s.next, isTemp⟩
  envs := s.next :: s.envs

section

variable (backend : Backend) (fullPathname : String → String)

/-- The part of `sqlite3BtreeOpen` that makes a new `BtShared`. -/
def openShared (s : Registry) (flags : OpenFlags) (codes : OpenCodes) (dirPathName : String)
    (isTemp : Bool) : Rc × Option ℕ × Registry :=
  if codes.mallocShared = false then (.nomem, none, s)
  else if codes.envCreate ≠ .success then (errmap codes.envCreate, none, s)
  else if backend = .notForking ∧ isTemp = false ∧ flags.deleteonclose then (.internal, none, s)
  else if codes.envOpen ≠ .success then (errmap codes.envOpen, none, s)
  else if backend = .lmdbBackend ∧ codes.mallocLockname = false then
    (.nomem, none, { s with next := s.next + 1, envs := s.next :: s.envs })
  else (.ok, some s.next, s.added dirPathName isTemp)

/-- The part of `sqlite3BtreeOpen` that adds a Btree to the `BtShared` it has found: `nRef` is
raised in the loop and once more after it. -/
def openFound (s : Registry) (pBt : ℕ) : Rc × Option ℕ × Registry :=
  let found := s.shared pBt
  (.ok, some s.next, { s with
    next := s.next + 1
    shared := Function.update s.shared pBt ⟨found.mePath, found.nRef + 1 + 1, s.next :: found.trees⟩
    btree := Function.update s.btree s.next ⟨pBt, false⟩ })

/-- `sqlite3BtreeOpen` with the value of `*ppBtree`. -/
def sqlite3BtreeOpen (s : Registry) (zFilename : Option String) (flags : OpenFlags)
    (codes : OpenCodes) : Rc × Option ℕ × Registry :=
  if codes.mallocBtree = false then (.nomem, none, s)
  else if isTempOpen zFilename flags backend then
    if backend = .notForking ∧ flags.readonly then (.internal, none, s)
    else if backend = .notForking ∧ codes.mkdtemp ≠ .success then (errmap codes.mkdtemp, none, s)
    else openShared backend s flags codes codes.tempPath true
  else
    let dirPathName := fullPathname (zFilename.getD "")
    match s.sharedCacheList.find? fun pBt ↦ (s.shared pBt).mePath = dirPathName with
    | some pBt => openFound s pBt
    | none => openShared backend s flags codes dirPathName false

end

/-- The part of `sqlite3BtreeClose` after the cursors and the transaction of the Btree. The search
for the `BtShared` in `sqlite3SharedCacheList`, or for the Btree among its handles, has no end test:
what is not there is looked for behind a null pointer. -/
def sqlite3BtreeClose (s : Registry) (p : ℕ) : Option Registry :=
  let pBt := (s.btree p).pBt
  if (s.btree p).isTemp then some { s with envs := s.envs.erase pBt }
  else
    let found := s.shared pBt
    if found.nRef - 1 = 0 then
      if pBt ∈ s.sharedCacheList then
        some { s with envs := s.envs.erase pBt, sharedCacheList := s.sharedCacheList.erase pBt }
      else none
    else if p ∈ found.trees then
      let left : BtShared := ⟨found.mePath, found.nRef - 1, found.trees.erase p⟩
      some { s with shared := Function.update s.shared pBt left }
    else none

/-! ### Runs -/

inductive RegistryCall
  | openBtree (zFilename : Option String) (flags : OpenFlags) (codes : OpenCodes)
  | close (p : ℕ)

/-- The registry, and the Btrees that are open with the full paths they were opened on. A temporary
Btree has no path. -/
structure Registered where
  registry : Registry
  opened : List (ℕ × Option String)

/-- The name of the lock file can be allocated for an environment that LMDB has opened. -/
def OpenCodes.LockNamed (codes : OpenCodes) (backend : Backend) : Prop :=
  backend = .lmdbBackend → codes.mallocShared = true → codes.envCreate = .success →
    codes.envOpen = .success → codes.mallocLockname = true

section

variable (backend : Backend) (fullPathname : String → String)

def openTarget (zFilename : Option String) (flags : OpenFlags) : Option String :=
  if isTempOpen zFilename flags backend then none else some (fullPathname (zFilename.getD ""))

/-- The registry and the open Btrees after a call. -/
def Registered.step (state : Registered) : RegistryCall → Registered
  | .openBtree zFilename flags codes =>
    let result := sqlite3BtreeOpen backend fullPathname state.registry zFilename flags codes
    ⟨result.2.2, result.2.1.elim state.opened fun p ↦
      (p, openTarget backend fullPathname zFilename flags) :: state.opened⟩
  | .close p => ⟨(sqlite3BtreeClose state.registry p).getD state.registry,
      state.opened.filter fun entry ↦ entry.1 ≠ p⟩

def Registered.start : Registered :=
  ⟨⟨0, [], fun _ ↦ ⟨"", 0, []⟩, fun _ ↦ ⟨0, false⟩, []⟩, []⟩

def RegistryCall.Asserts (state : Registered) : RegistryCall → Prop
  | .openBtree _ _ _ => True
  | .close p => p ∈ state.opened.map Prod.fst

/-- The registry agrees with the Btrees that are open. -/
structure RegistryOk (state : Registered) : Prop where
  unique : (state.registry.sharedCacheList.map fun pBt ↦ (state.registry.shared pBt).mePath).Nodup
  listed : ∀ path, path ∈ state.registry.sharedCacheList.map
      (fun pBt ↦ (state.registry.shared pBt).mePath) ↔ ∃ p, (p, some path) ∈ state.opened
  nRef : ∀ pBt ∈ state.registry.sharedCacheList, (state.registry.shared pBt).nRef =
    (state.opened.filter fun entry ↦ entry.2 = some (state.registry.shared pBt).mePath).length
  trees : ∀ pBt ∈ state.registry.sharedCacheList, (state.registry.shared pBt).trees.Nodup ∧
    ∀ p, p ∈ (state.registry.shared pBt).trees ↔
      (p, some (state.registry.shared pBt).mePath) ∈ state.opened
  envs : ∀ env, env ∈ state.registry.envs ↔ env ∈ state.registry.sharedCacheList ∨
    ∃ p, (p, none) ∈ state.opened ∧ (state.registry.btree p).pBt = env
  closes : ∀ p ∈ state.opened.map Prod.fst, sqlite3BtreeClose state.registry p ≠ none

/-- A call opens no file that is open, and the name of the lock file can be allocated for an
environment that LMDB has opened. -/
def RegistryCall.Condition (state : Registered) : RegistryCall → Prop
  | .openBtree zFilename flags codes => codes.mallocBtree = true →
      (∀ path, openTarget backend fullPathname zFilename flags = some path →
        ∀ p, (p, some path) ∉ state.opened) ∧ codes.LockNamed backend
  | .close _ => True

end

/-! ### The invariant -/

/-- The place of the `BtShared` of an open Btree. -/
def Registered.place (state : Registered) (entry : ℕ × Option String) : ℕ :=
  (state.registry.btree entry.1).pBt

/-- What holds as long as every call meets the condition: every Btree has a `BtShared` of its own.
-/
structure RegistryInv (state : Registered) : Prop where
  ids : (state.opened.map Prod.fst).Nodup
  fresh : ∀ entry ∈ state.opened, entry.1 < state.registry.next ∧
    state.place entry < state.registry.next
  places : (state.opened.map state.place).Nodup
  temp : ∀ entry ∈ state.opened, (state.registry.btree entry.1).isTemp = entry.2.isNone
  shared : ∀ p path, (p, some path) ∈ state.opened →
    state.registry.shared (state.registry.btree p).pBt = ⟨path, 1, [p]⟩
  paths : (state.opened.filterMap Prod.snd).Nodup
  listed : state.registry.sharedCacheList =
    (state.opened.filter fun entry ↦ entry.2.isSome).map state.place
  envs : state.registry.envs = state.opened.map state.place

theorem RegistryInv.start : RegistryInv .start where
  ids := nodup_nil
  fresh _ hentry := absurd hentry not_mem_nil
  places := nodup_nil
  temp _ hentry := absurd hentry not_mem_nil
  shared _ _ hentry := absurd hentry not_mem_nil
  paths := nodup_nil
  listed := rfl
  envs := rfl

namespace RegistryInv

variable {state : Registered}

/-- The `BtShared` that are listed are those of the Btrees with a path. -/
theorem mem_list (hinv : RegistryInv state) {pBt : ℕ} : pBt ∈ state.registry.sharedCacheList ↔
    ∃ p path, (p, some path) ∈ state.opened ∧ (state.registry.btree p).pBt = pBt := by
  rw [hinv.listed, List.mem_map]
  constructor
  · rintro ⟨⟨p, path⟩, hentry, hplace⟩
    obtain ⟨hopen, hsome⟩ := mem_filter.mp hentry
    obtain ⟨path, rfl⟩ := isSome_iff_exists.mp hsome
    exact ⟨p, path, hopen, hplace⟩
  · rintro ⟨p, path, hentry, hplace⟩
    exact ⟨(p, some path), mem_filter.mpr ⟨hentry, rfl⟩, hplace⟩

theorem filterMap_paths (opened : List (ℕ × Option String)) : opened.filterMap Prod.snd =
      (opened.filter fun entry ↦ entry.2.isSome).map fun entry ↦ entry.2.getD "" := by
  induction opened with
  | nil => rfl
  | cons entry rest ih =>
    obtain ⟨p, path⟩ := entry
    cases path with
    | none | some path => simpa using ih

theorem list_paths (hinv : RegistryInv state) :
    (state.registry.sharedCacheList.map fun pBt ↦ (state.registry.shared pBt).mePath) =
      state.opened.filterMap Prod.snd := by
  rw [hinv.listed, List.map_map, filterMap_paths]
  refine map_congr_left fun entry hentry ↦ ?_
  obtain ⟨hopen, hsome⟩ := mem_filter.mp hentry
  obtain ⟨p, path⟩ := entry
  obtain ⟨path, rfl⟩ := isSome_iff_exists.mp hsome
  have hshared := hinv.shared p path hopen
  simp [comp_apply, Registered.place, hshared]

variable {p : ℕ} {path : String} {target : Option String}

theorem mem_paths {opened : List (ℕ × Option String)} :
    path ∈ opened.filterMap Prod.snd ↔ ∃ p, (p, some path) ∈ opened := by
  rw [mem_filterMap]
  constructor
  · rintro ⟨⟨p, found⟩, hentry, rfl⟩
    exact ⟨p, hentry⟩
  · rintro ⟨p, hentry⟩
    exact ⟨_, hentry, rfl⟩

section

variable (hinv : RegistryInv state)

include hinv

theorem unique_path {p q : ℕ} (hp : (p, some path) ∈ state.opened)
    (hq : (q, some path) ∈ state.opened) : p = q := by
  have hpaths := hinv.paths
  rw [filterMap_paths] at hpaths
  have hsame := inj_on_of_nodup_map hpaths (mem_filter.mpr ⟨hp, rfl⟩) (mem_filter.mpr ⟨hq, rfl⟩) rfl
  exact (mk.inj hsame).1

theorem nodup : state.opened.Nodup := hinv.ids.of_map

theorem count_path (hp : (p, some path) ∈ state.opened) :
    (state.opened.filter fun entry ↦ entry.2 = some path).length = 1 := by
  have hperm : (state.opened.filter fun entry ↦ entry.2 = some path).Perm [(p, some path)] := by
    refine (perm_ext_iff_of_nodup (hinv.nodup.filter _) (nodup_singleton _)).mpr fun entry ↦ ?_
    rw [mem_filter, mem_singleton, decide_eq_true_eq]
    constructor
    · rintro ⟨hentry, hpath⟩
      obtain ⟨q, found⟩ := entry
      obtain rfl : found = some path := hpath
      rw [hinv.unique_path hp hentry]
    · rintro rfl
      exact ⟨hp, rfl⟩
  rw [hperm.length_eq, length_singleton]

theorem place_inj {first second : ℕ × Option String} (hfirst : first ∈ state.opened)
    (hsecond : second ∈ state.opened) (hplace : state.place first = state.place second) :
    first = second :=
  inj_on_of_nodup_map hinv.places hfirst hsecond hplace

/-- A close takes the `BtShared` of the Btree out of the list and closes its environment. -/
theorem close_eq {path : Option String} (hentry : (p, path) ∈ state.opened) :
    sqlite3BtreeClose state.registry p = some { state.registry with
      envs := state.registry.envs.erase (state.place (p, path))
      sharedCacheList := state.registry.sharedCacheList.erase (state.place (p, path)) } := by
  cases path with
  | none =>
    have htemp : (state.registry.btree p).isTemp = true := hinv.temp _ hentry
    have hmem : state.place (p, none) ∉ state.registry.sharedCacheList := by
      intro hmem
      obtain ⟨q, path, hother, hplace⟩ := hinv.mem_list.mp hmem
      have hsame := hinv.place_inj hother hentry hplace
      exact absurd (mk.inj hsame).2 (by simp)
    rw [sqlite3BtreeClose, if_pos htemp, erase_of_not_mem hmem]
    rfl
  | some path =>
    have htemp : ¬(state.registry.btree p).isTemp = true := by
      rw [hinv.temp _ hentry]
      simp
    have hmem := hinv.mem_list.mpr ⟨p, path, hentry, rfl⟩
    have hcount : (state.registry.shared (state.registry.btree p).pBt).nRef - 1 = 0 := by
      rw [hinv.shared p path hentry]
      rfl
    rw [sqlite3BtreeClose, if_neg htemp, if_pos hcount, if_pos hmem]
    rfl

theorem ok : RegistryOk state where
  unique := by
    rw [hinv.list_paths]
    exact hinv.paths
  listed path := by
    rw [hinv.list_paths]
    exact mem_paths
  nRef pBt hpBt := by
    obtain ⟨p, path, hp, rfl⟩ := hinv.mem_list.mp hpBt
    rw [hinv.shared p path hp, hinv.count_path hp]
    rfl
  trees pBt hpBt := by
    obtain ⟨p, path, hp, rfl⟩ := hinv.mem_list.mp hpBt
    rw [hinv.shared p path hp]
    refine ⟨nodup_singleton p, fun q ↦ ?_⟩
    rw [mem_singleton]
    exact ⟨fun hq ↦ hq ▸ hp, fun hq ↦ hinv.unique_path hq hp⟩
  envs env := by
    rw [hinv.envs, List.mem_map, hinv.mem_list]
    constructor
    · rintro ⟨⟨p, path⟩, hentry, hplace⟩
      cases path with
      | none => exact .inr ⟨p, hentry, hplace⟩
      | some path => exact .inl ⟨p, path, hentry, hplace⟩
    · rintro (⟨p, path, hentry, hplace⟩ | ⟨p, hentry, hplace⟩)
      · exact ⟨_, hentry, hplace⟩
      · exact ⟨_, hentry, hplace⟩
  closes p hp := by
    obtain ⟨⟨q, path⟩, hentry, rfl⟩ := mem_map.mp hp
    rw [hinv.close_eq hentry]
    simp

theorem close (backend : Backend) (fullPathname : String → String)
    (hp : p ∈ state.opened.map Prod.fst) :
    RegistryInv (state.step backend fullPathname (.close p)) := by
  obtain ⟨⟨q, path⟩, hentry, rfl⟩ := mem_map.mp hp
  have hsublist : (state.opened.filter fun entry ↦ entry.1 ≠ q).Sublist state.opened :=
    filter_sublist
  -- the `BtShared` of the Btree is told by its address
  have hplace : ∀ entry ∈ state.opened,
      (state.place entry != state.place (q, path)) = decide (entry.1 ≠ q) := by
    intro entry hother
    rw [Bool.eq_iff_iff, bne_iff_ne, decide_eq_true_eq]
    refine not_congr ⟨fun hsame ↦ ?_, fun hsame ↦ ?_⟩
    · rw [hinv.place_inj hother hentry hsame]
    · rw [Registered.place, hsame, Registered.place]
  rw [Registered.step, hinv.close_eq hentry, getD_some]
  refine ⟨hinv.ids.sublist (hsublist.map _), fun entry hother ↦
    hinv.fresh entry (hsublist.subset hother),
    hinv.places.sublist (hsublist.map _), fun entry hother ↦
      hinv.temp entry (hsublist.subset hother),
    fun other path hother ↦ hinv.shared other path (hsublist.subset hother),
    hinv.paths.sublist (hsublist.filterMap _), ?_, ?_⟩
  · have hnodup : ((state.opened.filter fun entry ↦ entry.2.isSome).map state.place).Nodup :=
      hinv.places.sublist (filter_sublist.map _)
    rw [hinv.listed, hnodup.erase_eq_filter, List.filter_map, List.filter_filter,
      List.filter_filter]
    refine congrArg (List.map _) (filter_congr fun entry hother ↦ ?_)
    rw [comp_apply, hplace entry hother, Bool.and_comm]
  · rw [hinv.envs, hinv.places.erase_eq_filter, List.filter_map]
    exact congrArg (List.map _) (filter_congr hplace)

/-- A new `BtShared` with one Btree.
Assumes: the path is not open. -/
theorem opens (path : String)
    (htarget : ∀ found, target = some found → found = path ∧ ∀ p, (p, some found) ∉ state.opened) :
    RegistryInv ⟨state.registry.added path target.isNone,
      (state.registry.next, target) :: state.opened⟩ := by
  -- the Btrees that were open keep their places
  have hold : ∀ entry ∈ state.opened,
      (state.registry.added path target.isNone).btree entry.1 = state.registry.btree entry.1 :=
    fun entry hentry ↦ update_of_ne (Nat.ne_of_lt (hinv.fresh entry hentry).1) _ _
  have hnew : (state.registry.added path target.isNone).btree state.registry.next =
      ⟨state.registry.next, target.isNone⟩ := update_self ..
  have hplace : ∀ entry ∈ state.opened, Registered.place ⟨state.registry.added path target.isNone,
      (state.registry.next, target) :: state.opened⟩ entry = state.place entry :=
    fun entry hentry ↦ by rw [Registered.place, hold entry hentry, Registered.place]
  have hplaces := map_congr_left hplace
  refine ⟨?_, ?_, ?_, ?_, ?_, ?_, ?_, ?_⟩
  · refine nodup_cons.mpr ⟨fun hmem ↦ ?_, hinv.ids⟩
    obtain ⟨entry, hentry, hid⟩ := mem_map.mp hmem
    exact absurd (hinv.fresh entry hentry).1 (by rw [hid]; exact Nat.lt_irrefl _)
  · intro entry hentry
    rcases mem_cons.mp hentry with rfl | hentry
    · rw [Registered.place, hnew]
      exact ⟨Nat.lt_succ_self _, Nat.lt_succ_self _⟩
    · rw [hplace entry hentry]
      exact ⟨Nat.lt_succ_of_lt (hinv.fresh entry hentry).1,
        Nat.lt_succ_of_lt (hinv.fresh entry hentry).2⟩
  · rw [map_cons, hplaces, Registered.place, hnew]
    refine nodup_cons.mpr ⟨fun hmem ↦ ?_, hinv.places⟩
    obtain ⟨entry, hentry, hid⟩ := mem_map.mp hmem
    exact absurd (hinv.fresh entry hentry).2 (by rw [hid]; exact Nat.lt_irrefl _)
  · intro entry hentry
    rcases mem_cons.mp hentry with rfl | hentry
    · simp [hnew]
    · rw [hold entry hentry]
      exact hinv.temp entry hentry
  · intro p found hentry
    rcases mem_cons.mp hentry with hsame | hentry
    · obtain ⟨rfl, rfl⟩ := mk.inj hsame
      rw [hnew, (htarget found rfl).1]
      exact update_self ..
    · rw [hold _ hentry]
      have hother := Nat.ne_of_lt (hinv.fresh _ hentry).2
      exact (update_of_ne hother _ _).trans (hinv.shared p found hentry)
  · cases target with
    | none => exact hinv.paths
    | some found =>
      refine nodup_cons.mpr ⟨fun hmem ↦ ?_, hinv.paths⟩
      obtain ⟨p, hentry⟩ := mem_paths.mp hmem
      exact (htarget found rfl).2 p hentry
  · have hkept : (state.opened.filter fun entry ↦ entry.2.isSome).map (Registered.place
        ⟨state.registry.added path target.isNone, (state.registry.next, target) :: state.opened⟩) =
          state.registry.sharedCacheList := by
      rw [hinv.listed]
      exact map_congr_left fun entry hentry ↦ hplace entry (mem_filter.mp hentry).1
    cases target with
    | none => exact hkept.symm
    | some found =>
      rw [filter_cons_of_pos rfl, map_cons, hkept, Registered.place, hnew]
      rfl
  · rw [map_cons, hplaces, Registered.place, hnew, ← hinv.envs]
    rfl

/-- What becomes of the registry where a new `BtShared` is to be made. -/
theorem openShared (backend : Backend) (flags : OpenFlags) (codes : OpenCodes) (path : String)
    (htarget : ∀ found, target = some found → found = path ∧ ∀ p, (p, some found) ∉ state.opened)
    {result : Rc × Option ℕ × Registry}
    (hresult : result = LumoSQL.openShared backend state.registry flags codes path target.isNone) :
    (codes.LockNamed backend → RegistryInv ⟨result.2.2, result.2.1.elim state.opened fun p ↦
        (p, target) :: state.opened⟩) ∧
      (¬codes.LockNamed backend → ¬RegistryOk ⟨result.2.2, result.2.1.elim state.opened fun p ↦
        (p, target) :: state.opened⟩) := by
  have hsame : codes.LockNamed backend → result = (result.1, none, state.registry) →
      (codes.LockNamed backend → RegistryInv ⟨result.2.2, result.2.1.elim state.opened fun p ↦
        (p, target) :: state.opened⟩) ∧
      (¬codes.LockNamed backend → ¬RegistryOk ⟨result.2.2, result.2.1.elim state.opened fun p ↦
        (p, target) :: state.opened⟩) := by
    intro hnamed heq
    rw [heq]
    exact ⟨fun _ ↦ hinv, fun hnot ↦ absurd hnamed hnot⟩
  unfold LumoSQL.openShared at hresult
  split_ifs at hresult with hshared hcreate hdelete hopen hlock
  · exact hsame (fun _ hmalloc ↦ absurd (hmalloc.symm.trans hshared) (by simp)) (by rw [hresult])
  · exact hsame (fun _ _ hok ↦ absurd hok hcreate) (by rw [hresult])
  · exact hsame (fun hbackend ↦ absurd (hbackend.symm.trans hdelete.1) (by simp)) (by rw [hresult])
  · exact hsame (fun _ _ _ hok ↦ absurd hok hopen) (by rw [hresult])
  · refine ⟨fun hnamed ↦ ?_, fun _ hok ↦ ?_⟩
    · have hmalloc := hnamed hlock.1 (by simpa using hshared) (not_not.mp hcreate)
        (not_not.mp hopen)
      exact absurd (hmalloc.symm.trans hlock.2) (by simp)
    · -- the environment is open and no Btree has it
      rw [hresult] at hok
      have hleak := (hok.envs state.registry.next).mp (.head _)
      rcases hleak with hlisted | ⟨p, hentry, hplace⟩
      · obtain ⟨p, found, hentry, hplace⟩ := hinv.mem_list.mp hlisted
        exact absurd (hinv.fresh _ hentry).2
          (by rw [Registered.place, hplace]; exact Nat.lt_irrefl _)
      · exact absurd (hinv.fresh _ hentry).2
          (by rw [Registered.place]; simp only at hplace; rw [hplace]; exact Nat.lt_irrefl _)
  · rw [hresult]
    refine ⟨fun _ ↦ hinv.opens path htarget, fun hnot ↦ absurd ?_ hnot⟩
    intro hbackend _ _ _
    by_contra hmalloc
    exact hlock ⟨hbackend, by simpa using hmalloc⟩

theorem find_eq (hp : (p, some path) ∈ state.opened) :
    state.registry.sharedCacheList.find? (fun pBt ↦ (state.registry.shared pBt).mePath = path) =
      some (state.registry.btree p).pBt := by
  have hmem := hinv.mem_list.mpr ⟨p, path, hp, rfl⟩
  have hsome : (state.registry.sharedCacheList.find?
      fun pBt ↦ (state.registry.shared pBt).mePath = path).isSome :=
    find?_isSome.mpr ⟨_, hmem, by simp [hinv.shared p path hp]⟩
  obtain ⟨pBt, hfound⟩ := isSome_iff_exists.mp hsome
  obtain ⟨q, other, hq, rfl⟩ := hinv.mem_list.mp (mem_of_find?_eq_some hfound)
  have hpath : (state.registry.shared (state.registry.btree q).pBt).mePath = path := by
    simpa using find?_some hfound
  rw [hinv.shared q other hq] at hpath
  obtain rfl : other = path := hpath
  rw [hfound, hinv.unique_path hq hp]

/-- A file that is found is counted once too often. -/
theorem not_ok_openFound (hp : (p, some path) ∈ state.opened) :
    ¬RegistryOk ⟨(openFound state.registry (state.registry.btree p).pBt).2.2,
      (state.registry.next, some path) :: state.opened⟩ := by
  intro hok
  have hcount := hok.nRef _ (hinv.mem_list.mpr ⟨p, path, hp, rfl⟩)
  simp only [openFound, update_self, hinv.shared p path hp] at hcount
  rw [filter_cons_of_pos (by simp), length_cons, hinv.count_path hp] at hcount
  cases hcount

/-- A call keeps the invariant where it meets the condition, and only there is the registry right
after it. -/
theorem step (backend : Backend) (fullPathname : String → String) (call : RegistryCall)
    (hasserts : call.Asserts state) : (call.Condition backend fullPathname state →
        RegistryInv (state.step backend fullPathname call)) ∧
      (¬call.Condition backend fullPathname state →
        ¬RegistryOk (state.step backend fullPathname call)) := by
  cases call with
  | close p => exact ⟨fun _ ↦ hinv.close backend fullPathname hasserts,
      fun hnot ↦ absurd trivial hnot⟩
  | openBtree zFilename flags codes =>
    simp only [RegistryCall.Condition, Registered.step]
    by_cases hmalloc : codes.mallocBtree = false
    · have hcall : sqlite3BtreeOpen backend fullPathname state.registry zFilename flags codes =
          (.nomem, none, state.registry) := if_pos hmalloc
      rw [hcall]
      refine ⟨fun _ ↦ hinv, fun hnot ↦ absurd (fun hok ↦ ?_) hnot⟩
      exact absurd (hok.symm.trans hmalloc) (by simp)
    have hallocated : codes.mallocBtree = true := by simpa using hmalloc
    unfold sqlite3BtreeOpen
    rw [if_neg hmalloc]
    by_cases htemp : isTempOpen zFilename flags backend = true
    · have htarget : openTarget backend fullPathname zFilename flags = none := if_pos htemp
      rw [if_pos htemp, htarget]
      have hnone : ∀ found, (none : Option String) = some found →
          found = codes.tempPath ∧ ∀ p, (p, some found) ∉ state.opened := by simp
      split_ifs with hreadonly hmkdtemp
      · refine ⟨fun _ ↦ hinv, fun hnot ↦ absurd (fun _ ↦ ⟨by simp, fun hbackend ↦ ?_⟩) hnot⟩
        exact absurd (hbackend.symm.trans hreadonly.1) (by simp)
      · refine ⟨fun _ ↦ hinv, fun hnot ↦ absurd (fun _ ↦ ⟨by simp, fun hbackend ↦ ?_⟩) hnot⟩
        exact absurd (hbackend.symm.trans hmkdtemp.1) (by simp)
      · obtain ⟨hkeeps, hbreaks⟩ := hinv.openShared backend flags codes codes.tempPath hnone rfl
        refine ⟨fun hcondition ↦ hkeeps (hcondition hallocated).2,
          fun hnot ↦ hbreaks fun hnamed ↦ ?_⟩
        exact hnot fun _ ↦ ⟨by simp, hnamed⟩
    · have htarget : openTarget backend fullPathname zFilename flags =
          some (fullPathname (zFilename.getD "")) := if_neg htemp
      rw [if_neg htemp, htarget]
      simp only
      by_cases hopen : ∃ p, (p, some (fullPathname (zFilename.getD ""))) ∈ state.opened
      · obtain ⟨p, hp⟩ := hopen
        rw [hinv.find_eq hp]
        refine ⟨fun hcondition ↦ absurd hp ((hcondition hallocated).1 _ rfl p), fun _ ↦ ?_⟩
        exact hinv.not_ok_openFound hp
      · have hnotOpen : ∀ p, (p, some (fullPathname (zFilename.getD ""))) ∉ state.opened :=
          fun p hp ↦ hopen ⟨p, hp⟩
        have hmissing : state.registry.sharedCacheList.find? (fun pBt ↦
            (state.registry.shared pBt).mePath = fullPathname (zFilename.getD "")) = none := by
          refine find?_eq_none.mpr fun pBt hpBt hpath ↦ ?_
          obtain ⟨p, path, hp, rfl⟩ := hinv.mem_list.mp hpBt
          rw [hinv.shared p path hp, decide_eq_true_eq] at hpath
          exact hnotOpen p (hpath ▸ hp)
        have hpath : ∀ found, some (fullPathname (zFilename.getD "")) = some found →
            found = fullPathname (zFilename.getD "") ∧ ∀ p, (p, some found) ∉ state.opened := by
          rintro found hfound
          cases hfound
          exact ⟨rfl, hnotOpen⟩
        rw [hmissing]
        obtain ⟨hkeeps, hbreaks⟩ := hinv.openShared backend flags codes _ hpath rfl
        refine ⟨fun hcondition ↦ hkeeps (hcondition hallocated).2,
          fun hnot ↦ hbreaks fun hnamed ↦ ?_⟩
        exact hnot fun _ ↦ ⟨fun found hfound ↦ (hpath found hfound).2, hnamed⟩

end

end RegistryInv

/-- The registry is right after every call of a run exactly if every call of the run meets the
condition.
Assumes: every Btree is closed at most once, and while it is open. -/
theorem registry_iff (backend : Backend) (fullPathname : String → String)
    (calls : List RegistryCall)
    (hasserts : Meets (Registered.step backend fullPathname) (fun state call ↦ call.Asserts state)
      .start calls) :
    (∀ taken, taken <+: calls →
        RegistryOk (taken.foldl (Registered.step backend fullPathname) .start)) ↔
      Meets (Registered.step backend fullPathname)
        (fun state call ↦ call.Condition backend fullPathname state) .start calls := by
  have hinv := RegistryInv.start
  generalize Registered.start = state at hasserts hinv
  induction calls generalizing state with
  | nil =>
    refine ⟨fun _ ↦ trivial, fun _ taken htaken ↦ ?_⟩
    rw [prefix_nil.mp htaken]
    exact hinv.ok
  | cons call rest ih =>
    obtain ⟨hkeeps, hbreaks⟩ := hinv.step backend fullPathname call hasserts.1
    constructor
    · intro hok
      have hcondition : call.Condition backend fullPathname state := by
        by_contra hnot
        exact hbreaks hnot (hok [call] ⟨rest, rfl⟩)
      refine ⟨hcondition, (ih _ hasserts.2 (hkeeps hcondition)).mp fun taken htaken ↦ ?_⟩
      exact hok (call :: taken) (cons_prefix_cons.mpr ⟨rfl, htaken⟩)
    · rintro ⟨hcondition, hrest⟩ taken htaken
      cases taken with
      | nil => exact hinv.ok
      | cons first taken =>
        obtain ⟨rfl, htail⟩ := cons_prefix_cons.mp htaken
        exact (ih _ hasserts.2 (hkeeps hcondition)).mpr hrest taken htail

def openFile (name : String) : RegistryCall :=
  .openBtree (some name) ⟨false, false, false, false⟩ ⟨true, .success, "", true, .success,
    .success, true⟩

/-- Two files, one of which is closed. -/
theorem registry_two_files : RegistryOk ([openFile "a", openFile "b", .close 0].foldl
    (Registered.step .lmdbBackend fun name ↦ name) .start) := by
  refine (registry_iff .lmdbBackend (fun name ↦ name) _ ?_).mpr ?_ _ (prefix_refl _)
  · exact ⟨trivial, trivial, (by decide : (0 : ℕ) ∈ [1, 0]), trivial⟩
  · refine ⟨fun _ ↦ ⟨fun _ _ _ ↦ not_mem_nil, fun _ _ _ _ ↦ rfl⟩,
      fun _ ↦ ⟨fun path hpath p hmem ↦ ?_, fun _ _ _ _ ↦ rfl⟩, trivial, trivial⟩
    obtain rfl : "b" = path := some.inj hpath
    have hentry : (p, some "b") = (0, some "a") := mem_singleton.mp hmem
    exact absurd (mk.inj hentry).2 (by decide)

/-- A file that is opened twice has a count of three. -/
theorem registry_reopened :
    ¬RegistryOk ([openFile "a", openFile "a"].foldl
      (Registered.step .lmdbBackend fun name ↦ name) .start) ∧
    ¬RegistryOk ([openFile "a", openFile "a"].foldl
      (Registered.step .notForking fun name ↦ name) .start) := by
  constructor
  all_goals
    intro hok
    exact absurd (hok.nRef 0 (by decide)) (by decide)

end LumoSQL
