import LumoSQL.Foundation.GuardedRun
import LumoSQL.Foundation.LockTable
import Mathlib.Data.Finmap

/-!
# Several processes

Any number of `not-fork` processes share a cache and an output directory, each with its names to
work on. For each name a process calls `get`, which looks through the cache the first time, takes
the lock of the cache, opens or makes the entry of the upstream, takes its lock, releases that of
the cache and runs the commands of the version control system; then `install`, which takes the lock
of the output directory while it copies, or `info`; and at last the object is destroyed, which
writes out the index of a new entry and releases its lock.

`step` is one step of one process, on the locks and on the cache, and `exec` the same where a
process that waits stays where it is, so that every list of events is an interleaving. `step_moves`
says once what a step can do: with the locks, as `Foundation.LockStep`, and with the cache, as
`CacheStep`.
-/

namespace LumoSQL.NotFork.Processes

open Foundation List Option

/-! ### Processes, locks and the cache -/

/-- A name to work on: its upstream, by the text that indexes the cache, the name of its output, and
whether it is only asked about. -/
structure Job (U N : Type*) where
  upstream : U
  name : N
  query : Bool

/-- The locks: of the cache directory, of one entry of it, and of one output name. -/
inductive Lock (K N : Type*)
  | cache
  | entry (key : K)
  | output (name : N)
  deriving DecidableEq

/-- The index file of an entry of the cache. -/
inductive Index (U : Type*)
  | missing
  | empty
  | line (upstream : U)
  deriving DecidableEq

/-- How far a process has come with its name. -/
inductive Phase
  | start
  | scan
  | read
  | make
  | wantCache
  | haveCache
  | madeDir
  | wantEntry
  | verify
  | release
  | vcs
  | gotten
  | wantOutput
  | install
  | close
  | unlock
  | died
  deriving DecidableEq

/-- A process: the names it has to work on, of which the first is under way, how far it has come,
the entries of the cache that it still has to look at, whether it has looked at the cache before,
and whether it made the entry it works with. -/
structure Proc (U K N : Type*) where
  jobs : List (Job U N)
  phase : Phase
  todo : List K
  checked : Bool
  created : Bool

/-- The processes, who has which lock, whether there is a cache directory, and the entries of it. -/
structure World (ι U K N : Type*) where
  proc : ι → Proc U K N
  owner : Lock K N → Option ι
  cacheDir : Bool
  cache : Finmap fun _ : K ↦ Index U

/-- A step of a process. From outside come the order of a directory that it reads, and whether a
command or an installation fails. -/
structure Event (ι K : Type*) where
  who : ι
  order : List K
  fails : Bool

section

variable {ι U K N : Type*} [DecidableEq ι] [DecidableEq U] [DecidableEq K] [DecidableEq N]

namespace World

def put (w : World ι U K N) (p : ι) (x : Proc U K N) : World ι U K N :=
  { w with proc := Function.update w.proc p x }

def lock (w : World ι U K N) (p : ι) (lock : Lock K N) (x : Proc U K N) : Option (World ι U K N) :=
  if w.owner lock = none then some { w.put p x with owner := Function.update w.owner lock (some p) }
  else none

def unlock (w : World ι U K N) (p : ι) (lock : Lock K N) (x : Proc U K N) : World ι U K N :=
  { w.put p x with owner := Function.update w.owner lock none }

/-- A process dies of an error in the cache, and its locks are released. -/
def die (w : World ι U K N) (p : ι) (x : Proc U K N) : World ι U K N :=
  { w.put p { x with phase := .died } with
    owner := fun lock ↦ if w.owner lock = some p then none else w.owner lock }

end World

variable (hash : U → K)

/-- One step of a process, or `none` if it has to wait or has nothing to do. -/
def step (w : World ι U K N) (e : Event ι K) : Option (World ι U K N) :=
  let x := w.proc e.who
  match x.jobs with
  | [] => none
  | job :: rest =>
    match x.phase with
    -- `_check_cache_dir`, which does nothing the second time or if there is no cache
    | .start =>
      if x.checked || !w.cacheDir then some (w.put e.who { x with phase := .make, checked := true })
      else if e.order.toFinset = w.cache.keys then
        some (w.put e.who { x with phase := .scan, todo := e.order, checked := true })
      else none
    | .scan =>
      match x.todo with
      | [] => some (w.put e.who { x with phase := .make })
      | key :: _ =>
        match w.cache.lookup key with
        | some .empty => some (w.put e.who { x with phase := .read })
        | some (.line _) => some (w.put e.who { x with phase := .read })
        | _ => some (w.die e.who x)
    | .read =>
      match x.todo with
      | [] => some (w.put e.who { x with phase := .make })
      | key :: todo =>
        match w.cache.lookup key with
        | some (.line _) => some (w.put e.who { x with phase := .scan, todo := todo })
        | _ => some (w.die e.who x)
    | .make => some { w.put e.who { x with phase := .wantCache } with cacheDir := true }
    | .wantCache => w.lock e.who .cache { x with phase := .haveCache }
    -- the entry is opened, or made and then opened
    | .haveCache =>
      match w.cache.lookup (hash job.upstream) with
      | none =>
        some { w.put e.who { x with phase := .madeDir } with
          cache := w.cache.insert (hash job.upstream) .missing }
      | some .missing => some (w.die e.who x)
      | some _ => some (w.put e.who { x with phase := .wantEntry, created := false })
    | .madeDir =>
      some { w.put e.who { x with phase := .wantEntry, created := true } with
        cache := w.cache.insert (hash job.upstream) .empty }
    | .wantEntry => w.lock e.who (.entry (hash job.upstream)) { x with phase := .verify }
    -- a new index is printed, which leaves it in the buffer; an old one is compared
    | .verify =>
      if x.created || w.cache.lookup (hash job.upstream) = some (.line job.upstream) then
        some (w.put e.who { x with phase := .release })
      else some (w.die e.who x)
    | .release => some (w.unlock e.who .cache { x with phase := .vcs })
    -- the commands of the version control system, which change the checkout
    | .vcs =>
      if e.fails then some (w.put e.who { x with phase := .close, jobs := [job] })
      else some (w.put e.who { x with phase := .gotten })
    | .gotten =>
      if job.query then some (w.put e.who { x with phase := .close })
      else some (w.put e.who { x with phase := .wantOutput })
    | .wantOutput => w.lock e.who (.output job.name) { x with phase := .install }
    -- the modifications and the copy
    | .install =>
      some (w.unlock e.who (.output job.name)
        { x with phase := .close, jobs := if e.fails then [job] else x.jobs })
    -- `DESTROY`: the buffer is flushed, and then the lock is released
    | .close =>
      some { w.put e.who { x with phase := .unlock } with
        cache := if x.created then w.cache.insert (hash job.upstream) (.line job.upstream)
          else w.cache }
    | .unlock =>
      some (w.unlock e.who (.entry (hash job.upstream)) { x with phase := .start, jobs := rest })
    | .died => none

def exec (w : World ι U K N) (e : Event ι K) : World ι U K N := (step hash w e).getD w

end

/-! ### What the phases hold -/

namespace Phase

def holdsCache : Phase → Bool
  | haveCache | madeDir | wantEntry | verify | release => true
  | _ => false

def holdsEntry : Phase → Bool
  | verify | release | vcs | gotten | wantOutput | install | close | unlock => true
  | _ => false

def unflushed : Phase → Bool
  | wantEntry | verify | release | vcs | gotten | wantOutput | install | close => true
  | _ => false

def opened : Phase → Bool
  | read | wantEntry | verify => true
  | _ => false

/-- The same locks are held, the entry is as far, and no index was seen. -/
def alike (before after : Phase) : Bool :=
  before.holdsCache = after.holdsCache && before.holdsEntry = after.holdsEntry &&
    before.unflushed = after.unflushed && (before = install) = (after = install) &&
    (before = madeDir) = (after = madeDir) && !after.opened

end Phase

section

variable {ι U K N : Type*} (hash : U → K)

namespace Proc

def key (x : Proc U K N) : Option K := x.jobs.head?.map fun job ↦ hash job.upstream

def name (x : Proc U K N) : Option N := x.jobs.head?.map Job.name

def holds (x : Proc U K N) : Lock K N → Prop
  | .cache => x.jobs ≠ [] ∧ x.phase.holdsCache
  | .entry key => x.key hash = some key ∧ x.phase.holdsEntry
  | .output name => x.name = some name ∧ x.phase = .install

def Making (x : Proc U K N) (key : K) : Prop := x.phase = .madeDir ∧ x.key hash = some key

def Creating (x : Proc U K N) (key : K) : Prop :=
  x.created ∧ x.phase.unflushed ∧ x.key hash = some key

def Opened (x : Proc U K N) (key : K) : Prop :=
  (x.phase = .wantEntry ∨ x.phase = .verify) ∧ x.key hash = some key ∨
    x.phase = .read ∧ x.todo.head? = some key

end Proc

def Present (cache : Finmap fun _ : K ↦ Index U) [DecidableEq K] (key : K) : Prop :=
  ∃ index, cache.lookup key = some index ∧ index ≠ .missing

/-- What a step of a process does with the cache: nothing, or it makes an entry, makes its index, or
writes it out. -/
inductive CacheStep [DecidableEq K] (cache : Finmap fun _ : K ↦ Index U)
    (before after : Proc U K N) : (Finmap fun _ : K ↦ Index U) → Prop
  | same (hmaking : ∀ key, after.Making hash key ↔ before.Making hash key)
      (hcreating : ∀ key, after.Creating hash key ↔ before.Creating hash key)
      (hopened : ∀ key, after.Opened hash key → before.Opened hash key ∨ Present cache key)
      (htodo : ∀ key ∈ after.todo, key ∈ before.todo ∨ key ∈ cache) :
      CacheStep cache before after cache
  | makeDir (key : K) (habsent : cache.lookup key = none)
      (hbefore : ∀ other, ¬ before.Making hash other ∧ ¬ before.Creating hash other)
      (hmaking : ∀ other, after.Making hash other ↔ other = key)
      (hcreating : ∀ other, ¬ after.Creating hash other)
      (hopened : ∀ other, ¬ after.Opened hash other) (htodo : after.todo = before.todo) :
      CacheStep cache before after (cache.insert key .missing)
  | create (key : K) (hbefore : before.Making hash key)
      (hnew : ∀ other, ¬ before.Creating hash other)
      (hmaking : ∀ other, ¬ after.Making hash other)
      (hcreating : ∀ other, after.Creating hash other ↔ other = key)
      (hopened : ∀ other, after.Opened hash other → other = key)
      (htodo : after.todo = before.todo) : CacheStep cache before after (cache.insert key .empty)
  | flush (upstream : U) (hbefore : before.Creating hash (hash upstream))
      (hmaking : ∀ other, ¬ before.Making hash other ∧ ¬ after.Making hash other)
      (hcreating : ∀ other, ¬ after.Creating hash other)
      (hopened : ∀ other, ¬ after.Opened hash other) (htodo : after.todo = before.todo) :
      CacheStep cache before after (cache.insert (hash upstream) (.line upstream))

/-! ### What a step does -/

variable {x : Proc U K N}

theorem not_holds_died (hdied : x.phase = .died) (lock : Lock K N) : ¬ x.holds hash lock := by
  cases lock with
  | cache => simp [Proc.holds, hdied, Phase.holdsCache]
  | entry key => simp [Proc.holds, hdied, Phase.holdsEntry]
  | output name => simp [Proc.holds, hdied]

theorem holds_of_making {key : K} (hmaking : x.Making hash key) : x.holds hash .cache := by
  obtain ⟨hphase, hkey⟩ := hmaking
  refine ⟨fun hnil ↦ ?_, by rw [hphase]; rfl⟩
  rw [Proc.key, hnil] at hkey
  cases hkey

/-- What a process holds depends on its name and on the locks of its phase. -/
theorem holds_congr {x y : Proc U K N} (hjobs : y.jobs.head? = x.jobs.head?)
    (hcache : x.phase.holdsCache = y.phase.holdsCache)
    (hentry : x.phase.holdsEntry = y.phase.holdsEntry)
    (houtput : x.phase = .install ↔ y.phase = .install) (lock : Lock K N) :
    y.holds hash lock ↔ x.holds hash lock := by
  cases lock with
  | cache =>
    have hsome : y.jobs ≠ [] ↔ x.jobs ≠ [] := by
      rw [ne_eq, ne_eq, ← head?_eq_none_iff, ← head?_eq_none_iff, hjobs]
    rw [Proc.holds, Proc.holds, hcache, hsome]
  | entry key => rw [Proc.holds, Proc.holds, Proc.key, Proc.key, hjobs, hentry]
  | output name => rw [Proc.holds, Proc.holds, Proc.name, Proc.name, hjobs, houtput]

theorem not_opened_of_phase (hopened : x.phase.opened = false) (key : K) : ¬ x.Opened hash key := by
  rintro (⟨hphase | hphase, -⟩ | ⟨hphase, -⟩)
  · rw [hphase] at hopened
    cases hopened
  · rw [hphase] at hopened
    cases hopened
  · rw [hphase] at hopened
    cases hopened

theorem cacheStep_same [DecidableEq K] {cache : Finmap fun _ : K ↦ Index U} {x y : Proc U K N}
    (hjobs : y.jobs.head? = x.jobs.head?) (hmade : x.phase = .madeDir ↔ y.phase = .madeDir)
    (hcreated : (x.created && x.phase.unflushed) = (y.created && y.phase.unflushed))
    (hopened : ∀ key, y.Opened hash key → x.Opened hash key ∨ Present cache key)
    (htodo : ∀ key ∈ y.todo, key ∈ x.todo ∨ key ∈ cache) : CacheStep hash cache x y cache := by
  refine .same (fun key ↦ ?_) (fun key ↦ ?_) hopened htodo
  · rw [Proc.Making, Proc.Making, Proc.key, Proc.key, hjobs, hmade]
  · rw [Proc.Creating, Proc.Creating, Proc.key, Proc.key, hjobs, ← and_assoc, ← and_assoc,
      ← Bool.and_eq_true, ← Bool.and_eq_true, hcreated]

variable [DecidableEq ι] [DecidableEq K] [DecidableEq N]

/-- Everything a step of a process can do: it changes one process, what this one holds, and the
cache. -/
def Moves (w : World ι U K N) (p : ι) (before : Proc U K N) (w' : World ι U K N) : Prop :=
  ∃ after, w'.proc = Function.update w.proc p after ∧
    LockStep (Proc.holds hash) w.owner p before after w'.owner ∧
    CacheStep hash w.cache before after w'.cache

section

variable {hash} {w w' : World ι U K N} {p : ι} {x y : Proc U K N}

theorem moves_put (cacheDir : Bool) (halike : x.phase.alike y.phase)
    (hjobs : y.jobs.head? = x.jobs.head?) (hcreated : y.created = x.created)
    (htodo : ∀ key ∈ y.todo, key ∈ x.todo ∨ key ∈ w.cache) :
    Moves hash w p x { w.put p y with cacheDir := cacheDir } := by
  simp only [Phase.alike, Bool.and_eq_true, decide_eq_true_eq, Bool.not_eq_true', eq_iff_iff]
    at halike
  obtain ⟨⟨⟨⟨⟨hcache, hentry⟩, hunflushed⟩, houtput⟩, hmade⟩, hopened⟩ := halike
  exact ⟨y, rfl, .same (holds_congr hash hjobs hcache hentry houtput),
    cacheStep_same hash hjobs hmade (by rw [hcreated, hunflushed])
      (fun key h ↦ absurd h (not_opened_of_phase hash hopened key)) htodo⟩

theorem moves_die (hmade : x.phase ≠ .madeDir)
    (hcreated : (x.created && x.phase.unflushed) = false) : Moves hash w p x (w.die p x) :=
  ⟨{ x with phase := .died }, rfl, .drop (not_holds_died hash rfl),
    cacheStep_same hash rfl (by simp [hmade]) (hcreated.trans (Bool.and_false _).symm)
      (fun key h ↦ absurd h (not_opened_of_phase hash rfl key)) fun key h ↦ .inl h⟩

theorem moves_see {key : K} {index : Index U} (hindex : w.cache.lookup key = some index)
    (hthere : index ≠ .missing) (hlocks : ∀ lock, y.holds hash lock ↔ x.holds hash lock)
    (hjobs : y.jobs.head? = x.jobs.head?) (hmade : x.phase = .madeDir ↔ y.phase = .madeDir)
    (hcreated : (x.created && x.phase.unflushed) = (y.created && y.phase.unflushed))
    (hopened : ∀ other, y.Opened hash other → key = other) (htodo : y.todo = x.todo) :
    Moves hash w p x (w.put p y) := by
  refine ⟨y, rfl, .same hlocks, cacheStep_same hash hjobs hmade hcreated (fun other h ↦ .inr ?_)
    fun other h ↦ .inl (htodo ▸ h)⟩
  exact ⟨index, hopened other h ▸ hindex, hthere⟩

theorem moves_lock {lock : Lock K N} (hlock : w.lock p lock y = some w')
    (htaken : ∀ other, y.holds hash other ↔ other = lock ∨ x.holds hash other)
    (hcache : CacheStep hash w.cache x y w.cache) : Moves hash w p x w' := by
  rw [World.lock] at hlock
  split_ifs at hlock with hfree
  obtain rfl := some_inj.mp hlock
  exact ⟨y, rfl, .acquire lock hfree htaken, hcache⟩

end

theorem scan_moves {w w' : World ι U K N} {p : ι} {job : Job U N} {rest : List (Job U N)} {key : K}
    {todo : List K} {checked created : Bool}
    (hstep : (match w.cache.lookup key with
      | some .empty => some (w.put p ⟨job :: rest, .read, key :: todo, checked, created⟩)
      | some (.line _) => some (w.put p ⟨job :: rest, .read, key :: todo, checked, created⟩)
      | _ => some (w.die p ⟨job :: rest, .scan, key :: todo, checked, created⟩)) = some w') :
    Moves hash w p ⟨job :: rest, .scan, key :: todo, checked, created⟩ w' := by
  have hsee : ∀ index, w.cache.lookup key = some index → index ≠ .missing →
      Moves hash w p ⟨job :: rest, .scan, key :: todo, checked, created⟩
        (w.put p ⟨job :: rest, .read, key :: todo, checked, created⟩) := fun index hindex hthere ↦
    moves_see hindex hthere (holds_congr hash rfl rfl rfl (by simp)) rfl (by simp)
      (by simp [Phase.unflushed]) (by simp [Proc.Opened]) rfl
  split at hstep
  case h_1 hindex => exact some_inj.mp hstep ▸ hsee .empty hindex (by simp)
  case h_2 upstream hindex =>
    exact some_inj.mp hstep ▸ hsee (.line upstream) hindex (by simp)
  case h_3 => exact some_inj.mp hstep ▸ moves_die (by simp) (by simp [Phase.unflushed])

/-- The entry is opened, or made if it is not there. -/
theorem haveCache_moves {w w' : World ι U K N} {p : ι} {job : Job U N} {rest : List (Job U N)}
    {todo : List K} {checked created : Bool}
    (hstep : (match w.cache.lookup (hash job.upstream) with
      | none => some { w.put p ⟨job :: rest, .madeDir, todo, checked, created⟩ with
          cache := w.cache.insert (hash job.upstream) .missing }
      | some .missing => some (w.die p ⟨job :: rest, .haveCache, todo, checked, created⟩)
      | some _ => some (w.put p ⟨job :: rest, .wantEntry, todo, checked, false⟩)) = some w') :
    Moves hash w p ⟨job :: rest, .haveCache, todo, checked, created⟩ w' := by
  split at hstep
  case h_1 hindex =>
    obtain rfl := some_inj.mp hstep
    refine ⟨_, rfl, .same (holds_congr hash rfl rfl rfl (by simp)),
      .makeDir (hash job.upstream) hindex (fun other ↦ ?_) (fun other ↦ ?_) (fun other ↦ ?_)
        (not_opened_of_phase hash rfl) rfl⟩
    · simp [Proc.Making, Proc.Creating, Phase.unflushed]
    · simp [Proc.Making, Proc.key, eq_comm]
    · simp [Proc.Creating, Phase.unflushed]
  case h_2 => exact some_inj.mp hstep ▸ moves_die (by simp) (by simp [Phase.unflushed])
  case h_3 index hthere hindex =>
    exact some_inj.mp hstep ▸ moves_see hindex hthere
      (holds_congr hash rfl rfl rfl (by simp)) rfl (by simp) (by simp [Phase.unflushed])
      (by simp [Proc.Opened, Proc.key]) rfl

variable [DecidableEq U]

theorem step_moves {w w' : World ι U K N} {e : Event ι K} (hstep : step hash w e = some w') :
    Moves hash w e.who (w.proc e.who) w' := by
  rw [step] at hstep
  generalize w.proc e.who = x at hstep ⊢
  obtain ⟨jobs, phase, todo, checked, created⟩ := x
  cases jobs with
  | nil => cases hstep
  | cons job rest =>
    -- the steps that neither take nor release a lock, nor change the cache
    have hput : ∀ cacheDir y, phase.alike y.phase → y.jobs.head? = some job → y.created = created →
        (∀ key ∈ y.todo, key ∈ todo ∨ key ∈ w.cache) →
        some { w.put e.who y with cacheDir := cacheDir } = some w' →
        Moves hash w e.who ⟨job :: rest, phase, todo, checked, created⟩ w' :=
      fun cacheDir y halike hjobs hcreated htodo heq ↦
        some_inj.mp heq ▸ moves_put cacheDir halike hjobs hcreated htodo
    cases phase with
    | start =>
      dsimp only at hstep
      split_ifs at hstep with hdone horder
      · exact hput _ _ rfl rfl rfl (fun key h ↦ .inl h) hstep
      · refine hput _ _ rfl rfl rfl (fun key h ↦ .inr ?_) hstep
        rw [← Finmap.mem_keys, ← horder]
        exact mem_toFinset.mpr h
    | scan =>
      cases todo with
      | nil => exact hput _ _ rfl rfl rfl (fun key h ↦ .inl h) hstep
      | cons key todo => exact scan_moves hash hstep
    | read =>
      cases todo with
      | nil => exact hput _ _ rfl rfl rfl (fun key h ↦ .inl h) hstep
      | cons key todo =>
        dsimp only at hstep
        split at hstep
        · exact hput _ _ rfl rfl rfl (fun other h ↦ .inl (.tail _ h)) hstep
        · obtain rfl := some_inj.mp hstep
          exact moves_die (by simp) (by simp [Phase.unflushed])
    | make => exact hput true _ rfl rfl rfl (fun key h ↦ .inl h) hstep
    | wantCache =>
      refine moves_lock hstep (fun other ↦ ?_) (cacheStep_same hash rfl (by simp)
        (by simp [Phase.unflushed]) (by simp [Proc.Opened]) fun key h ↦ .inl h)
      cases other <;> simp [Proc.holds, Phase.holdsCache, Phase.holdsEntry]
    | haveCache => exact haveCache_moves hash hstep
    | madeDir =>
      obtain rfl := some_inj.mp hstep
      refine ⟨_, rfl, .same (holds_congr hash rfl rfl rfl (by simp)),
        .create (hash job.upstream) ⟨rfl, rfl⟩ (fun other ↦ ?_) (fun other ↦ ?_) (fun other ↦ ?_)
          (fun other h ↦ ?_) rfl⟩
      · simp [Proc.Creating, Phase.unflushed]
      · simp [Proc.Making]
      · simp [Proc.Creating, Phase.unflushed, Proc.key, eq_comm]
      · simpa [Proc.Opened, Proc.key, eq_comm] using h
    | wantEntry =>
      refine moves_lock hstep (fun other ↦ ?_) (cacheStep_same hash rfl (by simp)
        (by simp [Phase.unflushed]) (fun key h ↦ .inl ?_) fun key h ↦ .inl h)
      · cases other <;> simp [Proc.holds, Phase.holdsCache, Phase.holdsEntry, Proc.key, eq_comm]
      · simpa [Proc.Opened, Proc.key] using h
    | verify =>
      dsimp only at hstep
      split_ifs at hstep with hright
      · exact hput _ _ rfl rfl rfl (fun key h ↦ .inl h) hstep
      · obtain rfl := some_inj.mp hstep
        rw [Bool.or_eq_true, not_or, Bool.not_eq_true] at hright
        exact moves_die (by simp) (by simp [hright.1])
    | release =>
      obtain rfl := some_inj.mp hstep
      refine ⟨_, rfl, .release Lock.cache ⟨by simp, rfl⟩ fun other ↦ ?_,
        cacheStep_same hash rfl (by simp) (by simp [Phase.unflushed]) (by simp [Proc.Opened])
          fun key h ↦ .inl h⟩
      cases other <;> simp [Proc.holds, Phase.holdsCache, Phase.holdsEntry, Proc.key]
    | vcs =>
      dsimp only at hstep
      split_ifs at hstep with hfails
      · exact hput _ _ rfl rfl rfl (fun key h ↦ .inl h) hstep
      · exact hput _ _ rfl rfl rfl (fun key h ↦ .inl h) hstep
    | gotten =>
      dsimp only at hstep
      split_ifs at hstep with hquery
      · exact hput _ _ rfl rfl rfl (fun key h ↦ .inl h) hstep
      · exact hput _ _ rfl rfl rfl (fun key h ↦ .inl h) hstep
    | wantOutput =>
      refine moves_lock hstep (fun other ↦ ?_) (cacheStep_same hash rfl (by simp)
        (by simp [Phase.unflushed]) (by simp [Proc.Opened]) fun key h ↦ .inl h)
      cases other <;> simp [Proc.holds, Phase.holdsCache, Phase.holdsEntry, Proc.key, Proc.name,
        eq_comm]
    | install =>
      obtain rfl := some_inj.mp hstep
      have hhead : (if e.fails then [job] else job :: rest).head? = some job := by
        split_ifs <;> rfl
      refine ⟨_, rfl, .release (Lock.output job.name) ⟨rfl, rfl⟩ fun other ↦ ?_,
        cacheStep_same hash hhead (by simp) (by simp [Phase.unflushed]) (by simp [Proc.Opened])
          fun key h ↦ .inl h⟩
      cases other with
      | cache => simp [Proc.holds, Phase.holdsCache]
      | entry key => simp [Proc.holds, Phase.holdsEntry, Proc.key, hhead]
      | output name =>
        refine iff_of_false (fun h ↦ by cases h.2) fun h ↦ h.1 ?_
        rw [some_inj.mp h.2.1]
    | close =>
      obtain rfl := some_inj.mp hstep
      cases created with
      | false =>
        exact ⟨_, rfl, .same (holds_congr hash rfl rfl rfl (by simp)), cacheStep_same hash rfl
          (by simp) (by simp [Phase.unflushed]) (by simp [Proc.Opened]) fun key h ↦ .inl h⟩
      | true =>
        exact ⟨_, rfl, .same (holds_congr hash rfl rfl rfl (by simp)),
          .flush job.upstream ⟨rfl, rfl, rfl⟩ (by simp [Proc.Making])
            (by simp [Proc.Creating, Phase.unflushed]) (by simp [Proc.Opened]) rfl⟩
    | unlock =>
      obtain rfl := some_inj.mp hstep
      refine ⟨_, rfl, .release (Lock.entry (hash job.upstream)) ⟨rfl, rfl⟩ fun other ↦ ?_,
        .same (by simp [Proc.Making]) (by simp [Proc.Creating, Phase.unflushed])
          (by simp [Proc.Opened]) fun key h ↦ .inl h⟩
      cases other <;> simp [Proc.holds, Phase.holdsCache, Phase.holdsEntry, Proc.key, eq_comm]
    | died => cases hstep

end

end LumoSQL.NotFork.Processes
