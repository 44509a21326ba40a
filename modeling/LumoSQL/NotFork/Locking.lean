import LumoSQL.NotFork.Processes

/-!
# The locks of the processes

The lock of an entry is held from `get` to the destruction of the object, that of an output name
while `install` copies, and that of the cache until the lock of the entry is taken. So a process
that waits for the lock of an entry holds that of the cache, and one that waits for the lock of an
output name holds that of an entry, but nobody who holds one of these waits for the lock of the
cache.

`locking_protocol` has what follows, for any number of processes and after every interleaving:
nobody changes a checkout that another process works with, no two processes copy to the same name,
and there is no deadlock.
-/

namespace LumoSQL.NotFork.Processes

open Foundation Option

section

variable {ι U K N : Type*}

structure Initial (w : World ι U K N) : Prop where
  start : ∀ p, (w.proc p).phase = .start ∧ (w.proc p).todo = []
  free : ∀ lock, w.owner lock = none

variable (hash : U → K)

namespace Proc

/-- The process is between the end of `get` and the destruction of its object. -/
def Using (x : Proc U K N) (key : K) : Prop :=
  x.key hash = some key ∧ x.phase ∈ [.gotten, .wantOutput, .install, .close, .unlock]

/-- The process changes the checkout or the directory of the modifications. -/
def Changing (x : Proc U K N) (key : K) : Prop :=
  x.key hash = some key ∧ x.phase ∈ [.vcs, .install]

def Copying (x : Proc U K N) (name : N) : Prop := x.name = some name ∧ x.phase = .install

def Finished (x : Proc U K N) : Prop := x.jobs = [] ∨ x.phase = .died

def Wants (x : Proc U K N) : Lock K N → Prop
  | .cache => x.phase = .wantCache
  | .entry key => x.phase = .wantEntry ∧ x.key hash = some key
  | .output name => x.phase = .wantOutput ∧ x.name = some name

end Proc

def Lock.rank : Lock K N → ℕ
  | .cache => 0
  | .entry _ => 1
  | .output _ => 2

theorem Initial.owned {w : World ι U K N} (hinit : Initial w) :
    Owned (Proc.holds hash) w.owner w.proc := by
  intro lock p
  rw [hinit.free]
  refine iff_of_false (nofun) fun hholds ↦ ?_
  have hphase := (hinit.start p).1
  cases lock with
  | cache => simp [Proc.holds, hphase, Phase.holdsCache] at hholds
  | entry key => simp [Proc.holds, hphase, Phase.holdsEntry] at hholds
  | output name => simp [Proc.holds, hphase] at hholds

section

variable {hash} [DecidableEq ι] [DecidableEq U] [DecidableEq K] [DecidableEq N]
  {w : World ι U K N}

theorem owned_exec (howned : Owned (Proc.holds hash) w.owner w.proc) (e : Event ι K) :
    Owned (Proc.holds hash) (exec hash w e).owner (exec hash w e).proc := by
  rw [exec]
  cases hstep : step hash w e with
  | none => exact howned
  | some w' =>
    obtain ⟨after, hproc, hlocks, -⟩ := step_moves hash hstep
    rw [getD_some, hproc]
    exact howned.step hlocks

/-- After every interleaving the locks are as the table says. -/
theorem Initial.owned_foldl (hash : U → K) (hinit : Initial w) (events : List (Event ι K)) :
    Owned (Proc.holds hash) (events.foldl (exec hash) w).owner
      (events.foldl (exec hash) w).proc := by
  induction events using List.reverseRecOn with
  | nil => exact hinit.owned hash
  | append_singleton events e ih =>
    rw [List.foldl_append]
    exact owned_exec ih e

end

section

variable {hash} {x : Proc U K N}

theorem Proc.Using.holds {key : K} (husing : x.Using hash key) : x.holds hash (.entry key) := by
  obtain ⟨hkey, hphase⟩ := husing
  refine ⟨hkey, ?_⟩
  revert hphase
  cases x.phase <;> decide

theorem Proc.Changing.holds {key : K} (hchanging : x.Changing hash key) :
    x.holds hash (.entry key) := by
  obtain ⟨hkey, hphase⟩ := hchanging
  refine ⟨hkey, ?_⟩
  revert hphase
  cases x.phase <;> decide

theorem not_finished_of_holds {lock : Lock K N} (hholds : x.holds hash lock) : ¬ x.Finished := by
  rintro (hnil | hdied)
  · cases lock with
    | cache => exact hholds.1 hnil
    | entry key =>
      rw [Proc.holds, Proc.key, hnil] at hholds
      cases hholds.1
    | output name =>
      rw [Proc.holds, Proc.name, hnil] at hholds
      cases hholds.1
  · exact not_holds_died hash hdied lock hholds

theorem rank_lt_of_wants {lock lock' : Lock K N} (hholds : x.holds hash lock)
    (hwants : x.Wants hash lock') : lock.rank < lock'.rank := by
  cases lock' with
  | cache =>
    rw [Proc.Wants] at hwants
    cases lock with
    | cache => simp [Proc.holds, hwants, Phase.holdsCache] at hholds
    | entry key => simp [Proc.holds, hwants, Phase.holdsEntry] at hholds
    | output name => simp [Proc.holds, hwants] at hholds
  | entry key' =>
    have hphase := hwants.1
    cases lock with
    | cache => exact zero_lt_one
    | entry key => simp [Proc.holds, hphase, Phase.holdsEntry] at hholds
    | output name => simp [Proc.holds, hphase] at hholds
  | output name' =>
    have hphase := hwants.1
    cases lock with
    | cache => exact Nat.zero_lt_two
    | entry key => exact Nat.one_lt_two
    | output name => simp [Proc.holds, hphase] at hholds

variable [DecidableEq ι] [DecidableEq K] [DecidableEq N] {w : World ι U K N}

theorem lock_or_owned (w : World ι U K N) (p : ι) (lock : Lock K N) (x : Proc U K N) :
    (w.lock p lock x).isSome ∨ ∃ q, w.owner lock = some q := by
  rw [World.lock]
  cases howner : w.owner lock with
  | none => exact .inl rfl
  | some q => exact .inr ⟨q, rfl⟩

variable [DecidableEq U]

/-- A process that is not finished can take a step, unless it waits for a lock that somebody has. -/
theorem step_or_wait (hash : U → K) (w : World ι U K N) (p : ι) :
    (w.proc p).Finished ∨ (∃ order fails, (step hash w ⟨p, order, fails⟩).isSome) ∨
      ∃ lock q, (w.proc p).Wants hash lock ∧ w.owner lock = some q := by
  cases hjobs : (w.proc p).jobs with
  | nil => exact .inl (.inl hjobs)
  | cons job rest =>
    have hkey : (w.proc p).key hash = some (hash job.upstream) := by rw [Proc.key, hjobs]; rfl
    have hname : (w.proc p).name = some job.name := by rw [Proc.name, hjobs]; rfl
    have hstep : ∀ order fails, (step hash w ⟨p, order, fails⟩).isSome →
        (w.proc p).Finished ∨ (∃ order fails, (step hash w ⟨p, order, fails⟩).isSome) ∨
          ∃ lock q, (w.proc p).Wants hash lock ∧ w.owner lock = some q :=
      fun order fails h ↦ .inr (.inl ⟨order, fails, h⟩)
    cases hphase : (w.proc p).phase with
    | start =>
      apply hstep w.cache.keys.toList false
      simp only [step, hjobs, hphase, Finset.toList_toFinset, if_true]
      split_ifs <;> rfl
    | scan | read =>
      apply hstep [] false
      simp only [step, hjobs, hphase]
      split
      · rfl
      · split <;> rfl
    | wantCache =>
      rcases lock_or_owned w p .cache { w.proc p with phase := .haveCache } with h | ⟨q, hq⟩
      · exact hstep [] false (by simpa only [step, hjobs, hphase] using h)
      · exact .inr (.inr ⟨.cache, q, hphase, hq⟩)
    | haveCache =>
      apply hstep [] false
      simp only [step, hjobs, hphase]
      split <;> rfl
    | wantEntry =>
      rcases lock_or_owned w p (.entry (hash job.upstream)) { w.proc p with phase := .verify } with
        h | ⟨q, hq⟩
      · exact hstep [] false (by simpa only [step, hjobs, hphase] using h)
      · exact .inr (.inr ⟨.entry (hash job.upstream), q, ⟨hphase, hkey⟩, hq⟩)
    | verify | gotten =>
      apply hstep [] false
      simp only [step, hjobs, hphase]
      split_ifs <;> rfl
    | wantOutput =>
      rcases lock_or_owned w p (.output job.name) { w.proc p with phase := .install } with
        h | ⟨q, hq⟩
      · exact hstep [] false (by simpa only [step, hjobs, hphase] using h)
      · exact .inr (.inr ⟨.output job.name, q, ⟨hphase, hname⟩, hq⟩)
    | died => exact .inl (.inr hphase)
    | make | madeDir | release | install | close | unlock =>
      exact hstep [] false (by simp only [step, hjobs, hphase, isSome_some])
    | vcs => exact hstep [] true (by simp only [step, hjobs, hphase, if_true, isSome_some])

/-- While a process is between the end of `get` and the destruction of its object, no other one
changes the checkout or the modifications of the same upstream; no two processes copy to the same
output name; and if some process is not finished, some process can take a step.

Assumes: the processes begin at the start, without locks. -/
theorem locking_protocol (hash : U → K) (hinit : Initial w) (events : List (Event ι K)) :
    (∀ p q key, ((events.foldl (exec hash) w).proc p).Using hash key →
        ((events.foldl (exec hash) w).proc q).Changing hash key → p = q) ∧
      (∀ p q name, ((events.foldl (exec hash) w).proc p).Copying name →
        ((events.foldl (exec hash) w).proc q).Copying name → p = q) ∧
      ((∃ p, ¬ ((events.foldl (exec hash) w).proc p).Finished) →
        ∃ event, (step hash (events.foldl (exec hash) w) event).isSome) := by
  have howned := hinit.owned_foldl hash events
  generalize events.foldl (exec hash) w = reached at howned
  refine ⟨fun p q key hp hq ↦ howned.exclusive hp.holds hq.holds,
    fun p q name hp hq ↦ ?_, fun hsome ↦ ?_⟩
  · have hlock : ∀ {r : ι}, (reached.proc r).Copying name →
        (reached.proc r).holds hash (.output name) := fun h ↦ h
    exact howned.exclusive (hlock hp) (hlock hq)
  · have hbound : ∀ lock : Lock K N, lock.rank ≤ 2 := by
      intro lock
      cases lock with
      | cache => exact Nat.zero_le 2
      | entry key => exact Nat.le_succ 1
      | output name => exact le_refl 2
    obtain ⟨p, order, fails, hstep⟩ := exists_step_of_rank Lock.rank 2 hbound
      (step_or_wait hash reached)
      (fun lock p howner ↦ not_finished_of_holds ((howned lock p).mp howner))
      (fun lock lock' p howner ↦ rank_lt_of_wants ((howned lock p).mp howner)) hsome
    exact ⟨⟨p, order, fails⟩, hstep⟩

end

/-- Two processes that work on the same name, with no cache as yet. -/
def twoProcesses : World Bool ℕ ℕ ℕ where
  proc _ := ⟨[⟨7, 0, false⟩], .start, [], false, false⟩
  owner _ := none
  cacheDir := false
  cache := ∅

theorem twoProcesses_initial : Initial twoProcesses := ⟨fun _ ↦ ⟨rfl, rfl⟩, fun _ ↦ rfl⟩

/-- The second process begins, and the first one comes to the commands of the version control
system; then the second one takes the lock of the cache and waits for that of the entry. -/
def waiting : List (Event Bool ℕ) :=
  [⟨true, [], false⟩] ++ List.replicate 8 ⟨false, [], false⟩ ++ List.replicate 4 ⟨true, [], false⟩

/-- While one of them waits, the other one can go on. -/
theorem locking_two_processes :
    ((waiting.foldl (exec id) twoProcesses).proc true).phase = .wantEntry ∧
      ∃ event, (step id (waiting.foldl (exec id) twoProcesses) event).isSome := by
  refine ⟨by decide, (locking_protocol id twoProcesses_initial waiting).2.2 ⟨true, ?_⟩⟩
  rintro (hnil | hdied)
  · cases hnil
  · cases hdied

end

end LumoSQL.NotFork.Processes
