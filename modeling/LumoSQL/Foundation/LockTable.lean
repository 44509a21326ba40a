import Mathlib.Data.Option.Basic
import Mathlib.Tactic.Common

/-!
# Tables of locks

Any number of processes take and release locks that exclude each other. What a process holds is read
off its state; `Owned` says that the table has the same. `LockStep` has what a process can do, with
one rule for each case that says that it keeps `Owned`, and `Owned.exclusive` is mutual exclusion.

`exists_step_of_rank` is the argument against deadlocks by an order of the locks: a process that
waits for a lock holds only locks of a lower rank.
-/

namespace LumoSQL.Foundation

open Option Function

section

variable {ι X L : Type*} {holds : X → L → Prop} {owner : L → Option ι} {proc : ι → X}

/-- The table has for each lock the process that holds it. -/
def Owned (holds : X → L → Prop) (owner : L → Option ι) (proc : ι → X) : Prop :=
  ∀ lock p, owner lock = some p ↔ holds (proc p) lock

/-- No two processes hold the same lock. -/
theorem Owned.exclusive (howned : Owned holds owner proc) {lock : L} {p q : ι}
    (hp : holds (proc p) lock) (hq : holds (proc q) lock) : p = q :=
  some_inj.mp (((howned lock p).mpr hp).symm.trans ((howned lock q).mpr hq))

variable [DecidableEq ι]

theorem Owned.move (howned : Owned holds owner proc) {p : ι} {state : X}
    (hsame : ∀ lock, holds state lock ↔ holds (proc p) lock) :
    Owned holds owner (Function.update proc p state) := by
  intro lock q
  by_cases heq : q = p
  · subst heq
    rw [update_self, hsame]
    exact howned lock q
  · rw [update_of_ne heq]
    exact howned lock q

/-- The end of a process, which releases all it holds. -/
theorem Owned.drop (howned : Owned holds owner proc) {p : ι} {state : X}
    (hnone : ∀ lock, ¬ holds state lock) :
    Owned holds (fun lock ↦ if owner lock = some p then none else owner lock)
      (Function.update proc p state) := by
  intro lock q
  by_cases heq : q = p
  · subst heq
    rw [update_self]
    refine iff_of_false (fun howner ↦ ?_) (hnone lock)
    beta_reduce at howner
    split_ifs at howner with hmine
    exact hmine howner
  · rw [update_of_ne heq, ← howned lock q]
    beta_reduce
    split_ifs with hmine
    · refine iff_of_false (nofun) fun howner ↦ ?_
      exact heq (some_inj.mp (howner.symm.trans hmine))
    · exact Iff.rfl

variable [DecidableEq L]

/-- A step that takes a lock.

Assumes: the lock is free. -/
theorem Owned.acquire (howned : Owned holds owner proc) {p : ι} {state : X} {lock : L}
    (hfree : owner lock = none)
    (htaken : ∀ other, holds state other ↔ other = lock ∨ holds (proc p) other) :
    Owned holds (Function.update owner lock (some p)) (Function.update proc p state) := by
  intro other q
  by_cases hlock : other = lock
  · subst hlock
    rw [update_self, some_inj]
    by_cases heq : q = p
    · subst heq
      rw [update_self, htaken]
      exact iff_of_true rfl (.inl rfl)
    · rw [update_of_ne heq]
      refine iff_of_false (Ne.symm heq) fun hholds ↦ ?_
      have howner := (howned other q).mpr hholds
      rw [hfree] at howner
      cases howner
  · rw [update_of_ne hlock]
    by_cases heq : q = p
    · subst heq
      rw [update_self, htaken, or_iff_right hlock]
      exact howned other q
    · rw [update_of_ne heq]
      exact howned other q

theorem Owned.release (howned : Owned holds owner proc) {p : ι} {state : X} {lock : L}
    (hheld : holds (proc p) lock)
    (hreleased : ∀ other, holds state other ↔ other ≠ lock ∧ holds (proc p) other) :
    Owned holds (Function.update owner lock none) (Function.update proc p state) := by
  intro other q
  by_cases hlock : other = lock
  · subst hlock
    rw [update_self]
    refine iff_of_false (nofun) fun hholds ↦ ?_
    by_cases heq : q = p
    · subst heq
      rw [update_self, hreleased] at hholds
      exact hholds.1 rfl
    · rw [update_of_ne heq] at hholds
      exact heq (howned.exclusive hholds hheld)
  · rw [update_of_ne hlock]
    by_cases heq : q = p
    · subst heq
      rw [update_self, hreleased, and_iff_right hlock]
      exact howned other q
    · rw [update_of_ne heq]
      exact howned other q

/-- What a step of a process does with the locks: nothing, or it takes one that is free, releases
one, or ends and releases all. -/
inductive LockStep (holds : X → L → Prop) (owner : L → Option ι) (p : ι) (before after : X) :
    (L → Option ι) → Prop
  | same (hsame : ∀ lock, holds after lock ↔ holds before lock) :
      LockStep holds owner p before after owner
  | acquire (lock : L) (hfree : owner lock = none)
      (htaken : ∀ other, holds after other ↔ other = lock ∨ holds before other) :
      LockStep holds owner p before after (Function.update owner lock (some p))
  | release (lock : L) (hheld : holds before lock)
      (hreleased : ∀ other, holds after other ↔ other ≠ lock ∧ holds before other) :
      LockStep holds owner p before after (Function.update owner lock none)
  | drop (hnone : ∀ lock, ¬ holds after lock) : LockStep holds owner p before after fun lock ↦
        if owner lock = some p then none else owner lock

theorem Owned.step (howned : Owned holds owner proc) {p : ι} {after : X} {owner' : L → Option ι}
    (hstep : LockStep holds owner p (proc p) after owner') :
    Owned holds owner' (Function.update proc p after) := by
  cases hstep with
  | same hsame => exact howned.move hsame
  | acquire lock hfree htaken => exact howned.acquire hfree htaken
  | release lock hheld hreleased => exact howned.release hheld hreleased
  | drop hnone => exact howned.drop hnone

end

/-- Assumes: every process is done, can take a step, or waits for a lock that a process has; who has
a lock is not done; and what a process holds has a lower rank than what it waits for. If some
process is not done, some process can take a step. -/
theorem exists_step_of_rank {ι L : Type*} {finished enabled : ι → Prop} {wants : ι → L → Prop}
    {owner : L → Option ι} (rank : L → ℕ) (bound : ℕ) (hbound : ∀ lock, rank lock ≤ bound)
    (hcases : ∀ p, finished p ∨ enabled p ∨ ∃ lock q, wants p lock ∧ owner lock = some q)
    (howner : ∀ lock p, owner lock = some p → ¬ finished p)
    (horder : ∀ lock lock' p, owner lock = some p → wants p lock' → rank lock < rank lock')
    (hsome : ∃ p, ¬ finished p) : ∃ p, enabled p := by
  -- from a waiting process to the owner of its lock, whose own lock has a higher rank
  have hclimb : ∀ distance lock p, bound - rank lock = distance → owner lock = some p →
      ∃ q, enabled q := by
    intro distance
    induction distance using Nat.strongRecOn with
    | ind distance ih =>
      intro lock p hdistance hheld
      rcases hcases p with hfinished | henabled | ⟨lock', q, hwants, hq⟩
      · exact absurd hfinished (howner lock p hheld)
      · exact ⟨p, henabled⟩
      · have hlt := horder lock lock' p hheld hwants
        have hle := hbound lock'
        exact ih (bound - rank lock') (by omega) lock' q rfl hq
  obtain ⟨p, hp⟩ := hsome
  rcases hcases p with hfinished | henabled | ⟨lock, q, -, hq⟩
  · exact absurd hfinished hp
  · exact ⟨p, henabled⟩
  · exact hclimb _ lock q rfl hq

end LumoSQL.Foundation
