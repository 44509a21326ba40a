import Mathlib.Data.List.Basic

/-!
# Runs all of whose steps meet a guard

A guard says which steps of a machine are to be trusted, and may look at the state a step is taken
from. `Meets` is a run of a machine that always takes its step, all of whose steps meet the guard:
what guarded steps keep holds at its end (`Meets.invariant`).

`Guarded` is a run of a machine whose steps may get stuck, beside a reference machine that always
takes its step; the guard may look at the states of both. When the machines are related and a
guarded step keeps them related, a run all of whose steps are guarded never gets stuck and ends in
related states (`Guarded.simulates`), and so does every initial part of it
(`Guarded.simulates_take`).
-/

namespace LumoSQL.Foundation

open List

variable {σ τ α : Type*}

/-! ### Machines that always take their step -/

/-- Every step of the run meets the guard in the state it is taken from. -/
def Meets (step : σ → α → σ) (guard : σ → α → Prop) : σ → List α → Prop
  | _, [] => True
  | state, event :: rest => guard state event ∧ Meets step guard (step state event) rest

variable {events : List α} {guard : σ → α → Prop} {state : σ} {step : σ → α → σ}

/-- Assumes: guarded steps keep the invariant. It holds at the end of a run whose steps all meet the
guard. -/
theorem Meets.invariant {holds : σ → Prop}
    (hstep : ∀ state event, holds state → guard state event → holds (step state event))
    (hholds : holds state) (hmeets : Meets step guard state events) :
    holds (events.foldl step state) := by
  induction events generalizing state with
  | nil => exact hholds
  | cons event rest ih => exact ih (hstep state event hholds hmeets.1) hmeets.2

/-- A run that meets a guard meets what follows from it. -/
theorem Meets.imp {guard weaker : σ → α → Prop}
    (himp : ∀ state event, guard state event → weaker state event)
    (hmeets : Meets step guard state events) : Meets step weaker state events := by
  induction events generalizing state with
  | nil => exact trivial
  | cons event rest ih => exact ⟨himp state event hmeets.1, ih hmeets.2⟩

/-- A run that meets a guard also meets what holds of all its events. -/
theorem Meets.and_forall {holds : α → Prop} (hmeets : Meets step guard state events)
    (hall : ∀ event ∈ events, holds event) :
    Meets step (fun state event ↦ guard state event ∧ holds event) state events := by
  induction events generalizing state with
  | nil => exact trivial
  | cons event rest ih =>
    exact ⟨⟨hmeets.1, hall event (.head _)⟩,
      ih hmeets.2 fun other hother ↦ hall other (.tail _ hother)⟩

/-- A run in two parts meets the guard in both. -/
theorem Meets.append_iff {first second : List α} : Meets step guard state (first ++ second) ↔
      Meets step guard state first ∧ Meets step guard (first.foldl step state) second := by
  induction first generalizing state with
  | nil => simp [Meets]
  | cons event rest ih => simp [Meets, ih, and_assoc]

/-- Assumes: guarded steps keep an invariant and meet a second guard where it holds. -/
theorem Meets.imp_of_invariant {guard other : σ → α → Prop} {holds : σ → Prop}
    (hstep : ∀ state event, holds state → guard state event → holds (step state event))
    (himp : ∀ state event, holds state → guard state event → other state event)
    (hholds : holds state) (hmeets : Meets step guard state events) :
    Meets step other state events := by
  induction events generalizing state with
  | nil => exact trivial
  | cons event rest ih =>
    exact ⟨himp state event hholds hmeets.1, ih (hstep state event hholds hmeets.1) hmeets.2⟩

/-- Assumes: under an invariant and a first guard two others are the same, and steps that meet these
guards keep the invariant. A run that meets the first guard meets one of the others when it meets
the other. -/
theorem Meets.iff_of_invariant {asserts guard guard' : σ → α → Prop} {holds : σ → Prop}
    (hstep : ∀ state event, holds state → asserts state event → guard' state event →
      holds (step state event)) (hiff : ∀ state event, holds state → asserts state event →
      (guard state event ↔ guard' state event)) (hholds : holds state)
    (hasserts : Meets step asserts state events) :
    Meets step guard state events ↔ Meets step guard' state events := by
  induction events generalizing state with
  | nil => exact Iff.rfl
  | cons event rest ih =>
    have hsame := hiff state event hholds hasserts.1
    constructor
    · rintro ⟨hguard, hrest⟩
      have hkept := hstep state event hholds hasserts.1 (hsame.mp hguard)
      exact ⟨hsame.mp hguard, (ih hkept hasserts.2).mp hrest⟩
    · rintro ⟨hguard, hrest⟩
      have hkept := hstep state event hholds hasserts.1 hguard
      exact ⟨hsame.mpr hguard, (ih hkept hasserts.2).mpr hrest⟩

/-- Assumes: steps that meet the first guard keep an invariant, under which a step keeps the states
of a machine and a reference machine related exactly if it meets the second guard. The states are
related all along a run that meets the first guard when it meets the second. -/
theorem Meets.iff_related {reference : τ → α → τ} {asserts guard : σ → α → Prop} {holds : σ → Prop}
    {related : σ → τ → Prop}
    (hstep : ∀ state event, holds state → asserts state event → holds (step state event))
    (hiff : ∀ state ref event, holds state → related state ref → asserts state event →
      (related (step state event) (reference ref event) ↔ guard state event)) {ref : τ}
    (hholds : holds state) (hrelated : related state ref)
    (hasserts : Meets step asserts state events) :
    (∀ done, done <+: events → related (done.foldl step state) (done.foldl reference ref)) ↔
      Meets step guard state events := by
  induction events generalizing state ref with
  | nil =>
    refine iff_of_true (fun done hdone ↦ ?_) trivial
    rwa [prefix_nil.mp hdone]
  | cons event rest ih =>
    have hsame := hiff state ref event hholds hrelated hasserts.1
    have hkept := hstep state event hholds hasserts.1
    constructor
    · intro hall
      have hnext := hall [event] (prefix_append [event] rest)
      exact ⟨hsame.mp hnext, (ih hkept hnext hasserts.2).mp fun done hdone ↦
        hall (event :: done) ((prefix_cons_inj event).mpr hdone)⟩
    · rintro ⟨hguard, hrest⟩ done hdone
      rcases prefix_cons_iff.mp hdone with rfl | ⟨later, rfl, hlater⟩
      · exact hrelated
      · exact (ih hkept (hsame.mpr hguard) hasserts.2).mpr hrest later hlater

theorem meets_of_forall (hall : ∀ state event, guard state event) (state : σ) (events : List α) :
    Meets step guard state events := by
  induction events generalizing state with
  | nil => exact trivial
  | cons event rest ih => exact ⟨hall state event, ih (step state event)⟩

/-- Assumes: steps keep an invariant, under which a step leaves a good state good exactly if it
meets the guard. The states are good all along a run when it meets the guard. -/
theorem Meets.iff_always {holds good : σ → Prop}
    (hstep : ∀ state event, holds state → holds (step state event))
    (hiff : ∀ state event, holds state → good state →
      (good (step state event) ↔ guard state event)) (hholds : holds state) (hgood : good state) :
    (∀ done, done <+: events → good (done.foldl step state)) ↔ Meets step guard state events := by
  have hkeep : ∀ state event, holds state → True → holds (step state event) :=
    fun state event h _ ↦ hstep state event h
  have hsame : ∀ state (ref : Unit) event, holds state → good state → True →
      (good (step state event) ↔ guard state event) :=
    fun state _ event h hok _ ↦ hiff state event h hok
  have hall : Meets step (fun _ _ ↦ True) state events :=
    meets_of_forall (fun _ _ ↦ trivial) state events
  exact @Meets.iff_related σ Unit α events state step (fun _ _ ↦ ()) (fun _ _ ↦ True) guard holds
    (fun state _ ↦ good state) hkeep hsame () hholds hgood hall

/-! ### Machines beside a reference machine -/

/-- Runs a machine over a list of events; `none` when a step is stuck. -/
def run (step : σ → α → Option σ) : σ → List α → Option σ
  | state, [] => some state
  | state, event :: rest => (step state event).bind fun state' ↦ run step state' rest

/-- The states that a run passes through, to its end or to where it is stuck. -/
def visits (step : σ → α → Option σ) : σ → List α → List σ
  | state, [] => [state]
  | state, event :: rest =>
    state :: (step state event).elim [] fun state' ↦ visits step state' rest

/-- What every step keeps holds in all the states that a run passes through. -/
theorem visits_invariant {step : σ → α → Option σ} (holds : σ → Prop)
    (hstep : ∀ event ∈ events, ∀ state state', holds state → step state event = some state' →
      holds state')
    (hholds : holds state) : ∀ visited ∈ visits step state events, holds visited := by
  induction events generalizing state with
  | nil =>
    intro visited hvisited
    exact mem_singleton.mp hvisited ▸ hholds
  | cons event rest ih =>
    intro visited hvisited
    rcases mem_cons.mp hvisited with rfl | hlater
    · exact hholds
    · cases hnext : step state event with
      | none =>
        rw [hnext] at hlater
        cases hlater
      | some state' =>
        rw [hnext] at hlater
        exact ih (fun event' hevent' ↦ hstep event' (mem_cons_of_mem _ hevent'))
          (hstep event (.head _) state state' hholds hnext) visited hlater

/-- A run ends in one of the states that it passes through. -/
theorem run_mem_visits {step : σ → α → Option σ} {state final : σ}
    (hrun : run step state events = some final) : final ∈ visits step state events := by
  induction events generalizing state with
  | nil => exact mem_singleton.mpr (Option.some_inj.mp hrun).symm
  | cons event rest ih =>
    obtain ⟨state', hnext, hrest⟩ := Option.bind_eq_some_iff.mp hrun
    rw [visits, hnext]
    exact .tail _ (ih hrest)

/-- What every step keeps is kept by a run. -/
theorem run_invariant {step : σ → α → Option σ} (holds : σ → Prop) {state final : σ}
    (hstep : ∀ event ∈ events, ∀ state state', holds state → step state event = some state' →
      holds state') (hholds : holds state) (hrun : run step state events = some final) :
    holds final :=
  visits_invariant holds hstep hholds final (run_mem_visits hrun)

/-- Every step of the run meets the guard in the states of the two machines it is taken from. -/
def Guarded (step : σ → α → Option σ) (reference : τ → α → τ) (guard : σ → τ → α → Prop) :
    σ → τ → List α → Prop
  | _, _, [] => True
  | state, ref, event :: rest => guard state ref event ∧ ∀ state', step state event = some state' →
        Guarded step reference guard state' (reference ref event) rest

section

variable {step : σ → α → Option σ} {reference : τ → α → τ} {guard : σ → τ → α → Prop}

variable {events : List α} {ref : τ} {related : σ → τ → Prop} {state : σ}

/-- An initial part of a guarded run is guarded. -/
theorem Guarded.take (hguarded : Guarded step reference guard state ref events) (count : ℕ) :
    Guarded step reference guard state ref (events.take count) := by
  induction events generalizing state ref count with
  | nil =>
    rwa [take_nil]
  | cons event rest ih =>
    cases count with
    | zero => exact trivial
    | succ count => exact ⟨hguarded.1, fun state' hstep ↦ ih (hguarded.2 state' hstep) count⟩

section

variable
  (hstep : ∀ state ref event, related state ref → guard state ref event →
    ∃ state', step state event = some state' ∧ related state' (reference ref event))
  (hrelated : related state ref) (hguarded : Guarded step reference guard state ref events)

include hstep hrelated hguarded

/-- Assumes: related states, and guarded steps that are not stuck and keep the states related. A
guarded run is not stuck and ends in related states. -/
theorem Guarded.simulates : ∃ state', run step state events = some state' ∧
      related state' (events.foldl reference ref) := by
  induction events generalizing state ref with
  | nil => exact ⟨state, rfl, hrelated⟩
  | cons event rest ih =>
    obtain ⟨hguard, hrest⟩ := hguarded
    obtain ⟨state₁, hstep₁, hrelated₁⟩ := hstep state ref event hrelated hguard
    obtain ⟨state', hrun, hrelated'⟩ := ih hrelated₁ (hrest state₁ hstep₁)
    refine ⟨state', ?_, hrelated'⟩
    rwa [run, hstep₁]

/-- Assumes: as for `Guarded.simulates`. Every initial part of a guarded run ends in related
states. -/
theorem Guarded.simulates_take (count : ℕ) :
    ∃ state', run step state (events.take count) = some state' ∧
      related state' ((events.take count).foldl reference ref) :=
  (hguarded.take count).simulates hstep hrelated

end

end

end LumoSQL.Foundation
