import Mathlib.Data.List.Basic

/-!
# Programs that call a library

A `CallTree` is a program as far as it depends on what the functions of a library reply: it returns
a value, or makes a call and goes on with the reply. `run` is its value and `trace` the replies it
has seen when the calls are answered one after the other.
-/

namespace LumoSQL.Foundation

/-- A program that returns, or makes a call and goes on with the reply. -/
inductive CallTree (ρ α : Type)
  | done (value : α)
  | call (next : ρ → CallTree ρ α)

namespace CallTree

variable {ρ α β : Type}

def andThen : CallTree ρ α → (α → CallTree ρ β) → CallTree ρ β
  | done value, rest => rest value
  | call next, rest => call fun reply ↦ (next reply).andThen rest

instance : Monad (CallTree ρ) where
  pure := done
  bind := andThen

def reply : CallTree ρ ρ := call done

def run : CallTree ρ α → (ℕ → ρ) → α
  | done value, _ => value
  | call next, answer => (next (answer 0)).run fun i ↦ answer (i + 1)

def trace : CallTree ρ α → (ℕ → ρ) → List ρ
  | done _, _ => []
  | call next, answer => answer 0 :: (next (answer 0)).trace fun i ↦ answer (i + 1)

variable (value : α) (program : CallTree ρ α) (rest : α → CallTree ρ β) (answer : ℕ → ρ)

@[simp] theorem run_pure : (pure value : CallTree ρ α).run answer = value := rfl

@[simp] theorem trace_pure : (pure value : CallTree ρ α).trace answer = [] := rfl

@[simp] theorem run_reply : (reply : CallTree ρ ρ).run answer = answer 0 := rfl

@[simp] theorem trace_reply : (reply : CallTree ρ ρ).trace answer = [answer 0] := rfl

/-- The rest of a program is answered after its first part. -/
@[simp] theorem run_bind : (program >>= rest).run answer =
      (rest (program.run answer)).run fun i ↦ answer (i + (program.trace answer).length) := by
  induction program generalizing answer with
  | done value => rfl
  | call next ih =>
    have hlater := ih (answer 0) fun i ↦ answer (i + 1)
    exact hlater

@[simp] theorem trace_bind : (program >>= rest).trace answer = program.trace answer ++
      (rest (program.run answer)).trace fun i ↦ answer (i + (program.trace answer).length) := by
  induction program generalizing answer with
  | done value => rfl
  | call next ih =>
    have hlater := ih (answer 0) fun i ↦ answer (i + 1)
    exact congrArg _ hlater

theorem run_map (f : α → β) :
    (program >>= fun value ↦ pure (f value)).run answer = f (program.run answer) := by
  simp

theorem trace_map (f : α → β) :
    (program >>= fun value ↦ pure (f value)).trace answer = program.trace answer := by
  simp

end CallTree

end LumoSQL.Foundation
