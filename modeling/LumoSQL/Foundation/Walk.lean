import Mathlib.Data.List.Basic
import Mathlib.Data.List.Pairwise

/-!
# Walking over a list

A cursor walks over a list place by place, forwards from the first one or backwards from the last
one, until there is no place left. `forward_eq` and `backward_eq` say that it comes by every value
once, in the order of the list and in the reversed order, with any bound on the number of steps that
is not less than the length of the list. `pairwise_either` is for values that are known to be on it,
and `foldl_update_idem` for a loop that changes a value for each of them.
-/

namespace LumoSQL.Foundation

open List

variable {α : Type*}

def firstPlace (rows : List α) : Option ℕ := if rows = [] then none else some 0

def nextPlace (rows : List α) (i : ℕ) : Option ℕ :=
  if i + 1 < rows.length then some (i + 1) else none

def lastPlace (rows : List α) : Option ℕ := if rows = [] then none else some (rows.length - 1)

def previousPlace (i : ℕ) : Option ℕ := if i = 0 then none else some (i - 1)

/-- The values a walk comes by in at most `fuel` steps. -/
def walk (rows : List α) (step : ℕ → Option ℕ) : ℕ → Option ℕ → List α
  | 0, _ => []
  | _ + 1, none => []
  | fuel + 1, some i => (rows[i]?).toList ++ walk rows step fuel (step i)

variable {fuel i : ℕ} (rows : List α)

theorem walk_none (step : ℕ → Option ℕ) (fuel : ℕ) : walk rows step fuel none = [] := by
  cases fuel <;> rfl

theorem walk_next (hi : i < rows.length) (hfuel : rows.length ≤ i + fuel) :
    walk rows (nextPlace rows) fuel (some i) = rows.drop i := by
  induction fuel generalizing i with
  | zero => omega
  | succ fuel ih =>
    rw [walk, getElem?_eq_getElem hi, drop_eq_getElem_cons hi, nextPlace]
    by_cases hnext : i + 1 < rows.length
    · rw [if_pos hnext, ih hnext (by omega)]
      rfl
    · rw [if_neg hnext, walk_none, drop_eq_nil_of_le (Nat.not_lt.mp hnext)]
      rfl

theorem walk_previous (hi : i < rows.length) (hfuel : i + 1 ≤ fuel) :
    walk rows previousPlace fuel (some i) = (rows.take (i + 1)).reverse := by
  induction fuel generalizing i with
  | zero => omega
  | succ fuel ih =>
    rw [walk, getElem?_eq_getElem hi, take_add_one, getElem?_eq_getElem hi,
      reverse_append, previousPlace]
    cases i with
    | zero => simp [walk_none]
    | succ i =>
      rw [if_neg (Nat.succ_ne_zero i), Nat.add_sub_cancel, ih (by omega) (by omega)]
      rfl

/-- A walk forwards comes by every value in order. -/
theorem forward_eq {fuel : ℕ} (hfuel : rows.length ≤ fuel) :
    walk rows (nextPlace rows) fuel (firstPlace rows) = rows := by
  cases rows with
  | nil => exact walk_none _ _ _
  | cons row rest =>
    rw [firstPlace, if_neg (cons_ne_nil row rest), walk_next _ (Nat.succ_pos _) (by omega)]
    rfl

/-- A walk backwards comes by every value in the reversed order. -/
theorem backward_eq {fuel : ℕ} (hfuel : rows.length ≤ fuel) :
    walk rows previousPlace fuel (lastPlace rows) = rows.reverse := by
  cases rows with
  | nil => exact walk_none _ _ _
  | cons row rest =>
    have hlast : (row :: rest).length - 1 = rest.length := rfl
    rw [lastPlace, if_neg (cons_ne_nil row rest), hlast,
      walk_previous (row :: rest) (Nat.lt_succ_self _) hfuel, ← length_cons,
      take_length]

/-- Of two different values of a list one comes before the other. -/
theorem pairwise_either {R : α → α → Prop} {rows : List α} (hpairs : rows.Pairwise R) {a b : α}
    (ha : a ∈ rows) (hb : b ∈ rows) (hne : a ≠ b) : R a b ∨ R b a := by
  have hsymm : Std.Symm fun a b : α ↦ R a b ∨ R b a := ⟨fun _ _ heither ↦ heither.symm⟩
  have heither : rows.Pairwise fun a b ↦ R a b ∨ R b a := hpairs.imp .inl
  exact heither.forall ha hb hne

/-- Assumes: a change that does no more when it is made again. A loop that makes it for every member
of a list has made it for the members and for no others. -/
theorem foldl_update_idem {ι β : Type*} [DecidableEq ι] {change : β → β}
    (hidem : ∀ b, change (change b) = change b) (members : List ι) (values : ι → β) (i : ι) :
    members.foldl (fun values member ↦
      Function.update values member (change (values member))) values i =
      if i ∈ members then change (values i) else values i := by
  induction members generalizing values with
  | nil => simp
  | cons member rest ih =>
    rw [foldl_cons, ih]
    by_cases hi : i = member
    · subst hi
      simp [hidem]
    · simp [hi]

end LumoSQL.Foundation
