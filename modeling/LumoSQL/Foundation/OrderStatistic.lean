import Mathlib.Data.List.Sort

/-!
# Places in sorted order

`Ranked xs k x` says that `x` is the element at place `k` when the list is sorted, without sorting
it: at most `k` elements are less and more than `k` are at most as large. For a sorted list it is
the element at that index (`ranked_sorted`), and it does not depend on the order of the list
(`ranked_perm`), so it is the element at that index of the sorted list (`ranked_iff_sort`).
-/

namespace LumoSQL.Foundation

open List

variable {α : Type*} [LinearOrder α]

/-- The element is at place `k` of the list in sorted order. -/
def Ranked (xs : List α) (k : ℕ) (x : α) : Prop :=
  xs.countP (· < x) ≤ k ∧ k < xs.countP (· ≤ x)

instance (xs : List α) (k : ℕ) (x : α) : Decidable (Ranked xs k x) :=
  inferInstanceAs (Decidable (_ ∧ _))

/-- The place of an element does not depend on the order of the list. -/
theorem ranked_perm {xs ys : List α} (hperm : xs.Perm ys) (k : ℕ) (x : α) :
    Ranked xs k x ↔ Ranked ys k x := by
  rw [Ranked, Ranked, hperm.countP_eq, hperm.countP_eq]

/-- In a sorted list the element at a place is the one at that index. -/
theorem ranked_sorted {xs : List α} (hsorted : xs.Pairwise (· ≤ ·)) (k : ℕ) (x : α) :
    Ranked xs k x ↔ xs[k]? = some x := by
  induction xs generalizing k with
  | nil => simp [Ranked]
  | cons a rest ih =>
    obtain ⟨hfirst, hrest⟩ := pairwise_cons.mp hsorted
    cases k with
    | zero =>
      rw [getElem?_cons_zero, Option.some_inj, Ranked, Nat.le_zero, countP_eq_zero, countP_pos_iff]
      constructor
      · rintro ⟨hleast, b, hb, hle⟩
        have hab : a ≤ b := by
          rcases mem_cons.mp hb with rfl | hmem
          · exact le_rfl
          · exact hfirst b hmem
        have hax : ¬ a < x := by simpa using hleast a (.head _)
        exact le_antisymm (hab.trans (by simpa using hle)) (not_lt.mp hax)
      · rintro rfl
        refine ⟨fun b hb ↦ ?_, a, .head _, by simp⟩
        rcases mem_cons.mp hb with rfl | hmem
        · simp
        · simpa using hfirst b hmem
    | succ k =>
      rw [getElem?_cons_succ, ← ih hrest, Ranked, Ranked, countP_cons, countP_cons]
      rcases lt_trichotomy a x with hlt | rfl | hgt
      · simp [hlt, hlt.le]
      · have hnone : rest.countP (· < a) = 0 := by
          rw [countP_eq_zero]
          intro b hb
          simpa using hfirst b hb
        simp [hnone]
      · have hnone : rest.countP (· ≤ x) = 0 := by
          rw [countP_eq_zero]
          intro b hb
          simpa using hgt.trans_le (hfirst b hb)
        simp [hnone, hgt.not_ge]

/-- The element at a place is the one at that index of the sorted list. -/
theorem ranked_iff_sort (xs : List α) (k : ℕ) (x : α) :
    Ranked xs k x ↔ (xs.insertionSort (· ≤ ·))[k]? = some x := by
  rw [← ranked_sorted (pairwise_insertionSort _ xs), ranked_perm (perm_insertionSort _ xs)]

end LumoSQL.Foundation
