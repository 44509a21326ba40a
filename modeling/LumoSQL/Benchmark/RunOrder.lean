import LumoSQL.Benchmark.Medians
import LumoSQL.Foundation.SortedDups
import Mathlib.Data.List.Lex

/-!
# The order of the runs

`getRuns` compares the names of two runs as numbers if both are numerals, and as texts otherwise.
Each of the two comparisons is consistent, but a word between two numerals in the order of the texts
puts these in that order too. `getRuns_sorted_iff` says that nothing else goes wrong. The numbers
are below 2⁵³, where `a - b` is exact.
-/

namespace LumoSQL.Benchmark

open Foundation List

/-- The comparison is a strict weak order on the names, and `getRuns` gives every name once, in the
order of the comparison whatever the order of the runs is, with the numerals in increasing order. -/
structure RunsSorted (js : Runtime) (runs : List (Text × Json)) : Prop where
  oriented : Oriented (compareRuns js)
  trans : TransOn (· ∈ runs.map Prod.fst) (compareRuns js)
  once : (getRuns js runs).Nodup
  names : ∀ name, name ∈ getRuns js runs ↔ name ∈ runs.map Prod.fst
  ordered : (getRuns js runs).Pairwise fun a b ↦ compareRuns js a b ≤ 0
  numerals : ((getRuns js runs).filter isDigits).Pairwise fun a b ↦ decimal a ≤ decimal b

/-- Numerals with a word between them in the order of the texts are in the order of the numbers. -/
def WordsApart (js : Runtime) (names : List Text) : Prop :=
  ∀ a ∈ names, ∀ b ∈ names, ∀ word ∈ names, isDigits a = true → isDigits b = true →
    isDigits word = false → js.localeCompare a word < 0 → js.localeCompare word b < 0 →
      decimal a < decimal b

variable {js : Runtime} {names : List Text} {a b : Text}

theorem nodup_foldl_pushNew (names output : List Text) (hnodup : output.Nodup) :
    (names.foldl pushNew output).Nodup := by
  induction names generalizing output with
  | nil => exact hnodup
  | cons name rest ih =>
    refine ih _ ?_
    rw [pushNew]
    split_ifs with hmem
    · exact hnodup
    · exact nodup_append.mpr ⟨hnodup, nodup_singleton name,
        fun other hother last hlast heq ↦ hmem (mem_singleton.mp hlast ▸ heq ▸ hother)⟩

theorem compareRuns_digits (ha : isDigits a = true) (hb : isDigits b = true) :
    compareRuns js a b = decimal a - decimal b := by
  simp [compareRuns, ha, hb]

theorem compareRuns_word (hword : isDigits a = false ∨ isDigits b = false) :
    compareRuns js a b = js.localeCompare a b := by
  rcases hword with hword | hword <;> simp [compareRuns, hword]

section

variable (hlocale : LinearCmp js.localeCompare)

include hlocale

theorem compareRuns_oriented : Oriented (compareRuns js) := by
  intro a b
  unfold compareRuns
  rw [Bool.and_comm]
  split_ifs
  · omega
  · exact hlocale.oriented a b

theorem locale_lt (hkinds : isDigits a ≠ isDigits b) (hle : js.localeCompare a b ≤ 0) :
    js.localeCompare a b < 0 :=
  lt_of_le_of_ne hle fun hzero ↦ hkinds (congrArg isDigits (hlocale.eq_of_zero a b hzero))

/-- The comparison is transitive exactly if the words are apart from the numerals. -/
theorem compareRuns_trans_iff : TransOn (· ∈ names) (compareRuns js) ↔ WordsApart js names := by
  constructor
  · intro htrans a ha b hb word hword hadigits hbdigits hother hless hgreater
    by_contra hnot
    have hle := htrans b a word hb ha hword (by rw [compareRuns_digits hbdigits hadigits]; omega)
      (by rw [compareRuns_word (.inr hother)]; exact hless.le)
    rw [compareRuns_word (.inr hother)] at hle
    have hflip := (hlocale.oriented word b).mp hgreater
    omega
  · intro hapart a b c ha hb hc hab hbc
    -- the numerals among the three decide which comparisons are made
    cases hda : isDigits a <;> cases hdb : isDigits b <;> cases hdc : isDigits c <;>
      simp only [compareRuns, hda, hdb, hdc, Bool.and_true, Bool.and_false,
        Bool.false_eq_true, if_true, if_false] at hab hbc ⊢
    case false.true.true =>
      by_contra hca
      have hless := (hlocale.oriented c a).mpr (not_le.mp hca)
      have := hapart c hc b hb a ha hdc hdb hda hless (locale_lt hlocale (by simp [hda, hdb]) hab)
      omega
    case true.false.true =>
      have := hapart a ha c hc b hb hda hdc hdb (locale_lt hlocale (by simp [hda, hdb]) hab)
        (locale_lt hlocale (by simp [hdb, hdc]) hbc)
      omega
    case true.true.false =>
      by_contra hca
      have hless := (hlocale.oriented c a).mpr (not_le.mp hca)
      have := hapart b hb a ha c hc hdb hda hdc (locale_lt hlocale (by simp [hdb, hdc]) hbc) hless
      omega
    case true.true.true => omega
    all_goals exact hlocale.trans a b c trivial trivial trivial hab hbc

/-- The runs are sorted consistently exactly if the words are apart from the numerals.
Assumes: `localeCompare` is a total order, and `sort` sorts where the comparison is consistent. -/
theorem getRuns_sorted_iff (runs : List (Text × Json))
    (hsort : TransOn (· ∈ runs.map Prod.fst) (compareRuns js) →
      (getRuns js runs).Pairwise fun a b ↦ compareRuns js a b ≤ 0) :
    RunsSorted js runs ↔ WordsApart js (runs.map Prod.fst) := by
  refine ⟨fun hsorted ↦ (compareRuns_trans_iff hlocale).mp hsorted.trans, fun hapart ↦ ?_⟩
  have htrans := (compareRuns_trans_iff hlocale).mpr hapart
  have hperm := js.sort_perm (compareRuns js) ((runs.map Prod.fst).foldl pushNew [])
  refine ⟨compareRuns_oriented hlocale, htrans, ?_, fun name ↦ ?_, hsort htrans, ?_⟩
  · exact hperm.nodup_iff.mpr (nodup_foldl_pushNew _ _ nodup_nil)
  · rw [getRuns, hperm.mem_iff, mem_foldl_pushNew]
    simp
  · refine ((hsort htrans).filter _).imp_of_mem fun {a b} ha hb hle ↦ ?_
    rw [compareRuns_digits (mem_filter.mp ha).2 (mem_filter.mp hb).2] at hle
    omega

end

theorem plainRuntime_linear : LinearCmp plainRuntime.localeCompare := by
  have hsign : ∀ a b, (plainRuntime.localeCompare a b ≤ 0 ↔ a ≤ b) ∧
      (plainRuntime.localeCompare a b < 0 ↔ a < b) := by
    intro a b
    have hcmp : plainRuntime.localeCompare a b = if a < b then -1 else if b < a then 1 else 0 := rfl
    rcases lt_trichotomy a b with hless | rfl | hless
    · simp [hcmp, hless, hless.le]
    · simp [hcmp]
    · simp [hcmp, hless, hless.not_gt, hless.not_ge]
  refine ⟨fun a b ↦ ?_, fun a b c _ _ _ hab hbc ↦ ?_, fun a b hzero ↦ ?_⟩
  · rw [(hsign a b).2, ← not_le, ← not_le, (hsign b a).1]
  · exact (hsign a c).1.mpr (((hsign a b).1.mp hab).trans ((hsign b c).1.mp hbc))
  · exact eq_of_le_of_not_lt ((hsign a b).1.mp hzero.le) (mt (hsign a b).2.mpr hzero.not_lt)

theorem getRuns_sorted_three :
    RunsSorted plainRuntime [(['a'], .array []), (['1', '0'], .array []), (['9'], .array [])] ↔
      WordsApart plainRuntime [['a'], ['1', '0'], ['9']] :=
  getRuns_sorted_iff plainRuntime_linear _ fun _ ↦ by decide

/-- `2` is before `10`, `10` before `1a` and `1a` before `2`, and the order of the runs decides what
`getRuns` gives. -/
theorem getRuns_cycle : compareRuns plainRuntime ['2'] ['1', '0'] < 0 ∧
      compareRuns plainRuntime ['1', '0'] ['1', 'a'] < 0 ∧
      compareRuns plainRuntime ['1', 'a'] ['2'] < 0 ∧
      getRuns plainRuntime [(['2'], .array []), (['1', '0'], .array []), (['1', 'a'], .array [])] ≠
        getRuns plainRuntime [(['1', 'a'], .array []), (['2'], .array []),
          (['1', '0'], .array [])] := by
  decide

end LumoSQL.Benchmark
