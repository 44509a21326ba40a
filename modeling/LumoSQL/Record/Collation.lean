import LumoSQL.Record.Compare

/-!
# The built-in collating sequences

`main.c` registers three collating functions: `BINARY` compares bytes, `RTRIM` does so too but for
spaces at the end of the longer text, and `NOCASE` compares the lower-case forms of the bytes, up to
a byte that is zero, and then the lengths. `Builtin.memCompare` is `sqlite3MemCompare` with one of
them.

`rtrim_eq_zero` and `nocase_eq_zero` say when two texts are equal, and `rtrim_append` and
`strnicmp_append` what is left to compare behind a common start. `NOCASE` is a collating sequence as
`CollSeq` has it; `RTRIM` is not, since a text and the same text with a space differ in what is less
than they are (`rtrim_not_trans`).
-/

namespace LumoSQL

open Foundation List

/-! ### The functions -/

def allSpaces (z : Bytes) : Bool := z.all (· == 0x20)

/-- `binCollFunc`; `padFlag` is set for `RTRIM`. -/
def binCollFunc (padFlag : Bool) (pKey1 pKey2 : Bytes) : ℤ :=
  let n := min pKey1.length pKey2.length
  let rc := memcmp pKey1 pKey2
  if rc = 0 then
    if padFlag ∧ allSpaces (pKey1.drop n) ∧ allSpaces (pKey2.drop n) then 0
    else (pKey1.length : ℤ) - pKey2.length
  else rc

def upperToLower (c : UInt8) : UInt8 := if 65 ≤ c ∧ c ≤ 90 then c + 32 else c

/-- `sqlite3_strnicmp` over the shorter length; a zero in the first text ends the comparison. -/
def strnicmp : Bytes → Bytes → ℤ
  | a :: left, b :: right =>
    if a ≠ 0 ∧ upperToLower a = upperToLower b then strnicmp left right
    else ((upperToLower a).toNat : ℤ) - (upperToLower b).toNat
  | _, _ => 0

def nocaseCollatingFunc (pKey1 pKey2 : Bytes) : ℤ :=
  let r := strnicmp pKey1 pKey2
  if r = 0 then (pKey1.length : ℤ) - pKey2.length else r

/-- The collating sequences that are always there. -/
inductive Builtin
  | binary
  | nocase
  | rtrim
  deriving DecidableEq

def Builtin.xCmp : Builtin → Bytes → Bytes → ℤ
  | .binary => binCollFunc false
  | .nocase => nocaseCollatingFunc
  | .rtrim => binCollFunc true

/-- `sqlite3MemCompare` with a built-in collating sequence, which only the comparison of two texts
looks at. -/
def Builtin.memCompare (coll : Builtin) : Value → Value → ℤ
  | .text z1, .text z2 => coll.xCmp z1 z2
  | v, w => sqlite3MemCompare v w none

/-! ### `BINARY` -/

theorem binCollFunc_false (a b : Bytes) : binCollFunc false a b = compareBytes a b := by
  simp [binCollFunc, compareBytes]

variable {a b : Bytes} {c : UInt8} (x y : UInt8)

/-- Two strings have no difference over the shorter length if one starts with the other. -/
theorem memcmp_eq_zero : memcmp a b = 0 ↔ ∃ rest, b = a ++ rest ∨ a = b ++ rest := by
  induction a generalizing b with
  | nil => exact ⟨fun _ ↦ ⟨b, .inl rfl⟩, fun _ ↦ by simp [memcmp]⟩
  | cons x a ih =>
    cases b with
    | nil => exact ⟨fun _ ↦ ⟨x :: a, .inr rfl⟩, fun _ ↦ by simp [memcmp]⟩
    | cons y b =>
      rw [memcmp_cons]
      by_cases hxy : compareNumbers x.toNat y.toNat = 0
      · obtain rfl : x = y := by
          rwa [compareNumbers_eq_zero, Int.natCast_inj, UInt8.toNat_inj] at hxy
        rw [if_neg (not_not_intro hxy), ih]
        simp [List.cons.injEq]
      · rw [if_pos hxy]
        refine iff_of_false hxy ?_
        rintro ⟨rest, hrest | hrest⟩
        · rw [cons_append, List.cons.injEq] at hrest
          exact hxy (compareNumbers_eq_zero.mpr (by rw [hrest.1]))
        · rw [cons_append, List.cons.injEq] at hrest
          exact hxy (compareNumbers_eq_zero.mpr (by rw [hrest.1]))

/-! ### `RTRIM` -/

theorem allSpaces_append (a b : Bytes) :
    allSpaces (a ++ b) = true ↔ allSpaces a = true ∧ allSpaces b = true := by
  rw [allSpaces, all_append, Bool.and_eq_true]
  rfl

/-- Two texts are equal if one is the other with spaces at its end. -/
theorem rtrim_eq_zero : binCollFunc true a b = 0 ↔
    ∃ spaces, allSpaces spaces = true ∧ (b = a ++ spaces ∨ a = b ++ spaces) := by
  simp only [binCollFunc]
  constructor
  · intro hzero
    split_ifs at hzero with hprefix hspaces
    · obtain ⟨rest, rfl | rfl⟩ := memcmp_eq_zero.mp hprefix
      · refine ⟨rest, ?_, .inl rfl⟩
        have hdrop := hspaces.2.2
        rwa [length_append, Nat.min_eq_left (Nat.le_add_right _ _), drop_left] at hdrop
      · refine ⟨rest, ?_, .inr rfl⟩
        have hdrop := hspaces.2.1
        rwa [length_append, Nat.min_eq_right (Nat.le_add_right _ _), drop_left] at hdrop
    · obtain ⟨rest, rfl | rfl⟩ := memcmp_eq_zero.mp hprefix
      · rw [length_append] at hzero
        obtain rfl := eq_nil_of_length_eq_zero (show rest.length = 0 by omega)
        exact ⟨[], rfl, .inl rfl⟩
      · rw [length_append] at hzero
        obtain rfl := eq_nil_of_length_eq_zero (show rest.length = 0 by omega)
        exact ⟨[], rfl, .inr rfl⟩
    · exact absurd hzero hprefix
  · rintro ⟨spaces, hspaces, rfl | rfl⟩
    · rw [if_pos (memcmp_eq_zero.mpr ⟨spaces, .inl rfl⟩), if_pos]
      rw [length_append, Nat.min_eq_left (Nat.le_add_right _ _), drop_left, drop_length]
      exact ⟨trivial, rfl, hspaces⟩
    · rw [if_pos (memcmp_eq_zero.mpr ⟨spaces, .inr rfl⟩), if_pos]
      rw [length_append, Nat.min_eq_right (Nat.le_add_right _ _), drop_left, drop_length]
      exact ⟨trivial, hspaces, rfl⟩

theorem rtrim_symm : binCollFunc true a b = 0 ↔ binCollFunc true b a = 0 := by
  rw [rtrim_eq_zero, rtrim_eq_zero]
  exact exists_congr fun spaces ↦ and_congr_right fun _ ↦ or_comm

/-- Texts with a common start are equal if what is behind it is. -/
theorem rtrim_append (start a b : Bytes) :
    binCollFunc true (start ++ a) (start ++ b) = 0 ↔ binCollFunc true a b = 0 := by
  rw [rtrim_eq_zero, rtrim_eq_zero]
  refine exists_congr fun spaces ↦ and_congr_right fun _ ↦ ?_
  rw [append_assoc, append_assoc, append_cancel_left_eq, append_cancel_left_eq]

/-- A text is equal to none exactly if it is all spaces. -/
theorem rtrim_nil {b : Bytes} : binCollFunc true [] b = 0 ↔ allSpaces b = true := by
  rw [rtrim_eq_zero]
  constructor
  · rintro ⟨spaces, hspaces, hb | hb⟩
    · rwa [hb]
    · rw [(append_eq_nil_iff.mp hb.symm).1]
      rfl
  · exact fun hspaces ↦ ⟨b, hspaces, .inl rfl⟩

/-- A text is equal to itself with a space, but not less than all that is. -/
theorem rtrim_not_trans : ¬ TransOn (fun _ ↦ True) (binCollFunc true) := fun htrans ↦
  absurd (htrans [97, 1] [97, 32] [97] trivial trivial trivial (by decide) (by decide)) (by decide)

/-! ### `NOCASE` -/

theorem nocase_eq_zero : nocaseCollatingFunc a b = 0 ↔ strnicmp a b = 0 ∧ a.length = b.length := by
  simp only [nocaseCollatingFunc]
  split_ifs with hzero
  · rw [sub_eq_zero, Int.natCast_inj, and_iff_right hzero]
  · exact iff_of_false hzero fun hboth ↦ hzero hboth.1

theorem strnicmp_cons (a b : Bytes) : strnicmp (x :: a) (y :: b) =
    if x ≠ 0 ∧ upperToLower x = upperToLower y then strnicmp a b
    else ((upperToLower x).toNat : ℤ) - (upperToLower y).toNat := rfl

/-- Behind starts that are equal the rest is compared, unless a zero is in them. -/
theorem strnicmp_append {left right : Bytes} (hlength : left.length = right.length) (a b : Bytes) :
    strnicmp (left ++ a) (right ++ b) = 0 ↔
      strnicmp left right = 0 ∧ (0 ∈ left ∨ strnicmp a b = 0) := by
  induction left generalizing right with
  | nil =>
    obtain rfl := eq_nil_of_length_eq_zero hlength.symm
    simp [strnicmp]
  | cons x left ih =>
    obtain ⟨y, right, rfl⟩ := exists_cons_of_length_eq_add_one hlength.symm
    rw [cons_append, cons_append, strnicmp_cons, strnicmp_cons]
    split_ifs with hsame
    · rw [ih (Nat.succ_injective hlength), mem_cons, or_iff_right hsame.1.symm]
    · constructor
      · intro hzero
        refine ⟨hzero, .inl ?_⟩
        have hx : x = 0 := by
          by_contra hne
          exact hsame ⟨hne, UInt8.toNat_inj.mp (by omega)⟩
        rw [hx]
        exact .head _
      · exact fun hboth ↦ hboth.1

theorem upperToLower_ne_zero (hc : c ≠ 0) : (upperToLower c).toNat ≠ 0 := by
  have hpos : c.toNat ≠ 0 := fun hzero ↦ hc (UInt8.toNat_inj.mp hzero)
  unfold upperToLower
  split_ifs with hupper
  · have hlow : 65 ≤ c.toNat := hupper.1
    have hhigh : c.toNat ≤ 90 := hupper.2
    rw [UInt8.toNat_add]
    have hadd : (32 : UInt8).toNat = 32 := rfl
    omega
  · exact hpos

theorem upperToLower_eq_zero : upperToLower c = 0 ↔ c = 0 := by
  constructor
  · intro hzero
    by_contra hc
    exact upperToLower_ne_zero hc (congrArg UInt8.toNat hzero)
  · rintro rfl
    rfl

theorem nocase_nil_left (b : Bytes) : nocaseCollatingFunc [] b = -(b.length : ℤ) := by
  simp [nocaseCollatingFunc, strnicmp]

theorem nocase_nil_right (a : Bytes) : nocaseCollatingFunc a [] = a.length := by
  simp [nocaseCollatingFunc, strnicmp]

theorem nocase_cons (a b : Bytes) : nocaseCollatingFunc (x :: a) (y :: b) =
    if upperToLower x ≠ upperToLower y then ((upperToLower x).toNat : ℤ) - (upperToLower y).toNat
    else if x = 0 then (a.length : ℤ) - b.length else nocaseCollatingFunc a b := by
  have hstep := strnicmp_cons x y a b
  by_cases hsame : upperToLower x = upperToLower y
  · rw [if_neg (not_not_intro hsame)]
    by_cases hx : x = 0
    · rw [if_neg fun hboth ↦ hboth.1 hx, hsame, sub_self] at hstep
      simp only [nocaseCollatingFunc, hstep, if_pos hx, if_true, length_cons]
      omega
    · rw [if_pos ⟨hx, hsame⟩] at hstep
      simp only [nocaseCollatingFunc, hstep, if_neg hx, length_cons]
      split_ifs
      · omega
      · rfl
  · have hne : ((upperToLower x).toNat : ℤ) - (upperToLower y).toNat ≠ 0 := by
      intro hzero
      exact hsame (UInt8.toNat_inj.mp (by omega))
    rw [if_neg fun hboth ↦ hsame hboth.2] at hstep
    simp [nocaseCollatingFunc, hstep, if_neg hne, if_pos hsame]

theorem nocase_oriented : Oriented nocaseCollatingFunc := by
  intro a b
  induction a generalizing b with
  | nil =>
    rw [nocase_nil_left, nocase_nil_right]
    omega
  | cons x a ih =>
    cases b with
    | nil =>
      rw [nocase_nil_left, nocase_nil_right]
      omega
    | cons y b =>
      rw [nocase_cons, nocase_cons]
      by_cases hsame : upperToLower x = upperToLower y
      · have hzero : x = 0 ↔ y = 0 := by
          rw [← upperToLower_eq_zero, hsame, upperToLower_eq_zero]
        rw [if_neg (not_not_intro hsame), if_neg (not_not_intro hsame.symm)]
        by_cases hx : x = 0
        · rw [if_pos hx, if_pos (hzero.mp hx)]
          omega
        · rw [if_neg hx, if_neg (mt hzero.mpr hx)]
          exact ih b
      · rw [if_pos hsame, if_pos (Ne.symm hsame)]
        omega

theorem nocase_trans : TransOn (fun _ ↦ True) nocaseCollatingFunc := by
  intro a b c _ _ _ hab hbc
  induction a generalizing b c with
  | nil =>
    rw [nocase_nil_left]
    omega
  | cons x a ih =>
    cases b with
    | nil =>
      rw [nocase_nil_right, length_cons] at hab
      omega
    | cons y b =>
      cases c with
      | nil =>
        rw [nocase_nil_right, length_cons] at hbc
        omega
      | cons z c =>
        rw [nocase_cons] at hab hbc ⊢
        -- a byte that differs decides, and so does the common zero
        by_cases hxy : upperToLower x = upperToLower y
        · have hzero : x = 0 ↔ y = 0 := by
            rw [← upperToLower_eq_zero, hxy, upperToLower_eq_zero]
          rw [if_neg (not_not_intro hxy)] at hab
          by_cases hyz : upperToLower y = upperToLower z
          · rw [if_neg (not_not_intro hyz)] at hbc
            rw [if_neg (not_not_intro (hxy.trans hyz))]
            by_cases hx : x = 0
            · rw [if_pos hx] at hab ⊢
              rw [if_pos (hzero.mp hx)] at hbc
              omega
            · rw [if_neg hx] at hab ⊢
              rw [if_neg (mt hzero.mpr hx)] at hbc
              exact ih b c hab hbc
          · rw [if_pos hyz] at hbc
            rw [if_pos (by rw [hxy]; exact hyz), hxy]
            exact hbc
        · rw [if_pos hxy] at hab
          have hlt : (upperToLower x).toNat < (upperToLower y).toNat := by
            have hne := mt UInt8.toNat_inj.mp hxy
            omega
          have hle : (upperToLower y).toNat ≤ (upperToLower z).toNat := by
            by_cases hyz : upperToLower y = upperToLower z
            · rw [hyz]
            · rw [if_pos hyz] at hbc
              omega
          have hne : upperToLower x ≠ upperToLower z := fun heq ↦ by
            rw [heq] at hlt
            omega
          rw [if_pos hne]
          omega

/-- `NOCASE` meets the requirements on a collating sequence. -/
def CollSeq.nocase : CollSeq := ⟨nocaseCollatingFunc, nocase_oriented, nocase_trans⟩

end LumoSQL
