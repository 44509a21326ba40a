import Mathlib.Data.List.Basic
import Mathlib.Algebra.Order.Ring.Int

/-!
# Three-way comparisons

A three-way comparison gives a negative number, zero or a positive number. `Oriented` says that it
changes its sign with the order of its arguments, and `TransOn` that at most is transitive on the
values of a kind; a comparison with both is a linear preorder there, and `classOf` is the class of
the values that do not differ from one (`classOf_eq_iff`).

`lexCompare` compares two lists entry by entry, with a comparison for every place, until the first
difference or the end of one of the lists. It is oriented (`lexCompare_oriented`) and transitive on
lists of one length (`lexCompare_trans`) if the comparisons are, it finds no difference exactly when
there is none at any place (`lexCompare_eq_zero_iff`), and it goes over lists part by part
(`lexCompare_append`). A change of the entries keeps the order of two lists if it keeps their first
difference (`lexCompare_map_sign`).
-/

namespace LumoSQL.Foundation

open List Option

variable {α : Type*}

/-- The comparison changes its sign with the order of its arguments. -/
def Oriented (cmp : α → α → ℤ) : Prop := ∀ a b, cmp a b < 0 ↔ 0 < cmp b a

def TransOn (kind : α → Prop) (cmp : α → α → ℤ) : Prop :=
  ∀ a b c, kind a → kind b → kind c → cmp a b ≤ 0 → cmp b c ≤ 0 → cmp a c ≤ 0

section

variable {cmp : α → α → ℤ} {kind : α → Prop} {a b c : α}

theorem Oriented.self (horiented : Oriented cmp) (a : α) : cmp a a = 0 := by
  have hself := horiented a a
  omega

theorem Oriented.eq_zero_comm (horiented : Oriented cmp) (a b : α) : cmp a b = 0 ↔ cmp b a = 0 := by
  have hleft := horiented a b
  have hright := horiented b a
  omega

theorem Oriented.nonneg_iff (horiented : Oriented cmp) (a b : α) : 0 ≤ cmp a b ↔ cmp b a ≤ 0 := by
  have hleft := horiented a b
  omega

section

variable (htrans : TransOn kind cmp) (horiented : Oriented cmp) (ha : kind a) (hb : kind b)
  (hc : kind c)

include htrans horiented ha hb hc

theorem TransOn.lt_of_lt_of_le (hab : cmp a b < 0) (hbc : cmp b c ≤ 0) : cmp a c < 0 := by
  by_contra hac
  have hca := (horiented.nonneg_iff a c).mp (by omega)
  have hba := htrans b c a hb hc ha hbc hca
  have hflip := (horiented a b).mp hab
  omega

theorem TransOn.lt_of_le_of_lt (hab : cmp a b ≤ 0) (hbc : cmp b c < 0) : cmp a c < 0 := by
  by_contra hac
  have hca := (horiented.nonneg_iff a c).mp (by omega)
  have hcb := htrans c a b hc ha hb hca hab
  have hflip := (horiented b c).mp hbc
  omega

theorem TransOn.eq_zero (hab : cmp a b = 0) (hbc : cmp b c = 0) : cmp a c = 0 := by
  have hle := htrans a b c ha hb hc hab.le hbc.le
  have hge := htrans c b a hc hb ha ((horiented.eq_zero_comm b c).mp hbc).le
    ((horiented.eq_zero_comm a b).mp hab).le
  have hflip := (horiented.nonneg_iff a c).mpr hge
  omega

/-- Values that do not differ compare alike with every value. -/
theorem TransOn.congr_left (hab : cmp a b = 0) :
    (cmp a c < 0 ↔ cmp b c < 0) ∧ (cmp a c = 0 ↔ cmp b c = 0) := by
  have hba := (horiented.eq_zero_comm a b).mp hab
  refine ⟨⟨fun hac ↦ ?_, fun hbc ↦ ?_⟩, ⟨fun hac ↦ ?_, fun hbc ↦ ?_⟩⟩
  · exact htrans.lt_of_le_of_lt horiented hb ha hc hba.le hac
  · exact htrans.lt_of_le_of_lt horiented ha hb hc hab.le hbc
  · exact htrans.eq_zero horiented hb ha hc hba hac
  · exact htrans.eq_zero horiented ha hb hc hab hbc

end

def classOf (kind : α → Prop) (cmp : α → α → ℤ) (a : α) : Set α := {b | kind b ∧ cmp a b = 0}

theorem classOf_eq_iff (htrans : TransOn kind cmp) (horiented : Oriented cmp) (ha : kind a)
    (hb : kind b) : classOf kind cmp a = classOf kind cmp b ↔ cmp a b = 0 := by
  constructor
  · intro hclass
    have hmem : b ∈ classOf kind cmp b := ⟨hb, horiented.self b⟩
    rw [← hclass] at hmem
    exact hmem.2
  · intro hab
    ext c
    exact and_congr_right fun hc ↦ (htrans.congr_left horiented ha hb hc hab).2

end

/-! ### Lists, entry by entry -/

/-- The first difference of two lists from place `i` on, or zero if one ends before it. -/
def lexCompare (cmp : ℕ → α → α → ℤ) : ℕ → List α → List α → ℤ
  | i, a :: as, b :: bs => if cmp i a b ≠ 0 then cmp i a b else lexCompare cmp (i + 1) as bs
  | _, _, _ => 0

section

variable {cmp : ℕ → α → α → ℤ} {kind : ℕ → α → Prop}

def AllAt (kind : ℕ → α → Prop) (i : ℕ) (as : List α) : Prop :=
  ∀ j a, as[j]? = some a → kind (i + j) a

variable {as bs : List α} {i : ℕ}

theorem allAt_cons {a : α} {as : List α} :
    AllAt kind i (a :: as) ↔ kind i a ∧ AllAt kind (i + 1) as := by
  constructor
  · intro hall
    refine ⟨hall 0 a rfl, fun j b hb ↦ ?_⟩
    have hkind := hall (j + 1) b (by rw [getElem?_cons_succ]; exact hb)
    rwa [add_assoc, add_comm 1 j]
  · rintro ⟨hhead, htail⟩ j b hb
    cases j with
    | zero => exact (some.inj hb) ▸ hhead
    | succ j =>
      have hkind := htail j b (by rwa [getElem?_cons_succ] at hb)
      rwa [add_assoc, add_comm 1 j] at hkind

theorem lexCompare_cons (cmp : ℕ → α → α → ℤ) (i : ℕ) (a b : α) (as bs : List α) :
    lexCompare cmp i (a :: as) (b :: bs) =
      if cmp i a b ≠ 0 then cmp i a b else lexCompare cmp (i + 1) as bs := rfl

@[simp] theorem lexCompare_nil_left (cmp : ℕ → α → α → ℤ) (i : ℕ) (bs : List α) :
    lexCompare cmp i [] bs = 0 := by
  rfl

@[simp] theorem lexCompare_nil_right (cmp : ℕ → α → α → ℤ) (i : ℕ) (as : List α) :
    lexCompare cmp i as [] = 0 := by
  cases as <;> rfl

theorem lexCompare_oriented (horiented : ∀ i, Oriented (cmp i)) (i : ℕ) :
    Oriented (lexCompare cmp i) := by
  intro as bs
  induction as generalizing i bs with
  | nil => simp
  | cons a as ih =>
    cases bs with
    | nil => simp
    | cons b bs =>
      have hzero := (horiented i).eq_zero_comm a b
      rw [lexCompare_cons, lexCompare_cons]
      by_cases hab : cmp i a b = 0
      · rw [if_neg (not_not_intro hab), if_neg (not_not_intro (hzero.mp hab))]
        exact ih (i + 1) bs
      · rw [if_pos hab, if_pos (mt hzero.mpr hab)]
        exact horiented i a b

/-- Lists do not differ exactly when they do not differ at any place that both have. -/
theorem lexCompare_eq_zero_iff : lexCompare cmp i as bs = 0 ↔
    ∀ j a b, as[j]? = some a → bs[j]? = some b → cmp (i + j) a b = 0 := by
  induction as generalizing i bs with
  | nil => simp
  | cons a as ih =>
    cases bs with
    | nil => simp
    | cons b bs =>
      rw [lexCompare_cons]
      by_cases hab : cmp i a b = 0
      · rw [if_neg (not_not_intro hab), ih]
        constructor
        · intro hrest j x y hx hy
          cases j with
          | zero =>
            rwa [← some.inj hx, ← some.inj hy]
          | succ j =>
            have hzero := hrest j x y (by rwa [getElem?_cons_succ] at hx)
              (by rwa [getElem?_cons_succ] at hy)
            rwa [add_assoc, add_comm 1 j] at hzero
        · intro hall j x y hx hy
          have hzero := hall (j + 1) x y (by rwa [getElem?_cons_succ]) (by rwa [getElem?_cons_succ])
          rwa [add_assoc, add_comm 1 j]
      · rw [if_pos hab]
        exact ⟨fun hzero ↦ absurd hzero hab, fun hall ↦ absurd (hall 0 a b rfl rfl) hab⟩

/-- Lists with beginnings of one length are compared by these and then by what follows. -/
theorem lexCompare_append (cmp : ℕ → α → α → ℤ) (hlength : as.length = bs.length) (cs ds : List α) :
    lexCompare cmp i (as ++ cs) (bs ++ ds) =
      if lexCompare cmp i as bs ≠ 0 then lexCompare cmp i as bs
      else lexCompare cmp (i + as.length) cs ds := by
  induction as generalizing i bs with
  | nil =>
    obtain rfl : bs = [] := length_eq_zero_iff.mp hlength.symm
    simp
  | cons a as ih =>
    cases bs with
    | nil => cases hlength
    | cons b bs =>
      rw [cons_append, cons_append, lexCompare_cons, lexCompare_cons,
        ih (Nat.succ.inj hlength), length_cons, Nat.add_right_comm, ← Nat.add_assoc]
      by_cases hab : cmp i a b = 0
      · rw [if_neg (not_not_intro hab), if_neg (not_not_intro hab)]
      · rw [if_pos hab, if_pos hab, if_pos hab]

theorem lexCompare_snoc (cmp : ℕ → α → α → ℤ) (hlength : as.length = bs.length) (a b : α) :
    lexCompare cmp i (as ++ [a]) (bs ++ [b]) =
      if lexCompare cmp i as bs ≠ 0 then lexCompare cmp i as bs else cmp (i + as.length) a b := by
  rw [lexCompare_append cmp hlength, lexCompare_cons, lexCompare_nil_left]
  by_cases hab : cmp (i + as.length) a b = 0
  · rw [if_neg (not_not_intro hab), hab]
  · rw [if_pos hab]

/-- What one list has more than the other is not looked at. -/
theorem lexCompare_longer (cmp : ℕ → α → α → ℤ) (hle : as.length ≤ bs.length) (cs : List α) :
    lexCompare cmp i as (bs ++ cs) = lexCompare cmp i as bs := by
  induction as generalizing i bs with
  | nil => simp
  | cons a as ih =>
    cases bs with
    | nil => cases hle
    | cons b bs =>
      rw [cons_append, lexCompare_cons, lexCompare_cons, ih (Nat.le_of_succ_le_succ hle)]

theorem lexCompare_shorter (cmp : ℕ → α → α → ℤ) (hle : bs.length ≤ as.length) (cs : List α) :
    lexCompare cmp i (as ++ cs) bs = lexCompare cmp i as bs := by
  induction as generalizing i bs with
  | nil =>
    obtain rfl : bs = [] := length_eq_zero_iff.mp (Nat.le_zero.mp hle)
    simp
  | cons a as ih =>
    cases bs with
    | nil => simp
    | cons b bs =>
      rw [cons_append, lexCompare_cons, lexCompare_cons, ih (Nat.le_of_succ_le_succ hle)]

/-- The entries at the first difference of two lists, if there is one, are related. -/
def DiffersAt (cmp : ℕ → α → α → ℤ) (related : α → α → Prop) : ℕ → List α → List α → Prop
  | i, a :: as, b :: bs =>
    (cmp i a b ≠ 0 → related a b) ∧ (cmp i a b = 0 → DiffersAt cmp related (i + 1) as bs)
  | _, _, _ => True

/-- A change of all entries keeps the order of lists if it makes no difference and keeps the first
one. -/
theorem lexCompare_map_sign {f : α → α} {related : α → α → Prop}
    (hsame : ∀ i a b, cmp i a b = 0 → cmp i (f a) (f b) = 0)
    (hkept : ∀ i a b, related a b → (cmp i (f a) (f b)).sign = (cmp i a b).sign)
    (hfirst : DiffersAt cmp related i as bs) :
    (lexCompare cmp i (as.map f) (bs.map f)).sign = (lexCompare cmp i as bs).sign := by
  induction as generalizing i bs with
  | nil => simp
  | cons a as ih =>
    cases bs with
    | nil => simp
    | cons b bs =>
      rw [map_cons, map_cons, lexCompare_cons, lexCompare_cons]
      by_cases hab : cmp i a b = 0
      · rw [if_neg (not_not_intro hab), if_neg (not_not_intro (hsame i a b hab))]
        exact ih (hfirst.2 hab)
      · have hsign := hkept i a b (hfirst.1 hab)
        have hdiffers : cmp i (f a) (f b) ≠ 0 := fun hzero ↦ by
          rw [hzero, Int.sign_zero] at hsign
          exact hab (Int.sign_eq_zero_iff_zero.mp hsign.symm)
        rwa [if_pos hab, if_pos hdiffers]

/-- The comparison of lists of one length is transitive where those of the entries are. -/
theorem lexCompare_trans (horiented : ∀ i, Oriented (cmp i))
    (htrans : ∀ i, TransOn (kind i) (cmp i)) (n i : ℕ) :
    TransOn (fun as ↦ as.length = n ∧ AllAt kind i as) (lexCompare cmp i) := by
  intro as bs cs has hbs hcs hab hbc
  induction as generalizing i bs cs n with
  | nil => simp
  | cons a as ih =>
    obtain ⟨b, bs, rfl⟩ := exists_cons_of_length_pos (l := bs)
      (by rw [hbs.1, ← has.1]; exact Nat.succ_pos _)
    obtain ⟨c, cs, rfl⟩ := exists_cons_of_length_pos (l := cs)
      (by rw [hcs.1, ← has.1]; exact Nat.succ_pos _)
    obtain ⟨ha, has'⟩ := allAt_cons.mp has.2
    obtain ⟨hb, hbs'⟩ := allAt_cons.mp hbs.2
    obtain ⟨hc, hcs'⟩ := allAt_cons.mp hcs.2
    rw [lexCompare_cons] at hab hbc ⊢
    by_cases hzero : cmp i a b = 0
    · rw [if_neg (not_not_intro hzero)] at hab
      obtain ⟨hlt, heq⟩ := (htrans i).congr_left (horiented i) ha hb hc hzero
      by_cases hzero' : cmp i b c = 0
      · rw [if_neg (not_not_intro hzero')] at hbc
        rw [if_neg (not_not_intro (heq.mpr hzero'))]
        exact ih as.length (i + 1) bs cs ⟨rfl, has'⟩ ⟨Nat.succ.inj (hbs.1.trans has.1.symm), hbs'⟩
          ⟨Nat.succ.inj (hcs.1.trans has.1.symm), hcs'⟩ hab hbc
      · rw [if_pos hzero'] at hbc
        have hac := hlt.mpr (by omega)
        rw [if_pos (by omega)]
        exact hac.le
    · rw [if_pos hzero] at hab
      have hle : cmp i b c ≤ 0 := by
        split_ifs at hbc with hzero'
        · exact hbc
        · exact (not_not.mp hzero').le
      have hac := (htrans i).lt_of_lt_of_le (horiented i) ha hb hc (by omega) hle
      rw [if_pos (by omega)]
      exact hac.le

end

end LumoSQL.Foundation
