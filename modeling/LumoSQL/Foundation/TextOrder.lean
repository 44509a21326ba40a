import Mathlib

/-!
# Texts in the order of their characters

A text is a list of characters, and `compare` orders texts by the first character in which they
differ, a text before every longer one that begins with it. `compare_append_cases` says how two
texts can differ once something follows them: somewhere inside both, and then what follows does not
matter, or one begins with the other. For decimal numerals of one length the order of the texts is
the order of the numbers (`compare_numerals`); when one is longer, its leading digits decide
(`compare_numerals_of_lt`).
-/

namespace LumoSQL.Foundation

open List

abbrev Text := List Char

instance lawfulText : LawfulBEq Text := inferInstance

section

variable (p : Char → Prop) [DecidablePred p]

-- before the instance that tries every character there is
instance (priority := 2000) decideAll (s : Text) : Decidable (∀ c ∈ s, p c) := decidableBAll p s

instance (priority := 2000) decideAny (c : Option Char) : Decidable (∀ x ∈ c, p x) :=
  Option.decidableForallMem c

end

/-! ### Comparing what is followed by something -/

section

theorem compare_append_same {α : Type} [Ord α] [Std.ReflOrd α] (v r r' : List α) :
    compare (v ++ r) (v ++ r') = compare r r' := by
  induction v with
  | nil => rfl
  | cons c v ih =>
    have hself : compare c c = .eq := Std.ReflCmp.compare_self
    rw [List.cons_append, List.cons_append, List.compare_cons_cons, hself, ih, Ordering.eq_then]

variable {α : Type} [LinearOrder α]

/-- Two lists with different heads compare as the heads. -/
theorem compare_cons_of_ne {c d : α} (hne : c ≠ d) (r r' : List α) :
    compare (c :: r) (d :: r') = compare c d := by
  rw [List.compare_cons_cons]
  rcases lt_or_gt_of_ne hne with hlt | hgt
  · rw [compare_lt_iff_lt.mpr hlt]
    rfl
  · rw [compare_gt_iff_gt.mpr hgt]
    rfl

/-- Two lists are equal, or one begins with the other, or they differ whatever follows. -/
theorem compare_append_cases (v w : List α) :
    v = w ∨ (∃ l rest, w = v ++ l :: rest) ∨ (∃ l rest, v = w ++ l :: rest) ∨
      compare v w ≠ .eq ∧ ∀ r r', compare (v ++ r) (w ++ r') = compare v w := by
  induction v generalizing w with
  | nil =>
    cases w with
    | nil => exact .inl rfl
    | cons d w => exact .inr (.inl ⟨d, w, rfl⟩)
  | cons c v ih =>
    cases w with
    | nil => exact .inr (.inr (.inl ⟨c, v, rfl⟩))
    | cons d w =>
      by_cases hne : c = d
      · subst hne
        have hhead : compare c c = .eq := compare_eq_iff_eq.mpr rfl
        rcases ih w with heq | ⟨l, rest, hrest⟩ | ⟨l, rest, hrest⟩ | ⟨hneq, hdiffer⟩
        · exact .inl (by rw [heq])
        · exact .inr (.inl ⟨l, rest, by rw [hrest]; rfl⟩)
        · exact .inr (.inr (.inl ⟨l, rest, by rw [hrest]; rfl⟩))
        · refine .inr (.inr (.inr ⟨?_, fun r r' ↦ ?_⟩))
          · rwa [List.compare_cons_cons, hhead]
          · rw [List.cons_append, List.cons_append, List.compare_cons_cons, List.compare_cons_cons,
              hdiffer]
      · refine .inr (.inr (.inr ⟨?_, fun r r' ↦ ?_⟩))
        · rw [compare_cons_of_ne hne]
          exact fun heq ↦ hne (compare_eq_iff_eq.mp heq)
        · rw [cons_append, cons_append, compare_cons_of_ne hne, compare_cons_of_ne hne]

/-- Different lists of one length differ whatever follows. -/
theorem compare_append_of_length {v w : List α} (hlength : v.length = w.length) (hne : v ≠ w) :
    compare v w ≠ .eq ∧ ∀ r r', compare (v ++ r) (w ++ r') = compare v w := by
  rcases compare_append_cases v w with heq | ⟨l, rest, rfl⟩ | ⟨l, rest, rfl⟩ | hdiffer
  · exact absurd heq hne
  · simp at hlength
  · simp at hlength
  · exact hdiffer

/-- A list is before every longer one that begins with it. -/
theorem compare_append_self (v : List α) (l : α) (rest : List α) :
    compare v (v ++ l :: rest) = .lt := by
  have hsame := compare_append_same v [] (l :: rest)
  rw [append_nil] at hsame
  rw [hsame]
  rfl

/-- Lists that differ whatever follows do not begin with each other. -/
theorem not_append_of_differ {v w : List α}
    (hdiffer : ∀ r r', compare (v ++ r) (w ++ r') = compare v w) (l : α) (rest : List α) :
    w ≠ v ++ l :: rest := by
  rintro rfl
  have hlonger := hdiffer (l :: rest ++ [l]) []
  have hafter : compare (v ++ l :: rest ++ [l]) (v ++ l :: rest) = .gt :=
    Std.OrientedCmp.gt_iff_lt.mpr (compare_append_self _ l [])
  rw [compare_append_self, append_nil, ← append_assoc, hafter] at hlonger
  cases hlonger

end

/-! ### Decimal numerals -/

def decimal (digits : Text) : ℕ := Nat.ofDigitChars 10 digits 0

variable {c : Char} {p q : Text}

theorem isDigit_iff : c.isDigit = true ↔ 48 ≤ c.toNat ∧ c.toNat ≤ 57 := by
  simp [Char.isDigit, UInt32.le_iff_toNat_le, ← Char.toNat_val]

theorem isLower_iff : c.isLower = true ↔ 97 ≤ c.toNat ∧ c.toNat ≤ 122 := by
  simp [Char.isLower, UInt32.le_iff_toNat_le, ← Char.toNat_val]

theorem char_lt_iff {c d : Char} : c < d ↔ c.toNat < d.toNat := by
  exact UInt32.lt_iff_toNat_lt

theorem decimal_cons (c : Char) (digits : Text) :
    decimal (c :: digits) = 10 ^ digits.length * (c.toNat - 48) + decimal digits := by
  rw [decimal, Nat.ofDigitChars_cons, Nat.ofDigitChars_eq_ofDigitChars_zero, Nat.mul_zero, zero_add]
  rfl

theorem decimal_append (front back : Text) :
    decimal (front ++ back) = 10 ^ back.length * decimal front + decimal back := by
  rw [decimal, Nat.ofDigitChars_append, Nat.ofDigitChars_eq_ofDigitChars_zero]
  rfl

theorem decimal_lt {digits : Text} (hdigits : ∀ c ∈ digits, c.isDigit = true) :
    decimal digits < 10 ^ digits.length := by
  induction digits with
  | nil => decide
  | cons c digits ih =>
    obtain ⟨hc, hrest⟩ := forall_mem_cons.mp hdigits
    have hlt := ih hrest
    have hdigit := isDigit_iff.mp hc
    rw [decimal_cons, length_cons, pow_succ]
    have hle : 10 ^ digits.length * (c.toNat - 48) ≤ 10 ^ digits.length * 9 :=
      Nat.mul_le_mul_left _ (by omega)
    omega

/-- Numerals of one length are in the order of their numbers. -/
theorem compare_numerals (hp : ∀ c ∈ p, c.isDigit = true) (hq : ∀ c ∈ q, c.isDigit = true)
    (hlength : p.length = q.length) : compare p q = compare (decimal p) (decimal q) := by
  induction p generalizing q with
  | nil =>
    rw [length_eq_zero_iff.mp hlength.symm]
    rfl
  | cons c p ih =>
    cases q with
    | nil => cases hlength
    | cons d q =>
      obtain ⟨hc, hp'⟩ := forall_mem_cons.mp hp
      obtain ⟨hd, hq'⟩ := forall_mem_cons.mp hq
      have hlength' : p.length = q.length := Nat.succ.inj hlength
      have hplt := decimal_lt hp'
      have hqlt := decimal_lt hq'
      have hcdigit := isDigit_iff.mp hc
      have hddigit := isDigit_iff.mp hd
      by_cases hne : c = d
      · subst hne
        have hhead : compare c c = .eq := compare_eq_iff_eq.mpr rfl
        rw [List.compare_cons_cons, hhead, ih hp' hq' hlength', decimal_cons, decimal_cons,
          hlength']
        rcases lt_trichotomy (decimal p) (decimal q) with hlt | heq | hgt
        · rw [compare_lt_iff_lt.mpr hlt, compare_lt_iff_lt.mpr (by omega)]
          rfl
        · rw [heq, compare_eq_iff_eq.mpr rfl, compare_eq_iff_eq.mpr rfl]
          rfl
        · rw [compare_gt_iff_gt.mpr hgt, compare_gt_iff_gt.mpr (by omega)]
          rfl
      · rw [compare_cons_of_ne hne, decimal_cons, decimal_cons, hlength']
        rw [hlength'] at hplt
        rcases lt_or_gt_of_ne hne with hlt | hgt
        · have hdigits : c.toNat - 48 + 1 ≤ d.toNat - 48 := by
            have := char_lt_iff.mp hlt
            omega
          have hmul := Nat.mul_le_mul_left (10 ^ q.length) hdigits
          rw [mul_add] at hmul
          rw [compare_lt_iff_lt.mpr hlt, compare_lt_iff_lt.mpr (by omega)]
        · have hdigits : d.toNat - 48 + 1 ≤ c.toNat - 48 := by
            have := char_lt_iff.mp hgt
            omega
          have hmul := Nat.mul_le_mul_left (10 ^ q.length) hdigits
          rw [mul_add] at hmul
          rw [compare_gt_iff_gt.mpr hgt, compare_gt_iff_gt.mpr (by omega)]

/-- Before a digit and before a zero are the same for a character that is not a digit. -/
theorem compare_digit {c d : Char} (hc : c.isDigit = false) (hd : d.isDigit = true) :
    compare c d = compare c '0' := by
  have hc' : ¬ (48 ≤ c.toNat ∧ c.toNat ≤ 57) := fun h ↦ by
    rw [isDigit_iff.mpr h] at hc
    cases hc
  have hd' := isDigit_iff.mp hd
  have hzero : ('0' : Char).toNat = 48 := rfl
  by_cases hlt : c < d
  · rw [compare_lt_iff_lt.mpr hlt, compare_lt_iff_lt.mpr]
    rw [char_lt_iff] at hlt ⊢
    omega
  · have hne : c ≠ d := fun heq ↦ by
      rw [heq, hd] at hc
      cases hc
    have hgt : d < c := lt_of_le_of_ne (not_lt.mp hlt) (Ne.symm hne)
    rw [compare_gt_iff_gt.mpr hgt, compare_gt_iff_gt.mpr]
    rw [char_lt_iff] at hgt ⊢
    omega

/-- A shorter numeral compares as its number with the leading digits of the longer one; when they
are the same, the character after it decides. Assumes: that character is not a digit. -/
theorem compare_numerals_of_lt (hp : ∀ c ∈ p, c.isDigit = true) (hq : ∀ c ∈ q, c.isDigit = true)
    (hlength : p.length < q.length) (hc : c.isDigit = false) (r r' : Text) :
    compare (p ++ c :: r) (q ++ r') =
      (compare (decimal p) (decimal q / 10 ^ (q.length - p.length))).then (compare c '0') := by
  have hsplit : q.take p.length ++ q.drop p.length = q := take_append_drop _ _
  have hfront : ∀ c ∈ q.take p.length, c.isDigit = true := fun c hmem ↦ hq c (mem_of_mem_take hmem)
  have hback : ∀ c ∈ q.drop p.length, c.isDigit = true := fun c hmem ↦ hq c (mem_of_mem_drop hmem)
  have hbacklt := decimal_lt hback
  have hvalue := decimal_append (q.take p.length) (q.drop p.length)
  rw [length_drop] at hbacklt hvalue
  rw [hsplit] at hvalue
  have hquotient : decimal q / 10 ^ (q.length - p.length) = decimal (q.take p.length) := by
    rw [hvalue, Nat.mul_add_div (by positivity), Nat.div_eq_of_lt hbacklt, Nat.add_zero]
  rw [hquotient, ← compare_numerals hp hfront (by rw [length_take]; omega)]
  obtain ⟨d, rest, hd⟩ : ∃ d rest, q.drop p.length = d :: rest := by
    refine exists_cons_of_ne_nil fun hnil ↦ ?_
    have hle := drop_eq_nil_iff.mp hnil
    omega
  have hdigit : d.isDigit = true := hback d (by rw [hd]; exact .head _)
  have hne : c ≠ d := fun heq ↦ by
    rw [heq, hdigit] at hc
    cases hc
  have hq' : q ++ r' = q.take p.length ++ d :: (rest ++ r') := by
    conv_lhs => rw [← hsplit, hd]
    rw [append_assoc]
    rfl
  rw [hq']
  by_cases heq : p = q.take p.length
  · have hself : compare p p = .eq := Std.ReflCmp.compare_self
    rw [← heq, compare_append_same, compare_cons_of_ne hne, compare_digit hc hdigit, hself]
    rfl
  · obtain ⟨hneq, hdiffer⟩ := compare_append_of_length (by rw [length_take]; omega) heq
    rw [hdiffer]
    cases hcompare : compare p (q.take p.length) with
    | lt | gt => rfl
    | eq => exact absurd hcompare hneq

end LumoSQL.Foundation
