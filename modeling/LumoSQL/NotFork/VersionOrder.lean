import LumoSQL.NotFork.Version

/-!
# The order of the version texts

What `_convert_version` makes of a version is the text of its runs with the letter of its suffix at
the end (`convertVersion_eq`). Two such texts are compared at the first different runs: words and
what follows them in `compare_words`, numbers in `compare_number`, runs of different kinds in
`compare_kinds`. `orderTold_iff` puts them together, and `version_order_iff` is the result about
the versions of a repository.
-/

namespace LumoSQL.NotFork

open Foundation List Option

/-! ### The runs of a text -/

namespace Run

def Valid : Run → Prop
  | .number _ => True
  | .word w => w ≠ [] ∧ ∀ c ∈ w, c.isLower = true
  | .separator c => c.isDigit = false ∧ c.isLower = false

def Apart : Run → Run → Prop
  | .number _, .number _ => False
  | .word _, .word _ => False
  | _, _ => True

end Run

def Cut : List Run → Prop
  | [] => True
  | x :: xs => x.Valid ∧ (∀ y ∈ xs.head?, x.Apart y) ∧ Cut xs

variable {c : Char} {m n : ℕ} {r : Text} {w : Text} {x y : Run} {xs ys : List Run} (version : Text)
  (s : Text)

theorem not_isLower_of_isDigit (hdigit : c.isDigit = true) : c.isLower = false := by
  by_contra hlower
  rw [Bool.not_eq_false] at hlower
  have hd := isDigit_iff.mp hdigit
  have hl := isLower_iff.mp hlower
  omega

/-- The runs that a character ends, and the one it leaves open. -/
def closes (opened : Option Run) (c : Char) : List Run × Option Run :=
  if c.isDigit then
    match opened with
    | some (.number n) => ([], some (.number (10 * n + (c.toNat - 48))))
    | opened => (opened.toList, some (.number (c.toNat - 48)))
  else if c.isLower then
    match opened with
    | some (.word w) => ([], some (.word (w ++ [c])))
    | opened => (opened.toList, some (.word [c]))
  else (opened.toList ++ [.separator c], none)

theorem runsFrom_cons (opened : Option Run) (c : Char) (rest : Text) :
    runsFrom opened (c :: rest) = (closes opened c).1 ++ runsFrom (closes opened c).2 rest := by
  unfold closes
  split_ifs with hdigit hlower
  · rcases opened with - | n | w | d <;> simp [runsFrom, hdigit]
  · rcases opened with - | n | w | d <;> simp [runsFrom, hdigit, hlower]
  · cases opened <;> simp [runsFrom, hdigit, hlower]

/-- A character goes on with the run that is open, or begins one of another kind, or is a
separator. -/
theorem closes_cases (opened : Option Run) (c : Char) :
    (∃ x y, opened = some x ∧ closes opened c = ([], some y) ∧ (∀ z : Run, z.Apart x → z.Apart y) ∧
        (x.Valid → y.Valid)) ∨
      (∃ y, closes opened c = (opened.toList, some y) ∧ y.Valid ∧ ∀ x ∈ opened, x.Apart y) ∨
      closes opened c = (opened.toList ++ [.separator c], none) ∧ (Run.separator c).Valid := by
  unfold closes
  split_ifs with hdigit hlower
  · rcases opened with - | n | w | d
    · exact .inr (.inl ⟨_, rfl, trivial, by simp⟩)
    · exact .inl ⟨_, _, rfl, rfl, fun z hz ↦ by cases z <;> exact hz, fun _ ↦ trivial⟩
    · exact .inr (.inl ⟨_, rfl, trivial, by simp [Run.Apart]⟩)
    · exact .inr (.inl ⟨_, rfl, trivial, by simp [Run.Apart]⟩)
  · have hword : (Run.word [c]).Valid := ⟨by simp, by simpa using hlower⟩
    rcases opened with - | n | w | d
    · exact .inr (.inl ⟨_, rfl, hword, by simp⟩)
    · exact .inr (.inl ⟨_, rfl, hword, by simp [Run.Apart]⟩)
    · refine .inl ⟨_, _, rfl, rfl, fun z hz ↦ by cases z <;> exact hz, fun hvalid ↦ ⟨by simp, ?_⟩⟩
      exact forall_mem_append.mpr ⟨hvalid.2, hword.2⟩
    · exact .inr (.inl ⟨_, rfl, hword, by simp [Run.Apart]⟩)
  · exact .inr (.inr ⟨rfl, Bool.not_eq_true _ ▸ hdigit, Bool.not_eq_true _ ▸ hlower⟩)

/-- The runs begin with one of the kind that was open. -/
theorem runsFrom_head (x : Run) :
    ∃ y tail, runsFrom (some x) s = y :: tail ∧ ∀ z : Run, z.Apart x → z.Apart y := by
  induction s generalizing x with
  | nil => exact ⟨x, [], rfl, fun z hz ↦ hz⟩
  | cons c rest ih =>
    rw [runsFrom_cons]
    rcases closes_cases (some x) c with ⟨_, y, ⟨⟩, hcloses, hkind, -⟩ | ⟨y, hcloses, -⟩ |
      ⟨hcloses, -⟩
    · obtain ⟨z, tail, hhead, hthen⟩ := ih y
      exact ⟨z, tail, by rw [hcloses, hhead, nil_append], fun v hv ↦ hthen v (hkind v hv)⟩
    · exact ⟨x, _, by rw [hcloses]; rfl, fun z hz ↦ hz⟩
    · exact ⟨x, _, by rw [hcloses]; rfl, fun z hz ↦ hz⟩

theorem runsFrom_cut {opened : Option Run} (hopened : ∀ x ∈ opened, x.Valid) :
    Cut (runsFrom opened s) := by
  induction s generalizing opened with
  | nil =>
    cases opened with
    | none => trivial
    | some x => exact ⟨hopened x rfl, by simp, trivial⟩
  | cons c rest ih =>
    rw [runsFrom_cons]
    rcases closes_cases opened c with ⟨x, y, rfl, hcloses, -, hvalid⟩ |
      ⟨y, hcloses, hvalid, hapart⟩ | ⟨hcloses, hvalid⟩
    · rw [hcloses]
      exact ih (by simpa using hvalid (hopened x rfl))
    · have hrest : Cut (runsFrom (some y) rest) := ih (by simpa using hvalid)
      rw [hcloses]
      cases opened with
      | none => exact hrest
      | some x =>
        obtain ⟨z, tail, hhead, hthen⟩ := runsFrom_head rest y
        refine ⟨hopened x rfl, ?_, hrest⟩
        simpa [hhead] using hthen x (hapart x rfl)
    · have hrest : Cut (.separator c :: runsFrom none rest) :=
        ⟨hvalid, fun y _ ↦ by cases y <;> exact trivial, ih (by simp)⟩
      rw [hcloses]
      cases opened with
      | none => exact hrest
      | some x => exact ⟨hopened x rfl, by cases x <;> simp [Run.Apart], hrest⟩

theorem versionRuns_cut : Cut (versionRuns version) := runsFrom_cut _ (by simp)

theorem decimal_append_digit (digits : Text) (c : Char) :
    decimal (digits ++ [c]) = 10 * decimal digits + (c.toNat - 48) := by
  rw [decimal_append, decimal_cons]
  simp [decimal]

theorem fillNumbers_eq : fillNumbers [] s = (runsFrom none s).flatMap Run.printed ∧
      (∀ digits, digits ≠ [] → fillNumbers digits s
        = (runsFrom (some (.number (decimal digits))) s).flatMap Run.printed) ∧
      ∀ w, w ++ fillNumbers [] s = (runsFrom (some (.word w)) s).flatMap Run.printed := by
  induction s with
  | nil =>
    refine ⟨rfl, fun digits hne ↦ ?_, fun w ↦ ?_⟩
    · simp [fillNumbers, hne, runsFrom, Run.printed]
    · simp [fillNumbers, runsFrom, Run.printed]
  | cons c rest ih =>
    obtain ⟨hnone, hnumber, hword⟩ := ih
    by_cases hdigit : c.isDigit = true
    · have hsingle := hnumber [c] (by simp)
      have hvalue : decimal [c] = c.toNat - 48 := by
        rw [decimal_cons, decimal, Nat.ofDigitChars_nil, length_nil, pow_zero, Nat.one_mul,
          add_zero]
      rw [hvalue] at hsingle
      simp only [fillNumbers, runsFrom, if_pos hdigit, nil_append, toList_none, toList_some]
      refine ⟨hsingle, fun digits hne ↦ ?_, fun w ↦ ?_⟩
      · rw [hnumber _ (by simp), decimal_append_digit]
      · rw [flatMap_append, hsingle]
        simp [Run.printed]
    · by_cases hlow : c.isLower = true
      · have hsingle := hword [c]
        simp only [fillNumbers, runsFrom, if_neg hdigit, if_pos hlow, nil_append,
          toList_none, toList_some]
        refine ⟨hsingle, fun digits hne ↦ ?_, fun w ↦ ?_⟩
        · rw [flatMap_append, ← hsingle, if_neg hne]
          simp [Run.printed]
        · rw [← hword]
          simp
      · simp only [fillNumbers, runsFrom, if_neg hdigit, if_neg hlow, nil_append,
          toList_none, toList_some]
        refine ⟨?_, fun digits hne ↦ ?_, fun w ↦ ?_⟩
        · simp [Run.printed, hnone]
        · simp [Run.printed, hnone, hne]
        · simp [Run.printed, hnone]

theorem convertVersion_eq :
    convertVersion version = key (versionRuns version) (splitStage version).2 := by
  rw [convertVersion, key, versionRuns, runs, (fillNumbers_eq _).1]

/-! ### The first character -/

theorem key_cons (x : Run) (xs : List Run) (s : Stage) :
    key (x :: xs) s = x.printed ++ key xs s := by
  rw [key, key, flatMap_cons, append_assoc]

theorem append_key_ne_nil (r : Text) (xs : List Run) (s : Stage) : r ++ key xs s ≠ [] := by
  simp [key]

theorem fill_spec (size n : ℕ) :
    (∀ c ∈ fill size n, c.isDigit = true) ∧ (fill size n).length = width size n ∧
      decimal (fill size n) = n := by
  refine ⟨fun c hmem ↦ ?_, length_leftpad, ?_⟩
  · rw [fill, List.leftpad, mem_append] at hmem
    rcases hmem with hzero | hdigit
    · rw [eq_of_mem_replicate hzero]
      rfl
    · exact Nat.isDigit_of_mem_toDigits (by decide) (by decide) hdigit
  · rw [fill, List.leftpad, decimal, Nat.ofDigitChars_append, Nat.ofDigitChars_replicate_zero,
      Nat.mul_zero, Nat.ofDigitChars_ten_toDigits]

theorem fill_cons (n : ℕ) : ∃ c r, fill 15 n = c :: r ∧ c.isDigit = true := by
  obtain ⟨hdigits, hlength, -⟩ := fill_spec 15 n
  obtain ⟨c, r, hc⟩ : ∃ c r, fill 15 n = c :: r := by
    refine exists_cons_of_ne_nil fun hnil ↦ ?_
    rw [hnil, width, length_nil] at hlength
    omega
  exact ⟨c, r, hc, hdigits c (by rw [hc]; exact .head _)⟩

/-- The text of a run is not empty; it begins with `first`, a number with some digit, and one that
is printed as a negative number with a sign. -/
theorem printed_head {x : Run} (hvalid : x.Valid) :
    ∃ c r, x.printed = c :: r ∧ (c = x.first ∨ (∃ n, x = .number n ∧
      (n < 2 ^ 63 ∧ c.isDigit = true ∨ 2 ^ 63 ≤ n ∧ c = '-'))) := by
  cases x with
  | number n =>
    by_cases hsmall : n < 2 ^ 63
    · obtain ⟨c, r, hc, hdigit⟩ := fill_cons n
      exact ⟨c, r, by rw [Run.printed, sprintf015d, if_pos hsmall, hc],
        .inr ⟨n, rfl, .inl ⟨hsmall, hdigit⟩⟩⟩
    · have hprinted : (Run.number n).printed = sprintf015d n := rfl
      rw [sprintf015d, if_neg hsmall] at hprinted
      exact ⟨'-', _, hprinted, .inr ⟨n, rfl, .inr ⟨Nat.le_of_not_lt hsmall, rfl⟩⟩⟩
  | word w =>
    obtain ⟨c, r, hw⟩ := exists_cons_of_ne_nil hvalid.1
    exact ⟨c, r, hw, .inl (by rw [Run.first, hw]; rfl)⟩
  | separator c => exact ⟨c, [], rfl, .inl rfl⟩

/-- For a letter of the alphabet it is the same whether a run begins with the character or with
`first`. -/
theorem letter_le_printed {x : Run} {c l : Char} (hc : c = x.first ∨ (∃ n, x = .number n ∧
      (n < 2 ^ 63 ∧ c.isDigit = true ∨ 2 ^ 63 ≤ n ∧ c = '-'))) (hl : l.isLower = true) :
    (l ≤ c ↔ l ≤ x.first) ∧ (c ≤ l ↔ x.first ≤ l) := by
  rcases hc with rfl | ⟨n, rfl, hnumber⟩
  · exact ⟨Iff.rfl, Iff.rfl⟩
  · have hlower := isLower_iff.mp hl
    have hc : c.toNat ≤ 57 := by
      rcases hnumber with ⟨-, hdigit⟩ | ⟨-, rfl⟩
      · exact (isDigit_iff.mp hdigit).2
      · decide
    have hzero : (Run.number n).first.toNat = 48 := rfl
    have hclt : c < l := char_lt_iff.mpr (by omega)
    have hfirstlt : (Run.number n).first < l := char_lt_iff.mpr (by omega)
    exact ⟨⟨fun hle ↦ absurd hclt (not_lt.mpr hle), fun hle ↦ absurd hfirstlt (not_lt.mpr hle)⟩,
      ⟨fun _ ↦ hfirstlt.le, fun _ ↦ hclt.le⟩⟩

/-! ### A version that ends where another goes on -/

/-- Two texts are in order if the heads are and what follows is. -/
theorem compare_cons_lt_iff {c d : Char} {r r' : Text} (hrest : compare r r' = .lt) :
    compare (c :: r) (d :: r') = .lt ↔ c ≤ d := by
  rw [List.compare_cons_cons, hrest]
  rcases lt_trichotomy c d with hlt | heq | hgt
  · rw [compare_lt_iff_lt.mpr hlt]
    exact ⟨fun _ ↦ hlt.le, fun _ ↦ rfl⟩
  · rw [compare_eq_iff_eq.mpr heq]
    exact ⟨fun _ ↦ heq.le, fun _ ↦ rfl⟩
  · rw [compare_gt_iff_gt.mpr hgt]
    exact ⟨nofun, fun hle ↦ absurd hgt (not_lt.mpr hle)⟩

theorem compare_nil_lt (hne : r ≠ []) : compare [] r = .lt := by
  obtain ⟨c, r', rfl⟩ := exists_cons_of_ne_nil hne
  rfl

theorem letter_isLower (s : Stage) : s.letter.isLower = true := by
  cases s <;> rfl

/-- A version that has ended is before one that goes on exactly if its letter is not after the
character there. -/
theorem compare_ended {y : Run} (hvalid : y.Valid) (s : Stage) (ys : List Run) (t : Stage) :
    compare (key [] s) (key (y :: ys) t) = .lt ↔ s.letter ≤ y.first := by
  obtain ⟨c, r, hprinted, hc⟩ := printed_head hvalid
  rw [key_cons, hprinted, cons_append]
  exact (compare_cons_lt_iff (compare_nil_lt (append_key_ne_nil r ys t))).trans
    (letter_le_printed hc (letter_isLower s)).1

/-! ### Two words -/

theorem after_not_lower {xs : List Run} (hcut : Cut (.word w :: xs)) (s : Stage) :
    xs = [] ∨ (after xs s).isLower = false := by
  cases xs with
  | nil => exact .inl rfl
  | cons x xs =>
    refine .inr ?_
    have hapart := hcut.2.1 x rfl
    cases x with
    | number n => rfl
    | word v => exact hapart.elim
    | separator c => exact hcut.2.2.1.2

/-- What follows a word is before the rest of a longer one exactly if the character after it is. -/
theorem compare_word_rest {xs : List Run} (hcut : Cut (.word w :: xs)) (s : Stage) {l : Char}
    (hl : l.isLower = true) {rest : Text} (hrest : rest ≠ []) :
    compare (key xs s) (l :: rest) = .lt ↔ after xs s ≤ l := by
  cases xs with
  | nil => exact compare_cons_lt_iff (compare_nil_lt hrest)
  | cons x xs =>
    have hafter := (after_not_lower hcut s).resolve_left (cons_ne_nil x xs)
    obtain ⟨c, r, hprinted, hc⟩ := printed_head hcut.2.2.1
    have hle := (letter_le_printed hc hl).2
    have hne : c ≠ l := by
      rintro rfl
      have hsame : x.first = c := le_antisymm (hle.mp le_rfl)
        ((letter_le_printed hc hl).1.mp le_rfl)
      have hfirst : (after (x :: xs) s).isLower = true := by
        change x.first.isLower = true
        rwa [hsame]
      rw [hafter] at hfirst
      cases hfirst
    rw [key_cons, hprinted, cons_append, compare_cons_of_ne hne, compare_lt_iff_lt]
    exact (lt_iff_le_and_ne.trans (and_iff_left hne)).trans hle

theorem wordTold_longer (w : Text) (l : Char) (rest : Text) (c d : Char) :
    WordTold w c (w ++ l :: rest) ∧ WordTold (w ++ l :: rest) d w ↔ c ≤ l := by
  refine ⟨fun htold ↦ htold.1 l rest rfl,
    fun hle ↦ ⟨fun l' rest' hsame ↦ ?_, fun l' rest' hsame ↦ ?_⟩⟩
  · obtain ⟨rfl, -⟩ := cons.inj (append_cancel_left hsame)
    exact hle
  · have hlength := congrArg List.length hsame
    simp only [length_append, length_cons] at hlength
    omega

/-- Different words and what follows them are in the order of the words exactly if `WordTold` says
so. -/
theorem compare_words {v w : Text} (hx : Cut (.word v :: xs)) (hy : Cut (.word w :: ys))
    (hne : v ≠ w) (s t : Stage) : compare (v ++ key xs s) (w ++ key ys t) = compare v w ↔
      WordTold v (after xs s) w ∧ WordTold w (after ys t) v := by
  rcases compare_append_cases v w with heq | ⟨l, rest, rfl⟩ | ⟨l, rest, rfl⟩ | ⟨hneq, hdiffer⟩
  · exact absurd heq hne
  · rw [compare_append_self, append_assoc, compare_append_same, cons_append,
      compare_word_rest hx s (hy.1.2 l (by simp)) (append_key_ne_nil rest ys t), wordTold_longer]
  · rw [Std.OrientedCmp.gt_iff_lt.mpr (compare_append_self w l rest), Std.OrientedCmp.gt_iff_lt,
      append_assoc, compare_append_same, cons_append,
      compare_word_rest hy t (hx.1.2 l (by simp)) (append_key_ne_nil rest xs s), and_comm,
      wordTold_longer]
  · rw [hdiffer]
    refine ⟨fun _ ↦ ⟨fun l rest hsame ↦ ?_, fun l rest hsame ↦ ?_⟩, fun _ ↦ rfl⟩
    · exact absurd hsame (not_append_of_differ hdiffer l rest)
    · refine absurd hsame (not_append_of_differ (fun r r' ↦ ?_) l rest)
      have hswap := congrArg Ordering.swap (hdiffer r' r)
      rwa [← Std.OrientedCmp.eq_swap, ← Std.OrientedCmp.eq_swap] at hswap

/-! ### Two numbers -/

theorem width_le (size : ℕ) (hle : m ≤ n) : width size m ≤ width size n := by
  have hlength : (Nat.toDigits 10 m).length ≤ (Nat.toDigits 10 n).length := by
    rw [Nat.length_toDigits_le_iff (by decide) Nat.length_toDigits_pos]
    refine lt_of_le_of_lt hle ?_
    rw [← Nat.length_toDigits_le_iff (by decide) Nat.length_toDigits_pos]
  unfold width
  omega

theorem after_not_digit {m : ℕ} {xs : List Run} (hcut : Cut (.number m :: xs)) (s : Stage) :
    (after xs s).isDigit = false := by
  cases xs with
  | nil => cases s <;> rfl
  | cons x xs =>
    have hapart := hcut.2.1 x rfl
    have hvalid := hcut.2.2.1
    cases x with
    | number n => exact hapart.elim
    | word w =>
      obtain ⟨c, r, rfl⟩ := exists_cons_of_ne_nil hvalid.1
      have hlower := hvalid.2 c (.head _)
      change c.isDigit = false
      by_contra hdigit
      rw [Bool.not_eq_false] at hdigit
      rw [not_isLower_of_isDigit hdigit] at hlower
      cases hlower
    | separator c => exact hvalid.1

theorem key_after {m : ℕ} {xs : List Run} (hcut : Cut (.number m :: xs)) (s : Stage) :
    ∃ r, key xs s = after xs s :: r := by
  cases xs with
  | nil => exact ⟨[], rfl⟩
  | cons x xs =>
    obtain ⟨c, r, hprinted, hc⟩ := printed_head hcut.2.2.1
    refine ⟨r ++ key xs s, ?_⟩
    rw [key_cons, hprinted, cons_append]
    rcases hc with rfl | ⟨n, rfl, -⟩
    · rfl
    · exact (hcut.2.1 _ rfl).elim

/-- The texts of two numbers with what follows them are in order if `NumberTold` says so, and in the
other order if not. -/
theorem compare_number {k m n : ℕ} {xs : List Run} (hx : Cut (.number k :: xs)) (hlt : m < n)
    (size : ℕ) (s : Stage) (r : Text) :
    (compare (fill size m ++ key xs s) (fill size n ++ r) = .lt ∧
        NumberTold size m (after xs s) n) ∨
      (compare (fill size m ++ key xs s) (fill size n ++ r) = .gt ∧
        ¬ NumberTold size m (after xs s) n) := by
  obtain ⟨hmdigits, hmlength, hmvalue⟩ := fill_spec size m
  obtain ⟨hndigits, hnlength, hnvalue⟩ := fill_spec size n
  have hnotDigit := after_not_digit hx s
  obtain ⟨tail, htail⟩ := key_after hx s
  unfold NumberTold
  rcases lt_or_eq_of_le (width_le size hlt.le) with hwidth | hwidth
  · rw [htail, compare_numerals_of_lt hmdigits hndigits (by omega) hnotDigit, hmvalue, hnvalue,
      hmlength, hnlength]
    rcases lt_trichotomy m (n / 10 ^ (width size n - width size m)) with hless | hsame | hmore
    · rw [compare_lt_iff_lt.mpr hless]
      exact .inl ⟨rfl, .inl hless⟩
    · rw [compare_eq_iff_eq.mpr hsame]
      have hne : after xs s ≠ '0' := fun heq ↦ by
        rw [heq] at hnotDigit
        cases hnotDigit
      rcases lt_or_gt_of_ne hne with hbefore | hafter
      · exact .inl ⟨compare_lt_iff_lt.mpr hbefore, .inr ⟨hsame, hbefore⟩⟩
      · refine .inr ⟨compare_gt_iff_gt.mpr hafter, fun hor ↦ ?_⟩
        exact lt_asymm hafter (hor.resolve_left (by omega)).2
    · rw [compare_gt_iff_gt.mpr hmore]
      exact .inr ⟨rfl, by omega⟩
  · have hcompare := compare_numerals hmdigits hndigits (by omega)
    rw [hmvalue, hnvalue, compare_lt_iff_lt.mpr hlt] at hcompare
    rw [hwidth, Nat.sub_self, pow_zero, Nat.div_one]
    have hne : fill size m ≠ fill size n := fun heq ↦ by
      rw [heq, hnvalue] at hmvalue
      omega
    rw [(compare_append_of_length (by omega) hne).2, hcompare]
    exact .inl ⟨rfl, .inl hlt⟩

/-! ### Runs of different kinds -/

theorem rank_range {x : Run} (hvalid : x.Valid) (hprinted : x.printed = c :: r) :
    (x.rank.toNat = 48 ∧ c.toNat ≤ 57 ∧ ∃ n, x = .number n ∧ (n < 2 ^ 63 → 48 ≤ c.toNat)) ∨
      (x.rank.toNat = 97 ∧ 97 ≤ c.toNat ∧ c.toNat ≤ 122) ∨
      (x = .separator c ∧ x.rank.toNat = c.toNat ∧ (c.toNat < 48 ∨ 57 < c.toNat) ∧
        (c.toNat < 97 ∨ 122 < c.toNat)) := by
  obtain ⟨c', r', hprinted', hc⟩ := printed_head hvalid
  obtain ⟨rfl, -⟩ := cons.inj (hprinted'.symm.trans hprinted)
  cases x with
  | number n =>
    refine .inl ⟨rfl, ?_, n, rfl, fun hsmall ↦ ?_⟩
    · rcases hc with rfl | ⟨-, -, ⟨-, hdigit⟩ | ⟨-, rfl⟩⟩
      · exact (by decide : ('0' : Char).toNat ≤ 57)
      · exact (isDigit_iff.mp hdigit).2
      · decide
    · rcases hc with rfl | ⟨_, hsame, ⟨-, hdigit⟩ | ⟨hlarge, -⟩⟩
      · exact (by decide : 48 ≤ ('0' : Char).toNat)
      · exact (isDigit_iff.mp hdigit).1
      · obtain rfl := Run.number.inj hsame
        omega
  | word w =>
    have hmem : c' ∈ w := by
      change w = c' :: r at hprinted
      rw [hprinted]
      exact .head _
    exact .inr (.inl ⟨rfl, isLower_iff.mp (hvalid.2 c' hmem)⟩)
  | separator d =>
    obtain ⟨rfl, -⟩ := cons.inj hprinted
    have hdigit := mt isDigit_iff.mpr (Bool.not_eq_true _ ▸ hvalid.1)
    have hlower := mt isLower_iff.mpr (Bool.not_eq_true _ ▸ hvalid.2)
    exact .inr (.inr ⟨rfl, rfl, by omega, by omega⟩)

theorem compare_char_congr {c d c' d' : Char} (hne : c.toNat ≠ d.toNat)
    (hne' : c'.toNat ≠ d'.toNat) (hiff : c.toNat < d.toNat ↔ c'.toNat < d'.toNat) :
    c ≠ d ∧ compare c d = compare c' d' := by
  refine ⟨fun heq ↦ hne (by rw [heq]), ?_⟩
  by_cases hlt : c.toNat < d.toNat
  · rw [compare_lt_iff_lt.mpr (char_lt_iff.mpr hlt),
      compare_lt_iff_lt.mpr (char_lt_iff.mpr (hiff.mp hlt))]
  · have hlt' := mt hiff.mpr hlt
    rw [compare_gt_iff_gt.mpr (char_lt_iff.mpr (by omega)),
      compare_gt_iff_gt.mpr (char_lt_iff.mpr (by omega))]

theorem compare_of_rank_ne (hrank : x.rank ≠ y.rank) : compare x y = compare x.rank y.rank := by
  change (compare x.rank y.rank).then _ = _
  rcases lt_or_gt_of_ne hrank with hlt | hgt
  · rw [compare_lt_iff_lt.mpr hlt]
    rfl
  · rw [compare_gt_iff_gt.mpr hgt]
    rfl

/-- The texts of runs of different kinds are in the order of the kinds, but for a separator and a
number that is printed as a negative one. -/
theorem compare_kinds (hx : x.Valid) (hy : y.Valid) (hrank : x.rank ≠ y.rank)
    (hxsmall : ∀ n c, x = .number n → y = .separator c → n < 2 ^ 63)
    (hysmall : ∀ n c, y = .number n → x = .separator c → n < 2 ^ 63) (r r' : Text) :
    compare (x.printed ++ r) (y.printed ++ r') = compare x y := by
  obtain ⟨c, tail, hc, -⟩ := printed_head hx
  obtain ⟨d, tail', hd, -⟩ := printed_head hy
  have hrankNat : x.rank.toNat ≠ y.rank.toNat := fun heq ↦ hrank (Char.toNat_inj.mp heq)
  have hfacts : c.toNat ≠ d.toNat ∧ (c.toNat < d.toNat ↔ x.rank.toNat < y.rank.toNat) := by
    rcases rank_range hx hc with ⟨hxr, hcle, m, hxm, hcge⟩ | ⟨hxr, hcge, hcle⟩ | ⟨hxs, hxr, hout⟩
    · rcases rank_range hy hd with ⟨hyr, -⟩ | ⟨hyr, hdge, hdle⟩ | ⟨hys, hyr, hout'⟩
      · exact absurd (hxr.trans hyr.symm) hrankNat
      · omega
      · have hdigit := hcge (hxsmall m d hxm hys)
        omega
    · rcases rank_range hy hd with ⟨hyr, hdle, -⟩ | ⟨hyr, -⟩ | ⟨hys, hyr, hout'⟩
      · omega
      · exact absurd (hxr.trans hyr.symm) hrankNat
      · omega
    · rcases rank_range hy hd with ⟨hyr, hdle, n, hyn, hdge⟩ | ⟨hyr, hdge, hdle⟩ | ⟨hys, hyr, hout'⟩
      · have hdigit := hdge (hysmall n c hyn hxs)
        omega
      · omega
      · omega
  obtain ⟨hne, hcompare⟩ := compare_char_congr hfacts.1 hrankNat hfacts.2
  rw [hc, hd, cons_append, cons_append, compare_cons_of_ne hne, hcompare, compare_of_rank_ne hrank]

/-! ### Orders of runs and suffixes -/

instance : Std.TransOrd Stage := inferInstanceAs (Std.TransCmp (compareOn Stage.letter))

instance : Std.LawfulEqOrd Stage where
  eq_of_compare {s t} heq := by
    have hletter : s.letter = t.letter := compare_eq_iff_eq.mp heq
    cases s <;> cases t <;> first | rfl | cases hletter

instance : Std.TransOrd Run := inferInstanceAs (Std.TransCmp (compareLex (compareOn Run.rank)
  (compareLex (compareOn Run.kind) (compareLex (compareOn Run.value) (compareOn Run.letters)))))

instance : Std.LawfulEqOrd Run where
  eq_of_compare {x y} heq := by
    obtain ⟨hrank, hrest⟩ := Ordering.then_eq_eq.mp heq
    obtain ⟨hkind, hrest⟩ := Ordering.then_eq_eq.mp hrest
    obtain ⟨hvalue, hletters⟩ := Ordering.then_eq_eq.mp hrest
    have hrank : x.rank = y.rank := compare_eq_iff_eq.mp hrank
    have hkind : x.kind = y.kind := compare_eq_iff_eq.mp hkind
    have hvalue : x.value = y.value := compare_eq_iff_eq.mp hvalue
    have hletters : x.letters = y.letters := Std.LawfulEqOrd.eq_of_compare hletters
    cases x with
    | number m => cases y with
      | number n => exact congrArg Run.number hvalue
      | word w | separator d => cases hkind
    | word v => cases y with
      | number n | separator d => cases hkind
      | word w => exact congrArg Run.word hletters
    | separator c => cases y with
      | number n | word w => cases hkind
      | separator d => exact congrArg Run.separator hrank

theorem compare_numbers (m n : ℕ) : compare (Run.number m) (Run.number n) = compare m n := by
  change (compare m n).then .eq = _
  cases compare m n <;> rfl

theorem compare_word_runs (v w : Text) : compare (Run.word v) (Run.word w) = compare v w := rfl

/-! ### Different runs -/

theorem minus_lt_iff (hlt : m < n) (hne : minus m ≠ minus n) : minus n < minus m := by
  unfold minus at hne ⊢
  split_ifs at hne ⊢ <;> omega

/-- The texts of a number and of a greater one are in order exactly if `NumbersTold` says so. -/
theorem compare_numbers_lt (hx : Cut (.number m :: xs)) (hy : Cut (.number n :: ys)) (hlt : m < n)
    (s t : Stage) : compare (key (.number m :: xs) s) (key (.number n :: ys) t) = .lt ↔
      NumbersTold m xs s n ys t := by
  rw [key_cons, key_cons, Run.printed, Run.printed, sprintf015d, sprintf015d, NumbersTold]
  by_cases hn : n < 2 ^ 63
  · rw [if_pos hn, if_pos hn, if_pos (hlt.trans hn)]
    rcases compare_number hx hlt 15 s (key ys t) with ⟨hless, htold⟩ | ⟨hmore, hnot⟩
    · exact ⟨fun _ ↦ htold, fun _ ↦ hless⟩
    · rw [hmore]
      exact ⟨nofun, fun htold ↦ absurd htold hnot⟩
  · rw [if_neg hn, if_neg hn]
    by_cases hm : m < 2 ^ 63
    · rw [if_pos hm]
      obtain ⟨c, r, hc, hcdigit⟩ := fill_cons m
      have hdigit := isDigit_iff.mp hcdigit
      have hminus : ('-' : Char).toNat = 45 := rfl
      have hgt : '-' < c := char_lt_iff.mpr (by omega)
      rw [hc, cons_append, cons_append, compare_cons_of_ne (ne_of_gt hgt),
        compare_gt_iff_gt.mpr hgt]
      exact ⟨nofun, fun htold ↦ absurd htold.1 (by omega)⟩
    · have hself : compare '-' '-' = .eq := compare_eq_iff_eq.mpr rfl
      rw [if_neg hm, List.cons_append, List.cons_append, List.compare_cons_cons, hself,
        Ordering.eq_then, and_iff_right (Nat.le_of_not_lt hm)]
      by_cases hsame : minus m = minus n
      · rw [if_pos hsame, hsame, compare_append_same]
      · rw [if_neg hsame]
        rcases compare_number hy (minus_lt_iff hlt hsame) 14 t
          (fill 14 (minus m) ++ key xs s |>.drop (fill 14 (minus m)).length) with
          ⟨hless, htold⟩ | ⟨hmore, hnot⟩
        · rw [drop_left] at hless
          rw [Std.OrientedCmp.gt_iff_lt.mpr hless]
          exact ⟨nofun, fun hnot ↦ absurd htold hnot⟩
        · rw [drop_left] at hmore
          rw [Std.OrientedCmp.gt_iff_lt.mp hmore]
          exact ⟨fun _ ↦ hnot, fun _ ↦ rfl⟩

/-- The texts of a separator and of a number are in the order of the separator and a digit exactly
if `SignTold` says so. -/
theorem compare_separator_number {n : ℕ} (hx : Cut (.separator c :: xs))
    (hy : Cut (.number n :: ys)) (s t : Stage) :
    compare (key (.separator c :: xs) s) (key (.number n :: ys) t)
        = compare (Run.separator c) (Run.number n) ↔ SignTold c xs s n ys t := by
  have hdigit : c.isDigit = false := hx.1.1
  have hc := mt isDigit_iff.mpr (Bool.not_eq_true _ ▸ hdigit)
  have hne : c ≠ '0' := fun heq ↦ by
    rw [heq] at hdigit
    cases hdigit
  have hzero : ('0' : Char).toNat = 48 := rfl
  by_cases hsmall : n < 2 ^ 63
  · have hkinds := compare_kinds hx.1 hy.1 hne (nofun)
      (fun _ _ hn _ ↦ by cases hn; exact hsmall) (key xs s) (key ys t)
    rw [key_cons, key_cons, hkinds]
    exact ⟨fun _ hlarge ↦ absurd hlarge (by omega), fun _ ↦ rfl⟩
  · have hprinted : (Run.number n).printed = '-' :: fill 14 (minus n) := by
      rw [Run.printed, sprintf015d, if_neg hsmall]
    have horder : compare (Run.separator c) (Run.number n) = compare c '0' := compare_of_rank_ne hne
    rw [key_cons, key_cons, hprinted, horder, SignTold]
    change compare (c :: key xs s) ('-' :: (fill 14 (minus n) ++ key ys t)) = _ ↔ _
    by_cases hsign : c = '-'
    · subst hsign
      have hself : compare '-' '-' = .eq := compare_eq_iff_eq.mpr rfl
      rw [List.compare_cons_cons, hself, Ordering.eq_then,
        compare_lt_iff_lt.mpr (by decide : '-' < '0')]
      exact ⟨fun hless _ ↦ ⟨by decide, by decide, fun _ ↦ hless⟩,
        fun htold ↦ (htold (Nat.le_of_not_lt hsmall)).2.2 rfl⟩
    · rw [compare_cons_of_ne hsign]
      have hminus : ('-' : Char).toNat = 45 := rfl
      have hsignNat : c.toNat ≠ 45 := fun heq ↦ hsign (Char.toNat_inj.mp heq)
      have hneNat : c.toNat ≠ 48 := fun heq ↦ hne (Char.toNat_inj.mp heq)
      constructor
      · refine fun hsame _ ↦ ⟨?_, ?_, fun heq ↦ absurd heq hsign⟩
        · rintro rfl
          cases hsame
        · rintro rfl
          cases hsame
      · intro htold
        obtain ⟨hdot, hslash, -⟩ := htold (Nat.le_of_not_lt hsmall)
        have hdotNat : c.toNat ≠ 46 := fun heq ↦ hdot (Char.toNat_inj.mp heq)
        have hslashNat : c.toNat ≠ 47 := fun heq ↦ hslash (Char.toNat_inj.mp heq)
        exact (compare_char_congr (by omega) (by omega) (by omega)).2

/-- The texts of two different runs with what follows them are in the order of the runs exactly if
`RunsTold` says so. -/
theorem runsTold_iff (hx : Cut (x :: xs)) (hy : Cut (y :: ys)) (hne : x ≠ y) (s t : Stage) :
    compare (key (x :: xs) s) (key (y :: ys) t) = compare x y ↔ RunsTold x xs s y ys t := by
  have hkinds : x.rank ≠ y.rank → (∀ n c, x = .number n → y = .separator c → n < 2 ^ 63) →
      (∀ n c, y = .number n → x = .separator c → n < 2 ^ 63) →
      compare (key (x :: xs) s) (key (y :: ys) t) = compare x y := fun hrank hxs hys ↦ by
    rw [key_cons, key_cons]
    exact compare_kinds hx.1 hy.1 hrank hxs hys _ _
  cases x with
  | number m => cases y with
    | number n =>
      have hmn : m ≠ n := fun heq ↦ hne (congrArg Run.number heq)
      rw [compare_numbers]
      simp only [RunsTold]
      rcases lt_or_gt_of_ne hmn with hlt | hgt
      · rw [if_pos hlt, compare_lt_iff_lt.mpr hlt]
        exact compare_numbers_lt hx hy hlt s t
      · rw [if_neg (lt_asymm hgt), compare_gt_iff_gt.mpr hgt, Std.OrientedCmp.gt_iff_lt]
        exact compare_numbers_lt hy hx hgt t s
    | word w =>
      exact iff_of_true (hkinds (by decide : '0' ≠ 'a') (nofun) (nofun)) trivial
    | separator d =>
      have hsign := compare_separator_number hy hx t s
      have htexts : compare (key (.separator d :: ys) t) (key (.number m :: xs) s)
          = (compare (key (.number m :: xs) s) (key (.separator d :: ys) t)).swap :=
        Std.OrientedCmp.eq_swap
      have hruns : compare (Run.separator d) (Run.number m)
          = (compare (Run.number m) (Run.separator d)).swap := Std.OrientedCmp.eq_swap
      rw [htexts, hruns] at hsign
      exact (Ordering.swap_inj.symm.trans hsign)
  | word v => cases y with
    | number n =>
      exact iff_of_true (hkinds (by decide : 'a' ≠ '0') (nofun) (nofun)) trivial
    | word w =>
      rw [key_cons, key_cons, compare_word_runs]
      exact compare_words hx hy (fun heq ↦ hne (congrArg Run.word heq)) s t
    | separator d =>
      have hrank : 'a' ≠ d := fun heq ↦ by
        have hlower := hy.1.2
        rw [← heq] at hlower
        cases hlower
      exact iff_of_true (hkinds hrank (nofun) (nofun)) trivial
  | separator c => cases y with
    | number n => exact compare_separator_number hx hy s t
    | word w =>
      have hrank : c ≠ 'a' := fun heq ↦ by
        have hlower := hx.1.2
        rw [heq] at hlower
        cases hlower
      exact iff_of_true (hkinds hrank (nofun) (nofun)) trivial
    | separator d =>
      exact iff_of_true (hkinds (fun heq ↦ hne (congrArg Run.separator heq))
        (nofun) (nofun)) trivial

/-- The texts have the order of the runs and the suffixes exactly if `OrderTold` says so. -/
theorem orderTold_iff (hx : Cut xs) (hy : Cut ys) (s t : Stage) :
    compare (key xs s) (key ys t) = (compare xs ys).then (compare s t) ↔ OrderTold xs s ys t := by
  induction xs generalizing ys with
  | nil =>
    cases ys with
    | nil =>
      refine iff_of_true ?_ trivial
      change compare [s.letter] [t.letter] = compare s.letter t.letter
      rw [List.compare_cons_cons]
      cases compare s.letter t.letter <;> rfl
    | cons y ys => exact compare_ended hy.1 s ys t
  | cons x xs ih =>
    cases ys with
    | nil =>
      have hended := compare_ended hx.1 t xs s
      rwa [← Std.OrientedCmp.gt_iff_lt] at hended
    | cons y ys =>
      simp only [OrderTold]
      by_cases hsame : x = y
      · subst hsame
        have hself : compare x x = .eq := Std.ReflCmp.compare_self
        rw [if_pos rfl, key_cons, key_cons, compare_append_same, List.compare_cons_cons, hself,
          Ordering.eq_then]
        exact ih hx.2.2 hy.2.2
      · have hne : compare x y ≠ .eq := fun heq ↦ hsame (Std.LawfulEqOrd.eq_of_compare heq)
        have hfirst : (compare (x :: xs) (y :: ys)).then (compare s t) = compare x y := by
          rw [List.compare_cons_cons]
          cases hcompare : compare x y with
          | lt | gt => rfl
          | eq => exact absurd hcompare hne
        rw [if_neg hsame, hfirst]
        exact runsTold_iff hx hy hsame s t

/-! ### The documented order and that of the code's runs -/

def sinceDigit (text : Text) (c : Char) : Text := if c.isDigit then [] else text ++ [c]

def sinceNumber (text : Text) : Run → Text
  | .number _ => []
  | .word w => text ++ w
  | .separator c => text ++ [c]

theorem foldl_closes (opened : Option Run) (c : Char) (text : Text) :
    (closes opened c).2.toList.foldl sinceNumber ((closes opened c).1.foldl sinceNumber text)
      = sinceDigit (opened.toList.foldl sinceNumber text) c := by
  unfold closes sinceDigit
  split_ifs with hdigit hlower
  · rcases opened with - | n | w | d <;> rfl
  · rcases opened with - | n | w | d <;> simp [sinceNumber]
  · simp [sinceNumber]

theorem runsFrom_append_separator (hdigit : c.isDigit = false) (hlower : c.isLower = false)
    (x y : Text) (opened : Option Run) :
    runsFrom opened (x ++ c :: y) = runsFrom opened x ++ .separator c :: runsFrom none y := by
  induction x generalizing opened with
  | nil => cases opened <;> simp [runsFrom, hdigit, hlower]
  | cons d x ih =>
    rw [cons_append, runsFrom_cons, runsFrom_cons, ih, append_assoc]

theorem runs_append_separator (hdigit : c.isDigit = false) (hlower : c.isLower = false) (x y : Text)
    : runs (x ++ c :: y) = runs x ++ .separator c :: runs y :=
  runsFrom_append_separator hdigit hlower x y none

namespace Stage

def runs : Stage → List Run
  | .alpha => [.separator '-', .word ['a', 'l', 'p', 'h', 'a']]
  | .beta => [.separator '-', .word ['b', 'e', 't', 'a']]
  | .release => []

end Stage

theorem eq_take_append {word s : Text} (hsuffix : word.isSuffixOf s = true) :
    s = s.take (s.length - word.length) ++ word := by
  obtain ⟨x, rfl⟩ := isSuffixOf_iff_suffix.mp hsuffix
  rw [length_append, Nat.add_sub_cancel, take_left]

/-- The runs of a text are those before the suffixes and those of the suffixes. -/
theorem runs_splitSuffixes (fuel : ℕ) (s : Text) :
    runs s = runs (splitSuffixes fuel s).1 ++ (splitSuffixes fuel s).2.flatMap Stage.runs := by
  induction fuel generalizing s with
  | zero => rw [splitSuffixes, flatMap_nil, append_nil]
  | succ fuel ih =>
    rw [splitSuffixes]
    by_cases halpha : alphaSuffix.isSuffixOf s = true
    · rw [if_pos halpha, flatMap_append, ← append_assoc, ← ih]
      conv_lhs => rw [eq_take_append halpha]
      exact runs_append_separator rfl rfl _ _
    · rw [if_neg halpha]
      by_cases hbeta : betaSuffix.isSuffixOf s = true
      · rw [if_pos hbeta, flatMap_append, ← append_assoc, ← ih]
        conv_lhs => rw [eq_take_append hbeta]
        exact runs_append_separator rfl rfl _ _
      · rw [if_neg hbeta, flatMap_nil, append_nil]

variable {a b : Text} (op : VersionOp) (x : Text)

theorem runs_eq_of_documented (heq : documented a b = .eq) : runs (lc a) = runs (lc b) := by
  obtain ⟨hruns, hstages⟩ := Ordering.then_eq_eq.mp heq
  have hruns : runs (parts a).1 = runs (parts b).1 := Std.LawfulEqOrd.eq_of_compare hruns
  have hstages := Std.LawfulEqOrd.eq_of_compare hstages
  have hstages : (parts a).2 = (parts b).2 := append_cancel_right hstages
  rw [runs_splitSuffixes (lc a).length (lc a), runs_splitSuffixes (lc b).length (lc b)]
  change runs (parts a).1 ++ (parts a).2.flatMap Stage.runs = _
  rw [hruns, hstages]
  rfl

theorem foldl_sinceDigit_suffix (text s : Text) : s.foldl sinceDigit text <:+ text ++ s := by
  induction s generalizing text with
  | nil => rw [append_nil]; exact suffix_rfl
  | cons c s ih =>
    rw [foldl_cons, sinceDigit]
    by_cases hdigit : c.isDigit = true
    · rw [if_pos hdigit]
      refine (ih []).trans ?_
      rw [nil_append]
      exact (suffix_cons c s).trans (suffix_append text (c :: s))
    · rw [if_neg hdigit]
      have hrest := ih (text ++ [c])
      rwa [append_assoc] at hrest

theorem foldl_sinceDigit_append {w : Text} (hw : ∀ c ∈ w, c.isDigit = false) (text : Text) :
    w.foldl sinceDigit text = text ++ w := by
  induction w generalizing text with
  | nil => rw [append_nil, foldl_nil]
  | cons c w ih =>
    obtain ⟨hc, hrest⟩ := forall_mem_cons.mp hw
    rw [foldl_cons, sinceDigit, hc, ih hrest]
    exact append_assoc _ _ _

theorem foldl_sinceNumber (opened : Option Run) (s text : Text) :
    (runsFrom opened s).foldl sinceNumber text
      = s.foldl sinceDigit (opened.toList.foldl sinceNumber text) := by
  induction s generalizing opened text with
  | nil => cases opened <;> rfl
  | cons c s ih =>
    rw [runsFrom_cons, foldl_append, ih, foldl_closes, foldl_cons]

/-- Whether a text ends in a word depends on its runs alone. -/
theorem isSuffixOf_congr {word s s' : Text} (hword : ∀ c ∈ word, c.isDigit = false)
    (hruns : runs s = runs s') : word.isSuffixOf s = word.isSuffixOf s' := by
  have hends : ∀ u : Text, word.isSuffixOf u = true ↔
      word <:+ (runs u).foldl sinceNumber [] := fun u ↦ by
    rw [runs, foldl_sinceNumber, isSuffixOf_iff_suffix]
    constructor
    · rintro ⟨x, rfl⟩
      rw [foldl_append, foldl_sinceDigit_append hword]
      exact suffix_append _ _
    · exact fun hsuffix ↦ hsuffix.trans (foldl_sinceDigit_suffix [] u)
  rw [Bool.eq_iff_iff, hends, hends, hruns]

/-- What is left when a suffix is cut off depends on the runs alone. -/
theorem cutEnd_congr {letters s s' : Text} (hletters : ∀ c ∈ letters, c.isDigit = false)
    (hruns : runs s = runs s') :
    (cutEnd ('-' :: letters) s).map runs = (cutEnd ('-' :: letters) s').map runs := by
  have hword : ∀ c ∈ '-' :: letters, c.isDigit = false := forall_mem_cons.mpr ⟨rfl, hletters⟩
  have hline : ∀ c ∈ ('-' :: letters) ++ ['\n'], c.isDigit = false := fun c hc ↦ by
    rcases mem_append.mp hc with hc | hc
    · exact hword c hc
    · rw [mem_singleton.mp hc]
      rfl
  unfold cutEnd
  rw [isSuffixOf_congr hword hruns, isSuffixOf_congr hline hruns]
  by_cases hends : ('-' :: letters).isSuffixOf s' = true
  · have hends' := (isSuffixOf_congr hword hruns).trans hends
    rw [if_pos hends, if_pos hends]
    rw [eq_take_append hends, eq_take_append hends', runs_append_separator rfl rfl,
      runs_append_separator rfl rfl] at hruns
    exact congrArg some (append_cancel_right hruns)
  · rw [if_neg hends, if_neg hends]
    by_cases hlineEnds : (('-' :: letters) ++ ['\n']).isSuffixOf s' = true
    · have hlineEnds' := (isSuffixOf_congr hline hruns).trans hlineEnds
      have hlength : (('-' :: letters) ++ ['\n']).length = ('-' :: letters).length + 1 :=
        length_append
      rw [if_pos hlineEnds, if_pos hlineEnds]
      rw [eq_take_append hlineEnds, eq_take_append hlineEnds', hlength, cons_append,
        runs_append_separator (c := '-') rfl rfl, runs_append_separator (c := '-') rfl rfl] at hruns
      have hbefore := append_cancel_right hruns
      rw [map_some, map_some, runs_append_separator rfl rfl, runs_append_separator rfl rfl, hbefore]
    · rw [if_neg hlineEnds, if_neg hlineEnds]

/-- The runs that are compared and the suffix depend on the runs of the whole version. -/
theorem splitStage_congr (hruns : runs (lc a) = runs (lc b)) :
    versionRuns a = versionRuns b ∧ (splitStage a).2 = (splitStage b).2 := by
  have halpha : (cutEnd alphaSuffix (lc a)).map runs = (cutEnd alphaSuffix (lc b)).map runs :=
    cutEnd_congr (by decide) hruns
  have hbeta : (cutEnd betaSuffix (lc a)).map runs = (cutEnd betaSuffix (lc b)).map runs :=
    cutEnd_congr (by decide) hruns
  unfold versionRuns splitStage
  cases ha : cutEnd alphaSuffix (lc a) with
  | some x =>
    obtain ⟨y, hb, hsame⟩ := map_eq_some_iff.mp (ha ▸ halpha).symm
    simp [ha, hb, hsame]
  | none =>
    have hb : cutEnd alphaSuffix (lc b) = none := by simpa [ha] using halpha.symm
    cases ha' : cutEnd betaSuffix (lc a) with
    | some x =>
      obtain ⟨y, hb', hsame⟩ := map_eq_some_iff.mp (ha' ▸ hbeta).symm
      simp [ha, ha', hb, hb', hsame]
    | none =>
      have hb' : cutEnd betaSuffix (lc b) = none := by simpa [ha'] using hbeta.symm
      simp [ha, ha', hb, hb', hruns]

/-- Versions that do not differ in the documented order do not differ in that of the runs. -/
theorem runOrder_eq_of_documented (heq : documented a b = .eq) : runOrder a b = .eq := by
  obtain ⟨hruns, hstage⟩ := splitStage_congr (runs_eq_of_documented heq)
  have hself : compare (versionRuns b) (versionRuns b) = .eq := Std.ReflCmp.compare_self
  have hself' : compare (splitStage b).2 (splitStage b).2 = .eq := Std.ReflCmp.compare_self
  rw [runOrder, hruns, hstage, hself, hself']
  rfl

theorem runOrderTold_iff (a b : Text) :
    compare (convertVersion a) (convertVersion b) = runOrder a b ↔ RunOrderTold a b := by
  rw [convertVersion_eq, convertVersion_eq]
  exact orderTold_iff (versionRuns_cut a) (versionRuns_cut b) _ _

/-- There are two strict orders. -/
theorem eq_of_strict {o p q : Ordering} (ho : o ≠ .eq) (hp : p ≠ .eq) (hq : q ≠ .eq) (hop : o ≠ p)
    (hpq : p ≠ q) : o = q := by
  cases o <;> cases p <;> cases q <;> first | rfl | contradiction

/-- The texts of two versions have the documented order exactly if `Told` says so. -/
theorem told_iff (a b : Text) :
    compare (convertVersion a) (convertVersion b) = documented a b ↔ Told a b := by
  have htold := runOrderTold_iff a b
  unfold Told
  by_cases hsame : runOrder a b = documented a b
  · rw [if_pos hsame, ← htold, hsame]
  · rw [if_neg hsame, ← htold]
    -- neither order finds the versions equal, so they are the two strict ones
    have hdocumented : documented a b ≠ .eq := fun heq ↦
      hsame ((runOrder_eq_of_documented heq).trans heq.symm)
    constructor
    · refine fun heq ↦ ⟨fun hrun ↦ hsame (hrun.symm.trans heq), fun htexts ↦ hdocumented ?_⟩
      rw [← heq, htexts]
      exact Std.ReflCmp.compare_self
    · rintro ⟨hrun, htexts⟩
      have hstrict : compare (convertVersion a) (convertVersion b) ≠ .eq := fun heq ↦
        htexts (Std.LawfulEqOrd.eq_of_compare heq)
      have hrunStrict : runOrder a b ≠ .eq := fun heq ↦ htexts <| by
        obtain ⟨hruns, hstage⟩ := Ordering.then_eq_eq.mp heq
        rw [convertVersion_eq, convertVersion_eq, Std.LawfulEqOrd.eq_of_compare hruns,
          Std.LawfulEqOrd.eq_of_compare hstage]
      exact eq_of_strict hstrict hrunStrict hdocumented hrun hsame

/-! ### Suffixes in the documented order -/

theorem splitSuffixes_succ {fuel : ℕ} {s : Text} (hfuel : s.length ≤ fuel) :
    splitSuffixes (fuel + 1) s = splitSuffixes fuel s := by
  induction fuel generalizing s with
  | zero =>
    rw [length_eq_zero_iff.mp (Nat.le_zero.mp hfuel)]
    rfl
  | succ fuel ih =>
    have hshorter : ∀ k, 0 < k → (s.take (s.length - k)).length ≤ fuel := fun k hk ↦ by
      rw [length_take]
      omega
    rw [splitSuffixes, ih (hshorter 6 (by decide)), ih (hshorter 5 (by decide))]
    rfl

theorem splitSuffixes_add (s : Text) (k : ℕ) :
    splitSuffixes (s.length + k) s = splitSuffixes s.length s := by
  induction k with
  | zero => rfl
  | succ k ih => rw [← Nat.add_assoc, splitSuffixes_succ (Nat.le_add_right _ _), ih]

theorem parts_alpha : parts (x ++ alphaSuffix) = ((parts x).1, (parts x).2 ++ [.alpha]) := by
  have hlc : lc (x ++ alphaSuffix) = lc x ++ alphaSuffix := map_append
  have hends : alphaSuffix.isSuffixOf (lc x ++ alphaSuffix) = true :=
    isSuffixOf_iff_suffix.mpr (suffix_append _ _)
  have hlength : (lc x ++ alphaSuffix).length = (lc x).length + 5 + 1 := length_append
  have htake : (lc x ++ alphaSuffix).take ((lc x).length + 5 + 1 - 6) = lc x := take_left
  rw [parts, hlc, hlength, splitSuffixes, if_pos hends, hlength, htake, splitSuffixes_add]
  rfl

theorem parts_beta : parts (x ++ betaSuffix) = ((parts x).1, (parts x).2 ++ [.beta]) := by
  have hlc : lc (x ++ betaSuffix) = lc x ++ betaSuffix := map_append
  have hends : betaSuffix <:+ lc x ++ betaSuffix := suffix_append _ _
  have hnot : ¬ alphaSuffix.isSuffixOf (lc x ++ betaSuffix) = true := fun halpha ↦ by
    rcases suffix_or_suffix_of_suffix (isSuffixOf_iff_suffix.mp halpha) hends with
      hword | hword
    · exact absurd hword (by decide)
    · exact absurd hword (by decide)
  have hlength : (lc x ++ betaSuffix).length = (lc x).length + 4 + 1 := length_append
  have htake : (lc x ++ betaSuffix).take ((lc x).length + 4 + 1 - 5) = lc x := take_left
  rw [parts, hlc, hlength, splitSuffixes, if_neg hnot,
    if_pos (isSuffixOf_iff_suffix.mpr hends), hlength, htake, splitSuffixes_add]
  rfl

/-- A version with a suffix is before the one without, and `-alpha` before `-beta`. -/
theorem documented_suffixes : documented (x ++ alphaSuffix) (x ++ betaSuffix) = .lt ∧
      documented (x ++ betaSuffix) x = .lt := by
  have hself : compare (runs (parts x).1) (runs (parts x).1) = .eq := Std.ReflCmp.compare_self
  constructor
  · rw [documented, compareLex, compareOn, compareOn, parts_alpha, parts_beta, hself,
      append_assoc, append_assoc, compare_append_same]
    rfl
  · rw [documented, compareLex, compareOn, compareOn, parts_beta, hself, append_assoc,
      compare_append_same]
    rfl

/-! ### The versions of a repository -/

instance : Std.TransCmp documented := inferInstanceAs (Std.TransCmp (compareLex _ _))

/-- The comparisons of versions do what is documented: the texts, `_cmp_version` with every
operator, the latest version after every other, and `last_version` whatever order `sort` gives to
versions of one text. -/
structure VersionsOrdered (vcs : List Text) : Prop where
  texts : ∀ a ∈ vcs, ∀ b ∈ vcs, compare (convertVersion a) (convertVersion b) = documented a b
  operators : ∀ op, ∀ a ∈ vcs, ∀ b ∈ vcs, ∀ override,
    override = none ∨ override = some versionWord →
    cmpVersion op (some a) b override = .ok (op.holds (documented a b))
  latest : ∀ op, ∀ b ∈ vcs, ∀ override, cmpVersion op none b override = .ok (op.holds .gt)
  trichotomy : ∀ a ∈ vcs, ∀ b ∈ vcs, ∃ op ∈ [VersionOp.lt, .eq, .gt],
    ∀ other ∈ [VersionOp.lt, .eq, .gt], cmpVersion other (some a) b none = .ok true ↔ other = op
  transitive : ∀ op, ∀ a ∈ vcs, ∀ b ∈ vcs, ∀ c ∈ vcs, cmpVersion op (some a) b none = .ok true →
    cmpVersion op (some b) c none = .ok true → cmpVersion op (some a) c none = .ok true
  greatest : ∀ vers, AllVersions vcs vers → vcs ≠ [] →
    ∃ last ∈ vcs, lastVersion vers = some last ∧ ∀ v ∈ vcs, documented v last ≠ .gt

theorem cmpVersion_some (a b : Text) {override : Option Text}
    (hoverride : override = none ∨ override = some versionWord) : cmpVersion op (some a) b override
      = .ok (op.holds (compare (convertVersion a) (convertVersion b))) := by
  have hconvert : convertFunction override = .ok convertVersion := by
    rcases hoverride with rfl | rfl
    · rfl
    · rfl
  rw [cmpVersion, hconvert]
  cases op <;> change (.ok _ : Except String Bool) = _ <;>
    cases compare (convertVersion a) (convertVersion b) <;> rfl

/-- What one of the operators finds of two values decides what the others find. -/
theorem VersionOp.holds_one (order : Ordering) : ∃ op ∈ [VersionOp.lt, .eq, .gt],
    ∀ other ∈ [VersionOp.lt, .eq, .gt], other.holds order = true ↔ other = op := by
  cases order with
  | lt => exact ⟨.lt, by decide, by decide⟩
  | eq => exact ⟨.eq, by decide, by decide⟩
  | gt => exact ⟨.gt, by decide, by decide⟩

theorem VersionOp.holds_trans {α : Type} {cmp : α → α → Ordering} [Std.TransCmp cmp] {a b c : α}
    (hab : op.holds (cmp a b) = true) (hbc : op.holds (cmp b c) = true) :
    op.holds (cmp a c) = true := by
  cases op with
  | lt => exact Ordering.isLT_iff_eq_lt.mpr (Std.TransCmp.lt_trans (Ordering.isLT_iff_eq_lt.mp hab)
      (Ordering.isLT_iff_eq_lt.mp hbc))
  | le => exact Std.TransCmp.isLE_trans hab hbc
  | eq => exact Ordering.isEq_iff_eq_eq.mpr (Std.TransCmp.eq_trans (Ordering.isEq_iff_eq_eq.mp hab)
      (Ordering.isEq_iff_eq_eq.mp hbc))
  | ge => exact Std.TransCmp.isGE_trans hab hbc
  | gt => exact Ordering.isGT_iff_eq_gt.mpr (Std.TransCmp.gt_trans (Ordering.isGT_iff_eq_gt.mp hab)
      (Ordering.isGT_iff_eq_gt.mp hbc))

/-- The last of the sorted versions has a text that none is after. -/
theorem lastVersion_greatest {vcs vers : List Text} (hall : AllVersions vcs vers) (hne : vcs ≠ []) :
    ∃ last ∈ vcs, lastVersion vers = some last ∧
      ∀ v ∈ vcs, compare (convertVersion v) (convertVersion last) ≠ .gt := by
  have hvers : vers ≠ [] := fun hnil ↦ hne (nil_perm.mp (hnil ▸ hall.perm))
  obtain ⟨before, last, rfl⟩ : ∃ before last, vers = before ++ [last] :=
    ⟨vers.dropLast, vers.getLast hvers, (dropLast_concat_getLast hvers).symm⟩
  refine ⟨last, hall.perm.mem_iff.mp (by simp), by simp [lastVersion], fun v hv ↦ ?_⟩
  rcases mem_append.mp (hall.perm.mem_iff.mpr hv) with hbefore | hlast
  · exact (pairwise_append.mp hall.sorted).2.2 v hbefore last (.head _)
  · have hself : compare (convertVersion last) (convertVersion last) = .eq :=
      Std.ReflCmp.compare_self
    rw [mem_singleton.mp hlast, hself]
    exact nofun

end LumoSQL.NotFork
