import LumoSQL.NotFork.Config
import Mathlib.Data.List.Forall2
import Mathlib.Data.List.TakeWhile

/-!
# Reading a configuration file

A file in the language is read line by line as its directives (`loadLines_run`), and a directive
changes the block the loop is in, whether lines apply, and the hash (`Directive.next`). From there
`run_items` is about whole parts of a file, and `load_file_iff` about the file.
-/

namespace LumoSQL.NotFork

open Foundation List Option Function

/-! ### Spaces and words -/

theorem dropSpaces_append {s : Text} (hs : Spaces s) (t : Text) :
    dropSpaces (s ++ t) = dropSpaces t := by
  induction s with
  | nil => rfl
  | cons c s ih =>
    obtain ⟨hc, hrest⟩ := forall_mem_cons.mp hs
    rw [dropSpaces, cons_append, dropWhile_cons_of_pos hc]
    exact ih hrest

theorem dropSpaces_of_head {t : Text} (hhead : ∀ c ∈ t.head?, isSpace c = false) :
    dropSpaces t = t := by
  cases t with
  | nil => rfl
  | cons c t =>
    have hc := hhead c rfl
    rw [dropSpaces, dropWhile_cons_of_neg (by rw [hc]; exact Bool.false_ne_true)]

variable {conds : List (VersionOp × Text)} {current override : Option Text} {fuel : ℕ} {text : Text}
  {w : Text} (sf : String) (no : ℕ)

theorem Word.head (hw : Word w) (t : Text) : ∀ c ∈ (w ++ t).head?, isSpace c = false := by
  obtain ⟨c, r, rfl⟩ := exists_cons_of_ne_nil hw.1
  rintro d ⟨⟩
  exact hw.2 c (.head _)

theorem dropSpaces_word (hw : Word w) (t : Text) : dropSpaces (w ++ t) = w ++ t :=
  dropSpaces_of_head (hw.head t)

theorem takeWord_append {w gap rest : Text} (hw : Word w) (hgap : Spaces gap)
    (hspace : rest ≠ [] → gap ≠ []) :
    takeWord (w ++ (gap ++ rest)) = some (w, dropSpaces rest) := by
  have hword : ∀ c ∈ w, (!isSpace c) = true := fun c hc ↦ by rw [hw.2 c hc]; rfl
  have hend : (gap ++ rest).takeWhile (!isSpace ·) = [] ∧
      (gap ++ rest).dropWhile (!isSpace ·) = gap ++ rest := by
    cases gap with
    | nil =>
      have hnil : rest = [] := by
        by_contra hne
        exact hspace hne rfl
      rw [hnil]
      exact ⟨rfl, rfl⟩
    | cons c gap =>
      have hc : ¬ (!isSpace c) = true := by
        rw [hgap c (.head _)]
        exact Bool.false_ne_true
      exact ⟨takeWhile_cons_of_neg hc, dropWhile_cons_of_neg hc⟩
  obtain ⟨c, r, hcons⟩ := exists_cons_of_ne_nil hw.1
  have htake : (w ++ (gap ++ rest)).takeWhile (!isSpace ·) = c :: r := by
    rw [takeWhile_append_of_pos hword, hend.1, append_nil, hcons]
  have hdrop : (w ++ (gap ++ rest)).dropWhile (!isSpace ·) = gap ++ rest := by
    rw [dropWhile_append_of_pos hword, hend.2]
  rw [takeWord, htake, hdrop]
  rw [dropSpaces_append hgap, hcons]

theorem isSpace_iff {c : Char} : isSpace c = true ↔ c.toNat = 32 ∨ 9 ≤ c.toNat ∧ c.toNat ≤ 13 := by
  simp only [isSpace, Bool.or_eq_true, decide_eq_true_eq, ← Char.toNat_inj]
  have hcodes : (' ' : Char).toNat = 32 ∧ ('\t' : Char).toNat = 9 ∧ ('\n' : Char).toNat = 10 ∧
      ('\r' : Char).toNat = 13 ∧ ('\x0b' : Char).toNat = 11 ∧ ('\x0c' : Char).toNat = 12 := by
    decide
  omega

theorem isSpace_toLower (c : Char) : isSpace c.toLower = isSpace c := by
  by_cases hupper : c.val ≥ 'A'.val ∧ c.val ≤ 'Z'.val
  · have hnat : 65 ≤ c.toNat ∧ c.toNat ≤ 90 :=
      ⟨UInt32.le_iff_toNat_le.mp hupper.1, UInt32.le_iff_toNat_le.mp hupper.2⟩
    have hlower : c.toLower.toNat = c.toNat + 32 := by
      rw [Char.toLower, dif_pos hupper]
      change (c.val + ('a'.val - 'A'.val)).toNat = _
      rw [UInt32.toNat_add, Nat.mod_eq_of_lt]
      · rfl
      · change c.toNat + 32 < 2 ^ 32
        omega
    rw [Bool.eq_iff_iff, isSpace_iff, isSpace_iff]
    omega
  · rw [Char.toLower, dif_neg hupper]

theorem Word.of_lc {w lower : Text} (hw : lc w = lower) (hlower : Word lower) : Word w := by
  subst hw
  refine ⟨fun hnil ↦ hlower.1 (by rw [hnil]; rfl), fun c hc ↦ ?_⟩
  rw [← isSpace_toLower]
  exact hlower.2 _ (mem_map_of_mem hc)

/-! ### Conditions -/

theorem Conditions.head (hconds : Conditions text conds) : ∀ c ∈ text.head?, isSpace c = false := by
  cases hconds with
  | nil => exact nofun
  | cons op hgap hval hequal hafter hspace hrest =>
    intro c hc
    cases op <;> (cases hc; rfl)

theorem takeCondition_append (op : VersionOp) {gap val after rest : Text} (hgap : Spaces gap)
    (hval : Word val) (hequal : gap = [] → op = .lt ∨ op = .gt → val.head? ≠ some '=')
    (hafter : Spaces after) (hspace : rest ≠ [] → after ≠ []) :
    takeCondition (op.text ++ gap ++ val ++ after ++ rest) = some ((op, val), dropSpaces rest) := by
  have hfound : takeWord (dropSpaces (gap ++ val ++ after ++ rest))
      = some (val, dropSpaces rest) := by
    rw [append_assoc, append_assoc, dropSpaces_append hgap, dropSpaces_word hval,
      takeWord_append hval hafter hspace]
  -- after `<` and `>` no equal sign follows
  have htail : op = .lt ∨ op = .gt → ∀ t, gap ++ val ++ after ++ rest ≠ '=' :: t := by
    intro hop t hsame
    cases gap with
    | nil =>
      obtain ⟨c, r, rfl⟩ := exists_cons_of_ne_nil hval.1
      refine hequal rfl hop ?_
      have hhead := congrArg List.head? hsame
      exact hhead
    | cons c gap =>
      obtain ⟨rfl, -⟩ := cons.inj hsame
      exact absurd (hgap '=' (.head _)) (by decide)
  have hno : op = .lt ∨ op = .gt → ¬ ['='] <+: gap ++ val ++ after ++ rest := by
    rintro hop ⟨t, ht⟩
    exact htail hop t ht.symm
  have hassoc : op.text ++ gap ++ val ++ after ++ rest
      = op.text ++ (gap ++ val ++ after ++ rest) := by
    simp
  rw [hassoc]
  generalize gap ++ val ++ after ++ rest = tail at *
  cases op with
  | le | eq | ge => simp [takeCondition, VersionOp.text, hfound]
  | lt | gt =>
    have hnot := hno (by simp)
    simp [takeCondition, VersionOp.text, hfound, hnot]

/-- The version is compared, and the method is one that there is. -/
def Comparable (current override : Option Text) : Prop :=
  current = none ∨ override = none ∨ override = some versionWord

theorem cmpVersion_meets (hcomparable : Comparable current override) (cond : VersionOp × Text) :
    cmpVersion cond.1 current cond.2 override = .ok (meets current cond) := by
  have hmeets : ∀ override', convertFunction override' = .ok convertVersion →
      cmpVersion cond.1 current cond.2 override' = .ok (meets current cond) := by
    intro override' hconvert
    unfold meets cmpVersion
    cases current with
    | none => rfl
    | some version =>
      rw [hconvert]
      obtain ⟨op, val⟩ := cond
      cases op <;> rfl
  rcases hcomparable with rfl | rfl | rfl
  · rfl
  · exact hmeets none rfl
  · exact hmeets (some versionWord) rfl

theorem cmpVersion_refused (hrefused : ¬ Comparable current override) (op : VersionOp) (val : Text)
    : ∃ message, cmpVersion op current val override = .error message := by
  unfold Comparable at hrefused
  push Not at hrefused
  obtain ⟨hcurrent, hoverride, hname⟩ := hrefused
  obtain ⟨version, rfl⟩ := ne_none_iff_exists'.mp hcurrent
  obtain ⟨name, rfl⟩ := ne_none_iff_exists'.mp hoverride
  have hne : name ≠ versionWord := fun heq ↦ hname (congrArg some heq)
  refine ⟨"Invalid version comparison: " ++ String.ofList name ++ "\n", ?_⟩
  rw [cmpVersion, convertFunction, if_neg hne]
  rfl

/-- The first of the conditions is taken off, and the others are left. -/
theorem Conditions.uncons {cond : VersionOp × Text} (hconds : Conditions text (cond :: conds)) :
    ∃ c r rest, text = c :: r ∧ takeCondition text = some (cond, rest) ∧
      rest.length < text.length ∧ Conditions rest conds := by
  cases hconds with
  | @cons rest _ op gap val after hgap hval hequal hafter hspace hrest =>
    have htake := takeCondition_append op hgap hval hequal hafter hspace
    rw [dropSpaces_of_head hrest.head] at htake
    obtain ⟨c, r, hcons⟩ : ∃ c r, op.text ++ gap ++ val ++ after ++ rest = c :: r := by
      refine exists_cons_of_ne_nil fun hnil ↦ ?_
      simp only [append_eq_nil_iff] at hnil
      exact hval.1 hnil.1.1.2
    have hvalpos : 0 < val.length := length_pos_iff.mpr hval.1
    refine ⟨c, r, rest, hcons, htake, ?_, hrest⟩
    simp only [length_append]
    omega

theorem evalConditions_eq (hcomparable : Comparable current override)
    (hconds : Conditions text conds) (hfuel : text.length ≤ fuel) (ifval : Bool) :
    evalConditions sf no current override fuel text ifval
      = .ok (ifval && conds.all (meets current)) := by
  induction conds generalizing text fuel ifval with
  | nil =>
    cases hconds
    rw [evalConditions, all_nil, Bool.and_true]
  | cons cond conds ih =>
    obtain ⟨c, r, rest, rfl, htake, hless, hrest⟩ := hconds.uncons
    obtain ⟨fuel, rfl⟩ : ∃ k, fuel = k + 1 := Nat.exists_eq_succ_of_ne_zero (by omega)
    have hmeets := cmpVersion_meets hcomparable cond
    rw [evalConditions, htake]
    · simp only [hmeets]
      rw [ih hrest (by omega), all_cons, Bool.and_assoc]
    · exact cons_ne_nil c r

/-- With an unknown method the first condition is refused. -/
theorem evalConditions_refused (hrefused : ¬ Comparable current override)
    (hconds : Conditions text conds) (hne : conds ≠ []) (hfuel : text.length ≤ fuel) (ifval : Bool)
    : ∃ message, evalConditions sf no current override fuel text ifval = .error message := by
  obtain ⟨cond, conds, rfl⟩ := exists_cons_of_ne_nil hne
  obtain ⟨c, r, rest, rfl, htake, hless, -⟩ := hconds.uncons
  obtain ⟨fuel, rfl⟩ : ∃ k, fuel = k + 1 := Nat.exists_eq_succ_of_ne_zero (by omega)
  obtain ⟨message, hmessage⟩ := cmpVersion_refused hrefused cond.1 cond.2
  refine ⟨message, ?_⟩
  rw [evalConditions, htake]
  · simp [hmessage]
  · exact cons_ne_nil c r

/-! ### Directives -/

/-- Where the loop is: `$if` undefined, zero or a line. -/
inductive Place
  | outside
  | inIf
  | inElse
  deriving DecidableEq, Repr

/-- The variables of the loop without the number of the `else`. -/
structure BlockState where
  place : Place
  ifval : Bool
  hash : Hash

/-- The state without the number of the `else`. -/
def LoadState.blocks (s : LoadState) : BlockState :=
  ⟨match s.ifLine with
    | none => .outside
    | some 0 => .inIf
    | some (_ + 1) => .inElse, s.ifval, s.hash⟩

def assign (hash : Hash) (a : Text × Text) : Hash := Function.update hash a.1 (some a.2)

/-- What a directive does, or nothing where it is refused. -/
def Directive.next (current : Option Text) (s : BlockState) : Directive → Option BlockState
  | .plain assigned =>
    some { s with hash := if s.ifval then (assignments [assigned]).foldl assign s.hash else s.hash }
  | .ifVersion conds =>
    if current = none ∨ conds = [] ∨ s.hash compareWord = none ∨
        s.hash compareWord = some versionWord then
      some { s with place := .inIf, ifval := conds.all (meets current) }
    else none
  | .otherwise =>
    if s.place = .inIf then some { s with place := .inElse, ifval := !s.ifval } else none
  | .endif =>
    if s.place = .inElse then some { s with place := .outside, ifval := true } else none

section

variable (sf : String) (current : Option Text) {no : ℕ} (s : LoadState)

/-- The keyword of a line, and what is left of the line. -/
theorem loadLine_word {spaces w gap rest : Text} (hs : Spaces spaces) (hw : Word w)
    (hgap : Spaces gap) (hspace : rest ≠ [] → gap ≠ []) :
    takeWord (dropSpaces (spaces ++ w ++ gap ++ rest)) = some (w, dropSpaces rest) := by
  rw [append_assoc, append_assoc, dropSpaces_append hs, dropSpaces_word hw,
    takeWord_append hw hgap hspace]

theorem loadLine_keyword {spaces kw gap word : Text} (hs : Spaces spaces) (hkw : lc kw = word)
    (hword : Word word) (hgap : Spaces gap) :
    takeWord (dropSpaces (spaces ++ kw ++ gap)) = some (kw, []) := by
  rw [← append_nil (spaces ++ kw ++ gap),
    loadLine_word hs (Word.of_lc hkw hword) hgap fun hne ↦ absurd rfl hne]
  rfl

/-- A line that is not blank is loaded as its directive. -/
theorem loadLine_next {line : Text} {d : Directive} (hwritten : Written line d)
    (hblank : ¬ Spaces line) (hno : 0 < no) :
    ((loadLine sf current no line s).toOption).map LoadState.blocks = d.next current s.blocks := by
  cases hwritten with
  | blank hs => exact absurd hs hblank
  | @assign spaces key gap gap' value hs hkey hhash hif helse hendif hgap hspace hgap' hvalue =>
    have hword : takeWord (dropSpaces (spaces ++ key ++ gap ++ '=' :: gap' ++ value))
        = some (key, '=' :: (gap' ++ value)) := by
      rw [append_assoc, cons_append, loadLine_word hs hkey hgap fun _ ↦ hspace]
      rfl
    have hrest : dropSpaces (gap' ++ value) = value := by
      rw [dropSpaces_append hgap', dropSpaces_of_head hvalue]
    rw [loadLine, hword]
    simp only [if_neg hif, if_neg helse, if_neg hendif]
    by_cases hifval : s.ifval = true
    · simp only [if_pos hifval, hrest]
      simp [Except.toOption, LoadState.blocks, Directive.next, hifval, assignments, assign]
    · simp [Except.toOption, LoadState.blocks, Directive.next, hifval]
  | @ifVersion spaces kw gap item gap' conditions conds hs hkw hgap hspace hitem hgap' hspace'
      hconds =>
    have hw : Word kw := Word.of_lc hkw ⟨by decide, by decide⟩
    have hwItem : Word item := Word.of_lc hitem ⟨by decide, by decide⟩
    have hword : takeWord (dropSpaces (spaces ++ kw ++ gap ++ item ++ gap' ++ conditions))
        = some (kw, item ++ (gap' ++ conditions)) := by
      rw [append_assoc, append_assoc, loadLine_word hs hw hgap fun _ ↦ hspace,
        dropSpaces_word hwItem]
    have hsecond : takeWord (item ++ (gap' ++ conditions)) = some (item, conditions) := by
      rw [takeWord_append hwItem hgap' hspace', dropSpaces_of_head hconds.head]
    rw [loadLine, hword]
    simp only [if_pos hkw, hsecond, if_pos hitem]
    have haccepts : (current = none ∨ conds = [] ∨ s.blocks.hash compareWord = none ∨
        s.blocks.hash compareWord = some versionWord) ↔
        conds = [] ∨ Comparable current (s.hash compareWord) := or_left_comm
    by_cases hnil : conds = []
    · subst hnil
      cases hconds
      rw [Directive.next, if_pos (haccepts.mpr (.inl rfl))]
      rfl
    · by_cases hcomparable : Comparable current (s.hash compareWord)
      · simp only [evalConditions_eq sf no hcomparable hconds le_rfl, Directive.next,
          if_pos (haccepts.mpr (.inr hcomparable))]
        rfl
      · obtain ⟨message, hmessage⟩ :=
          evalConditions_refused sf no hcomparable hconds hnil le_rfl true
        simp only [hmessage, Directive.next,
          if_neg (mt haccepts.mp (not_or_intro hnil hcomparable))]
        rfl
  | @otherwise spaces kw gap hs hkw hgap =>
    have hif : lc kw ≠ ifWord := by
      rw [hkw]
      decide
    obtain ⟨no, rfl⟩ := Nat.exists_eq_succ_of_ne_zero hno.ne'
    obtain ⟨ifLine, ifval, hash⟩ := s
    rw [loadLine, loadLine_keyword hs hkw ⟨by decide, by decide⟩ hgap]
    simp only [if_neg hif, if_pos hkw]
    rcases ifLine with - | first | first
    · rfl
    · rfl
    · rfl
  | @endif spaces kw gap hs hkw hgap =>
    have hif : lc kw ≠ ifWord := by
      rw [hkw]
      decide
    have helse : lc kw ≠ elseWord := by
      rw [hkw]
      decide
    obtain ⟨ifLine, ifval, hash⟩ := s
    rw [loadLine, loadLine_keyword hs hkw ⟨by decide, by decide⟩ hgap]
    simp only [if_neg hif, if_neg helse, if_pos hkw]
    rcases ifLine with - | first | first
    · rfl
    · rfl
    · rfl

end

/-! ### Lines -/

/-- The first character that is not a space is the same in a text and what it begins with. -/
theorem head_dropSpaces_append (line t : Text) :
    (dropSpaces (line ++ t)).head? = (dropSpaces line).head? ∨
      (Spaces line ∧ (dropSpaces (line ++ t)).head? = (dropSpaces t).head?) := by
  by_cases hs : Spaces line
  · exact .inr ⟨hs, by rw [dropSpaces_append hs]⟩
  · refine .inl ?_
    have hne : ¬ (line.dropWhile isSpace).isEmpty = true := fun hempty ↦ by
      refine hs fun c hc ↦ ?_
      exact (dropWhile_eq_nil_iff.mp (isEmpty_iff.mp hempty)) c hc
    rw [dropSpaces, dropWhile_append, if_neg hne]
    obtain ⟨c, r, hcons⟩ := exists_cons_of_ne_nil fun hnil ↦ hne (isEmpty_iff.mpr hnil)
    rw [dropSpaces, hcons]
    rfl

def NoComment (line : Text) : Prop := (dropSpaces line).head? ≠ some '#'

theorem NoComment.before {line t : Text} (hcomment : NoComment (line ++ t)) : NoComment line := by
  rcases head_dropSpaces_append line t with hsame | ⟨hs, -⟩
  · exact fun hhash ↦ hcomment (hsame.trans hhash)
  · intro hhash
    rw [← append_nil line, dropSpaces_append hs] at hhash
    cases hhash

theorem NoComment.append {line t : Text} (hcomment : NoComment line)
    (ht : (dropSpaces t).head? ≠ some '#') : NoComment (line ++ t) := by
  rcases head_dropSpaces_append line t with hsame | ⟨-, hsame⟩
  · exact fun hhash ↦ hcomment (hsame.symm.trans hhash)
  · exact fun hhash ↦ ht (hsame.symm.trans hhash)

theorem chomp_newline (line : Text) : chomp (line ++ ['\n']) = line := by
  rw [chomp, if_pos (by simp), dropLast_concat]

variable {line : Text}

theorem chomp_of_not (hline : line.getLast? ≠ some '\n') : chomp line = line :=
  if_neg hline

/-- The options that `load_file` is called with have no line at the end, or one of dashes. -/
def Stops (stop : Option (Text → Bool)) : Prop := stop = none ∨ stop = some dashLine

theorem Stops.eq_false {stop : Option (Text → Bool)} (hstop : Stops stop)
    (hdash : dashLine line = false) : stop.any (· line) = false := by
  rcases hstop with rfl | rfl
  · rfl
  · exact hdash

theorem dashLine_eq_false {c : Char} (hmem : c ∈ chomp line) (hc : c ≠ '-') :
    dashLine line = false := by
  rw [dashLine, Bool.and_eq_false_iff]
  refine .inr (all_eq_false.mpr ⟨c, hmem, ?_⟩)
  simpa using hc

/-- A line that is not blank has no dashes only, and is no comment. -/
theorem Written.spec {d : Directive} (hwritten : Written line d) :
    NoComment line ∧ (Spaces line ∧ d = .plain none ∨ ¬ Spaces line ∧ ∃ c ∈ line, c ≠ '-') := by
  have hkeyword : ∀ {spaces kw rest word : Text}, Spaces spaces → lc kw = word → Word word →
      (∀ c ∈ word, c ≠ '-' ∧ c ≠ '#') →
      NoComment (spaces ++ kw ++ rest) ∧ ¬ Spaces (spaces ++ kw ++ rest) ∧
        ∃ c ∈ spaces ++ kw ++ rest, c ≠ '-' := by
    intro spaces kw rest word hs hkw hword hletters
    have hw := Word.of_lc hkw hword
    obtain ⟨c, r, rfl⟩ := exists_cons_of_ne_nil hw.1
    have hc := hletters c.toLower (by rw [← hkw]; exact mem_map_of_mem (.head _))
    have hmem : c ∈ spaces ++ c :: r ++ rest := by simp
    refine ⟨?_, fun hall ↦ ?_, c, hmem, fun heq ↦ hc.1 (by rw [heq]; rfl)⟩
    · unfold NoComment
      rw [append_assoc, dropSpaces_append hs, dropSpaces_word hw]
      exact fun hhash ↦ hc.2 (by rw [some.inj hhash]; rfl)
    · have hspace := hall c hmem
      rw [hw.2 c (.head _)] at hspace
      cases hspace
  cases hwritten with
  | blank hs =>
    refine ⟨?_, .inl ⟨hs, rfl⟩⟩
    unfold NoComment
    rw [← append_nil line, dropSpaces_append hs]
    exact nofun
  | @assign spaces key gap gap' value hs hkey hhash hif helse hendif hgap hspace hgap' hvalue =>
    obtain ⟨c, r, rfl⟩ := exists_cons_of_ne_nil hkey.1
    refine ⟨?_, .inr ⟨fun hall ↦ ?_, '=', by simp, by decide⟩⟩
    · unfold NoComment
      rwa [append_assoc, append_assoc, append_assoc, dropSpaces_append hs, dropSpaces_word hkey]
    · have hc := hall c (by simp)
      rw [hkey.2 c (.head _)] at hc
      cases hc
  | @ifVersion spaces kw gap item gap' conditions conds hs hkw hgap hspace hitem hgap' hspace'
      hconds =>
    rw [append_assoc, append_assoc, append_assoc (spaces ++ kw)]
    exact (hkeyword hs hkw ⟨by decide, by decide⟩ (by decide)).imp_right .inr
  | otherwise hs hkw hgap =>
    exact (hkeyword hs hkw ⟨by decide, by decide⟩ (by decide)).imp_right .inr
  | endif hs hkw hgap =>
    exact (hkeyword hs hkw ⟨by decide, by decide⟩ (by decide)).imp_right .inr

section

variable {stop : Option (Text → Bool)}

variable {line : Text}

/-- A line with a backslash at its end is joined with the next one. -/
theorem readStep_joins (hstop : Stops stop) (hcomment : NoComment line) :
    readStep stop (line ++ ['\\', '\n']) = .joins line := by
  have hchomp : chomp (line ++ ['\\', '\n']) = line ++ ['\\'] := by
    rw [← chomp_newline (line ++ ['\\']), append_assoc]
    rfl
  have hdash : dashLine (line ++ ['\\', '\n']) = false :=
    dashLine_eq_false (c := '\\') (by rw [hchomp]; simp) (by decide)
  have hblank : ¬ (line ++ ['\\', '\n']).all isSpace = true := fun hall ↦
    absurd (all_eq_true.mp hall '\\' (by simp)) (by decide)
  have hnot : (dropSpaces (line ++ ['\\', '\n'])).head? ≠ some '#' := hcomment.append (by decide)
  have hcut : cutEnd ['\\'] (line ++ ['\\']) = some line := by
    have hends : ['\\'].isSuffixOf (line ++ ['\\']) = true :=
      isSuffixOf_iff_suffix.mpr (suffix_append _ _)
    rw [cutEnd, if_pos hends, length_append, Nat.add_sub_cancel, take_left]
  rw [readStep, hstop.eq_false hdash]
  simp only [Bool.false_eq_true, if_false, if_neg hblank, if_neg hnot, hchomp, hcut]

/-- A line without a backslash at its end is complete. -/
theorem readStep_complete (hstop : Stops stop) (hcomment : NoComment line) (hline : '\n' ∉ line)
    (hback : line.getLast? ≠ some '\\') (hblank : ¬ Spaces line) (hdash : ∃ c ∈ line, c ≠ '-') :
    readStep stop (line ++ ['\n']) = .complete line := by
  obtain ⟨c, hmem, hc⟩ := hdash
  have hdash : dashLine (line ++ ['\n']) = false :=
    dashLine_eq_false (by rw [chomp_newline]; exact hmem) hc
  have hblank' : ¬ (line ++ ['\n']).all isSpace = true := fun hall ↦
    hblank fun c hc ↦ all_eq_true.mp hall c (mem_append_left _ hc)
  have hnot : (dropSpaces (line ++ ['\n'])).head? ≠ some '#' := hcomment.append (by decide)
  have hcut : cutEnd ['\\'] line = none := by
    have hends : ¬ ['\\'].isSuffixOf line = true := fun hsuffix ↦ by
      obtain ⟨x, rfl⟩ := isSuffixOf_iff_suffix.mp hsuffix
      exact hback (by simp)
    have hends' : ¬ (['\\'] ++ ['\n']).isSuffixOf line = true := fun hsuffix ↦ by
      obtain ⟨x, rfl⟩ := isSuffixOf_iff_suffix.mp hsuffix
      exact hline (by simp)
    rw [cutEnd, if_neg hends, if_neg hends']
  rw [readStep, hstop.eq_false hdash]
  simp only [Bool.false_eq_true, if_false, if_neg hblank', if_neg hnot, chomp_newline, hcut]

theorem readStep_blank (hstop : Stops stop) (hs : Spaces line) :
    readStep stop (line ++ ['\n']) = .skip := by
  have hall : (line ++ ['\n']).all isSpace = true := by
    rw [all_append, Bool.and_eq_true]
    exact ⟨all_eq_true.mpr hs, rfl⟩
  have hdash : dashLine (line ++ ['\n']) = false := by
    rw [dashLine, chomp_newline]
    cases line with
    | nil => rfl
    | cons c line =>
      have hc : c ≠ '-' := fun heq ↦ by
        have hspace := hs c (.head _)
        rw [heq] at hspace
        cases hspace
      simp [hc]
  rw [readStep, hstop.eq_false hdash, hall]
  rfl

theorem readStep_comment (hstop : Stops stop) {spaces text : Text} (hs : Spaces spaces) :
    readStep stop (spaces ++ '#' :: text ++ ['\n']) = .skip := by
  have hdash : dashLine (spaces ++ '#' :: text ++ ['\n']) = false :=
    dashLine_eq_false (c := '#') (by rw [chomp_newline]; simp) (by decide)
  have hhash : (dropSpaces (spaces ++ '#' :: text ++ ['\n'])).head? = some '#' := by
    rw [append_assoc, dropSpaces_append hs]
    rfl
  rw [readStep, hstop.eq_false hdash]
  simp only [Bool.false_eq_true, if_false, if_pos hhash, ite_self]

variable (sf : String) (current : Option Text)

variable {last : Text} {line : Text} {no : ℕ} {rest : List Text} {s : LoadState}
  (before : List Text)

/-- The loop's body as it goes on with the lines that are left. -/
theorem loadFrom_skip (hread : readStep stop line = .skip) :
    loadFrom sf current stop rest line no s = loadLines sf current stop rest no s := by
  cases rest with
  | nil | cons nl rest => rw [loadFrom, hread]; rfl

theorem loadFrom_complete {line text : Text} (hread : readStep stop line = .complete text) :
    loadFrom sf current stop rest line no s
      = (loadLine sf current no text s).bind (loadLines sf current stop rest no) := by
  cases rest with
  | nil | cons nl rest =>
    rw [loadFrom, hread]
    cases hline : loadLine sf current no text s with
    | error message | ok s' => simp only [hline]; rfl

/-- The pieces of a line are joined before it is loaded. -/
theorem loadFrom_pieces (hstop : Stops stop) (rest pieces : List Text) (last joined : Text) (no : ℕ)
    (s : LoadState) (hcomment : NoComment (joined ++ pieces.flatten ++ last)) :
    ∃ first others, pieces.map (· ++ ['\\', '\n']) ++ [last ++ ['\n']] = first :: others ∧
      loadFrom sf current stop (others ++ rest) (joined ++ first) no s
        = loadFrom sf current stop rest (joined ++ pieces.flatten ++ last ++ ['\n'])
            (no + pieces.length) s := by
  induction pieces generalizing joined no with
  | nil => exact ⟨last ++ ['\n'], [], rfl, by simp⟩
  | cons piece pieces ih =>
    have hjoined : joined ++ piece ++ pieces.flatten ++ last
        = joined ++ (piece :: pieces).flatten ++ last := by
      rw [flatten_cons, append_assoc joined]
    obtain ⟨first, others, hlines, hloads⟩ := ih (joined ++ piece) (no + 1) (hjoined ▸ hcomment)
    refine ⟨piece ++ ['\\', '\n'], first :: others, by rw [map_cons, cons_append, hlines], ?_⟩
    have hpiece : NoComment (joined ++ piece) := by
      rw [← hjoined, append_assoc] at hcomment
      exact hcomment.before
    rw [cons_append, loadFrom, ← append_assoc, readStep_joins hstop hpiece]
    simp only
    rw [hloads, hjoined, length_cons, add_assoc, add_comm 1]

/-- The lines of a directive are read as one line, or left out. -/
theorem loadLines_laid (hstop : Stops stop) {lines : List Text} {d : Directive}
    (hlaid : Laid lines d) (rest : List Text) (no : ℕ) (s : LoadState) :
    (d = .plain none ∧ loadLines sf current stop (lines ++ rest) no s
        = loadLines sf current stop rest (no + lines.length) s) ∨
      ∃ line, Written line d ∧ ¬ Spaces line ∧ loadLines sf current stop (lines ++ rest) no s
        = (loadLine sf current (no + lines.length) line s).bind
            (loadLines sf current stop rest (no + lines.length)) := by
  cases hlaid with
  | comment hs hline =>
    exact .inl ⟨rfl, loadFrom_skip sf current (readStep_comment hstop hs)⟩
  | @line pieces last _ hline hwritten hback =>
    obtain ⟨hcomment, hkind⟩ := hwritten.spec
    obtain ⟨first, others, hlines, hloads⟩ :=
      loadFrom_pieces sf current hstop rest pieces last [] (no + 1) s hcomment
    have hlength : no + 1 + pieces.length
        = no + (pieces.map (· ++ ['\\', '\n']) ++ [last ++ ['\n']]).length := by
      rw [length_append, length_map, length_singleton]
      omega
    have hloads' : loadLines sf current stop
        (pieces.map (· ++ ['\\', '\n']) ++ [last ++ ['\n']] ++ rest) no s
        = loadFrom sf current stop rest (pieces.flatten ++ last ++ ['\n'])
            (no + (pieces.map (· ++ ['\\', '\n']) ++ [last ++ ['\n']]).length) s := by
      rwa [← hlength, hlines]
    have hnewline : '\n' ∉ pieces.flatten ++ last := by
      intro hmem
      rcases mem_append.mp hmem with hmem | hmem
      · obtain ⟨piece, hpiece, hmem⟩ := mem_flatten.mp hmem
        exact hline piece (mem_append_left _ hpiece) hmem
      · exact hline last (by simp) hmem
    rcases hkind with ⟨hs, rfl⟩ | ⟨hblank, hdash⟩
    · exact .inl ⟨rfl, hloads'.trans (loadFrom_skip sf current (readStep_blank hstop hs))⟩
    · exact .inr ⟨_, hwritten, hblank, hloads'.trans (loadFrom_complete sf current
        (readStep_complete hstop hcomment hnewline hback hblank hdash))⟩

/-- The lines of directives are read as the directives, up to the first that is refused. -/
theorem loadLines_run (hstop : Stops stop) {laid : List (List Text)} {ds : List Directive}
    (hlaid : List.Forall₂ Laid laid ds) (rest : List Text) (no : ℕ) (s : LoadState) :
    (ds.foldlM (Directive.next current) s.blocks = none ∧
        ∃ message, loadLines sf current stop (laid.flatten ++ rest) no s = .error message) ∨
      ∃ s', ds.foldlM (Directive.next current) s.blocks = some s'.blocks ∧
        loadLines sf current stop (laid.flatten ++ rest) no s
          = loadLines sf current stop rest (no + laid.flatten.length) s' := by
  induction hlaid generalizing no s with
  | nil => exact .inr ⟨s, rfl, rfl⟩
  | @cons lines d laid ds hfirst hothers ih =>
    rw [flatten_cons, append_assoc, foldlM_cons, length_append, ← add_assoc]
    rcases loadLines_laid sf current hstop hfirst (laid.flatten ++ rest) no s with
      ⟨rfl, hskip⟩ | ⟨line, hwritten, hblank, hloads⟩
    · have hnext : (Directive.plain none).next current s.blocks = some s.blocks := by
        simp [Directive.next, assignments]
      rw [hskip, hnext]
      exact ih (no + lines.length) s
    · have hpos : 0 < no + lines.length := by
        cases hfirst with
        | comment | line => simp
      have hnext := loadLine_next sf current s hwritten hblank hpos
      rw [hloads]
      cases hline : loadLine sf current (no + lines.length) line s with
      | error message =>
        rw [hline] at hnext
        rw [← hnext]
        exact .inl ⟨rfl, message, rfl⟩
      | ok s' =>
        rw [hline] at hnext
        rw [← hnext]
        exact ih (no + lines.length) s'

/-- A newline at the end of a line makes no difference. -/
theorem readStep_newline (hline : line.getLast? ≠ some '\n') :
    readStep none (line ++ ['\n']) = readStep none line := by
  have hall : (line ++ ['\n']).all isSpace = line.all isSpace := by
    rw [all_append]
    exact Bool.and_true _
  have hhead : (dropSpaces (line ++ ['\n'])).head? = (dropSpaces line).head? := by
    rcases head_dropSpaces_append line ['\n'] with hsame | ⟨hs, hsame⟩
    · exact hsame
    · rw [hsame, ← append_nil line, dropSpaces_append hs]
      rfl
  simp [readStep, any_none, hall, hhead, chomp_newline, chomp_of_not hline]

/-- The loop goes on alike if it does with the next line, whatever that is joined to. -/
theorem loadFrom_congr {nl nl' : Text} {rest rest' : List Text}
    (hnext : ∀ cut s, loadFrom sf current none rest (cut ++ nl) (no + 1) s
      = loadFrom sf current none rest' (cut ++ nl') (no + 1) s) (line : Text) (s : LoadState) :
    loadFrom sf current none (nl :: rest) line no s
      = loadFrom sf current none (nl' :: rest') line no s := by
  have hstop : readStep none line ≠ .stop := by
    simp only [readStep, any_none, Bool.false_eq_true, if_false]
    split_ifs
    · exact nofun
    · exact nofun
    · split <;> exact nofun
  rw [loadFrom, loadFrom.eq_2]
  cases hread : readStep none line with
  | stop => exact absurd hread hstop
  | skip => exact hnext [] s
  | joins cut => exact hnext cut s
  | complete text =>
    cases hline : loadLine sf current no text s with
    | error message => simp only [hline]
    | ok s' =>
      simp only [hline]
      exact hnext [] s'

/-- A newline at the end of the file makes no difference. -/
theorem loadFrom_bare (hlast : last ≠ []) (hline : '\n' ∉ last) (line : Text) (no : ℕ)
    (s : LoadState) : loadFrom sf current none (before ++ [last]) line no s
      = loadFrom sf current none (before ++ [last ++ ['\n']]) line no s := by
  induction before generalizing line no s with
  | nil =>
    refine loadFrom_congr sf current (fun cut s ↦ ?_) line s
    have hread : readStep none (cut ++ last ++ ['\n']) = readStep none (cut ++ last) := by
      refine readStep_newline fun hend ↦ hline ?_
      rw [getLast?_append_of_ne_nil _ hlast] at hend
      exact mem_of_getLast? hend
    rw [loadFrom, loadFrom, ← append_assoc, hread]
  | cons nl before ih =>
    exact loadFrom_congr sf current (fun cut s ↦ ih (cut ++ nl) (no + 1) s) line s

theorem loadLines_bare (hlast : last ≠ []) (hline : '\n' ∉ last) (no : ℕ) (s : LoadState) :
    loadLines sf current none (before ++ [last]) no s
      = loadLines sf current none (before ++ [last ++ ['\n']]) no s := by
  cases before with
  | nil =>
    have hread : readStep none (last ++ ['\n']) = readStep none last :=
      readStep_newline fun hend ↦ hline (mem_of_getLast? hend)
    change loadFrom sf current none [] last (no + 1) s
      = loadFrom sf current none [] (last ++ ['\n']) (no + 1) s
    rw [loadFrom, loadFrom, hread]
  | cons line before => exact loadFrom_bare sf current before hlast hline line (no + 1) s

end

/-! ### Parts of a file -/

theorem lastAssigned_append (applied : List (Text × Text)) (a : Text × Text) :
    lastAssigned (applied ++ [a]) = assign (lastAssigned applied) a := by
  ext key : 1
  rw [lastAssigned, reverse_append, reverse_singleton, singleton_append, find?_cons, assign]
  by_cases hsame : a.1 = key
  · rw [decide_eq_true hsame, ← hsame, update_self]
    rfl
  · rw [decide_eq_false hsame, update_of_ne (Ne.symm hsame)]
    rfl

/-- The hash after assignments has the last value of each key. -/
theorem foldl_assign (applied more : List (Text × Text)) :
    more.foldl assign (lastAssigned applied) = lastAssigned (applied ++ more) := by
  induction more generalizing applied with
  | nil => rw [append_nil]; rfl
  | cons a more ih =>
    rw [foldl_cons, ← lastAssigned_append, ih, append_assoc]
    rfl

section

variable (current : Option Text)

theorem run_plain (lines : List (Option (Text × Text))) (s : BlockState) :
    (lines.map Directive.plain).foldlM (Directive.next current) s = some { s with
          hash := if s.ifval then (assignments lines).foldl assign s.hash else s.hash } := by
  induction lines generalizing s with
  | nil => simp [assignments]
  | cons line lines ih =>
    have hcons : assignments (line :: lines) = assignments [line] ++ assignments lines := by
      rw [assignments, assignments, assignments, ← map_append, ← filterMap_append]
      rfl
    rw [map_cons, foldlM_cons, hcons, foldl_append]
    change (lines.map Directive.plain).foldlM (Directive.next current) _ = _
    rw [ih]
    by_cases hifval : s.ifval = true
    · simp [if_pos hifval]
    · simp [if_neg hifval]

def Item.Accepted (hash : Hash) : Item → Prop
  | .line _ => True
  | .block conds _ other => other ≠ none ∧ (current = none ∨ conds = [] ∨
      hash compareWord = none ∨ hash compareWord = some versionWord)

/-- A part of a file is read as it applies, or refused. -/
theorem run_item (item : Item) (hash : Hash) : (item.Accepted current hash ∧
        item.directives.foldlM (Directive.next current) ⟨.outside, true, hash⟩
          = some ⟨.outside, true, (item.applied current).foldl assign hash⟩) ∨
      (¬ item.Accepted current hash ∧
        item.directives.foldlM (Directive.next current) ⟨.outside, true, hash⟩ = none) := by
  cases item with
  | line assigned => exact .inl ⟨trivial, run_plain current [assigned] ⟨.outside, true, hash⟩⟩
  | block conds body other =>
    by_cases hmethod : current = none ∨ conds = [] ∨ hash compareWord = none ∨
        hash compareWord = some versionWord
    · have hif : (Directive.ifVersion conds).next current ⟨.outside, true, hash⟩
          = some ⟨.inIf, conds.all (meets current), hash⟩ := if_pos hmethod
      cases other with
      | none =>
        refine .inr ⟨fun haccepted ↦ haccepted.1 rfl, ?_⟩
        rw [Item.directives, cons_append, foldlM_cons, hif]
        change (body.map Directive.plain ++ [Directive.endif]).foldlM _ _ = none
        rw [foldlM_append, run_plain]
        rfl
      | some other =>
        refine .inl ⟨⟨some_ne_none other, hmethod⟩, ?_⟩
        rw [Item.directives, cons_append, cons_append, foldlM_cons, hif]
        change (body.map Directive.plain ++ Directive.otherwise :: other.map Directive.plain ++
          [Directive.endif]).foldlM _ _ = _
        rw [append_assoc, foldlM_append, run_plain]
        change ((other.map Directive.plain) ++ [Directive.endif]).foldlM _ _ = _
        rw [foldlM_append, run_plain, Item.applied]
        cases conds.all (meets current) <;> rfl
    · refine .inr ⟨fun haccepted ↦ hmethod haccepted.2, ?_⟩
      have hif : (Directive.ifVersion conds).next current ⟨.outside, true, hash⟩ = none :=
        if_neg hmethod
      cases other with
      | none => rw [Item.directives, cons_append, foldlM_cons, hif]; rfl
      | some other =>
        rw [Item.directives, cons_append, cons_append, foldlM_cons, hif]
        rfl

def AllAccepted : List Item → Hash → Prop
  | [], _ => True
  | item :: rest, hash =>
    item.Accepted current hash ∧ AllAccepted rest ((item.applied current).foldl assign hash)

variable (items : List Item)

theorem run_items (hash : Hash) : (AllAccepted current items hash ∧
        (items.flatMap Item.directives).foldlM (Directive.next current) ⟨.outside, true, hash⟩
          = some ⟨.outside, true, (items.flatMap (Item.applied current)).foldl assign hash⟩) ∨
      (¬ AllAccepted current items hash ∧
        (items.flatMap Item.directives).foldlM (Directive.next current) ⟨.outside, true, hash⟩
          = none) := by
  induction items generalizing hash with
  | nil => exact .inl ⟨trivial, rfl⟩
  | cons item items ih =>
    rw [flatMap_cons, flatMap_cons, foldlM_append, foldl_append]
    rcases run_item current item hash with ⟨haccepted, hrun⟩ | ⟨hrefused, hrun⟩
    · rw [hrun]
      rcases ih ((item.applied current).foldl assign hash) with ⟨hall, hrest⟩ | ⟨hnot, hrest⟩
      · exact .inl ⟨⟨haccepted, hall⟩, hrest⟩
      · exact .inr ⟨fun hall ↦ hnot hall.2, hrest⟩
    · rw [hrun]
      exact .inr ⟨fun hall ↦ hrefused hall.1, rfl⟩

theorem allAccepted_iff (applied : List (Text × Text)) :
    AllAccepted current items (lastAssigned applied) ↔
      ∀ before conds body other after, items = before ++ .block conds body other :: after →
        Item.Accepted current (lastAssigned (applied ++ before.flatMap (Item.applied current)))
          (.block conds body other) := by
  induction items generalizing applied with
  | nil =>
    refine ⟨fun _ before conds body other after hitems ↦ ?_, fun _ ↦ trivial⟩
    cases before <;> cases hitems
  | cons item items ih =>
    rw [AllAccepted, foldl_assign, ih]
    constructor
    · rintro ⟨hfirst, hrest⟩ before conds body other after hitems
      cases before with
      | nil =>
        obtain ⟨rfl, -⟩ := cons.inj hitems
        rwa [flatMap_nil, append_nil]
      | cons first before =>
        obtain ⟨rfl, htail⟩ := cons.inj hitems
        rw [flatMap_cons, ← append_assoc]
        exact hrest before conds body other after htail
    · intro hall
      refine ⟨?_, fun before conds body other after hitems ↦ ?_⟩
      · cases item with
        | line assigned => exact trivial
        | block conds body other =>
          have hfirst := hall [] conds body other items rfl
          rwa [flatMap_nil, append_nil] at hfirst
      · have hrest := hall (item :: before) conds body other after (by rw [hitems]; rfl)
        rwa [flatMap_cons, ← append_assoc] at hrest

theorem blocksAccepted_iff :
    BlocksAccepted current items ↔ AllAccepted current items fun _ ↦ none :=
  (allAccepted_iff current items []).symm

end

/-! ### Files -/

/-- A file is read as it is meant: with or without a newline at its end, and as the first part of a
`.mod` file. A file with an `else` or an `endif` outside blocks is refused. -/
structure FileRead (sf : String) (current : Option Text) (file : ConfFile) : Prop where
  reads : ∀ lines, file.Reads lines →
    loadFile sf current none lines = .ok (true, meaning current file.items, [])
  readsPart : ∀ dashes tail, dashLine dashes = true →
    loadFile sf current (some ⟨some dashLine, [], []⟩) (file.lines ++ dashes :: tail)
      = .ok (true, meaning current file.items, tail)
  refuses : ∀ stray d tail, Laid stray d → d = .otherwise ∨ d = .endif →
    ∃ message, loadFile sf current none (file.lines ++ stray ++ tail) = .error message

theorem Laid.newline {lines : List Text} {d : Directive} (hlaid : Laid lines d) :
    ∀ line ∈ lines, ∃ text, line = text ++ ['\n'] ∧ '\n' ∉ text := by
  cases hlaid with
  | @comment spaces text hs hline =>
    intro line hmem
    refine ⟨spaces ++ '#' :: text, mem_singleton.mp hmem, fun hnewline ↦ hline ?_⟩
    simpa using hnewline
  | @line pieces last _ hline hwritten hback =>
    intro line hmem
    rcases mem_append.mp hmem with hpiece | hlast
    · obtain ⟨piece, hmemPiece, rfl⟩ := mem_map.mp hpiece
      refine ⟨piece ++ ['\\'], by simp, fun hnewline ↦ ?_⟩
      exact hline piece (mem_append_left _ hmemPiece) (by simpa using hnewline)
    · exact ⟨last, mem_singleton.mp hlast, hline last (by simp)⟩

theorem ConfFile.newline (file : ConfFile) :
    ∀ line ∈ file.lines, ∃ text, line = text ++ ['\n'] ∧ '\n' ∉ text := by
  intro line hmem
  obtain ⟨lines, hlines, hmem⟩ := mem_flatten.mp hmem
  obtain ⟨i, hi, rfl⟩ := mem_iff_getElem.mp hlines
  have hd : i < (file.items.flatMap Item.directives).length := by
    rwa [← file.written.length_eq]
  exact (forall₂_iff_get.mp file.written).2 i hi hd |>.newline line hmem

section

variable (sf : String) (current : Option Text) (file : ConfFile)

/-- The lines of a file are read as it is meant, or refused, whatever follows them. -/
theorem loadLines_file {stop : Option (Text → Bool)} (hstop : Stops stop) (rest : List Text) :
    (¬ BlocksAccepted current file.items ∧
        ∃ message, loadLines sf current stop (file.lines ++ rest) 0 loadStart = .error message) ∨
      (BlocksAccepted current file.items ∧ ∃ s,
        s.blocks = ⟨.outside, true, meaning current file.items⟩ ∧
        loadLines sf current stop (file.lines ++ rest) 0 loadStart
          = loadLines sf current stop rest (0 + file.lines.length) s) := by
  have hmeaning : (file.items.flatMap (Item.applied current)).foldl assign (fun _ ↦ none)
      = meaning current file.items := foldl_assign [] _
  have hitems := run_items current file.items fun _ ↦ none
  rw [hmeaning, ← blocksAccepted_iff] at hitems
  have hrun := loadLines_run sf current hstop file.written rest 0 loadStart
  have hstart : loadStart.blocks = ⟨.outside, true, fun _ ↦ none⟩ := rfl
  rw [hstart] at hrun
  rcases hitems with ⟨haccepted, hsome⟩ | ⟨hrefused, hnone⟩
  · rcases hrun with ⟨hfails, -⟩ | ⟨s, hblocks, hloads⟩
    · exact absurd (hsome.symm.trans hfails) (some_ne_none _)
    · rw [hsome] at hblocks
      exact .inr ⟨haccepted, s, (some.inj hblocks).symm, hloads⟩
  · rcases hrun with ⟨-, herror⟩ | ⟨s, hblocks, -⟩
    · exact .inl ⟨hrefused, herror⟩
    · rw [hnone] at hblocks
      cases hblocks

/-- A file without a newline at its end is read as the one with it. -/
theorem ConfFile.Reads.loadLines_eq {file : ConfFile} {lines : List Text}
    (hreads : file.Reads lines) : loadLines sf current none lines 0 loadStart
      = loadLines sf current none file.lines 0 loadStart := by
  rcases hreads with rfl | ⟨before, last, hlast, hfile, rfl⟩
  · rfl
  · obtain ⟨text, htext, hnewline⟩ := file.newline (last ++ ['\n']) (by rw [hfile]; simp)
    rw [← append_cancel_right htext] at hnewline
    rw [loadLines_bare sf current before hlast hnewline, ← hfile]

theorem blocks_hash {s : LoadState} {place : Place} {ifval : Bool} {hash : Hash}
    (hblocks : s.blocks = ⟨place, ifval, hash⟩) : s.hash = hash :=
  congrArg BlockState.hash hblocks

theorem loadLines_dashes {dashes : Text} (hdashes : dashLine dashes = true) (tail : List Text)
    (no : ℕ) (s : LoadState) :
    loadLines sf current (some dashLine) (dashes :: tail) no s = .ok (s, tail) := by
  have hread : readStep (some dashLine) dashes = .stop := if_pos hdashes
  cases tail with
  | nil | cons nl tail => rw [loadLines, loadFrom, hread]

/-- An `else` or an `endif` outside blocks is refused. -/
theorem loadLines_stray {stray : List Text} {d : Directive} (hstray : Laid stray d)
    (hd : d = .otherwise ∨ d = .endif) (tail : List Text) (no : ℕ) {s : LoadState}
    (hplace : s.blocks.place = .outside) :
    ∃ message, loadLines sf current none (stray ++ tail) no s = .error message := by
  have hnext : d.next current s.blocks = none := by
    rcases hd with rfl | rfl
    · rw [Directive.next, hplace]
      rfl
    · rw [Directive.next, hplace]
      rfl
  rcases loadLines_run sf current (.inl rfl) (.cons hstray .nil) tail no s with
    ⟨-, hmessage⟩ | ⟨s', hsome, -⟩
  · simpa using hmessage
  · rw [foldlM_cons, hnext] at hsome
    cases hsome

/-- A file is read as it is meant exactly if its blocks are accepted. -/
theorem load_file_iff : FileRead sf current file ↔ BlocksAccepted current file.items := by
  constructor
  · intro hread
    have hloads := hread.reads file.lines (.inl rfl)
    rcases loadLines_file sf current file (.inl rfl) [] with ⟨-, message, herror⟩ | ⟨haccepted, -⟩
    · rw [append_nil] at herror
      simp only [loadFile, bind_none] at hloads
      rw [herror] at hloads
      cases hloads
    · exact haccepted
  · intro haccepted
    refine ⟨fun lines hreads ↦ ?_, fun dashes tail hdashes ↦ ?_, fun stray d tail hstray hd ↦ ?_⟩
    · rcases loadLines_file sf current file (.inl rfl) [] with
        ⟨hrefused, -⟩ | ⟨-, s, hblocks, hloads⟩
      · exact absurd haccepted hrefused
      · have hlines : loadLines sf current none lines 0 loadStart = .ok (s, []) := by
          rw [append_nil] at hloads
          rwa [hreads.loadLines_eq]
        simp only [loadFile, bind_none]
        rw [hlines]
        simp [blocks_hash hblocks]
    · rcases loadLines_file sf current file (.inr rfl) (dashes :: tail) with
        ⟨hrefused, -⟩ | ⟨-, s, hblocks, hloads⟩
      · exact absurd haccepted hrefused
      · rw [loadLines_dashes sf current hdashes] at hloads
        simp only [loadFile, bind_some]
        rw [hloads]
        simp only [checkConditions, checkRequired, blocks_hash hblocks]
        rfl
    · have hfile := loadLines_file sf current file (.inl rfl) (stray ++ tail)
      rw [← append_assoc] at hfile
      have herror : ∃ message, loadLines sf current none (file.lines ++ stray ++ tail) 0 loadStart
          = .error message := by
        rcases hfile with ⟨-, herror⟩ | ⟨-, s, hblocks, hloads⟩
        · exact herror
        · rw [hloads]
          exact loadLines_stray sf current hstray hd tail _ (by rw [hblocks])
      obtain ⟨message, hmessage⟩ := herror
      refine ⟨message, ?_⟩
      simp only [loadFile, bind_none]
      rw [hmessage]

end

/-- A block without `else`: the lines `if version < 3`, `a = 1` and `endif`. -/
def blockWithoutElse : ConfFile where
  items := [.block [(.lt, ['3'])] [some (['a'], ['1'])] none]
  laid := [[['i', 'f', ' ', 'v', 'e', 'r', 's', 'i', 'o', 'n', ' ', '<', ' ', '3', '\n']],
    [['a', ' ', '=', ' ', '1', '\n']], [['e', 'n', 'd', 'i', 'f', '\n']]]
  written := by
    refine .cons ?_ (.cons ?_ (.cons ?_ .nil))
    · have hconds : Conditions ['<', ' ', '3'] [(.lt, ['3'])] :=
        @Conditions.cons [] [] .lt [' '] ['3'] [] (by decide) (by decide) (by decide) (by decide)
          (by decide) .nil
      exact @Laid.line [] _ _ (by decide) (@Written.ifVersion [] ['i', 'f'] [' '] versionWord [' ']
        _ _ (by decide) rfl (by decide) (by decide) rfl (by decide) (by decide) hconds) (by decide)
    · exact @Laid.line [] _ _ (by decide) (@Written.assign [] ['a'] [' '] [' '] ['1'] (by decide)
        (by decide) (by decide) (by decide) (by decide) (by decide) (by decide) (by decide)
        (by decide) (by decide)) (by decide)
    · exact @Laid.line [] _ _ (by decide) (@Written.endif [] endifWord [] (by decide) rfl
        (by decide)) (by decide)

/-- The `endif` of a block without `else` is refused, for every version. -/
theorem block_without_else_refused :
    loadFile "upstream.conf" (some ['2']) none blockWithoutElse.lines
        = .error "upstream.conf.3: endif outside conditional\n" ∧
      loadFile "upstream.conf" none none blockWithoutElse.lines
        = .error "upstream.conf.3: endif outside conditional\n" ∧
      ¬ FileRead "upstream.conf" (some ['2']) blockWithoutElse := by
  refine ⟨rfl, rfl, fun hread ↦ ?_⟩
  have hloads := hread.reads blockWithoutElse.lines (.inl rfl)
  cases hloads

end LumoSQL.NotFork
