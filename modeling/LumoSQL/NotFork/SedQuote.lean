import LumoSQL.NotFork.LoadFile
import Mathlib.Data.List.DropRight

/-!
# Quoted expressions in the lines of `sed`

A line `glob: expression = replacement` may have spaces and equal signs in the expression if there
is a backslash before them. `load_data` collects the expression in a loop that takes a plain run and
one quoted character in turn; a run has to end in a character that is no backslash and no equal
sign, and an empty one ends the loop. So a quoted space at the beginning or behind another one is
not read (`quoted_space_refused`). `quoted_line` says which expressions are.
-/

namespace LumoSQL.NotFork

open Foundation List

def isMark (c : Char) : Bool := c = '\\' || c = '='

/-- The loop of `load_data`: `s/^(\S*[^\\=\s])//`, and if no equal sign follows
`s/^\\([\\=\s])//`. The result is the pattern and the rest of the line. Every turn takes a
character, so the length of the line is fuel enough. -/
def loadPattern : ℕ → Text → Text → Text × Text
  | 0, pattern, line => (pattern, line)
  | fuel + 1, pattern, line =>
    let run := (line.takeWhile (!isSpace ·)).rdropWhile isMark
    if run = [] then (pattern, line)
    else match line.drop run.length with
      | '=' :: rest => (pattern ++ run, '=' :: rest)
      | '\\' :: c :: rest =>
        if isMark c || isSpace c then loadPattern fuel (pattern ++ run ++ [c]) rest
        else loadPattern fuel (pattern ++ run) ('\\' :: c :: rest)
      | rest => loadPattern fuel (pattern ++ run) rest

/-- `load_data` for line `n` of a file: nothing, or the glob, the pattern and the replacement.
`compiles` is whether Perl takes a pattern. -/
def loadSedLine (compiles : Text → Bool) (fn : String) (n : ℕ) (line : Text) :
    Except String (Option (Text × Text × Text)) :=
  let text := dropSpaces (chomp line)
  let glob := text.takeWhile fun c ↦ c ≠ ':' && !isSpace c
  if text = [] ∨ text.head? = some '#' then .ok none
  else match glob, dropSpaces (text.drop glob.length) with
    | _ :: _, ':' :: rest =>
      let (pattern, rest) := loadPattern rest.length [] (dropSpaces rest)
      match dropSpaces rest with
      | '=' :: rest =>
        if compiles pattern then .ok (some (glob, pattern, dropSpaces rest))
        else .error (fn ++ ":" ++ toString n ++ ": Invalid pattern: ")
      | _ => .error (fn ++ "." ++ toString n ++ ": Invalid line format\n")
    | _, _ => .error (fn ++ "." ++ toString n ++ ": Missing file pattern\n")

/-- An expression with a backslash before every space and equal sign. -/
def quote (p : Text) : Text := p.flatMap fun c ↦ if isSpace c || c = '=' then ['\\', c] else [c]

/-- The second text is the first one with a backslash before some of the equal signs. -/
inductive UpToSlash : Text → Text → Prop
  | nil : UpToSlash [] []
  | cons {s t : Text} (c : Char) (hrest : UpToSlash s t) : UpToSlash (c :: s) (c :: t)
  | slash {s t : Text} (hrest : UpToSlash s t) : UpToSlash ('=' :: s) ('\\' :: '=' :: t)

/-- A run of the expression: no spaces, and at the end no backslash and no equal sign. -/
def PlainRun (v : Text) (c : Char) : Prop :=
  (∀ x ∈ v, isSpace x = false) ∧ isSpace c = false ∧ isMark c = false

/-- Every space follows a run, and the end is a run, a run with an equal sign, or a space. -/
inductive Quotable : Text → Prop
  | run {v : Text} {c : Char} (hplain : PlainRun v c) : Quotable (v ++ [c])
  | quoted {v p : Text} {c x : Char} (hplain : PlainRun v c)
      (hx : isSpace x = true ∨ (x = '=' ∧ p = [])) (hp : p ≠ [] → Quotable p) :
      Quotable (v ++ c :: x :: p)

theorem UpToSlash.append {s s' t t' : Text} (hleft : UpToSlash s s') (hright : UpToSlash t t') :
    UpToSlash (s ++ t) (s' ++ t') := by
  induction hleft with
  | nil => exact hright
  | cons c _ ih => exact ih.cons c
  | slash _ ih => exact ih.slash

section

variable {v rest : Text} {c : Char} (hplain : PlainRun v c)

include hplain

theorem quote_append (w : Text) : quote (v ++ c :: w) = quote v ++ [c] ++ quote w := by
  have hc : c ≠ '=' := fun heq ↦ absurd hplain.2.2 (by rw [heq]; decide)
  simp [quote, hplain.2.1, hc]

theorem quote_run : UpToSlash (v ++ [c]) (quote v ++ [c]) := by
  obtain ⟨hv, -⟩ := hplain
  refine UpToSlash.append ?_ (.cons c .nil)
  induction v with
  | nil => exact .nil
  | cons x v ih =>
    obtain ⟨hx, hrest⟩ := forall_mem_cons.mp hv
    by_cases heq : x = '='
    · subst heq
      exact (ih hrest).slash
    · simpa [quote, hx, heq] using (ih hrest).cons x

theorem word_run : Word (quote v ++ [c]) := by
  refine ⟨append_ne_nil_of_right_ne_nil _ (cons_ne_nil _ _), ?_⟩
  simp only [quote, mem_append, mem_flatMap, mem_singleton]
  rintro x (⟨y, hy, hx⟩ | rfl)
  · rw [hplain.1 y hy, Bool.false_or] at hx
    split_ifs at hx with heq
    · rcases mem_pair.mp hx with rfl | rfl
      · rfl
      · exact hplain.1 x hy
    · exact mem_singleton.mp hx ▸ hplain.1 y hy
  · exact hplain.2.1

/-- Assumes: only backslashes and equal signs between the run and the next space. -/
theorem take_run (hrest : ∀ x ∈ rest.takeWhile (!isSpace ·), isMark x = true) :
    ((quote v ++ [c] ++ rest).takeWhile (!isSpace ·)).rdropWhile isMark = quote v ++ [c] := by
  rw [takeWhile_append_of_pos fun x hx ↦ by rw [(word_run hplain).2 x hx, Bool.not_false],
    rdropWhile, reverse_append, dropWhile_append_of_pos fun x hx ↦ hrest x (mem_reverse.mp hx)]
  exact rdropWhile_concat_neg isMark _ c (by rw [hplain.2.2]; exact Bool.false_ne_true)

theorem loadPattern_step {x : Char} (hx : (isMark x || isSpace x) = true)
    (hrest : ∀ y ∈ ('\\' :: x :: rest).takeWhile (!isSpace ·), isMark y = true) (fuel : ℕ)
    (pattern : Text) : loadPattern (fuel + 1) pattern (quote v ++ [c] ++ '\\' :: x :: rest) =
      loadPattern fuel (pattern ++ (quote v ++ [c]) ++ [x]) rest := by
  simp only [loadPattern, take_run hplain hrest, if_neg (word_run hplain).1, drop_left, if_pos hx]

end

theorem loadPattern_space {s : Char} (hs : isSpace s = true) (fuel : ℕ) (pattern rest : Text) :
    loadPattern fuel pattern (s :: rest) = (pattern, s :: rest) := by
  cases fuel with
  | zero => rfl
  | succ fuel => simp [loadPattern, hs]

/-- Assumes: fuel for the expression. -/
theorem loadPattern_quoted {p : Text} (hp : Quotable p) (tail pattern : Text) (fuel : ℕ)
    (hfuel : (quote p).length ≤ fuel) : ∃ stored, UpToSlash p stored ∧
      loadPattern fuel pattern (quote p ++ ' ' :: tail) = (pattern ++ stored, ' ' :: tail) := by
  have hspace : isSpace ' ' = true := rfl
  have hmarks : isSpace '\\' = false ∧ isSpace '=' = false := ⟨rfl, rfl⟩
  induction hp generalizing pattern fuel with
  | @run v c hplain =>
    rw [quote_append hplain] at hfuel ⊢
    obtain _ | fuel := fuel
    · simp at hfuel
    · have hrun := @take_run v (' ' :: tail) c hplain (by simp [hspace])
      refine ⟨_, quote_run hplain, ?_⟩
      rw [show quote [] = [] from rfl, append_nil]
      simp only [loadPattern, hrun, if_neg (word_run hplain).1, drop_left]
      exact loadPattern_space hspace _ _ _
  | @quoted v p c x hplain hx hp ih =>
    have hquote : quote (v ++ c :: x :: p) = quote v ++ [c] ++ '\\' :: x :: quote p := by
      rw [quote_append hplain]
      rcases hx with hx | ⟨rfl, -⟩ <;> simp [quote, *]
    rw [hquote] at hfuel ⊢
    obtain _ | fuel := fuel
    · simp at hfuel
    · simp only [length_append, length_cons] at hfuel
      obtain ⟨stored, hstored, hload⟩ : ∃ stored, UpToSlash p stored ∧
          loadPattern fuel (pattern ++ (quote v ++ [c]) ++ [x]) (quote p ++ ' ' :: tail) =
            (pattern ++ (quote v ++ [c]) ++ [x] ++ stored, ' ' :: tail) := by
        by_cases hnil : p = []
        · subst hnil
          exact ⟨[], .nil, by rw [append_nil]; exact loadPattern_space hspace _ _ _⟩
        · exact ih hnil _ _ (by omega)
      refine ⟨quote v ++ [c] ++ x :: stored, ?_, ?_⟩
      · simpa using (quote_run hplain).append (hstored.cons x)
      · rw [append_assoc, cons_append, cons_append, loadPattern_step hplain, hload]
        · simp
        · rcases hx with hx | ⟨rfl, -⟩ <;> simp [isMark, *]
        · rcases hx with hx | ⟨rfl, rfl⟩ <;> simp [isMark, quote, *]

/-- A quoted expression is read as it was, with backslashes left before some of the equal signs.
Assumes: a glob that does not make the line a comment, and Perl takes what is read. -/
theorem quoted_line (compiles : Text → Bool) (fn : String) (n : ℕ) {glob p r : Text}
    (hglob : Word glob) (hcolon : ':' ∉ glob) (hcomment : glob.head? ≠ some '#')
    (hp : Quotable p) (hr : ∀ c ∈ r.head?, isSpace c = false)
    (hcompiles : ∀ stored, UpToSlash p stored → compiles stored = true) :
    ∃ stored, UpToSlash p stored ∧ loadSedLine compiles fn n
      (glob ++ ':' :: ' ' :: (quote p ++ ' ' :: '=' :: ' ' :: r) ++ ['\n']) =
        .ok (some (glob, stored, r)) := by
  have hpos : ∀ c ∈ glob, (c ≠ ':' && !isSpace c) = true := fun c hc ↦ by
    rw [hglob.2 c hc, Bool.not_false, Bool.and_true]
    exact decide_eq_true fun heq ↦ hcolon (heq ▸ hc)
  have htake : ∀ rest, (glob ++ ':' :: rest).takeWhile (fun c ↦ c ≠ ':' && !isSpace c) = glob :=
    fun rest ↦ by rw [takeWhile_append_of_pos hpos]; exact append_nil glob
  have hhead : ∀ rest, dropSpaces (' ' :: (quote p ++ rest)) = quote p ++ rest := by
    intro rest
    cases hp with
    | run hplain | quoted hplain =>
      rw [quote_append hplain, append_assoc]
      exact dropSpaces_word (word_run hplain) _
  obtain ⟨stored, hstored, hload⟩ := loadPattern_quoted hp ('=' :: ' ' :: r) []
    (' ' :: (quote p ++ ' ' :: '=' :: ' ' :: r)).length (by simp; omega)
  refine ⟨stored, hstored, ?_⟩
  have hr : dropSpaces (' ' :: r) = r := dropSpaces_of_head hr
  cases glob with
  | nil => cases hglob.1 rfl
  | cons g glob =>
    have hcolon : ∀ rest, dropSpaces (':' :: rest) = ':' :: rest := fun _ ↦ rfl
    have hequal : ∀ rest, dropSpaces (' ' :: '=' :: rest) = '=' :: rest := fun _ ↦ rfl
    simp only [loadSedLine, chomp_newline, dropSpaces_word hglob, htake, drop_left, hcolon, hhead,
      hload, hequal, nil_append, hr, hcompiles stored hstored, if_true]
    exact if_neg (by simpa using hcomment)

theorem quoted_line_two_words : ∃ stored, UpToSlash ['a', ' ', 'b'] stored ∧
    loadSedLine (fun _ ↦ true) "m" 1 (['f'] ++ ':' :: ' ' :: (quote ['a', ' ', 'b'] ++
      ' ' :: '=' :: ' ' :: ['c']) ++ ['\n']) = .ok (some (['f'], stored, ['c'])) :=
  quoted_line (fun _ ↦ true) "m" 1 ⟨by decide, by decide⟩ (by decide) (by decide)
    (.quoted (v := []) ⟨by simp, rfl, rfl⟩ (.inl rfl) fun _ ↦ .run (v := []) ⟨by simp, rfl, rfl⟩)
    (by decide) fun _ _ ↦ rfl

/-- An expression that begins with a space is refused, and a backslash at the end is stored as a
space. -/
theorem quoted_space_refused :
    loadSedLine (fun _ ↦ true) "m" 1 ("f: ".toList ++ quote [' ', 'a'] ++ " = c\n".toList) =
        .error "m.1: Invalid line format\n" ∧
      loadSedLine (fun _ ↦ true) "m" 1 ("f: ".toList ++ quote ['a', '\\'] ++ " = c\n".toList) =
        .ok (some (['f'], ['a', ' '], ['c'])) := by
  decide

end LumoSQL.NotFork
