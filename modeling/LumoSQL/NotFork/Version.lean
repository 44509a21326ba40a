import LumoSQL.Foundation.TextOrder

/-!
# Version numbers

`NotFork::Get` compares two versions as texts that `_convert_version` makes of them: in lower case,
without a suffix `-alpha` or `-beta`, with every number filled up to fifteen digits, and with a
letter `a`, `b` or `c` at the end for the suffix. The documentation says what the order should be:
numbers by value, words alphabetically, a version before every longer one that begins with it, and
one with the suffix before the one without.

The letter at the end stands where a longer version goes on, so a version is before a longer one
only if that goes on with a letter or a separator not before `c`: `1.1` is after `1.1a` and `3.8.0`
after `3.8.0.1` (`longer_versions_before`). `Told` says for which versions the texts have the order
of the documentation, and `version_order_iff` that these are all: for the texts, for `_cmp_version`,
and for the version that `last_version` takes.
-/

namespace LumoSQL.NotFork

open Foundation

/-! ### The code -/

/-- `lc` of a string of bytes. -/
def lc (s : Text) : Text := s.map Char.toLower

/-- A substitution that removes a word before `$`: what is left when the text has it at its end or
before a final newline. -/
def cutEnd (word s : Text) : Option Text :=
  if word.isSuffixOf s then some (s.take (s.length - word.length))
  else if (word ++ ['\n']).isSuffixOf s then
    some (s.take (s.length - (word.length + 1)) ++ ['\n'])
  else none

def fill (size n : ℕ) : Text := (Nat.toDigits 10 n).leftpad size '0'

/-- The size of the negative number that a number of `2 ^ 63` or more is printed as: the one with
the same 64 bits, or one when there are more of them. -/
def minus (n : ℕ) : ℕ := if n < 2 ^ 64 then 2 ^ 64 - n else 1

/-- `sprintf "%015d"` of a text of digits, which Perl takes for a 64-bit integer with sign. -/
def sprintf015d (n : ℕ) : Text := if n < 2 ^ 63 then fill 15 n else '-' :: fill 14 (minus n)

/-- `s((\d+)){sprintf "%015d", $1}ge` from the middle of a text, `digits` being the digits just
read. -/
def fillNumbers (digits : Text) : Text → Text
  | [] => if digits = [] then [] else sprintf015d (decimal digits)
  | c :: rest =>
    if c.isDigit then fillNumbers (digits ++ [c]) rest
    else (if digits = [] then [] else sprintf015d (decimal digits)) ++ c :: fillNumbers [] rest

/-- The suffix of a version. -/
inductive Stage
  | alpha
  | beta
  | release
  deriving DecidableEq, Repr

namespace Stage

/-- The letter `_convert_version` appends. -/
def letter : Stage → Char
  | .alpha => 'a'
  | .beta => 'b'
  | .release => 'c'

end Stage

/-- The word `-alpha`. -/
def alphaSuffix : Text := ['-', 'a', 'l', 'p', 'h', 'a']

/-- The word `-beta`. -/
def betaSuffix : Text := ['-', 'b', 'e', 't', 'a']

/-- The version in lower case without its suffix, and the suffix. -/
def splitStage (version : Text) : Text × Stage :=
  let vn := lc version
  match cutEnd alphaSuffix vn with
  | some vn => (vn, .alpha)
  | none =>
    match cutEnd betaSuffix vn with
    | some vn => (vn, .beta)
    | none => (vn, .release)

def convertVersion (version : Text) : Text :=
  fillNumbers [] (splitStage version).1 ++ [(splitStage version).2.letter]

/-- The word `version`. -/
def versionWord : Text := ['v', 'e', 'r', 's', 'i', 'o', 'n']

/-- `_convert_function`: the method of comparison, `version` if there is none. -/
def convertFunction (override : Option Text) : Except String (Text → Text) :=
  match override with
  | none => .ok convertVersion
  | some name =>
    if name = versionWord then .ok convertVersion
    else .error ("Invalid version comparison: " ++ String.ofList name ++ "\n")

/-- The operators of a condition. -/
inductive VersionOp
  | lt
  | le
  | eq
  | ge
  | gt
  deriving DecidableEq, Repr

namespace VersionOp

/-- Whether two values with an order meet the operator. -/
def holds : VersionOp → Ordering → Bool
  | .lt, order => order.isLT
  | .le, order => order.isLE
  | .eq, order => order.isEq
  | .ge, order => order.isGE
  | .gt, order => order.isGT

end VersionOp

/-- `_cmp_version`: no version means the latest one. -/
def cmpVersion (op : VersionOp) (current : Option Text) (val : Text) (override : Option Text) :
    Except String Bool :=
  match current with
  | none => .ok (decide (op = .gt) || decide (op = .ge))
  | some version => do
    let convert ← convertFunction override
    let ch := convert version
    let cv := convert val
    match op with
    | .eq => .ok (compare ch cv == .eq)
    | .gt => .ok (compare ch cv == .gt)
    | .ge => .ok (compare ch cv != .lt)
    | .lt => .ok (compare ch cv == .lt)
    | .le => .ok (compare ch cv != .gt)

/-- `all_versions`: what Perl's `sort` can make of the versions of the repository. It does not say
in which order versions of one text come. -/
structure AllVersions (vcs vers : List Text) : Prop where
  perm : vers.Perm vcs
  sorted : vers.Pairwise fun a b ↦ compare (convertVersion a) (convertVersion b) ≠ .gt

/-- `last_version` of the versions as `all_versions` has them. -/
def lastVersion (vers : List Text) : Option Text := vers.getLast?

/-! ### The documented order -/

/-- A run of digits, a run of letters or a separator. -/
inductive Run
  | number (n : ℕ)
  | word (w : Text)
  | separator (c : Char)
  deriving DecidableEq, Repr

namespace Run

def rank : Run → Char
  | .number _ => '0'
  | .word _ => 'a'
  | .separator c => c

def kind : Run → ℕ
  | .number _ => 0
  | .word _ => 1
  | .separator _ => 2

def value : Run → ℕ
  | .number n => n
  | _ => 0

def letters : Run → Text
  | .word w => w
  | _ => []

/-- Runs of different kinds in a fixed order, numbers by value, words alphabetically. -/
instance : Ord Run where
  compare := compareLex (compareOn rank) (compareLex (compareOn kind)
    (compareLex (compareOn value) (compareOn letters)))

end Run

/-- The runs of a text in lower case, `open?` being the run just read. -/
def runsFrom : Option Run → Text → List Run
  | open?, [] => open?.toList
  | open?, c :: rest =>
    if c.isDigit then
      match open? with
      | some (.number n) => runsFrom (some (.number (10 * n + (c.toNat - 48)))) rest
      | open? => open?.toList ++ runsFrom (some (.number (c.toNat - 48))) rest
    else if c.isLower then
      match open? with
      | some (.word w) => runsFrom (some (.word (w ++ [c]))) rest
      | open? => open?.toList ++ runsFrom (some (.word [c])) rest
    else open?.toList ++ .separator c :: runsFrom none rest

def runs (s : Text) : List Run := runsFrom none s

instance : Ord Stage where
  compare := compareOn Stage.letter

/-- The suffixes `-alpha` and `-beta` at the end of a text in lower case, and what is before them;
at most `fuel` are taken off. -/
def splitSuffixes : ℕ → Text → Text × List Stage
  | 0, s => (s, [])
  | fuel + 1, s =>
    if alphaSuffix.isSuffixOf s then
      let parts := splitSuffixes fuel (s.take (s.length - 6))
      (parts.1, parts.2 ++ [.alpha])
    else if betaSuffix.isSuffixOf s then
      let parts := splitSuffixes fuel (s.take (s.length - 5))
      (parts.1, parts.2 ++ [.beta])
    else (s, [])

def parts (version : Text) : Text × List Stage := splitSuffixes (lc version).length (lc version)

/-- The order of the documentation: by the runs without the suffixes, a version before every longer
one that begins with its runs; with the same runs by the suffixes, `-alpha` before `-beta` before
none. -/
def documented : Text → Text → Ordering :=
  compareLex (compareOn fun version ↦ runs (parts version).1)
    (compareOn fun version ↦ (parts version).2 ++ [.release])

/-! ### Where the texts have that order -/

namespace Run

def printed : Run → Text
  | .number n => sprintf015d n
  | .word w => w
  | .separator c => [c]

def first : Run → Char
  | .number _ => '0'
  | .word w => w.headD 'a'
  | .separator c => c

end Run

def key (xs : List Run) (stage : Stage) : Text := xs.flatMap Run.printed ++ [stage.letter]

/-- The character after a run: that of the next run or the letter at the end. -/
def after (xs : List Run) (stage : Stage) : Char := (xs.head?.map Run.first).getD stage.letter

def width (size n : ℕ) : ℕ := max size (Nat.toDigits 10 n).length

/-- The text of a number with `c` after it is before that of a greater one: if it has as many digits
always, otherwise if the number is less than the leading digits of the other, or the same and `c`
before the digits. -/
def NumberTold (size m : ℕ) (c : Char) (n : ℕ) : Prop :=
  m < n / 10 ^ (width size n - width size m) ∨ m = n / 10 ^ (width size n - width size m) ∧ c < '0'

/-- The text of a number with what follows it is before that of a greater one. Numbers of `2 ^ 63`
or more are printed as negative ones, the greater ones with the smaller size. -/
def NumbersTold (m : ℕ) (xs : List Run) (s : Stage) (n : ℕ) (ys : List Run) (t : Stage) : Prop :=
  if n < 2 ^ 63 then NumberTold 15 m (after xs s) n
  else 2 ^ 63 ≤ m ∧ if minus m = minus n then compare (key xs s) (key ys t) = .lt
    else ¬ NumberTold 14 (minus n) (after ys t) (minus m)

/-- The text of a word with `c` after it is before that of a longer word that begins with it. -/
def WordTold (v : Text) (c : Char) (w : Text) : Prop := ∀ l rest, w = v ++ l :: rest → c ≤ l

/-- The texts of a separator and of a number that begins with a sign are in the order of the
separator and a digit. -/
def SignTold (c : Char) (ys : List Run) (t : Stage) (n : ℕ) (xs : List Run) (s : Stage) : Prop :=
  2 ^ 63 ≤ n → c ≠ '.' ∧ c ≠ '/' ∧
    (c = '-' → compare (key ys t) (fill 14 (minus n) ++ key xs s) = .lt)

/-- The texts of two different runs and what follows them have the order of the runs. -/
def RunsTold : Run → List Run → Stage → Run → List Run → Stage → Prop
  | .number m, xs, s, .number n, ys, t =>
    if m < n then NumbersTold m xs s n ys t else NumbersTold n ys t m xs s
  | .word v, xs, s, .word w, ys, t => WordTold v (after xs s) w ∧ WordTold w (after ys t) v
  | .number m, xs, s, .separator c, ys, t => SignTold c ys t m xs s
  | .separator c, xs, s, .number n, ys, t => SignTold c xs s n ys t
  | _, _, _, _, _, _ => True

/-- The texts for runs with a suffix have the order of the runs: at the first different runs, or
where one goes on after the other has ended, with a character that is not before the letter at the
end. -/
def OrderTold : List Run → Stage → List Run → Stage → Prop
  | [], _, [], _ => True
  | [], s, y :: _, _ => s.letter ≤ y.first
  | x :: _, _, [], t => t.letter ≤ x.first
  | x :: xs, s, y :: ys, t => if x = y then OrderTold xs s ys t else RunsTold x xs s y ys t

/-- The runs of a version without the suffix that `_convert_version` takes off. -/
def versionRuns (version : Text) : List Run := runs (splitStage version).1

/-- The order by the runs without that one suffix, and then by the suffix. It is the documented one
unless a version has two suffixes, or one before a final newline. -/
def runOrder (a b : Text) : Ordering :=
  (compare (versionRuns a) (versionRuns b)).then (compare (splitStage a).2 (splitStage b).2)

def RunOrderTold (a b : Text) : Prop :=
  OrderTold (versionRuns a) (splitStage a).2 (versionRuns b) (splitStage b).2

/-- The converted texts of two versions have the documented order: that of the runs is the
documented one and the texts have it, or neither. -/
def Told (a b : Text) : Prop :=
  if runOrder a b = documented a b then RunOrderTold a b
  else ¬ RunOrderTold a b ∧ convertVersion a ≠ convertVersion b

end LumoSQL.NotFork
