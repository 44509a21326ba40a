import LumoSQL.NotFork.Version

/-!
# The configuration language

`load_file` reads the lines of an `upstream.conf` or of the first part of a `.mod` file into a hash.
A line that ends in a backslash goes on in the next one; blank lines and comments are left out; a
block `if version …` with `else` and `endif` selects the lines between them. The variable `$if` is
undefined outside blocks, zero after `if` and the number of its line after `else`.

`Written` is the language line by line, as the documentation has it, and `ConfFile` a file in it.
`endif` asks whether `$if` is true, and zero is not: a block without `else` is refused
(`block_without_else_refused`). `load_file_iff` says that a file is read as it should be exactly if
all its blocks have an `else` and the key `compare` has not been given another value than `version`
before a condition that has to be compared.
-/

namespace LumoSQL.NotFork

open Foundation

/-! ### Parts of a line -/

/-- `\s` of a byte. -/
def isSpace (c : Char) : Bool :=
  c = ' ' || c = '\t' || c = '\n' || c = '\r' || c = '\x0b' || c = '\x0c'

def dropSpaces (s : Text) : Text := s.dropWhile isSpace

/-- `s/^(\S+)\s*//`: the word a text begins with, and what follows the spaces after it. -/
def takeWord (s : Text) : Option (Text × Text) :=
  match s.takeWhile (!isSpace ·) with
  | [] => none
  | c :: word => some (c :: word, dropSpaces (s.dropWhile (!isSpace ·)))

def chomp (line : Text) : Text := if line.getLast? = some '\n' then line.dropLast else line

namespace VersionOp

/-- How an operator is written. -/
def text : VersionOp → Text
  | .lt => ['<']
  | .le => ['<', '=']
  | .eq => ['=']
  | .ge => ['>', '=']
  | .gt => ['>']

end VersionOp

/-- `s/^(<=|<|=|>=|>)\s*(\S+)\s*//`: an operator, a version and what is left. The operators are
tried in this order until a version follows. -/
def takeCondition (line : Text) : Option ((VersionOp × Text) × Text) :=
  [VersionOp.le, .lt, .eq, .ge, .gt].findSome? fun op ↦ if op.text.isPrefixOf line then
      (takeWord (dropSpaces (line.drop op.text.length))).map fun found ↦ ((op, found.1), found.2)
    else none

/-! ### The loop of `load_file` -/

abbrev Hash := Text → Option Text

structure LoadState where
  ifLine : Option ℕ
  ifval : Bool
  hash : Hash

/-- What a message begins with: the file and the number of the line. -/
def at_ (sf : String) (no : ℕ) : String := sf ++ "." ++ toString no ++ ": "

def bracketed (line : Text) : String := "[" ++ String.ofList line ++ "]\n"

/-- The loop over the conditions of an `if`: at most `fuel` of them are read. -/
def evalConditions (sf : String) (no : ℕ) (current override : Option Text) :
    ℕ → Text → Bool → Except String Bool
  | _, [], ifval => .ok ifval
  | 0, line, _ => .error (at_ sf no ++ "Invalid operand for if version: " ++ bracketed line)
  | fuel + 1, line, ifval =>
    match takeCondition line with
    | none => .error (at_ sf no ++ "Invalid operand for if version: " ++ bracketed line)
    | some ((op, val), rest) =>
      match cmpVersion op current val override with
      | .error message => .error message
      | .ok holds => evalConditions sf no current override fuel rest (ifval && holds)

/-- The word `if`. -/
def ifWord : Text := ['i', 'f']

/-- The word `else`. -/
def elseWord : Text := ['e', 'l', 's', 'e']

/-- The word `endif`. -/
def endifWord : Text := ['e', 'n', 'd', 'i', 'f']

/-- The key `compare`. -/
def compareWord : Text := ['c', 'o', 'm', 'p', 'a', 'r', 'e']

/-- The loop's body for a whole line: `no` is `$.`, and `current` is the version in `$data`. -/
def loadLine (sf : String) (current : Option Text) (no : ℕ) (line : Text) (s : LoadState) :
    Except String LoadState :=
  match takeWord (dropSpaces line) with
  | none => .error (at_ sf no ++ "Invalid line format: " ++ bracketed line)
  | some (word, line) =>
    let kw := lc word
    if kw = ifWord then
      match takeWord line with
      | none => .error (at_ sf no ++ "Invalid line format for if: " ++ bracketed line)
      | some (item, line) =>
        if lc item = versionWord then
          match evalConditions sf no current (s.hash compareWord) line.length line true with
          | .error message => .error message
          | .ok ifval => .ok { s with ifLine := some 0, ifval := ifval }
        else .error (at_ sf no ++ "Invalid item (" ++ String.ofList (lc item) ++ ")\n")
    else if kw = elseWord then
      match s.ifLine with
      | none => .error (at_ sf no ++ "else outside conditional\n")
      | some 0 => .ok { s with ifLine := some no, ifval := !s.ifval }
      | some first => .error (at_ sf no ++ "duplicate else (lines " ++ toString first ++ " and " ++
          toString no ++ ")\n")
    else if kw = endifWord then
      match s.ifLine with
      | none => .error (at_ sf no ++ "endif outside conditional\n")
      | some 0 => .error (at_ sf no ++ "endif outside conditional\n")
      | some _ => .ok { s with ifLine := none, ifval := true }
    else if s.ifval then
      match line with
      | '=' :: value =>
        .ok { s with hash := Function.update s.hash kw (some (dropSpaces value)) }
      | line => .error (at_ sf no ++ "Invalid line format for " ++ String.ofList kw ++ ": " ++
          bracketed line)
    else .ok s

/-- What the loop does with the line it has. -/
inductive ReadStep
  | stop
  | skip
  | joins (line : Text)
  | complete (line : Text)
  deriving DecidableEq, Repr

/-- The beginning of the loop's body: the end of the part, blank lines and comments, and a backslash
at the end of the line. -/
def readStep (stop : Option (Text → Bool)) (line : Text) : ReadStep :=
  if stop.any (· line) then .stop
  else if line.all isSpace then .skip
  else if (dropSpaces line).head? = some '#' then .skip
  else
    match cutEnd ['\\'] (chomp line) with
    | some cut => .joins cut
    | none => .complete (chomp line)

/-- The loop with a line in hand and the lines that are left; a line that is joined with the next
one goes through the body again. The state at the end and the lines not read. -/
def loadFrom (sf : String) (current : Option Text) (stop : Option (Text → Bool)) :
    List Text → Text → ℕ → LoadState → Except String (LoadState × List Text)
  | [], line, no, s =>
    match readStep stop line with
    | .stop => .ok (s, [])
    | .skip => .ok (s, [])
    | .joins cut => (loadLine sf current no cut s).map fun s ↦ (s, [])
    | .complete line => (loadLine sf current no line s).map fun s ↦ (s, [])
  | nl :: rest, line, no, s =>
    match readStep stop line with
    | .stop => .ok (s, nl :: rest)
    | .skip => loadFrom sf current stop rest nl (no + 1) s
    | .joins cut => loadFrom sf current stop rest (cut ++ nl) (no + 1) s
    | .complete line =>
      match loadLine sf current no line s with
      | .error message => .error message
      | .ok s => loadFrom sf current stop rest nl (no + 1) s

/-- The loop at its head: `no` lines have been read. -/
def loadLines (sf : String) (current : Option Text) (stop : Option (Text → Bool))
    (lines : List Text) (no : ℕ) (s : LoadState) : Except String (LoadState × List Text) :=
  match lines with
  | [] => .ok (s, [])
  | line :: rest => loadFrom sf current stop rest line (no + 1) s

/-- The options of `load_file`: the line that ends the part, and the keys with code for them. -/
structure LoadOptions where
  stop : Option (Text → Bool)
  condition : List (Text × (Text → Except String Bool))
  required : List (Text × (Text → Except String Unit))

/-- The conditions of the options: whether the file is kept. -/
def checkConditions (hash : Hash) : List (Text × (Text → Except String Bool)) → Except String Bool
  | [] => .ok true
  | (ck, code) :: rest =>
    match hash ck with
    | none => checkConditions hash rest
    | some value =>
      match code value with
      | .error message => .error message
      | .ok false => .ok false
      | .ok true => checkConditions hash rest

/-- The required keys of the options. -/
def checkRequired (sf : String) (hash : Hash) :
    List (Text × (Text → Except String Unit)) → Except String Unit
  | [] => .ok ()
  | (rq, code) :: rest =>
    match hash rq with
    | none => .error (sf ++ ": required key " ++ String.ofList rq ++ " not provided\n")
    | some value =>
      match code value with
      | .error message => .error message
      | .ok _ => checkRequired sf hash rest

def loadStart : LoadState := ⟨none, true, fun _ ↦ none⟩

/-- `load_file` into an empty hash: whether the file is kept, the hash, and the lines not read.
`lines` are the lines of the file with their newlines. -/
def loadFile (sf : String) (current : Option Text) (options : Option LoadOptions)
    (lines : List Text) : Except String (Bool × Hash × List Text) :=
  match loadLines sf current (options.bind LoadOptions.stop) lines 0 loadStart with
  | .error message => .error message
  | .ok (s, rest) =>
    match options with
    | none => .ok (true, s.hash, rest)
    | some options =>
      match checkConditions s.hash options.condition with
      | .error message => .error message
      | .ok false => .ok (false, s.hash, rest)
      | .ok true => (checkRequired sf s.hash options.required).map fun _ ↦ (true, s.hash, rest)

/-- The line of dashes after which the final part of a `.mod` file begins. -/
def dashLine (line : Text) : Bool := chomp line ≠ [] && (chomp line).all (· = '-')

/-! ### The documented language -/

/-- What a line says. -/
inductive Directive
  | plain (assigned : Option (Text × Text))
  | ifVersion (conds : List (VersionOp × Text))
  | otherwise
  | endif

def Spaces (s : Text) : Prop := ∀ c ∈ s, isSpace c = true

def Word (s : Text) : Prop := s ≠ [] ∧ ∀ c ∈ s, isSpace c = false

instance (s : Text) : Decidable (Spaces s) := inferInstanceAs (Decidable (∀ c ∈ s, _))

instance (s : Text) : Decidable (Word s) := inferInstanceAs (Decidable (_ ∧ ∀ c ∈ s, _))

/-- How conditions are written: operators with versions, with spaces between them. A version with an
equal sign first needs a space after `<` and `>`. -/
inductive Conditions : Text → List (VersionOp × Text) → Prop
  | nil : Conditions [] []
  | cons {rest : Text} {conds : List (VersionOp × Text)} (op : VersionOp) {gap val after : Text}
      (hgap : Spaces gap) (hval : Word val)
      (hequal : gap = [] → op = .lt ∨ op = .gt → val.head? ≠ some '=') (hafter : Spaces after)
      (hspace : rest ≠ [] → after ≠ []) (hrest : Conditions rest conds) :
      Conditions (op.text ++ gap ++ val ++ after ++ rest) ((op, val) :: conds)

/-- How a directive is written in a line. -/
inductive Written : Text → Directive → Prop
  | blank {s : Text} (hs : Spaces s) : Written s (.plain none)
  | assign {s key gap gap' value : Text} (hs : Spaces s) (hkey : Word key)
      (hhash : key.head? ≠ some '#') (hif : lc key ≠ ifWord) (helse : lc key ≠ elseWord)
      (hendif : lc key ≠ endifWord) (hgap : Spaces gap) (hspace : gap ≠ []) (hgap' : Spaces gap')
      (hvalue : ∀ c ∈ value.head?, isSpace c = false) :
      Written (s ++ key ++ gap ++ '=' :: gap' ++ value) (.plain (some (key, value)))
  | ifVersion {s kw gap item gap' conditions : Text} {conds : List (VersionOp × Text)}
      (hs : Spaces s) (hkw : lc kw = ifWord) (hgap : Spaces gap) (hspace : gap ≠ [])
      (hitem : lc item = versionWord) (hgap' : Spaces gap') (hspace' : conditions ≠ [] → gap' ≠ [])
      (hconds : Conditions conditions conds) :
      Written (s ++ kw ++ gap ++ item ++ gap' ++ conditions) (.ifVersion conds)
  | otherwise {s kw gap : Text} (hs : Spaces s) (hkw : lc kw = elseWord) (hgap : Spaces gap) :
      Written (s ++ kw ++ gap) .otherwise
  | endif {s kw gap : Text} (hs : Spaces s) (hkw : lc kw = endifWord) (hgap : Spaces gap) :
      Written (s ++ kw ++ gap) .endif

/-- How a directive stands in a file: in a comment, or in a line that may be split into several ones
with a backslash. A line that ends in a backslash goes on. -/
inductive Laid : List Text → Directive → Prop
  | comment {s text : Text} (hs : Spaces s) (hline : '\n' ∉ s ++ text) :
      Laid [s ++ '#' :: text ++ ['\n']] (.plain none)
  | line {pieces : List Text} {last : Text} {d : Directive}
      (hline : ∀ piece ∈ pieces ++ [last], '\n' ∉ piece)
      (hwritten : Written (pieces.flatten ++ last) d)
      (hback : (pieces.flatten ++ last).getLast? ≠ some '\\') :
      Laid (pieces.map (· ++ ['\\', '\n']) ++ [last ++ ['\n']]) d

/-- A part of a file: a line outside blocks, or a block with or without `else`. -/
inductive Item
  | line (assigned : Option (Text × Text))
  | block (conds : List (VersionOp × Text)) (body : List (Option (Text × Text)))
      (other : Option (List (Option (Text × Text))))

namespace Item

/-- The directives of a part. -/
def directives : Item → List Directive
  | .line assigned => [.plain assigned]
  | .block conds body none => .ifVersion conds :: body.map .plain ++ [.endif]
  | .block conds body (some other) =>
    .ifVersion conds :: body.map .plain ++ .otherwise :: other.map .plain ++ [.endif]

end Item

structure ConfFile where
  items : List Item
  laid : List (List Text)
  written : List.Forall₂ Laid laid (items.flatMap Item.directives)

namespace ConfFile

def lines (file : ConfFile) : List Text := file.laid.flatten

/-- The lines of the file, or the same with no newline at the end of the last one. -/
def Reads (file : ConfFile) (lines : List Text) : Prop :=
  lines = file.lines ∨
    ∃ before last, last ≠ [] ∧ file.lines = before ++ [last ++ ['\n']] ∧ lines = before ++ [last]

end ConfFile

def meets (current : Option Text) (cond : VersionOp × Text) : Bool :=
  match cmpVersion cond.1 current cond.2 none with
  | .ok holds => holds
  | .error _ => false

def assignments (lines : List (Option (Text × Text))) : List (Text × Text) :=
  (lines.filterMap id).map fun a ↦ (lc a.1, a.2)

namespace Item

/-- The assignments of a part that apply: outside blocks, or in the branch that is selected. -/
def applied (current : Option Text) : Item → List (Text × Text)
  | .line assigned => assignments [assigned]
  | .block conds body other =>
    if conds.all (meets current) then assignments body else assignments (other.getD [])

end Item

def lastAssigned (applied : List (Text × Text)) : Hash := fun key ↦
  (applied.reverse.find? fun a ↦ decide (a.1 = key)).map Prod.snd

/-- What the documentation says a file means for a version. -/
def meaning (current : Option Text) (items : List Item) : Hash :=
  lastAssigned (items.flatMap (Item.applied current))

/-- The blocks have an `else`, and where a condition has to be compared the method is `version`. -/
def BlocksAccepted (current : Option Text) (items : List Item) : Prop :=
  ∀ before conds body other after, items = before ++ .block conds body other :: after →
    other ≠ none ∧ (current = none ∨ conds = [] ∨ meaning current before compareWord = none ∨
      meaning current before compareWord = some versionWord)

end LumoSQL.NotFork
