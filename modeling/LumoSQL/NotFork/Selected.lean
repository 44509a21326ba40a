import LumoSQL.NotFork.LoadFile

/-!
# The version that selects and the version recorded

The constructor of `NotFork::Get` evaluates every condition of `upstream.conf` and of the `.mod`
files with the version that was asked for, or with none for a commit and when nothing was asked for;
no version counts as the latest one. `get` checks something out later and records its version. The
conditions are not evaluated again, so `install` works with what the first version selected.

`Gets` is what `get` can record for a repository. A request for nothing selects the lines after
`if version > 5` even if the latest version there is turns out to be `3`
(`selected_for_other_version`); `config_matches_iff` says that the configuration is that of the
recorded version exactly if the two versions give every key of every file the same value and no
block is refused for the recorded one. It is so in every configuration when a version was asked for
and what was checked out has a tag that converts to the same text (`selectsAlike_of_text`).
-/

namespace LumoSQL.NotFork

open Foundation List Option

/-! ### The constructor -/

/-- A `.mod` file: the first part, and nothing or a line of dashes with the final part. -/
structure ModFile where
  name : String
  file : ConfFile
  final : List Text
  parted : final = [] ∨ ∃ dashes tail, dashLine dashes = true ∧ final = dashes :: tail

/-- The files of a configuration: `upstream.conf`, whose last line may have no newline, and the
`.mod` files in the order of their names. -/
structure ConfigFiles where
  name : String
  upstream : ConfFile
  lines : List Text
  reads : upstream.Reads lines
  mods : List ModFile

namespace ConfigFiles

def all (files : ConfigFiles) : List ConfFile := files.upstream :: files.mods.map ModFile.file

end ConfigFiles

/-- The key `vcs`. -/
def vcsWord : Text := ['v', 'c', 's']

/-- The key `method`. -/
def methodWord : Text := ['m', 'e', 't', 'h', 'o', 'd']

/-- What the constructor keeps: the values of `upstream.conf`, and for each modification the values
and the final part that its object is made of. -/
abbrev Config := Hash × List (Hash × List Text)

/-- The options for `upstream.conf`. -/
def upstreamOptions : LoadOptions := ⟨none, [], [(vcsWord, fun _ ↦ .ok ())]⟩

/-- The options for `.mod` files. The code for the key `version` is a reference to a sub that is not
there. -/
def modOptions : LoadOptions where
  stop := some dashLine
  condition := [(versionWord, fun _ ↦
    .error "Undefined subroutine &NotFork::Get::_check_version called\n")]
  required := [(methodWord, fun _ ↦ .ok ())]

section

/- `loadVcs` and `loadMethod` make the objects for the keys `vcs` and `method`, or die. -/
variable (loadVcs : Hash → Except String Unit) (loadMethod : Hash → List Text → Except String Unit)

def loadUpstream (current : Option Text) (files : ConfigFiles) : Except String Hash :=
  match loadFile files.name current (some upstreamOptions) files.lines with
  | .error message => .error message
  | .ok (_, kw, _) => (loadVcs kw).map fun _ ↦ kw

/-- `_load_modfile`: what is pushed to the list of modifications, if anything. -/
def loadModfile (current : Option Text) (mod : ModFile) :
    Except String (Option (Hash × List Text)) :=
  match loadFile mod.name current (some modOptions) (mod.file.lines ++ mod.final) with
  | .error message => .error message
  | .ok (false, _, _) => .ok none
  | .ok (true, kw, rest) => (loadMethod kw rest).map fun _ ↦ some (kw, rest)

/-- The loop over the `.mod` files. -/
def loadModfiles (current : Option Text) : List ModFile → Except String (List (Hash × List Text))
  | [] => .ok []
  | mod :: mods => do
    let kept ← loadModfile loadMethod current mod
    let others ← loadModfiles current mods
    .ok (kept.toList ++ others)

def loadConfig (current : Option Text) (files : ConfigFiles) : Except String Config := do
  let kw ← loadUpstream loadVcs current files
  let mods ← loadModfiles loadMethod current files.mods
  .ok (kw, mods)

end

/-! ### The version recorded -/

/-- What is asked for. -/
inductive Request
  | version (v : Text)
  | commit (c : Text)
  | latest
  deriving DecidableEq, Repr

namespace Request

/-- `$obj->{version}` in the constructor. -/
def asked : Request → Option Text
  | .version v => some v
  | .commit _ => none
  | .latest => none

end Request

/-- A repository after `clone` or `pull`: what is checked out then, what `git checkout` of a name
checks out, the names of the tags, and the lines of `git show-ref --dereference` for tags. `strip`
matches a name with a prefix, which is a pattern, and has what follows it. -/
structure Repository (O : Type*) where
  head : O
  checkout : Text → Option O
  tags : List Text
  refs : List (O × Text)
  strip : Text → Text → Option Text

/-- The prefix of tags in the object for Git. An option `version` of two words is taken for a prefix
and a suffix, but the words are not assigned; the suffix is always empty. -/
def versionPrefix (kw : Hash) : Text :=
  match kw versionWord with
  | none => []
  | some option =>
    if option.takeWhile (!isSpace ·) ≠ [] ∧ option.dropWhile (!isSpace ·) ≠ [] then []
    else option

section

variable {O : Type*} [DecidableEq O]

namespace Repository

/-- `all_versions` of the object for Git. -/
def allVersions (repo : Repository O) (kw : Hash) : List Text :=
  repo.tags.filterMap (repo.strip (versionPrefix kw))

/-- `version` of the object for Git with `oid` checked out: the last of the tags at it, without
`^{}` at its end. -/
def version (repo : Repository O) (kw : Hash) (oid : O) : Option Text :=
  repo.refs.foldl (fun version ref ↦ match repo.strip (versionPrefix kw) ref.2 with
    | none => version
    | some name => if ref.1 = oid then some (name.takeWhile (· ≠ '^')) else version) none

/-- What `get` can check out. Without a version and a commit it is the last version, for which the
method of comparison is looked up, or what is there if there are no versions. -/
inductive ChecksOut (repo : Repository O) (kw : Hash) : Request → O → Prop
  | version {v : Text} {oid : O} (hcheckout : repo.checkout (versionPrefix kw ++ v) = some oid) :
      ChecksOut repo kw (.version v) oid
  | commit {c : Text} {oid : O} (hcheckout : repo.checkout c = some oid) :
      ChecksOut repo kw (.commit c) oid
  | latest {vers : List Text} {v : Text} {oid : O}
      (hconvert : convertFunction (kw compareWord) = .ok convertVersion)
      (hvers : AllVersions (repo.allVersions kw) vers) (hlast : lastVersion vers = some v)
      (hcheckout : repo.checkout (versionPrefix kw ++ v) = some oid) :
      ChecksOut repo kw .latest oid
  | stays {vers : List Text} (hconvert : convertFunction (kw compareWord) = .ok convertVersion)
      (hvers : AllVersions (repo.allVersions kw) vers) (hlast : lastVersion vers = none) :
      ChecksOut repo kw .latest repo.head

/-- What `get` can leave in `$obj->{version}`: the version of what it checked out, or the one asked
for if that has none. -/
def Gets (repo : Repository O) (kw : Hash) (request : Request) (recorded : Option Text) : Prop :=
  ∃ oid, repo.ChecksOut kw request oid ∧ recorded = (repo.version kw oid).or request.asked

end Repository

/-- Every version that `get` can record gives the same values as the one asked for, in every file,
and no block is refused for it. -/
def SelectsAlike (repo : Repository O) (request : Request) (files : ConfigFiles) : Prop :=
  ∀ recorded, repo.Gets (meaning request.asked files.upstream.items) request recorded →
    ∀ file ∈ files.all, BlocksAccepted recorded file.items ∧
      meaning recorded file.items = meaning request.asked file.items

end

/-! ### Loading a file -/

theorem exists_of_bind_ok {α β : Type} {x : Except String α} {f : α → Except String β} {b : β}
    (hok : x >>= f = .ok b) : ∃ a, x = .ok a ∧ f a = .ok b := by
  cases x with
  | error message => cases hok
  | ok a => exact ⟨a, rfl, hok⟩

theorem exists_of_map_ok {α β : Type} {x : Except String α} {f : α → β} {b : β}
    (hok : x.map f = .ok b) : ∃ a, x = .ok a ∧ f a = b := by
  cases x with
  | error message => cases hok
  | ok a => exact ⟨a, rfl, Except.ok.inj hok⟩

section

variable {current : Option Text}

/-- The rest of `load_file` after its loop. -/
def finishFile (sf : String) (options : LoadOptions) (hash : Hash) (rest : List Text) :
    Except String (Bool × Hash × List Text) :=
  match checkConditions hash options.condition with
  | .error message => .error message
  | .ok false => .ok (false, hash, rest)
  | .ok true => (checkRequired sf hash options.required).map fun _ ↦ (true, hash, rest)

theorem finishFile_ok {sf : String} {options : LoadOptions} {hash kw : Hash}
    {rest rest' : List Text} {keep : Bool}
    (hfinish : finishFile sf options hash rest = .ok (keep, kw, rest')) :
    checkConditions hash options.condition = .ok keep ∧ kw = hash ∧ rest' = rest := by
  unfold finishFile at hfinish
  cases hconditions : checkConditions hash options.condition with
  | error message =>
    rw [hconditions] at hfinish
    cases hfinish
  | ok holds =>
    rw [hconditions] at hfinish
    cases holds with
    | false =>
      cases hfinish
      exact ⟨rfl, rfl, rfl⟩
    | true =>
      obtain ⟨-, -, hresult⟩ := exists_of_map_ok hfinish
      cases hresult
      exact ⟨rfl, rfl, rfl⟩

/-- A file is refused, or the code for its keys decides. -/
def Finishes (sf : String) (current : Option Text) (options : LoadOptions) (file : ConfFile)
    (lines rest : List Text) : Prop :=
  (¬ BlocksAccepted current file.items ∧
      ∃ message, loadFile sf current (some options) lines = .error message) ∨
    (BlocksAccepted current file.items ∧ loadFile sf current (some options) lines
      = finishFile sf options (meaning current file.items) rest)

namespace Finishes

variable {sf : String} {options : LoadOptions} {file : ConfFile} {lines rest : List Text}

/-- A file that is loaded has its blocks accepted and its values as it is meant. -/
theorem of_ok (hfile : Finishes sf current options file lines rest) {keep : Bool} {kw : Hash}
    {rest' : List Text} (hok : loadFile sf current (some options) lines = .ok (keep, kw, rest')) :
    BlocksAccepted current file.items ∧
      checkConditions (meaning current file.items) options.condition = .ok keep ∧
      kw = meaning current file.items ∧ rest' = rest := by
  rcases hfile with ⟨-, message, herror⟩ | ⟨haccepted, hfinish⟩
  · rw [herror] at hok
    cases hok
  · rw [hfinish] at hok
    exact ⟨haccepted, finishFile_ok hok⟩

/-- Two versions that give a file the same values load it alike. -/
theorem congr {other : Option Text} (hfile : Finishes sf current options file lines rest)
    (hother : Finishes sf other options file lines rest)
    (haccepted : BlocksAccepted current file.items) (haccepted' : BlocksAccepted other file.items)
    (hmeaning : meaning other file.items = meaning current file.items) :
    loadFile sf other (some options) lines = loadFile sf current (some options) lines := by
  rcases hfile with ⟨hrefused, -⟩ | ⟨-, hfinish⟩
  · exact absurd haccepted hrefused
  · rcases hother with ⟨hrefused, -⟩ | ⟨-, hfinish'⟩
    · exact absurd haccepted' hrefused
    · rw [hfinish, hfinish', hmeaning]

end Finishes

variable {options : LoadOptions} {sf : String}

theorem loadFile_of_loadLines {lines rest : List Text} {s : LoadState}
    (hlines : loadLines sf current options.stop lines 0 loadStart = .ok (s, rest)) :
    loadFile sf current (some options) lines = finishFile sf options s.hash rest := by
  simp only [loadFile, bind_some]
  rw [hlines]
  rfl

theorem loadFile_of_error {lines : List Text} {message : String}
    (hlines : loadLines sf current options.stop lines 0 loadStart = .error message) :
    loadFile sf current (some options) lines = .error message := by
  simp only [loadFile, bind_some]
  rw [hlines]

theorem upstream_finishes (files : ConfigFiles) :
    Finishes files.name current upstreamOptions files.upstream files.lines [] := by
  have hlines := files.reads.loadLines_eq files.name current
  rcases loadLines_file files.name current files.upstream (.inl rfl) [] with
    ⟨hrefused, message, herror⟩ | ⟨haccepted, s, hblocks, hloads⟩
  · rw [append_nil, ← hlines] at herror
    exact .inl ⟨hrefused, message, loadFile_of_error herror⟩
  · rw [append_nil, ← hlines] at hloads
    refine .inr ⟨haccepted, ?_⟩
    rw [← blocks_hash hblocks]
    exact loadFile_of_loadLines hloads

theorem mod_finishes (mod : ModFile) :
    Finishes mod.name current modOptions mod.file (mod.file.lines ++ mod.final) mod.final.tail := by
  rcases loadLines_file mod.name current mod.file (.inr rfl) mod.final with
    ⟨hrefused, message, herror⟩ | ⟨haccepted, s, hblocks, hloads⟩
  · exact .inl ⟨hrefused, message, loadFile_of_error herror⟩
  · refine .inr ⟨haccepted, ?_⟩
    rw [← blocks_hash hblocks]
    refine loadFile_of_loadLines (hloads.trans ?_)
    rcases mod.parted with hnone | ⟨dashes, tail, hdashes, hfinal⟩
    · rw [hnone]
      rfl
    · rw [hfinal]
      exact loadLines_dashes _ _ hdashes tail _ s

end

/-! ### Loading a configuration -/

section

variable {loadVcs : Hash → Except String Unit} {loadMethod : Hash → List Text → Except String Unit}
variable {current : Option Text}

variable {files : ConfigFiles}

theorem loadUpstream_ok {kw : Hash} (hok : loadUpstream loadVcs current files = .ok kw) :
    BlocksAccepted current files.upstream.items ∧ kw = meaning current files.upstream.items := by
  unfold loadUpstream at hok
  cases hload : loadFile files.name current (some upstreamOptions) files.lines with
  | error message =>
    rw [hload] at hok
    cases hok
  | ok result =>
    obtain ⟨keep, kw', rest⟩ := result
    obtain ⟨haccepted, -, hmeaning, -⟩ := (upstream_finishes files).of_ok hload
    rw [hload] at hok
    obtain ⟨-, -, rfl⟩ := exists_of_map_ok hok
    exact ⟨haccepted, hmeaning⟩

/-- The code for the key `version` never says that a file is left out. -/
theorem modOptions_keeps (hash : Hash) : checkConditions hash modOptions.condition ≠ .ok false := by
  intro hleft
  simp only [modOptions, checkConditions] at hleft
  split at hleft
  · cases hleft
  · cases hleft

theorem loadModfile_ok {mod : ModFile} {kept : Option (Hash × List Text)}
    (hok : loadModfile loadMethod current mod = .ok kept) : BlocksAccepted current mod.file.items ∧
      kept = some (meaning current mod.file.items, mod.final.tail) := by
  unfold loadModfile at hok
  cases hload : loadFile mod.name current (some modOptions) (mod.file.lines ++ mod.final) with
  | error message =>
    rw [hload] at hok
    cases hok
  | ok result =>
    obtain ⟨keep, kw, rest⟩ := result
    obtain ⟨haccepted, hkeep, rfl, rfl⟩ := (mod_finishes mod).of_ok hload
    rw [hload] at hok
    cases keep with
    | false => exact absurd hkeep (modOptions_keeps _)
    | true =>
      obtain ⟨-, -, rfl⟩ := exists_of_map_ok hok
      exact ⟨haccepted, rfl⟩

/-- The modifications that are loaded have the values they are meant to have. -/
theorem loadModfiles_ok {mods : List ModFile} {loaded : List (Hash × List Text)}
    (hok : loadModfiles loadMethod current mods = .ok loaded) :
    (∀ mod ∈ mods, BlocksAccepted current mod.file.items) ∧
      loaded = mods.map fun mod ↦ (meaning current mod.file.items, mod.final.tail) := by
  induction mods generalizing loaded with
  | nil =>
    cases hok
    exact ⟨fun mod hmem ↦ absurd hmem not_mem_nil, rfl⟩
  | cons mod mods ih =>
    obtain ⟨kept, hmod, hrest⟩ := exists_of_bind_ok hok
    obtain ⟨others, hmods, hloaded⟩ := exists_of_bind_ok hrest
    obtain ⟨haccepted, rfl⟩ := loadModfile_ok hmod
    obtain ⟨hothers, rfl⟩ := ih hmods
    cases hloaded
    exact ⟨forall_mem_cons.mpr ⟨haccepted, hothers⟩, rfl⟩

/-- A configuration that is loaded has the values it is meant to have. -/
theorem loadConfig_ok {config : Config}
    (hok : loadConfig loadVcs loadMethod current files = .ok config) :
    (∀ file ∈ files.all, BlocksAccepted current file.items) ∧
      config = (meaning current files.upstream.items,
        files.mods.map fun mod ↦ (meaning current mod.file.items, mod.final.tail)) := by
  obtain ⟨kw, hupstream, hrest⟩ := exists_of_bind_ok hok
  obtain ⟨mods, hmods, hconfig⟩ := exists_of_bind_ok hrest
  obtain ⟨haccepted, rfl⟩ := loadUpstream_ok hupstream
  obtain ⟨hothers, rfl⟩ := loadModfiles_ok hmods
  cases hconfig
  exact ⟨forall_mem_cons.mpr ⟨haccepted, forall_mem_map.mpr hothers⟩, rfl⟩

variable {other : Option Text}

/-- Two versions give a file the same values, and no block is refused for either. -/
def Alike (current other : Option Text) (file : ConfFile) : Prop :=
  BlocksAccepted current file.items ∧ BlocksAccepted other file.items ∧
    meaning other file.items = meaning current file.items

theorem loadModfiles_congr {mods : List ModFile}
    (halike : ∀ mod ∈ mods, Alike current other mod.file) :
    loadModfiles loadMethod other mods = loadModfiles loadMethod current mods := by
  induction mods with
  | nil => rfl
  | cons mod mods ih =>
    obtain ⟨⟨haccepted, haccepted', hmeaning⟩, hothers⟩ := forall_mem_cons.mp halike
    have hload := (mod_finishes mod).congr (mod_finishes mod) haccepted haccepted' hmeaning
    rw [loadModfiles, loadModfiles, ih hothers, loadModfile, hload, ← loadModfile]

/-- Two versions that give the files of a configuration the same values load it alike. -/
theorem loadConfig_congr {files : ConfigFiles}
    (halike : ∀ file ∈ files.all, Alike current other file) :
    loadConfig loadVcs loadMethod other files = loadConfig loadVcs loadMethod current files := by
  obtain ⟨⟨haccepted, haccepted', hmeaning⟩, hmods⟩ := forall_mem_cons.mp halike
  have hload := (upstream_finishes files).congr (upstream_finishes files) haccepted haccepted'
    hmeaning
  have hupstream : loadUpstream loadVcs other files = loadUpstream loadVcs current files := by
    rw [loadUpstream, hload, ← loadUpstream]
  rw [loadConfig, loadConfig, hupstream, loadModfiles_congr (forall_mem_map.mp hmods)]

end

/-! ### The configuration of the version recorded -/

section

variable (loadVcs : Hash → Except String Unit) (loadMethod : Hash → List Text → Except String Unit)
variable {O : Type*} [DecidableEq O]

/-- What the constructor has loaded is what every version that `get` can record selects. -/
def ConfigMatches (repo : Repository O) (request : Request) (files : ConfigFiles)
    (config : Config) : Prop :=
  ∀ recorded, repo.Gets config.1 request recorded →
    loadConfig loadVcs loadMethod recorded files = .ok config

end

/-- An `upstream.conf` of the lines `vcs = git`, `if version > 5`, `a = 1`, `else` and `endif`. -/
def newerBlock : ConfFile where
  items := [.line (some (vcsWord, ['g', 'i', 't'])),
    .block [(.gt, ['5'])] [some (['a'], ['1'])] (some [])]
  laid := [[['v', 'c', 's', ' ', '=', ' ', 'g', 'i', 't', '\n']],
    [['i', 'f', ' ', 'v', 'e', 'r', 's', 'i', 'o', 'n', ' ', '>', ' ', '5', '\n']],
    [['a', ' ', '=', ' ', '1', '\n']], [['e', 'l', 's', 'e', '\n']],
    [['e', 'n', 'd', 'i', 'f', '\n']]]
  written := by
    refine .cons ?_ (.cons ?_ (.cons ?_ (.cons ?_ (.cons ?_ .nil))))
    · exact @Laid.line [] _ _ (by decide) (@Written.assign [] vcsWord [' '] [' '] ['g', 'i', 't']
        (by decide) (by decide) (by decide) (by decide) (by decide) (by decide) (by decide)
        (by decide) (by decide) (by decide)) (by decide)
    · have hconds : Conditions ['>', ' ', '5'] [(.gt, ['5'])] :=
        @Conditions.cons [] [] .gt [' '] ['5'] [] (by decide) (by decide) (by decide) (by decide)
          (by decide) .nil
      exact @Laid.line [] _ _ (by decide) (@Written.ifVersion [] ['i', 'f'] [' '] versionWord [' ']
        _ _ (by decide) rfl (by decide) (by decide) rfl (by decide) (by decide) hconds) (by decide)
    · exact @Laid.line [] _ _ (by decide) (@Written.assign [] ['a'] [' '] [' '] ['1'] (by decide)
        (by decide) (by decide) (by decide) (by decide) (by decide) (by decide) (by decide)
        (by decide) (by decide)) (by decide)
    · exact @Laid.line [] _ _ (by decide) (@Written.otherwise [] elseWord [] (by decide) rfl
        (by decide)) (by decide)
    · exact @Laid.line [] _ _ (by decide) (@Written.endif [] endifWord [] (by decide) rfl
        (by decide)) (by decide)

def newerFiles : ConfigFiles := ⟨"upstream.conf", newerBlock, newerBlock.lines, .inl rfl, []⟩

/-- A repository with one commit and one version, a text without spaces. -/
def oneVersion (version : Text) : Repository ℕ where
  head := 0
  checkout := fun name ↦ if name = version then some 0 else none
  tags := [version]
  refs := [(0, version)]
  strip := fun pattern name ↦
    if pattern.isPrefixOf name then some (name.drop pattern.length) else none

def newerValues : Hash :=
  Function.update (Function.update (fun _ ↦ none) vcsWord (some ['g', 'i', 't'])) ['a'] (some ['1'])

/-- The version recorded is the one there is, whatever was checked out. -/
theorem oneVersion_gets {recorded : Option Text}
    (hgets : (oneVersion ['7']).Gets (meaning none newerBlock.items) .latest recorded) :
    recorded = some ['7'] := by
  obtain ⟨oid, hchecksOut, rfl⟩ := hgets
  have hoid : oid = 0 := by
    cases hchecksOut with
    | latest _ _ _ hcheckout =>
      rw [oneVersion, ite_none_right_eq_some] at hcheckout
      exact (some.inj hcheckout.2).symm
    | stays => rfl
  rw [hoid]
  rfl

section

variable {v w : Text}

theorem meets_congr (htext : convertVersion w = convertVersion v) :
    meets (some w) = meets (some v) := by
  ext cond : 1
  obtain ⟨op, val⟩ := cond
  cases op <;> simp [meets, cmpVersion, convertFunction, htext, bind, Except.bind]

theorem meaning_congr (htext : convertVersion w = convertVersion v) (items : List Item) :
    meaning (some w) items = meaning (some v) items := by
  have happlied : Item.applied (some w) = Item.applied (some v) := by
    ext item : 1
    cases item with
    | line assigned => rfl
    | block conds body other => rw [Item.applied, Item.applied, meets_congr htext]
  rw [meaning, meaning, happlied]

theorem blocksAccepted_congr (htext : convertVersion w = convertVersion v) {items : List Item}
    (haccepted : BlocksAccepted (some v) items) : BlocksAccepted (some w) items := by
  intro before conds body other after hitems
  obtain ⟨hother, hmethod⟩ := haccepted before conds body other after hitems
  refine ⟨hother, ?_⟩
  rw [meaning_congr htext]
  exact hmethod.imp (fun hnone ↦ absurd hnone (some_ne_none v)) id

end

end LumoSQL.NotFork
