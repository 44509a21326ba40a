import LumoSQL.Foundation.GuardedRun
import LumoSQL.Foundation.TextOrder

/-!
# The modifications of a source tree

`install` starts from the list of the tracked files of the checkout and applies the modification
files to it, in order. Three places hold the content of a path: the checkout, the directory `mods`
with the copies that are edited, and the file list, whose entries name the file to install. A
replace changes the file list alone. A sed or a patch looks for its files in the checkout, copies
them to `mods` unless that was done before, edits the copies and lets the file list name them
(`Edited`, `step_edited`).

So an edit starts from the content of the checkout and the edits before it, not from what is listed.
`Step.effect` is what a step means for the content of one path. `step_listed_iff` says when one step
leaves the list right: an edit has to make the same of the working copies and of what is listed.
-/

namespace LumoSQL.NotFork

open Foundation List Function

/-! ### The checkout and the file list -/

/-- The directory `vcs`: what `find` visits there, the directory `.git` included, the content of the
regular files, and the files that `git ls-files` lists. -/
structure Checkout where
  found : List Text
  nodup : found.Nodup
  files : Text → Option Text
  found_files : ∀ path, files path ≠ none → path ∈ found
  tracked : List Text
  tracked_files : ∀ path ∈ tracked, files path ≠ none

/-- The file that an entry of the file list names. -/
inductive Source
  | upstream (path : Text)
  | own (text : Text)
  | edited (path : Text)
  deriving DecidableEq

/-- What `install` changes while it applies the modifications: the directory `mods`, the table
`%cached` of the paths that were copied there, and the file list. -/
structure Work where
  copy : Text → Option Text
  cached : List Text
  filelist : Text → Option Source

/-- The content of the file that an entry names, if there is such a file. -/
def Work.textOf (tree : Checkout) (s : Work) : Source → Option Text
  | .upstream path => tree.files path
  | .own text => some text
  | .edited path => s.copy path

/-- `_store_file`, which returns if there is no such file. -/
def storeFile (tree : Checkout) (s : Work) (path : Text) (source : Source) : Work :=
  if s.textOf tree source = none then s
  else { s with filelist := Function.update s.filelist path (some source) }

/-- What `list_files` does with a tracked file: the path to list it under, if it is to be listed. -/
def stripSubtree (subtree : Option Text) (path : Text) : Option Text :=
  match subtree with
  | none => some path
  | some s =>
    if path.take s.length ≠ s then none
    else if (path.drop s.length).head? ≠ some '/' then none
    else some (path.drop (s.length + 1))

/-- One round of the loop of `list_files`. -/
def listFile (tree : Checkout) (subtree : Option Text) (s : Work) (path : Text) : Work :=
  match stripSubtree subtree path with
  | none => s
  | some listed => storeFile tree s listed (.upstream path)

def makeFilelist (tree : Checkout) (subtree : Option Text) : Work :=
  tree.tracked.foldl (listFile tree subtree) ⟨fun _ ↦ none, [], fun _ ↦ none⟩

/-! ### The three methods -/

/-- What a patch does to one file. The text of a change may not be what the patch expects. -/
inductive PatchOp
  | create (text : Text)
  | change (edit : Text → Option Text)
  | delete

/-- One entry of a modification file: a path and the content of the file to put there, a pattern of
paths and a substitution, or a patch. -/
inductive Step
  | replace (path text : Text)
  | sed (fileRegex : Text → Bool) (substitute : Text → Text)
  | patch (ops : List (Text × PatchOp))

inductive Modification
  | replace (mods : List (Text × Text))
  | sed (mods : List ((Text → Bool) × (Text → Text)))
  | patch (ops : List (Text × PatchOp))

/-- The entries of a modification file, in the order of the loop of its `apply`. -/
def Modification.steps : Modification → List Step
  | .replace mods => mods.map fun entry ↦ .replace entry.1 entry.2
  | .sed mods => mods.map fun entry ↦ .sed entry.1 entry.2
  | .patch ops => [.patch ops]

/-- `s|^.*/||`. -/
def basename (path : Text) : Text := (path.reverse.takeWhile (· ≠ '/')).reverse

/-- The pattern matches the path, or the part of it after the last `/`. -/
def sedMatches (fileRegex : Text → Bool) (path : Text) : Bool :=
  fileRegex path || (path.contains '/' && fileRegex (basename path))

/-- What the program `patch` makes of one file; `none` if the patch does not apply. -/
def PatchOp.run : PatchOp → Option Text → Option (Option Text)
  | .create text, none => some (some text)
  | .create _, some _ => none
  | .change edit, some text => (edit text).map some
  | .change _, none => none
  | .delete, some _ => some none
  | .delete, none => none

/-- One file of a patch; a patch that does not apply is skipped. -/
def runOp (dir : Text → Option Text) (op : Text × PatchOp) : Text → Option Text :=
  match op.2.run (dir op.1) with
  | none => dir
  | some text => Function.update dir op.1 text

/-- The program `patch` run in a directory. -/
def runPatch (dir : Text → Option Text) (ops : List (Text × PatchOp)) : Text → Option Text :=
  ops.foldl runOp dir

/-- The program finds the file of the patch: it is there to be changed or deleted, or is not there
to be created. -/
def PatchOp.finds : PatchOp → Option Text → Bool
  | .create _, text => text.isNone
  | .change _, text => text.isSome
  | .delete, text => text.isSome

/-- The files that the dry run of a patch in a directory says it is checking. -/
def checkedFiles (dir : Text → Option Text) (ops : List (Text × PatchOp)) : List Text :=
  (ops.filter fun op ↦ op.2.finds (dir op.1)).map Prod.fst

/-- One round of the loop of the edit callback: a file is copied the first time it is edited. -/
def copyOnce (tree : Checkout) (s : Work) (path : Text) : Work :=
  if path ∈ s.cached then s
  else
    let copy := match tree.files path with
      | none => s.copy
      | some text => Function.update s.copy path (some text)
    { s with copy, cached := path :: s.cached }

def editCallback (tree : Checkout) (s : Work) (paths : List Text) : Work :=
  paths.foldl (copyOnce tree) s

/-- One round of the second loop of the sed method; it dies if there is no copy of the file. -/
def sedFile (tree : Checkout) (substitute : Text → Text) (s : Work) (path : Text) : Option Work :=
  match s.copy path with
  | none => none
  | some data =>
    some (storeFile tree { s with copy := Function.update s.copy path (some (substitute data)) }
      path (.edited path))

def sedFiles (tree : Checkout) (substitute : Text → Text) : Work → List Text → Option Work
  | s, [] => some s
  | s, path :: rest => (sedFile tree substitute s path).bind fun s' ↦
      sedFiles tree substitute s' rest

def Step.edits (tree : Checkout) : Step → List Text
  | .replace _ _ => []
  | .sed fileRegex _ => tree.found.filter (sedMatches fileRegex)
  | .patch ops => checkedFiles tree.files ops

/-- One entry of a modification file applied; `none` if `install` dies. -/
def Work.apply (tree : Checkout) (s : Work) : Step → Option Work
  | .replace path text => some (storeFile tree s path (.own text))
  | .sed fileRegex substitute =>
    let paths := tree.found.filter (sedMatches fileRegex)
    sedFiles tree substitute (editCallback tree s paths) paths
  | .patch ops =>
    let paths := checkedFiles tree.files ops
    let s := editCallback tree s paths
    let s := { s with copy := runPatch s.copy ops }
    some (paths.foldl (fun s path ↦ storeFile tree s path (.edited path)) s)

def Work.step (tree : Checkout) (s : Work) (step : Step) : Work := (s.apply tree step).getD s

/-! ### What the modifications mean -/

def runOps (ops : List (Text × PatchOp)) (text : Option Text) : Option Text :=
  ops.foldl (fun text op ↦ (op.2.run text).getD text) text

def Step.effect (path : Text) (text : Option Text) : Step → Option Text
  | .replace from_ own => if path = from_ then some own else text
  | .sed fileRegex substitute => if sedMatches fileRegex path then text.map substitute else text
  | .patch ops => runOps (ops.filter (·.1 = path)) text

def Checkout.upstream (tree : Checkout) (path : Text) : Option Text :=
  if path ∈ tree.tracked then tree.files path else none

/-- The content of a path after the effects of the steps, one after the other. -/
def composed (tree : Checkout) (steps : List Step) (path : Text) : Option Text :=
  steps.foldl (fun text step ↦ step.effect path text) (tree.upstream path)

/-- The step creates the path: it puts a file there, or is a patch with a new file. -/
def Step.Creates (path : Text) : Step → Prop
  | .replace from_ _ => from_ = path
  | .sed _ _ => False
  | .patch ops => ∃ text, (path, PatchOp.create text) ∈ ops

/-- What is listed for a path: the content of the file its entry names. -/
def Work.listed (tree : Checkout) (s : Work) (path : Text) : Option (Option Text) :=
  (s.filelist path).map (s.textOf tree)

def ListedAs (tree : Checkout) (s : Work) (want : Text → Option Text) : Prop :=
  ∀ path, s.listed tree path = (want path).map some

def effects (want : Text → Option Text) (step : Step) : Text → Option Text := fun path ↦
  step.effect path (want path)

/-- The file list has every path with the content that the steps give it, and no other paths than
the tracked ones and those that a step creates. -/
structure Composes (tree : Checkout) (steps : List Step) (s : Work) : Prop where
  contents : ∀ path, s.listed tree path = (composed tree steps path).map some
  paths : ∀ path, s.filelist path ≠ none → path ∈ tree.tracked ∨ ∃ step ∈ steps, step.Creates path

def Work.working (tree : Checkout) (s : Work) (path : Text) : Option Text :=
  if path ∈ s.cached then s.copy path else tree.files path

def Applies (ops : List (Text × PatchOp)) (text : Option Text) : Prop :=
  ∀ before op after, ops = before ++ op :: after → op.2.run (runOps before text) ≠ none

/-- The edit succeeds: a sed does not die, and a patch finds all its files in the checkout and
applies to their working copies. -/
def Succeeds (tree : Checkout) (s : Work) : Step → Prop
  | .replace _ _ => True
  | .sed fileRegex substitute => s.apply tree (.sed fileRegex substitute) ≠ none
  | .patch ops => (∀ op ∈ ops, op.2.finds (tree.files op.1)) ∧
      ∀ path, Applies (ops.filter (·.1 = path)) (s.working tree path)

/-- The edit makes the same of the working copy and of what is listed, and leaves no listed path
without a file; a listed path that is not in the checkout it would not change. -/
def EditsListed (tree : Checkout) (s : Work) : Step → Prop
  | .replace _ _ => True
  | step => ∀ path, if path ∈ step.edits tree then
      step.effect path (s.listed tree path).join = step.effect path (s.working tree path) ∧
        (step.effect path (s.working tree path) = none → s.filelist path = none)
    else step.effect path (s.listed tree path).join = (s.listed tree path).join

/-! ### What one step does -/

/-- Only copied files are in the directory `mods`, and an entry that names one names it by its own
path. -/
structure Work.Tidy (s : Work) : Prop where
  uncached : ∀ path, path ∉ s.cached → s.copy path = none
  entries : ∀ path other, s.filelist path = some (.edited other) → other = path ∧ path ∈ s.cached

/-- What a step leaves: the files it edits have their working copies edited and are listed by them
as long as there is a file; everything else is as it was. -/
structure Edited (tree : Checkout) (s : Work) (step : Step) (s' : Work) : Prop where
  cached : ∀ path, path ∈ s'.cached ↔ path ∈ s.cached ∨ path ∈ step.edits tree
  copy : ∀ path, s'.copy path =
    if path ∈ step.edits tree then step.effect path (s.working tree path) else s.copy path
  filelist : ∀ path, s'.filelist path =
    if path ∈ step.edits tree ∧ step.effect path (s.working tree path) ≠ none
    then some (.edited path) else s.filelist path

section

variable (tree : Checkout) {s s' : Work}

/-- The edit callback leaves the working copy of a file in the directory `mods`. -/
theorem copyOnce_spec (htidy : s.Tidy) (first : Text) :
    (∀ path, path ∈ (copyOnce tree s first).cached ↔ path ∈ s.cached ∨ path = first) ∧
      (∀ path, (copyOnce tree s first).copy path =
        if path = first then s.working tree path else s.copy path) ∧
      (copyOnce tree s first).filelist = s.filelist := by
  rw [copyOnce]
  by_cases hcached : first ∈ s.cached
  · rw [if_pos hcached]
    refine ⟨fun path ↦ ?_, fun path ↦ ?_, rfl⟩
    · exact ⟨.inl, fun h ↦ h.elim id fun heq ↦ heq ▸ hcached⟩
    · by_cases heq : path = first
      · rw [if_pos heq, Work.working, if_pos (heq ▸ hcached)]
      · rw [if_neg heq]
  · rw [if_neg hcached]
    refine ⟨fun path ↦ ?_, fun path ↦ ?_, rfl⟩
    · rw [mem_cons, or_comm]
    · by_cases heq : path = first
      · subst heq
        rw [if_pos rfl, Work.working, if_neg hcached]
        cases hfile : tree.files path with
        | none => exact htidy.uncached path hcached
        | some text => exact update_self path _ _
      · rw [if_neg heq]
        cases hfile : tree.files first with
        | none => rfl
        | some text => exact update_of_ne heq _ _

theorem copyOnce_tidy (htidy : s.Tidy) (first : Text) : (copyOnce tree s first).Tidy := by
  obtain ⟨hmem, hcopy, hlist⟩ := copyOnce_spec tree htidy first
  refine ⟨fun path hpath ↦ ?_, fun path other hentry ↦ ?_⟩
  · rw [hmem, not_or] at hpath
    rw [hcopy, if_neg hpath.2]
    exact htidy.uncached path hpath.1
  · rw [hlist] at hentry
    obtain ⟨heq, hcached⟩ := htidy.entries path other hentry
    exact ⟨heq, (hmem path).mpr (.inl hcached)⟩

/-- A copy does not change what the next edit starts from. -/
theorem copyOnce_working (htidy : s.Tidy) (first path : Text) :
    (copyOnce tree s first).working tree path = s.working tree path := by
  obtain ⟨hmem, hcopy, -⟩ := copyOnce_spec tree htidy first
  by_cases heq : path = first
  · rw [Work.working, if_pos ((hmem path).mpr (.inr heq)), hcopy, if_pos heq]
  · rw [Work.working, Work.working, hcopy, if_neg heq]
    exact if_congr ((hmem path).trans (or_iff_left heq)) rfl rfl

/-- The edit callback leaves the working copies of the files in the directory `mods`. -/
theorem editCallback_spec (htidy : s.Tidy) (paths : List Text) :
    (∀ path, path ∈ (editCallback tree s paths).cached ↔ path ∈ s.cached ∨ path ∈ paths) ∧
      (∀ path, (editCallback tree s paths).copy path =
        if path ∈ paths then s.working tree path else s.copy path) ∧
      (editCallback tree s paths).filelist = s.filelist := by
  induction paths generalizing s with
  | nil => simp [editCallback]
  | cons first rest ih =>
    obtain ⟨hmem, hcopy, hlist⟩ := copyOnce_spec tree htidy first
    obtain ⟨hmem', hcopy', hlist'⟩ := ih (copyOnce_tidy tree htidy first)
    refine ⟨fun path ↦ ?_, fun path ↦ ?_, hlist'.trans hlist⟩
    · rw [mem_cons, ← or_assoc, ← hmem]
      exact hmem' path
    · refine (hcopy' path).trans ?_
      rw [copyOnce_working tree htidy, hcopy]
      by_cases hrest : path ∈ rest
      · rw [if_pos hrest, if_pos (.tail _ hrest)]
      · rw [if_neg hrest]
        exact if_congr (by rw [mem_cons, or_iff_left hrest]) rfl rfl

theorem storeFile_edited (s : Work) (first : Text) :
    (storeFile tree s first (.edited first)).copy = s.copy ∧
      (storeFile tree s first (.edited first)).cached = s.cached ∧
      ∀ path, (storeFile tree s first (.edited first)).filelist path =
        if path = first ∧ s.copy path ≠ none then some (.edited path) else s.filelist path := by
  rw [storeFile, Work.textOf]
  by_cases hnone : s.copy first = none
  · rw [if_pos hnone]
    refine ⟨rfl, rfl, fun path ↦ (if_neg ?_).symm⟩
    rintro ⟨rfl, hcopy⟩
    exact hcopy hnone
  · rw [if_neg hnone]
    refine ⟨rfl, rfl, fun path ↦ ?_⟩
    by_cases heq : path = first
    · subst heq
      rw [if_pos ⟨rfl, hnone⟩]
      exact update_self path _ _
    · rw [if_neg fun h ↦ heq h.1]
      exact update_of_ne heq _ _

theorem foldl_storeFile (paths : List Text) (s : Work) :
    (paths.foldl (fun s path ↦ storeFile tree s path (.edited path)) s).copy = s.copy ∧
      (paths.foldl (fun s path ↦ storeFile tree s path (.edited path)) s).cached = s.cached ∧
      ∀ path, (paths.foldl (fun s path ↦ storeFile tree s path (.edited path)) s).filelist path =
        if path ∈ paths ∧ s.copy path ≠ none then some (.edited path) else s.filelist path := by
  induction paths generalizing s with
  | nil => simp
  | cons first rest ih =>
    obtain ⟨hcopy, hcached, hlist⟩ := storeFile_edited tree s first
    obtain ⟨hcopy', hcached', hlist'⟩ := ih (storeFile tree s first (.edited first))
    refine ⟨hcopy'.trans hcopy, hcached'.trans hcached, fun path ↦ (hlist' path).trans ?_⟩
    rw [hcopy, hlist]
    by_cases hrest : path ∈ rest ∧ s.copy path ≠ none
    · rw [if_pos hrest, if_pos ⟨mem_cons_of_mem _ hrest.1, hrest.2⟩]
    · rw [if_neg hrest]
      refine if_congr ?_ rfl rfl
      rw [mem_cons, or_and_right, or_iff_left hrest]

variable {substitute : Text → Text}

/-- A sed changes the copy of a file, which has to be there, and lists it. -/
theorem sedFile_spec {first : Text} (hrun : sedFile tree substitute s first = some s') :
    s.copy first ≠ none ∧ s'.cached = s.cached ∧
      (∀ path, s'.copy path = if path = first then (s.copy path).map substitute else s.copy path) ∧
      ∀ path, s'.filelist path = if path = first then some (.edited path) else s.filelist path := by
  rw [sedFile] at hrun
  cases hdata : s.copy first with
  | none => simp [hdata] at hrun
  | some data =>
    simp only [hdata, Option.some_inj] at hrun
    obtain ⟨hcopy, hcached, hlist⟩ := storeFile_edited tree
      { s with copy := Function.update s.copy first (some (substitute data)) } first
    rw [hrun] at hcopy hcached hlist
    refine ⟨Option.some_ne_none data, hcached, fun path ↦ ?_, fun path ↦ ?_⟩
    · rw [hcopy]
      by_cases heq : path = first
      · subst heq
        rw [if_pos rfl, hdata]
        exact update_self path _ _
      · rw [if_neg heq]
        exact update_of_ne heq _ _
    · rw [hlist]
      refine if_congr (and_iff_left_of_imp ?_) rfl rfl
      rintro rfl hnone
      exact Option.some_ne_none _ ((update_self path _ s.copy).symm.trans hnone)

/-- The loop of a sed changes the copies of its files and lists them. -/
theorem sedFiles_spec {paths : List Text} (hnodup : paths.Nodup)
    (hrun : sedFiles tree substitute s paths = some s') :
    (∀ path ∈ paths, s.copy path ≠ none) ∧ s'.cached = s.cached ∧ (∀ path, s'.copy path =
        if path ∈ paths then (s.copy path).map substitute else s.copy path) ∧
      ∀ path, s'.filelist path = if path ∈ paths then some (.edited path) else s.filelist path := by
  induction paths generalizing s with
  | nil =>
    obtain rfl : s = s' := Option.some_inj.mp hrun
    simp
  | cons first rest ih =>
    obtain ⟨hfirst, hrest⟩ := nodup_cons.mp hnodup
    obtain ⟨s₁, hone, hrun⟩ := Option.bind_eq_some_iff.mp hrun
    obtain ⟨hsome, hcached, hcopy, hlist⟩ := sedFile_spec tree hone
    obtain ⟨hall, hcached', hcopy', hlist'⟩ := ih hrest hrun
    refine ⟨fun path hpath ↦ ?_, hcached'.trans hcached, fun path ↦ ?_, fun path ↦ ?_⟩
    · rcases mem_cons.mp hpath with rfl | hmem
      · exact hsome
      · have hold := hall path hmem
        rwa [hcopy, if_neg (ne_of_mem_of_not_mem hmem hfirst)] at hold
    · rw [hcopy', hcopy]
      by_cases heq : path = first
      · subst heq
        rw [if_neg hfirst, if_pos rfl, if_pos (.head _)]
      · rw [if_neg heq]
        exact if_congr (by rw [mem_cons, or_iff_right heq]) rfl rfl
    · rw [hlist', hlist]
      by_cases hmem : path ∈ rest
      · rw [if_pos hmem, if_pos (.tail _ hmem)]
      · rw [if_neg hmem]
        exact if_congr (by rw [mem_cons, or_iff_left hmem]) rfl rfl

/-- A patch changes each file by the operations on it. -/
theorem runPatch_apply (ops : List (Text × PatchOp)) (dir : Text → Option Text) (path : Text) :
    runPatch dir ops path = (Step.patch ops).effect path (dir path) := by
  induction ops generalizing dir with
  | nil => rfl
  | cons op rest ih =>
    have hop : runOp dir op path =
        if op.1 = path then (op.2.run (dir path)).getD (dir path) else dir path := by
      rw [runOp]
      by_cases heq : op.1 = path
      · rw [if_pos heq, heq]
        cases op.2.run (dir path) with
        | none => rfl
        | some text => exact update_self path _ _
      · rw [if_neg heq]
        cases op.2.run (dir op.1) with
        | none => rfl
        | some text => exact update_of_ne (Ne.symm heq) _ _
    refine (ih (runOp dir op)).trans ?_
    rw [hop, Step.effect, Step.effect]
    by_cases heq : op.1 = path
    · rw [if_pos heq, filter_cons_of_pos (by simpa using heq)]
      rfl
    · rw [if_neg heq, filter_cons_of_neg (by simpa using heq)]

/-- A step that does not edit a file leaves its content alone, unless it is a replace, or a sed that
does not find the file. -/
theorem effect_patch_of_not_mem {ops : List (Text × PatchOp)}
    (hfound : ∀ op ∈ ops, op.2.finds (tree.files op.1)) {path : Text}
    (hpath : path ∉ (Step.patch ops).edits tree) (text : Option Text) :
    (Step.patch ops).effect path text = text := by
  have hnone : ops.filter (fun op ↦ op.1 = path) = [] := by
    rw [filter_eq_nil_iff]
    intro op hop heq
    refine hpath (mem_map.mpr ⟨op, mem_filter.mpr ⟨hop, hfound op hop⟩, ?_⟩)
    simpa using heq
  rw [Step.effect, hnone]
  rfl

theorem sed_edited (htidy : s.Tidy) {fileRegex : Text → Bool}
    (hsucceeds : Succeeds tree s (.sed fileRegex substitute)) :
    (∀ path ∈ (Step.sed fileRegex substitute).edits tree, s.working tree path ≠ none) ∧
      Edited tree s (.sed fileRegex substitute) (s.step tree (.sed fileRegex substitute)) := by
  obtain ⟨s', hrun⟩ := Option.ne_none_iff_exists'.mp hsucceeds
  have hstep : s.step tree (.sed fileRegex substitute) = s' := by
    rw [Work.step, hrun, Option.getD_some]
  have hnodup : ((Step.sed fileRegex substitute).edits tree).Nodup := tree.nodup.filter _
  have heffect : ∀ path ∈ (Step.sed fileRegex substitute).edits tree, ∀ text,
      (Step.sed fileRegex substitute).effect path text = text.map substitute := by
    intro path hpath text
    rw [Step.effect, if_pos (mem_filter.mp hpath).2]
  change sedFiles tree substitute (editCallback tree s ((Step.sed fileRegex substitute).edits tree))
    ((Step.sed fileRegex substitute).edits tree) = some s' at hrun
  obtain ⟨hmem, hcopy, hlist⟩ := editCallback_spec tree htidy
    ((Step.sed fileRegex substitute).edits tree)
  obtain ⟨hall, hcached', hcopy', hlist'⟩ := sedFiles_spec tree hnodup hrun
  have hsome : ∀ path ∈ (Step.sed fileRegex substitute).edits tree, s.working tree path ≠ none := by
    intro path hpath
    have hcopied := hall path hpath
    rwa [hcopy, if_pos hpath] at hcopied
  rw [hstep]
  refine ⟨hsome, fun path ↦ ?_, fun path ↦ ?_, fun path ↦ ?_⟩
  · rw [hcached', hmem]
  · rw [hcopy', hcopy]
    by_cases hpath : path ∈ (Step.sed fileRegex substitute).edits tree
    · rw [if_pos hpath, heffect path hpath, if_pos hpath, if_pos hpath]
    · rw [if_neg hpath, if_neg hpath, if_neg hpath]
  · rw [hlist', hlist]
    by_cases hpath : path ∈ (Step.sed fileRegex substitute).edits tree
    · have hkeep : (s.working tree path).map substitute ≠ none := by
        rw [ne_eq, Option.map_eq_none_iff]
        exact hsome path hpath
      rw [if_pos hpath, heffect path hpath, if_pos ⟨hpath, hkeep⟩]
    · rw [if_neg hpath, if_neg fun h ↦ hpath h.1]

theorem step_edited (htidy : s.Tidy) {step : Step} (hsucceeds : Succeeds tree s step)
    (hedit : ∀ path text, step ≠ .replace path text) : Edited tree s step (s.step tree step) := by
  cases step with
  | replace path text => exact absurd rfl (hedit path text)
  | sed fileRegex substitute => exact (sed_edited tree htidy hsucceeds).2
  | patch ops =>
    obtain ⟨hmem, hcopy, hlist⟩ := editCallback_spec tree htidy ((Step.patch ops).edits tree)
    have hstep : s.step tree (.patch ops) = ((Step.patch ops).edits tree).foldl
        (fun s path ↦ storeFile tree s path (.edited path))
        ⟨runPatch (editCallback tree s ((Step.patch ops).edits tree)).copy ops,
          (editCallback tree s ((Step.patch ops).edits tree)).cached,
          (editCallback tree s ((Step.patch ops).edits tree)).filelist⟩ := rfl
    have hpatched : ∀ path,
        runPatch (editCallback tree s ((Step.patch ops).edits tree)).copy ops path =
          if path ∈ (Step.patch ops).edits tree
          then (Step.patch ops).effect path (s.working tree path) else s.copy path := by
      intro path
      rw [runPatch_apply, hcopy]
      by_cases hpath : path ∈ (Step.patch ops).edits tree
      · rw [if_pos hpath, if_pos hpath]
      · rw [if_neg hpath, if_neg hpath, effect_patch_of_not_mem tree hsucceeds.1 hpath]
    generalize editCallback tree s ((Step.patch ops).edits tree) = copied at *
    obtain ⟨hcopy', hcached', hlist'⟩ := foldl_storeFile tree ((Step.patch ops).edits tree)
      ⟨runPatch copied.copy ops, copied.cached, copied.filelist⟩
    rw [← hstep] at hcopy' hcached' hlist'
    refine ⟨fun path ↦ ?_, fun path ↦ ?_, fun path ↦ ?_⟩
    · rw [hcached']
      exact hmem path
    · rw [hcopy']
      exact hpatched path
    · rw [hlist', hlist]
      refine if_congr (and_congr_right fun hpath ↦ ?_) rfl rfl
      exact iff_of_eq (congrArg (· ≠ none) ((hpatched path).trans (if_pos hpath)))

variable {tree} {step : Step}

theorem Edited.tidy (hedited : Edited tree s step s') (htidy : s.Tidy) : s'.Tidy := by
  refine ⟨fun path hpath ↦ ?_, fun path other hentry ↦ ?_⟩
  · rw [hedited.cached, not_or] at hpath
    rw [hedited.copy, if_neg hpath.2]
    exact htidy.uncached path hpath.1
  · rw [hedited.filelist] at hentry
    by_cases hpath : path ∈ step.edits tree ∧ step.effect path (s.working tree path) ≠ none
    · rw [if_pos hpath, Option.some_inj, Source.edited.injEq] at hentry
      exact ⟨hentry.symm, (hedited.cached path).mpr (.inr hpath.1)⟩
    · rw [if_neg hpath] at hentry
      obtain ⟨heq, hcached⟩ := htidy.entries path other hentry
      exact ⟨heq, (hedited.cached path).mpr (.inl hcached)⟩

variable {path : Text} {want : Text → Option Text}

theorem Edited.listed_of_not_mem (hedited : Edited tree s step s') (htidy : s.Tidy)
    (hpath : path ∉ step.edits tree) : s'.listed tree path = s.listed tree path := by
  rw [Work.listed, Work.listed, hedited.filelist, if_neg fun h ↦ hpath h.1]
  cases hentry : s.filelist path with
  | none => rfl
  | some source =>
    cases source with
    | upstream other | own text => rfl
    | edited other =>
      obtain ⟨rfl, -⟩ := htidy.entries path other hentry
      rw [Option.map_some, Option.map_some, Work.textOf, Work.textOf, hedited.copy, if_neg hpath]

theorem Edited.listed_of_mem (hedited : Edited tree s step s') (hpath : path ∈ step.edits tree)
    {text : Text} (htext : step.effect path (s.working tree path) = some text) :
    s'.listed tree path = some (some text) := by
  rw [Work.listed, hedited.filelist, if_pos ⟨hpath, htext ▸ Option.some_ne_none text⟩,
    Option.map_some, Work.textOf, hedited.copy, if_pos hpath, htext]

theorem step_replace (tree : Checkout) (s : Work) (path text : Text) :
    (s.step tree (.replace path text)).copy = s.copy ∧
      (s.step tree (.replace path text)).cached = s.cached ∧
      ∀ other, (s.step tree (.replace path text)).filelist other =
        if other = path then some (.own text) else s.filelist other := by
  have hstep : s.step tree (.replace path text) =
      ⟨s.copy, s.cached, Function.update s.filelist path (some (.own text))⟩ := rfl
  rw [hstep]
  refine ⟨rfl, rfl, fun other ↦ ?_⟩
  by_cases heq : other = path
  · subst heq
    rw [if_pos rfl]
    exact update_self other _ _
  · rw [if_neg heq]
    exact update_of_ne heq _ _

theorem listed_replace (tree : Checkout) (s : Work) (path text other : Text) :
    (s.step tree (.replace path text)).listed tree other =
      if other = path then some (some text) else s.listed tree other := by
  obtain ⟨hcopy, -, hlist⟩ := step_replace tree s path text
  have htext : ∀ source, (s.step tree (.replace path text)).textOf tree source =
      s.textOf tree source := by
    intro source
    cases source with
    | upstream other | own text => rfl
    | edited other => exact congrFun hcopy other
  rw [Work.listed, Work.listed, hlist, funext htext]
  by_cases heq : other = path
  · rw [if_pos heq, if_pos heq]
    rfl
  · rw [if_neg heq, if_neg heq]

theorem step_tidy (htidy : s.Tidy) (hsucceeds : Succeeds tree s step) :
    (s.step tree step).Tidy := by
  cases step with
  | replace path text =>
    obtain ⟨hcopy, hcached, hlist⟩ := step_replace tree s path text
    refine ⟨fun other hother ↦ ?_, fun other source hentry ↦ ?_⟩
    · rw [hcached] at hother
      rw [hcopy]
      exact htidy.uncached other hother
    · rw [hlist] at hentry
      rw [hcached]
      by_cases heq : other = path
      · rw [if_pos heq] at hentry
        cases hentry
      · rw [if_neg heq] at hentry
        exact htidy.entries other source hentry
  | sed fileRegex substitute =>
    exact (step_edited tree htidy hsucceeds nofun).tidy htidy
  | patch ops => exact (step_edited tree htidy hsucceeds nofun).tidy htidy

/-! ### The list along the steps -/

/-- If the operations of a patch on a file apply and leave none, they leave none of any content. -/
theorem runOps_none {ops : List (Text × PatchOp)} (hne : ops ≠ []) {text : Option Text}
    (happlies : Applies ops text) (hnone : runOps ops text = none) (other : Option Text) :
    runOps ops other = none := by
  obtain ⟨before, last, rfl⟩ : ∃ before last, ops = before ++ [last] :=
    ⟨ops.dropLast, ops.getLast hne, (dropLast_append_getLast hne).symm⟩
  have hlast : ∀ text, runOps (before ++ [last]) text =
      (last.2.run (runOps before text)).getD (runOps before text) := by
    intro text
    rw [runOps, foldl_append]
    rfl
  rw [hlast] at hnone ⊢
  have hruns := happlies before last [] rfl
  obtain ⟨path, op⟩ := last
  generalize runOps before text = working at hnone hruns
  generalize runOps before other = listed
  -- only a deletion leaves no file
  cases op with
  | create new =>
    cases working with
    | none => cases hnone
    | some old => exact absurd rfl hruns
  | change edit =>
    cases working with
    | none => exact absurd rfl hruns
    | some old =>
      cases hedit : edit old with
      | none => simp [PatchOp.run, hedit] at hruns
      | some new => simp [PatchOp.run, hedit] at hnone
  | delete =>
    cases listed with
    | none | some old => rfl

/-- An edit that succeeds leaves no file of the working copy only if it deletes. -/
theorem effect_none (hsucceeds : Succeeds tree s step) (htidy : s.Tidy)
    (hpath : path ∈ step.edits tree) (hnone : step.effect path (s.working tree path) = none)
    (text : Option Text) : step.effect path text = none := by
  cases step with
  | replace from_ own => cases hpath
  | sed fileRegex substitute =>
    rw [Step.effect, if_pos (mem_filter.mp hpath).2, Option.map_eq_none_iff] at hnone
    exact absurd hnone ((sed_edited tree htidy hsucceeds).1 path hpath)
  | patch ops =>
    refine runOps_none ?_ (hsucceeds.2 path) hnone text
    obtain ⟨op, hop, rfl⟩ := mem_map.mp hpath
    exact ne_nil_of_mem (mem_filter.mpr ⟨(mem_filter.mp hop).1, by simp⟩)

/-- After an edit the list is right exactly if the edit makes the same of the working copies and of
what is listed. -/
theorem edit_listed_iff (htidy : s.Tidy) (hsucceeds : Succeeds tree s step)
    (hedit : ∀ path text, step ≠ .replace path text) (hwant : ListedAs tree s want) :
    ListedAs tree (s.step tree step) (effects want step) ↔ EditsListed tree s step := by
  have hedited := step_edited tree htidy hsucceeds hedit
  have hjoin : ∀ path, (s.listed tree path).join = want path := by
    intro path
    rw [hwant]
    cases want path with
    | none | some text => rfl
  have hguard : EditsListed tree s step ↔ ∀ path, if path ∈ step.edits tree then
        step.effect path (want path) = step.effect path (s.working tree path) ∧
          (step.effect path (s.working tree path) = none → s.filelist path = none)
      else step.effect path (want path) = want path := by
    simp only [← hjoin]
    cases step with
    | replace path text => exact absurd rfl (hedit path text)
    | sed fileRegex substitute | patch ops => rfl
  rw [hguard]
  refine forall_congr' fun path ↦ ?_
  rw [effects]
  by_cases hpath : path ∈ step.edits tree
  · rw [if_pos hpath]
    cases htext : step.effect path (s.working tree path) with
    | none =>
      rw [effect_none hsucceeds htidy hpath htext, Option.map_none, Work.listed, hedited.filelist,
        if_neg fun h ↦ h.2 htext, Option.map_eq_none_iff]
      exact ⟨fun hlist ↦ ⟨rfl, fun _ ↦ hlist⟩, fun h ↦ h.2 rfl⟩
    | some text =>
      rw [hedited.listed_of_mem hpath htext]
      constructor
      · intro hlisted
        obtain ⟨new, hnew, heq⟩ := Option.map_eq_some_iff.mp hlisted.symm
        rw [hnew, Option.some_inj.mp heq]
        exact ⟨rfl, nofun⟩
      · rintro ⟨hsame, -⟩
        rw [hsame, Option.map_some]
  · rw [if_neg hpath, hedited.listed_of_not_mem htidy hpath, hwant]
    exact (Option.map_injective (Option.some_injective Text)).eq_iff.trans eq_comm

/-- After a step the list is right exactly if the step is a replace or such an edit. -/
theorem step_listed_iff (htidy : s.Tidy) (hsucceeds : Succeeds tree s step)
    (hwant : ListedAs tree s want) :
    ListedAs tree (s.step tree step) (effects want step) ↔ EditsListed tree s step := by
  cases step with
  | replace from_ own =>
    refine iff_of_true (fun path ↦ ?_) trivial
    rw [listed_replace, hwant, effects, Step.effect]
    by_cases heq : path = from_
    · rw [if_pos heq, if_pos heq, Option.map_some]
    · rw [if_neg heq, if_neg heq]
  | sed fileRegex substitute =>
    exact edit_listed_iff htidy hsucceeds (nofun) hwant
  | patch ops => exact edit_listed_iff htidy hsucceeds (nofun) hwant

end

end LumoSQL.NotFork
