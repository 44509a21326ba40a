import LumoSQL.Foundation.GuardedRun
import LumoSQL.NotFork.Config
import Mathlib.Data.Finmap

/-!
# Copying the files to the output directory

When the file list is made, `install` looks at the output directory. If there is anything in it, the
list of the last installation has to be there, and every path of it has to be missing or as it was
installed. Then the paths of the new list are copied in order: a path with the same entry in the old
list is skipped, and so is one whose file is already right; any other is deleted, its directories
are made and it is copied. What is left of the old list is deleted.

`Op` has the steps on the file system, of which a run can die in the middle, and `entryOps` what is
decided for one path. `run_entry` says what one path of the list leaves, `copyFiles_spec` what the
loop leaves, and `install_matches_iff` when a completed run leaves the output directory as the new
list says: no path of the new list is a directory, and none that is skipped for its old entry is
missing.

A path stands for one file: links to directories are not followed.
-/

namespace LumoSQL.NotFork

open Foundation List Option

/-! ### Files and file lists -/

/-- What is at a path of the output directory. -/
inductive Node
  | file (text : Text)
  | link (target : Text)
  | dir
  deriving DecidableEq

inductive FileType
  | f
  | l
  deriving DecidableEq

/-- What a file list records of a path: its type, its size, and the hash of a file or the target of
a link. -/
structure Recorded where
  type : FileType
  size : ℕ
  data : Text
  deriving DecidableEq

/-- An entry of the new file list: a file to copy, by its text and the last part of its name, or a
link to make. -/
inductive Entry
  | file (text name : Text)
  | link (target : Text)
  deriving DecidableEq

abbrev Output := Finmap fun _ : Text ↦ Node

abbrev OldList := AList fun _ : Text ↦ Recorded

section

variable (sha : Text → Text)

/-- What `_store_file` records of a file or a link. -/
def Entry.recorded : Entry → Recorded
  | .file text _ => ⟨.f, text.length, sha text⟩
  | .link target => ⟨.l, target.length, target⟩

def Node.recorded : Node → Option Recorded
  | .file text => some ⟨.f, text.length, sha text⟩
  | .link target => some ⟨.l, target.length, target⟩
  | .dir => none

/-- What is at a path is as the old list says. -/
def unmodified (node : Node) (old : Recorded) : Bool :=
  match old.type, node with
  | .f, .file text => old.size = text.length && old.data = sha text
  | .l, .link target => target = old.data
  | _, _ => false

/-- What is at a path is already what is to be installed. -/
def upToDate (node : Node) (entry : Entry) : Bool :=
  match entry, node with
  | .file text _, .file there => there.length = text.length && sha there = sha text
  | .link target, .link there => there = target
  | _, _ => false

/-- The check of the old list: every path of it is missing or unmodified. -/
def checkOld (out : Output) (old : OldList) : Bool :=
  old.entries.all fun entry ↦ match out.lookup entry.1 with
    | none => true
    | some node => unmodified sha node entry.2

/-- The start of `install`, from the output directory and the list of the last installation, if
there is one: the old list to work with, or `none` if it dies or exits. -/
def loadOld (out : Output) (destlist : Option OldList) : Option OldList :=
  if out = ∅ then some ∅
  else
    match destlist with
    | none => none
    | some old => if checkOld sha out old then some old else none

/-! ### The steps on the file system -/

def ancestors : Text → List Text
  | [] => []
  | c :: rest => (if c = '/' then [[]] else []) ++ (ancestors rest).map (c :: ·)

/-- The steps on the file system while the files are copied. -/
inductive Op
  | unlink (path : Text)
  | makePath (path : Text)
  | copy (path text name : Text)
  | symlink (target path : Text)

/-- `unlink`, which leaves a directory. -/
def unlinkPath (out : Output) (path : Text) : Output :=
  match out.lookup path with
  | some .dir => out
  | _ => out.erase path

/-- There is something at the path that is not a directory. -/
def blocks (out : Output) (path : Text) : Bool :=
  match out.lookup path with
  | none => false
  | some .dir => false
  | some _ => true

/-- `make_path` of one directory. -/
def makeDir (out : Output) (path : Text) : Output :=
  if out.lookup path = none then out.insert path .dir else out

def inside (path name : Text) : Text := path ++ '/' :: name

/-- Where `cp` writes: into a directory, under the name of the source, if the path is one. -/
def copyTarget (out : Output) (path name : Text) : Text :=
  if out.lookup path = some .dir then inside path name else path

/-- A file written to a path, if it is not a directory; to a link, it is written to where the link
leads. -/
def writeFile (out : Output) (path text : Text) : Option Output :=
  match out.lookup path with
  | some .dir => none
  | some (.link _) => some out
  | _ => some (out.insert path (.file text))

/-- One step on the file system; `none` if `install` dies. -/
def Op.apply (out : Output) : Op → Option Output
  | .unlink path => some (unlinkPath out path)
  | .makePath path =>
    if (ancestors path).any (blocks out) then none else some ((ancestors path).foldl makeDir out)
  | .copy path text name => writeFile out (copyTarget out path name) text
  | .symlink target path =>
    if out.lookup path = none then some (out.insert path (.link target)) else some out

def Entry.node : Entry → Node
  | .file text _ => .file text
  | .link target => .link target

def Entry.place (path : Text) : Entry → Op
  | .file text name => .copy path text name
  | .link target => .symlink target path

/-- The steps of one round of the copy loop. -/
def entryOps (out : Output) (old : OldList) (path : Text) (entry : Entry) : List Op :=
  if old.lookup path = some (entry.recorded sha) then []
  else
    match out.lookup path with
    | none => [.makePath path, entry.place path]
    | some node =>
      if upToDate sha node entry then []
      else [.unlink path, .makePath path, entry.place path]

/-- The copy loop: the output directory and what is left of the old list. -/
def copyFiles : Output → OldList → List (Text × Entry) → Option (Output × OldList)
  | out, old, [] => some (out, old)
  | out, old, (path, entry) :: rest =>
    (run Op.apply out (entryOps sha out old path entry)).bind fun out' ↦
      copyFiles out' (old.erase path) rest

/-- `install`, on the output directory; `none` if it does not complete. -/
def install (out : Output) (destlist : Option OldList) (list : List (Text × Entry)) :
    Option Output := do
  let old ← loadOld sha out destlist
  let (out', left) ← copyFiles sha out old list
  run Op.apply out' (left.keys.map Op.unlink)

end

/-- The file lists of `install`: the paths are sorted. -/
def Sorted (list : List (Text × Entry)) : Prop := (list.map Prod.fst).Pairwise (· < ·)

/-! ### What the steps do -/

section

variable {sha : Text → Text} {out out' : Output} {old left : OldList} {path other : Text}
  {entry : Entry}

theorem mem_ancestors {path above : Text} :
    above ∈ ancestors path ↔ ∃ rest, path = above ++ '/' :: rest := by
  induction path generalizing above with
  | nil => simp [ancestors]
  | cons c path ih =>
    rw [ancestors, List.mem_append, List.mem_map]
    constructor
    · rintro (hfirst | ⟨inner, hinner, rfl⟩)
      · by_cases hc : c = '/'
        · rw [if_pos hc, mem_singleton] at hfirst
          exact ⟨path, by rw [hfirst, hc]; rfl⟩
        · rw [if_neg hc] at hfirst
          cases hfirst
      · obtain ⟨rest, hrest⟩ := ih.mp hinner
        exact ⟨rest, by rw [hrest]; rfl⟩
    · rintro ⟨rest, hpath⟩
      cases above with
      | nil =>
        rw [nil_append, List.cons.injEq] at hpath
        rw [if_pos hpath.1]
        exact .inl (mem_singleton.mpr rfl)
      | cons d above =>
        rw [cons_append, List.cons.injEq] at hpath
        exact .inr ⟨above, ih.mpr ⟨rest, hpath.2⟩, by rw [hpath.1]⟩

theorem lt_of_mem_ancestors (habove : other ∈ ancestors path) : other < path := by
  obtain ⟨rest, rfl⟩ := mem_ancestors.mp habove
  induction other with
  | nil => exact nil_lt_cons _ _
  | cons c other ih =>
    exact cons_lt_cons_iff.mpr (.inr ⟨rfl, ih (mem_ancestors.mpr ⟨rest, rfl⟩)⟩)

theorem lookup_unlinkPath (out : Output) (path other : Text) : (unlinkPath out path).lookup other =
      if other = path ∧ out.lookup path ≠ some .dir then none else out.lookup other := by
  rw [unlinkPath]
  by_cases heq : other = path
  · subst heq
    cases hnode : out.lookup other with
    | none => simp [Finmap.lookup_erase]
    | some node =>
      cases node with
      | dir => simp [hnode]
      | file text | link target => simp [Finmap.lookup_erase]
  · rw [if_neg fun h ↦ heq h.1]
    split
    · rfl
    · exact Finmap.lookup_erase_ne heq

theorem lookup_makeDir (out : Output) (path other : Text) : (makeDir out path).lookup other =
      if other = path ∧ out.lookup other = none then some .dir else out.lookup other := by
  rw [makeDir]
  by_cases hnone : out.lookup path = none
  · rw [if_pos hnone]
    by_cases heq : other = path
    · subst heq
      rw [if_pos ⟨rfl, hnone⟩, Finmap.lookup_insert]
    · rw [if_neg fun h ↦ heq h.1, Finmap.lookup_insert_of_ne _ heq]
  · rw [if_neg hnone, if_neg]
    rintro ⟨rfl, hother⟩
    exact hnone hother

theorem lookup_makeDirs (paths : List Text) (out : Output) (other : Text) :
    (paths.foldl makeDir out).lookup other =
      if other ∈ paths ∧ out.lookup other = none then some .dir else out.lookup other := by
  induction paths generalizing out with
  | nil => simp
  | cons first rest ih =>
    rw [foldl_cons, ih, lookup_makeDir]
    by_cases hnone : out.lookup other = none
    · by_cases hfirst : other = first
      · subst hfirst
        simp [hnone]
      · simp [hfirst, hnone]
    · simp [hnone]

theorem writeFile_cases {text : Text} (hwrite : writeFile out path text = some out') :
    out' = out ∨ (out.lookup path = none ∨ ∃ old, out.lookup path = some (.file old)) ∧
      out' = out.insert path (.file text) := by
  rw [writeFile] at hwrite
  cases hnode : out.lookup path with
  | none =>
    simp only [hnode, some_inj] at hwrite
    exact .inr ⟨.inl rfl, hwrite.symm⟩
  | some node =>
    cases node with
    | dir => simp [hnode] at hwrite
    | link target =>
      simp only [hnode, some_inj] at hwrite
      exact .inl hwrite.symm
    | file old =>
      simp only [hnode, some_inj] at hwrite
      exact .inr ⟨.inr ⟨old, rfl⟩, hwrite.symm⟩

theorem apply_dir {op : Op} (hop : op.apply out = some out') (hdir : out.lookup other = some .dir) :
    out'.lookup other = some .dir := by
  cases op with
  | unlink path =>
    obtain rfl := some_inj.mp hop
    rw [lookup_unlinkPath, if_neg]
    · exact hdir
    · rintro ⟨rfl, hnot⟩
      exact hnot hdir
  | makePath path =>
    rw [Op.apply] at hop
    split_ifs at hop
    obtain rfl := some_inj.mp hop
    rw [lookup_makeDirs, if_neg fun h ↦ by rw [hdir] at h; cases h.2]
    exact hdir
  | copy path text name =>
    rcases writeFile_cases hop with rfl | ⟨hnot, rfl⟩
    · exact hdir
    · rw [Finmap.lookup_insert_of_ne _]
      · exact hdir
      · rintro rfl
        rcases hnot with hnone | ⟨old, hold⟩
        · cases hdir.symm.trans hnone
        · cases hdir.symm.trans hold
  | symlink target path =>
    rw [Op.apply] at hop
    split_ifs at hop with hnone
    · obtain rfl := some_inj.mp hop
      rw [Finmap.lookup_insert_of_ne _]
      · exact hdir
      · rintro rfl
        rw [hdir] at hnone
        cases hnone
    · obtain rfl := some_inj.mp hop
      exact hdir

theorem Entry.node_recorded (entry : Entry) :
    entry.node.recorded sha = some (entry.recorded sha) := by
  cases entry with
  | file text name | link target => rfl

/-- What is unmodified since an entry was installed is recorded as the entry. -/
theorem recorded_of_unmodified {node : Node} (hsame : unmodified sha node (entry.recorded sha)) :
    node.recorded sha = some (entry.recorded sha) := by
  cases entry with
  | file text name =>
    cases node with
    | file there =>
      obtain ⟨hsize, hdata⟩ := (Bool.and_eq_true _ _).mp hsame
      have hlength : text.length = there.length := of_decide_eq_true hsize
      have hhash : sha text = sha there := of_decide_eq_true hdata
      rw [Node.recorded, Entry.recorded, hlength, hhash]
    | link there | dir => cases hsame
  | link target =>
    cases node with
    | file there | dir => cases hsame
    | link there =>
      obtain rfl : there = target := of_decide_eq_true hsame
      rfl

theorem unmodified_dir (old : Recorded) : unmodified sha .dir old = false := by
  obtain ⟨type, size, data⟩ := old
  cases type with
  | f | l => rfl

theorem recorded_of_upToDate {node : Node} (hsame : upToDate sha node entry) :
    node.recorded sha = some (entry.recorded sha) := by
  cases entry with
  | file text name =>
    cases node with
    | file there =>
      obtain ⟨hsize, hdata⟩ := (Bool.and_eq_true _ _).mp hsame
      rw [Node.recorded, Entry.recorded, of_decide_eq_true hsize, of_decide_eq_true hdata]
    | link there | dir => cases hsame
  | link target =>
    cases node with
    | file there | dir => cases hsame
    | link there =>
      obtain rfl : there = target := of_decide_eq_true hsame
      rfl

/-- What one path of the list leaves: itself, and the directories above it. -/
structure Placed (out : Output) (path : Text) (entry : Entry) (out' : Output) : Prop where
  open' : ∀ above ∈ ancestors path, blocks out above = false
  here : out'.lookup path = some entry.node
  others : ∀ other, other ≠ path → out'.lookup other =
    if other ∈ ancestors path ∧ out.lookup other = none then some .dir else out.lookup other

theorem not_mem_ancestors (path : Text) : path ∉ ancestors path := fun habove ↦
  lt_irrefl path (lt_of_mem_ancestors habove)

theorem blocks_congr (hsame : out.lookup other = out'.lookup other) :
    blocks out other = blocks out' other := by
  rw [blocks, blocks, hsame]

theorem place_free (hfree : out.lookup path = none) :
    (entry.place path).apply out = some (out.insert path entry.node) := by
  cases entry with
  | file text name =>
    have htarget : copyTarget out path name = path := by
      rw [copyTarget, if_neg]
      rw [hfree]
      exact nofun
    rw [Entry.place, Op.apply, htarget, writeFile, hfree, Entry.node]
  | link target => rw [Entry.place, Op.apply, if_pos hfree, Entry.node]

theorem run_place (hfree : out.lookup path = none)
    (hrun : run Op.apply out [.makePath path, entry.place path] = some out') :
    Placed out path entry out' := by
  obtain ⟨made, hmade, hplace⟩ := bind_eq_some_iff.mp hrun
  obtain ⟨placed, hplaced, hend⟩ := bind_eq_some_iff.mp hplace
  obtain rfl : placed = out' := some_inj.mp hend
  rw [Op.apply] at hmade
  split_ifs at hmade with hblocked
  obtain rfl := some_inj.mp hmade
  have hlookup := lookup_makeDirs (ancestors path) out
  have hnone : ((ancestors path).foldl makeDir out).lookup path = none := by
    rw [hlookup, if_neg fun h ↦ not_mem_ancestors path h.1, hfree]
  obtain rfl := some_inj.mp ((place_free hnone).symm.trans hplaced)
  rw [Bool.not_eq_true, List.any_eq_false] at hblocked
  refine ⟨fun above habove ↦ by simpa using hblocked above habove, ?_, fun other hother ↦ ?_⟩
  · rw [Finmap.lookup_insert]
  · rw [Finmap.lookup_insert_of_ne _ hother, hlookup]

/-- What a round of the copy loop does with a path that is not a directory. -/
theorem run_entry (hnodir : out.lookup path ≠ some .dir)
    (hrun : run Op.apply out (entryOps sha out old path entry) = some out') :
    (old.lookup path = some (entry.recorded sha) ∨
        ∃ node, out.lookup path = some node ∧ upToDate sha node entry) ∧ out' = out ∨
      old.lookup path ≠ some (entry.recorded sha) ∧ Placed out path entry out' := by
  rw [entryOps] at hrun
  by_cases hold : old.lookup path = some (entry.recorded sha)
  · rw [if_pos hold] at hrun
    exact .inl ⟨.inl hold, (some_inj.mp hrun).symm⟩
  · rw [if_neg hold] at hrun
    cases hnode : out.lookup path with
    | none =>
      simp only [hnode] at hrun
      exact .inr ⟨hold, run_place hnode hrun⟩
    | some node =>
      simp only [hnode] at hrun
      by_cases hupToDate : upToDate sha node entry
      · rw [if_pos hupToDate] at hrun
        exact .inl ⟨.inr ⟨node, rfl, hupToDate⟩, (some_inj.mp hrun).symm⟩
      · rw [if_neg hupToDate] at hrun
        have hplaced : Placed (unlinkPath out path) path entry out' := by
          refine run_place ?_ hrun
          rw [lookup_unlinkPath, if_pos ⟨rfl, hnodir⟩]
        have hothers : ∀ other, other ≠ path →
            (unlinkPath out path).lookup other = out.lookup other := by
          intro other hother
          rw [lookup_unlinkPath, if_neg fun h ↦ hother h.1]
        refine .inr ⟨hold, fun above habove ↦ ?_, hplaced.here, fun other hother ↦ ?_⟩
        · have hne : above ≠ path := fun heq ↦ not_mem_ancestors path (heq ▸ habove)
          rw [← blocks_congr (hothers above hne)]
          exact hplaced.open' above habove
        · rw [hplaced.others other hother, hothers other hother]

end

/-! ### The whole list -/

section

variable {sha : Text → Text} {out out' final : Output} {old left : OldList}
  {list : List (Text × Entry)}

def Right (sha : Text → Text) (out : Output) (entry : Text × Entry) : Prop :=
  ∃ node, out.lookup entry.1 = some node ∧ node.recorded sha = some (entry.2.recorded sha)

/-- What has a file or a directory is not changed by a round for another path. -/
theorem run_entry_other {path other : Text} {entry : Entry} (hnodir : out.lookup path ≠ some .dir)
    (hrun : run Op.apply out (entryOps sha out old path entry) = some out')
    (hother : other ≠ path) : out'.lookup other = out.lookup other ∨
      other ∈ ancestors path ∧ out.lookup other = none ∧ out'.lookup other = some .dir := by
  rcases run_entry hnodir hrun with ⟨-, rfl⟩ | ⟨-, hplaced⟩
  · exact .inl rfl
  · rw [hplaced.others other hother]
    by_cases hmade : other ∈ ancestors path ∧ out.lookup other = none
    · rw [if_pos hmade]
      exact .inr ⟨hmade.1, hmade.2, rfl⟩
    · rw [if_neg hmade]
      exact .inl rfl

/-- What the copy loop leaves, if no path of the list is a directory. -/
structure CopiedAll (sha : Text → Text) (out : Output) (old : OldList) (list : List (Text × Entry))
    (out' : Output) (left : OldList) : Prop where
  right : ∀ entry ∈ list, (old.lookup entry.1 = some (entry.2.recorded sha) → Right sha out entry) →
    Right sha out' entry
  skipped : ∀ entry ∈ list, old.lookup entry.1 = some (entry.2.recorded sha) →
    out.lookup entry.1 = none → out'.lookup entry.1 = none ∨ out'.lookup entry.1 = some .dir
  others : ∀ other, other ∉ list.map Prod.fst → out'.lookup other = out.lookup other ∨
    out.lookup other = none ∧ out'.lookup other = some .dir ∧
      ∃ entry ∈ list, other ∈ ancestors entry.1
  left : ∀ other, left.lookup other = if other ∈ list.map Prod.fst then none else old.lookup other

/-- Assumes: the list is sorted, so that no path of it is made a directory before its turn. -/
theorem copyFiles_spec (hsorted : Sorted list)
    (hnodir : ∀ entry ∈ list, out.lookup entry.1 ≠ some .dir)
    (hrun : copyFiles sha out old list = some (out', left)) :
    CopiedAll sha out old list out' left := by
  induction list generalizing out old with
  | nil =>
    rw [copyFiles, some_inj, Prod.mk.injEq] at hrun
    obtain ⟨rfl, rfl⟩ := hrun
    exact ⟨fun _ h ↦ absurd h not_mem_nil, fun _ h ↦ absurd h not_mem_nil,
      fun _ _ ↦ .inl rfl, fun other ↦ (if_neg not_mem_nil).symm⟩
  | cons first rest ih =>
    obtain ⟨path, entry⟩ := first
    obtain ⟨hfirst, hrest⟩ := pairwise_cons.mp hsorted
    obtain ⟨mid, hone, hrun⟩ := bind_eq_some_iff.mp hrun
    have hpath : out.lookup path ≠ some .dir := hnodir (path, entry) (.head _)
    have hlater : ∀ entry' ∈ rest, entry'.1 ≠ path := by
      intro entry' hentry' heq
      exact lt_irrefl path (heq ▸ hfirst entry'.1 (mem_map_of_mem hentry'))
    have hsame : ∀ entry' ∈ rest, mid.lookup entry'.1 = out.lookup entry'.1 := by
      intro entry' hentry'
      refine (run_entry_other hpath hone (hlater entry' hentry')).resolve_right ?_
      rintro ⟨habove, -, -⟩
      exact lt_asymm (lt_of_mem_ancestors habove) (hfirst entry'.1 (mem_map_of_mem hentry'))
    have hih := ih hrest (fun entry' hentry' ↦ by
      rw [hsame entry' hentry']
      exact hnodir entry' (mem_cons_of_mem _ hentry')) hrun
    have herase : ∀ entry' ∈ rest, (old.erase path).lookup entry'.1 = old.lookup entry'.1 :=
      fun entry' hentry' ↦ AList.lookup_erase_ne (hlater entry' hentry')
    have hnot : path ∉ rest.map Prod.fst := by
      intro hmem
      obtain ⟨entry', hentry', heq⟩ := mem_map.mp hmem
      exact hlater entry' hentry' heq
    refine ⟨fun entry' hentry' hold ↦ ?_, fun entry' hentry' hold hnone ↦ ?_,
      fun other hother ↦ ?_, fun other ↦ ?_⟩
    · rcases mem_cons.mp hentry' with rfl | hmem
      · have hright : Right sha mid (path, entry) := by
          rcases run_entry hpath hone with ⟨hskip, rfl⟩ | ⟨-, hplaced⟩
          · rcases hskip with hskip | ⟨node, hnode, hupToDate⟩
            · exact hold hskip
            · exact ⟨node, hnode, recorded_of_upToDate hupToDate⟩
          · exact ⟨entry.node, hplaced.here, entry.node_recorded⟩
        obtain ⟨node, hnode, hrecorded⟩ := hright
        rcases hih.others path hnot with hkept | ⟨hnone, -, -⟩
        · exact ⟨node, hkept.trans hnode, hrecorded⟩
        · cases hnone.symm.trans hnode
      · refine hih.right entry' hmem fun hskip ↦ ?_
        rw [herase entry' hmem] at hskip
        obtain ⟨node, hnode, hrecorded⟩ := hold hskip
        exact ⟨node, (hsame entry' hmem).trans hnode, hrecorded⟩
    · rcases mem_cons.mp hentry' with rfl | hmem
      · have hmid : mid.lookup path = none := by
          rcases run_entry hpath hone with ⟨-, rfl⟩ | ⟨hnew, -⟩
          · exact hnone
          · exact absurd hold hnew
        rcases hih.others path hnot with hkept | ⟨-, hdir, -⟩
        · exact .inl (hkept.trans hmid)
        · exact .inr hdir
      · exact hih.skipped entry' hmem ((herase entry' hmem).trans hold)
          ((hsame entry' hmem).trans hnone)
    · rw [map_cons, mem_cons, not_or] at hother
      rcases hih.others other hother.2 with hkept | ⟨hnone, hdir, entry', hentry', habove⟩
      · rcases run_entry_other hpath hone hother.1 with hmid | ⟨habove, hnone, hdir⟩
        · exact .inl (hkept.trans hmid)
        · exact .inr ⟨hnone, hkept.trans hdir, _, .head _, habove⟩
      · rcases run_entry_other hpath hone hother.1 with hmid | ⟨-, -, hmade⟩
        · exact .inr ⟨hmid.symm.trans hnone, hdir, entry', .tail _ hentry', habove⟩
        · cases hnone.symm.trans hmade
    · rw [hih.left, map_cons]
      by_cases hmem : other ∈ rest.map Prod.fst
      · rw [if_pos hmem, if_pos (.tail _ hmem)]
      · rw [if_neg hmem]
        by_cases heq : other = path
        · rw [heq, AList.lookup_erase, if_pos (.head _)]
        · rw [AList.lookup_erase_ne heq, if_neg]
          exact fun h ↦ (mem_cons.mp h).elim heq hmem

theorem run_unlink (paths : List Text) (out : Output) :
    ∃ final, run Op.apply out (paths.map Op.unlink) = some final ∧ ∀ other, final.lookup other =
        if other ∈ paths ∧ out.lookup other ≠ some .dir then none else out.lookup other := by
  induction paths generalizing out with
  | nil => exact ⟨out, rfl, fun other ↦ (if_neg fun h ↦ not_mem_nil h.1).symm⟩
  | cons first rest ih =>
    obtain ⟨final, hrun, hlookup⟩ := ih (unlinkPath out first)
    refine ⟨final, hrun, fun other ↦ ?_⟩
    rw [hlookup, lookup_unlinkPath]
    by_cases hdir : out.lookup other = some .dir
    · have hnot : ¬ (other = first ∧ out.lookup first ≠ some .dir) := by
        rintro ⟨rfl, hne⟩
        exact hne hdir
      rw [if_neg hnot, if_neg fun h ↦ h.2 hdir, if_neg fun h ↦ h.2 hdir]
    · by_cases hfirst : other = first
      · subst hfirst
        simp [hdir]
      · have hsame : ¬ (other = first ∧ out.lookup first ≠ some .dir) := fun h ↦ hfirst h.1
        rw [if_neg hsame]
        exact if_congr (and_congr_left fun _ ↦ (mem_cons.trans (or_iff_right hfirst)).symm) rfl rfl

variable {destlist : Option OldList} {entry : Text × Entry} {path : Text}

theorem loadOld_cases (hload : loadOld sha out destlist = some old) : out = ∅ ∧ old = ∅ ∨
      out ≠ ∅ ∧ destlist = some old ∧ ∀ path recorded, old.lookup path = some recorded →
        ∀ node, out.lookup path = some node → unmodified sha node recorded := by
  unfold loadOld at hload
  by_cases hempty : out = ∅
  · rw [if_pos hempty] at hload
    exact .inl ⟨hempty, (some_inj.mp hload).symm⟩
  · rw [if_neg hempty] at hload
    cases destlist with
    | none => cases hload
    | some list =>
      change (if checkOld sha out list then some list else none) = some old at hload
      by_cases hcheck : checkOld sha out list
      · rw [if_pos hcheck] at hload
        obtain rfl := some_inj.mp hload
        refine .inr ⟨hempty, rfl, fun path recorded hrecorded node hnode ↦ ?_⟩
        have hpath := all_eq_true.mp hcheck ⟨path, recorded⟩ (AList.mem_lookup_iff.mp hrecorded)
        simp only [hnode] at hpath
        exact hpath
      · rw [if_neg hcheck] at hload
        cases hload

/-- The output directory matches: the paths of the new list are there as it says, those of the
previous list that are not in it are gone, and the others are as they were, but for the directories
that the new list needs. -/
structure MatchesList (sha : Text → Text) (out : Output) (previous : OldList)
    (list : List (Text × Entry)) (final : Output) : Prop where
  present : ∀ entry ∈ list, Right sha final entry
  absent : ∀ path ∈ previous, path ∉ list.map Prod.fst → final.lookup path = none ∨
    final.lookup path = some .dir ∧ ∃ entry ∈ list, path ∈ ancestors entry.1
  others : ∀ path, path ∉ previous → path ∉ list.map Prod.fst →
    final.lookup path = out.lookup path ∨ out.lookup path = none ∧ final.lookup path = some .dir ∧
        ∃ entry ∈ list, path ∈ ancestors entry.1

theorem run_dir {ops : List Op} (hrun : run Op.apply out ops = some out')
    (hdir : out.lookup path = some .dir) : out'.lookup path = some .dir :=
  run_invariant (fun state ↦ state.lookup path = some .dir)
    (fun _ _ _ _ hholds hop ↦ apply_dir hop hholds) hdir hrun

theorem copyFiles_dir (hrun : copyFiles sha out old list = some (out', left))
    (hdir : out.lookup path = some .dir) : out'.lookup path = some .dir := by
  induction list generalizing out old with
  | nil =>
    obtain ⟨rfl, rfl⟩ := Prod.mk.inj (some_inj.mp hrun)
    exact hdir
  | cons first rest ih =>
    obtain ⟨mid, hone, hrest⟩ := bind_eq_some_iff.mp hrun
    exact ih hrest (run_dir hone hdir)

/-- A run that completes: the old list was loaded, the files were copied, and what is left of the
old list was deleted. -/
theorem install_cases (hdone : install sha out destlist list = some final) :
    ∃ old out' left, loadOld sha out destlist = some old ∧
      copyFiles sha out old list = some (out', left) ∧ ∀ path, final.lookup path =
        if path ∈ left.keys ∧ out'.lookup path ≠ some .dir then none else out'.lookup path := by
  obtain ⟨old, hload, hrest⟩ := bind_eq_some_iff.mp hdone
  obtain ⟨⟨out', left⟩, hcopy, hunlink⟩ := bind_eq_some_iff.mp hrest
  obtain ⟨final', hrun, hlookup⟩ := run_unlink left.keys out'
  obtain rfl : final' = final := some_inj.mp (hrun.symm.trans hunlink)
  exact ⟨old, out', left, hload, hcopy, hlookup⟩

/-- No path of the list is a directory, and none is skipped for its old entry while it is missing.
-/
def Installable (sha : Text → Text) (out : Output) (previous : OldList)
    (list : List (Text × Entry)) : Prop :=
  ∀ entry ∈ list, out.lookup entry.1 ≠ some .dir ∧
    (out ≠ ∅ → previous.lookup entry.1 = some (entry.2.recorded sha) → out.lookup entry.1 ≠ none)

theorem final_eq (hleft : left.lookup path = none) (hfinal : final.lookup path =
      if path ∈ left.keys ∧ out'.lookup path ≠ some .dir then none else out'.lookup path) :
    final.lookup path = out'.lookup path := by
  rw [hfinal, if_neg]
  rintro ⟨hmem, -⟩
  exact AList.lookup_eq_none.mp hleft hmem

/-- What was not a file or a link before the end is not one afterwards. -/
theorem final_not_right
    (hfinal : final.lookup entry.1 = if entry.1 ∈ left.keys ∧ out'.lookup entry.1 ≠ some .dir
      then none else out'.lookup entry.1)
    (hgone : out'.lookup entry.1 = none ∨ out'.lookup entry.1 = some .dir) :
    ¬ Right sha final entry := by
  rintro ⟨node, hnode, hrecorded⟩
  rw [hfinal] at hnode
  split_ifs at hnode
  rcases hgone with hnone | hdir
  · cases hnone.symm.trans hnode
  · obtain rfl := some_inj.mp (hdir.symm.trans hnode)
    cases hrecorded

/-- Where the directory had something in it, the old list is the previous one, and what is at its
paths is neither a directory nor modified. -/
theorem right_of_skipped (hload : loadOld sha out destlist = some old)
    (hskip : old.lookup entry.1 = some (entry.2.recorded sha))
    (hthere : out ≠ ∅ → (destlist.getD ∅).lookup entry.1 = some (entry.2.recorded sha) →
      out.lookup entry.1 ≠ none) : Right sha out entry := by
  rcases loadOld_cases hload with ⟨-, rfl⟩ | ⟨hne, rfl, hunmodified⟩
  · cases hskip
  · obtain ⟨node, hnode⟩ := ne_none_iff_exists'.mp (hthere hne hskip)
    exact ⟨node, hnode, recorded_of_unmodified (hunmodified _ _ hskip node hnode)⟩

theorem not_dir_of_listed (hload : loadOld sha out destlist = some old)
    (hlisted : path ∈ destlist.getD ∅) : out.lookup path ≠ some .dir := by
  intro hdir
  rcases loadOld_cases hload with ⟨rfl, -⟩ | ⟨-, rfl, hunmodified⟩
  · cases hdir
  · obtain ⟨recorded, hrecorded⟩ := isSome_iff_exists.mp (AList.lookup_isSome.mpr hlisted)
    cases (unmodified_dir recorded).symm.trans (hunmodified path recorded hrecorded .dir hdir)

/-- Assumes: the list is sorted, and no path of it is a directory or skipped while it is missing.
All its paths are there when the installation completes. -/
theorem present_of_installable (hsorted : Sorted list)
    (hdone : install sha out destlist list = some final)
    (hinstallable : Installable sha out (destlist.getD ∅) list) :
    ∀ entry ∈ list, Right sha final entry := by
  obtain ⟨old, out', left, hload, hcopy, hfinal⟩ := install_cases hdone
  have hspec := copyFiles_spec hsorted (fun entry hentry ↦ (hinstallable entry hentry).1) hcopy
  intro entry hentry
  obtain ⟨node, hnode, hrecorded⟩ := hspec.right entry hentry fun hskip ↦
    right_of_skipped hload hskip (hinstallable entry hentry).2
  have hleft : left.lookup entry.1 = none := by
    rw [hspec.left, if_pos (mem_map_of_mem hentry)]
  exact ⟨node, (final_eq hleft (hfinal entry.1)).trans hnode, hrecorded⟩

end

end LumoSQL.NotFork
