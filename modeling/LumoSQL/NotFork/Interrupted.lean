import LumoSQL.NotFork.ListFile
import LumoSQL.NotFork.Spared

/-!
# Interrupted installations

While the files are copied there is no list under its own name: `install` moves the old list away
first, writes the new one beside it, and gives it its name when everything is done. A run that finds
files but no list dies, and one that finds a list takes what it says for what is there.

`Site` has the output directory with its three list files, and `Site.visits` all the states that a
run of `install` passes through, one for each step on the file system, so that an interruption
leaves one of them. `Left` has the states that are left by any number of runs, interrupted or
complete. `Sound` is what holds in all of them: a list under its own name says what is there. So
`install_after_interruption`: the next run either dies before it changes a file or completes with
all the files of its list. If it completes, the same run once more changes nothing
(`install_twice`).
-/

namespace LumoSQL.NotFork

open Foundation List Option

/-- An output directory, and the files `NAME`, `NAME.old` and `NAME.new` in the index directory. -/
structure Site where
  out : Output
  list : Option Text
  listOld : Option Text
  listNew : Option Text
  deriving DecidableEq

namespace Site

/-- `rename`, of the list to the old list; it fails if there is no list. -/
def renameOld (site : Site) : Site :=
  match site.list with
  | none => site
  | some text => { site with list := none, listOld := some text }

/-- `unlink`, of the list. -/
def unlinkList (site : Site) : Site := { site with list := none }

/-- `_write_filelist`, to the new list. -/
def writeNew (sha : Text → Text) (list : List (Text × Entry)) (site : Site) : Site :=
  { site with listNew := some (writeFilelist sha list) }

/-- `rename`, of the new list to the list. -/
def renameNew (site : Site) : Site := { site with list := site.listNew, listNew := none }

/-- `unlink`, of the old list. -/
def unlinkOld (site : Site) : Site := { site with listOld := none }

section

variable (sha : Text → Text) (list : List (Text × Entry)) (site : Site)

/-- The old list that a run works with, or `none` if it dies or exits before it does anything. -/
def loadOld : Option OldList := NotFork.loadOld sha site.out (site.list.bind loadFilelist)

def prepared : Site := site.renameOld.unlinkList.writeNew sha list

/-- A run of `install` that is not interrupted, or `none` if it dies. -/
def install : Option Site := do
  let final ← NotFork.install sha site.out (site.list.bind loadFilelist) list
  some { site.prepared sha list with out := final }.renameNew.unlinkOld

/-- The states that a run of `install` passes through. -/
def visits : List Site :=
  (site.loadOld sha).elim [site] fun old ↦ [site, site.renameOld, site.renameOld.unlinkList] ++
      (copyVisits sha site.out old list).map ({ site.prepared sha list with out := · }) ++
      (NotFork.install sha site.out (site.list.bind loadFilelist) list).elim [] fun final ↦
        [{ site.prepared sha list with out := final }.renameNew,
          { site.prepared sha list with out := final }.renameNew.unlinkOld]

end

/-- A run that completes ends in one of the states it passes through. -/
theorem install_mem_visits {sha : Text → Text} {list : List (Text × Entry)} {site final : Site}
    (hdone : site.install sha list = some final) : final ∈ site.visits sha list := by
  obtain ⟨out, hout, hfinal⟩ := bind_eq_some_iff.mp hdone
  obtain ⟨old, hload, -⟩ := bind_eq_some_iff.mp hout
  obtain rfl := some_inj.mp hfinal
  have hload' : site.loadOld sha = some old := hload
  rw [visits, hload', elim_some, hout, elim_some]
  exact mem_append_right _ (mem_cons_of_mem _ (.head _))

end Site

/-- A file list for one of the paths that are used for files. -/
structure Usable (paths : Set Text) (list : List (Text × Entry)) : Prop where
  sorted : Sorted list
  used : ∀ entry ∈ list, entry.1 ∈ paths
  path_nul : ∀ entry ∈ list, nul ∉ entry.1
  target_nul : ∀ path target, (path, Entry.link target) ∈ list → nul ∉ target

/-- The states that are left by runs of `install`, each of them complete or interrupted, from an
empty output directory. -/
inductive Left (sha : Text → Text) (paths : Set Text) : Site → Prop
  | fresh (site : Site) (hempty : site.out = ∅) : Left sha paths site
  | install (site site' : Site) (list : List (Text × Entry)) (hleft : Left sha paths site)
      (husable : Usable paths list) (hvisited : site' ∈ site.visits sha list) :
      Left sha paths site'

/-! ### The output directory -/

section

variable {sha : Text → Text} {paths : Set Text} {out out' : Output} {old left : OldList}
  {list : List (Text × Entry)}

def Tidy (paths : Set Text) (out : Output) : Prop :=
  ∀ path node, out.lookup path = some node →
    if node = .dir then ∃ below ∈ paths, path ∈ ancestors below else path ∈ paths

/-- What a step makes is for one of the paths. -/
def Op.Within (paths : Set Text) : Op → Prop
  | .unlink _ => True
  | .makePath path => path ∈ paths
  | .copy path _ _ => path ∈ paths
  | .symlink _ path => path ∈ paths

def Apart (paths : Set Text) : Prop := ∀ path ∈ paths, ∀ above ∈ ancestors path, above ∉ paths

variable {op : Op} {path : Text}

theorem Tidy.not_dir (htidy : Tidy paths out) (hapart : Apart paths) (hpath : path ∈ paths) :
    out.lookup path ≠ some .dir := by
  intro hdir
  have hbelow := htidy path .dir hdir
  rw [if_pos rfl] at hbelow
  obtain ⟨below, hmem, habove⟩ := hbelow
  exact hapart below hmem path habove hpath

/-- What is above a path for a file does not block it. -/
theorem Tidy.not_blocks (htidy : Tidy paths out) (hapart : Apart paths) {path above : Text}
    (hpath : path ∈ paths) (habove : above ∈ ancestors path) : blocks out above = false := by
  rw [blocks]
  cases hnode : out.lookup above with
  | none => rfl
  | some node =>
    have hplace := htidy above node hnode
    cases node with
    | dir => rfl
    | file text | link target =>
      rw [if_neg (by rintro ⟨⟩)] at hplace
      exact absurd hplace (hapart path hpath above habove)

theorem Tidy.insert (htidy : Tidy paths out) (hpath : path ∈ paths) {node : Node}
    (hnode : node ≠ .dir) : Tidy paths (out.insert path node) := by
  intro other there hthere
  by_cases heq : other = path
  · rw [heq, Finmap.lookup_insert] at hthere
    obtain rfl := some_inj.mp hthere
    rwa [if_neg hnode, heq]
  · rw [Finmap.lookup_insert_of_ne _ heq] at hthere
    exact htidy other there hthere

/-- A step for one of the paths does not die, and leaves the directory tidy. -/
theorem apply_tidy (hapart : Apart paths) (htidy : Tidy paths out) (hwithin : op.Within paths) :
    ∃ out', op.apply out = some out' ∧ Tidy paths out' := by
  cases op with
  | unlink path =>
    refine ⟨unlinkPath out path, rfl, fun other node hnode ↦ htidy other node ?_⟩
    rw [lookup_unlinkPath] at hnode
    split_ifs at hnode
    exact hnode
  | makePath path =>
    have hopen : (ancestors path).any (blocks out) = false := any_eq_false.mpr fun above habove ↦ by
        rw [htidy.not_blocks hapart hwithin habove]
        exact Bool.false_ne_true
    refine ⟨(ancestors path).foldl makeDir out, by rw [Op.apply, hopen]; rfl,
      fun other node hnode ↦ ?_⟩
    rw [lookup_makeDirs] at hnode
    split_ifs at hnode with hmade
    · obtain rfl := some_inj.mp hnode
      rw [if_pos rfl]
      exact ⟨path, hwithin, hmade.1⟩
    · exact htidy other node hnode
  | copy path text name =>
    have hnodir := htidy.not_dir hapart hwithin
    have htarget : copyTarget out path name = path := by rw [copyTarget, if_neg hnodir]
    rw [Op.apply, htarget, writeFile]
    cases hnode : out.lookup path with
    | none => exact ⟨_, rfl, htidy.insert hwithin (by rintro ⟨⟩)⟩
    | some node =>
      cases node with
      | dir => exact absurd hnode hnodir
      | link target => exact ⟨out, rfl, htidy⟩
      | file there => exact ⟨_, rfl, htidy.insert hwithin (by rintro ⟨⟩)⟩
  | symlink target path =>
    rw [Op.apply]
    split_ifs with hnone
    · exact ⟨_, rfl, htidy.insert hwithin (by rintro ⟨⟩)⟩
    · exact ⟨out, rfl, htidy⟩

theorem run_tidy (hapart : Apart paths) {ops : List Op} (hwithin : ∀ op ∈ ops, op.Within paths)
    (htidy : Tidy paths out) : ∃ out', run Op.apply out ops = some out' ∧ Tidy paths out' := by
  induction ops generalizing out with
  | nil => exact ⟨out, rfl, htidy⟩
  | cons op rest ih =>
    obtain ⟨mid, hmid, hmidTidy⟩ := apply_tidy hapart htidy (hwithin op (.head _))
    obtain ⟨out', hrun, htidy'⟩ := ih (fun op' hop' ↦ hwithin op' (mem_cons_of_mem _ hop')) hmidTidy
    exact ⟨out', by rw [run, hmid]; exact hrun, htidy'⟩

theorem apply_tidy_of_eq (hapart : Apart paths) (hwithin : op.Within paths) (htidy : Tidy paths out)
    (hop : op.apply out = some out') : Tidy paths out' := by
  obtain ⟨next, hnext, hnextTidy⟩ := apply_tidy hapart htidy hwithin
  obtain rfl := some_inj.mp (hnext.symm.trans hop)
  exact hnextTidy

theorem entryOps_within {entry : Entry} (hpath : path ∈ paths) :
    ∀ op ∈ entryOps sha out old path entry, op.Within paths := by
  have hplace : (entry.place path).Within paths := by
    cases entry with
    | file text name | link target => exact hpath
  intro op hop
  rw [entryOps] at hop
  split_ifs at hop
  · cases hop
  split at hop
  · simp only [mem_cons, not_mem_nil, or_false] at hop
    rcases hop with rfl | rfl
    · exact hpath
    · exact hplace
  · split_ifs at hop
    · cases hop
    simp only [mem_cons, not_mem_nil, or_false] at hop
    rcases hop with rfl | rfl | rfl
    · exact trivial
    · exact hpath
    · exact hplace

theorem unlink_within (path : Text) : (Op.unlink path).Within paths := trivial

theorem copyFiles_tidy (sha : Text → Text) (old : OldList) (hapart : Apart paths)
    (hused : ∀ entry ∈ list, entry.1 ∈ paths) (htidy : Tidy paths out) :
    ∃ out' left, copyFiles sha out old list = some (out', left) ∧ Tidy paths out' := by
  induction list generalizing out old with
  | nil => exact ⟨out, old, rfl, htidy⟩
  | cons first rest ih =>
    obtain ⟨path, entry⟩ := first
    have hwithin : ∀ op ∈ entryOps sha out old path entry, op.Within paths :=
      entryOps_within (hused (path, entry) (.head _))
    obtain ⟨mid, hmid, hmidTidy⟩ := run_tidy hapart hwithin htidy
    obtain ⟨out', left, hcopy, htidy'⟩ :=
      ih (old.erase path) (fun entry' hentry' ↦ hused entry' (mem_cons_of_mem _ hentry')) hmidTidy
    exact ⟨out', left, by rw [copyFiles, hmid]; exact hcopy, htidy'⟩

theorem copyVisits_tidy (hapart : Apart paths) (hused : ∀ entry ∈ list, entry.1 ∈ paths)
    (htidy : Tidy paths out) : ∀ visited ∈ copyVisits sha out old list, Tidy paths visited :=
  copyVisits_invariant (Tidy paths) (fun entry hentry _ _ _ op hop _ _ ↦
      apply_tidy_of_eq hapart (entryOps_within (hused entry hentry) op hop))
    (fun path _ _ _ ↦ apply_tidy_of_eq hapart (unlink_within path)) htidy

end

/-! ### The lists -/

section

variable {sha : Text → Text} {paths : Set Text} {site site' : Site} {list : List (Text × Entry)}

/-- What holds of the states that are left: the directory is tidy, and if there is something in it
and there is a list, what it says is there. -/
structure Sound (sha : Text → Text) (paths : Set Text) (site : Site) : Prop where
  tidy : Tidy paths site.out
  trusted : site.out ≠ ∅ → ∀ old, site.list.bind loadFilelist = some old →
    ∀ path recorded, old.lookup path = some recorded →
      ∃ node, site.out.lookup path = some node ∧ node.recorded sha = some recorded

/-- From a sound state no path for a file is a directory, and none that is listed is missing. -/
theorem Sound.installable (hapart : Apart paths) (hsound : Sound sha paths site)
    (hused : ∀ entry ∈ list, entry.1 ∈ paths) :
    Installable sha site.out ((site.list.bind loadFilelist).getD ∅) list := by
  refine fun entry hentry ↦ ⟨hsound.tidy.not_dir hapart (hused entry hentry), fun hne hskip ↦ ?_⟩
  cases hlist : site.list.bind loadFilelist with
  | none =>
    rw [hlist] at hskip
    cases hskip
  | some old =>
    rw [hlist] at hskip
    obtain ⟨node, hnode, -⟩ := hsound.trusted hne old hlist entry.1 _ hskip
    rw [hnode]
    exact some_ne_none node

/-- A run from a sound state that passes the check completes. -/
theorem Sound.completes (hapart : Apart paths) (hsound : Sound sha paths site)
    (hused : ∀ entry ∈ list, entry.1 ∈ paths) {old : OldList}
    (hload : site.loadOld sha = some old) :
    ∃ final, install sha site.out (site.list.bind loadFilelist) list = some final ∧
      Tidy paths final := by
  obtain ⟨out', left, hcopy, htidy⟩ := copyFiles_tidy sha old hapart hused hsound.tidy
  have hwithin : ∀ op ∈ left.keys.map Op.unlink, op.Within paths := by
    intro op hop
    obtain ⟨path, -, rfl⟩ := mem_map.mp hop
    exact unlink_within path
  obtain ⟨final, hrun, htidy'⟩ := run_tidy hapart hwithin htidy
  refine ⟨final, ?_, htidy'⟩
  rw [Site.loadOld] at hload
  rw [install, hload]
  simp [hcopy, hrun]

theorem Usable.nul (hsha : ∀ text, nul ∉ sha text) (husable : Usable paths list) :
    ∀ entry ∈ list, nul ∉ entry.1 ∧ nul ∉ (entry.2.recorded sha).data := by
  rintro ⟨path, entry⟩ hentry
  refine ⟨husable.path_nul _ hentry, ?_⟩
  cases entry with
  | file text name => exact hsha text
  | link target => exact husable.target_nul path target hentry

/-- A new list that is given its name says what is there. -/
theorem trusted_of_present (hsha : ∀ text, nul ∉ sha text) (husable : Usable paths list)
    {final : Output} (hpresent : ∀ entry ∈ list, Right sha final entry) {old : OldList}
    (hload : loadFilelist (writeFilelist sha list) = some old) {path : Text} {recorded : Recorded}
    (hrecorded : old.lookup path = some recorded) :
    ∃ node, final.lookup path = some node ∧ node.recorded sha = some recorded := by
  rw [loadFilelist_writeFilelist (husable.nul hsha)] at hload
  obtain rfl := some_inj.mp hload
  obtain ⟨entry, hentry, rfl⟩ := of_lookup_recordedList hrecorded
  exact hpresent (path, entry) hentry

/-- All the states that a run passes through from a sound one are sound. -/
theorem Sound.visits (hsha : ∀ text, nul ∉ sha text) (hapart : Apart paths)
    (hsound : Sound sha paths site) (husable : Usable paths list) :
    ∀ site' ∈ site.visits sha list, Sound sha paths site' := by
  have hunlisted : ∀ site' : Site, Tidy paths site'.out → site'.list = none →
      Sound sha paths site' := by
    intro site' htidy hnone
    refine ⟨htidy, fun _ old hold ↦ ?_⟩
    rw [hnone] at hold
    cases hold
  have hrenamed : site.renameOld.out = site.out := by
    rw [Site.renameOld]
    split <;> rfl
  have hmoved : site.renameOld.list = none := by
    rw [Site.renameOld]
    split
    · assumption
    · rfl
  intro site' hvisited
  rw [Site.visits] at hvisited
  cases hload : site.loadOld sha with
  | none =>
    rw [hload] at hvisited
    exact mem_singleton.mp hvisited ▸ hsound
  | some old =>
    rw [hload] at hvisited
    obtain ⟨final, hdone, htidy⟩ := hsound.completes hapart husable.used hload
    have hpresent := present_of_installable husable.sorted hdone
      (hsound.installable hapart husable.used)
    rw [elim_some, hdone, elim_some, mem_append, mem_append] at hvisited
    rcases hvisited with (hbefore | hcopying) | hafter
    · simp only [mem_cons, not_mem_nil, or_false] at hbefore
      rcases hbefore with rfl | rfl | rfl
      · exact hsound
      · exact hunlisted _ (hrenamed ▸ hsound.tidy) hmoved
      · exact hunlisted _ (hrenamed ▸ hsound.tidy) rfl
    · obtain ⟨out, hout, rfl⟩ := mem_map.mp hcopying
      exact hunlisted _ (copyVisits_tidy hapart husable.used hsound.tidy out hout) rfl
    · simp only [mem_cons, not_mem_nil, or_false] at hafter
      rcases hafter with rfl | rfl
      · exact ⟨htidy, fun _ old hold path recorded ↦ trusted_of_present hsha husable hpresent hold⟩
      · exact ⟨htidy, fun _ old hold path recorded ↦ trusted_of_present hsha husable hpresent hold⟩

theorem Left.sound (hsha : ∀ text, nul ∉ sha text) (hapart : Apart paths)
    (hleft : Left sha paths site) : Sound sha paths site := by
  induction hleft with
  | fresh site hempty =>
    refine ⟨fun path node hnode ↦ ?_, fun hne ↦ absurd hempty hne⟩
    rw [hempty] at hnode
    cases hnode
  | install site site' list _ husable hvisited ih =>
    exact ih.visits hsha hapart husable site' hvisited

/-- After any number of installations, each of them complete or interrupted, the next one either
dies and leaves the output directory as it was in all its steps, or completes with all the paths of
its list as they should be.

Assumes: a hash has no NUL in it, no path for a file is used as a directory, and the list is one for
these paths. -/
theorem install_after_interruption (hsha : ∀ text, nul ∉ sha text) (hapart : Apart paths)
    (hleft : Left sha paths site) (husable : Usable paths list) :
    (site.install sha list = none ∧ ∀ site' ∈ site.visits sha list, site'.out = site.out) ∨
      ∃ final, site.install sha list = some final ∧ ∀ entry ∈ list, Right sha final.out entry := by
  have hsound := hleft.sound hsha hapart
  cases hload : site.loadOld sha with
  | none =>
    left
    constructor
    · rw [Site.loadOld] at hload
      rw [Site.install, install, hload]
      rfl
    · intro site' hvisited
      rw [Site.visits, hload] at hvisited
      rw [mem_singleton.mp hvisited]
  | some old =>
    right
    obtain ⟨final, hdone, -⟩ := hsound.completes hapart husable.used hload
    refine ⟨_, by rw [Site.install, hdone]; rfl, ?_⟩
    exact present_of_installable husable.sorted hdone (hsound.installable hapart husable.used)

/-- The run after one that was cut off when its file was copied: there is no list. -/
theorem install_after_copy : let site : Site := ⟨Finmap.singleton ['a'] (.file ['1']), none, none,
      some (writeFilelist (List.filter (· ≠ nul)) [(['a'], .file ['1'] ['a'])])⟩
    (site.install (List.filter (· ≠ nul)) [(['a'], .file ['1'] ['a'])] = none ∧
        ∀ site' ∈ site.visits (List.filter (· ≠ nul)) [(['a'], .file ['1'] ['a'])],
          site'.out = site.out) ∨
      ∃ final, site.install (List.filter (· ≠ nul)) [(['a'], .file ['1'] ['a'])] = some final ∧
        ∀ entry ∈ [(['a'], Entry.file ['1'] ['a'])],
          Right (List.filter (· ≠ nul)) final.out entry := by
  have hsha : ∀ text : Text, nul ∉ text.filter (· ≠ nul) := fun text hmem ↦ by
    simpa using (mem_filter.mp hmem).2
  have hapart : Apart {['a']} := by
    rintro path rfl above habove
    cases habove
  have husable : Usable {['a']} [(['a'], .file ['1'] ['a'])] := by
    refine ⟨pairwise_singleton _ _, fun entry hentry ↦ ?_, fun entry hentry ↦ ?_,
      fun path target hentry ↦ ?_⟩
    · rw [mem_singleton.mp hentry]
      rfl
    · rw [mem_singleton.mp hentry]
      decide
    · cases (Prod.mk.inj (mem_singleton.mp hentry)).2
  have hfresh : Left (List.filter (· ≠ nul)) {['a']} ⟨∅, none, none, none⟩ := .fresh _ rfl
  exact install_after_interruption hsha hapart
    (.install _ _ [(['a'], .file ['1'] ['a'])] hfresh husable (by decide)) husable

/-! ### Installing again -/

theorem copyFiles_right {out : Output} (hright : ∀ entry ∈ list, Right sha out entry)
    (old : OldList) : ∃ left, copyFiles sha out old list = some (out, left) := by
  induction list generalizing old with
  | nil => exact ⟨old, rfl⟩
  | cons first rest ih =>
    obtain ⟨⟨node, hnode, hrecorded⟩, hrest⟩ := forall_mem_cons.mp hright
    have hupToDate : upToDate sha node first.2 = true := by
      cases hentry : first.2 <;> cases node <;>
        simp_all [upToDate, Node.recorded, Entry.recorded]
    obtain ⟨left, hcopy⟩ := ih hrest (old.erase first.1)
    exact ⟨left, by simpa [copyFiles, entryOps, hnode, hupToDate, run] using hcopy⟩

/-- Assumes: the entries are there. Installing the list over the one that records it does nothing.
-/
theorem install_right {out : Output} (hsorted : Sorted list)
    (hright : ∀ entry ∈ list, Right sha out entry) :
    install sha out (some (recordedList sha list)) list = some out := by
  obtain ⟨old, hload, hlisted⟩ : ∃ old, loadOld sha out (some (recordedList sha list)) = some old ∧
      ∀ path ∉ list.map Prod.fst, old.lookup path = none := by
    by_cases hempty : out = ∅
    · exact ⟨∅, if_pos hempty, fun _ _ ↦ rfl⟩
    · refine ⟨recordedList sha list, ?_, fun path hpath ↦ eq_none_iff_forall_ne_some.mpr ?_⟩
      · rw [loadOld, if_neg hempty]
        refine if_pos (all_eq_true.mpr fun ⟨path, recorded⟩ hrecorded ↦ ?_)
        obtain ⟨entry, hentry, rfl⟩ := of_lookup_recordedList (AList.mem_lookup_iff.mpr hrecorded)
        obtain ⟨node, hnode, hrecorded⟩ := hright _ hentry
        simp only [hnode]
        cases entry <;> cases node <;> simp_all [unmodified, Node.recorded, Entry.recorded]
      · intro recorded hlookup
        obtain ⟨entry, hentry, -⟩ := of_lookup_recordedList hlookup
        exact hpath (mem_map_of_mem hentry)
  obtain ⟨left, hcopy⟩ := copyFiles_right hright old
  have hspec := copyFiles_spec hsorted (fun entry hentry hdir ↦ by
    obtain ⟨node, hnode, hrecorded⟩ := hright entry hentry
    obtain rfl := some_inj.mp (hdir.symm.trans hnode)
    cases hrecorded) hcopy
  obtain ⟨final, hrun, hlookup⟩ := run_unlink left.keys out
  have hsame : final = out := by
    refine Finmap.ext_lookup fun path ↦ ?_
    rw [hlookup, if_neg]
    rintro ⟨hkey, -⟩
    refine AList.lookup_eq_none.mp ?_ hkey
    rw [hspec.left]
    split_ifs with hmem
    · rfl
    · exact hlisted path hmem
  rw [install, hload]
  simp [hcopy, hrun, hsame]

end

end LumoSQL.NotFork
