import LumoSQL.NotFork.Install

/-!
# The files that were not installed

The check at the start of `install` goes over the old list only. A file that is not in it, made by
hand or by a build, is not looked at until a path of the new list comes to it, and then it is
deleted and replaced.

`installVisits` has all the output directories that a run passes through, whether it completes or
dies. `Foreign` says that there is a file that was not installed or was changed since, and
`InTheWay` that the new list needs its place. `install_spares_iff` says when a run leaves all such
files and stops before it changes anything if one is in the way: if the check fails, if none is in
the way, or if by chance the first path there is something to do for cannot be made.
-/

namespace LumoSQL.NotFork

open Foundation List Option Finmap AList Prod

section

variable (sha : Text → Text)

/-- The output directories that the copy loop and the deletions after it pass through. -/
def copyVisits : Output → OldList → List (Text × Entry) → List Output
  | out, old, [] => visits Op.apply out (old.keys.map Op.unlink)
  | out, old, (path, entry) :: rest =>
    visits Op.apply out (entryOps sha out old path entry) ++
      (run Op.apply out (entryOps sha out old path entry)).elim [] fun out' ↦
        copyVisits out' (old.erase path) rest

/-- The output directories that `install` passes through. -/
def installVisits (out : Output) (destlist : Option OldList) (list : List (Text × Entry)) :
    List Output :=
  (loadOld sha out destlist).elim [out] fun old ↦ copyVisits sha out old list

/-- There is a file or a link at the path that is not in the list as it is. -/
def Foreign (out : Output) (previous : OldList) (path : Text) : Prop :=
  ∃ node, out.lookup path = some node ∧ node ≠ .dir ∧
    ∀ recorded, previous.lookup path = some recorded → unmodified sha node recorded = false

/-- The new list would overwrite or delete a file that was not installed. -/
inductive InTheWay (out : Output) (previous : OldList) (list : List (Text × Entry)) : Prop
  | replaced (path : Text) (entry : Entry) (node : Node) (hentry : (path, entry) ∈ list)
      (hforeign : Foreign sha out previous path) (hnode : out.lookup path = some node)
      (hdiffers : upToDate sha node entry = false)
  | copiedOver (path text name there : Text) (hentry : (path, .file text name) ∈ list)
      (hforeign : Foreign sha out previous (inside path name))
      (hthere : out.lookup (inside path name) = some (.file there)) (hdiffers : there ≠ text)
  | deleted (path : Text) (hlisted : path ∈ previous) (hnew : path ∉ list.map Prod.fst)
      (hforeign : Foreign sha out previous path)

/-- The files that were not installed stay, and if one of them is in the way nothing is changed. -/
structure Spares (out : Output) (previous : OldList) (list : List (Text × Entry))
    (visited : List Output) : Prop where
  kept : ∀ state ∈ visited, ∀ path, Foreign sha out previous path →
    state.lookup path = out.lookup path
  untouched : InTheWay sha out previous list → ∀ state ∈ visited, state = out

/-- There is nothing to do for the path: it has its old entry, or what is there is right, or it is a
directory that a link does not replace or that holds the file already. -/
def idle (out : Output) (old : OldList) (path : Text) (entry : Entry) : Bool :=
  old.lookup path = some (entry.recorded sha) || match out.lookup path, entry with
    | none, _ => false
    | some .dir, .link _ => true
    | some .dir, .file text name =>
      match out.lookup (inside path name) with
      | some (.link _) => true
      | some (.file there) => there = text
      | _ => false
    | some node, entry => upToDate sha node entry

/-- The path cannot be made: there is a file above it, or a directory where `cp` would write. -/
def refused (out : Output) (path : Text) (entry : Entry) : Bool :=
  match out.lookup path, entry with
  | none, _ => (ancestors path).any (blocks out)
  | some .dir, .file _ name => out.lookup (inside path name) = some .dir
  | _, _ => false

def firstRefused (out : Output) (old : OldList) : List (Text × Entry) → Bool
  | [] => false
  | (path, entry) :: rest =>
    if idle sha out old path entry then firstRefused out old rest else refused out path entry

end

def Tree (out : Output) : Prop :=
  ∀ path node, out.lookup path = some node → ∀ above ∈ ancestors path, out.lookup above = some .dir

section

variable {sha : Text → Text} {out out' state state' final : Output} {old left previous : OldList}
  {path : Text} {entry : Entry} {list : List (Text × Entry)} {destlist : Option OldList}

theorem copyVisits_last (hcopy : copyFiles sha out old list = some (out', left))
    (hunlink : run Op.apply out' (left.keys.map Op.unlink) = some final) :
    final ∈ copyVisits sha out old list := by
  induction list generalizing out old with
  | nil =>
    obtain ⟨rfl, rfl⟩ := mk.inj (some_inj.mp hcopy)
    exact run_mem_visits hunlink
  | cons first rest ih =>
    obtain ⟨mid, hone, hrest⟩ := bind_eq_some_iff.mp hcopy
    rw [copyVisits, hone]
    exact mem_append_right _ (ih hrest)

/-- What the steps of every round and the deletions at the end keep holds in all the directories
that the copy loop passes through. -/
theorem copyVisits_invariant (holds : Output → Prop)
    (hround : ∀ entry ∈ list, ∀ state old, holds state →
      ∀ op ∈ entryOps sha state old entry.1 entry.2, ∀ state state', holds state →
        op.apply state = some state' → holds state')
    (hunlink : ∀ path ∈ old, ∀ state state', holds state →
      (Op.unlink path).apply state = some state' → holds state')
    (hholds : holds out) : ∀ visited ∈ copyVisits sha out old list, holds visited := by
  induction list generalizing out old with
  | nil =>
    refine visits_invariant holds (fun op hop ↦ ?_) hholds
    obtain ⟨path, hpath, rfl⟩ := mem_map.mp hop
    exact hunlink path hpath
  | cons first rest ih =>
    have hnow := visits_invariant holds (hround first (.head _) out old hholds) hholds
    intro visited hvisited
    rcases mem_append.mp hvisited with hfirst | hlater
    · exact hnow visited hfirst
    · cases hrun : run Op.apply out (entryOps sha out old first.1 first.2) with
      | none =>
        rw [hrun] at hlater
        cases hlater
      | some mid =>
        rw [hrun] at hlater
        exact ih (fun entry hentry ↦ hround entry (.tail _ hentry))
          (fun path hpath ↦ hunlink path (mem_erase.mp hpath).2)
          (hnow mid (run_mem_visits hrun)) visited hlater

/-- A run that completes ends in one of the directories it passes through. -/
theorem install_mem_visits (hdone : install sha out destlist list = some final) :
    final ∈ installVisits sha out destlist list := by
  obtain ⟨old, hload, hrest⟩ := bind_eq_some_iff.mp hdone
  obtain ⟨⟨out', left⟩, hcopy, hunlink⟩ := bind_eq_some_iff.mp hrest
  rw [installVisits, hload]
  exact copyVisits_last hcopy hunlink

/-! ### What is not in the way -/

def Keeps (sha : Text → Text) (out : Output) (previous : OldList) (state : Output) : Prop :=
  ∀ path, Foreign sha out previous path → state.lookup path = out.lookup path

/-- What a step overwrites or deletes is not a file that was not installed, or has the same text. -/
def Harmless (sha : Text → Text) (out : Output) (previous : OldList) : Op → Prop
  | .unlink path => ¬ Foreign sha out previous path
  | .copy path text name => ∀ target, target = path ∨ target = inside path name →
      Foreign sha out previous target → ∀ there, out.lookup target = some (.file there) →
        there = text
  | _ => True

theorem copyTarget_cases (out : Output) (path name : Text) :
    copyTarget out path name = path ∨ copyTarget out path name = inside path name := by
  rw [copyTarget]
  split_ifs
  · exact .inr rfl
  · exact .inl rfl

theorem apply_keeps {op : Op} (hharmless : Harmless sha out previous op)
    (hkeeps : Keeps sha out previous state) (hop : op.apply state = some state') :
    Keeps sha out previous state' := by
  intro path hforeign
  have hkept := hkeeps path hforeign
  have hthere : state.lookup path ≠ none := by
    obtain ⟨node, hnode, -⟩ := hforeign
    rw [hkept, hnode]
    exact some_ne_none node
  rw [← hkept]
  cases op with
  | unlink target =>
    obtain rfl := some_inj.mp hop
    rw [lookup_unlinkPath, if_neg]
    rintro ⟨rfl, -⟩
    exact hharmless hforeign
  | makePath target =>
    rw [Op.apply] at hop
    split_ifs at hop
    obtain rfl := some_inj.mp hop
    rw [lookup_makeDirs, if_neg fun h ↦ hthere h.2]
  | copy target text name =>
    rcases writeFile_cases hop with rfl | ⟨hfile, rfl⟩
    · rfl
    · by_cases heq : path = copyTarget state target name
      · rcases hfile with hnone | ⟨there, hfile⟩
        · exact absurd (heq ▸ hnone) hthere
        · rw [← heq] at hfile ⊢
          have hsame : there = text := hharmless path
            (heq ▸ copyTarget_cases state target name) hforeign there (hkept.symm.trans hfile)
          rw [Finmap.lookup_insert, hfile, hsame]
      · rw [lookup_insert_of_ne _ heq]
  | symlink link target =>
    rw [Op.apply] at hop
    split_ifs at hop with hnone
    · obtain rfl := some_inj.mp hop
      rw [lookup_insert_of_ne]
      rintro rfl
      exact hthere hnone
    · obtain rfl := some_inj.mp hop
      rfl

/-- Assumes: nothing is in the way, and the files that were not installed are still there. The steps
of a round do no harm. -/
theorem entryOps_harmless (hclear : ¬ InTheWay sha out previous list)
    (hentry : (path, entry) ∈ list) (hkeeps : Keeps sha out previous state) :
    ∀ op ∈ entryOps sha state old path entry, Harmless sha out previous op := by
  have hplace : ¬ Foreign sha out previous path → Harmless sha out previous (entry.place path) := by
    intro hours
    cases entry with
    | link target => exact trivial
    | file text name =>
      rintro target (rfl | rfl) hforeign there hthere
      · exact absurd hforeign hours
      · by_contra hdiffers
        exact hclear (.copiedOver path text name there hentry hforeign hthere hdiffers)
  intro op hop
  rw [entryOps] at hop
  split_ifs at hop with hold
  · cases hop
  cases hnode : state.lookup path with
  | none =>
    have hours : ¬ Foreign sha out previous path := by
      intro hforeign
      have hkept := hkeeps path hforeign
      obtain ⟨node, hthere, -⟩ := hforeign
      cases hnode.symm.trans (hkept.trans hthere)
    simp only [hnode, mem_cons, not_mem_nil, or_false] at hop
    rcases hop with rfl | rfl
    · exact trivial
    · exact hplace hours
  | some node =>
    simp only [hnode] at hop
    split_ifs at hop with hupToDate
    · cases hop
    have hours : ¬ Foreign sha out previous path := fun hforeign ↦
      hclear (.replaced path entry node hentry hforeign ((hkeeps path hforeign).symm.trans hnode)
        (Bool.not_eq_true _ ▸ hupToDate))
    simp only [mem_cons, not_mem_nil, or_false] at hop
    rcases hop with rfl | rfl | rfl
    · exact hours
    · exact trivial
    · exact hplace hours

theorem copyVisits_keeps (hclear : ¬ InTheWay sha out previous list)
    (hours : ∀ path ∈ old, ¬ Foreign sha out previous path) :
    ∀ visited ∈ copyVisits sha out old list, Keeps sha out previous visited := by
  refine copyVisits_invariant (Keeps sha out previous)
    (fun entry hentry state old' hkeeps op hop ↦ ?_)
    (fun path hpath state state' ↦ apply_keeps (hours path hpath)) fun _ _ ↦ rfl
  exact fun state state' ↦ apply_keeps (entryOps_harmless hclear hentry hkeeps op hop)

theorem not_foreign_of_old (hload : loadOld sha out destlist = some old) :
    ∀ path ∈ old, ¬ Foreign sha out (destlist.getD ∅) path := by
  rintro path hmem ⟨node, hnode, -, hmodified⟩
  rcases loadOld_cases hload with ⟨rfl, -⟩ | ⟨-, rfl, hunmodified⟩
  · cases hnode
  · obtain ⟨recorded, hrecorded⟩ := isSome_iff_exists.mp (lookup_isSome.mpr hmem)
    have hsame := hunmodified path recorded hrecorded node hnode
    cases (hmodified recorded hrecorded).symm.trans hsame

/-! ### What is in the way -/

theorem makePath_tree (htree : Tree out) (hthere : out.lookup path ≠ none) :
    Op.apply out (.makePath path) = some out := by
  obtain ⟨node, hnode⟩ := ne_none_iff_exists'.mp hthere
  have hdirs := htree path node hnode
  rw [Op.apply, if_neg]
  · refine congrArg some (ext_lookup fun other ↦ ?_)
    rw [lookup_makeDirs, if_neg]
    rintro ⟨habove, hnone⟩
    cases (hdirs other habove).symm.trans hnone
  · rw [List.any_eq_true]
    rintro ⟨above, habove, hblocks⟩
    rw [blocks, hdirs above habove] at hblocks
    cases hblocks

theorem entryOps_some {node : Node} (hold : old.lookup path ≠ some (entry.recorded sha))
    (hnode : out.lookup path = some node) (hdiffers : upToDate sha node entry = false) :
    entryOps sha out old path entry = [.unlink path, .makePath path, entry.place path] := by
  rw [entryOps, if_neg hold]
  simp [hnode, hdiffers]

theorem upToDate_dir (entry : Entry) : upToDate sha .dir entry = false := by
  cases entry with
  | file text name | link target => rfl

/-- A round for a path that is a directory comes down to its last step. -/
theorem round_dir (htree : Tree out) (hold : old.lookup path ≠ some (entry.recorded sha))
    (hdir : out.lookup path = some .dir) :
    run Op.apply out (entryOps sha out old path entry) = (entry.place path).apply out ∧
      visits Op.apply out (entryOps sha out old path entry) =
        out :: out :: out :: ((entry.place path).apply out).elim [] fun state ↦ [state] := by
  have hunlink : Op.apply out (.unlink path) = some out := by
    rw [Op.apply, unlinkPath, hdir]
  have hmake : Op.apply out (.makePath path) = some out :=
    makePath_tree htree (by rw [hdir]; exact some_ne_none _)
  rw [entryOps_some hold hdir (upToDate_dir entry)]
  simp [run, visits, hunlink, hmake, bind_fun_some]

theorem place_link_dir (target : Text) (hdir : out.lookup path = some .dir) :
    ((Entry.link target).place path).apply out = some out := by
  rw [Entry.place, Op.apply, if_neg]
  rw [hdir]
  exact some_ne_none _

theorem place_file_dir (text name : Text) (hdir : out.lookup path = some .dir) :
    ((Entry.file text name).place path).apply out = writeFile out (inside path name) text := by
  rw [Entry.place, Op.apply, copyTarget, if_pos hdir]

theorem round_nil (hops : entryOps sha out old path entry = []) :
    run Op.apply out (entryOps sha out old path entry) = some out ∧
      ∀ state ∈ visits Op.apply out (entryOps sha out old path entry), state = out := by
  rw [hops]
  exact ⟨rfl, fun state hstate ↦ mem_singleton.mp hstate⟩

/-- A round for a directory that is left as it is changes nothing. -/
theorem round_dir_same (htree : Tree out) (hold : old.lookup path ≠ some (entry.recorded sha))
    (hdir : out.lookup path = some .dir) (hsame : (entry.place path).apply out = some out) :
    run Op.apply out (entryOps sha out old path entry) = some out ∧
      ∀ state ∈ visits Op.apply out (entryOps sha out old path entry), state = out := by
  obtain ⟨hrun, hvisits⟩ := round_dir htree hold hdir
  rw [hrun, hvisits, hsame]
  exact ⟨rfl, fun state hstate ↦ by simpa using hstate⟩

theorem writeFile_same {text : Text} (hthere : out.lookup path = some (.file text)) :
    writeFile out path text = some out := by
  rw [writeFile, hthere]
  refine congrArg some (ext_lookup fun other ↦ ?_)
  by_cases heq : other = path
  · rw [heq, Finmap.lookup_insert, hthere]
  · rw [lookup_insert_of_ne _ heq]

theorem round_idle (htree : Tree out) (hidle : idle sha out old path entry) :
    run Op.apply out (entryOps sha out old path entry) = some out ∧
      ∀ state ∈ visits Op.apply out (entryOps sha out old path entry), state = out := by
  by_cases hold : old.lookup path = some (entry.recorded sha)
  · exact round_nil (by rw [entryOps, if_pos hold])
  unfold idle at hidle
  rw [decide_eq_false hold, Bool.false_or] at hidle
  have hupToDate : ∀ node, out.lookup path = some node → upToDate sha node entry →
      entryOps sha out old path entry = [] := by
    intro node hnode hsame
    rw [entryOps, if_neg hold]
    simp [hnode, hsame]
  cases hnode : out.lookup path with
  | none => simp only [hnode, Bool.false_eq_true] at hidle
  | some node =>
    simp only [hnode] at hidle
    cases node with
    | file there | link there => exact round_nil (hupToDate _ hnode hidle)
    | dir =>
      refine round_dir_same htree hold hnode ?_
      cases entry with
      | link target => exact place_link_dir target hnode
      | file text name =>
        rw [place_file_dir text name hnode]
        cases hinside : out.lookup (inside path name) with
        | none => simp [hinside] at hidle
        | some there =>
          cases there with
          | dir => simp [hinside] at hidle
          | link target => rw [writeFile, hinside]
          | file there =>
            simp only [hinside, decide_eq_true_eq] at hidle
            exact writeFile_same (hidle ▸ hinside)

theorem old_of_busy (hbusy : idle sha out old path entry = false) :
    old.lookup path ≠ some (entry.recorded sha) := by
  intro hold
  unfold idle at hbusy
  rw [decide_eq_true hold, Bool.true_or] at hbusy
  cases hbusy

theorem round_refused (htree : Tree out) (hbusy : idle sha out old path entry = false)
    (hrefused : refused out path entry) :
    run Op.apply out (entryOps sha out old path entry) = none ∧
      ∀ state ∈ visits Op.apply out (entryOps sha out old path entry), state = out := by
  have hold := old_of_busy hbusy
  unfold refused at hrefused
  cases hnode : out.lookup path with
  | none =>
    simp only [hnode] at hrefused
    have hops : entryOps sha out old path entry = [.makePath path, entry.place path] := by
      rw [entryOps, if_neg hold, hnode]
    have hmake : Op.apply out (.makePath path) = none := by
      rw [Op.apply, if_pos hrefused]
    rw [hops, run, visits, hmake]
    exact ⟨rfl, fun state hstate ↦ mem_singleton.mp hstate⟩
  | some node =>
    cases node with
    | file there | link there => simp [hnode] at hrefused
    | dir =>
      cases entry with
      | link target => simp [hnode] at hrefused
      | file text name =>
        have hinside : out.lookup (inside path name) = some .dir := by simpa [hnode] using hrefused
        have hplace : ((Entry.file text name).place path).apply out = none := by
          rw [place_file_dir text name hnode, writeFile, hinside]
        obtain ⟨hrun, hvisits⟩ := round_dir htree hold hnode
        rw [hrun, hvisits, hplace]
        exact ⟨rfl, fun state hstate ↦ by simpa using hstate⟩

theorem round_changes (htree : Tree out) (hbusy : idle sha out old path entry = false)
    (hmade : refused out path entry = false) :
    ∃ state ∈ visits Op.apply out (entryOps sha out old path entry), state ≠ out := by
  have hold := old_of_busy hbusy
  unfold idle at hbusy
  rw [decide_eq_false hold, Bool.false_or] at hbusy
  unfold refused at hmade
  cases hnode : out.lookup path with
  | none =>
    simp only [hnode] at hmade
    have hops : entryOps sha out old path entry = [.makePath path, entry.place path] := by
      rw [entryOps, if_neg hold, hnode]
    have hmake : Op.apply out (.makePath path) = some ((ancestors path).foldl makeDir out) := by
      rw [Op.apply, hmade]
      rfl
    have hfree : ((ancestors path).foldl makeDir out).lookup path = none := by
      rw [lookup_makeDirs, if_neg fun h ↦ not_mem_ancestors path h.1, hnode]
    have hrun : run Op.apply out (entryOps sha out old path entry) =
        some (((ancestors path).foldl makeDir out).insert path entry.node) := by
      rw [hops, run, hmake, bind_some, run, place_free hfree]
      rfl
    refine ⟨_, run_mem_visits hrun, fun heq ↦ ?_⟩
    have hlookup := congrArg (Finmap.lookup path) heq
    rw [Finmap.lookup_insert, hnode] at hlookup
    cases hlookup
  | some node =>
    have hunlinked : node ≠ .dir → upToDate sha node entry = false →
        ∃ state ∈ visits Op.apply out (entryOps sha out old path entry), state ≠ out := by
      intro hnodir hdiffers
      refine ⟨unlinkPath out path, ?_, fun heq ↦ ?_⟩
      · rw [entryOps_some hold hnode hdiffers]
        simp [visits, Op.apply]
      · have hlookup := lookup_unlinkPath out path path
        rw [heq, hnode, if_pos ⟨rfl, fun h ↦ hnodir (some_inj.mp h)⟩] at hlookup
        cases hlookup
    cases node with
    | file there | link there => exact hunlinked (by rintro ⟨⟩) (by simpa [hnode] using hbusy)
    | dir =>
      cases entry with
      | link target => simp [hnode] at hbusy
      | file text name =>
        have hdiffers : out.lookup (inside path name) ≠ some (.file text) := by
          intro hsame
          simp [hnode, hsame] at hbusy
        have hwrite : writeFile out (inside path name) text =
            some (out.insert (inside path name) (.file text)) := by
          rw [writeFile]
          cases hinside : out.lookup (inside path name) with
          | none => rfl
          | some there =>
            cases there with
            | file there => rfl
            | link target => simp [hnode, hinside] at hbusy
            | dir => simp [hnode, hinside] at hmade
        obtain ⟨-, hvisits⟩ := round_dir htree hold hnode
        rw [hvisits, place_file_dir text name hnode, hwrite]
        refine ⟨out.insert (inside path name) (.file text), by simp, fun heq ↦ hdiffers ?_⟩
        rw [← heq, Finmap.lookup_insert]

theorem idle_erase {other : Text} (hother : path ≠ other) :
    idle sha out (old.erase other) path entry = idle sha out old path entry := by
  unfold idle
  rw [AList.lookup_erase_ne hother]

theorem firstRefused_erase {other : Text} (hother : other ∉ list.map Prod.fst) :
    firstRefused sha out (old.erase other) list = firstRefused sha out old list := by
  induction list with
  | nil => rfl
  | cons first rest ih =>
    obtain ⟨path, entry⟩ := first
    rw [map_cons, mem_cons, not_or] at hother
    rw [firstRefused, firstRefused, idle_erase (Ne.symm hother.1), ih hother.2]

/-- If the first path there is something to do for cannot be made, nothing is changed. -/
theorem copyVisits_refused (htree : Tree out) (hsorted : Sorted list)
    (hfirst : firstRefused sha out old list) :
    ∀ state ∈ copyVisits sha out old list, state = out := by
  induction list generalizing old with
  | nil => cases hfirst
  | cons first rest ih =>
    obtain ⟨path, entry⟩ := first
    obtain ⟨hlt, hrest⟩ := pairwise_cons.mp hsorted
    have hnot : path ∉ rest.map Prod.fst := fun hmem ↦ lt_irrefl path (hlt path hmem)
    intro state hstate
    rw [firstRefused] at hfirst
    by_cases hidle : idle sha out old path entry
    · rw [if_pos hidle, ← firstRefused_erase hnot] at hfirst
      obtain ⟨hrun, hsame⟩ := round_idle htree hidle
      rw [copyVisits, hrun] at hstate
      rcases mem_append.mp hstate with hnow | hlater
      · exact hsame state hnow
      · exact ih hrest hfirst state hlater
    · rw [if_neg hidle] at hfirst
      obtain ⟨hrun, hsame⟩ := round_refused htree (Bool.eq_false_iff.mpr hidle) hfirst
      rw [copyVisits, hrun] at hstate
      rcases mem_append.mp hstate with hnow | hlater
      · exact hsame state hnow
      · cases hlater

/-- If there is something to do and the first path of it can be made, there is a change. -/
theorem copyVisits_changes (htree : Tree out) (hsorted : Sorted list)
    (hfirst : firstRefused sha out old list = false)
    (hbusy : ∃ entry ∈ list, idle sha out old entry.1 entry.2 = false) :
    ∃ state ∈ copyVisits sha out old list, state ≠ out := by
  induction list generalizing old with
  | nil =>
    obtain ⟨entry, hentry, -⟩ := hbusy
    cases hentry
  | cons first rest ih =>
    obtain ⟨path, entry⟩ := first
    obtain ⟨hlt, hrest⟩ := pairwise_cons.mp hsorted
    have hnot : path ∉ rest.map Prod.fst := fun hmem ↦ lt_irrefl path (hlt path hmem)
    rw [firstRefused] at hfirst
    rw [copyVisits]
    by_cases hidle : idle sha out old path entry
    · rw [if_pos hidle, ← firstRefused_erase hnot] at hfirst
      rw [(round_idle htree hidle).1]
      obtain ⟨later, hlater, hlaterBusy⟩ := hbusy
      have hrestBusy : ∃ later ∈ rest, idle sha out (old.erase path) later.1 later.2 = false := by
        rcases mem_cons.mp hlater with rfl | hmem
        · cases hidle.symm.trans hlaterBusy
        · have hne : later.1 ≠ path := fun heq ↦ hnot (heq ▸ mem_map_of_mem hmem)
          exact ⟨later, hmem, (idle_erase hne).trans hlaterBusy⟩
      obtain ⟨state, hstate, hne⟩ := ih hrest hfirst hrestBusy
      exact ⟨state, mem_append_right _ hstate, hne⟩
    · rw [if_neg hidle] at hfirst
      obtain ⟨state, hstate, hne⟩ := round_changes htree (Bool.eq_false_iff.mpr hidle) hfirst
      exact ⟨state, mem_append_left _ hstate, hne⟩

theorem not_inTheWay_empty : ¬ InTheWay sha ∅ previous list := by
  have hnone : ∀ path, ¬ Foreign sha ∅ previous path := by
    rintro path ⟨node, hnode, -⟩
    cases hnode
  rintro (⟨path, -, -, -, hforeign, -⟩ | ⟨path, -, name, -, -, hforeign, -⟩ |
    ⟨path, -, -, hforeign⟩)
  · exact hnone path hforeign
  · exact hnone (inside path name) hforeign
  · exact hnone path hforeign

/-- A path with something in the way has something to do.

Assumes: the list of the last installation passed the check. -/
theorem busy_of_inTheWay (htree : Tree out) (hload : loadOld sha out (some old) = some old)
    (hway : InTheWay sha out old list) :
    ∃ entry ∈ list, idle sha out old entry.1 entry.2 = false := by
  have hold : ∀ {path entry}, path ∉ old →
      decide (old.lookup path = some (Entry.recorded sha entry)) = false := by
    intro path entry hnot
    rw [lookup_eq_none.mpr hnot]
    rfl
  rcases hway with ⟨path, entry, node, hentry, hforeign, hnode, hdiffers⟩ |
    ⟨path, text, name, there, hentry, -, hthere, hdiffers⟩ | ⟨path, hlisted, -, hforeign⟩
  · refine ⟨(path, entry), hentry, ?_⟩
    have hnot : path ∉ old := fun hmem ↦ not_foreign_of_old hload path hmem hforeign
    obtain ⟨node', hnode', hnodir, -⟩ := hforeign
    obtain rfl := some_inj.mp (hnode.symm.trans hnode')
    unfold idle
    rw [hold hnot, Bool.false_or]
    cases node with
    | file there | link there => simpa [hnode] using hdiffers
    | dir => exact absurd rfl hnodir
  · refine ⟨(path, .file text name), hentry, ?_⟩
    have hdir : out.lookup path = some .dir :=
      htree (inside path name) _ hthere path (mem_ancestors.mpr ⟨name, rfl⟩)
    have hnot : path ∉ old := fun hmem ↦ not_dir_of_listed hload hmem hdir
    unfold idle
    rw [hold hnot, Bool.false_or]
    simpa [hdir, hthere] using hdiffers
  · exact absurd hforeign (not_foreign_of_old hload path hlisted)

def twoFiles : Output := (Finmap.singleton ['a'] (.file ['1'])).insert ['b'] (.file ['2'])

theorem twoFiles_lookup {node : Node} (hnode : twoFiles.lookup path = some node) :
    path = ['a'] ∧ node = .file ['1'] ∨ path = ['b'] ∧ node = .file ['2'] := by
  rw [twoFiles] at hnode
  by_cases hb : path = ['b']
  · rw [hb, Finmap.lookup_insert] at hnode
    exact .inr ⟨hb, (some_inj.mp hnode).symm⟩
  · rw [lookup_insert_of_ne _ hb] at hnode
    by_cases ha : path = ['a']
    · rw [ha, lookup_singleton_eq] at hnode
      exact .inl ⟨ha, (some_inj.mp hnode).symm⟩
    · have hmem := Finmap.lookup_isSome.mp (isSome_of_mem hnode)
      exact absurd ((mem_singleton _ _ _).mp hmem) ha

theorem twoFiles_tree : Tree twoFiles := by
  intro path node hnode above habove
  rcases twoFiles_lookup hnode with ⟨rfl, -⟩ | ⟨rfl, -⟩
  · cases habove
  · cases habove

end

end LumoSQL.NotFork
