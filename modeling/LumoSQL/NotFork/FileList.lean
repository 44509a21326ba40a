import LumoSQL.NotFork.Modifications

/-!
# The list of the files to install

`makeFilelist` lists the tracked files, and the steps of the modification files change the list one
after the other. `modifications_compose_iff` says when the list has the composition of the effects
of the steps, all along a run: as long as every edit makes the same of the working copies and of
what is listed, edits nothing that is not listed, and deletes nothing. An edit of a file that was
replaced before starts from the upstream file again (`edit_after_replace`).

With a subtree the list names the tracked files below it without the name of the subtree, and the
edits name them with it. `subtree_list_iff` says that the list stays right only while nothing is
edited (`keepsBelow_of_no_edits`), but for coincidences.
-/

namespace LumoSQL.NotFork

open Foundation List Option Function

/-! ### The list to start from -/

section

variable (tree : Checkout)

theorem stripSubtree_iff (sub path listed : Text) :
    stripSubtree (some sub) path = some listed ↔ path = sub ++ '/' :: listed := by
  rw [stripSubtree]
  by_cases htake : path.take sub.length = sub
  · obtain ⟨rest, rfl⟩ : ∃ rest, path = sub ++ rest :=
      ⟨path.drop sub.length, by conv_lhs => rw [← take_append_drop sub.length path, htake]⟩
    rw [if_neg (not_not.mpr htake), drop_left, append_cancel_left_eq, ← drop_drop, drop_left]
    cases rest with
    | nil => simp
    | cons c rest =>
      by_cases hc : c = '/'
      · simp [hc]
      · simp [hc]
  · rw [if_pos htake]
    refine iff_of_false (nofun) ?_
    rintro rfl
    exact htake take_left

/-- Two tracked files are not listed under one path. -/
theorem stripSubtree_inj {subtree : Option Text} {path other listed : Text}
    (hpath : stripSubtree subtree path = some listed)
    (hother : stripSubtree subtree other = some listed) : path = other := by
  cases subtree with
  | none => exact (some_inj.mp hpath).trans (some_inj.mp hother).symm
  | some sub =>
    rw [stripSubtree_iff] at hpath hother
    exact hpath.trans hother.symm

variable (subtree : Option Text)

theorem listFile_spec (s : Work) {path : Text} (hpath : tree.files path ≠ none) :
    (listFile tree subtree s path).copy = s.copy ∧
      (listFile tree subtree s path).cached = s.cached ∧
      ∀ listed, (listFile tree subtree s path).filelist listed =
        if stripSubtree subtree path = some listed then some (.upstream path)
        else s.filelist listed := by
  cases hstrip : stripSubtree subtree path with
  | none => simp [listFile, hstrip]
  | some first =>
    have hlist : listFile tree subtree s path =
        ⟨s.copy, s.cached, Function.update s.filelist first (some (.upstream path))⟩ := by
      simp only [listFile, hstrip]
      exact if_neg hpath
    rw [hlist]
    refine ⟨rfl, rfl, fun listed ↦ ?_⟩
    by_cases heq : first = listed
    · subst heq
      rw [if_pos rfl]
      exact update_self first _ _
    · rw [if_neg fun h ↦ heq (some_inj.mp h)]
      exact update_of_ne (Ne.symm heq) _ _

theorem foldl_listFile (paths : List Text) (hpaths : ∀ path ∈ paths, tree.files path ≠ none)
    (s : Work) : (paths.foldl (listFile tree subtree) s).copy = s.copy ∧
      (paths.foldl (listFile tree subtree) s).cached = s.cached ∧
      ∀ listed, (∀ path ∈ paths, stripSubtree subtree path = some listed →
          (paths.foldl (listFile tree subtree) s).filelist listed = some (.upstream path)) ∧
        ((∀ path ∈ paths, stripSubtree subtree path ≠ some listed) →
          (paths.foldl (listFile tree subtree) s).filelist listed = s.filelist listed) := by
  induction paths generalizing s with
  | nil => simp
  | cons first rest ih =>
    obtain ⟨hcopy, hcached, hlist⟩ := listFile_spec tree subtree s (hpaths first (.head _))
    obtain ⟨hcopy', hcached', hlist'⟩ := ih (fun path hpath ↦
      hpaths path (.tail _ hpath)) (listFile tree subtree s first)
    refine ⟨hcopy'.trans hcopy, hcached'.trans hcached, fun listed ↦ ⟨fun path hpath hstrip ↦ ?_,
      fun hnone ↦ ?_⟩⟩
    · by_cases hlater : ∃ other ∈ rest, stripSubtree subtree other = some listed
      · obtain ⟨other, hother, hstrip'⟩ := hlater
        rw [stripSubtree_inj hstrip hstrip']
        exact (hlist' listed).1 other hother hstrip'
      · have hnot : ∀ other ∈ rest, stripSubtree subtree other ≠ some listed :=
          fun other hother hstrip' ↦ hlater ⟨other, hother, hstrip'⟩
        rcases mem_cons.mp hpath with rfl | hmem
        · exact ((hlist' listed).2 hnot).trans ((hlist listed).trans (if_pos hstrip))
        · exact absurd hstrip (hnot path hmem)
    · refine ((hlist' listed).2 fun path hpath ↦ hnone path (.tail _ hpath)).trans ?_
      rw [hlist, if_neg (hnone first (.head _))]

/-- The list to start from: the tracked files, under the paths that the subtree leaves them. -/
theorem makeFilelist_spec : (makeFilelist tree subtree).Tidy ∧
      ∀ listed, (∀ path ∈ tree.tracked, stripSubtree subtree path = some listed →
          (makeFilelist tree subtree).listed tree listed = some (tree.files path)) ∧
        ((∀ path ∈ tree.tracked, stripSubtree subtree path ≠ some listed) →
          (makeFilelist tree subtree).listed tree listed = none) := by
  obtain ⟨hcopy, hcached, hlist⟩ := foldl_listFile tree subtree tree.tracked tree.tracked_files
    ⟨fun _ ↦ none, [], fun _ ↦ none⟩
  refine ⟨⟨fun path _ ↦ congrFun hcopy path, fun path other hentry ↦ ?_⟩,
    fun listed ↦ ⟨fun path hpath hstrip ↦ ?_, fun hnone ↦ ?_⟩⟩
  · by_cases hlisted : ∃ tracked ∈ tree.tracked, stripSubtree subtree tracked = some path
    · obtain ⟨tracked, htracked, hstrip⟩ := hlisted
      cases ((hlist path).1 tracked htracked hstrip).symm.trans hentry
    · cases ((hlist path).2 fun tracked htracked hstrip ↦
        hlisted ⟨tracked, htracked, hstrip⟩).symm.trans hentry
  · rw [Work.listed, makeFilelist, (hlist listed).1 path hpath hstrip]
    rfl
  · rw [Work.listed, makeFilelist, (hlist listed).2 hnone]
    rfl

end

/-! ### Whole runs -/

section

variable {tree : Checkout}

theorem foldl_effect (steps : List Step) (want : Text → Option Text) (path : Text) :
    (steps.foldl effects want) path =
      steps.foldl (fun text step ↦ step.effect path text) (want path) := by
  induction steps generalizing want with
  | nil => rfl
  | cons step rest ih => exact ih _

variable {text : Option Text}

theorem runOps_creates {ops : List (Text × PatchOp)} (hsome : runOps ops text ≠ none) :
    text ≠ none ∨ ∃ op ∈ ops, ∃ new, op.2 = .create new := by
  induction ops generalizing text with
  | nil => exact .inl hsome
  | cons op rest ih =>
    rcases ih hsome with hnext | ⟨op', hop', hcreate⟩
    · cases text with
      | some old => exact .inl (some_ne_none old)
      | none =>
        refine .inr ⟨op, .head _, ?_⟩
        obtain ⟨first, op⟩ := op
        cases op with
        | create new => exact ⟨new, rfl⟩
        | change edit | delete => exact absurd rfl hnext
    · exact .inr ⟨op', .tail _ hop', hcreate⟩

/-- A path has a content after the steps only if it is tracked or one of them creates it. -/
theorem composed_creates {steps : List Step} {path : Text}
    (hsome : steps.foldl (fun text step ↦ step.effect path text) text ≠ none) :
    text ≠ none ∨ ∃ step ∈ steps, step.Creates path := by
  induction steps generalizing text with
  | nil => exact .inl hsome
  | cons step rest ih =>
    rcases ih hsome with hnext | ⟨step', hstep', hcreates⟩
    · cases step with
      | replace from_ own =>
        change (if path = from_ then some own else text) ≠ none at hnext
        by_cases heq : path = from_
        · exact .inr ⟨_, .head _, heq.symm⟩
        · rw [if_neg heq] at hnext
          exact .inl hnext
      | sed fileRegex substitute =>
        change (if sedMatches fileRegex path then text.map substitute else text) ≠ none at hnext
        refine .inl fun hnone ↦ hnext ?_
        rw [hnone, map_none, ite_self]
      | patch ops =>
        rcases runOps_creates hnext with hold | ⟨op, hop, new, hnew⟩
        · exact .inl hold
        · refine .inr ⟨_, .head _, new, ?_⟩
          obtain ⟨hmem, hfirst⟩ := mem_filter.mp hop
          obtain ⟨first, op⟩ := op
          obtain rfl : first = path := by simpa using hfirst
          rwa [← hnew]
    · exact .inr ⟨step', .tail _ hstep', hcreates⟩

end

/-! ### One file -/

/-- A checkout of one tracked file. -/
def oneFile (path text : Text) : Checkout where
  found := [path]
  nodup := by simp
  files other := if other = path then some text else none
  found_files other hother := by
    by_contra hne
    rw [if_neg fun heq ↦ hne (List.mem_singleton.mpr heq)] at hother
    exact hother rfl
  tracked := [path]
  tracked_files other hother := by
    rw [if_pos (List.mem_singleton.mp hother)]
    exact Option.some_ne_none text

def patchOne (path : Text) : Step := .patch [(path, .change fun text ↦ some (text ++ ['!']))]

theorem patchOne_effect {path other : Text} (hother : other ≠ path) (text : Option Text) :
    (patchOne path).effect other text = text := by
  have hnone : [(path, PatchOp.change fun text ↦ some (text ++ ['!']))].filter (·.1 = other) = [] :=
    filter_cons_of_neg (by simpa using Ne.symm hother)
  rw [patchOne, Step.effect, hnone]
  rfl

theorem patchOne_succeeds {path text : Text} {s : Work}
    (hworking : s.working (oneFile path text) path ≠ none) :
    Succeeds (oneFile path text) s (patchOne path) := by
  refine ⟨fun op hop ↦ ?_, fun other before op after hops ↦ ?_⟩
  · rw [mem_singleton.mp hop]
    simp [PatchOp.finds, oneFile]
  · have hmem : op ∈
        [(path, PatchOp.change fun text ↦ some (text ++ ['!']))].filter (·.1 = other) :=
      hops ▸ mem_append_right before (.head _)
    obtain ⟨hop, hfirst⟩ := mem_filter.mp hmem
    obtain rfl := mem_singleton.mp hop
    obtain rfl : path = other := by simpa using hfirst
    have hbefore : before = [] := by
      rw [filter_cons_of_pos (by simp), filter_nil] at hops
      cases before with
      | nil => rfl
      | cons first rest => simp at hops
    rw [hbefore]
    obtain ⟨old, hold⟩ := ne_none_iff_exists'.mp hworking
    rw [hold]
    exact some_ne_none _

/-- A sed of the file `f` that puts an exclamation mark behind its text. -/
def sedOne : Step := .sed (· = ['f']) (· ++ ['!'])

def below (sub path : Text) : Text := sub ++ '/' :: path

/-- The step changes files that there are: it is a sed, or a patch without new or deleted files. -/
def Step.Changes : Step → Prop
  | .replace _ _ => False
  | .sed _ _ => True
  | .patch ops => ∀ op ∈ ops, ∃ edit, op.2 = .change edit

/-- The list has exactly the tracked files below the subtree, without its name, each with the
content it is to have. -/
def SubtreeListed (tree : Checkout) (sub : Text) (s : Work) (want : Text → Option Text) : Prop :=
  ∀ path, s.listed tree path =
    if below sub path ∈ tree.tracked then (want (below sub path)).map some else none

/-- Each edited file has the path that another tracked file is listed under, and that file is to get
the content it is edited to; and what is listed of a file that is edited, but not under the path it
is listed under, is not changed by the edit. -/
def KeepsBelow (tree : Checkout) (sub : Text) (s : Work) (step : Step) : Prop :=
  (∀ path ∈ step.edits tree, below sub path ∈ tree.tracked ∧
      step.effect (below sub path) (s.listed tree path).join =
        step.effect path (s.working tree path)) ∧
    ∀ path, path ∉ step.edits tree → below sub path ∈ tree.tracked →
      step.effect (below sub path) (s.listed tree path).join = (s.listed tree path).join

section

variable {tree : Checkout} {sub : Text} {s : Work} {step : Step}

theorem Step.Changes.edit (hchanges : step.Changes) (path text : Text) :
    step ≠ .replace path text := by
  rintro rfl
  exact hchanges

theorem Step.Changes.effect_some (hchanges : step.Changes) (path text : Text) :
    step.effect path (some text) ≠ none := by
  cases step with
  | replace from_ own => exact absurd hchanges id
  | sed fileRegex substitute =>
    rw [Step.effect]
    split_ifs
    · exact some_ne_none _
    · exact some_ne_none _
  | patch ops =>
    have hruns : ∀ (ops : List (Text × PatchOp)) (text : Text),
        (∀ op ∈ ops, ∃ edit, op.2 = .change edit) → runOps ops (some text) ≠ none := by
      intro ops
      induction ops with
      | nil => exact fun text _ ↦ some_ne_none text
      | cons op rest ih =>
        intro text hall
        obtain ⟨edit, hedit⟩ := hall op (.head _)
        have hrest := fun other hother ↦ hall other (mem_cons_of_mem op hother)
        have hfirst : runOps (op :: rest) (some text) =
            runOps rest (((edit text).map some).getD (some text)) := by
          rw [runOps, foldl_cons, hedit]
          rfl
        rw [hfirst]
        cases edit text with
        | none => exact ih text hrest
        | some new => exact ih new hrest
    exact hruns _ _ fun op hop ↦ hchanges op (mem_filter.mp hop).1

/-- After a change the list of a subtree is right exactly if the edits keep below it. -/
theorem change_listed_iff (htidy : s.Tidy) (hsucceeds : Succeeds tree s step)
    (hchanges : step.Changes) {want : Text → Option Text} (hwant : SubtreeListed tree sub s want) :
    SubtreeListed tree sub (s.step tree step) (effects want step) ↔ KeepsBelow tree sub s step := by
  have hedited := step_edited tree htidy hsucceeds hchanges.edit
  have hjoin : ∀ path, below sub path ∈ tree.tracked →
      (s.listed tree path).join = want (below sub path) := by
    intro path htracked
    rw [hwant, if_pos htracked]
    cases want (below sub path) with
    | none | some text => rfl
  have hmem : ∀ path ∈ step.edits tree, ((s.step tree step).listed tree path =
      (if below sub path ∈ tree.tracked
        then (effects want step (below sub path)).map some else none) ↔
      below sub path ∈ tree.tracked ∧ step.effect (below sub path) (s.listed tree path).join =
        step.effect path (s.working tree path)) := by
    intro path hpath
    obtain ⟨text, htext⟩ : ∃ text, step.effect path (s.working tree path) = some text := by
      rw [← ne_none_iff_exists']
      intro hnone
      exact hchanges.effect_some path [] (effect_none hsucceeds htidy hpath hnone (some []))
    rw [hedited.listed_of_mem hpath htext, htext]
    by_cases htracked : below sub path ∈ tree.tracked
    · rw [if_pos htracked, hjoin path htracked, and_iff_right htracked, effects, ← map_some,
        eq_comm]
      exact (map_injective (some_injective Text)).eq_iff
    · rw [if_neg htracked]
      exact iff_of_false (some_ne_none _) fun h ↦ htracked h.1
  have hnot : ∀ path, path ∉ step.edits tree → ((s.step tree step).listed tree path =
      (if below sub path ∈ tree.tracked
        then (effects want step (below sub path)).map some else none) ↔
      (below sub path ∈ tree.tracked → step.effect (below sub path) (s.listed tree path).join =
        (s.listed tree path).join)) := by
    intro path hpath
    rw [hedited.listed_of_not_mem htidy hpath, hwant]
    by_cases htracked : below sub path ∈ tree.tracked
    · rw [if_pos htracked, if_pos htracked, imp_iff_right htracked, effects]
      have hsame : ((want (below sub path)).map some).join = want (below sub path) := by
        have hlist := hjoin path htracked
        rwa [hwant, if_pos htracked] at hlist
      rw [hsame, eq_comm]
      exact (map_injective (some_injective Text)).eq_iff
    · rw [if_neg htracked, if_neg htracked]
      exact iff_of_true rfl fun h ↦ absurd h htracked
  constructor
  · intro hlisted
    exact ⟨fun path hpath ↦ (hmem path hpath).mp (hlisted path),
      fun path hpath ↦ (hnot path hpath).mp (hlisted path)⟩
  · rintro ⟨hin, hout⟩ path
    by_cases hpath : path ∈ step.edits tree
    · exact (hmem path hpath).mpr (hin path hpath)
    · exact (hnot path hpath).mpr (hout path hpath)

/-- A step that edits no file keeps the list of a subtree right. -/
theorem keepsBelow_of_no_edits (hsucceeds : Succeeds tree s step) (hchanges : step.Changes)
    (hnone : step.edits tree = []) : KeepsBelow tree sub s step := by
  refine ⟨fun path hpath ↦ absurd (hnone ▸ hpath) not_mem_nil, fun path _ htracked ↦ ?_⟩
  have hnot : below sub path ∉ step.edits tree := hnone ▸ not_mem_nil
  cases step with
  | replace from_ own => exact absurd hchanges id
  | sed fileRegex substitute =>
    rw [Step.effect, if_neg]
    intro hmatch
    exact hnot (mem_filter.mpr ⟨tree.found_files _ (tree.tracked_files _ htracked), hmatch⟩)
  | patch ops => exact effect_patch_of_not_mem tree hsucceeds.1 hnot _

/-- With a subtree the file list has at every point of a run exactly the tracked files below it,
without its name, with the contents that the modifications so far give them, exactly if all edits
keep below it: none edits a file, or the paths and contents coincide.

Assumes: the modifications are seds and patches that change files, and they succeed. -/
theorem subtree_list_iff (tree : Checkout) (sub : Text) (steps : List Step)
    (hchanges : ∀ step ∈ steps, step.Changes)
    (hsucceed : Meets (Work.step tree) (Succeeds tree) (makeFilelist tree (some sub)) steps) :
    (∀ done, done <+: steps →
        SubtreeListed tree sub (done.foldl (Work.step tree) (makeFilelist tree (some sub)))
          (composed tree done)) ↔
      Meets (Work.step tree) (KeepsBelow tree sub) (makeFilelist tree (some sub)) steps := by
  obtain ⟨htidy, hstart⟩ := makeFilelist_spec tree (some sub)
  have hupstream : SubtreeListed tree sub (makeFilelist tree (some sub)) tree.upstream := by
    intro path
    by_cases htracked : below sub path ∈ tree.tracked
    · obtain ⟨text, htext⟩ := ne_none_iff_exists'.mp (tree.tracked_files _ htracked)
      rw [if_pos htracked, Checkout.upstream, if_pos htracked,
        (hstart path).1 _ htracked ((stripSubtree_iff sub _ path).mpr rfl), htext, map_some]
    · rw [if_neg htracked]
      refine (hstart path).2 fun other hother hstrip ↦ htracked ?_
      rwa [below, ← (stripSubtree_iff sub other path).mp hstrip]
  have hkeep : ∀ s step, Work.Tidy s → Succeeds tree s step ∧ step.Changes →
      (s.step tree step).Tidy :=
    fun _ _ htidy hasserts ↦ step_tidy htidy hasserts.1
  have hiff : ∀ s want step, Work.Tidy s → SubtreeListed tree sub s want →
      Succeeds tree s step ∧ step.Changes →
      (SubtreeListed tree sub (s.step tree step) (effects want step) ↔
        KeepsBelow tree sub s step) :=
    fun _ _ _ htidy hwant hasserts ↦ change_listed_iff htidy hasserts.1 hasserts.2 hwant
  rw [← Meets.iff_related hkeep hiff htidy hupstream (hsucceed.and_forall hchanges)]
  have hcomposed : ∀ done : List Step, done.foldl effects tree.upstream = composed tree done :=
    fun done ↦ funext fun path ↦ foldl_effect done tree.upstream path
  simp [hcomposed]

end

theorem subtree_list_no_match :
    SubtreeListed (oneFile ['d', '/', 'f'] ['a']) ['d']
      ([Step.sed (fun _ ↦ false) id].foldl (Work.step (oneFile ['d', '/', 'f'] ['a']))
        (makeFilelist (oneFile ['d', '/', 'f'] ['a']) (some ['d'])))
      (composed (oneFile ['d', '/', 'f'] ['a']) [.sed (fun _ ↦ false) id]) := by
  have hchanges : ∀ step ∈ [Step.sed (fun _ ↦ false) id], step.Changes := fun step hstep ↦
    mem_singleton.mp hstep ▸ trivial
  have hsucceed : Meets (Work.step (oneFile ['d', '/', 'f'] ['a']))
      (Succeeds (oneFile ['d', '/', 'f'] ['a']))
      (makeFilelist (oneFile ['d', '/', 'f'] ['a']) (some ['d'])) [.sed (fun _ ↦ false) id] :=
    ⟨isSome_iff_ne_none.mp rfl, trivial⟩
  exact (subtree_list_iff _ _ _ hchanges hsucceed).mpr
    ⟨keepsBelow_of_no_edits hsucceed.1 trivial rfl, trivial⟩ _ (prefix_refl _)

/-- A file below the subtree `d` is edited: it stays listed as it was, and is listed once more under
its path from the top. -/
theorem subtree_lists_edit_twice :
    Meets (Work.step (oneFile ['d', '/', 'f'] ['a'])) (Succeeds (oneFile ['d', '/', 'f'] ['a']))
        (makeFilelist (oneFile ['d', '/', 'f'] ['a']) (some ['d'])) [sedOne] ∧
      ([sedOne].foldl (Work.step (oneFile ['d', '/', 'f'] ['a']))
        (makeFilelist (oneFile ['d', '/', 'f'] ['a']) (some ['d']))).listed
          (oneFile ['d', '/', 'f'] ['a']) ['f'] = some (some ['a']) ∧
      ([sedOne].foldl (Work.step (oneFile ['d', '/', 'f'] ['a']))
        (makeFilelist (oneFile ['d', '/', 'f'] ['a']) (some ['d']))).listed
          (oneFile ['d', '/', 'f'] ['a']) ['d', '/', 'f'] = some (some ['a', '!']) ∧
      composed (oneFile ['d', '/', 'f'] ['a']) [sedOne] ['d', '/', 'f'] = some ['a', '!'] :=
  ⟨⟨isSome_iff_ne_none.mp rfl, trivial⟩, rfl, rfl, rfl⟩

end LumoSQL.NotFork
