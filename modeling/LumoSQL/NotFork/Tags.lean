import LumoSQL.NotFork.Selected

/-!
# Tags and versions

The option `version` of a Git repository turns a version into a tag: it is one word, which is put
before the version, or two, of which the second is put behind it. `all_versions` takes the word off
the tags with a pattern made of it, `set_version` joins the words and the version, and `version`
takes the word off the tags of what is checked out. The constructor assigns none of two words, so
they have no effect (`pair_lists_tag`). `tags_correspond_iff` says that the three functions agree
exactly if the option is not a pair and its word matches nothing but itself.
-/

namespace LumoSQL.NotFork

open Foundation List

/-- The option `version`: the words before and behind the version, empty if they are not given. -/
structure TagOption where
  pre : Text
  suf : Text
  preWord : ∀ c ∈ pre, isSpace c = false
  sufWord : ∀ c ∈ suf, isSpace c = false
  paired : suf ≠ [] → pre ≠ []

namespace TagOption

/-- The value of the key `version`. -/
def text (option : TagOption) : Option Text :=
  if option.suf ≠ [] then some (option.pre ++ ' ' :: option.suf)
  else if option.pre ≠ [] then some option.pre
  else none

def tag (option : TagOption) (v : Text) : Text := option.pre ++ v ++ option.suf

/-- The constructor keeps the word of an option that is no pair. -/
theorem versionPrefix_eq (option : TagOption) {kw : Hash} (hkw : kw versionWord = option.text) :
    versionPrefix kw = if option.suf ≠ [] then [] else option.pre := by
  have hpos : ∀ c ∈ option.pre, (!isSpace c) = true := fun c hc ↦ by
    rw [option.preWord c hc, Bool.not_false]
  unfold versionPrefix
  rw [hkw, text]
  split_ifs with hsuf hpre
  · simp only
    rw [takeWhile_append_of_pos hpos, dropWhile_append_of_pos hpos]
    exact if_pos ⟨append_ne_nil_of_left_ne_nil (option.paired hsuf) _, by simp [isSpace]⟩
  · simp only
    rw [dropWhile_eq_nil_iff.mpr hpos]
    exact if_neg fun hpair ↦ hpair.2 rfl
  · exact (not_not.mp hpre).symm

end TagOption

/-- The name stands for the tag in `git show-ref --dereference`, where `^{}` marks the commit of an
annotated tag. -/
def NamesTag (name tag : Text) : Prop := name = tag ∨ name = tag ++ "^\x7b\x7d".toList

variable {O : Type*} [DecidableEq O]

/-- The versions listed are those that have a tag, a version is checked out by its tag, and it is
found again if its tag is the only one of the option at the commit. A tag has no `^`. -/
structure Corresponds (repo : Repository O) (kw : Hash) (option : TagOption) (v : Text) : Prop where
  listed : v ∈ repo.allVersions kw ↔ option.tag v ∈ repo.tags
  set : versionPrefix kw ++ v = option.tag v
  found : '^' ∉ option.tag v → ∀ oid,
    (∃ ref ∈ repo.refs, ref.1 = oid ∧ NamesTag ref.2 (option.tag v)) →
    (∀ ref ∈ repo.refs, ref.1 = oid → option.pre <+: ref.2 ∧ option.suf <:+ ref.2 →
      NamesTag ref.2 (option.tag v)) →
    repo.version kw oid = some v

/-- Assumes: some tag at the commit matches, and what is left of those that do is the version. -/
theorem version_eq {repo : Repository O} {kw : Hash} {oid : O} {v : Text}
    (hsome : ∃ ref ∈ repo.refs, ref.1 = oid ∧ repo.strip (versionPrefix kw) ref.2 ≠ none)
    (hall : ∀ ref ∈ repo.refs, ref.1 = oid → ∀ name,
      repo.strip (versionPrefix kw) ref.2 = some name → name.takeWhile (· ≠ '^') = v) :
    repo.version kw oid = some v := by
  -- the loop keeps a version that has been found, since every later match finds it again
  suffices hloop : ∀ refs version, (version = some v ∨ ∃ ref ∈ refs, ref.1 = oid ∧
      repo.strip (versionPrefix kw) ref.2 ≠ none) → refs ⊆ repo.refs → refs.foldl _ version = some v
    from hloop repo.refs none (.inr hsome) (Subset.refl _)
  intro refs
  induction refs with
  | nil => simp
  | cons ref refs ih =>
    intro version hfound hsub
    obtain ⟨href, hrest⟩ := cons_subset.mp hsub
    refine ih _ ?_ hrest
    cases hstrip : repo.strip (versionPrefix kw) ref.2 with
    | none => simpa [hstrip] using hfound
    | some name =>
      by_cases hoid : ref.1 = oid
      · exact .inl (by simp only [hstrip, if_pos hoid, hall ref href hoid name hstrip])
      · simpa [hstrip, hoid] using hfound

/-- Assumes: a version without `^`. -/
theorem NamesTag.takeWhile_eq {pre name v : Text} (hcaret : '^' ∉ v)
    (hname : NamesTag (pre ++ name) (pre ++ v)) : name.takeWhile (· ≠ '^') = v := by
  have hpos : ∀ c ∈ v, decide (c ≠ '^') = true := fun c hc ↦
    decide_eq_true fun heq ↦ hcaret (heq ▸ hc)
  rcases hname with hname | hname
  · rw [append_cancel_left hname]
    exact takeWhile_eq_self_iff.mpr hpos
  · rw [append_assoc] at hname
    rw [append_cancel_left hname, takeWhile_append_of_pos hpos]
    exact append_nil v

/-- The three functions agree on tags and versions exactly if the option is not a pair and its word
matches nothing but itself. -/
theorem tags_correspond_iff [Inhabited O] (strip : Text → Text → Option Text) (option : TagOption) :
    (∀ (repo : Repository O) (kw : Hash), repo.strip = strip → kw versionWord = option.text →
      ∀ v, Corresponds repo kw option v) ↔
    option.suf = [] ∧ ∀ name v, strip option.pre name = some v ↔ name = option.pre ++ v := by
  constructor
  · intro hcorresponds
    have hrepo := fun tags ↦ hcorresponds ⟨default, fun _ ↦ none, tags, [], strip⟩
      (fun _ ↦ option.text) rfl rfl
    have hword : versionPrefix (fun _ ↦ option.text) = _ := option.versionPrefix_eq rfl
    have hsuf : option.suf = [] := by
      by_contra hsuf
      have hset := (hrepo [] []).set
      rw [hword, if_pos hsuf] at hset
      exact hsuf (append_eq_nil_iff.mp hset.symm).2
    refine ⟨hsuf, fun name v ↦ ?_⟩
    have hlisted := (hrepo [name] v).listed
    rw [Repository.allVersions, hword, if_neg (not_not.mpr hsuf), TagOption.tag, hsuf] at hlisted
    simpa [eq_comm] using hlisted
  · rintro ⟨hsuf, hliteral⟩ repo kw rfl hkw v
    have hword := option.versionPrefix_eq hkw
    have htag : option.tag v = option.pre ++ v := by rw [TagOption.tag, hsuf, append_nil]
    rw [if_neg (not_not.mpr hsuf)] at hword
    constructor
    · simp [Repository.allVersions, hword, htag, hliteral]
    · rw [hword, htag]
    · rw [htag]
      intro hcaret oid hsome honly
      refine version_eq ?_ ?_
      · obtain ⟨ref, hmem, hoid, hname⟩ := hsome
        refine ⟨ref, hmem, hoid, Option.ne_none_iff_exists'.mpr ?_⟩
        simp only [hword, hliteral]
        exact hname.elim (fun hname ↦ ⟨v, hname⟩) fun hname ↦ ⟨_, hname.trans (append_assoc _ _ _)⟩
      · intro ref hmem hoid name hname
        rw [hword, hliteral] at hname
        have hnames := honly ref hmem hoid ⟨hname ▸ prefix_append _ _, hsuf ▸ nil_suffix⟩
        exact NamesTag.takeWhile_eq (fun hmem ↦ hcaret (mem_append_right _ hmem)) (hname ▸ hnames)

/-- With the option `v -x` the tag `v1-x` is listed as a version of this name. -/
theorem pair_lists_tag :
    let option : TagOption := ⟨['v'], ['-', 'x'], by decide, by decide, by decide⟩
    let strip : Text → Text → Option Text := fun pre name ↦
      if pre.isPrefixOf name then some (name.drop pre.length) else none
    let repo : Repository ℕ := ⟨0, fun _ ↦ none, [option.tag ['1']], [], strip⟩
    repo.allVersions (fun _ ↦ option.text) = [['v', '1', '-', 'x']] ∧
      ¬ Corresponds repo (fun _ ↦ option.text) option ['1'] := by
  refine ⟨by decide, fun hcorresponds ↦ ?_⟩
  exact absurd hcorresponds.set (by decide)

end LumoSQL.NotFork
