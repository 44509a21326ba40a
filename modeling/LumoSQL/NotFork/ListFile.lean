import LumoSQL.NotFork.Install

/-!
# The file of a file list

`_write_filelist` writes a record for each path, with the type, the size and the path, and one for
its hash or target; each ends with a NUL. `_load_filelist` reads them back, or dies if one is not of
that form.

`loadFilelist_writeFilelist` says that what is read is what was written, if no path and no target
has a NUL in it, and `loadFilelist_writeRecorded` the same of any list of paths.
-/

namespace LumoSQL.NotFork

open Foundation List Option AList

/-- The end of a record, which is `$/` while a list is read. -/
def nul : Char := '\x00'

def FileType.letter : FileType → Char
  | .f => 'f'
  | .l => 'l'

/-- What `_write_filelist` prints for one path. -/
def printRecord (path : Text) (recorded : Recorded) : Text :=
  recorded.type.letter :: ' ' :: (Nat.toDigits 10 recorded.size ++ ' ' :: (path ++ nul ::
    (recorded.data ++ [nul])))

def writeFilelist (sha : Text → Text) (list : List (Text × Entry)) : Text :=
  list.flatMap fun entry ↦ printRecord entry.1 (entry.2.recorded sha)

/-- `_write_filelist` of a list as it is recorded, with its `sort keys %$list`. -/
def writeRecorded (list : OldList) : Text :=
  (list.keys.mergeSort fun fp fp' ↦ decide (fp ≤ fp')).flatMap fun fp ↦
    (list.lookup fp).elim [] (printRecord fp)

/-- The records of a file, after `chomp`. -/
def records : Text → List Text
  | [] => []
  | c :: rest =>
    if c = nul then [] :: records rest
    else
      match records rest with
      | [] => [[c]]
      | first :: more => (c :: first) :: more

/-- `[fl]`. -/
def FileType.ofLetter (c : Char) : Option FileType :=
  if c = 'f' then some .f else if c = 'l' then some .l else none

/-- `s/^([fl])\s(\d+)\s//`: the type, the size and the path that is left. -/
def takeHead (line : Text) : Option (FileType × ℕ × Text) :=
  match line with
  | letter :: space :: rest =>
    match FileType.ofLetter letter, rest.takeWhile Char.isDigit, rest.dropWhile Char.isDigit with
    | some type, digit :: digits, space' :: path =>
      if isSpace space && isSpace space' then some (type, decimal (digit :: digits), path) else none
    | _, _, _ => none
  | _ => none

/-- The loop of `_load_filelist`. -/
def loadRecords (list : OldList) : List Text → Option OldList
  | [] => some list
  | [_] => none
  | fp :: data :: rest =>
    match takeHead fp with
    | none => none
    | some (type, size, path) => loadRecords (list.insert path ⟨type, size, data⟩) rest

/-- `_load_filelist`, or `none` if it dies. -/
def loadFilelist (file : Text) : Option OldList := loadRecords ∅ (records file)

def recordedList (sha : Text → Text) (list : List (Text × Entry)) : OldList :=
  list.foldl (fun old entry ↦ old.insert entry.1 (entry.2.recorded sha)) ∅

/-! ### Reading what was written -/

theorem records_append {first : Text} (hfirst : nul ∉ first) (rest : Text) :
    records (first ++ nul :: rest) = first :: records rest := by
  induction first with
  | nil => rw [nil_append, records, if_pos rfl]
  | cons c first ih =>
    rw [mem_cons, not_or] at hfirst
    rw [cons_append, records, if_neg (Ne.symm hfirst.1), ih hfirst.2]

variable {list : List (Text × Entry)} {path : Text} {sha : Text → Text} (type : FileType) (size : ℕ)

theorem ofLetter_letter : FileType.ofLetter type.letter = some type := by
  cases type with
  | f | l => rfl

theorem takeHead_print (path : Text) :
    takeHead (type.letter :: ' ' :: (Nat.toDigits 10 size ++ ' ' :: path)) =
      some (type, size, path) := by
  have hdigits : ∀ c ∈ Nat.toDigits 10 size, c.isDigit := fun c hc ↦
    Nat.isDigit_of_mem_toDigits (by decide) (by decide) hc
  have htake : (Nat.toDigits 10 size ++ ' ' :: path).takeWhile Char.isDigit =
      Nat.toDigits 10 size := by
    rw [takeWhile_append_of_pos hdigits, takeWhile_cons_of_neg (by decide), append_nil]
  have hdrop : (Nat.toDigits 10 size ++ ' ' :: path).dropWhile Char.isDigit = ' ' :: path := by
    rw [dropWhile_append_of_pos hdigits, dropWhile_cons_of_neg (by decide)]
  have hsize : decimal (Nat.toDigits 10 size) = size := Nat.ofDigitChars_ten_toDigits
  rw [takeHead, htake, hdrop, ofLetter_letter]
  cases hnumber : Nat.toDigits 10 size with
  | nil => exact absurd hnumber (ne_nil_of_length_pos Nat.length_toDigits_pos)
  | cons digit digits =>
    rw [hnumber] at hsize
    simp [hsize, isSpace, Bool.and_self]

theorem nul_not_mem_head (hpath : nul ∉ path) :
    nul ∉ type.letter :: ' ' :: (Nat.toDigits 10 size ++ ' ' :: path) := by
  have hdigits : nul ∉ Nat.toDigits 10 size := fun hmem ↦
    absurd (Nat.isDigit_of_mem_toDigits (by decide) (by decide) hmem) (by decide)
  have hletter : nul ≠ type.letter := by
    cases type with
    | f | l => decide
  have hspace : nul ≠ ' ' := by decide
  simp only [mem_cons, mem_append, not_or]
  exact ⟨hletter, hspace, hdigits, hspace, hpath⟩

/-- One round of the loop reads what was printed for one path. -/
theorem loadRecords_print (old : OldList) (recorded : Recorded) (hpath : nul ∉ path)
    (hdata : nul ∉ recorded.data) (rest : Text) :
    loadRecords old (records (printRecord path recorded ++ rest)) =
      loadRecords (old.insert path recorded) (records rest) := by
  have hprint : printRecord path recorded ++ rest =
      (recorded.type.letter :: ' ' :: (Nat.toDigits 10 recorded.size ++ ' ' :: path)) ++
        nul :: (recorded.data ++ nul :: rest) := by
    simp [printRecord]
  rw [hprint, records_append (nul_not_mem_head _ _ hpath), records_append hdata, loadRecords,
    takeHead_print]

/-- Assumes: no path of the list and nothing that is recorded has a NUL in it. What is read is what
was written. -/
theorem loadFilelist_writeFilelist
    (hnul : ∀ entry ∈ list, nul ∉ entry.1 ∧ nul ∉ (entry.2.recorded sha).data) :
    loadFilelist (writeFilelist sha list) = some (recordedList sha list) := by
  rw [loadFilelist, recordedList]
  generalize (∅ : OldList) = old
  induction list generalizing old with
  | nil => rfl
  | cons first rest ih =>
    obtain ⟨path, entry⟩ := first
    obtain ⟨hpath, hdata⟩ := hnul (path, entry) (.head _)
    have hfile : writeFilelist sha ((path, entry) :: rest) =
        printRecord path (entry.recorded sha) ++ writeFilelist sha rest := flatMap_cons
    rw [hfile, loadRecords_print old _ hpath hdata, foldl_cons]
    exact ih (fun entry' hentry' ↦ hnul entry' (mem_cons_of_mem _ hentry')) _

/-- The loop reads back the paths that were printed, over what it had before. -/
theorem loadRecords_paths {recordedAt : OldList} (old : OldList) {paths : List Text}
    (hpaths : ∀ path ∈ paths, nul ∉ path ∧
      ∃ recorded, recordedAt.lookup path = some recorded ∧ nul ∉ recorded.data) :
    ∃ read, loadRecords old (records (paths.flatMap fun fp ↦
        (recordedAt.lookup fp).elim [] (printRecord fp))) = some read ∧
      ∀ path, read.lookup path =
        if path ∈ paths then recordedAt.lookup path else old.lookup path := by
  induction paths generalizing old with
  | nil => exact ⟨old, rfl, fun path ↦ (if_neg not_mem_nil).symm⟩
  | cons fp paths ih =>
    obtain ⟨⟨hfp, recorded, hlookup, hdata⟩, hrest⟩ := forall_mem_cons.mp hpaths
    obtain ⟨read, hread, hall⟩ := ih (old.insert fp recorded) hrest
    refine ⟨read, ?_, fun path ↦ (hall path).trans ?_⟩
    · rwa [flatMap_cons, hlookup, elim_some, loadRecords_print old recorded hfp hdata]
    · by_cases hpath : path = fp
      · subst hpath
        rw [lookup_insert, ← hlookup, ite_self, if_pos (.head _)]
      · simp [lookup_insert_ne hpath, hpath]

/-- A list that was written is read back, path by path.
Assumes: no path of the list and nothing that is recorded has a NUL in it. -/
theorem loadFilelist_writeRecorded (filelist : OldList)
    (hnul : ∀ path recorded, filelist.lookup path = some recorded →
      nul ∉ path ∧ nul ∉ recorded.data) :
    ∃ read, loadFilelist (writeRecorded filelist) = some read ∧
      ∀ path, read.lookup path = filelist.lookup path := by
  have hsorted : ∀ path, path ∈ filelist.keys.mergeSort (fun fp fp' ↦ decide (fp ≤ fp')) ↔
      path ∈ filelist := fun path ↦ (mergeSort_perm _ _).mem_iff
  obtain ⟨read, hread, hall⟩ := loadRecords_paths ∅ (fun path hpath ↦ by
    obtain ⟨recorded, hlookup⟩ := isSome_iff_exists.mp (lookup_isSome.mpr ((hsorted path).mp hpath))
    have hfree := hnul path recorded hlookup
    exact ⟨hfree.1, recorded, hlookup, hfree.2⟩)
  refine ⟨read, hread, fun path ↦ (hall path).trans ?_⟩
  split_ifs with hpath
  · rfl
  · exact (lookup_eq_none.mpr (mt (hsorted path).mpr hpath)).symm

theorem loadFilelist_writeRecorded_newline : ∃ read, loadFilelist (writeRecorded
        ((∅ : OldList).insert [' ', '1', '\n'] ⟨.l, 12, ['3', ' ']⟩)) = some read ∧
      read.lookup [' ', '1', '\n'] = some ⟨.l, 12, ['3', ' ']⟩ := by
  obtain ⟨read, hread, hsame⟩ := loadFilelist_writeRecorded
    ((∅ : OldList).insert [' ', '1', '\n'] ⟨.l, 12, ['3', ' ']⟩) (by
      intro path recorded hlookup
      by_cases hpath : path = [' ', '1', '\n']
      · subst hpath
        rw [lookup_insert] at hlookup
        cases hlookup
        decide
      · rw [lookup_insert_ne hpath] at hlookup
        cases hlookup)
  exact ⟨read, hread, (hsame _).trans (lookup_insert _)⟩

/-- What is in the list that was written is an entry of it. -/
theorem of_lookup_recordedList {recorded : Recorded}
    (hlookup : (recordedList sha list).lookup path = some recorded) :
    ∃ entry, (path, entry) ∈ list ∧ entry.recorded sha = recorded := by
  induction list using List.reverseRecOn with
  | nil => cases hlookup
  | append_singleton list last ih =>
    rw [recordedList, foldl_append, foldl_cons, foldl_nil] at hlookup
    by_cases heq : path = last.1
    · subst heq
      rw [lookup_insert] at hlookup
      exact ⟨last.2, mem_append_right _ (.head _), some_inj.mp hlookup⟩
    · rw [lookup_insert_ne heq] at hlookup
      obtain ⟨entry, hentry, hrecorded⟩ := ih hlookup
      exact ⟨entry, mem_append_left _ hentry, hrecorded⟩

end LumoSQL.NotFork
