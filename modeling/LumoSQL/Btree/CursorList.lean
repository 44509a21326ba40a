import LumoSQL.Btree.Cursor
import LumoSQL.Foundation.GuardedRun
import LumoSQL.Foundation.LinkedList

/-!
# The lists of open cursors

Every Btree keeps its open cursors in a list that is linked through the cursors themselves, `pNext`.
A cursor enters the list in `sqlite3BtreeCursor` and leaves it in `sqlite3BtreeCloseCursor`, whose
loop looks for it without a test for the end of the list. Three parties close a cursor: its owner,
`sqlite3BtreeCommitPhaseOne`, which closes and zeroes every cursor of the handle, and
`sqlite3BtreeClose`, which closes them and leaves them as they are.

`CursorHeap` is the memory these functions share, and `Ledger` says what has become of every cursor:
`Ledger.Allows` are the calls that keep to the interface. In every run of such calls the search
ends, and the lists have exactly the cursors that are open (`cursor_lists_intact`). The list of a
`Handle` is the one that these links spell (`Shows`), and stays so when cursors are opened and
closed and in a commit (`HandleCall.list_linked`).
-/

namespace LumoSQL

open Foundation List Option Function

/-! ### The functions -/

/-- The heads `pCursor` of the Btrees and the fields `pNext` and `pBtree` of the cursors, which are
numbered by their addresses. -/
structure CursorHeap where
  links : Links ℕ ℕ
  pBtree : ℕ → Option ℕ

namespace CursorHeap

def zeroed : CursorHeap := ⟨⟨fun _ ↦ none, fun _ ↦ none⟩, fun _ ↦ none⟩

/-- `sqlite3BtreeCursor`, `rc` being the code of `BtreeTableHandle`. -/
def sqlite3BtreeCursor (heap : CursorHeap) (p pCur : ℕ) (rc : Rc) : CursorHeap :=
  if rc = .ok then ⟨heap.links.push p pCur, Function.update heap.pBtree pCur (some p)⟩
  else heap

/-- `sqlite3BtreeCursorZero`, which leaves `pNext`. -/
def sqlite3BtreeCursorZero (heap : CursorHeap) (pCur : ℕ) : CursorHeap :=
  { heap with pBtree := Function.update heap.pBtree pCur none }

/-- `sqlite3BtreeCloseCursor`, with `fuel` for the loop; `none` when the loop does not find the
cursor. -/
def sqlite3BtreeCloseCursor (fuel : ℕ) (heap : CursorHeap) (pCur : ℕ) : Option CursorHeap :=
  match heap.pBtree pCur with
  | none => some heap
  | some p => (heap.links.unlink fuel p pCur).map fun links ↦ { heap with links := links }

/-- The loops of `sqlite3BtreeCommitPhaseOne` and `sqlite3BtreeClose` over the cursors of a handle:
the link of a cursor is read before what is done with it. -/
def forCursors (body : CursorHeap → ℕ → Option CursorHeap) :
    ℕ → CursorHeap → Option ℕ → Option CursorHeap
  | _, heap, none => some heap
  | 0, _, some _ => none
  | fuel + 1, heap, some pCur =>
    (body heap pCur).bind fun heap' ↦ forCursors body fuel heap' (heap.links.next pCur)

def sqlite3BtreeCommitPhaseOne (fuel : ℕ) (heap : CursorHeap) (p : ℕ) : Option CursorHeap :=
  forCursors (fun heap pCur ↦ (heap.sqlite3BtreeCloseCursor fuel pCur).map
    fun closed ↦ closed.sqlite3BtreeCursorZero pCur) fuel heap (heap.links.head p)

def sqlite3BtreeClose (fuel : ℕ) (heap : CursorHeap) (p : ℕ) : Option CursorHeap :=
  forCursors (sqlite3BtreeCloseCursor fuel) fuel heap (heap.links.head p)

end CursorHeap

/-- The calls that concern the lists of cursors. `sqlite3BtreeOpen` zeroes the Btree it allocates,
and `sqlite3BtreeCursorZero` is called by the owner of a cursor, on the memory it is to stand in. -/
inductive ListCall
  | btreeOpen (p : ℕ)
  | cursor (p pCur : ℕ) (rc : Rc)
  | cursorZero (pCur : ℕ)
  | closeCursor (pCur : ℕ)
  | commitPhaseOne (p : ℕ)
  | rollback (p : ℕ)
  | btreeClose (p : ℕ)

/-- A call, with `fuel` for its loops. -/
def ListCall.run (fuel : ℕ) (heap : CursorHeap) : ListCall → Option CursorHeap
  | .btreeOpen p => some { heap with links := heap.links.write (.head p) none }
  | .cursor p pCur rc => some (heap.sqlite3BtreeCursor p pCur rc)
  | .cursorZero pCur => some (heap.sqlite3BtreeCursorZero pCur)
  | .closeCursor pCur => heap.sqlite3BtreeCloseCursor fuel pCur
  | .commitPhaseOne p => heap.sqlite3BtreeCommitPhaseOne fuel p
  | .rollback _ => some heap
  | .btreeClose p => heap.sqlite3BtreeClose fuel p

/-! ### What has become of the cursors -/

/-- What was last done with a cursor: zeroed, opened on a Btree, or closed and not zeroed since. -/
inductive CursorLife
  | zeroed
  | openOn (p : ℕ)
  | closed
  deriving DecidableEq

def CursorLife.isOpen : CursorLife → Bool
  | .openOn _ => true
  | _ => false

structure Ledger where
  life : ℕ → CursorLife
  btrees : List ℕ

namespace Ledger

def start : Ledger := ⟨fun _ ↦ .zeroed, []⟩

def become (ledger : Ledger) (pCur : ℕ) (life : CursorLife) : Ledger :=
  { ledger with life := Function.update ledger.life pCur life }

def ends (ledger : Ledger) (p : ℕ) (life : CursorLife) : Ledger :=
  { ledger with life := fun pCur ↦ if ledger.life pCur = .openOn p then life else ledger.life pCur }

/-- What a call makes of the cursors. -/
def step (ledger : Ledger) : ListCall → Ledger
  | .btreeOpen p => { ledger with btrees := p :: ledger.btrees }
  | .cursor p pCur rc => if rc = .ok then ledger.become pCur (.openOn p) else ledger
  | .cursorZero pCur => ledger.become pCur .zeroed
  | .closeCursor pCur =>
    match ledger.life pCur with
    | .openOn _ => ledger.become pCur .closed
    | _ => ledger
  | .commitPhaseOne p => ledger.ends p .zeroed
  | .rollback _ => ledger
  | .btreeClose p => { ledger.ends p .closed with btrees := ledger.btrees.filter (· ≠ p) }

/-- The calls that keep to the interface: they are on Btrees that are open, a cursor is opened in
zeroed memory, memory is zeroed when no open cursor stands in it, and a cursor that has been closed
since it was opened is not closed again before it is zeroed. -/
def Allows (ledger : Ledger) : ListCall → Prop
  | .btreeOpen p => p ∉ ledger.btrees
  | .cursor p pCur _ => p ∈ ledger.btrees ∧ ledger.life pCur = .zeroed
  | .cursorZero pCur => ¬ (ledger.life pCur).isOpen
  | .closeCursor pCur => ledger.life pCur ≠ .closed
  | .commitPhaseOne p => p ∈ ledger.btrees
  | .rollback p => p ∈ ledger.btrees
  | .btreeClose p => p ∈ ledger.btrees

instance (ledger : Ledger) : (call : ListCall) → Decidable (ledger.Allows call)
  | .btreeOpen p => inferInstanceAs (Decidable (p ∉ ledger.btrees))
  | .cursor p pCur _ =>
    inferInstanceAs (Decidable (p ∈ ledger.btrees ∧ ledger.life pCur = .zeroed))
  | .cursorZero pCur => inferInstanceAs (Decidable (¬ (ledger.life pCur).isOpen))
  | .closeCursor pCur => inferInstanceAs (Decidable (ledger.life pCur ≠ .closed))
  | .commitPhaseOne p | .rollback p | .btreeClose p =>
    inferInstanceAs (Decidable (p ∈ ledger.btrees))

end Ledger

/-- The list of every Btree is without repetitions and has exactly the cursors that are open on it,
and these name it as their Btree. -/
def ListsIntact (heap : CursorHeap) (ledger : Ledger) : Prop :=
  ∀ p, ∃ cursors, heap.links.Spells (heap.links.head p) cursors ∧ cursors.Nodup ∧
    (∀ pCur, pCur ∈ cursors ↔ ledger.life pCur = .openOn p) ∧
    ∀ pCur ∈ cursors, heap.pBtree pCur = some p

/-! ### One call -/

namespace Ledger

theorem become_self (ledger : Ledger) (pCur : ℕ) (life : CursorLife) :
    (ledger.become pCur life).life pCur = life := update_self ..

theorem become_of_ne (ledger : Ledger) {pCur found : ℕ} (life : CursorLife)
    (hfound : found ≠ pCur) :
    (ledger.become pCur life).life found = ledger.life found := update_of_ne hfound _ _

/-- Assumes: an open cursor. What becomes of all the cursors of its Btree may become of it first. -/
theorem become_ends {ledger : Ledger} {p pCur : ℕ} {life : CursorLife}
    (hopen : ledger.life pCur = .openOn p) (hnot : life ≠ .openOn p) :
    (ledger.become pCur life).ends p life = ledger.ends p life := by
  have hlife : ∀ found, ((ledger.become pCur life).ends p life).life found =
      (ledger.ends p life).life found := by
    intro found
    by_cases hfound : found = pCur
    · subst hfound
      simp only [ends, become_self, if_neg hnot, if_pos hopen]
    · simp only [ends, become_of_ne ledger life hfound]
  exact congrArg (fun lives ↦ (⟨lives, ledger.btrees⟩ : Ledger)) (funext hlife)

end Ledger

/-- The field `pBtree` of a cursor is as its life has it: the Btree of an open cursor is open, and
that of a closed one may be gone. -/
def LifeFits (btrees : List ℕ) (pBtree : Option ℕ) : CursorLife → Prop
  | .zeroed => pBtree = none
  | .openOn p => pBtree = some p ∧ p ∈ btrees
  | .closed => True

/-- Assumes: fields that fit the lives of the cursors, and a field that fits the new life of one. -/
theorem fits_become {ledger : Ledger} {pBtree : ℕ → Option ℕ}
    (hfits : ∀ pCur, LifeFits ledger.btrees (pBtree pCur) (ledger.life pCur)) {pCur : ℕ}
    {life : CursorLife} {field : Option ℕ} (hnew : LifeFits ledger.btrees field life) (found : ℕ) :
    LifeFits ledger.btrees (Function.update pBtree pCur field found)
      ((ledger.become pCur life).life found) := by
  by_cases hfound : found = pCur
  · subst hfound
    rwa [Ledger.become_self, update_self]
  · rw [Ledger.become_of_ne _ _ hfound, update_of_ne hfound]
    exact hfits found

/-- The lists of the heap are `cursors`, as the ledger has them. -/
structure Listed (heap : CursorHeap) (ledger : Ledger) (cursors : ℕ → List ℕ) : Prop where
  spells : ∀ p, heap.links.Spells (heap.links.head p) (cursors p)
  nodup : ∀ p, (cursors p).Nodup
  mem_iff : ∀ p pCur, pCur ∈ cursors p ↔ ledger.life pCur = .openOn p
  fits : ∀ pCur, LifeFits ledger.btrees (heap.pBtree pCur) (ledger.life pCur)

namespace Listed

variable {heap : CursorHeap} {ledger : Ledger} {cursors : ℕ → List ℕ} {p pCur fuel : ℕ}

section

variable (hlisted : Listed heap ledger cursors)

include hlisted

theorem opened (hopen : ledger.life pCur = .openOn p) :
    heap.pBtree pCur = some p ∧ p ∈ ledger.btrees := by
  have hfits := hlisted.fits pCur
  rwa [hopen] at hfits

theorem intact : ListsIntact heap ledger :=
  fun p ↦ ⟨cursors p, hlisted.spells p, hlisted.nodup p, hlisted.mem_iff p,
    fun pCur hmem ↦ (hlisted.opened ((hlisted.mem_iff p pCur).mp hmem)).1⟩

theorem apart {other : ℕ} (hother : other ≠ p) (hmem : pCur ∈ cursors p) :
    pCur ∉ cursors other := by
  intro hmem'
  rw [hlisted.mem_iff] at hmem hmem'
  rw [hmem] at hmem'
  injection hmem' with heq
  exact hother heq.symm

/-- Assumes: a cursor that is in no list, and a life for it in which it is not open. The other
cursors and the lists are as they were. -/
theorem become (hnew : ∀ other, pCur ∉ cursors other) (life : CursorLife) (pBtree : Option ℕ)
    (hnot : ∀ other, life ≠ .openOn other) (hfits : LifeFits ledger.btrees pBtree life) :
    Listed ⟨heap.links, Function.update heap.pBtree pCur pBtree⟩ (ledger.become pCur life)
      cursors where
  spells := hlisted.spells
  nodup := hlisted.nodup
  mem_iff other found := by
    by_cases hfound : found = pCur
    · subst hfound
      rw [Ledger.become_self]
      exact iff_of_false (hnew other) (hnot other)
    · rw [Ledger.become_of_ne _ _ hfound]
      exact hlisted.mem_iff other found
  fits := fits_become hlisted.fits hfits

/-- A list changes by one cursor, which gets another life. -/
theorem update {heap' : CursorHeap} {life : CursorLife} {changed : List ℕ}
    (hspells : heap'.links.Spells (heap'.links.head p) changed)
    (hothers : ∀ other ≠ p, heap'.links.Spells (heap'.links.head other) (cursors other))
    (hnodup : changed.Nodup) (hself : pCur ∈ changed ↔ life = .openOn p)
    (hrest : ∀ found ≠ pCur, (found ∈ changed ↔ found ∈ cursors p))
    (helse : ∀ other ≠ p, (pCur ∈ cursors other ↔ life = .openOn other))
    (hfits : ∀ found, LifeFits ledger.btrees (heap'.pBtree found)
      ((ledger.become pCur life).life found)) :
    Listed heap' (ledger.become pCur life) (Function.update cursors p changed) where
  spells := (forall_update_iff cursors fun other list ↦
    heap'.links.Spells (heap'.links.head other) list).mpr ⟨hspells, hothers⟩
  nodup := (forall_update_iff cursors fun _ list ↦ list.Nodup).mpr
    ⟨hnodup, fun other _ ↦ hlisted.nodup other⟩
  mem_iff := by
    refine (forall_update_iff cursors fun other list ↦
      ∀ found, found ∈ list ↔ (ledger.become pCur life).life found = .openOn other).mpr
      ⟨fun found ↦ ?_, fun other hother found ↦ ?_⟩
    all_goals by_cases hfound : found = pCur
    · rwa [hfound, Ledger.become_self]
    · rw [Ledger.become_of_ne _ _ hfound, ← hlisted.mem_iff p found]
      exact hrest found hfound
    · rw [hfound, Ledger.become_self]
      exact helse other hother
    · rw [Ledger.become_of_ne _ _ hfound]
      exact hlisted.mem_iff other found
  fits := hfits

/-- Assumes: a zeroed cursor and an open Btree. The cursor is opened, first in the list. -/
theorem cursor (hp : p ∈ ledger.btrees) (hzeroed : ledger.life pCur = .zeroed) :
    Listed (heap.sqlite3BtreeCursor p pCur .ok) (ledger.become pCur (.openOn p))
      (Function.update cursors p (pCur :: cursors p)) := by
  have hnew : ∀ other, pCur ∉ cursors other := by
    intro other hmem
    rw [hlisted.mem_iff, hzeroed] at hmem
    cases hmem
  have hheap : heap.sqlite3BtreeCursor p pCur .ok =
      ⟨heap.links.push p pCur, Function.update heap.pBtree pCur (some p)⟩ := if_pos rfl
  rw [hheap]
  refine hlisted.update (Links.spells_push (hlisted.spells p) (hnew p)) (fun other hother ↦
    Links.spells_push_of_ne (hlisted.spells other) hother (hnew other))
    (nodup_cons.mpr ⟨hnew p, hlisted.nodup p⟩) (iff_of_true (.head _) rfl)
    (fun found hfound ↦ mem_cons.trans (or_iff_right hfound)) (fun other hother ↦
      iff_of_false (hnew other) fun heq ↦ hother (CursorLife.openOn.inj heq).symm) ?_
  exact fits_become hlisted.fits ⟨rfl, hp⟩

/-- Assumes: an open cursor, and fuel for every cursor of its list. The search finds it, and it is
no longer in the list. -/
theorem closeCursor (hopen : ledger.life pCur = .openOn p) (hfuel : (cursors p).length ≤ fuel) :
    ∃ heap', heap.sqlite3BtreeCloseCursor fuel pCur = some heap' ∧
      Listed heap' (ledger.become pCur .closed)
        (Function.update cursors p ((cursors p).erase pCur)) := by
  have hmem := (hlisted.mem_iff p pCur).mpr hopen
  obtain ⟨links, hunlink, hspells, hothers⟩ :=
    Links.spells_unlink (hlisted.spells p) (hlisted.nodup p) hmem hfuel
  refine ⟨⟨links, heap.pBtree⟩, ?_, ?_⟩
  · rw [CursorHeap.sqlite3BtreeCloseCursor, (hlisted.opened hopen).1]
    simp [hunlink]
  have hfits := @fits_become _ _ hlisted.fits pCur .closed (heap.pBtree pCur) trivial
  rw [update_eq_self] at hfits
  exact hlisted.update hspells
    (fun other hother ↦ hothers other _ hother (fun found hfound ↦ hlisted.apart hother hfound)
      (hlisted.spells other))
    ((hlisted.nodup p).erase pCur)
    (iff_of_false (hlisted.nodup p).not_mem_erase fun heq ↦ CursorLife.noConfusion heq)
    (fun found hfound ↦ mem_erase_of_ne hfound)
    (fun other hother ↦ iff_of_false (hlisted.apart hother hmem) fun heq ↦
      CursorLife.noConfusion heq) hfits

/-- Assumes: an open cursor, and fuel for every cursor of its list. It is closed and zeroed. -/
theorem closeCursor_zero (hopen : ledger.life pCur = .openOn p) (hfuel : (cursors p).length ≤ fuel)
    : ∃ heap', (heap.sqlite3BtreeCloseCursor fuel pCur).map
        (fun closed ↦ closed.sqlite3BtreeCursorZero pCur) = some heap' ∧
      Listed heap' (ledger.become pCur .zeroed)
        (Function.update cursors p ((cursors p).erase pCur)) := by
  obtain ⟨closed, hclosed, hlisted'⟩ := hlisted.closeCursor hopen hfuel
  refine ⟨closed.sqlite3BtreeCursorZero pCur, ?_, ?_⟩
  · rw [hclosed, map_some]
  · have hnew : ∀ other, pCur ∉ Function.update cursors p ((cursors p).erase pCur) other := by
      intro other hmem
      rw [hlisted'.mem_iff, Ledger.become_self] at hmem
      cases hmem
    have hzeroed := hlisted'.become hnew .zeroed none (fun other heq ↦
      CursorLife.noConfusion heq) rfl
    have htwice : (ledger.become pCur .closed).become pCur .zeroed =
      ledger.become pCur .zeroed := by
      simp [Ledger.become, update_idem]
    rwa [htwice] at hzeroed

end

/-- Assumes: a body that takes an open cursor out of its list, and fuel for every cursor of the
list. The loop ends, with all the cursors of the Btree taken out. -/
theorem forCursors (life : CursorLife) {body : CursorHeap → ℕ → Option CursorHeap} {bound : ℕ}
    (hnot : life ≠ .openOn p) (hbody : ∀ {heap ledger cursors pCur}, Listed heap ledger cursors →
      ledger.life pCur = .openOn p → (cursors p).length ≤ bound →
      ∃ heap', body heap pCur = some heap' ∧ Listed heap' (ledger.become pCur life)
        (Function.update cursors p ((cursors p).erase pCur)))
    (hlisted : Listed heap ledger cursors) (hbound : (cursors p).length ≤ bound)
    (hfuel : (cursors p).length ≤ fuel) :
    ∃ heap', CursorHeap.forCursors body fuel heap (heap.links.head p) = some heap' ∧
      Listed heap' (ledger.ends p life) (Function.update cursors p []) := by
  -- the induction is on the list; the loop is always at its head
  induction hlist : cursors p generalizing heap ledger cursors fuel with
  | nil =>
    have hhead : heap.links.head p = none := by
      have hspells := hlisted.spells p
      rwa [hlist] at hspells
    refine ⟨heap, ?_, ?_⟩
    · rw [hhead]
      cases fuel with
      | zero | succ fuel => rfl
    · have hends : ledger.ends p life = ledger := by
        have hlife : ∀ pCur, ledger.life pCur ≠ .openOn p := by
          intro pCur hopen
          have hmem := (hlisted.mem_iff p pCur).mpr hopen
          rw [hlist] at hmem
          exact not_mem_nil hmem
        simp [Ledger.ends, hlife]
      rwa [hends, ← hlist, update_eq_self]
  | cons first rest ih =>
    have hspells := hlisted.spells p
    rw [hlist] at hspells
    have hopen : ledger.life first = .openOn p := by
      rw [← hlisted.mem_iff, hlist]
      exact .head _
    obtain ⟨heap₁, hbody₁, hlisted₁⟩ := hbody hlisted hopen hbound
    rw [hlist, erase_cons_head] at hlisted₁
    rw [hlist, length_cons] at hbound hfuel
    obtain ⟨fuel, rfl⟩ := Nat.exists_eq_add_of_le' (Nat.le_of_add_left_le hfuel)
    have hhead : heap₁.links.head p = heap.links.next first := by
      have hspells₁ := hlisted₁.spells p
      rw [update_self] at hspells₁
      rw [hspells₁.start_eq, hspells.2.start_eq]
    have hrest : Function.update cursors p rest p = rest := update_self ..
    have hlength := Nat.le_of_eq (congrArg length hrest)
    obtain ⟨heap', hloop, hlisted'⟩ := ih hlisted₁
      (Nat.le_trans hlength (Nat.le_of_succ_le hbound))
      (Nat.le_trans hlength (Nat.le_of_succ_le_succ hfuel)) hrest
    refine ⟨heap', ?_, ?_⟩
    · rw [hspells.1]
      simp only [CursorHeap.forCursors, hbody₁, bind_some, ← hhead]
      exact hloop
    · rw [Ledger.become_ends hopen hnot, update_idem] at hlisted'
      exact hlisted'

/-- Assumes: a Btree that is not open. Its list is empty, and it may be opened. -/
theorem btreeOpen (hlisted : Listed heap ledger cursors) (hp : p ∉ ledger.btrees) :
    Listed { heap with links := heap.links.write (.head p) none }
      { ledger with btrees := p :: ledger.btrees } cursors where
  spells other := by
    by_cases hother : other = p
    · subst hother
      have hempty : cursors other = [] := by
        rw [eq_nil_iff_forall_not_mem]
        intro pCur hmem
        exact hp (hlisted.opened ((hlisted.mem_iff other pCur).mp hmem)).2
      rw [hempty]
      exact Links.read_write heap.links (.head other) none
    · have hslot : (Slot.head p : Slot ℕ ℕ) ≠ .head other :=
        fun heq ↦ hother (Slot.head.inj heq).symm
      have hnodes : ∀ pCur ∈ cursors other, (Slot.head p : Slot ℕ ℕ) ≠ .next pCur := by
        intro pCur _ heq
        cases heq
      exact Links.Spells.write (.head other) (hlisted.spells other) hslot hnodes
  nodup := hlisted.nodup
  mem_iff := hlisted.mem_iff
  fits pCur := by
    have hfits := hlisted.fits pCur
    revert hfits
    cases ledger.life pCur with
    | zeroed | closed => exact id
    | openOn q => exact fun hfits ↦ ⟨hfits.1, mem_cons_of_mem p hfits.2⟩

/-- Assumes: a Btree without open cursors. It may be freed. -/
theorem freed (hlisted : Listed heap ledger cursors)
    (hnone : ∀ pCur, ledger.life pCur ≠ .openOn p) :
    Listed heap { ledger with btrees := ledger.btrees.filter (· ≠ p) } cursors where
  spells := hlisted.spells
  nodup := hlisted.nodup
  mem_iff := hlisted.mem_iff
  fits pCur := by
    have hfits := hlisted.fits pCur
    have hlife := hnone pCur
    revert hfits hlife
    cases ledger.life pCur with
    | zeroed | closed => exact fun hfits _ ↦ hfits
    | openOn q =>
      intro hfits hlife
      have hq : q ≠ p := fun heq ↦ hlife (congrArg CursorLife.openOn heq)
      exact ⟨hfits.1, mem_filter.mpr ⟨hfits.2, decide_eq_true hq⟩⟩

end Listed

variable {count fuel : ℕ} {cursors : ℕ → List ℕ} {ledger : Ledger}

/-- A list with one cursor more, and the others as they were. -/
theorem length_update_le {p count : ℕ} {changed : List ℕ}
    (hcount : ∀ other, (cursors other).length ≤ count) (hchanged : changed.length ≤ count + 1)
    (other : ℕ) : (Function.update cursors p changed other).length ≤ count + 1 :=
  (forall_update_iff cursors fun _ list ↦ list.length ≤ count + 1).mpr
    ⟨hchanged, fun other _ ↦ Nat.le_succ_of_le (hcount other)⟩ other

/-- Assumes: a call that keeps to the interface, and fuel for the cursors that are open. The call
returns, and the lists are those of the ledger. -/
theorem ListCall.listed {heap : CursorHeap} (hlisted : Listed heap ledger cursors) {call : ListCall}
    (hallows : ledger.Allows call) (hcount : ∀ p, (cursors p).length ≤ count) (hfuel : count ≤ fuel)
    : ∃ heap' cursors', call.run fuel heap = some heap' ∧ Listed heap' (ledger.step call) cursors' ∧
      ∀ p, (cursors' p).length ≤ count + 1 := by
  have hle : ∀ p, (cursors p).length ≤ fuel := fun p ↦ Nat.le_trans (hcount p) hfuel
  have hgrown : ∀ p, (cursors p).length ≤ count + 1 := fun p ↦ Nat.le_succ_of_le (hcount p)
  cases call with
  | btreeOpen p => exact ⟨_, cursors, rfl, hlisted.btreeOpen hallows, hgrown⟩
  | cursor p pCur rc =>
    by_cases hrc : rc = .ok
    · subst hrc
      have hlisted' := hlisted.cursor hallows.1 hallows.2
      have hone := Nat.succ_le_succ (hcount p)
      rw [Ledger.step, if_pos rfl]
      exact ⟨_, _, rfl, hlisted', length_update_le hcount hone⟩
    · refine ⟨heap, cursors, ?_, ?_, hgrown⟩
      · rw [ListCall.run, CursorHeap.sqlite3BtreeCursor, if_neg hrc]
      · rwa [Ledger.step, if_neg hrc]
  | cursorZero pCur =>
    have hnew : ∀ other, pCur ∉ cursors other := by
      intro other hmem
      refine hallows ?_
      rw [(hlisted.mem_iff other pCur).mp hmem]
      rfl
    exact ⟨_, cursors, rfl,
      hlisted.become hnew .zeroed none (fun other heq ↦ CursorLife.noConfusion heq) rfl, hgrown⟩
  | closeCursor pCur =>
    cases hlife : ledger.life pCur with
    | zeroed =>
      refine ⟨heap, cursors, ?_, ?_, hgrown⟩
      · have hfits := hlisted.fits pCur
        rw [hlife] at hfits
        rw [ListCall.run, CursorHeap.sqlite3BtreeCloseCursor, show heap.pBtree pCur =
          none from hfits]
      · rwa [Ledger.step, hlife]
    | openOn p =>
      obtain ⟨heap', hclosed, hlisted'⟩ := hlisted.closeCursor hlife (hle p)
      have hless : ((cursors p).erase pCur).length ≤ count + 1 :=
        Nat.le_trans length_erase_le (hgrown p)
      rw [Ledger.step, hlife]
      exact ⟨heap', _, hclosed, hlisted', length_update_le hcount hless⟩
    | closed => exact absurd hlife hallows
  | commitPhaseOne p =>
    obtain ⟨heap', hloop, hlisted'⟩ := hlisted.forCursors .zeroed
      (fun heq ↦ CursorLife.noConfusion heq) (fun h hopen hb ↦ h.closeCursor_zero hopen hb) (hle p)
      (hle p)
    exact ⟨heap', _, hloop, hlisted', length_update_le hcount (Nat.zero_le _)⟩
  | rollback p => exact ⟨heap, cursors, rfl, hlisted, hgrown⟩
  | btreeClose p =>
    obtain ⟨heap', hloop, hlisted'⟩ := hlisted.forCursors .closed
      (fun heq ↦ CursorLife.noConfusion heq) (fun h hopen hb ↦ h.closeCursor hopen hb)
        (hle p) (hle p)
    refine ⟨heap', _, hloop, hlisted'.freed ?_, length_update_le hcount (Nat.zero_le _)⟩
    intro pCur hlife
    rw [← hlisted'.mem_iff, update_self] at hlife
    exact not_mem_nil hlife

/-! ### Every run -/

/-- Assumes: calls that keep to the interface, and fuel for the cursors that are open and the calls.
All the calls return, and the lists are those of the ledger. -/
theorem run_listed {calls : List ListCall} {heap : CursorHeap}
    (hlisted : Listed heap ledger cursors) (hallows : Meets Ledger.step Ledger.Allows ledger calls)
    (hcount : ∀ p, (cursors p).length ≤ count) (hfuel : count + calls.length ≤ fuel) :
    ∃ heap' cursors', run (ListCall.run fuel) heap calls = some heap' ∧
      Listed heap' (calls.foldl Ledger.step ledger) cursors' := by
  induction calls generalizing heap ledger cursors count with
  | nil => exact ⟨heap, cursors, rfl, hlisted⟩
  | cons call rest ih =>
    obtain ⟨heap₁, cursors₁, hcall, hlisted₁, hcount₁⟩ :=
      ListCall.listed hlisted hallows.1 hcount (Nat.le_of_add_right_le hfuel)
    have hfuel₁ : count + 1 + rest.length ≤ fuel := by
      rw [length_cons] at hfuel
      omega
    obtain ⟨heap', cursors', hrun, hlisted'⟩ := ih hlisted₁ hallows.2 hcount₁ hfuel₁
    refine ⟨heap', cursors', ?_, hlisted'⟩
    rwa [run, hcall]

/-- Assumes: calls that keep to the interface, on any number of Btrees and cursors:
`sqlite3BtreeCursor` is given zeroed cursors, and a cursor that has been closed since it was opened
is not closed again before it is zeroed. Then after every part of the run the calls have returned,
so that every search has found its cursor, and the lists are without repetitions and have exactly
the cursors that are open, each naming its Btree. -/
theorem cursor_lists_intact (calls : List ListCall)
    (hallows : Meets Ledger.step Ledger.Allows Ledger.start calls) (fuel : ℕ)
    (hfuel : calls.length ≤ fuel) (first : List ListCall) (hfirst : first <+: calls) :
    ∃ heap, run (ListCall.run fuel) CursorHeap.zeroed first = some heap ∧
      ListsIntact heap (first.foldl Ledger.step Ledger.start) := by
  obtain ⟨rest, rfl⟩ := hfirst
  have hstart : Listed CursorHeap.zeroed Ledger.start (fun _ ↦ []) := by
    constructor
    · exact fun _ ↦ rfl
    · exact fun _ ↦ nodup_nil
    · exact fun p pCur ↦ iff_of_false not_mem_nil fun heq ↦ CursorLife.noConfusion heq
    · exact fun _ ↦ rfl
  have hfuel' : 0 + first.length ≤ fuel := by
    rw [length_append] at hfuel
    omega
  obtain ⟨heap, cursors, hrun, hlisted⟩ := run_listed hstart (Meets.append_iff.mp hallows).1
    (fun _ ↦ Nat.zero_le 0) hfuel'
  exact ⟨heap, hrun, hlisted.intact⟩

/-- Two Btrees, cursors that a commit closes and zeroes and an owner closes once more, one that
cannot be opened, and a Btree that is closed with a cursor open on it. -/
def commitCalls : List ListCall :=
  [.btreeOpen 1, .btreeOpen 2, .cursor 1 5 .ok, .cursor 2 6 .ok, .cursor 1 7 .ok,
    .cursor 1 8 .error,
    .commitPhaseOne 1, .closeCursor 5, .btreeClose 2]

/-- The lists are intact after these calls. -/
theorem cursor_lists_commit :
    ∃ heap, run (ListCall.run 9) CursorHeap.zeroed commitCalls = some heap ∧
      ListsIntact heap (commitCalls.foldl Ledger.step Ledger.start) := by
  have hallows : Meets Ledger.step Ledger.Allows Ledger.start commitCalls :=
    ⟨by decide, by decide, by decide, by decide, by decide, by decide, by decide, by decide,
      by decide, trivial⟩
  exact cursor_lists_intact commitCalls hallows 9 (by decide) commitCalls prefix_rfl

/-- Without the condition the search leaves the list: `sqlite3BtreeClose` has closed the cursor and
left its `pBtree`. -/
example : run (ListCall.run 4) CursorHeap.zeroed
    [.btreeOpen 1, .cursor 1 5 .ok, .btreeClose 1, .closeCursor 5] = none := rfl

/-! ### The list of a handle -/

/-- The list of cursors of the handle is what the links of the heap spell, its cursors name it, and
the heap has the fields `pBtree` of the handle. -/
structure Shows (heap : CursorHeap) (h : Handle) : Prop where
  spells : heap.links.Spells (heap.links.head h.bt.id) h.bt.pCursor
  nodup : h.bt.pCursor.Nodup
  pBtree : ∀ pCur, heap.pBtree pCur = (h.cursor pCur).pBtree
  named : ∀ pCur ∈ h.bt.pCursor, (h.cursor pCur).pBtree = some h.bt.id

namespace Shows

variable {heap : CursorHeap} {h : Handle} {pCur fuel : ℕ}

/-- Assumes: a cursor that is not in the list. Opening it keeps the list the one of the links. -/
theorem cursor (hshows : Shows heap h) {name : DbName} {rc : Rc} {h' : Handle}
    (hcursor : sqlite3BtreeCursor h name pCur = some (rc, h')) (hnew : pCur ∉ h.bt.pCursor) :
    Shows (heap.sqlite3BtreeCursor h.bt.id pCur rc) h' := by
  obtain ⟨txn, -, heq⟩ := map_eq_some_iff.mp hcursor
  by_cases hnone : (h.visible.db name).isNone
  · rw [if_pos hnone] at heq
    cases heq
    exact hshows
  · rw [if_neg hnone] at heq
    cases heq
    refine ⟨Links.spells_push hshows.spells hnew, nodup_cons.mpr ⟨hnew, hshows.nodup⟩, ?_, ?_⟩
    · intro found
      by_cases hfound : found = pCur
      · subst hfound
        simp [CursorHeap.sqlite3BtreeCursor]
      · simp [CursorHeap.sqlite3BtreeCursor, hfound, hshows.pBtree]
    · rintro found (_ | ⟨_, hmem⟩)
      · simp
      · simp [ne_of_mem_of_not_mem hmem hnew, hshows.named found hmem]

/-- Assumes: a cursor of the list, and fuel for the list. The search finds it, and closing it keeps
the list the one of the links. -/
theorem closeCursor (hshows : Shows heap h) (hmem : pCur ∈ h.bt.pCursor)
    (hfuel : h.bt.pCursor.length ≤ fuel) :
    ∃ heap', heap.sqlite3BtreeCloseCursor fuel pCur = some heap' ∧
      Shows heap' (sqlite3BtreeCloseCursor h pCur) := by
  obtain ⟨links, hunlink, hspells, -⟩ := Links.spells_unlink hshows.spells hshows.nodup hmem hfuel
  have hnamed := hshows.named pCur hmem
  have hbt : (sqlite3BtreeCloseCursor h pCur).bt =
      { h.bt with pCursor := h.bt.pCursor.erase pCur } := by
    simp [sqlite3BtreeCloseCursor, hnamed]
  have hcursor : ∀ found, ((sqlite3BtreeCloseCursor h pCur).cursor found).pBtree =
      (h.cursor found).pBtree := by
    intro found
    by_cases hfound : found = pCur
    · subst hfound
      simp [sqlite3BtreeCloseCursor, sqlite3BtreeClearCursor]
    · simp [sqlite3BtreeCloseCursor, hfound]
  refine ⟨⟨links, heap.pBtree⟩, ?_, ?_⟩
  · rw [CursorHeap.sqlite3BtreeCloseCursor, hshows.pBtree, hnamed]
    simp [hunlink]
  · constructor
    · rwa [hbt]
    · rw [hbt]
      exact hshows.nodup.erase pCur
    · exact fun found ↦ (hshows.pBtree found).trans (hcursor found).symm
    · intro found hfound
      rw [hbt] at hfound ⊢
      rw [hcursor]
      exact hshows.named found (mem_of_mem_erase hfound)

theorem zero (hshows : Shows heap h) (hnew : pCur ∉ h.bt.pCursor) :
    Shows (heap.sqlite3BtreeCursorZero pCur)
      { h with cursor := Function.update h.cursor pCur sqlite3BtreeCursorZero } := by
  refine ⟨hshows.spells, hshows.nodup, fun found ↦ ?_, fun found hmem ↦ ?_⟩
  · by_cases hfound : found = pCur
    · subst hfound
      simp [CursorHeap.sqlite3BtreeCursorZero, sqlite3BtreeCursorZero]
    · simp [CursorHeap.sqlite3BtreeCursorZero, hfound, hshows.pBtree]
  · simp [ne_of_mem_of_not_mem hmem hnew, hshows.named found hmem]

/-- Assumes: fuel for the list. The loop of `sqlite3BtreeCommitPhaseOne` ends, and its list is the
one of the links. -/
theorem closeCursors {bound : ℕ} (hshows : Shows heap h) (hbound : h.bt.pCursor.length ≤ bound)
    (hfuel : h.bt.pCursor.length ≤ fuel) :
    ∃ heap', CursorHeap.forCursors (fun heap pCur ↦ (heap.sqlite3BtreeCloseCursor bound pCur).map
        fun closed ↦ closed.sqlite3BtreeCursorZero pCur) fuel heap (heap.links.head h.bt.id) =
        some heap' ∧ Shows heap' (closeCursors h.bt.pCursor h) := by
  induction hlist : h.bt.pCursor generalizing heap h fuel with
  | nil =>
    refine ⟨heap, ?_, hshows⟩
    rw [hshows.spells.start_eq, hlist]
    cases fuel with
    | zero | succ fuel => rfl
  | cons first rest ih =>
    have hmem : first ∈ h.bt.pCursor := hlist ▸ (.head _)
    obtain ⟨closed, hclosed, hshows₁⟩ := hshows.closeCursor hmem hbound
    have hbt : (sqlite3BtreeCloseCursor h first).bt = { h.bt with pCursor := rest } := by
      simp [sqlite3BtreeCloseCursor, hshows.named first hmem, hlist]
    have hspells := hshows.spells
    have hnodup := hshows.nodup
    rw [hlist] at hspells hnodup
    have hzeroed := @zero closed _ first hshows₁ (by rw [hbt]; exact (nodup_cons.mp hnodup).1)
    have hhead : heap.links.next first = closed.links.head h.bt.id := by
      have hnext := hshows₁.spells.start_eq
      rw [hbt] at hnext
      rw [hspells.2.start_eq, hnext]
    rw [hlist, length_cons] at hbound hfuel
    obtain ⟨fuel, rfl⟩ := Nat.exists_eq_add_of_le' (Nat.le_of_add_left_le hfuel)
    obtain ⟨heap', hloop, hshows'⟩ := @ih _ _ fuel hzeroed (by simp only [hbt]; omega)
      (by simp only [hbt]; omega) (by simp only [hbt])
    refine ⟨heap', ?_, hshows'⟩
    rw [hshows.spells.start_eq, hlist, head?_cons]
    simp only [CursorHeap.forCursors, hclosed, map_some, bind_some, hhead]
    simp only [hbt] at hloop
    exact hloop

/-- Assumes: fuel for the list. Phase one of a commit returns, and its list is the one of the links.
-/
theorem commitPhaseOne (hshows : Shows heap h) (hfuel : h.bt.pCursor.length ≤ fuel) :
    ∃ heap', heap.sqlite3BtreeCommitPhaseOne fuel h.bt.id = some heap' ∧
      Shows heap' (sqlite3BtreeCommitPhaseOne h).2 := by
  rw [sqlite3BtreeCommitPhaseOne]
  cases h.bt.mainTxn with
  | none => exact hshows.closeCursors hfuel hfuel
  | some t =>
    have hended : Shows heap { h with
        env := (h.env.mdbTxnCommit t).2
        bt := h.bt.ended } := ⟨hshows.spells, hshows.nodup, hshows.pBtree, hshows.named⟩
    exact hended.closeCursors hfuel hfuel

end Shows

/-- The calls that change the list of a handle. -/
inductive HandleCall
  | cursor (name : DbName) (pCur : ℕ)
  | closeCursor (pCur : ℕ)
  | commitPhaseOne

namespace HandleCall

def run (h : Handle) : HandleCall → Handle
  | .cursor name pCur => ((sqlite3BtreeCursor h name pCur).map Prod.snd).getD h
  | .closeCursor pCur => sqlite3BtreeCloseCursor h pCur
  | .commitPhaseOne => (sqlite3BtreeCommitPhaseOne h).2

/-- The call on the links, whose loops may go over the cursors of the list. -/
def onLinks (h : Handle) (heap : CursorHeap) : HandleCall → Option CursorHeap
  | .cursor name pCur => (sqlite3BtreeCursor h name pCur).map fun result ↦
      heap.sqlite3BtreeCursor h.bt.id pCur result.1
  | .closeCursor pCur => heap.sqlite3BtreeCloseCursor h.bt.pCursor.length pCur
  | .commitPhaseOne => heap.sqlite3BtreeCommitPhaseOne h.bt.pCursor.length h.bt.id

/-- A cursor is opened in a transaction, on memory that is not in the list, and closed while it is
in it. -/
def Allowed (h : Handle) : HandleCall → Prop
  | .cursor _ pCur => h.bt.currTxn ≠ none ∧ pCur ∉ h.bt.pCursor
  | .closeCursor pCur => pCur ∈ h.bt.pCursor
  | .commitPhaseOne => True

/-- The calls on the links, beside those on the handle. -/
def linksRun : CursorHeap → Handle → List HandleCall → Option CursorHeap
  | heap, _, [] => some heap
  | heap, h, call :: rest => (call.onLinks h heap).bind fun heap' ↦ linksRun heap' (call.run h) rest

theorem shows {heap : CursorHeap} {h : Handle} (hshows : Shows heap h) {call : HandleCall}
    (hallowed : call.Allowed h) :
    ∃ heap', call.onLinks h heap = some heap' ∧ Shows heap' (call.run h) := by
  cases call with
  | cursor name pCur =>
    obtain ⟨txn, hcurr⟩ := ne_none_iff_exists'.mp hallowed.1
    obtain ⟨result, hcursor⟩ : ∃ result, sqlite3BtreeCursor h name pCur = some result := by
      rw [sqlite3BtreeCursor, hcurr]
      exact ⟨_, rfl⟩
    rw [onLinks, run, hcursor]
    exact ⟨_, rfl, hshows.cursor hcursor hallowed.2⟩
  | closeCursor pCur => exact hshows.closeCursor hallowed (Nat.le_refl _)
  | commitPhaseOne => exact hshows.commitPhaseOne (Nat.le_refl _)

/-- In every run the loops end, and the list of the handle is the one that the links spell.
Assumes: the calls are allowed. -/
theorem list_linked {heap : CursorHeap} {h : Handle} (hshows : Shows heap h)
    {calls : List HandleCall} (hallowed : Meets run Allowed h calls) :
    ∃ heap', linksRun heap h calls = some heap' ∧ Shows heap' (calls.foldl run h) := by
  induction calls generalizing heap h with
  | nil => exact ⟨heap, rfl, hshows⟩
  | cons call rest ih =>
    obtain ⟨heap₁, hlinks, hshows₁⟩ := shows hshows hallowed.1
    obtain ⟨heap', hrun, hshows'⟩ := ih hshows₁ hallowed.2
    refine ⟨heap', ?_, hshows'⟩
    rw [linksRun, hlinks]
    exact hrun

theorem list_linked_commit :
    let calls : List HandleCall := [.cursor (.tab 2) 5, .closeCursor 5, .commitPhaseOne]
    let h := freshWriter.writes [createTab 2]
    ∃ heap, linksRun .zeroed h calls = some heap ∧ Shows heap (calls.foldl run h) :=
  @list_linked .zeroed (freshWriter.writes [createTab 2])
    ⟨rfl, .nil, fun _ ↦ rfl, fun _ hmem ↦ absurd hmem not_mem_nil⟩ _
    ⟨⟨some_ne_none 0, not_mem_nil⟩, .head _, trivial, trivial⟩

end HandleCall

end LumoSQL
