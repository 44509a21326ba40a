import Mathlib.Data.List.Basic

/-!
# Lists linked through their nodes

Several singly linked lists whose links stand in the nodes themselves, so that a node is in at most
one list and is unlinked by writing the link before it. That link is found by the loop `search`,
which has no test for the end of the list: it follows a null link when the node is not there.

`Spells` says which nodes a chain of links goes through. A node that stands in the list is found,
and without it the list spells the nodes that are left (`spells_unlink`); the lists that none of
those nodes is in are as they were (`Spells.write`).
-/

namespace LumoSQL.Foundation

open List Function

variable {κ ν : Type*}

inductive Slot (κ ν : Type*)
  | head (list : κ)
  | next (node : ν)

structure Links (κ ν : Type*) where
  head : κ → Option ν
  next : ν → Option ν

namespace Links

def read (links : Links κ ν) : Slot κ ν → Option ν
  | .head list => links.head list
  | .next node => links.next node

def Spells (links : Links κ ν) : Option ν → List ν → Prop
  | start, [] => start = none
  | start, node :: rest => start = some node ∧ links.Spells (links.next node) rest

section

variable [DecidableEq κ] [DecidableEq ν]

def write (links : Links κ ν) (slot : Slot κ ν) (link : Option ν) : Links κ ν :=
  match slot with
  | .head list => { links with head := Function.update links.head list link }
  | .next node => { links with next := Function.update links.next node link }

def push (links : Links κ ν) (list : κ) (node : ν) : Links κ ν :=
  (links.write (.next node) (links.head list)).write (.head list) (some node)

/-- The slot whose link is the node, looked for from a slot on: `none` when a null link is followed,
or when the fuel is used up. -/
def search (links : Links κ ν) (node : ν) : ℕ → Slot κ ν → Option (Slot κ ν)
  | 0, _ => none
  | fuel + 1, slot =>
    match links.read slot with
    | none => none
    | some found => if found = node then some slot else links.search node fuel (.next found)

def unlink (links : Links κ ν) (fuel : ℕ) (list : κ) (node : ν) : Option (Links κ ν) :=
  (links.search node fuel (.head list)).map fun slot ↦ links.write slot (links.next node)

end

/-! ### Chains -/

section

variable {links : Links κ ν} {start : Option ν} {nodes : List ν}

theorem Spells.start_eq (hspells : links.Spells start nodes) : start = nodes.head? := by
  cases nodes with
  | nil => exact hspells
  | cons node rest => exact hspells.1

/-- Assumes: links that are the same in the nodes of the chain. -/
theorem Spells.congr {links' : Links κ ν} (hspells : links.Spells start nodes)
    (hsame : ∀ node ∈ nodes, links'.next node = links.next node) : links'.Spells start nodes := by
  induction nodes generalizing start with
  | nil => exact hspells
  | cons node rest ih =>
    refine ⟨hspells.1, ?_⟩
    rw [hsame node (.head _)]
    exact ih hspells.2 fun other hother ↦ hsame other (mem_cons_of_mem node hother)

variable [DecidableEq κ] [DecidableEq ν]

variable {fuel : ℕ} {list : κ} {node : ν} (slot : Slot κ ν)

/-- The slots of a chain are its start and the links of its nodes: writing another one keeps it. -/
theorem Spells.write {written : Slot κ ν} {link : Option ν}
    (hspells : links.Spells (links.read slot) nodes) (hslot : written ≠ slot)
    (hapart : ∀ node ∈ nodes, written ≠ .next node) :
    (links.write written link).Spells ((links.write written link).read slot) nodes := by
  have hsame : ∀ other, written ≠ other → (links.write written link).read other =
    links.read other := by
    intro other hother
    cases written with
    | head list =>
      cases other with
      | head list' => exact update_of_ne (fun heq ↦ hother (congrArg Slot.head heq.symm)) _ _
      | next node => rfl
    | next node =>
      cases other with
      | head list => rfl
      | next node' => exact update_of_ne (fun heq ↦ hother (congrArg Slot.next heq.symm)) _ _
  rw [hsame slot hslot]
  exact hspells.congr fun node hnode ↦ hsame (.next node) (hapart node hnode)

/-- A slot holds the link that was written there. -/
theorem read_write (links : Links κ ν) (slot : Slot κ ν) (link : Option ν) :
    (links.write slot link).read slot = link := by
  cases slot with
  | head list | next node => exact update_self ..

/-- Assumes: a node that is not in the list. The list it is pushed on spells it first. -/
theorem spells_push (hspells : links.Spells (links.head list) nodes) (hnode : node ∉ nodes) :
    (links.push list node).Spells ((links.push list node).head list) (node :: nodes) := by
  refine ⟨update_self .., ?_⟩
  have hnext : (links.push list node).next node = links.head list := update_self ..
  rw [hnext]
  refine hspells.congr fun other hother ↦ update_of_ne ?_ _ _
  rintro rfl
  exact hnode hother

/-- Assumes: another list, which the node is not in either. -/
theorem spells_push_of_ne {list other : κ} (hspells : links.Spells (links.head other) nodes)
    (hother : other ≠ list) (hnode : node ∉ nodes) :
    (links.push list node).Spells ((links.push list node).head other) nodes := by
  have hhead : (links.push list node).head other = links.head other := update_of_ne hother _ _
  rw [hhead]
  refine hspells.congr fun found hfound ↦ update_of_ne ?_ _ _
  rintro rfl
  exact hnode hfound

/-- Assumes: a chain without repetitions that the slot is not in, through the node, and fuel for
every node of it. The loop finds the slot before the node, which is the one it started at or in
another node of the chain, and with the link of the node written there the chain spells the other
nodes. -/
theorem spells_search (hspells : links.Spells (links.read slot) nodes) (hnodup : nodes.Nodup)
    (hnode : node ∈ nodes) (hslot : ∀ other ∈ nodes, slot ≠ .next other)
    (hfuel : nodes.length ≤ fuel) : ∃ found, links.search node fuel slot = some found ∧
      (found = slot ∨ ∃ other ∈ nodes, found = .next other) ∧
      (links.write found (links.next node)).Spells
        ((links.write found (links.next node)).read slot) (nodes.erase node) := by
  -- the induction is on the chain, the slot being the one the loop has reached
  induction nodes generalizing slot fuel with
  | nil => cases hnode
  | cons first rest ih =>
    obtain ⟨hread, hrest⟩ := hspells
    obtain ⟨hfirst, hnodup'⟩ := nodup_cons.mp hnodup
    obtain ⟨fuel, rfl⟩ := Nat.exists_eq_add_of_lt (Nat.lt_of_lt_of_le (Nat.succ_pos _) hfuel)
    rw [Nat.zero_add] at hfuel ⊢
    by_cases hhere : first = node
    · subst hhere
      refine ⟨slot, ?_, .inl rfl, ?_⟩
      · simp [search, hread]
      · rw [erase_cons_head, read_write]
        refine hrest.congr fun other hother ↦ ?_
        cases slot with
        | head list => rfl
        | next before =>
          refine update_of_ne ?_ _ _
          rintro rfl
          exact hslot other (mem_cons_of_mem first hother) rfl
    · have hmem : node ∈ rest := by
        rcases mem_cons.mp hnode with heq | hmem
        · exact absurd heq.symm hhere
        · exact hmem
      have hapart : ∀ other ∈ rest, (Slot.next first : Slot κ ν) ≠ .next other := by
        intro other hother heq
        injection heq with heq
        exact hfirst (heq ▸ hother)
      obtain ⟨found, hsearch, hfound, hspells⟩ :=
        ih (.next first) hrest hnodup' hmem hapart (Nat.le_of_succ_le_succ hfuel)
      have hplace : ∃ other ∈ first :: rest, found = .next other := by
        rcases hfound with rfl | ⟨other, hother, rfl⟩
        · exact ⟨first, .head _, rfl⟩
        · exact ⟨other, mem_cons_of_mem first hother, rfl⟩
      refine ⟨found, ?_, .inr hplace, ?_⟩
      · simp [search, hread, if_neg hhere, hsearch]
      · rw [erase_cons_tail (by simpa using hhere)]
        obtain ⟨other, hother, rfl⟩ := hplace
        refine ⟨?_, hspells⟩
        rw [← hread]
        cases slot with
        | head list => rfl
        | next before =>
          refine update_of_ne ?_ _ _
          rintro rfl
          exact hslot before hother rfl

/-- Assumes: a list without repetitions that has the node, and fuel for every node of it. The node
is found, and the list spells the others; a list that has none of these nodes is as it was. -/
theorem spells_unlink (hspells : links.Spells (links.head list) nodes) (hnodup : nodes.Nodup)
    (hnode : node ∈ nodes) (hfuel : nodes.length ≤ fuel) :
    ∃ links', links.unlink fuel list node = some links' ∧
      links'.Spells (links'.head list) (nodes.erase node) ∧
      ∀ other others, other ≠ list → (∀ found ∈ nodes, found ∉ others) →
        links.Spells (links.head other) others → links'.Spells (links'.head other) others := by
  have hslot : ∀ found ∈ nodes, (Slot.head list : Slot κ ν) ≠ .next found := by
    intro found _ heq
    cases heq
  obtain ⟨found, hsearch, hfound, hchain⟩ :=
    spells_search (.head list) hspells hnodup hnode hslot hfuel
  refine ⟨links.write found (links.next node), ?_, hchain, ?_⟩
  · rw [unlink, hsearch]
    rfl
  · intro other others hother hapart hothers
    refine Spells.write (.head other) hothers ?_ ?_
    · rcases hfound with rfl | ⟨before, _, rfl⟩
      · intro heq
        injection heq with heq
        exact hother heq.symm
      · intro heq
        cases heq
    · intro node' hnode' heq
      rcases hfound with rfl | ⟨before, hbefore, rfl⟩
      · cases heq
      · injection heq with heq
        exact hapart before hbefore (heq ▸ hnode')

end

end Links

end LumoSQL.Foundation
