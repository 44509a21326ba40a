import LumoSQL.Foundation.ThreeWay
import Mathlib.Data.List.Nodup
import Mathlib.Data.List.Perm.Basic

/-!
# A store of sorted duplicates

A store is a list of nodes, each a key with its data items. A search asks with a probe, which gives
its comparison with every stored key: negative if the probe comes before the key. A `put` whose
probe is equal to a stored key adds its item to that node, whose key stays, and otherwise makes a
node before the first greater key (`put_cases`). The items of a node are in the order of their own
comparison, without repetition. In a store without duplicates a `putOver` puts its item in the place
of the one that is there. `setRange` finds the first item of the first key that is not less than the
probe, and `getBothRange` the first item that is not less than a given one under the key that is
equal to the probe.

`Tidy` says that no node is empty and the items of every node are in order; `put` and `eraseAt` keep
it (`Tidy.put`, `Tidy.eraseAt`). `Ordered` says that the keys are, for a comparison of keys; `put`
keeps that too where the comparison is one of a linear preorder (`Ordered.put`). What a `put` adds
to the entries is `mem_entries_put`, what `eraseAt` takes from them `mem_entries_eraseAt`, and what
the searches find are `setRange_cases` and `getBothRange_cases`.
-/

namespace LumoSQL.Foundation

open List Option Prod

variable {κ δ : Type*}

/-- A comparison of a linear order: only a value itself is equal to it. -/
structure LinearCmp (cmp : δ → δ → ℤ) : Prop where
  oriented : Oriented cmp
  trans : TransOn (fun _ ↦ True) cmp
  eq_of_zero : ∀ a b, cmp a b = 0 → a = b

structure Node (κ δ : Type*) where
  key : κ
  items : List δ
  deriving DecidableEq

/-! ### The operations -/

/-- The item is put in its place among the others, unless it is there. -/
def addItem (cmp : δ → δ → ℤ) (item : δ) : List δ → List δ
  | [] => [item]
  | other :: rest =>
    if cmp item other = 0 then other :: rest
    else if cmp item other < 0 then item :: other :: rest
    else other :: addItem cmp item rest

/-- The item is added to the first node whose key is equal to the probe. -/
def addAt (probe : κ → ℤ) (cmp : δ → δ → ℤ) (item : δ) : List (Node κ δ) → List (Node κ δ)
  | [] => []
  | node :: rest =>
    if probe node.key = 0 then ⟨node.key, addItem cmp item node.items⟩ :: rest
    else node :: addAt probe cmp item rest

def addNode (probe : κ → ℤ) (new : Node κ δ) : List (Node κ δ) → List (Node κ δ)
  | [] => [new]
  | node :: rest => if probe node.key < 0 then new :: node :: rest
      else node :: addNode probe new rest

def put (probe : κ → ℤ) (cmp : δ → δ → ℤ) (key : κ) (item : δ) (nodes : List (Node κ δ)) :
    List (Node κ δ) :=
  if ∀ node ∈ nodes, probe node.key ≠ 0 then addNode probe ⟨key, [item]⟩ nodes
  else addAt probe cmp item nodes

/-- The first node whose key is equal to the probe gets the item in the place of its own. -/
def replaceAt (probe : κ → ℤ) (item : δ) : List (Node κ δ) → List (Node κ δ)
  | [] => []
  | node :: rest =>
    if probe node.key = 0 then ⟨node.key, [item]⟩ :: rest else node :: replaceAt probe item rest

def putOver (probe : κ → ℤ) (key : κ) (item : δ) (nodes : List (Node κ δ)) : List (Node κ δ) :=
  if ∀ node ∈ nodes, probe node.key ≠ 0 then addNode probe ⟨key, [item]⟩ nodes
  else replaceAt probe item nodes

/-- The place of the first item of the first key that is not less than the probe. -/
def setRange (probe : κ → ℤ) (nodes : List (Node κ δ)) : Option (ℕ × ℕ) :=
  (nodes.findIdx? fun node ↦ probe node.key ≤ 0).map (·, 0)

/-- The place of the first item that is not less than `item` under the key equal to the probe. -/
def getBothRange (probe : κ → ℤ) (cmp : δ → δ → ℤ) (item : δ) (nodes : List (Node κ δ)) :
    Option (ℕ × ℕ) :=
  (nodes.findIdx? fun node ↦ probe node.key = 0).bind fun i ↦ (nodes[i]?).bind fun node ↦
      (node.items.findIdx? fun other ↦ cmp item other ≤ 0).map fun j ↦ (i, j)

def entryAt (nodes : List (Node κ δ)) (place : ℕ × ℕ) : Option (κ × δ) :=
  (nodes[place.1]?).bind fun node ↦ (node.items[place.2]?).map fun item ↦ (node.key, item)

def ScanBefore (place other : ℕ × ℕ) : Prop :=
  place.1 < other.1 ∨ (place.1 = other.1 ∧ place.2 < other.2)

/-- The store without the entry at a place; a node that loses its last item goes too. -/
def eraseAt (nodes : List (Node κ δ)) (place : ℕ × ℕ) : List (Node κ δ) :=
  match nodes[place.1]? with
  | none => nodes
  | some node =>
    if node.items.length ≤ 1 then nodes.eraseIdx place.1
    else nodes.set place.1 ⟨node.key, node.items.eraseIdx place.2⟩

def entries (nodes : List (Node κ δ)) : List (κ × δ) :=
  nodes.flatMap fun node ↦ node.items.map fun item ↦ (node.key, item)

def Node.mapKey {ι : Type*} (f : ι → κ) (node : Node ι δ) : Node κ δ := ⟨f node.key, node.items⟩

@[simp] theorem mapKey_key {ι : Type*} (f : ι → κ) (node : Node ι δ) :
    (node.mapKey f).key = f node.key := rfl

@[simp] theorem mapKey_items {ι : Type*} (f : ι → κ) (node : Node ι δ) :
    (node.mapKey f).items = node.items := rfl

structure Tidy (cmp : δ → δ → ℤ) (nodes : List (Node κ δ)) : Prop where
  filled : ∀ node ∈ nodes, node.items ≠ []
  sorted : ∀ node ∈ nodes, node.items.Pairwise fun a b ↦ cmp a b < 0

def Ordered (order : κ → κ → ℤ) (nodes : List (Node κ δ)) : Prop :=
  nodes.Pairwise fun m n ↦ order m.key n.key < 0

variable {cmp : δ → δ → ℤ} {probe : κ → ℤ} {key : κ} {item : δ} {items : List δ}
  {nodes : List (Node κ δ)}

/-! ### The first value of a kind -/

/-- A search from the left splits the list at the first value of the kind. -/
theorem findIdx_cases {α : Type*} (p : α → Prop) [DecidablePred p] (l : List α) :
    (l.findIdx? (fun x ↦ p x) = none ∧ ∀ x ∈ l, ¬ p x) ∨
      ∃ before x after, l = before ++ x :: after ∧
        l.findIdx? (fun x ↦ p x) = some before.length ∧ p x ∧ ∀ y ∈ before, ¬ p y := by
  induction l with
  | nil => exact .inl ⟨rfl, by simp⟩
  | cons head rest ih =>
    rw [findIdx?_cons]
    by_cases hhead : p head
    · rw [if_pos (by simpa using hhead)]
      exact .inr ⟨[], head, rest, rfl, rfl, hhead, by simp⟩
    · rw [if_neg (by simpa using hhead)]
      rcases ih with ⟨hnone, hall⟩ | ⟨before, x, after, rfl, hfind, hx, hbefore⟩
      · rw [hnone]
        exact .inl ⟨rfl, forall_mem_cons.mpr ⟨hhead, hall⟩⟩
      · rw [hfind]
        exact .inr ⟨head :: before, x, after, rfl, rfl, hx, forall_mem_cons.mpr ⟨hhead, hbefore⟩⟩

/-! ### The items of a node -/

section

theorem LinearCmp.zero_iff (hcmp : LinearCmp cmp) {a b : δ} : cmp a b = 0 ↔ a = b := by
  constructor
  · exact hcmp.eq_of_zero a b
  · rintro rfl
    exact hcmp.oriented.self a

theorem LinearCmp.lt_trans (hcmp : LinearCmp cmp) {a b c : δ} (hab : cmp a b < 0)
    (hbc : cmp b c < 0) : cmp a c < 0 :=
  hcmp.trans.lt_of_lt_of_le hcmp.oriented trivial trivial trivial hab hbc.le

theorem LinearCmp.asymm (hcmp : LinearCmp cmp) {a b : δ} (hab : cmp a b < 0) : ¬ cmp b a < 0 := by
  have hflip := (hcmp.oriented a b).mp hab
  omega

theorem addItem_ne_nil (cmp : δ → δ → ℤ) (item : δ) (items : List δ) :
    addItem cmp item items ≠ [] := by
  cases items with
  | nil => exact cons_ne_nil _ _
  | cons other rest =>
    rw [addItem]
    split_ifs <;> exact cons_ne_nil _ _

theorem mem_addItem (hcmp : LinearCmp cmp) {other : δ} :
    other ∈ addItem cmp item items ↔ other = item ∨ other ∈ items := by
  induction items with
  | nil => simp [addItem]
  | cons first rest ih =>
    rw [addItem]
    split_ifs with hzero hbefore
    · rw [hcmp.zero_iff.mp hzero]
      simp
    · simp
    · rw [mem_cons, ih, mem_cons]
      tauto

theorem addItem_sorted (hcmp : LinearCmp cmp) (hsorted : items.Pairwise fun a b ↦ cmp a b < 0) :
    (addItem cmp item items).Pairwise fun a b ↦ cmp a b < 0 := by
  induction items with
  | nil => simp [addItem]
  | cons first rest ih =>
    obtain ⟨hfirst, hrest⟩ := pairwise_cons.mp hsorted
    rw [addItem]
    split_ifs with hzero hbefore
    · exact hsorted
    · refine pairwise_cons.mpr ⟨fun other hother ↦ ?_, hsorted⟩
      rcases mem_cons.mp hother with rfl | hother
      · exact hbefore
      · exact hcmp.lt_trans hbefore (hfirst other hother)
    · refine pairwise_cons.mpr ⟨fun other hother ↦ ?_, ih hrest⟩
      rcases (mem_addItem hcmp).mp hother with rfl | hother
      · exact (hcmp.oriented first other).mpr (by omega)
      · exact hfirst other hother

theorem sorted_nodup (hcmp : LinearCmp cmp) (hsorted : items.Pairwise fun a b ↦ cmp a b < 0) :
    items.Nodup := by
  refine hsorted.imp fun hlt heq ↦ ?_
  rw [heq, hcmp.oriented.self] at hlt
  exact absurd hlt (by omega)

/-- Where the other items are, seen from one of them. -/
theorem sorted_split (hcmp : LinearCmp cmp) {less greater : List δ} {found other : δ}
    (hsorted : (less ++ found :: greater).Pairwise fun a b ↦ cmp a b < 0)
    (hother : other ∈ less ++ found :: greater) :
    (cmp found other < 0 ↔ other ∈ greater) ∧ (cmp other found < 0 ↔ other ∈ less) := by
  simp only [pairwise_append, pairwise_cons, forall_mem_cons] at hsorted
  obtain ⟨_, ⟨hgreater, _⟩, hless⟩ := hsorted
  rw [mem_append, mem_cons] at hother
  refine ⟨⟨fun hlt ↦ ?_, hgreater other⟩, ⟨fun hlt ↦ ?_, fun hin ↦ (hless other hin).1⟩⟩
  · rcases hother with hin | rfl | hin
    · exact absurd hlt (hcmp.asymm (hless other hin).1)
    · rw [hcmp.oriented.self] at hlt
      exact absurd hlt (lt_irrefl 0)
    · exact hin
  · rcases hother with hin | rfl | hin
    · exact hin
    · rw [hcmp.oriented.self] at hlt
      exact absurd hlt (lt_irrefl 0)
    · exact absurd hlt (hcmp.asymm (hgreater other hin))

end

/-! ### What `put` does -/

section

theorem addNode_cases (probe : κ → ℤ) (new : Node κ δ) (nodes : List (Node κ δ)) :
    ∃ before after, nodes = before ++ after ∧ addNode probe new nodes = before ++ new :: after ∧
      (∀ other ∈ before, 0 ≤ probe other.key) ∧ ∀ other ∈ after.head?, probe other.key < 0 := by
  induction nodes with
  | nil => exact ⟨[], [], rfl, rfl, by simp, by simp⟩
  | cons node rest ih =>
    rw [addNode]
    split_ifs with hless
    · exact ⟨[], node :: rest, rfl, rfl, by simp, by simpa using hless⟩
    · obtain ⟨before, after, hsplit, hadd, hbefore, hafter⟩ := ih
      refine ⟨node :: before, after, ?_, ?_, ?_, hafter⟩
      · rw [hsplit, cons_append]
      · rw [hadd, cons_append]
      · exact forall_mem_cons.mpr ⟨not_lt.mp hless, hbefore⟩

/-- The first node with an equal key gets other items, or a new node is made before the first one
with a greater key. -/
def PutInto (probe : κ → ℤ) (change : List δ → List δ) (new : Node κ δ)
    (nodes after : List (Node κ δ)) : Prop :=
  (∃ left node right, nodes = left ++ node :: right ∧ (∀ other ∈ left, probe other.key ≠ 0) ∧
      probe node.key = 0 ∧ after = left ++ ⟨node.key, change node.items⟩ :: right) ∨
    ((∀ node ∈ nodes, probe node.key ≠ 0) ∧ ∃ left right, nodes = left ++ right ∧
      after = left ++ new :: right ∧ (∀ other ∈ left, 0 ≤ probe other.key) ∧
      ∀ other ∈ right.head?, probe other.key < 0)

variable {change : List δ → List δ} {entry : κ × δ} (pairs : List (κ × δ))

/-- Assumes: `changed` changes the items of the first node with an equal key. -/
theorem putInto_of_changed {changed : List (Node κ δ) → List (Node κ δ)}
    (hcons : ∀ node rest, changed (node :: rest) =
      if probe node.key = 0 then ⟨node.key, change node.items⟩ :: rest else node :: changed rest)
    (new : Node κ δ) (nodes : List (Node κ δ)) : PutInto probe change new nodes
      (if ∀ node ∈ nodes, probe node.key ≠ 0 then addNode probe new nodes else changed nodes) := by
  have hchanged : ∀ before node after, (∀ other ∈ before, probe other.key ≠ 0) →
      probe node.key = 0 → changed (before ++ node :: after) =
        before ++ ⟨node.key, change node.items⟩ :: after := by
    intro before node after hbefore hnode
    induction before with
    | nil => rw [nil_append, hcons, if_pos hnode, nil_append]
    | cons other before ih =>
      obtain ⟨hother, hrest⟩ := forall_mem_cons.mp hbefore
      rw [cons_append, hcons, if_neg hother, ih hrest, cons_append]
  rcases findIdx_cases (fun node : Node κ δ ↦ probe node.key = 0) nodes with
    ⟨_, hmiss⟩ | ⟨before, node, after, rfl, _, hzero, hbefore⟩
  · rw [if_pos hmiss]
    exact .inr ⟨hmiss, addNode_cases probe new nodes⟩
  · rw [if_neg fun hmiss ↦ hmiss node (by simp) hzero]
    exact .inl ⟨before, node, after, rfl, hbefore, hzero, hchanged _ _ _ hbefore hzero⟩

/-- A `put` adds its item to the first node with an equal key, or makes a node of its own. -/
theorem put_cases (probe : κ → ℤ) (cmp : δ → δ → ℤ) (key : κ) (item : δ) (nodes : List (Node κ δ)) :
    PutInto probe (addItem cmp item) ⟨key, [item]⟩ nodes (put probe cmp key item nodes) :=
  putInto_of_changed (fun _ _ ↦ rfl) _ nodes

/-- A `putOver` replaces the items of the first node with an equal key, or makes a node. -/
theorem putOver_cases (probe : κ → ℤ) (key : κ) (item : δ) (nodes : List (Node κ δ)) :
    PutInto probe (fun _ ↦ [item]) ⟨key, [item]⟩ nodes (putOver probe key item nodes) :=
  putInto_of_changed (fun _ _ ↦ rfl) _ nodes

/-- What holds of every node, of the new one and of one that is changed holds afterwards. -/
theorem PutInto.forall_mem {new : Node κ δ} {after : List (Node κ δ)}
    (hput : PutInto probe change new nodes after) {P : Node κ δ → Prop}
    (hnodes : ∀ node ∈ nodes, P node) (hchange : ∀ node, P node → P ⟨node.key, change node.items⟩)
    (hnew : P new) : ∀ node ∈ after, P node := by
  rcases hput with ⟨left, node, right, rfl, _, _, rfl⟩ | ⟨_, left, right, rfl, rfl, _, _⟩
  · simp only [forall_mem_append, forall_mem_cons] at hnodes ⊢
    exact ⟨hnodes.1, hchange node hnodes.2.1, hnodes.2.2⟩
  · simp only [forall_mem_append, forall_mem_cons] at hnodes ⊢
    exact ⟨hnodes.1, hnew, hnodes.2⟩

theorem entries_append (left right : List (Node κ δ)) :
    entries (left ++ right) = entries left ++ entries right := flatMap_append

theorem mem_entries :
    entry ∈ entries nodes ↔ ∃ node ∈ nodes, node.key = entry.1 ∧ entry.2 ∈ node.items := by
  obtain ⟨k, d⟩ := entry
  simp only [entries, List.mem_flatMap, List.mem_map, Prod.mk.injEq]
  constructor
  · rintro ⟨node, hnode, item, hitem, rfl, rfl⟩
    exact ⟨node, hnode, rfl, hitem⟩
  · rintro ⟨node, hnode, rfl, hitem⟩
    exact ⟨node, hnode, d, hitem, rfl, rfl⟩

theorem mem_entries_cons {node : Node κ δ} : entry ∈ entries (node :: nodes) ↔
      (entry.1 = node.key ∧ entry.2 ∈ node.items) ∨ entry ∈ entries nodes := by
  simp only [mem_entries, mem_cons, exists_eq_or_imp, @eq_comm _ entry.1]

theorem key_ne_of_mem_entries (hne : ∀ node ∈ nodes, node.key ≠ key) (entry : κ × δ)
    (hentry : entry ∈ entries nodes) : entry.1 ≠ key := by
  obtain ⟨node, hnode, hkey, _⟩ := mem_entries.mp hentry
  exact hkey ▸ hne node hnode

theorem keys_ne {before after : List (Node κ δ)} {node : Node κ δ}
    (hkeys : ((before ++ node :: after).map Node.key).Nodup) :
    (∀ other ∈ before, other.key ≠ node.key) ∧ ∀ other ∈ after, other.key ≠ node.key := by
  rw [map_append, map_cons, nodup_append, nodup_cons] at hkeys
  refine ⟨fun other hother ↦ hkeys.2.2 _ (mem_map_of_mem hother) _ (.head _),
    fun other hother hsame ↦ ?_⟩
  exact hkeys.2.1.1 (hsame ▸ mem_map_of_mem hother)

/-- Assumes: the key is equal to itself. A `putOver` leaves its item alone under a key equal to the
one asked for. -/
theorem exists_mem_putOver (probe : κ → ℤ) {key : κ} (hself : probe key = 0) (item : δ)
    (nodes : List (Node κ δ)) :
    ∃ node ∈ putOver probe key item nodes, probe node.key = 0 ∧ node.items = [item] := by
  rcases putOver_cases probe key item nodes with
    ⟨before, node, after, rfl, _, hzero, hput⟩ | ⟨_, before, after, rfl, hput, _⟩
  · rw [hput]
    exact ⟨⟨node.key, [item]⟩, by simp, hzero, rfl⟩
  · rw [hput]
    exact ⟨⟨key, [item]⟩, by simp, hself, rfl⟩

/-! ### Stores with one item for each key -/

def Single (nodes : List (Node κ δ)) : Prop := ∀ node ∈ nodes, ∃ item, node.items = [item]

theorem entries_cons (node : Node κ δ) (nodes : List (Node κ δ)) :
    entries (node :: nodes) = (node.items.map fun item ↦ (node.key, item)) ++ entries nodes := rfl

/-- The keys of the entries are those of the nodes. -/
theorem Single.entries_keys (hsingle : Single nodes) :
    (entries nodes).map Prod.fst = nodes.map Node.key := by
  induction nodes with
  | nil => rfl
  | cons node rest ih =>
    obtain ⟨⟨item, hitem⟩, hrest⟩ := forall_mem_cons.mp hsingle
    rw [entries_cons, hitem, map_append, ih hrest]
    rfl

theorem Single.nodes_eq (hsingle : Single nodes) :
    (entries nodes).map (fun entry ↦ (⟨entry.1, [entry.2]⟩ : Node κ δ)) = nodes := by
  induction nodes with
  | nil => rfl
  | cons node rest ih =>
    obtain ⟨⟨item, hitem⟩, hrest⟩ := forall_mem_cons.mp hsingle
    rw [entries_cons, hitem, map_append, ih hrest]
    cases node with
    | mk key items =>
      subst hitem
      rfl

/-- The entries are read back from the nodes made of them. -/
theorem entries_of_pairs :
    entries (pairs.map fun entry ↦ (⟨entry.1, [entry.2]⟩ : Node κ δ)) = pairs := by
  induction pairs with
  | nil => rfl
  | cons pair rest ih =>
    rw [map_cons, entries_cons, ih]
    rfl

theorem Single.of_pairs : Single (pairs.map fun entry ↦ (⟨entry.1, [entry.2]⟩ : Node κ δ)) := by
  intro node hnode
  obtain ⟨pair, _, rfl⟩ := mem_map.mp hnode
  exact ⟨pair.2, rfl⟩

theorem Single.putOver (hsingle : Single nodes) (probe : κ → ℤ) (key : κ) (item : δ) :
    Single (putOver probe key item nodes) :=
  (putOver_cases probe key item nodes).forall_mem hsingle (fun _ _ ↦ ⟨item, rfl⟩) ⟨item, rfl⟩

section

variable (hself : probe key = 0) (hkeys : (nodes.map Node.key).Nodup)

include hself hkeys

/-- Assumes: the keys are different. They stay different. -/
theorem keys_putOver_nodup (item : δ) : ((putOver probe key item nodes).map Node.key).Nodup := by
  rcases putOver_cases probe key item nodes with
    ⟨before, node, after, rfl, _, _, hput⟩ | ⟨hmiss, before, after, rfl, hput, _⟩
  · rw [hput]
    simpa using hkeys
  · have hnew : key ∉ (before ++ after).map Node.key := by
      intro hmem
      obtain ⟨node, hnode, hkey⟩ := mem_map.mp hmem
      exact hmiss node hnode (by rw [hkey, hself])
    have hperm : ((before ++ ⟨key, [item]⟩ :: after).map Node.key).Perm
        (key :: (before ++ after).map Node.key) := (perm_middle).map Node.key
    rw [hput]
    exact hperm.nodup_iff.mpr (nodup_cons.mpr ⟨hnew, hkeys⟩)

/-- Assumes: only the key itself is equal to it, and the keys are different. A `putOver` puts its
entry in the place of the one with its key. -/
theorem mem_entries_putOver (hzero : ∀ other, probe other = 0 → other = key) (item : δ)
    (entry : κ × δ) : entry ∈ entries (putOver probe key item nodes) ↔
      entry = (key, item) ∨ (entry ∈ entries nodes ∧ entry.1 ≠ key) := by
  rcases putOver_cases probe key item nodes with
    ⟨before, node, after, rfl, _, hfound, hput⟩ | ⟨hmiss, before, after, rfl, hput, _⟩
  · have hkey : node.key = key := hzero _ hfound
    obtain ⟨hbefore, hafter⟩ := keys_ne hkeys
    have hleft := key_ne_of_mem_entries (hkey ▸ hbefore) entry
    have hright := key_ne_of_mem_entries (hkey ▸ hafter) entry
    rw [hput, entries_append, entries_append, mem_append, mem_append, mem_entries_cons,
      mem_entries_cons, mem_singleton, hkey, Prod.ext_iff]
    tauto
  · have hne : ∀ node ∈ before ++ after, node.key ≠ key := fun node hnode hsame ↦
      hmiss node hnode (by rw [hsame, hself])
    have hrest := key_ne_of_mem_entries hne entry
    rw [hput, entries_append, mem_append, mem_entries_cons, mem_singleton, Prod.ext_iff]
    rw [entries_append, mem_append] at hrest ⊢
    tauto

end

theorem Tidy.put (hcmp : LinearCmp cmp) (htidy : Tidy cmp nodes) (probe : κ → ℤ) (key : κ)
    (item : δ) : Tidy cmp (put probe cmp key item nodes) := by
  have hput := put_cases probe cmp key item nodes
  constructor
  · exact hput.forall_mem htidy.filled (fun _ _ ↦ addItem_ne_nil _ _ _) (cons_ne_nil _ _)
  · exact hput.forall_mem htidy.sorted (fun _ ↦ addItem_sorted hcmp) (pairwise_singleton _ _)

/-- What a `put` adds is its item under its key, or under the equal key that is there. -/
theorem mem_entries_put (hcmp : LinearCmp cmp) (probe : κ → ℤ) (key : κ) (item : δ)
    (nodes : List (Node κ δ)) : ∃ k, ((k = key ∧ ∀ node ∈ nodes, probe node.key ≠ 0) ∨
        ∃ node ∈ nodes, node.key = k ∧ probe k = 0) ∧
      ∀ entry, entry ∈ entries (put probe cmp key item nodes) ↔
        entry = (k, item) ∨ entry ∈ entries nodes := by
  rcases put_cases probe cmp key item nodes with
    ⟨before, node, after, rfl, _, hzero, hput⟩ | ⟨hmiss, before, after, rfl, hput, _, _⟩
  · refine ⟨node.key, .inr ⟨node, by simp, rfl, hzero⟩, fun entry ↦ ?_⟩
    rw [hput, entries_append, entries_append, mem_append, mem_append, mem_entries_cons,
      mem_entries_cons, mem_addItem hcmp, Prod.ext_iff]
    tauto
  · refine ⟨key, .inl ⟨rfl, hmiss⟩, fun entry ↦ ?_⟩
    rw [hput, entries_append, entries_append, mem_append, mem_append, mem_entries_cons,
      mem_singleton, Prod.ext_iff]
    tauto

/-- What holds of the keys and the items of a store and of what is put into it holds afterwards. -/
theorem put_forall (hcmp : LinearCmp cmp) {P : κ → Prop} {Q : δ → Prop}
    (hnodes : ∀ node ∈ nodes, P node.key ∧ ∀ item ∈ node.items, Q item) (hkey : P key)
    (hitem : Q item) :
    ∀ node ∈ put probe cmp key item nodes, P node.key ∧ ∀ item ∈ node.items, Q item := by
  refine (put_cases probe cmp key item nodes).forall_mem hnodes
    (fun node ⟨hkey, hitems⟩ ↦ ⟨hkey, fun other hother ↦ ?_⟩) ⟨hkey, by simpa using hitem⟩
  rcases (mem_addItem hcmp).mp hother with rfl | hother
  · exact hitem
  · exact hitems other hother

theorem entries_nodup (hcmp : LinearCmp cmp) (htidy : Tidy cmp nodes)
    (hkeys : (nodes.map Node.key).Nodup) : (entries nodes).Nodup := by
  refine nodup_flatMap.mpr ⟨fun node hnode ↦ ?_, ?_⟩
  · exact (sorted_nodup hcmp (htidy.sorted node hnode)).map fun a b hab ↦ (mk.inj hab).2
  · refine (pairwise_map.mp hkeys).imp fun hne ↦ ?_
    intro entry hleft hright
    obtain ⟨a, _, rfl⟩ := mem_map.mp hleft
    obtain ⟨b, _, hab⟩ := mem_map.mp hright
    exact hne (mk.inj hab).1.symm

theorem keys_put (probe : κ → ℤ) (cmp : δ → δ → ℤ) (key : κ) (item : δ) (nodes : List (Node κ δ)) :
    ((put probe cmp key item nodes).map Node.key).Perm (nodes.map Node.key) ∨
      (∀ node ∈ nodes, probe node.key ≠ 0) ∧
        ((put probe cmp key item nodes).map Node.key).Perm (key :: nodes.map Node.key) := by
  rcases put_cases probe cmp key item nodes with
    ⟨before, node, after, rfl, _, hzero, hput⟩ | ⟨hmiss, before, after, rfl, hput, _, _⟩
  · rw [hput]
    left
    simp
  · rw [hput]
    right
    refine ⟨hmiss, ?_⟩
    rw [map_append, map_append, map_cons]
    exact perm_middle

end

/-! ### The order of the keys -/

section

variable {order : κ → κ → ℤ} {kind : κ → Prop}

/-- Other items under the same key do not change the order. -/
theorem Ordered.replace {before after : List (Node κ δ)} {node : Node κ δ}
    (hordered : Ordered order (before ++ node :: after)) (items : List δ) :
    Ordered order (before ++ ⟨node.key, items⟩ :: after) := by
  simp only [Ordered, pairwise_append, pairwise_cons, forall_mem_cons] at hordered ⊢
  exact hordered

section

variable (horiented : Oriented order) (htrans : TransOn kind order)
  (hkinds : ∀ node ∈ nodes, kind node.key) (hkey : kind key)
  (hneg : ∀ node ∈ nodes, probe node.key < 0 ↔ order key node.key < 0)
  (hzero : ∀ node ∈ nodes, probe node.key = 0 ↔ order key node.key = 0)
  (hordered : Ordered order nodes)

include horiented htrans hkinds hkey hneg hzero hordered

/-- Assumes: the probe compares with the keys of the store as the key does. -/
theorem PutInto.ordered {change : List δ → List δ} {items : List δ} {stored : List (Node κ δ)}
    (hput : PutInto probe change ⟨key, items⟩ nodes stored) : Ordered order stored := by
  rcases hput with ⟨_, _, _, rfl, _, _, rfl⟩ | ⟨hmiss, before, after, rfl, rfl, hbefore, hafter⟩
  · exact hordered.replace _
  simp only [forall_mem_append] at hkinds hmiss hneg hzero
  simp only [Ordered, pairwise_append] at hordered
  obtain ⟨hfirst, hlast, hcross⟩ := hordered
  have hless : ∀ other ∈ before, order other.key key < 0 := by
    intro other hother
    have hne := mt (hzero.1 other hother).mpr (hmiss.1 other hother)
    have hnotneg := mt (hneg.1 other hother).mpr (not_lt.mpr (hbefore other hother))
    exact (horiented other.key key).mpr (by omega)
  have hgreater : ∀ other ∈ after, order key other.key < 0 := by
    intro other hother
    cases after with
    | nil => cases hother
    | cons head tail =>
      have hhead : order key head.key < 0 := (hneg.2 head (.head _)).mp (hafter head rfl)
      rcases mem_cons.mp hother with rfl | htail
      · exact hhead
      · exact htrans.lt_of_lt_of_le horiented hkey (hkinds.2 head (.head _))
          (hkinds.2 other (mem_cons_of_mem head htail)) hhead
          ((pairwise_cons.mp hlast).1 other htail).le
  refine pairwise_append.mpr ⟨hfirst, pairwise_cons.mpr ⟨hgreater, hlast⟩, ?_⟩
  intro m hm n hn
  rcases mem_cons.mp hn with rfl | hn
  · exact hless m hm
  · exact hcross m hm n hn

/-- Assumes: the probe compares with the keys of the store as the key does. -/
theorem Ordered.put : Ordered order (put probe cmp key item nodes) :=
  (put_cases probe cmp key item nodes).ordered horiented htrans hkinds hkey hneg hzero hordered

/-- Assumes: the probe compares with the keys of the store as the key does. -/
theorem Ordered.putOver : Ordered order (putOver probe key item nodes) :=
  (putOver_cases probe key item nodes).ordered horiented htrans hkinds hkey hneg hzero hordered

end

/-- The entries are in the order of their keys, and under one key in that of their items. -/
theorem Ordered.entries_sorted (hordered : Ordered order nodes) (htidy : Tidy cmp nodes) :
    (entries nodes).Pairwise fun a b ↦ order a.1 b.1 < 0 ∨ (a.1 = b.1 ∧ cmp a.2 b.2 < 0) := by
  refine pairwise_flatMap.mpr ⟨fun node hnode ↦ ?_, ?_⟩
  · exact pairwise_map.mpr ((htidy.sorted node hnode).imp fun hless ↦ .inr ⟨rfl, hless⟩)
  · refine List.Pairwise.imp ?_ hordered
    intro m n hless a ha b hb
    obtain ⟨_, _, rfl⟩ := mem_map.mp ha
    obtain ⟨_, _, rfl⟩ := mem_map.mp hb
    exact .inl hless

end

/-! ### Places -/

section

variable {before after : List (Node κ δ)} {node : Node κ δ} {less greater : List δ} {found : δ}
  {entry : κ × δ}

theorem entryAt_left {i : ℕ} (hi : i < before.length) (j : ℕ) (rest : List (Node κ δ)) :
    entryAt (before ++ rest) (i, j) = entryAt before (i, j) := by
  rw [entryAt, entryAt, getElem?_append_left hi]

theorem entryAt_middle (j : ℕ) : entryAt (before ++ node :: after) (before.length, j) =
    (node.items[j]?).map fun item ↦ (node.key, item) := by
  simp [entryAt]

theorem entryAt_right (i j : ℕ) :
    entryAt (before ++ node :: after) (before.length + (i + 1), j) = entryAt after (i, j) := by
  simp [entryAt, getElem?_append_right]

theorem mem_entries_iff_entryAt :
    entry ∈ entries nodes ↔ ∃ place, entryAt nodes place = some entry := by
  rw [mem_entries]
  constructor
  · rintro ⟨node, hnode, hkey, hitem⟩
    obtain ⟨i, hi⟩ := getElem?_of_mem hnode
    obtain ⟨j, hj⟩ := getElem?_of_mem hitem
    refine ⟨(i, j), ?_⟩
    rw [entryAt, hi, bind_some, hj, map_some, hkey]
  · rintro ⟨place, hplace⟩
    obtain ⟨node, hnode, hmapped⟩ := bind_eq_some_iff.mp hplace
    obtain ⟨item, hitem, rfl⟩ := map_eq_some_iff.mp hmapped
    exact ⟨node, mem_of_getElem? hnode, rfl, mem_of_getElem? hitem⟩

/-- The entries a scan comes by before a place. -/
theorem exists_scanBefore (hitems : node.items = less ++ found :: greater) :
    (∃ place, ScanBefore place (before.length, less.length) ∧
        entryAt (before ++ node :: after) place = some entry) ↔
      entry ∈ entries before ∨ (entry.1 = node.key ∧ entry.2 ∈ less) := by
  constructor
  · rintro ⟨⟨i, j⟩, hbefore, hentry⟩
    rcases hbefore with hi | ⟨hi, hj⟩
    · rw [entryAt_left hi] at hentry
      exact .inl (mem_entries_iff_entryAt.mpr ⟨_, hentry⟩)
    · replace hi : i = before.length := hi
      rw [hi, entryAt_middle, hitems, getElem?_append_left hj] at hentry
      obtain ⟨item, hitem, rfl⟩ := map_eq_some_iff.mp hentry
      exact .inr ⟨rfl, mem_of_getElem? hitem⟩
  · rintro (hentry | ⟨hkey, hitem⟩)
    · obtain ⟨⟨i, j⟩, hplace⟩ := mem_entries_iff_entryAt.mp hentry
      have hi : i < before.length := by
        obtain ⟨node, hnode, _⟩ := bind_eq_some_iff.mp hplace
        exact (List.getElem?_eq_some_iff.mp hnode).1
      exact ⟨(i, j), .inl hi, by rw [entryAt_left hi]; exact hplace⟩
    · obtain ⟨j, hj⟩ := getElem?_of_mem hitem
      have hlength : j < less.length := (List.getElem?_eq_some_iff.mp hj).1
      refine ⟨(before.length, j), .inr ⟨rfl, hlength⟩, ?_⟩
      rw [entryAt_middle, hitems, getElem?_append_left hlength, hj, map_some, ← hkey]

/-- The entries a scan comes by behind a place. -/
theorem exists_scanBehind (hitems : node.items = less ++ found :: greater) :
    (∃ place, ScanBefore (before.length, less.length) place ∧
        entryAt (before ++ node :: after) place = some entry) ↔
      entry ∈ entries after ∨ (entry.1 = node.key ∧ entry.2 ∈ greater) := by
  constructor
  · rintro ⟨⟨i, j⟩, hbehind, hentry⟩
    rcases hbehind with hi | ⟨hi, hj⟩
    · rw [show i = before.length + ((i - before.length - 1) + 1) by omega, entryAt_right] at hentry
      exact .inl (mem_entries_iff_entryAt.mpr ⟨_, hentry⟩)
    · replace hi : before.length = i := hi
      rw [← hi, entryAt_middle, hitems, getElem?_append_right hj.le,
        show j - less.length = (j - less.length - 1) + 1 by omega, getElem?_cons_succ] at hentry
      obtain ⟨item, hitem, rfl⟩ := map_eq_some_iff.mp hentry
      exact .inr ⟨rfl, mem_of_getElem? hitem⟩
  · rintro (hentry | ⟨hkey, hitem⟩)
    · obtain ⟨⟨i, j⟩, hplace⟩ := mem_entries_iff_entryAt.mp hentry
      refine ⟨(before.length + (i + 1), j), .inl (by simp), ?_⟩
      rwa [entryAt_right]
    · obtain ⟨j, hj⟩ := getElem?_of_mem hitem
      refine ⟨(before.length, less.length + (j + 1)), .inr ⟨rfl, by simp⟩, ?_⟩
      rw [entryAt_middle, hitems, getElem?_append_right (Nat.le_add_right _ _),
        Nat.add_sub_cancel_left, getElem?_cons_succ, hj, map_some, ← hkey]

end

/-! ### What the searches find -/

section

/-- `setRange` finds the first item of the first node that is not less than the probe. -/
theorem setRange_cases (probe : κ → ℤ) (nodes : List (Node κ δ)) :
    (setRange probe nodes = none ∧ ∀ node ∈ nodes, 0 < probe node.key) ∨
      ∃ before node after, nodes = before ++ node :: after ∧
        setRange probe nodes = some (before.length, 0) ∧ probe node.key ≤ 0 ∧
        ∀ other ∈ before, 0 < probe other.key := by
  rcases findIdx_cases (fun node : Node κ δ ↦ probe node.key ≤ 0) nodes with
    ⟨hnone, hall⟩ | ⟨before, node, after, hsplit, hfind, hnode, hbefore⟩
  · rw [setRange, hnone]
    exact .inl ⟨rfl, fun node hnode ↦ not_le.mp (hall node hnode)⟩
  · rw [setRange, hfind]
    exact .inr ⟨before, node, after, hsplit, rfl, hnode,
      fun other hother ↦ not_le.mp (hbefore other hother)⟩

theorem setRange_split {before after : List (Node κ δ)} {node : Node κ δ}
    (hbefore : ∀ other ∈ before, 0 < probe other.key) (hnode : probe node.key ≤ 0) :
    setRange probe (before ++ node :: after) = some (before.length, 0) := by
  have hnone : before.findIdx? (fun other ↦ probe other.key ≤ 0) = none := by
    rw [findIdx?_eq_none_iff]
    exact fun other hother ↦ by simpa using hbefore other hother
  rw [setRange, findIdx?_append, hnone, findIdx?_cons, if_pos (by simpa using hnode)]
  simp

/-- `getBothRange` finds the first item that is not less under the first node that is equal. -/
theorem getBothRange_cases (probe : κ → ℤ) (cmp : δ → δ → ℤ) (item : δ) (nodes : List (Node κ δ)) :
    (getBothRange probe cmp item nodes = none ∧ ∀ node ∈ nodes, probe node.key ≠ 0) ∨
      ∃ before node after, nodes = before ++ node :: after ∧ probe node.key = 0 ∧
        (∀ other ∈ before, probe other.key ≠ 0) ∧
        ((getBothRange probe cmp item nodes = none ∧ ∀ other ∈ node.items, 0 < cmp item other) ∨
          ∃ less found greater, node.items = less ++ found :: greater ∧
            getBothRange probe cmp item nodes = some (before.length, less.length) ∧
            cmp item found ≤ 0 ∧ ∀ other ∈ less, 0 < cmp item other) := by
  rcases findIdx_cases (fun node : Node κ δ ↦ probe node.key = 0) nodes with
    ⟨hnone, hall⟩ | ⟨before, node, after, hsplit, hfind, hnode, hbefore⟩
  · rw [getBothRange, hnone]
    exact .inl ⟨rfl, hall⟩
  · refine .inr ⟨before, node, after, hsplit, hnode, hbefore, ?_⟩
    have hget : nodes[before.length]? = some node := by
      rw [hsplit]
      simp
    rw [getBothRange, hfind, bind_some, hget, bind_some]
    rcases findIdx_cases (fun other : δ ↦ cmp item other ≤ 0) node.items with
      ⟨hnone, hall⟩ | ⟨less, found, greater, hitems, hplace, hfound, hless⟩
    · rw [hnone]
      exact .inl ⟨rfl, fun other hother ↦ not_le.mp (hall other hother)⟩
    · rw [hplace]
      exact .inr ⟨less, found, greater, hitems, rfl, hfound,
        fun other hother ↦ not_le.mp (hless other hother)⟩

end

/-! ### What `eraseAt` does -/

section

variable {order : κ → κ → ℤ} {before after : List (Node κ δ)} {node : Node κ δ}
  {less greater : List δ} {found : δ}

/-- The item at the place goes, and with the last item its node. -/
theorem eraseAt_split (hitems : node.items = less ++ found :: greater) :
    eraseAt (before ++ node :: after) (before.length, less.length) =
      if less ++ greater = [] then before ++ after
      else before ++ ⟨node.key, less ++ greater⟩ :: after := by
  have hget : (before ++ node :: after)[before.length]? = some node := by simp
  have hlength : node.items.length = (less ++ greater).length + 1 := by
    rw [hitems]
    simp only [length_append, length_cons]
    omega
  simp only [eraseAt, hget, hlength]
  by_cases hlast : less ++ greater = []
  · rw [if_pos hlast, if_pos (by rw [hlast]; exact le_refl 1),
      eraseIdx_append_of_length_le (Nat.le_refl _), Nat.sub_self, eraseIdx_cons_zero]
  · have hpos := length_pos_iff.mpr hlast
    rw [if_neg hlast, if_neg (by omega), hitems, eraseIdx_append_of_length_le (le_refl _),
      Nat.sub_self, eraseIdx_cons_zero, set_append_right _ _ (Nat.le_refl _), Nat.sub_self,
      set_cons_zero]

/-- What holds of every node and of the one with fewer items holds after a removal. -/
theorem forall_mem_eraseAt (hitems : node.items = less ++ found :: greater) {P : Node κ δ → Prop}
    (hnodes : ∀ other ∈ before ++ node :: after, P other)
    (hnode : less ++ greater ≠ [] → P node → P ⟨node.key, less ++ greater⟩) :
    ∀ other ∈ eraseAt (before ++ node :: after) (before.length, less.length), P other := by
  rw [eraseAt_split hitems]
  simp only [forall_mem_append, forall_mem_cons] at hnodes
  by_cases hlast : less ++ greater = []
  · rw [if_pos hlast]
    exact forall_mem_append.mpr ⟨hnodes.1, hnodes.2.2⟩
  · rw [if_neg hlast]
    exact forall_mem_append.mpr ⟨hnodes.1, forall_mem_cons.mpr ⟨hnode hlast hnodes.2.1, hnodes.2.2⟩⟩

theorem Tidy.eraseAt (htidy : Tidy cmp (before ++ node :: after))
    (hitems : node.items = less ++ found :: greater) :
    Tidy cmp (eraseAt (before ++ node :: after) (before.length, less.length)) := by
  refine ⟨forall_mem_eraseAt hitems htidy.filled fun hrest _ ↦ hrest,
    forall_mem_eraseAt hitems htidy.sorted fun _ hsorted ↦ ?_⟩
  rw [hitems] at hsorted
  exact hsorted.sublist (List.Sublist.append_left (sublist_cons_self found greater) less)

/-- What holds of the keys and the items of a store holds after a removal. -/
theorem eraseAt_forall (hitems : node.items = less ++ found :: greater) {P : κ → Prop}
    {Q : δ → Prop}
    (hnodes : ∀ other ∈ before ++ node :: after, P other.key ∧ ∀ item ∈ other.items, Q item) :
    ∀ other ∈ eraseAt (before ++ node :: after) (before.length, less.length),
      P other.key ∧ ∀ item ∈ other.items, Q item := by
  refine forall_mem_eraseAt hitems hnodes fun _ ⟨hkey, hall⟩ ↦ ⟨hkey, fun item hitem ↦ hall item ?_⟩
  rw [hitems]
  exact (List.Sublist.append_left (sublist_cons_self found greater) less).subset hitem

theorem Ordered.eraseAt (hordered : Ordered order (before ++ node :: after))
    (hitems : node.items = less ++ found :: greater) :
    Ordered order (eraseAt (before ++ node :: after) (before.length, less.length)) := by
  rw [eraseAt_split hitems]
  by_cases hlast : less ++ greater = []
  · rw [if_pos hlast]
    exact List.Pairwise.sublist
      (List.Sublist.append_left (sublist_cons_self node after) before) hordered
  · rw [if_neg hlast]
    exact hordered.replace _

/-- The keys of an ordered store are different. -/
theorem Ordered.keys_ne (horiented : Oriented order)
    (hordered : Ordered order (before ++ node :: after)) :
    (∀ other ∈ before, other.key ≠ node.key) ∧ ∀ other ∈ after, other.key ≠ node.key := by
  refine Foundation.keys_ne (pairwise_map.mpr (hordered.imp fun hlt hsame ↦ ?_))
  rw [hsame, horiented.self] at hlt
  exact absurd hlt (lt_irrefl 0)

/-- The entry at the place goes, and no other one. -/
theorem mem_entries_eraseAt (hcmp : LinearCmp cmp) (horiented : Oriented order)
    (htidy : Tidy cmp (before ++ node :: after))
    (hordered : Ordered order (before ++ node :: after))
    (hitems : node.items = less ++ found :: greater) (entry : κ × δ) :
    entry ∈ entries (eraseAt (before ++ node :: after) (before.length, less.length)) ↔
      entry ∈ entries (before ++ node :: after) ∧ entry ≠ (node.key, found) := by
  obtain ⟨hbefore, hafter⟩ := hordered.keys_ne horiented
  have hleft := key_ne_of_mem_entries hbefore entry
  have hright := key_ne_of_mem_entries hafter entry
  have hnodup : node.items.Nodup := sorted_nodup hcmp (htidy.sorted node (by simp))
  have hfound : found ∉ less ++ greater := by
    rw [hitems, nodup_middle] at hnodup
    exact (nodup_cons.mp hnodup).1
  have hrest : entry ∈ entries (eraseAt (before ++ node :: after) (before.length, less.length)) ↔
      entry ∈ entries before ∨ (entry.1 = node.key ∧ entry.2 ∈ less ++ greater) ∨
        entry ∈ entries after := by
    rw [eraseAt_split hitems]
    by_cases hlast : less ++ greater = []
    · rw [if_pos hlast, hlast, entries_append, mem_append]
      simp
    · rw [if_neg hlast, entries_append, mem_append, mem_entries_cons]
  have hitem : ∀ other, other ∈ node.items ↔ other = found ∨ other ∈ less ++ greater := by
    intro other
    rw [hitems, mem_append, mem_cons, mem_append]
    tauto
  have hother : entry.2 ∈ less ++ greater → entry.2 ≠ found := fun hin hsame ↦ hfound (hsame ▸ hin)
  rw [entries_append, mem_append, mem_entries_cons, hitem, hrest, ne_eq, Prod.ext_iff]
  tauto

end

/-! ### Stores under other keys -/

section

variable {ι : Type*} {f : ι → κ} {nodes : List (Node ι δ)} {key : ι}

theorem addAt_mapKey : addAt probe cmp item (nodes.map (Node.mapKey f)) =
    (addAt (fun k ↦ probe (f k)) cmp item nodes).map (Node.mapKey f) := by
  induction nodes with
  | nil => rfl
  | cons node rest ih =>
    rw [map_cons, addAt, addAt, ih, mapKey_key, mapKey_items]
    split_ifs
    · rfl
    · rfl

theorem addNode_mapKey (new : Node ι δ) : addNode probe (new.mapKey f) (nodes.map (Node.mapKey f)) =
    (addNode (fun k ↦ probe (f k)) new nodes).map (Node.mapKey f) := by
  induction nodes with
  | nil => rfl
  | cons node rest ih =>
    rw [map_cons, addNode, addNode, ih, mapKey_key]
    split_ifs
    · rfl
    · rfl

theorem put_mapKey : put probe cmp (f key) item (nodes.map (Node.mapKey f)) =
    (put (fun k ↦ probe (f k)) cmp key item nodes).map (Node.mapKey f) := by
  have hall : (∀ node ∈ nodes.map (Node.mapKey f), probe node.key ≠ 0) ↔
      ∀ node ∈ nodes, probe (f node.key) ≠ 0 := forall_mem_map
  by_cases hmiss : ∀ node ∈ nodes, probe (f node.key) ≠ 0
  · rw [put, put, if_pos (hall.mpr hmiss), if_pos hmiss]
    exact addNode_mapKey ⟨key, [item]⟩
  · rw [put, put, if_neg (mt hall.mp hmiss), if_neg hmiss, addAt_mapKey]

variable (place : ℕ × ℕ)

theorem entryAt_mapKey : entryAt (nodes.map (Node.mapKey f)) place =
    (entryAt nodes place).map fun entry ↦ (f entry.1, entry.2) := by
  rw [entryAt, entryAt, getElem?_map]
  cases hnode : nodes[place.1]? with
  | none => rfl
  | some node =>
    show (node.items[place.2]?).map _ = ((node.items[place.2]?).map _).map _
    rw [Option.map_map]
    rfl

theorem setRange_mapKey : setRange probe (nodes.map (Node.mapKey f)) =
    setRange (fun k ↦ probe (f k)) nodes := by
  rw [setRange, setRange, findIdx?_map]
  rfl

theorem getBothRange_mapKey : getBothRange probe cmp item (nodes.map (Node.mapKey f)) =
    getBothRange (fun k ↦ probe (f k)) cmp item nodes := by
  rw [getBothRange, getBothRange, findIdx?_map]
  refine congrArg (Option.bind _) (funext fun i ↦ ?_)
  rw [getElem?_map]
  cases nodes[i]? <;> rfl

theorem eraseAt_mapKey : eraseAt (nodes.map (Node.mapKey f)) place =
    (eraseAt nodes place).map (Node.mapKey f) := by
  rw [eraseAt, eraseAt, getElem?_map]
  cases hnode : nodes[place.1]? with
  | none => rfl
  | some node =>
    show (if node.items.length ≤ 1 then _ else _) =
      List.map _ (if node.items.length ≤ 1 then _ else _)
    split_ifs
    · exact eraseIdx_map _ _ _
    · rw [map_set]
      rfl

theorem entries_mapKey : entries (nodes.map (Node.mapKey f)) =
    (entries nodes).map fun entry ↦ (f entry.1, entry.2) := by
  rw [entries, entries, flatMap_map, map_flatMap]
  refine congrArg (fun g ↦ nodes.flatMap g) (funext fun node ↦ ?_)
  rw [List.map_map]
  rfl

end

end LumoSQL.Foundation
