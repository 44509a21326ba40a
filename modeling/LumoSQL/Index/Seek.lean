import LumoSQL.Index.Order
import LumoSQL.Table.Rows

/-!
# Where a search leaves the cursor

After a search the opcodes step from the entry the cursor is at, and `*pRes` tells them on which
side of the key it is. `SeekContract` is what they rely on: the cursor is at an entry, `*pRes` has
the sign of its comparison with the key, and no other entry is between the two in the order of a
scan.

A search in a table leaves the cursor at the slot of the key in a leaf page, which is behind the
last entry of the page if all of them are less (`seek_table`). A search in an index leads to the
first key that is not less, so it fails if there is none (`seek_columns`). With a rowid behind the
columns it leads to the first item that is not less under the equal key, and if there is none to the
first item of all (`seek_rowid`), while the items are in the order of their bytes and not of the
rowids. `seek_contract_iff` says for both when the contract is kept.
-/

namespace LumoSQL

open Foundation List Option

/-- The cursor is at an entry, `*pRes` has the sign of the comparison of the entry with the key, and
no entry lies between the two. -/
def SeekContract {κ : Type} (nodes : List (Node κ Bytes)) (cmp : κ × Bytes → ℤ)
    (place : Option (ℕ × ℕ)) (res : ℤ) : Prop :=
  ∃ slot entry, place = some slot ∧ entryAt nodes slot = some entry ∧
    (res < 0 ↔ cmp entry < 0) ∧ (res = 0 ↔ cmp entry = 0) ∧
    (cmp entry < 0 → ∀ other, (∃ behind, ScanBefore slot behind ∧ entryAt nodes behind =
      some other) →
      0 ≤ cmp other) ∧
    (0 < cmp entry → ∀ other, (∃ front, ScanBefore front slot ∧ entryAt nodes front = some other) →
      cmp other ≤ 0)

section

variable {κ : Type} {nodes before after : List (Node κ Bytes)} {node : Node κ Bytes}
  {less greater : List Bytes} {found : Bytes} {cmp : κ × Bytes → ℤ}

theorem not_seekContract_none (nodes : List (Node κ Bytes)) (cmp : κ × Bytes → ℤ) (res : ℤ) :
    ¬ SeekContract nodes cmp none res := by
  rintro ⟨slot, _, hplace, _⟩
  cases hplace

/-- The contract at a place that is reached with the comparison of its entry. -/
theorem seekContract_at (hitems : node.items = less ++ found :: greater) :
    SeekContract (before ++ node :: after) cmp (some (before.length, less.length))
        (cmp (node.key, found)) ↔
      (cmp (node.key, found) < 0 → ∀ other, (other ∈ entries after ∨
        (other.1 = node.key ∧ other.2 ∈ greater)) → 0 ≤ cmp other) ∧
      (0 < cmp (node.key, found) → ∀ other, (other ∈ entries before ∨
        (other.1 = node.key ∧ other.2 ∈ less)) → cmp other ≤ 0) := by
  have hentry : entryAt (before ++ node :: after) (before.length, less.length) =
      some (node.key, found) := by
    rw [entryAt_middle, hitems]
    simp
  constructor
  · rintro ⟨slot, entry, hslot, hat, _, _, hbehind, hfront⟩
    cases hslot
    obtain rfl := some.inj (hat.symm.trans hentry)
    exact ⟨fun hneg other hother ↦ hbehind hneg other ((exists_scanBehind hitems).mpr hother),
      fun hpos other hother ↦ hfront hpos other ((exists_scanBefore hitems).mpr hother)⟩
  · rintro ⟨hbehind, hfront⟩
    exact ⟨_, _, rfl, hentry, Iff.rfl, Iff.rfl,
      fun hneg other hother ↦ hbehind hneg other ((exists_scanBehind hitems).mp hother),
      fun hpos other hother ↦ hfront hpos other ((exists_scanBefore hitems).mp hother)⟩

end

/-! ### Tables -/

/-- A table of rows that are not negative, and a search in it for a row. The leaf page that holds
the row, or would hold it, has the rows before it in front and those behind it at its back. -/
structure TableSearch where
  front : List (Node UInt64 Bytes)
  page : List (Node UInt64 Bytes)
  back : List (Node UInt64 Bytes)
  intKey : Int64
  nonempty : front ++ (page ++ back) ≠ []
  ordered : Ordered integerProbe (front ++ (page ++ back))
  rows : ∀ node ∈ front ++ (page ++ back), ∃ item, node.items = [item]
  nonneg : ∀ node ∈ front ++ (page ++ back), 0 ≤ node.key.toInt64.toInt
  keyNonneg : 0 ≤ intKey.toInt
  frontLess : ∀ node ∈ front, 0 < integerProbe intKey.toUInt64 node.key
  backGreater : ∀ node ∈ back, integerProbe intKey.toUInt64 node.key < 0

namespace TableSearch

def nodes (s : TableSearch) : List (Node UInt64 Bytes) := s.front ++ (s.page ++ s.back)

/-- The slot of the row is behind the last entry of its page. -/
def past (s : TableSearch) : Bool :=
  decide (∀ node ∈ s.page, 0 < integerProbe s.intKey.toUInt64 node.key)

def compare (s : TableSearch) (entry : UInt64 × Bytes) : ℤ :=
  compareNumbers entry.1.toInt64.toInt s.intKey.toInt

def Lands (s : TableSearch) : Prop :=
  ∃ node ∈ s.page, integerProbe s.intKey.toUInt64 node.key ≤ 0

end TableSearch

section

variable (s : TableSearch)

theorem TableSearch.compare_eq {node : Node UInt64 Bytes} (hnode : node ∈ s.nodes) (item : Bytes) :
    s.compare (node.key, item) = -integerProbe s.intKey.toUInt64 node.key := by
  have hrow := s.nonneg node hnode
  have hrowInt := toInt64_toInt node.key
  have hkeyInt := toUInt64_toNat s.intKey
  have hlt := node.key.toNat_lt
  rw [if_pos s.keyNonneg] at hkeyInt
  rw [integerProbe, hkeyInt]
  show compareNumbers node.key.toInt64.toInt s.intKey.toInt = _
  unfold compareNumbers
  split_ifs at hrowInt ⊢ <;> omega

theorem TableSearch.mdEntries_ne : (MdbTable.integerKey s.nodes).mdEntries ≠ 0 := by
  obtain ⟨node, hnode⟩ := exists_mem_of_ne_nil _ s.nonempty
  obtain ⟨item, hitem⟩ := s.rows node hnode
  have hmem : (node.key, item) ∈ entries s.nodes :=
    mem_entries.mpr ⟨node, hnode, rfl, by rw [hitem]; exact mem_singleton_self item⟩
  exact (length_pos_of_mem hmem).ne'

/-- A search in a table keeps the contract exactly if the page of the row has it or a greater one.
-/
theorem seek_table (hash : MdbHash) (info : KeyInfo) (format : ℕ) (index mem : ℕ → UInt8)
    (pUnKey : Option UnpackedRecord) :
    ∃ moved, sqlite3BtreeMovetoUnpacked hash info format s.past index (.integerKey s.nodes) mem
        pUnKey s.intKey = some moved ∧ moved.rc = .ok ∧
      (SeekContract s.nodes s.compare moved.place moved.res ↔ s.Lands) := by
  have hcompare : ∀ node ∈ s.nodes, ∀ item, s.compare (node.key, item) =
      -integerProbe s.intKey.toUInt64 node.key := fun node hnode ↦ s.compare_eq hnode
  have hone : ∀ key, integerProbe s.intKey.toUInt64 key < 0 →
      -integerProbe s.intKey.toUInt64 key = 1 := by
    intro key hneg
    rw [integerProbe] at hneg ⊢
    rw [compareNumbers, if_pos (compareNumbers_neg.mp hneg)]
    rfl
  have hfront := s.frontLess
  have hback := s.backGreater
  unfold sqlite3BtreeMovetoUnpacked TableSearch.past TableSearch.Lands
  rw [if_neg s.mdEntries_ne]
  simp only [movetoRow]
  generalize integerProbe s.intKey.toUInt64 = probe at hcompare hone hfront hback ⊢
  have hcontract : ∀ before node after, s.nodes = before ++ node :: after → probe node.key ≤ 0 →
      (probe node.key < 0 → ∀ other ∈ before, 0 ≤ probe other.key) →
        SeekContract s.nodes s.compare (some (before.length, 0)) (-probe node.key) := by
    intro before node after hsplit hle hbefore
    have hin : node ∈ s.nodes := by
      rw [hsplit]
      simp
    obtain ⟨item, hitem⟩ := s.rows node hin
    have hitems : node.items = [] ++ item :: [] := hitem
    rw [← hcompare node hin item, hsplit]
    refine (seekContract_at hitems).mpr ⟨fun hneg ↦ ?_, fun hpos other hother ↦ ?_⟩
    · rw [hcompare node hin] at hneg
      omega
    · obtain ⟨third, hthird, hkey, _⟩ := mem_entries.mp
        (hother.resolve_right fun hnil ↦ not_mem_nil hnil.2)
      have hthirdIn : third ∈ s.nodes := by
        rw [hsplit]
        exact mem_append_left _ hthird
      have hthirdCompare := hcompare third hthirdIn other.2
      rw [hkey, Prod.mk.eta] at hthirdCompare
      rw [hcompare node hin] at hpos
      have hless := hbefore (by omega) third hthird
      rw [hkey] at hless
      omega
  rcases findIdx_cases (fun node : Node UInt64 Bytes ↦ probe node.key = 0) s.nodes with
    ⟨hnone, hmiss⟩ | ⟨before, node, after, hsplit, hfind, hzero, hbefore⟩
  · simp only [hnone]
    by_cases hpast : ∀ node ∈ s.page, 0 < probe node.key
    · -- the slot is behind the last entry of its page
      rw [decide_eq_true hpast]
      refine ⟨_, rfl, rfl, fun hkept ↦ absurd hkept (not_seekContract_none _ _ _), ?_⟩
      rintro ⟨node, hnode, hle⟩
      exact absurd (hpast node hnode) (not_lt.mpr hle)
    · rw [decide_eq_false hpast]
      refine ⟨_, rfl, rfl, ?_⟩
      obtain ⟨greater, hgreater, hle⟩ : ∃ node ∈ s.page, probe node.key ≤ 0 := by
        simpa using hpast
      have hin : greater ∈ s.nodes := mem_append_right _ (mem_append_left _ hgreater)
      refine ⟨fun _ ↦ ⟨greater, hgreater, hle⟩, fun _ ↦ ?_⟩
      rcases findIdx_cases (fun node : Node UInt64 Bytes ↦ probe node.key < 0) s.nodes with
        ⟨_, hall⟩ | ⟨before, node, after, hsplit, hfind, hneg, hbefore⟩
      · exact absurd (lt_of_le_of_ne hle (hmiss greater hin)) (hall greater hin)
      · have hkept := hcontract before node after hsplit hneg.le
          fun _ other hother ↦ not_lt.mp (hbefore other hother)
        rw [hone _ hneg] at hkept
        simp only [hfind]
        exact hkept
  · -- the row is there
    have hpage : node ∈ s.page := by
      have hin : node ∈ s.nodes := by
        rw [hsplit]
        simp
      rcases mem_append.mp hin with hin | hin
      · exact absurd hzero (hfront node hin).ne'
      · exact (mem_append.mp hin).resolve_right fun hin ↦ (hback node hin).ne hzero
    simp only [hfind]
    refine ⟨_, rfl, rfl, fun _ ↦ ⟨node, hpage, hzero.le⟩, fun _ ↦ ?_⟩
    have hkept := hcontract before node after hsplit hzero.le fun hneg ↦ absurd hzero hneg.ne
    rwa [hzero] at hkept

end

/-! ### Indexes -/

def Sibling (pKeyInfo : KeyInfo) (nodes : List (Node IndexKey Bytes)) (fields : List Value)
    (entry : IndexKey × Bytes) : Prop :=
  entry ∈ entries nodes ∧ lexCompare pKeyInfo.compareField 0 fields entry.1.fields = 0

/-- The entry of the least item that is not less than the item, or the one of the least item of all
if there is none. -/
def NearestItem (siblings : IndexKey × Bytes → Prop) (item : Bytes)
    (entry : IndexKey × Bytes) : Prop :=
  siblings entry ∧ ((compareBytes item entry.2 ≤ 0 ∧
        ∀ other, siblings other → compareBytes item other.2 ≤ 0 →
          compareBytes entry.2 other.2 ≤ 0) ∨
      ((∀ other, siblings other → 0 < compareBytes item other.2) ∧
        ∀ other, siblings other → compareBytes entry.2 other.2 ≤ 0))

/-- Among the entries with the columns of the search none is between the nearest one and the search:
none with a greater item is less than the search if that one is, and none with a smaller item is
greater if that one is. A search with the flag `UNPACKED_INCRKEY` leads past all of them, so none
may be greater than it. -/
def RowidSeek (cmp : IndexKey × Bytes → ℤ) (siblings : IndexKey × Bytes → Prop) (incrKey : Bool)
    (item : Bytes) : Prop :=
  if incrKey then ∀ entry, siblings entry → cmp entry ≤ 0
  else
    ∀ entry, NearestItem siblings item entry →
      (cmp entry < 0 → ∀ other, siblings other → compareBytes entry.2 other.2 < 0 → 0 ≤ cmp other) ∧
      (0 < cmp entry → ∀ other, siblings other → compareBytes other.2 entry.2 < 0 → cmp other ≤ 0)

/-- If there is an entry with the item, the nearest one has it. -/
theorem NearestItem.eq_of_mem {siblings : IndexKey × Bytes → Prop} {entry other : IndexKey × Bytes}
    (hnearest : NearestItem siblings other.2 entry) (hother : siblings other) :
    entry.2 = other.2 := by
  have hself := compareBytes_oriented.self other.2
  rcases hnearest.2 with ⟨hle, hleast⟩ | ⟨hall, _⟩
  · have hge := (compareBytes_oriented.nonneg_iff other.2 entry.2).mpr
      (hleast other hother hself.le)
    exact (compareBytes_eq_zero.mp (le_antisymm hle hge)).symm
  · exact absurd hself (hall other hother).ne'

section

variable {info : KeyInfo} {fields values : List Value}

/-- A record comes before a search exactly if its key does, if there are no more fields to compare
than the key has. -/
theorem compareFields_columns (hle : values.length ≤ fields.length) (v : Value)
    (incrKey prefixMatch : Bool) : (compareFields info fields values incrKey prefixMatch < 0 →
        compareFields info (fields ++ [v]) values incrKey prefixMatch < 0) ∧
      (0 ≤ compareFields info fields values incrKey prefixMatch →
        0 ≤ compareFields info (fields ++ [v]) values incrKey prefixMatch) := by
  have hlonger : values.length < (fields ++ [v]).length := by
    rw [length_append, length_singleton]
    omega
  simp only [compareFields, lexCompare_shorter _ hle, if_pos hlonger]
  split_ifs <;> omega

/-- The comparison of a key with a search that has a rowid behind the columns. -/
theorem compareFields_key (hlength : fields.length = values.length) (rowid : Value)
    (incrKey prefixMatch : Bool) :
    compareFields info fields (values ++ [rowid]) incrKey prefixMatch =
      if lexCompare info.compareField 0 fields values ≠ 0 then
        lexCompare info.compareField 0 fields values
      else if incrKey then -1 else 0 := by
  have hshorter : ¬ (values ++ [rowid]).length < fields.length := by
    rw [length_append, hlength]
    omega
  simp only [compareFields, lexCompare_longer _ hlength.le, if_neg hshorter, ite_self]

/-- The comparison of a record with a search that has a rowid behind the columns. -/
theorem compareFields_rowid (hlength : fields.length = values.length) (v rowid : Value)
    (incrKey prefixMatch : Bool) :
    compareFields info (fields ++ [v]) (values ++ [rowid]) incrKey prefixMatch =
      if lexCompare info.compareField 0 fields values ≠ 0 then
        lexCompare info.compareField 0 fields values
      else if info.compareField fields.length v rowid ≠ 0 then
        info.compareField fields.length v rowid
      else if incrKey then -1 else 0 := by
  have hshorter : ¬ (values ++ [rowid]).length < (fields ++ [v]).length := by
    rw [length_append, length_append, hlength]
    exact lt_irrefl _
  simp only [compareFields, lexCompare_snoc _ hlength, if_neg hshorter, ite_self, Nat.zero_add]
  split_ifs <;> rfl

end

section

variable {hash : MdbHash} {info : KeyInfo} {kind : ℕ → Value → Prop} {format : ℕ}
  {mem mem' : ℕ → UInt8} {pUnKey : UnpackedRecord} {aMem : List Mem} {val : Option MdbVal}
  {nodes : List (Node IndexKey Bytes)}

variable {before after : List (Node IndexKey Bytes)} {fields : List Value}
  {less greater : List Bytes} {n : ℕ} {node : Node IndexKey Bytes}

/-- An entry of a store is compared by the fields of its key and the value of its item. -/
theorem IndexStore.entryCompare_eq (hstore : IndexStore info kind n nodes)
    {entry : IndexKey × Bytes} (hentry : entry ∈ entries nodes) (index mem : ℕ → UInt8)
    (pUnKey : UnpackedRecord) : FieldsOf kind n entry.1.fields ∧ ∃ last, ItemOf last entry.2 ∧
      entryCompare info index mem pUnKey entry =
        compareFields info (entry.1.fields ++ [last]) (pUnKey.aMem.map (Mem.value mem))
          pUnKey.incrKey pUnKey.prefixMatch := by
  obtain ⟨node, hnode, hkey, hitem⟩ := mem_entries.mp hentry
  obtain ⟨last, hlast⟩ := hstore.items node hnode entry.2 hitem
  refine ⟨hkey ▸ hstore.fields node hnode, last, hlast, ?_⟩
  exact fetch_compare info index mem entry.1 hlast pUnKey

/-- A search of columns keeps the contract exactly if some key is not less.
Assumes: at most as many fields as there are columns. -/
theorem seek_columns (hstore : IndexStore info kind info.nField nodes)
    (hsquash : squashIndexKey hash mem pUnKey.aMem format none = (mem', aMem, val))
    (hcount : aMem.length ≤ info.nField) (past : Bool) (index : ℕ → UInt8) (intKey : Int64) :
    ∃ moved, sqlite3BtreeMovetoUnpacked hash info format past index (indexTable nodes) mem
        (some pUnKey) intKey = some moved ∧ moved.rc = .ok ∧
      (SeekContract nodes (entryCompare info index mem' { pUnKey with aMem := aMem })
          moved.place
          moved.res ↔
        ∃ node ∈ nodes, 0 ≤ compareFields info node.key.fields (aMem.map (Mem.value mem'))
          pUnKey.incrKey pUnKey.prefixMatch) := by
  have hsigns : ∀ entry ∈ entries nodes,
      (compareFields info entry.1.fields (aMem.map (Mem.value mem')) pUnKey.incrKey
          pUnKey.prefixMatch < 0 →
        entryCompare info index mem' { pUnKey with aMem := aMem } entry < 0) ∧
      (0 ≤ compareFields info entry.1.fields (aMem.map (Mem.value mem')) pUnKey.incrKey
          pUnKey.prefixMatch →
        0 ≤ entryCompare info index mem' { pUnKey with aMem := aMem } entry) := by
    intro entry hentry
    obtain ⟨hfields, last, _, hcompare⟩ := hstore.entryCompare_eq hentry index mem'
      { pUnKey with aMem := aMem }
    rw [hcompare]
    refine compareFields_columns ?_ last _ _
    rwa [length_map, hfields.1]
  obtain ⟨moved, hmoved, hrc, ⟨hat, _, hall⟩ |
      ⟨before, node, after, found, greater, rfl, hitems, hnode, hbefore, hat, hres⟩⟩ :=
    moveto_setRange hstore hsquash rfl (.inl (by rw [length_map]; exact hcount)) past index intKey
  · refine ⟨moved, hmoved, hrc, ?_⟩
    rw [hat]
    refine ⟨fun hkept ↦ absurd hkept (not_seekContract_none _ _ _), ?_⟩
    rintro ⟨node, hnode, hle⟩
    have hpos := hall node hnode
    rw [probeFields] at hpos
    omega
  · have hin : node ∈ before ++ node :: after := by simp
    rw [probeFields] at hnode
    refine ⟨moved, hmoved, hrc, fun _ ↦ ⟨node, hin, by omega⟩, fun _ ↦ ?_⟩
    rw [hat, hres]
    refine (seekContract_at hitems).mpr ?_
    have hentry : (node.key, found) ∈ entries (before ++ node :: after) :=
      mem_entries.mpr ⟨node, hin, rfl, by rw [hitems]; simp⟩
    have hnonneg := (hsigns _ hentry).2 (by show 0 ≤ compareFields _ node.key.fields _ _ _; omega)
    refine ⟨fun hneg ↦ absurd hneg (not_lt.mpr hnonneg), fun _ other hother ↦ ?_⟩
    rcases hother with hother | ⟨_, hnil⟩
    · obtain ⟨third, hthird, hkey, _⟩ := mem_entries.mp hother
      have hless := hbefore third hthird
      rw [probeFields, hkey] at hless
      have hotherIn : other ∈ entries (before ++ node :: after) := by
        rw [entries_append]
        exact mem_append_left _ hother
      exact ((hsigns other hotherIn).1 (by omega)).le
    · cases hnil

/-- The entries with the columns of a search are those of the key that is equal. -/
theorem sibling_iff (htrans : ∀ i, TransOn (kind i) (info.compareField i))
    (hstore : IndexStore info kind n (before ++ node :: after)) (hfields : FieldsOf kind n fields)
    (hsame : lexCompare info.compareField 0 fields node.key.fields = 0)
    (entry : IndexKey × Bytes) : Sibling info (before ++ node :: after) fields entry ↔
      entry.1 = node.key ∧ entry.2 ∈ node.items := by
  constructor
  · rintro ⟨hentry, hzero⟩
    exact ⟨hstore.key_unique htrans hfields hsame hentry hzero,
      (hstore.stored_iff htrans hfields hsame).mp ⟨entry, hentry, hzero, rfl⟩⟩
  · rintro ⟨hkey, hitem⟩
    refine ⟨mem_entries.mpr ⟨node, by simp, hkey.symm, hitem⟩, ?_⟩
    rwa [hkey]

section

variable {found item : Bytes} (htrans : ∀ i, TransOn (kind i) (info.compareField i))
  (hstore : IndexStore info kind n (before ++ node :: after))
  (hfields : FieldsOf kind n fields)
  (hsame : lexCompare info.compareField 0 fields node.key.fields = 0)
  (hitems : node.items = less ++ found :: greater)
  (hnearest : (compareBytes item found ≤ 0 ∧ ∀ other ∈ less, 0 < compareBytes item other) ∨
    (less = [] ∧ ∀ other ∈ node.items, 0 < compareBytes item other))

include htrans hstore hfields hsame hitems hnearest

/-- The item a search with a rowid leads to is the nearest one. -/
theorem nearestItem_iff (entry : IndexKey × Bytes) :
    NearestItem (Sibling info (before ++ node :: after) fields) item entry ↔
      entry = (node.key, found) := by
  have hsibling := sibling_iff htrans hstore hfields hsame
  have hsorted := hstore.tidy.sorted node (by simp)
  rw [hitems] at hsorted
  have hself : NearestItem (Sibling info (before ++ node :: after) fields) item
      (node.key, found) := by
    refine ⟨(hsibling _).mpr ⟨rfl, by rw [hitems]; simp⟩, ?_⟩
    have hle : ∀ other ∈ node.items, other ∉ less → compareBytes found other ≤ 0 := by
      intro other hother hnot
      have hnotless := mt (sorted_split compareBytes_linear hsorted (hitems ▸ hother)).2.mp hnot
      exact (compareBytes_oriented.nonneg_iff other found).mp (not_lt.mp hnotless)
    rcases hnearest with ⟨hat, hless⟩ | ⟨rfl, hall⟩
    · refine .inl ⟨hat, fun other hother hnotless ↦ ?_⟩
      have hin := ((hsibling other).mp hother).2
      exact hle other.2 hin fun hlessIn ↦ absurd (hless other.2 hlessIn) (not_lt.mpr hnotless)
    · exact .inr ⟨fun other hother ↦ hall other.2 ((hsibling other).mp hother).2,
        fun other hother ↦ hle other.2 ((hsibling other).mp hother).2 not_mem_nil⟩
  constructor
  · rintro ⟨hentry, hchoice⟩
    obtain ⟨hkey, hin⟩ := (hsibling entry).mp hentry
    have hleast : compareBytes entry.2 found ≤ 0 ∧ compareBytes found entry.2 ≤ 0 := by
      rcases hself.2 with ⟨hat, hleastFound⟩ | ⟨hall, hleastFound⟩
      · rcases hchoice with ⟨hatEntry, hleastEntry⟩ | ⟨hallEntry, _⟩
        · exact ⟨hleastEntry _ hself.1 hat, hleastFound entry hentry hatEntry⟩
        · exact absurd (hallEntry _ hself.1) (not_lt.mpr hat)
      · rcases hchoice with ⟨hatEntry, _⟩ | ⟨_, hleastEntry⟩
        · exact absurd (hall entry hentry) (not_lt.mpr hatEntry)
        · exact ⟨hleastEntry _ hself.1, hleastFound entry hentry⟩
    have hzero := le_antisymm hleast.1
      ((compareBytes_oriented.nonneg_iff entry.2 found).mpr hleast.2)
    exact Prod.ext hkey (compareBytes_eq_zero.mp hzero)
  · rintro rfl
    exact hself

/-- At the item a search with a rowid leads to, the contract is about the entries of its key.
Assumes: entries in front of the key are not greater than the search and those behind not less. -/
theorem rowidSeek_iff {cmp : IndexKey × Bytes → ℤ} {incrKey : Bool} (hincrKey : ¬ incrKey = true)
    (hbefore : ∀ entry ∈ entries before, cmp entry ≤ 0)
    (hafter : ∀ entry ∈ entries after, 0 ≤ cmp entry) :
    SeekContract (before ++ node :: after) cmp (some (before.length, less.length))
        (cmp (node.key, found)) ↔
      RowidSeek cmp (Sibling info (before ++ node :: after) fields) incrKey item := by
  have hsibling := sibling_iff htrans hstore hfields hsame
  have hsorted := hstore.tidy.sorted node (by simp)
  rw [hitems] at hsorted
  have hmember : ∀ other ∈ node.items, (compareBytes found other < 0 ↔ other ∈ greater) ∧
      (compareBytes other found < 0 ↔ other ∈ less) := fun other hother ↦
    sorted_split compareBytes_linear hsorted (hitems ▸ hother)
  rw [seekContract_at hitems, RowidSeek, if_neg hincrKey]
  simp only [nearestItem_iff htrans hstore hfields hsame hitems hnearest, forall_eq]
  refine and_congr (imp_congr_right fun _ ↦ forall_congr' fun other ↦ ?_)
    (imp_congr_right fun _ ↦ forall_congr' fun other ↦ ?_)
  · constructor
    · intro hbehind hother hlt
      obtain ⟨hkey, hin⟩ := (hsibling other).mp hother
      exact hbehind (.inr ⟨hkey, (hmember other.2 hin).1.mp hlt⟩)
    · rintro hbehind (hother | ⟨hkey, hgreater⟩)
      · exact hafter other hother
      · have hin : other.2 ∈ node.items := by
          rw [hitems]
          exact mem_append_right _ (.tail _ hgreater)
        exact hbehind ((hsibling other).mpr ⟨hkey, hin⟩) ((hmember other.2 hin).1.mpr hgreater)
  · constructor
    · intro hfront hother hlt
      obtain ⟨hkey, hin⟩ := (hsibling other).mp hother
      exact hfront (.inr ⟨hkey, (hmember other.2 hin).2.mp hlt⟩)
    · rintro hfront (hother | ⟨hkey, hless⟩)
      · exact hbefore other hother
      · have hin : other.2 ∈ node.items := by
          rw [hitems]
          exact mem_append_left _ hless
        exact hfront ((hsibling other).mpr ⟨hkey, hin⟩) ((hmember other.2 hin).2.mpr hless)

end

section

variable {fields : List Value} {last : Value}

/-- How the entries of a store compare with a search that has a rowid behind the columns: by the
columns, if these differ. -/
theorem IndexStore.entryCompare_sign (hstore : IndexStore info kind n nodes)
    (hfields : FieldsOf kind n fields)
    (hvalues : aMem.map (Mem.value mem') = fields ++ [last]) (index : ℕ → UInt8)
    {entry : IndexKey × Bytes} (hentry : entry ∈ entries nodes) :
    (lexCompare info.compareField 0 entry.1.fields fields < 0 →
        entryCompare info index mem' { pUnKey with aMem := aMem } entry < 0) ∧
      (0 < lexCompare info.compareField 0 entry.1.fields fields →
        0 < entryCompare info index mem' { pUnKey with aMem := aMem } entry) := by
  obtain ⟨hentryFields, v, _, hcompare⟩ := hstore.entryCompare_eq hentry index mem'
    { pUnKey with aMem := aMem }
  rw [hcompare, hvalues, compareFields_rowid (hentryFields.1.trans hfields.1.symm)]
  refine ⟨fun hneg ↦ ?_, fun hpos ↦ ?_⟩
  · rwa [if_pos hneg.ne]
  · rwa [if_pos hpos.ne']

/-- An entry with the columns of a search is compared by the value behind them. -/
theorem Sibling.entryCompare_eq {entry : IndexKey × Bytes} {v : Value}
    (hsibling : Sibling info nodes fields entry) (hlength : entry.1.fields.length = fields.length)
    (hvalues : aMem.map (Mem.value mem') = fields ++ [last]) (hincrKey : pUnKey.incrKey = false)
    (hitem : ItemOf v entry.2) (index : ℕ → UInt8) :
    entryCompare info index mem' { pUnKey with aMem := aMem } entry =
      info.compareField fields.length v last := by
  have hequal := ((lexCompareField_oriented info).eq_zero_comm _ _).mp hsibling.2
  refine (fetch_compare info index mem' entry.1 hitem _).trans ?_
  rw [hvalues, compareFields_rowid hlength, hequal, hincrKey, hlength, if_neg (not_not_intro rfl),
    if_neg Bool.false_ne_true]
  split_ifs with hother
  · rfl
  · exact (not_not.mp hother).symm

/-- A search that has a value behind the columns reports a difference if no entry has these. -/
theorem moveto_miss (hstore : IndexStore info kind n nodes) (hfields : FieldsOf kind n fields)
    (hsquash : squashIndexKey hash mem pUnKey.aMem format none = (mem', aMem, val))
    (hvalues : aMem.map (Mem.value mem') = fields ++ [last]) (hincrKey : pUnKey.incrKey = false)
    (hmiss : ∀ entry, ¬ Sibling info nodes fields entry) (past : Bool) (index : ℕ → UInt8)
    (intKey : Int64) :
    ∃ moved, sqlite3BtreeMovetoUnpacked hash info format past index (indexTable nodes) mem
        (some pUnKey) intKey = some moved ∧ moved.rc = .ok ∧ moved.res ≠ 0 := by
  have hdiffers : ∀ node ∈ nodes,
      lexCompare info.compareField 0 node.key.fields fields ≠ 0 := by
    intro node hnode hzero
    obtain ⟨found, greater, hitems⟩ := hstore.first_item hnode
    exact hmiss (node.key, found) ⟨mem_entries.mpr ⟨node, hnode, rfl, by rw [hitems]; simp⟩,
      ((lexCompareField_oriented info).eq_zero_comm _ _).mp hzero⟩
  have hprobe : ∀ node ∈ nodes, probeFields info (fields ++ [last]) pUnKey.incrKey
      pUnKey.prefixMatch node.key ≠ 0 := by
    intro node hnode
    rw [hincrKey, probeFields_eq ((hstore.fields node hnode).1.trans hfields.1.symm)]
    exact neg_ne_zero.mpr (hdiffers node hnode)
  obtain ⟨moved, hmoved, hrc, ⟨_, hres, _⟩ |
      ⟨before, node, after, found, greater, rfl, hitems, _, _, _, hres⟩⟩ :=
    moveto_setRange hstore hsquash hvalues (.inr hprobe) past index intKey
  · exact ⟨moved, hmoved, hrc, by rw [hres]; decide⟩
  · have hin : node ∈ before ++ node :: after := by simp
    have hentry : (node.key, found) ∈ entries (before ++ node :: after) :=
      mem_entries.mpr ⟨node, hin, rfl, by rw [hitems]; simp⟩
    refine ⟨moved, hmoved, hrc, ?_⟩
    rw [hres]
    rcases lt_or_gt_of_ne (hdiffers node hin) with hneg | hpos
    · exact ((hstore.entryCompare_sign hfields hvalues index hentry).1 hneg).ne
    · exact ((hstore.entryCompare_sign hfields hvalues index hentry).2 hpos).ne'

/-- The comparison of a search that has a rowid behind the columns with a key of the store. -/
theorem IndexStore.probe_rowid (hstore : IndexStore info kind info.nField nodes)
    (hfields : FieldsOf kind info.nField fields) (incrKey prefixMatch : Bool)
    {node : Node IndexKey Bytes} (hnode : node ∈ nodes) :
    probeFields info (fields ++ [last]) incrKey prefixMatch node.key =
      -(if lexCompare info.compareField 0 node.key.fields fields ≠ 0 then
          lexCompare info.compareField 0 node.key.fields fields
        else if incrKey then -1 else 0) := by
  rw [probeFields, compareFields_key ((hstore.fields node hnode).1.trans hfields.1.symm)]

section

variable (htrans : ∀ i, TransOn (kind i) (info.compareField i))
  (hstore : IndexStore info kind info.nField nodes)
  (hsquash : squashIndexKey hash mem pUnKey.aMem format none = (mem', aMem, val))
  (hvalues : aMem.map (Mem.value mem') = fields ++ [last])
  (hfields : FieldsOf kind info.nField fields)

include htrans hstore hsquash hvalues hfields

/-- A search that is equal to no key leads past all entries with its columns.
Assumes: no key is equal to the search with its flags. -/
theorem seek_past (hmiss : ∀ node ∈ nodes,
      probeFields info (fields ++ [last]) pUnKey.incrKey pUnKey.prefixMatch
      node.key ≠ 0) (past : Bool) (index : ℕ → UInt8) (intKey : Int64) :
    ∃ moved, sqlite3BtreeMovetoUnpacked hash info format past index (indexTable nodes) mem
        (some pUnKey) intKey = some moved ∧ moved.rc = .ok ∧
      (SeekContract nodes (entryCompare info index mem' { pUnKey with aMem := aMem })
          moved.place
          moved.res ↔
        (∃ node ∈ nodes, 0 ≤ compareFields info node.key.fields (fields ++ [last])
          pUnKey.incrKey
          pUnKey.prefixMatch) ∧
        ∀ entry, Sibling info nodes fields entry →
          entryCompare info index mem' { pUnKey with aMem := aMem } entry ≤ 0) := by
  have horiented := lexCompareField_oriented info
  obtain ⟨moved, hmoved, hrc, ⟨hat, _, hall⟩ |
      ⟨before, node, after, found, greater, rfl, hitems, hnode, hbefore, hat, hres⟩⟩ :=
    moveto_setRange hstore hsquash hvalues (.inr hmiss) past index intKey
  · refine ⟨moved, hmoved, hrc, ?_⟩
    rw [hat]
    refine ⟨fun hkept ↦ absurd hkept (not_seekContract_none _ _ _), ?_⟩
    rintro ⟨⟨node, hnode, hle⟩, _⟩
    have hpos := hall node hnode
    rw [probeFields] at hpos
    omega
  · have hin : node ∈ before ++ node :: after := by simp
    have hbehind : 0 < lexCompare info.compareField 0 node.key.fields fields := by
      have hne := hmiss node hin
      rw [hstore.probe_rowid hfields _ _ hin] at hnode hne
      split_ifs at hnode hne <;> omega
    have hless := (horiented _ _).mpr hbehind
    have hexists : ∃ other ∈ before ++ node :: after, 0 ≤ compareFields info other.key.fields
        (fields ++ [last]) pUnKey.incrKey pUnKey.prefixMatch := by
      refine ⟨node, hin, ?_⟩
      rw [probeFields] at hnode
      omega
    have hpositive : 0 < entryCompare info index mem' { pUnKey with aMem := aMem }
        (node.key, found) :=
      (hstore.entryCompare_sign hfields hvalues index
        (mem_entries.mpr ⟨node, hin, rfl, by rw [hitems]; simp⟩)).2 hbehind
    have hfront : ∀ entry, entry ∈ entries before → entry ∈ entries (before ++ node :: after) :=
      fun entry hentry ↦ by
        rw [entries_append]
        exact mem_append_left _ hentry
    refine ⟨moved, hmoved, hrc, ?_⟩
    rw [hat, hres]
    refine (seekContract_at hitems).trans ?_
    constructor
    · rintro ⟨_, hkept⟩
      refine ⟨hexists, ?_⟩
      rintro entry ⟨hentry, hzero⟩
      refine hkept hpositive entry (.inl ?_)
      -- the keys from this one on are greater
      obtain ⟨third, hthird, hkey, hitem⟩ := mem_entries.mp hentry
      rcases mem_append.mp hthird with hthird | hthird
      · exact mem_entries.mpr ⟨third, hthird, hkey, hitem⟩
      · rw [← hkey] at hzero
        rcases mem_cons.mp hthird with rfl | hthird
        · exact absurd hzero hless.ne
        · exact absurd hzero (hstore.less_after htrans hfields hless.le third hthird).ne
    · rintro ⟨_, hsiblings⟩
      refine ⟨fun hneg ↦ absurd hneg (not_lt.mpr hpositive.le), fun _ entry hentry ↦ ?_⟩
      rcases hentry with hentry | ⟨_, hnil⟩
      · obtain ⟨third, hthird, hkey, _⟩ := mem_entries.mp hentry
        have hpos := hbefore third hthird
        rw [hstore.probe_rowid hfields _ _ (mem_append_left _ hthird), hkey] at hpos
        by_cases hzero : lexCompare info.compareField 0 entry.1.fields fields = 0
        · exact hsiblings entry ⟨hfront entry hentry, (horiented.eq_zero_comm _ _).mp hzero⟩
        · rw [if_pos hzero] at hpos
          exact ((hstore.entryCompare_sign hfields hvalues index (hfront entry hentry)).1
            (by omega)).le
      · cases hnil

/-- A search of columns and a rowid ends at the nearest item, if any entry has the columns. -/
theorem moveto_rowid (hincrKey : pUnKey.incrKey = false) (past : Bool) (index : ℕ → UInt8)
    (intKey : Int64) :
    ∃ moved, sqlite3BtreeMovetoUnpacked hash info format past index (indexTable nodes) mem
        (some pUnKey) intKey = some moved ∧ moved.rc = .ok ∧
      ((moved.res ≠ 0 ∧ ∀ entry, ¬ Sibling info nodes fields entry) ∨
        ∃ before node after less found greater, nodes = before ++ node :: after ∧
          node.items = less ++ found :: greater ∧
          NearestItem (Sibling info nodes fields) (rowidItem last format)
            (node.key, found) ∧
          moved.place = some (before.length, less.length) ∧
          moved.res = entryCompare info index mem' { pUnKey with aMem := aMem }
            (node.key, found)) := by
  rcases seekPlace_rowid htrans hstore hfields format last pUnKey.prefixMatch with
    hmiss | ⟨before, node, after, less, found, greater, rfl, hsame, hitems, hnearest, hplace⟩
  · have hnone : ∀ entry, ¬ Sibling info nodes fields entry := by
      rintro entry ⟨hentry, hsame⟩
      obtain ⟨node, hnode, hkey, _⟩ := mem_entries.mp hentry
      refine hmiss node hnode ?_
      rw [probeFields_eq ((hstore.fields node hnode).1.trans hfields.1.symm), hkey,
        ((lexCompareField_oriented info).eq_zero_comm _ _).mp hsame, neg_zero]
    obtain ⟨moved, hmoved, hrc, hres⟩ :=
      moveto_miss hstore hfields hsquash hvalues hincrKey hnone past index intKey
    exact ⟨moved, hmoved, hrc, .inl ⟨hres, hnone⟩⟩
  · rw [← hincrKey, ← hvalues] at hplace
    obtain ⟨moved, hmoved, hrc, hat, hres⟩ := moveto_entry hsquash hitems hplace past index intKey
    exact ⟨moved, hmoved, hrc, .inr ⟨before, node, after, less, found, greater, rfl, hitems,
      (nearestItem_iff htrans hstore hfields hsame hitems hnearest _).mpr rfl, hat, hres⟩⟩

/-- A search of columns and a rowid keeps the contract exactly if some key is not less and no entry
with the same columns is between the search and the one it leads to. -/
theorem seek_rowid (past : Bool) (index : ℕ → UInt8) (intKey : Int64) :
    ∃ moved, sqlite3BtreeMovetoUnpacked hash info format past index (indexTable nodes) mem
        (some pUnKey) intKey = some moved ∧ moved.rc = .ok ∧
      (SeekContract nodes (entryCompare info index mem' { pUnKey with aMem := aMem })
          moved.place
          moved.res ↔
        (∃ node ∈ nodes, 0 ≤ compareFields info node.key.fields (fields ++ [last])
          pUnKey.incrKey
          pUnKey.prefixMatch) ∧
        RowidSeek (entryCompare info index mem' { pUnKey with aMem := aMem })
          (Sibling info nodes fields) pUnKey.incrKey (rowidItem last format)) := by
  have horiented := lexCompareField_oriented info
  by_cases hincrKey : pUnKey.incrKey = true
  · -- the flag makes every key that is equal a lesser one
    have hmiss : ∀ node ∈ nodes, probeFields info (fields ++ [last]) pUnKey.incrKey
        pUnKey.prefixMatch node.key ≠ 0 := by
      intro node hnode
      rw [hstore.probe_rowid hfields _ _ hnode, hincrKey, if_pos rfl]
      split_ifs with hdiffer
      · exact neg_ne_zero.mpr hdiffer
      · decide
    have hpast := seek_past htrans hstore hsquash hvalues hfields hmiss past index intKey
    rwa [RowidSeek, if_pos hincrKey]
  · have hflag : pUnKey.incrKey = false := Bool.eq_false_iff.mpr hincrKey
    rcases seekPlace_rowid htrans hstore hfields format last pUnKey.prefixMatch with
      hmiss | ⟨before, node, after, less, found, greater, rfl, hsame, hitems, hnearest, hplace⟩
    · -- no entry has the columns of the search
      rw [← hflag] at hmiss
      have hnone : ∀ entry, ¬ Sibling info nodes fields entry := by
        rintro entry ⟨hentry, hsame⟩
        obtain ⟨node, hnode, hkey, _⟩ := mem_entries.mp hentry
        refine hmiss node hnode ?_
        rw [hstore.probe_rowid hfields _ _ hnode, hkey, (horiented.eq_zero_comm _ _).mp hsame]
        simp [hincrKey]
      obtain ⟨moved, hmoved, hrc, hcontract⟩ :=
        seek_past htrans hstore hsquash hvalues hfields hmiss past index intKey
      refine ⟨moved, hmoved, hrc, ?_⟩
      rw [hcontract, RowidSeek, if_neg hincrKey]
      exact and_congr_right fun _ ↦ ⟨fun _ entry hentry ↦ absurd hentry.1 (hnone entry),
        fun _ entry hentry ↦ absurd hentry (hnone entry)⟩
    · have hin : node ∈ before ++ node :: after := by simp
      have hequal := (horiented.eq_zero_comm _ _).mp hsame
      have hbefore : ∀ entry ∈ entries before,
          entryCompare info index mem' { pUnKey with aMem := aMem } entry ≤ 0 := by
        intro entry hentry
        obtain ⟨third, hthird, hkey, _⟩ := mem_entries.mp hentry
        refine ((hstore.entryCompare_sign hfields hvalues index ?_).1
          (hkey ▸ hstore.less_before htrans hfields hequal.le third hthird)).le
        rw [entries_append]
        exact mem_append_left _ hentry
      have hafter : ∀ entry ∈ entries after,
          0 ≤ entryCompare info index mem' { pUnKey with aMem := aMem } entry := by
        intro entry hentry
        obtain ⟨third, hthird, hkey, hitem⟩ := mem_entries.mp hentry
        have hless := hstore.less_after htrans hfields hsame.le third hthird
        refine ((hstore.entryCompare_sign hfields hvalues index ?_).2
          (hkey ▸ (horiented _ _).mp hless)).le
        exact mem_entries.mpr ⟨third, mem_append_right _ (.tail _ hthird), hkey, hitem⟩
      have hexists : ∃ other ∈ before ++ node :: after, 0 ≤ compareFields info other.key.fields
          (fields ++ [last]) pUnKey.incrKey pUnKey.prefixMatch := by
        refine ⟨node, hin, ?_⟩
        rw [compareFields_key ((hstore.fields node hin).1.trans hfields.1.symm), hequal, hflag]
        simp
      rw [← hflag, ← hvalues] at hplace
      obtain ⟨moved, hmoved, hrc, hat, hres⟩ := moveto_entry hsquash hitems hplace past index intKey
      refine ⟨moved, hmoved, hrc, ?_⟩
      rw [hat, hres, and_iff_right hexists]
      exact rowidSeek_iff htrans hstore hfields hsame hitems hnearest hincrKey hbefore hafter

end

end

end

/-- An index and a search in it, with at most one field more than there are columns. The comparisons
are transitive on the values that occur. -/
structure IndexSearch where
  hash : MdbHash
  pKeyInfo : KeyInfo
  kind : ℕ → Value → Prop
  nodes : List (Node IndexKey Bytes)
  fileFormat : ℕ
  mem : ℕ → UInt8
  pUnKey : UnpackedRecord
  nonempty : nodes ≠ []
  transitive : ∀ i, TransOn (kind i) (pKeyInfo.compareField i)
  store : IndexStore pKeyInfo kind pKeyInfo.nField nodes
  count : pUnKey.aMem.length ≤ pKeyInfo.nField + 1
  kinds : AllAt kind 0 (((squashIndexKey hash mem pUnKey.aMem fileFormat none).2.1.map
    (Mem.value (squashIndexKey hash mem pUnKey.aMem fileFormat none).1)).take pKeyInfo.nField)

namespace IndexSearch

def left (s : IndexSearch) : ℕ → UInt8 :=
  (squashIndexKey s.hash s.mem s.pUnKey.aMem s.fileFormat none).1

def key (s : IndexSearch) : UnpackedRecord :=
  { s.pUnKey with aMem := (squashIndexKey s.hash s.mem s.pUnKey.aMem s.fileFormat none).2.1 }

def values (s : IndexSearch) : List Value := s.key.aMem.map (Mem.value s.left)

def compare (s : IndexSearch) (index : ℕ → UInt8) (entry : IndexKey × Bytes) : ℤ :=
  entryCompare s.pKeyInfo index s.left s.key entry

/-- Some stored key is not less than the key of the search, and if that has a rowid behind the
columns, no entry with the same columns is between it and the nearest one. -/
def Lands (s : IndexSearch) (index : ℕ → UInt8) : Prop :=
  (∃ node ∈ s.nodes, 0 ≤ compareFields s.pKeyInfo node.key.fields s.values s.pUnKey.incrKey
    s.pUnKey.prefixMatch) ∧
  (s.pKeyInfo.nField < s.values.length →
    RowidSeek (s.compare index) (Sibling s.pKeyInfo s.nodes (s.values.take s.pKeyInfo.nField))
      s.pUnKey.incrKey (rowidItem (s.values.getLastD .null) s.fileFormat))

theorem values_length (s : IndexSearch) : s.values.length = s.pUnKey.aMem.length := by
  have hfields : (squashIndexKey s.hash s.mem s.pUnKey.aMem s.fileFormat none).2.1 =
      (squashFields s.hash s.fileFormat s.mem s.pUnKey.aMem).2 := by
    simp only [squashIndexKey]
    split_ifs <;> rfl
  rw [values, key, length_map, hfields, squashFields_snd, length_map]

end IndexSearch

/-- A search in an index keeps the contract exactly if it lands. -/
theorem seek_index (s : IndexSearch) (past : Bool) (index : ℕ → UInt8) (intKey : Int64) :
    ∃ moved, sqlite3BtreeMovetoUnpacked s.hash s.pKeyInfo s.fileFormat past index
        (indexTable s.nodes) s.mem (some s.pUnKey) intKey = some moved ∧ moved.rc = .ok ∧
      (SeekContract s.nodes (s.compare index) moved.place moved.res ↔ s.Lands index) := by
  have hsquash : squashIndexKey s.hash s.mem s.pUnKey.aMem s.fileFormat none =
      (s.left, s.key.aMem, (squashIndexKey s.hash s.mem s.pUnKey.aMem s.fileFormat none).2.2) := rfl
  have hlength := s.values_length
  by_cases hlonger : s.pKeyInfo.nField < s.values.length
  · have hcount : s.values.length = s.pKeyInfo.nField + 1 := by
      have hle := s.count
      omega
    have hne : s.values ≠ [] := ne_nil_of_length_pos (by omega)
    obtain ⟨fields, last, hvalues⟩ : ∃ fields last, s.values = fields ++ [last] :=
      ⟨_, _, (dropLast_append_getLast hne).symm⟩
    have hfieldsLength : fields.length = s.pKeyInfo.nField := by
      rw [hvalues, length_append, length_singleton] at hcount
      omega
    have htake : s.values.take s.pKeyInfo.nField = fields := by
      rw [hvalues, ← hfieldsLength, take_left]
    have hfields : FieldsOf s.kind s.pKeyInfo.nField fields := ⟨hfieldsLength, htake ▸ s.kinds⟩
    obtain ⟨moved, hmoved, hrc, hcontract⟩ :=
      seek_rowid s.transitive s.store hsquash hvalues hfields past index intKey
    refine ⟨moved, hmoved, hrc, hcontract.trans ?_⟩
    rw [IndexSearch.Lands, htake, hvalues, getLastD_concat]
    refine and_congr_right fun _ ↦ ⟨fun hseek _ ↦ hseek, fun hseek ↦ hseek ?_⟩
    rwa [← hvalues]
  · obtain ⟨moved, hmoved, hrc, hcontract⟩ := seek_columns s.store hsquash
      (by rw [IndexSearch.values, length_map] at hlonger; exact not_lt.mp hlonger) past index intKey
    refine ⟨moved, hmoved, hrc, hcontract.trans ?_⟩
    exact ⟨fun hexists ↦ ⟨hexists, fun hlong ↦ absurd hlong hlonger⟩, fun hlands ↦ hlands.1⟩

/-- The table with the one row `1`, and a search for the row `2`. -/
def oneRow : TableSearch where
  front := []
  page := [⟨1, [[]]⟩]
  back := []
  intKey := 2
  nonempty := by simp
  ordered := List.pairwise_singleton _ _
  rows := by simp
  nonneg := by decide
  keyNonneg := by decide
  frontLess := by simp
  backGreater := by simp

theorem keyFields_five : KeyFields 1 [.int 5] := ⟨⟨by decide, by decide⟩, by decide⟩

/-- The index with the entries `(5, 1)` and `(5, 3)`, and a search for `(5, 9)`. -/
def fiveNine : IndexSearch where
  hash := .fnv
  pKeyInfo := ⟨[(none, false)]⟩
  kind := fun _ ↦ Value.NotReal
  nodes := [⟨⟨1, [.int 5], keyFields_five⟩, [[1, 1], [1, 3]]⟩]
  fileFormat := 1
  mem := fun _ ↦ 0
  pUnKey := ⟨[.int 5, .int 9], false, false, false, 0⟩
  nonempty := by simp
  transitive := fun _ ↦ compareField_trans (memCompare_trans _)
  store := by
    refine ⟨⟨by simp, ?_⟩, List.pairwise_singleton _ _, ?_, ?_⟩
    · decide
    · simp only [List.forall_mem_singleton]
      exact ⟨rfl, allAt_cons.mpr ⟨trivial, fun j a ha ↦ absurd ha (by simp)⟩⟩
    · simp only [List.forall_mem_singleton, List.forall_mem_cons]
      exact ⟨⟨.int 1, 1, trivial, by decide, by decide⟩, ⟨.int 3, 1, trivial, by decide, by decide⟩⟩
  count := by decide
  kinds := allAt_cons.mpr ⟨trivial, fun j a ha ↦ absurd ha (by simp)⟩

end LumoSQL
