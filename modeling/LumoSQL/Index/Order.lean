import LumoSQL.Index.Entries

/-!
# The order of an index

The keys of an index are in the order of their fields, and the items of each key in the order of
their bytes. `IndexStore` says this of a store, for keys with one number of fields on whose values
the comparisons of the columns are transitive. An insert keeps it (`IndexStore.put`), and so does
the removal of an entry (`IndexStore.erase`).

By its purpose an index is a set of pairs, of fields up to what the comparison tells apart and an
item. `Stored` is this set. An insert adds one pair to it (`stored_put`) and a removal takes one
away (`stored_erase`). `moveto_index` says where a search ends and what it reports there.
-/

namespace LumoSQL

open Foundation List Option

def fieldOrder (pKeyInfo : KeyInfo) (key other : IndexKey) : ℤ :=
  lexCompare pKeyInfo.compareField 0 key.fields other.fields

/-- The item of a value with a serial type of one byte, under some file format. -/
def ItemOf (last : Value) (item : Bytes) : Prop :=
  ∃ fileFormat, last.Expanded ∧ sqlite3VdbeSerialType last fileFormat < 128 ∧
    item = lastItem fileFormat last

/-- The fields are `n` values, each of the kind for its column. -/
def FieldsOf (kind : ℕ → Value → Prop) (n : ℕ) (fields : List Value) : Prop :=
  fields.length = n ∧ AllAt kind 0 fields

/-- The store of an index: its keys are in order and have `n` fields, and its items are in order and
have a value each. -/
structure IndexStore (pKeyInfo : KeyInfo) (kind : ℕ → Value → Prop) (n : ℕ)
    (nodes : List (Node IndexKey Bytes)) : Prop where
  tidy : Tidy compareBytes nodes
  ordered : Ordered (fieldOrder pKeyInfo) nodes
  fields : ∀ node ∈ nodes, FieldsOf kind n node.key.fields
  items : ∀ node ∈ nodes, ∀ item ∈ node.items, ∃ last, ItemOf last item

/-- The pair of these fields and the item is in the store, under fields that do not differ. -/
def Stored (pKeyInfo : KeyInfo) (nodes : List (Node IndexKey Bytes)) (fields : List Value)
    (item : Bytes) : Prop :=
  ∃ entry ∈ entries nodes, lexCompare pKeyInfo.compareField 0 fields entry.1.fields = 0 ∧
    entry.2 = item

section

variable {pKeyInfo : KeyInfo} {kind : ℕ → Value → Prop} {n : ℕ}
  {nodes before after : List (Node IndexKey Bytes)} {node : Node IndexKey Bytes} {key : IndexKey}
  {fields : List Value} {item : Bytes}

/-! ### Comparing keys -/

theorem compareBytes_linear : LinearCmp compareBytes :=
  ⟨compareBytes_oriented, compareBytes_trans, fun _ _ ↦ compareBytes_eq_zero.mp⟩

theorem lexCompareField_oriented (pKeyInfo : KeyInfo) :
    Oriented (lexCompare pKeyInfo.compareField 0) :=
  lexCompare_oriented (compareField_oriented pKeyInfo) 0

theorem fieldOrder_oriented (pKeyInfo : KeyInfo) : Oriented (fieldOrder pKeyInfo) :=
  fun key other ↦ lexCompareField_oriented pKeyInfo key.fields other.fields

theorem lexCompareField_trans (htrans : ∀ i, TransOn (kind i) (pKeyInfo.compareField i)) (n : ℕ) :
    TransOn (FieldsOf kind n) (lexCompare pKeyInfo.compareField 0) :=
  lexCompare_trans (compareField_oriented pKeyInfo) htrans n 0

theorem fieldOrder_trans (htrans : ∀ i, TransOn (kind i) (pKeyInfo.compareField i)) (n : ℕ) :
    TransOn (fun key ↦ FieldsOf kind n key.fields) (fieldOrder pKeyInfo) :=
  fun key other third hkey hother hthird ↦
    lexCompareField_trans htrans n key.fields other.fields third.fields hkey hother hthird

/-! ### Comparing records -/

/-- The registers of a record that has been taken apart, which leaves the flags at 0. -/
def unpackedRecord (nField : ℕ) (z : Bytes) : UnpackedRecord where
  aMem := sqlite3VdbeRecordUnpack (ofBytes z) z.length 0 nField
  incrKey := false
  prefixMatch := false
  prefixSearch := false
  rowid := 0

/-- The comparison of one record with another one that has been taken apart. -/
def recordOrder (pKeyInfo : KeyInfo) (nField : ℕ) (z1 z2 : Bytes) : ℤ :=
  (sqlite3VdbeRecordCompare pKeyInfo z1 (ofBytes z2) (unpackedRecord nField z2)).1

section

variable {format1 format2 format3 nField : ℕ} {fields1 fields2 fields3 : List Value}
  {z1 z2 z3 : Bytes} (hmade1 : MadeRecord format1 fields1 z1)
  (hmade2 : MadeRecord format2 fields2 z2) (hmade3 : MadeRecord format3 fields3 z3)

include hmade1

theorem recordCompare_made (pKeyInfo : KeyInfo) (mem : ℕ → UInt8) (pPKey2 : UnpackedRecord) :
    (sqlite3VdbeRecordCompare pKeyInfo z1 mem pPKey2).1 =
      compareFields pKeyInfo (fields1.map Value.expand) (pPKey2.aMem.map (Mem.value mem))
        pPKey2.incrKey pPKey2.prefixMatch := by
  rw [hmade1.bytes_eq]
  exact recordCompare_fields hmade1.recordable hmade1.header mem pPKey2

include hmade2

/-- Records with one number of fields are compared by their fields. -/
theorem recordOrder_eq (pKeyInfo : KeyInfo) (hlength : fields1.length = fields2.length)
    (hroom : fields2.length ≤ nField) :
    recordOrder pKeyInfo nField z1 z2 = lexCompare pKeyInfo.compareField 0
      (fields1.map Value.expand) (fields2.map Value.expand) := by
  have hvalues := recordUnpack_values nField hmade2.recordable hmade2.header hmade2.bytes_eq
  rw [take_of_length_le ((length_map _).trans_le hroom)] at hvalues
  rw [recordOrder, recordCompare_made hmade1, unpackedRecord, hvalues,
    compareFields_of_le _ (by simp [hlength])]

include hmade3

/-- The comparison of a record with registers goes over the fields in order; `BtreeCompare` is its
negation. So it is an order on the records with one number of fields and no doubles.
Assumes: the three records are made by `OP_MakeRecord`, the last two with as many fields as the
first, none of them a double, and there is room for them. -/
theorem recordCompare_lexicographic (pKeyInfo : KeyInfo)
    (hlength2 : fields2.length = fields1.length) (hlength3 : fields3.length = fields1.length)
    (hkind : ∀ v ∈ fields1 ++ fields2 ++ fields3, v.NotReal) (hroom : fields1.length ≤ nField) :
    (∀ mem pPKey2, (sqlite3VdbeRecordCompare pKeyInfo z1 mem pPKey2).1 =
        compareFields pKeyInfo (fields1.map Value.expand) (pPKey2.aMem.map (Mem.value mem))
          pPKey2.incrKey pPKey2.prefixMatch ∧
      btreeCompare pKeyInfo mem pPKey2 z1 = -(sqlite3VdbeRecordCompare pKeyInfo z1 mem pPKey2).1) ∧
      (recordOrder pKeyInfo nField z1 z2 < 0 ↔ 0 < recordOrder pKeyInfo nField z2 z1) ∧
      (recordOrder pKeyInfo nField z1 z2 ≤ 0 → recordOrder pKeyInfo nField z2 z3 ≤ 0 →
        recordOrder pKeyInfo nField z1 z3 ≤ 0) := by
  have hfields : ∀ fields : List Value, fields.length = fields1.length → (∀ v ∈ fields, v.NotReal) →
      FieldsOf (fun _ ↦ Value.NotReal) fields1.length (fields.map Value.expand) := by
    intro fields hlength hnone
    refine ⟨(length_map _).trans hlength, fun j v hv ↦ ?_⟩
    obtain ⟨w, hw, rfl⟩ := mem_map.mp (mem_of_getElem? hv)
    exact (hnone w hw).expand
  simp only [forall_mem_append] at hkind
  refine ⟨fun mem pPKey2 ↦ ⟨recordCompare_made hmade1 pKeyInfo mem pPKey2, rfl⟩, ?_, ?_⟩
  · rw [recordOrder_eq hmade1 hmade2 pKeyInfo hlength2.symm (by omega),
      recordOrder_eq hmade2 hmade1 pKeyInfo hlength2 hroom]
    exact lexCompareField_oriented pKeyInfo _ _
  · rw [recordOrder_eq hmade1 hmade2 pKeyInfo hlength2.symm (by omega),
      recordOrder_eq hmade2 hmade3 pKeyInfo (by omega) (by omega),
      recordOrder_eq hmade1 hmade3 pKeyInfo hlength3.symm (by omega)]
    exact lexCompareField_trans (fun i ↦ compareField_trans (memCompare_trans _)) _ _ _ _
      (hfields fields1 rfl hkind.1.1) (hfields fields2 hlength2 hkind.1.2)
      (hfields fields3 hlength3 hkind.2)

end

theorem recordCompare_lexicographic_ints :
    recordOrder ⟨[(none, false)]⟩ 1 [2, 9] [2, 15, 97] ≤ 0 := by
  have hone : MadeRecord 4 [.int 1] [2, 9] := ⟨by decide, 9, [2, 9], 0, by decide⟩
  have htwo : MadeRecord 4 [.int 2] [2, 1, 2] := ⟨by decide, 9, [2, 1, 2], 0, by decide⟩
  have htext : MadeRecord 4 [.text [97]] [2, 15, 97] := ⟨by decide, 9, [2, 15, 97], 0, by decide⟩
  exact (recordCompare_lexicographic hone htwo htext ⟨[(none, false)]⟩ rfl rfl
    (by simp [Value.NotReal]) (le_refl 1)).2.2 (by decide) (by decide)

variable {entry : IndexKey × Bytes} {last : Value} {other : IndexKey}

/-- Keys of one length are compared by their fields. -/
theorem keyOrder_eq (hlength : key.fields.length = other.fields.length) :
    keyOrder pKeyInfo key other = -fieldOrder pKeyInfo other key := by
  rw [keyOrder, probeFields, fieldOrder, compareFields_of_le pKeyInfo hlength.ge]

theorem keyOrder_neg_iff (hlength : key.fields.length = other.fields.length) :
    keyOrder pKeyInfo key other < 0 ↔ fieldOrder pKeyInfo key other < 0 := by
  rw [keyOrder_eq hlength, neg_neg_iff_pos]
  exact (fieldOrder_oriented pKeyInfo key other).symm

theorem keyOrder_zero_iff (hlength : key.fields.length = other.fields.length) :
    keyOrder pKeyInfo key other = 0 ↔ fieldOrder pKeyInfo key other = 0 := by
  rw [keyOrder_eq hlength, neg_eq_zero]
  exact (fieldOrder_oriented pKeyInfo).eq_zero_comm other key

/-- The comparison with what is fetched from an entry is the comparison with the fields of its key
and the value of its item. -/
theorem fetch_compare (pKeyInfo : KeyInfo) (index mem : ℕ → UInt8) (key : IndexKey)
    (hitem : ItemOf last item) (pUnKey : UnpackedRecord) :
    (sqlite3VdbeRecordCompare pKeyInfo (sqlite3BtreeKeyFetch index (key.bytes, item))
      mem pUnKey).1 =
      compareFields pKeyInfo (key.fields ++ [last]) (pUnKey.aMem.map (Mem.value mem)) pUnKey.incrKey
        pUnKey.prefixMatch := by
  obtain ⟨itemFormat, hexpanded, hlast, rfl⟩ := hitem
  have hcells : RecordableCells
      ((key.fields.map fun v ↦ (key.fileFormat, v)) ++ [(itemFormat, last)]) := by
    refine forall_mem_append.mpr ⟨key.ok.recordable.recordableCells, ?_⟩
    intro cell hcell
    rw [mem_singleton.mp hcell]
    exact ⟨hexpanded, lt_trans hlast (by decide)⟩
  have hsize : keyHeader key.fileFormat key.fields + 1 =
      sqlite3VarintLen (keyHeader key.fileFormat key.fields + 1) +
        (cellTypes ((key.fields.map fun v ↦ (key.fileFormat, v)) ++
          [(itemFormat, last)])).length := by
    have hheader := key.ok.header.size
    rw [cellTypes_append, length_append, cellTypes_map, key.ok.varint, cellTypes_cons,
      putVarint32_one hlast]
    have hnil : (cellTypes []).length = 0 := rfl
    rw [length_append, length_singleton, hnil]
    omega
  have hvalues : ((key.fields.map fun v ↦ (key.fileFormat, v)) ++
      [(itemFormat, last)]).map Prod.snd =
      key.fields ++ [last] := by
    rw [List.map_append, List.map_map, List.map_singleton]
    exact congrArg (· ++ [last]) (map_id key.fields)
  have hcompare := recordCompare_cells pKeyInfo hcells key.ok.fits hsize mem pUnKey
  rw [IndexKey.bytes, keyFetch_cells index key.ok hlast, hcompare, hvalues]

/-! ### The pairs that are stored -/

/-- Fields that do not differ are in the same pairs. -/
theorem Stored.congr (htrans : ∀ i, TransOn (kind i) (pKeyInfo.compareField i))
    (hstore : IndexStore pKeyInfo kind n nodes) {other : List Value}
    (hfields : FieldsOf kind n fields)
    (hother : FieldsOf kind n other) (hsame : lexCompare pKeyInfo.compareField 0 fields other = 0) :
    Stored pKeyInfo nodes fields item ↔ Stored pKeyInfo nodes other item := by
  refine exists_congr fun entry ↦ and_congr_right fun hentry ↦ and_congr_left fun _ ↦ ?_
  obtain ⟨node, hnode, hkey, _⟩ := mem_entries.mp hentry
  rw [← hkey]
  exact ((lexCompareField_trans htrans n).congr_left (lexCompareField_oriented pKeyInfo)
    hfields hother
    (hstore.fields node hnode) hsame).2

theorem IndexStore.fields_of_mem (hstore : IndexStore pKeyInfo kind n nodes)
    (hentry : entry ∈ entries nodes) : FieldsOf kind n entry.1.fields := by
  obtain ⟨node, hnode, hkey, _⟩ := mem_entries.mp hentry
  rw [← hkey]
  exact hstore.fields node hnode

section

variable (htrans : ∀ i, TransOn (kind i) (pKeyInfo.compareField i))
  (hstore : IndexStore pKeyInfo kind n (before ++ node :: after)) (hfields : FieldsOf kind n fields)

include htrans hstore hfields

theorem IndexStore.key_unique
    (hsame : lexCompare pKeyInfo.compareField 0 fields node.key.fields = 0)
    (hentry : entry ∈ entries (before ++ node :: after))
    (hentrySame : lexCompare pKeyInfo.compareField 0 fields entry.1.fields = 0) :
    entry.1 = node.key := by
  obtain ⟨other, hother, hkey, _⟩ := mem_entries.mp hentry
  rw [← hkey] at hentrySame ⊢
  have hzero : lexCompare pKeyInfo.compareField 0 node.key.fields other.key.fields = 0 :=
    ((lexCompareField_trans htrans n).congr_left (lexCompareField_oriented pKeyInfo) hfields
      (hstore.fields node (by simp)) (hstore.fields other hother) hsame).2.mp hentrySame
  have hordered := hstore.ordered
  simp only [Ordered, pairwise_append, pairwise_cons, forall_mem_cons] at hordered
  obtain ⟨_, ⟨hafter, _⟩, hbefore⟩ := hordered
  rcases mem_append.mp hother with hin | hin
  · have hlt := (hbefore other hin).1
    have hflip := ((lexCompareField_oriented pKeyInfo).eq_zero_comm _ _).mp hzero
    rw [fieldOrder, hflip] at hlt
    exact absurd hlt (lt_irrefl 0)
  · rcases mem_cons.mp hin with rfl | hin
    · rfl
    · have hlt := hafter other hin
      rw [fieldOrder, hzero] at hlt
      exact absurd hlt (lt_irrefl 0)

/-- The pairs of fields that are equal to a key are the items of its node. -/
theorem IndexStore.stored_iff
    (hsame : lexCompare pKeyInfo.compareField 0 fields node.key.fields = 0) :
    Stored pKeyInfo (before ++ node :: after) fields item ↔ item ∈ node.items := by
  constructor
  · rintro ⟨entry, hentry, hzero, rfl⟩
    have hkey := hstore.key_unique htrans hfields hsame hentry hzero
    obtain ⟨other, hother, hotherKey, hitem⟩ := mem_entries.mp hentry
    obtain ⟨hbefore, hafter⟩ := hstore.ordered.keys_ne (fieldOrder_oriented pKeyInfo)
    rcases mem_append.mp hother with hin | hin
    · exact absurd (hotherKey.trans hkey) (hbefore other hin)
    · rcases mem_cons.mp hin with rfl | hin
      · exact hitem
      · exact absurd (hotherKey.trans hkey) (hafter other hin)
  · intro hitem
    exact ⟨(node.key, item), mem_entries.mpr ⟨node, by simp, rfl, hitem⟩, hsame, rfl⟩

/-- Fields that come before a key of a store come before all keys behind it. -/
theorem IndexStore.less_after (hle : lexCompare pKeyInfo.compareField 0 fields node.key.fields ≤ 0)
    : ∀ other ∈ after, lexCompare pKeyInfo.compareField 0 fields other.key.fields < 0 := by
  intro other hother
  have hordered := hstore.ordered
  simp only [Ordered, pairwise_append, pairwise_cons] at hordered
  exact (lexCompareField_trans htrans n).lt_of_le_of_lt (lexCompareField_oriented pKeyInfo) hfields
    (hstore.fields node (by simp)) (hstore.fields other (by simp [hother])) hle
    (hordered.2.1.1 other hother)

/-- Fields that come behind a key of a store come behind all keys before it. -/
theorem IndexStore.less_before (hle : lexCompare pKeyInfo.compareField 0 node.key.fields fields ≤ 0)
    : ∀ other ∈ before, lexCompare pKeyInfo.compareField 0 other.key.fields fields < 0 := by
  intro other hother
  have hordered := hstore.ordered
  simp only [Ordered, pairwise_append, forall_mem_cons] at hordered
  exact (lexCompareField_trans htrans n).lt_of_lt_of_le (lexCompareField_oriented pKeyInfo)
    (hstore.fields other (by simp [hother])) (hstore.fields node (by simp)) hfields
    (hordered.2.2 other hother).1 hle

end

/-! ### Inserting -/

theorem IndexStore.put (htrans : ∀ i, TransOn (kind i) (pKeyInfo.compareField i))
    (hstore : IndexStore pKeyInfo kind n nodes) (hkey : FieldsOf kind n key.fields)
    (hitem : ItemOf last item) :
    IndexStore pKeyInfo kind n (put (keyOrder pKeyInfo key) compareBytes key item nodes) := by
  have hlength : ∀ node ∈ nodes, key.fields.length = node.key.fields.length := fun node hnode ↦
    hkey.1.trans (hstore.fields node hnode).1.symm
  have hentries : ∀ node ∈ Foundation.put (keyOrder pKeyInfo key) compareBytes key item nodes,
      FieldsOf kind n node.key.fields ∧ ∀ item ∈ node.items, ∃ last, ItemOf last item :=
    put_forall (P := fun key ↦ FieldsOf kind n key.fields) compareBytes_linear
      (fun node hnode ↦ ⟨hstore.fields node hnode, hstore.items node hnode⟩) hkey ⟨last, hitem⟩
  exact ⟨hstore.tidy.put compareBytes_linear _ _ _,
    hstore.ordered.put (fieldOrder_oriented pKeyInfo) (fieldOrder_trans htrans n) hstore.fields hkey
      (fun node hnode ↦ keyOrder_neg_iff (hlength node hnode))
      (fun node hnode ↦ keyOrder_zero_iff (hlength node hnode)),
    fun node hnode ↦ (hentries node hnode).1, fun node hnode ↦ (hentries node hnode).2⟩

theorem stored_put (htrans : ∀ i, TransOn (kind i) (pKeyInfo.compareField i))
    (hstore : IndexStore pKeyInfo kind n nodes) (hkey : FieldsOf kind n key.fields)
    (hfields : FieldsOf kind n fields) (new : Bytes) :
    Stored pKeyInfo (put (keyOrder pKeyInfo key) compareBytes key new nodes) fields item ↔
      Stored pKeyInfo nodes fields item ∨
        (lexCompare pKeyInfo.compareField 0 fields key.fields = 0 ∧ item = new) := by
  obtain ⟨k, hk, hentries⟩ :=
    mem_entries_put compareBytes_linear (keyOrder pKeyInfo key) key new nodes
  have hsame : lexCompare pKeyInfo.compareField 0 fields k.fields = 0 ↔
      lexCompare pKeyInfo.compareField 0 fields key.fields = 0 := by
    rcases hk with ⟨rfl, _⟩ | ⟨node, hnode, rfl, hzero⟩
    · exact Iff.rfl
    · have horiented := lexCompareField_oriented pKeyInfo
      have hnodeFields := hstore.fields node hnode
      rw [keyOrder_zero_iff (hkey.1.trans hnodeFields.1.symm), fieldOrder] at hzero
      rw [horiented.eq_zero_comm fields, horiented.eq_zero_comm fields]
      exact ((lexCompareField_trans htrans n).congr_left horiented hkey hnodeFields hfields
        hzero).2.symm
  constructor
  · rintro ⟨entry, hentry, hzero, hitem⟩
    rcases (hentries entry).mp hentry with rfl | hold
    · exact .inr ⟨hsame.mp hzero, hitem.symm⟩
    · exact .inl ⟨entry, hold, hzero, hitem⟩
  · rintro (⟨entry, hold, hzero, hitem⟩ | ⟨hzero, rfl⟩)
    · exact ⟨entry, (hentries entry).mpr (.inr hold), hzero, hitem⟩
    · exact ⟨(k, item), (hentries _).mpr (.inl rfl), hsame.mpr hzero, rfl⟩

/-! ### Removing -/

variable {less greater : List Bytes} {found : Bytes}

theorem IndexStore.erase (hstore : IndexStore pKeyInfo kind n (before ++ node :: after))
    (hitems : node.items = less ++ found :: greater) : IndexStore pKeyInfo kind n
      (eraseAt (before ++ node :: after) (before.length, less.length)) := by
  have hnew : ∀ other ∈ eraseAt (before ++ node :: after) (before.length, less.length),
      FieldsOf kind n other.key.fields ∧ ∀ item ∈ other.items, ∃ last, ItemOf last item :=
    eraseAt_forall (P := fun key ↦ FieldsOf kind n key.fields) hitems
      fun other hother ↦ ⟨hstore.fields other hother, hstore.items other hother⟩
  exact ⟨hstore.tidy.eraseAt hitems, hstore.ordered.eraseAt hitems,
    fun node hnode ↦ (hnew node hnode).1, fun node hnode ↦ (hnew node hnode).2⟩

theorem stored_erase (htrans : ∀ i, TransOn (kind i) (pKeyInfo.compareField i))
    (hstore : IndexStore pKeyInfo kind n (before ++ node :: after))
    (hitems : node.items = less ++ found :: greater) (hfields : FieldsOf kind n fields) :
    Stored pKeyInfo (eraseAt (before ++ node :: after) (before.length, less.length)) fields item ↔
      Stored pKeyInfo (before ++ node :: after) fields item ∧
        ¬ (lexCompare pKeyInfo.compareField 0 fields node.key.fields = 0 ∧ item = found) := by
  have herase := mem_entries_eraseAt compareBytes_linear (fieldOrder_oriented pKeyInfo) hstore.tidy
    hstore.ordered hitems
  constructor
  · rintro ⟨entry, hentry, hzero, rfl⟩
    obtain ⟨hold, hne⟩ := (herase entry).mp hentry
    refine ⟨⟨entry, hold, hzero, rfl⟩, fun hpair ↦ hne ?_⟩
    exact Prod.ext (hstore.key_unique htrans hfields hpair.1 hold hzero) hpair.2
  · rintro ⟨⟨entry, hold, hzero, rfl⟩, hnot⟩
    refine ⟨entry, (herase entry).mpr ⟨hold, fun hsame ↦ hnot ?_⟩, hzero, rfl⟩
    rw [hsame] at hzero ⊢
    exact ⟨hzero, rfl⟩

/-! ### Runs of inserts -/

/-- The inserts that are carried out have short fields, on which the comparisons are transitive. -/
structure ComparableRun (pKeyInfo : KeyInfo) (kind : ℕ → Value → Prop) (n : ℕ)
    (ops : List IndexInsert) : Prop where
  transitive : ∀ i, TransOn (kind i) (pKeyInfo.compareField i)
  short : ∀ op ∈ ops, op.accepted = true → ShortFields op.fields
  fields : ∀ op ∈ ops, op.accepted = true → FieldsOf kind n op.keyFields

theorem IndexInsert.itemOf (op : IndexInsert) : ItemOf op.last.expand op.item := by
  refine ⟨op.recordFormat, op.last.expand_expanded, ?_, rfl⟩
  rw [serialType_expand]
  exact op.oneByte

/-- The keys and the items of a store are those of inserts that were carried out. -/
def ComesFrom (ops : List IndexInsert) (nodes : List (Node IndexKey Bytes)) : Prop :=
  ∀ node ∈ nodes, (∃ op ∈ ops, op.accepted = true ∧ node.key = op.key) ∧
    ∀ item ∈ node.items, ∃ op ∈ ops, op.accepted = true ∧ item = op.item

variable {ops : List IndexInsert} (hash : MdbHash)

theorem ComesFrom.append (hfrom : ComesFrom ops nodes) (more : List IndexInsert) :
    ComesFrom (ops ++ more) nodes := by
  intro node hnode
  obtain ⟨⟨op, hop, hkey⟩, hitems⟩ := hfrom node hnode
  refine ⟨⟨op, mem_append_left more hop, hkey⟩, fun item hitem ↦ ?_⟩
  obtain ⟨other, hother, hotherItem⟩ := hitems item hitem
  exact ⟨other, mem_append_left more hother, hotherItem⟩

/-- After a run of inserts the index has the pairs, the keys and the items of those that were
carried out. -/
theorem runInserts_content (hrun : ComparableRun pKeyInfo kind n ops)
    (hroom : n ≤ pKeyInfo.nField + 1) :
    ∃ nodes, runInserts hash pKeyInfo ops = indexTable nodes ∧ IndexStore pKeyInfo kind n nodes ∧
      ComesFrom ops nodes ∧
      ∀ fields item, FieldsOf kind n fields → (Stored pKeyInfo nodes fields item ↔
        ∃ op ∈ ops, op.accepted = true ∧
          lexCompare pKeyInfo.compareField 0 fields op.keyFields = 0 ∧ item = op.item) := by
  induction ops using List.reverseRecOn with
  | nil =>
    refine ⟨[], rfl, ⟨⟨by simp, by simp⟩, List.Pairwise.nil, by simp, by simp⟩, by simp [ComesFrom],
      ?_⟩
    intro fields item _
    simp [Stored, entries]
  | append_singleton ops op ih =>
    have hmem : ∀ other ∈ ops, other ∈ ops ++ [op] := fun other ↦ mem_append_left _
    obtain ⟨nodes, hindex, hstore, hfrom, hstored⟩ := ih ⟨hrun.transitive,
      fun other hother ↦ hrun.short other (hmem other hother),
      fun other hother ↦ hrun.fields other (hmem other hother)⟩
    have hstep : runInserts hash pKeyInfo (ops ++ [op]) =
        (op.run hash pKeyInfo (indexTable nodes)).2.1 := by
      rw [← hindex, runInserts, foldl_append]
      rfl
    by_cases haccepted : op.accepted = true
    · have hfields := hrun.fields op (by simp) haccepted
      have hlength : op.fields.length ≤ pKeyInfo.nField + 1 := by
        have hn := hfields.1
        rw [IndexInsert.keyFields, length_map] at hn
        omega
      rw [op.run_index hash pKeyInfo (hrun.short op (by simp) haccepted) hlength, if_pos haccepted]
        at hstep
      refine ⟨_, hstep, hstore.put hrun.transitive hfields op.itemOf, ?_, ?_⟩
      · exact put_forall (P := fun key ↦ ∃ op' ∈ ops ++ [op], op'.accepted = true ∧ key = op'.key)
          (Q := fun item ↦ ∃ op' ∈ ops ++ [op], op'.accepted = true ∧ item = op'.item)
          compareBytes_linear (hfrom.append [op]) ⟨op, by simp, haccepted, rfl⟩
          ⟨op, by simp, haccepted, rfl⟩
      · intro fields item hkind
        rw [stored_put hrun.transitive hstore hfields hkind, hstored fields item hkind]
        simp only [mem_append, mem_singleton, or_and_right, exists_or, exists_eq_left,
          haccepted, true_and]
        rfl
    · rw [op.run_refused hash pKeyInfo (by simpa using haccepted)] at hstep
      refine ⟨nodes, hstep, hstore, hfrom.append [op], ?_⟩
      intro fields item hkind
      rw [hstored fields item hkind]
      simp [or_and_right, exists_or, haccepted]

/-- After a run of inserts the index has the pairs of those that were carried out. -/
theorem runInserts_store (hrun : ComparableRun pKeyInfo kind n ops)
    (hroom : n ≤ pKeyInfo.nField + 1) :
    ∃ nodes, runInserts hash pKeyInfo ops = indexTable nodes ∧ IndexStore pKeyInfo kind n nodes ∧
      ∀ fields item, FieldsOf kind n fields → (Stored pKeyInfo nodes fields item ↔
        ∃ op ∈ ops, op.accepted = true ∧
          lexCompare pKeyInfo.compareField 0 fields op.keyFields = 0 ∧ item = op.item) := by
  obtain ⟨nodes, hindex, hstore, _, hstored⟩ := runInserts_content hash hrun hroom
  exact ⟨nodes, hindex, hstore, hstored⟩

/-! ### Seeking -/

def entryCompare (pKeyInfo : KeyInfo) (index mem : ℕ → UInt8) (pUnKey : UnpackedRecord)
    (entry : IndexKey × Bytes) : ℤ :=
  (sqlite3VdbeRecordCompare pKeyInfo (sqlite3BtreeKeyFetch index (entry.1.bytes, entry.2)) mem
    pUnKey).1

section

variable {hash : MdbHash} {format : ℕ} {mem mem' : ℕ → UInt8} {pUnKey : UnpackedRecord}
  {aMem : List Mem} {val : Option MdbVal} {values : List Value} {incrKey prefixMatch : Bool}

/-- Without an item to look for, or without a key that is equal, a search leads to the first key
that is not less. -/
theorem seekPlace_setRange (hmiss : values.length ≤ pKeyInfo.nField ∨
      ∀ node ∈ nodes, probeFields pKeyInfo values incrKey prefixMatch node.key ≠ 0) :
    seekPlace pKeyInfo format values incrKey prefixMatch nodes =
      setRange (probeFields pKeyInfo values incrKey prefixMatch) nodes := by
  simp only [seekPlace]
  split_ifs with hlonger
  · rcases getBothRange_cases (probeFields pKeyInfo values incrKey prefixMatch) compareBytes
        (rowidItem (values.getLastD .null) format) nodes with
      ⟨hnone, _⟩ | ⟨before, node, after, rfl, hzero, _, _⟩
    · rw [hnone, none_or]
    · rcases hmiss with hshort | hmiss
      · omega
      · exact absurd hzero (hmiss node (by simp))
  · rw [none_or]

theorem moveto_none (hsquash : squashIndexKey hash mem pUnKey.aMem format none = (mem', aMem, val))
    (hplace : seekPlace pKeyInfo format (aMem.map (Mem.value mem')) pUnKey.incrKey
      pUnKey.prefixMatch nodes = none) (past : Bool) (index : ℕ → UInt8) (intKey : Int64) :
    ∃ moved, sqlite3BtreeMovetoUnpacked hash pKeyInfo format past index (indexTable nodes) mem
        (some pUnKey) intKey = some moved ∧ moved.rc = .ok ∧ moved.place = none ∧
      moved.res = -1 := by
  unfold sqlite3BtreeMovetoUnpacked
  by_cases hempty : (indexTable nodes).mdEntries = 0
  · rw [if_pos hempty]
    exact ⟨_, rfl, rfl, rfl, rfl⟩
  · rw [if_neg hempty]
    refine ⟨_, rfl, ?_⟩
    rw [movetoRecord_index hash pKeyInfo hsquash, hplace]
    exact ⟨rfl, rfl, rfl⟩

/-- A search reports the comparison with the entry it leads to. -/
theorem moveto_entry
    (hsquash : squashIndexKey hash mem pUnKey.aMem format none = (mem', aMem, val))
    (hitems : node.items = less ++ found :: greater)
    (hplace : seekPlace pKeyInfo format (aMem.map (Mem.value mem')) pUnKey.incrKey
      pUnKey.prefixMatch (before ++ node :: after) = some (before.length, less.length))
    (past : Bool) (index : ℕ → UInt8) (intKey : Int64) :
    ∃ moved, sqlite3BtreeMovetoUnpacked hash pKeyInfo format past index
        (indexTable (before ++ node :: after)) mem (some pUnKey) intKey = some moved ∧
      moved.rc = .ok ∧ moved.place = some (before.length, less.length) ∧
      moved.res = entryCompare pKeyInfo index mem' { pUnKey with aMem := aMem }
        (node.key, found) := by
  have hentry : entryAt (before ++ node :: after) (before.length, less.length) =
      some (node.key, found) := by
    simp [entryAt, hitems]
  have hfilled : (indexTable (before ++ node :: after)).mdEntries ≠ 0 := by
    have hmem : (node.key, found) ∈ entries (before ++ node :: after) :=
      mem_entries.mpr ⟨node, by simp, rfl, by rw [hitems]; simp⟩
    rw [indexTable, MdbTable.mdEntries, entries_mapKey, length_map]
    exact (length_pos_of_mem hmem).ne'
  unfold sqlite3BtreeMovetoUnpacked
  rw [if_neg hfilled]
  refine ⟨_, rfl, ?_⟩
  rw [movetoRecord_index hash pKeyInfo hsquash, hplace, bind_some, hentry]
  exact ⟨rfl, rfl, rfl⟩

theorem IndexStore.first_item (hstore : IndexStore pKeyInfo kind n nodes) (hnode : node ∈ nodes) :
    ∃ found greater, node.items = [] ++ found :: greater :=
  exists_cons_of_ne_nil (hstore.tidy.filled node hnode)

/-- A search by the keys alone ends behind all of them, or at the first item of the first key that
is not less. -/
theorem moveto_setRange (hstore : IndexStore pKeyInfo kind n nodes)
    (hsquash : squashIndexKey hash mem pUnKey.aMem format none = (mem', aMem, val))
    (hvalues : aMem.map (Mem.value mem') = values)
    (hmiss : values.length ≤ pKeyInfo.nField ∨ ∀ node ∈ nodes,
      probeFields pKeyInfo values pUnKey.incrKey pUnKey.prefixMatch node.key ≠ 0)
    (past : Bool) (index : ℕ → UInt8) (intKey : Int64) :
    ∃ moved, sqlite3BtreeMovetoUnpacked hash pKeyInfo format past index (indexTable nodes) mem
        (some pUnKey) intKey = some moved ∧ moved.rc = .ok ∧
      ((moved.place = none ∧ moved.res = -1 ∧ ∀ node ∈ nodes,
          0 < probeFields pKeyInfo values pUnKey.incrKey pUnKey.prefixMatch node.key) ∨
        ∃ before node after found greater, nodes = before ++ node :: after ∧
          node.items = [] ++ found :: greater ∧
          probeFields pKeyInfo values pUnKey.incrKey pUnKey.prefixMatch node.key ≤ 0 ∧
          (∀ other ∈ before,
            0 < probeFields pKeyInfo values pUnKey.incrKey pUnKey.prefixMatch other.key) ∧
          moved.place = some (before.length, 0) ∧
          moved.res = entryCompare pKeyInfo index mem' { pUnKey with aMem := aMem }
            (node.key, found)) := by
  subst hvalues
  have hseek : seekPlace pKeyInfo format (aMem.map (Mem.value mem')) pUnKey.incrKey
      pUnKey.prefixMatch nodes = _ := seekPlace_setRange hmiss
  rcases setRange_cases (probeFields pKeyInfo (aMem.map (Mem.value mem')) pUnKey.incrKey
      pUnKey.prefixMatch) nodes with
    ⟨hnone, hall⟩ | ⟨before, node, after, rfl, hplace, hnode, hbefore⟩
  · obtain ⟨moved, hmoved, hrc, hat, hres⟩ :=
      moveto_none hsquash (hseek.trans hnone) past index intKey
    exact ⟨moved, hmoved, hrc, .inl ⟨hat, hres, hall⟩⟩
  · obtain ⟨found, greater, hitems⟩ := hstore.first_item
      (show node ∈ before ++ node :: after by simp)
    obtain ⟨moved, hmoved, hrc, hat, hres⟩ :=
      moveto_entry hsquash hitems (hseek.trans hplace) past index intKey
    exact ⟨moved, hmoved, hrc, .inr ⟨before, node, after, found, greater, rfl, hitems, hnode,
      hbefore, hat, hres⟩⟩

/-- A search with the flag unset and at least as many fields as a key is compared with it by the
fields of the key. -/
theorem probeFields_eq (hlength : key.fields.length = fields.length) (rest : List Value)
    (prefixMatch : Bool) : probeFields pKeyInfo (fields ++ rest) false prefixMatch key =
      -lexCompare pKeyInfo.compareField 0 key.fields fields := by
  rw [probeFields, compareFields_of_le, lexCompare_longer _ hlength.le]
  rw [length_append, hlength]
  exact Nat.le_add_right _ _

/-- With a rowid behind the columns and a key that is equal, a search leads to the first item that
is not less under that key, and to the first item of all if there is none. -/
theorem seekPlace_rowid (htrans : ∀ i, TransOn (kind i) (pKeyInfo.compareField i))
    (hstore : IndexStore pKeyInfo kind pKeyInfo.nField nodes)
    (hfields : FieldsOf kind pKeyInfo.nField fields) (format : ℕ) (last : Value)
    (prefixMatch : Bool) :
    (∀ node ∈ nodes, probeFields pKeyInfo (fields ++ [last]) false prefixMatch node.key ≠ 0) ∨
      ∃ before node after less found greater, nodes = before ++ node :: after ∧
        lexCompare pKeyInfo.compareField 0 fields node.key.fields = 0 ∧
        node.items = less ++ found :: greater ∧ ((compareBytes (rowidItem last format) found ≤ 0 ∧
            ∀ other ∈ less, 0 < compareBytes (rowidItem last format) other) ∨
          (less = [] ∧ ∀ other ∈ node.items, 0 < compareBytes (rowidItem last format) other)) ∧
        seekPlace pKeyInfo format (fields ++ [last]) false prefixMatch nodes =
          some (before.length, less.length) := by
  have hprobe : ∀ node ∈ nodes, probeFields pKeyInfo (fields ++ [last]) false prefixMatch node.key =
      -lexCompare pKeyInfo.compareField 0 node.key.fields fields := fun node hnode ↦
    probeFields_eq ((hstore.fields node hnode).1.trans hfields.1.symm) [last] prefixMatch
  rcases getBothRange_cases (probeFields pKeyInfo (fields ++ [last]) false prefixMatch) compareBytes
      (rowidItem last format) nodes with
    ⟨_, hmiss⟩ | ⟨before, node, after, rfl, hzero, _, hfound⟩
  · exact .inl hmiss
  · have hin : node ∈ before ++ node :: after := by simp
    have hlonger : pKeyInfo.nField < (fields ++ [last]).length := by
      rw [length_append, length_singleton, hfields.1]
      exact Nat.lt_succ_self _
    have hequal := neg_eq_zero.mp ((hprobe node hin).symm.trans hzero)
    have hsame := ((lexCompareField_oriented pKeyInfo).eq_zero_comm _ _).mp hequal
    simp only [seekPlace, if_pos hlonger, getLastD_concat]
    rcases hfound with ⟨hnone, hall⟩ | ⟨less, found, greater, hitems, hplace, hnotless, hless⟩
    · obtain ⟨found, greater, hitems⟩ := hstore.first_item hin
      refine .inr ⟨before, node, after, [], found, greater, rfl, hsame, hitems,
        .inr ⟨rfl, hall⟩, ?_⟩
      rw [hnone, none_or]
      refine setRange_split (fun other hother ↦ ?_) hzero.le
      rw [hprobe other (mem_append_left _ hother)]
      exact neg_pos.mpr (hstore.less_before htrans hfields hequal.le other hother)
    · refine .inr ⟨before, node, after, less, found, greater, rfl, hsame, hitems,
        .inl ⟨hnotless, hless⟩, ?_⟩
      rw [hplace, some_or]

end

end

end LumoSQL
