import LumoSQL.Index.Seek

/-!
# Membership in an index without rowids

The transient indexes behind `IN`, `DISTINCT` and `UNION` hold records of exactly the columns of the
index, and a value is looked up in them with as many fields. But an insert always takes the last
field of a record out of the key, as if it were a rowid, and a search looks for an item only if it
has more fields than the index has columns. So of all records with the same other fields, only the
one whose last field has the least bytes is compared with the search.

`membership_iff` says that a search finds a record exactly when there is one, if and only if a
record that is equal to the search comes first among those with the same other fields
(`FirstOfClass`).
-/

namespace LumoSQL

open Foundation List

def IndexInsert.values (op : IndexInsert) : List Value := op.keyFields ++ [op.last.expand]

/-- The fields do not differ under `sqlite3MemCompare` at any place that both have. -/
def EqualFields (pKeyInfo : KeyInfo) (fields values : List Value) : Prop :=
  ∀ i v w, fields[i]? = some v → values[i]? = some w → sqlite3MemCompare v w (pKeyInfo.aColl i) = 0

def IsMember (pKeyInfo : KeyInfo) (ops : List IndexInsert) (values : List Value) : Prop :=
  ∃ op ∈ ops, op.accepted = true ∧ EqualFields pKeyInfo op.values values

/-- If a record with these fields was inserted, then one that comes first among the records that
have the same fields but for the last one. -/
def FirstOfClass (pKeyInfo : KeyInfo) (ops : List IndexInsert) (values : List Value) : Prop :=
  IsMember pKeyInfo ops values →
    ∃ op ∈ ops, op.accepted = true ∧ EqualFields pKeyInfo op.values values ∧
      ∀ other ∈ ops, other.accepted = true → EqualFields pKeyInfo other.keyFields values →
        compareBytes op.item other.item ≤ 0

section

variable {pKeyInfo info : KeyInfo} {kind : ℕ → Value → Prop} {n : ℕ} {ops : List IndexInsert}

theorem equalFields_iff {fields values : List Value} : EqualFields info fields values ↔
    lexCompare info.compareField 0 fields values = 0 := by
  rw [lexCompare_eq_zero_iff, EqualFields]
  simp [compareField_eq_zero]

variable {fields prefixes : List Value}

/-- Records and searches of one length are equal if their last fields are and the fields before. -/
theorem equalFields_append {v w : Value} (hlength : fields.length = prefixes.length) :
    EqualFields info (fields ++ [v]) (prefixes ++ [w]) ↔
      lexCompare info.compareField 0 fields prefixes = 0 ∧
        info.compareField fields.length v w = 0 := by
  rw [equalFields_iff, lexCompare_snoc _ hlength, Nat.zero_add]
  by_cases hzero : lexCompare info.compareField 0 fields prefixes = 0
  · rw [if_neg (not_not_intro hzero)]
    exact (and_iff_right hzero).symm
  · rw [if_pos hzero]
    exact ⟨fun h ↦ absurd h hzero, fun h ↦ h.1⟩

theorem equalFields_key (rest : List Value) (hlength : fields.length = prefixes.length) :
    EqualFields info fields (prefixes ++ rest) ↔
      lexCompare info.compareField 0 fields prefixes = 0 := by
  rw [equalFields_iff, lexCompare_longer _ hlength.le]

/-- A search of all columns compares its last field with the least item among the pairs of its other
fields. -/
theorem moveto_class {hash : MdbHash} {nodes : List (Node IndexKey Bytes)} {format : ℕ}
    {mem : ℕ → UInt8} {pUnKey : UnpackedRecord} {fields : List Value} {last : Value}
    (htrans : ∀ i, TransOn (kind i) (info.compareField i))
    (hstore : IndexStore info kind n nodes) (hcolumns : info.nField = n + 1)
    (hprefixMatch : pUnKey.prefixMatch = true) (hincrKey : pUnKey.incrKey = false)
    (hshort : Short format pUnKey.aMem) (hfields : FieldsOf kind n fields)
    (hvalues : pUnKey.aMem.map (Mem.value mem) = fields ++ [last]) (past : Bool) (index : ℕ → UInt8)
    (intKey : Int64) :
    ∃ moved, sqlite3BtreeMovetoUnpacked hash info format past index (indexTable nodes) mem
        (some pUnKey) intKey = some moved ∧ moved.rc = .ok ∧
      ((moved.res ≠ 0 ∧ ∀ item, ¬ Stored info nodes fields item) ∨
        ∃ item, Stored info nodes fields item ∧
          (∀ other, Stored info nodes fields other → compareBytes item other ≤ 0) ∧
          ∀ v, ItemOf v item → moved.res = info.compareField n v last) := by
  have horiented := lexCompareField_oriented info
  have hsquash : squashIndexKey hash mem pUnKey.aMem format none = (mem, pUnKey.aMem, none) :=
    squashIndexKey_short hshort none
  by_cases hmiss : ∀ entry, ¬ Sibling info nodes fields entry
  · obtain ⟨moved, hmoved, hrc, hres⟩ :=
      moveto_miss hstore hfields hsquash hvalues hincrKey hmiss past index intKey
    exact ⟨moved, hmoved, hrc, .inl ⟨hres, fun item ⟨entry, hentry, hzero, _⟩ ↦
      hmiss entry ⟨hentry, hzero⟩⟩⟩
  · obtain ⟨entry, hentry, hzero⟩ := not_forall_not.mp hmiss
    obtain ⟨third, hthird, hkey, _⟩ := mem_entries.mp hentry
    have hcount : (fields ++ [last]).length ≤ info.nField := by
      rw [length_append, length_singleton, hfields.1, hcolumns]
    have hprobe : ∀ node ∈ nodes, probeFields info (fields ++ [last]) pUnKey.incrKey
        pUnKey.prefixMatch node.key = -lexCompare info.compareField 0 node.key.fields fields := by
      intro node hnode
      rw [hincrKey, hprefixMatch,
        probeFields_eq ((hstore.fields node hnode).1.trans hfields.1.symm)]
    have hthirdZero : probeFields info (fields ++ [last]) pUnKey.incrKey pUnKey.prefixMatch
        third.key = 0 := by
      rw [hprobe third hthird, hkey, (horiented.eq_zero_comm _ _).mp hzero, neg_zero]
    obtain ⟨moved, hmoved, hrc, ⟨_, _, hall⟩ |
        ⟨before, node, after, item, greater, rfl, hitems, hnode, hbefore, _, hres⟩⟩ :=
      moveto_setRange hstore hsquash hvalues (.inl hcount) past index intKey
    · exact absurd hthirdZero (hall third hthird).ne'
    · have hin : node ∈ before ++ node :: after := by simp
      -- the first key that is not less is the equal one, with its least item
      have hsame : lexCompare info.compareField 0 fields node.key.fields = 0 := by
        by_contra hdiffer
        have hbehind : lexCompare info.compareField 0 fields node.key.fields < 0 := by
          rw [hprobe node hin, neg_nonpos] at hnode
          exact lt_of_le_of_ne ((horiented.nonneg_iff _ _).mp hnode) hdiffer
        rw [← hkey] at hzero
        rcases mem_append.mp hthird with hthird | hthird
        · exact absurd hthirdZero (hbefore third hthird).ne'
        · rcases mem_cons.mp hthird with rfl | hthird
          · exact hdiffer hzero
          · exact absurd hzero (hstore.less_after htrans hfields hbehind.le third hthird).ne
      have hstored : ∀ other,
          Stored info (before ++ node :: after) fields other ↔ other ∈ node.items := fun _ ↦
        hstore.stored_iff htrans hfields hsame
      have hitem : item ∈ node.items := by
        rw [hitems]
        simp
      have hsorted := hstore.tidy.sorted node hin
      rw [hitems, nil_append, pairwise_cons] at hsorted
      refine ⟨moved, hmoved, hrc, .inr ⟨item, (hstored item).mpr hitem, fun other hother ↦ ?_,
        fun v hv ↦ ?_⟩⟩
      · have hmem := (hstored other).mp hother
        rw [hitems, nil_append] at hmem
        rcases mem_cons.mp hmem with rfl | hmem
        · exact (compareBytes_oriented.self _).le
        · exact (hsorted.1 other hmem).le
      · have hsibling : Sibling info (before ++ node :: after) fields (node.key, item) :=
          ⟨mem_entries.mpr ⟨node, hin, rfl, hitem⟩, hsame⟩
        rw [← hfields.1, hres]
        exact hsibling.entryCompare_eq ((hstore.fields node hin).1.trans hfields.1.symm) hvalues
          hincrKey hv index

/-- A search of all columns finds a member exactly when there is one, if and only if a record that
is equal to it comes first among those with the same other fields. Assumes: short fields on whose
values the comparisons of the columns are transitive. -/
theorem membership_iff (hash : MdbHash) (kind : ℕ → Value → Prop)
    (hrun : ComparableRun pKeyInfo kind n ops)
    (hcolumns : pKeyInfo.nField = n + 1) (fileFormat : ℕ) (past : Bool) (index mem : ℕ → UInt8)
    (intKey : Int64) (pUnKey : UnpackedRecord) (hcount : pUnKey.aMem.length = pKeyInfo.nField)
    (hprefixMatch : pUnKey.prefixMatch = true) (hincrKey : pUnKey.incrKey = false)
    (hshort : Short fileFormat pUnKey.aMem)
    (hkind : FieldsOf kind n (pUnKey.aMem.map (Mem.value mem)).dropLast) :
    ∃ moved, sqlite3BtreeMovetoUnpacked hash pKeyInfo fileFormat past index
        (runInserts hash pKeyInfo ops) mem (some pUnKey) intKey = some moved ∧ moved.rc = .ok ∧
      ((moved.res = 0 ↔ IsMember pKeyInfo ops (pUnKey.aMem.map (Mem.value mem))) ↔
        FirstOfClass pKeyInfo ops (pUnKey.aMem.map (Mem.value mem))) := by
  obtain ⟨nodes, hindex, hstore, hstored⟩ := runInserts_store hash hrun (by omega)
  have hne : pUnKey.aMem.map (Mem.value mem) ≠ [] := by
    intro hnil
    have hlength := congrArg List.length hnil
    rw [length_map, hcount, hcolumns] at hlength
    exact absurd hlength (Nat.succ_ne_zero n)
  obtain ⟨fields, last, hvalues⟩ : ∃ fields last,
      pUnKey.aMem.map (Mem.value mem) = fields ++ [last] :=
    ⟨_, _, (dropLast_append_getLast hne).symm⟩
  rw [hvalues, dropLast_concat] at hkind
  have hlength : ∀ op ∈ ops, op.accepted = true → op.keyFields.length = fields.length :=
    fun op hop haccepted ↦ (hrun.fields op hop haccepted).1.trans hkind.1.symm
  have hflip : ∀ op : IndexInsert, lexCompare pKeyInfo.compareField 0 op.keyFields fields = 0 ↔
      lexCompare pKeyInfo.compareField 0 fields op.keyFields = 0 := fun op ↦
    (lexCompareField_oriented pKeyInfo).eq_zero_comm _ _
  have hequal : ∀ op ∈ ops, op.accepted = true →
      (EqualFields pKeyInfo op.values (fields ++ [last]) ↔
        lexCompare pKeyInfo.compareField 0 fields op.keyFields = 0 ∧
          pKeyInfo.compareField n op.last.expand last = 0) := fun op hop haccepted ↦ by
    rw [IndexInsert.values, equalFields_append (hlength op hop haccepted), hflip,
      (hrun.fields op hop haccepted).1]
  have hstoredOf : ∀ op ∈ ops, op.accepted = true →
      lexCompare pKeyInfo.compareField 0 fields op.keyFields = 0 →
        Stored pKeyInfo nodes fields op.item := fun op hop haccepted hzero ↦
    (hstored fields op.item hkind).mpr ⟨op, hop, haccepted, hzero, rfl⟩
  obtain ⟨moved, hmoved, hrc, hresult⟩ := moveto_class hrun.transitive hstore hcolumns hprefixMatch
    hincrKey hshort hkind hvalues past index intKey
  rw [hindex]
  refine ⟨moved, hmoved, hrc, ?_⟩
  rw [hvalues]
  rcases hresult with ⟨hmiss, hnone⟩ | ⟨item, hitem, hleast, hcompared⟩
  · -- no record has the same other fields, and none is found
    have hnot : ¬ IsMember pKeyInfo ops (fields ++ [last]) := by
      rintro ⟨op, hop, haccepted, hsame⟩
      exact hnone op.item (hstoredOf op hop haccepted ((hequal op hop haccepted).mp hsame).1)
    exact ⟨fun _ hmember ↦ absurd hmember hnot,
      fun _ ↦ ⟨fun hzero ↦ absurd hzero hmiss, fun hmember ↦ absurd hmember hnot⟩⟩
  · -- the least item among the records with the same other fields decides
    obtain ⟨least, hin, haccepted, hzero, rfl⟩ := (hstored fields item hkind).mp hitem
    have hfound : moved.res = 0 ↔ EqualFields pKeyInfo least.values (fields ++ [last]) := by
      rw [hcompared _ least.itemOf, hequal least hin haccepted, and_iff_right hzero]
    constructor
    · intro hiff hmember
      refine ⟨least, hin, haccepted, hfound.mp (hiff.mpr hmember), ?_⟩
      intro other hother hotherAccepted hsame
      rw [equalFields_key [last] (hlength other hother hotherAccepted), hflip] at hsame
      exact hleast other.item (hstoredOf other hother hotherAccepted hsame)
    · refine fun hfirst ↦ ⟨fun hres ↦ ⟨least, hin, haccepted, hfound.mp hres⟩, fun hmember ↦ ?_⟩
      obtain ⟨op, hop, hopAccepted, hsame, hbefore⟩ := hfirst hmember
      obtain ⟨hkey, hlast⟩ := (hequal op hop hopAccepted).mp hsame
      have hle := hbefore least hin haccepted
        ((equalFields_key [last] (hlength least hin haccepted)).mpr ((hflip least).mpr hzero))
      have hge := (compareBytes_oriented.nonneg_iff op.item least.item).mpr
        (hleast op.item (hstoredOf op hop hopAccepted hkey))
      have hitems : op.item = least.item := compareBytes_eq_zero.mp (le_antisymm hle hge)
      rw [hcompared op.last.expand (hitems ▸ op.itemOf), hlast]

end

/-- The insert of the record `(5)`. -/
def insertFive : IndexInsert :=
  .ofRecord 1 [] (.int 5) [2, 1, 5]
    ⟨by decide, SQLITE_MAX_LENGTH, [2, 1, 5], 0, Nat.le_refl _, by decide, rfl⟩ (by decide)
    (by decide)

/-- The insert of the record `(7)`. -/
def insertSeven : IndexInsert :=
  .ofRecord 1 [] (.int 7) [2, 1, 7]
    ⟨by decide, SQLITE_MAX_LENGTH, [2, 1, 7], 0, Nat.le_refl _, by decide, rfl⟩
    (Nat.le_of_ble_eq_true rfl) (by decide)

/-- A search of one column for a number, as `OP_Found` makes it. -/
def foundInt (i : Int64) : UnpackedRecord where
  aMem := [.int i]
  incrKey := false
  prefixMatch := true
  prefixSearch := false
  rowid := 0

theorem membership_iff_five : ∃ moved,
    sqlite3BtreeMovetoUnpacked .fnv ⟨[(none, false)]⟩ 1 false (fun _ ↦ 0)
      (runInserts .fnv ⟨[(none, false)]⟩ [insertFive, insertSeven]) (fun _ ↦ 0)
      (some (foundInt 5)) 0 = some moved ∧ moved.rc = .ok ∧
    ((moved.res = 0 ↔ IsMember ⟨[(none, false)]⟩ [insertFive, insertSeven] [.int 5]) ↔
      FirstOfClass ⟨[(none, false)]⟩ [insertFive, insertSeven] [.int 5]) :=
  membership_iff (n := 0) .fnv (fun _ ↦ Value.NotReal)
    ⟨fun _ ↦ compareField_trans (memCompare_trans _), by decide, by
      intro op hop _
      have hfields : op.keyFields = [] := by
        rcases mem_cons.mp hop with rfl | hop
        · rfl
        · rw [mem_singleton.mp hop]
          rfl
      rw [hfields]
      exact ⟨rfl, fun j a ha ↦ absurd ha (by simp)⟩⟩
    rfl 1 false (fun _ ↦ 0) (fun _ ↦ 0) 0 (foundInt 5) rfl rfl rfl (by decide)
    ⟨rfl, fun j a ha ↦ absurd ha (by simp [foundInt])⟩

/-- After `5` and `7` have been inserted, a search for `7` is compared with `5` and finds nothing.
-/
theorem membership_misses_seven :
    ((sqlite3BtreeMovetoUnpacked .fnv ⟨[(none, false)]⟩ 1 false (fun _ ↦ 0)
      (runInserts .fnv ⟨[(none, false)]⟩ [insertFive, insertSeven]) (fun _ ↦ 0)
      (some (foundInt 7)) 0).map fun moved ↦ (moved.rc, moved.res)) = some (.ok, -1) ∧
    IsMember ⟨[(none, false)]⟩ [insertFive, insertSeven] [.int 7] := by
  refine ⟨by decide, insertSeven, by simp, rfl, ?_⟩
  rw [equalFields_iff]
  decide

end LumoSQL
