import LumoSQL.Index.RoundTrip
import LumoSQL.Index.SquashedKey
import Mathlib.Tactic.IntervalCases

/-!
# Squashed keys and the records joined of them

A key with a long field is written anew by `squashIndexKey`, under a header whose size is computed
for the key. `joinIndexKey` adds the serial type of the rowid to that header and one to its size. It
makes no room for a longer size: if the size of the header of the key is the last one with a varint
of its length, the varint of the next size takes the place of the first byte of the serial types.
The first field is then lost (`recordUnpackLoop_length_le`) or read with a serial type of its own
last byte (`size_serialGet_le`).

`squashed_rejoins_iff` says that the record joined of a key and its item has the squashed fields and
the rowid exactly if no field is long or the two sizes have varints of one length. The sizes
`OP_MakeRecord` computes are those of the record with the rowid, so a key that was not written anew
is always joined.
-/

namespace LumoSQL

open Foundation List

section

variable {mem : ℕ → UInt8} {format : ℕ} {fields : List Value}

/-- A record has no more fields than serial types in its header. -/
theorem recordUnpackLoop_length_le {aKey nKey szHdr idx : ℕ} (room d : ℕ)
    (hvalid : ∀ v ∈ fields, sqlite3VdbeSerialType v format < 2 ^ 32)
    (htypes : Stands mem (aKey + idx) (typeBytes format fields))
    (hidx : idx + (typeBytes format fields).length = szHdr) :
    (recordUnpackLoop mem aKey nKey szHdr room idx d).length ≤ fields.length := by
  induction fields generalizing room idx d with
  | nil =>
    rw [typeBytes_nil, length_nil] at hidx
    cases room with
    | zero => exact le_refl 0
    | succ room =>
      rw [recordUnpackLoop, if_neg (by omega)]
      exact le_refl 0
  | cons v rest ih =>
    obtain ⟨hv, hrest⟩ := forall_mem_cons.mp hvalid
    rw [typeBytes_cons, stands_append, putVarint32_length hv, add_assoc] at htypes
    rw [typeBytes_cons, length_append, putVarint32_length hv] at hidx
    cases room with
    | zero => exact Nat.zero_le _
    | succ room =>
      rw [recordUnpackLoop]
      split_ifs with hmore
      · simp only [getVarint32_put hv htypes.1, length_cons]
        exact Nat.succ_le_succ (ih room _ hrest htypes.2 (by omega))
      · exact Nat.zero_le _

/-- The value read with a serial type has no more bytes than the serial type says. -/
theorem size_serialGet_le (mem : ℕ → UInt8) (buf t : ℕ) :
    ((sqlite3VdbeSerialGet mem buf t).1.value mem).size ≤ (t - 12) / 2 := by
  rcases lt_or_ge t 12 with hsmall | hlarge
  · have hzero : ((sqlite3VdbeSerialGet mem buf t).1.value mem).size = 0 := by
      interval_cases t
      any_goals rfl
      simp only [sqlite3VdbeSerialGet]
      split <;> rfl
    rw [hzero]
    exact Nat.zero_le _
  · rw [serialGet_large mem buf hlarge]
    split_ifs
    · exact (read_length mem buf _).le
    · exact (read_length mem buf _).le

/-- The first field has no more bytes than the first serial type in the header says. -/
theorem size_recordUnpack_head {nKey nField szHdr idx t : ℕ} {v : Value} {others : List Value}
    (hhead : getVarint32 mem 0 = (szHdr, idx)) (htype : (getVarint32 mem idx).1 = t)
    (hunpack : (sqlite3VdbeRecordUnpack mem nKey 0 nField).map (Mem.value mem) = v :: others) :
    v.size ≤ (t - 12) / 2 := by
  rw [sqlite3VdbeRecordUnpack, hhead] at hunpack
  cases nField with
  | zero => exact absurd hunpack (cons_ne_nil _ _).symm
  | succ nField =>
    rw [recordUnpackLoop] at hunpack
    split_ifs at hunpack with hmore
    · simp only [zero_add, htype, map_cons] at hunpack
      rw [← (cons.inj hunpack).1]
      exact size_serialGet_le mem _ t
    · exact absurd hunpack (cons_ne_nil _ _).symm

/-- The size of a value that has a string, by its serial type. -/
theorem size_of_serialType (format : ℕ) {v : Value} (hexpanded : v.Expanded)
    (htype : 12 ≤ sqlite3VdbeSerialType v format) :
    v.size = (sqlite3VdbeSerialType v format - 12) / 2 := by
  cases v with
  | null | real r =>
    rw [sqlite3VdbeSerialType] at htype
    omega
  | int i =>
    have hrange := serialTypeInt_range i.toInt format
    rw [sqlite3VdbeSerialType] at htype
    omega
  | text bytes =>
    rw [sqlite3VdbeSerialType, Value.size]
    omega
  | blob bytes nZero =>
    obtain rfl : nZero = 0 := hexpanded
    rw [sqlite3VdbeSerialType, Value.size]
    omega

end

/-! ### The record joined of a squashed key -/

/-- The records of these fields are joined of their keys: no field is long, or the size of the
header of the squashed key and the next size have varints of one length. -/
def Rejoins (hash : MdbHash) (fileFormat : ℕ) (fields : List Value) : Prop :=
  ShortFields fields ∨
    sqlite3VarintLen (squashedHeader hash fileFormat (fields.map Value.expand) + 1) =
      sqlite3VarintLen (squashedHeader hash fileFormat (fields.map Value.expand))

instance (hash : MdbHash) (fileFormat : ℕ) (fields : List Value) :
    Decidable (Rejoins hash fileFormat fields) := inferInstanceAs (Decidable (_ ∨ _))

/-- The fields of the record joined of a key and an item, with room for `nField` of them. -/
def rejoined (newKey : ℕ → UInt8) (nField : ℕ) (entry : Bytes × Bytes) : List Value :=
  let record := sqlite3BtreeKeyFetch newKey entry
  (sqlite3VdbeRecordUnpack (ofBytes record) record.length 0 nField).map (Mem.value (ofBytes record))

section

variable {hash : MdbHash} {fileFormat : ℕ} {fields : List Value} {rowid : Int64}

variable (newKey : ℕ → UInt8)

/-- A key whose header has room for one more byte is joined to the record of its fields and of the
rowid. -/
theorem rejoined_record {hdr nField : ℕ} (hrecordable : Recordable fileFormat fields)
    (hhdr : HeaderFor fileFormat hdr fields) (hfits : hdr + 1 < 2 ^ 32)
    (hvarint : sqlite3VarintLen (hdr + 1) = sqlite3VarintLen hdr) (hroom : fields.length < nField) :
    rejoined newKey nField (recordBytes fileFormat hdr fields, lastItem fileFormat (.int rowid)) =
      fields ++ [.int rowid] := by
  have hlast := serialType_int_lt fileFormat rowid
  rw [rejoined, recordUnpack_values nField (hrecordable.append_int rowid)
    (hhdr.append_last hfits hvarint hlast) (keyFetch_record newKey hhdr hfits hvarint hlast),
    take_of_length_le]
  rwa [length_append, length_singleton]

/-- What is joined of a squashed key if the next size has a longer varint: the serial types are
there but for their first byte. -/
theorem keyFetch_squashed (rowid : Int64) (newKey : ℕ → UInt8)
    (hfields : KeyFields fileFormat fields)
    (hvarint : sqlite3VarintLen (squashedHeader hash fileFormat fields + 1) ≠
      sqlite3VarintLen (squashedHeader hash fileFormat fields)) :
    sqlite3BtreeKeyFetch newKey (squashedKey hash fileFormat fields,
        lastItem fileFormat (.int rowid)) =
      putVarint32 (squashedHeader hash fileFormat fields + 1) ++
        ((typeBytes fileFormat (squashedFields hash fields)).drop 1 ++
          (putVarint32 (sqlite3VdbeSerialType (.int rowid) fileFormat) ++
            (dataBytes fileFormat (squashedFields hash fields) ++
              serialBytes (.int rowid) fileFormat))) ∧
      squashedHeader hash fileFormat fields + 1 < 2 ^ 32 ∧
      squashedHeader hash fileFormat fields + 1 =
        sqlite3VarintLen (squashedHeader hash fileFormat fields + 1) +
          (typeBytes fileFormat (squashedFields hash fields)).length := by
  have htypes := hfields.squashed_types hash
  have hheader := hfields.squashed_header hash
  have hsize := hheader.size
  have hthis := varintLen_cases hheader.fits
  have hfits : squashedHeader hash fileFormat fields + 1 < 2 ^ 32 := by omega
  have hnext := varintLen_cases hfits
  have hone := putVarint32_one (serialType_int_lt fileFormat rowid)
  have hlonger : sqlite3VarintLen (squashedHeader hash fileFormat fields + 1) =
      sqlite3VarintLen (squashedHeader hash fileFormat fields) + 1 := by omega
  refine ⟨?_, hfits, by omega⟩
  rw [sqlite3BtreeKeyFetch, lastItem, hone, singleton_append, squashedKey, recordBytes,
    joinIndexKey_parts newKey _ hfits hsize hlonger (by omega)]

/-- If the next size has a longer varint, the record joined of a squashed key does not have the
squashed fields. -/
theorem rejoined_ne (nField : ℕ) (hfields : KeyFields fileFormat fields) (hne : fields ≠ [])
    (hvarint : sqlite3VarintLen (squashedHeader hash fileFormat fields + 1) ≠
      sqlite3VarintLen (squashedHeader hash fileFormat fields)) :
    rejoined newKey nField (squashedKey hash fileFormat fields,
        lastItem fileFormat (.int rowid)) ≠ squashedFields hash fields ++ [.int rowid] := by
  obtain ⟨hrecord, hfits, hsize⟩ := keyFetch_squashed rowid newKey hfields hvarint
  obtain ⟨v, rest, rfl⟩ := exists_cons_of_ne_nil hne
  have hrecordable := hfields.recordable.squashed hash
  have hcons : squashedFields hash (v :: rest) = v.squash hash :: squashedFields hash rest := rfl
  rw [rejoined]
  generalize sqlite3BtreeKeyFetch newKey (squashedKey hash fileFormat (v :: rest),
    lastItem fileFormat (.int rowid)) = record at hrecord ⊢
  rw [hcons] at hrecord hsize hrecordable ⊢
  generalize squashedHeader hash fileFormat (v :: rest) = hdr at hrecord hfits hsize
  obtain ⟨⟨hexpanded, htype⟩, hrest⟩ := Recordable.cons.mp hrecordable
  have hrowid := serialType_int_lt fileFormat rowid
  -- where the size of the header and the serial types are in the record
  have hparts := stands_ofBytes record
  nth_rewrite 2 [hrecord] at hparts
  rw [stands_append, putVarint32_length hfits, zero_add] at hparts
  obtain ⟨hhead, htypes⟩ := hparts
  have hhdr := getVarint32_put hfits hhead
  rw [typeBytes_cons, length_append, putVarint32_length htype] at hsize
  intro hall
  rcases lt_or_ge (sqlite3VdbeSerialType (v.squash hash) fileFormat) 128 with hone | htwo
  · -- the first serial type is lost, and there is none for the last field
    rw [typeBytes_cons, putVarint32_one hone, singleton_append, drop_succ_cons,
      drop_zero, ← append_assoc, stands_append] at htypes
    rw [varintLen_one hone] at hsize
    have hothers : typeBytes fileFormat (squashedFields hash rest ++ [.int rowid]) =
        typeBytes fileFormat (squashedFields hash rest) ++
          putVarint32 (sqlite3VdbeSerialType (.int rowid) fileFormat) := by
      rw [typeBytes_append, typeBytes_cons, typeBytes_nil, append_nil]
    have hle : (sqlite3VdbeRecordUnpack (ofBytes record) record.length 0 nField).length ≤
        (squashedFields hash rest ++ [Value.int rowid]).length := by
      rw [sqlite3VdbeRecordUnpack, hhdr]
      refine recordUnpackLoop_length_le nField _ (hrest.append_int rowid).types ?_ ?_
      · rw [hothers, zero_add]
        exact htypes.1
      · rw [hothers, length_append, putVarint32_one hrowid, length_singleton]
        omega
    have hcount := congrArg List.length hall
    rw [length_map, length_append, length_cons] at hcount
    rw [length_append] at hle
    omega
  · -- the first serial type is read as its last byte, which stands for fewer bytes
    have hlong := size_of_serialType fileFormat hexpanded (by omega)
    have hshort := v.size_squash hash (hfields.recordable.expanded v (.head _))
    have hcases := varintLen_cases htype
    obtain ⟨before, hbefore⟩ := putVarint32_last htype
    have hbytes := putVarint32_length htype
    rw [hbefore, length_append, length_singleton] at hbytes
    obtain ⟨first, rfl⟩ := length_eq_one_iff.mp (show before.length = 1 by omega)
    have hlast : Stands (ofBytes record) (sqlite3VarintLen (hdr + 1))
        (putVarint32 (sqlite3VdbeSerialType (v.squash hash) fileFormat % 128)) := by
      rw [putVarint32_one (by omega)]
      rw [typeBytes_cons, hbefore] at htypes
      exact (stands_append.mp (stands_append.mp htypes).1).1
    have hread := congrArg Prod.fst (getVarint32_put (by omega) hlast)
    have hle := size_recordUnpack_head hhdr hread hall
    omega

/-- The key and the item that `sqlite3BtreeInsert` makes of a record are joined to a record that
unpacks to the fields, with the long ones squashed, and the rowid, exactly if no field is long or
the header of the squashed key has room for one more byte (`Rejoins`). The record is one
`OP_MakeRecord` makes of a field for every column and an integer, under the file format the key is
squashed under. It stands anywhere in memory, and the buffer of the cursor holds anything before.

Assumes: the registers hold what registers can hold (`MadeRecord`). -/
theorem squashed_rejoins_iff (hash : MdbHash) (pKeyInfo : KeyInfo) (fileFormat : ℕ)
    (fields : List Value) (rowid : Int64) (z : Bytes) (hcolumns : fields.length = pKeyInfo.nField)
    (hmade : MadeRecord fileFormat (fields ++ [.int rowid]) z) (mem : ℕ → UInt8) (a : ℕ)
    (hstands : Stands mem a z) (split : SplitRecord)
    (hsplit : splitRecord hash pKeyInfo fileFormat mem a z.length = split) (newKey : ℕ → UInt8)
    (nField : ℕ) (hroom : pKeyInfo.nField < nField) :
    rejoined newKey nField (split.key.bytes split.mem, split.data.bytes split.mem) =
        fields.map (fun v ↦ v.expand.squash hash) ++ [.int rowid] ↔
      Rejoins hash fileFormat fields := by
  have hlast := serialType_int_lt fileFormat rowid
  have hfields := hmade.keyFields hlast
  have hsquashed : fields.map (fun v ↦ v.expand.squash hash) =
      squashedFields hash (fields.map Value.expand) := by
    rw [squashedFields, map_map]
    rfl
  rw [hsquashed, Rejoins]
  by_cases hshort : ShortFields fields
  · obtain ⟨other, hother, _, _, hkey, hitem⟩ :=
      hmade.splitRecord_short hash pKeyInfo hlast hstands fileFormat hshort (by omega)
    obtain rfl := hsplit.symm.trans hother
    rw [hkey, hitem, squashedFields_short hash hshort.expand, iff_true_right (.inl hshort)]
    exact rejoined_record newKey hfields.recordable hfields.header hfields.fits hfields.varint
      (by rw [length_map]; omega)
  · obtain ⟨other, hother, _, hkey, hitem⟩ :=
      splitRecord_squashed hash pKeyInfo hmade hlast hstands (by omega) hshort
    obtain rfl := hsplit.symm.trans hother
    rw [hkey, hitem, or_iff_right hshort]
    constructor
    · intro hjoined
      by_contra hvarint
      refine rejoined_ne newKey nField hfields (fun hnil ↦ hshort ?_) hvarint hjoined
      rw [map_eq_nil_iff.mp hnil]
      exact fun v hv ↦ absurd hv not_mem_nil
    · intro hvarint
      have htypes := hfields.squashed_types hash
      have hheader := hfields.squashed_header hash
      have hsize := hheader.size
      have hcases := varintLen_cases hheader.fits
      refine rejoined_record newKey (hfields.recordable.squashed hash) hheader (by omega) hvarint ?_
      rw [squashedFields, length_map, length_map]
      omega

/-- A text of 73 bytes and a `NULL`: the text comes back with the hash of its last nine bytes. -/
theorem squashed_rejoins_text :
    ∃ z : Bytes, MadeRecord 4 ([.text (List.replicate 73 97), .null] ++ [.int 300]) z ∧
      ∀ newKey, rejoined newKey 3
          ((splitRecord .fnv ⟨[(none, false), (none, false)]⟩ 4 (ofBytes z) 0 z.length).key.bytes
            (splitRecord .fnv ⟨[(none, false), (none, false)]⟩ 4 (ofBytes z) 0 z.length).mem,
          (splitRecord .fnv ⟨[(none, false), (none, false)]⟩ 4 (ofBytes z) 0 z.length).data.bytes
            (splitRecord .fnv ⟨[(none, false), (none, false)]⟩ 4 (ofBytes z) 0 z.length).mem) =
        [.text (List.replicate 64 97 ++ MdbHash.fnv.val (List.replicate 9 97)), .null,
          .int 300] := by
  have hmade : MadeRecord 4 ([.text (List.replicate 73 97), .null] ++ [.int 300])
      ([5, 129, 31, 0, 2] ++ List.replicate 73 97 ++ [1, 44]) :=
    ⟨by decide, SQLITE_MAX_LENGTH, _, 0, le_refl _, rfl, by decide⟩
  exact ⟨_, hmade, fun newKey ↦ (squashed_rejoins_iff .fnv ⟨[(none, false), (none, false)]⟩ 4 _ 300
    _ rfl hmade _ 0 (stands_ofBytes _) _ rfl newKey 3 (by decide)).mpr (by decide)⟩

/-- 124 `NULL`s and a text of 73 bytes. -/
def wideFields : List Value := List.replicate 124 .null ++ [.text (List.replicate 73 97)]

/-- The header of the key of 124 `NULL`s and a text of 73 bytes has 127 bytes, and that of the
record 128: the record that is joined does not have the fields. -/
theorem squashed_rejoins_fails : ∃ z : Bytes, MadeRecord 4 (wideFields ++ [.int 300]) z ∧
      ∀ newKey, rejoined newKey 126
          ((splitRecord .fnv ⟨List.replicate 125 (none, false)⟩ 4 (ofBytes z) 0 z.length).key.bytes
            (splitRecord .fnv ⟨List.replicate 125 (none, false)⟩ 4 (ofBytes z) 0 z.length).mem,
          (splitRecord .fnv ⟨List.replicate 125 (none, false)⟩ 4 (ofBytes z) 0 z.length).data.bytes
            (splitRecord .fnv ⟨List.replicate 125 (none, false)⟩ 4 (ofBytes z) 0 z.length).mem) ≠
        wideFields.map (fun v ↦ v.expand.squash .fnv) ++ [.int 300] := by
  obtain ⟨z, hmade⟩ : ∃ z, MadeRecord 4 (wideFields ++ [.int 300]) z :=
    exists_madeRecord (by decide +kernel) (by decide +kernel)
  have hlast := serialType_int_lt 4 300
  obtain ⟨split, hsplit, _, hkey, hitem⟩ := splitRecord_squashed .fnv
    ⟨List.replicate 125 (none, false)⟩ hmade hlast (stands_ofBytes z) (by decide +kernel)
    (by decide +kernel)
  refine ⟨z, hmade, fun newKey ↦ ?_⟩
  rw [hsplit, hkey, hitem]
  have hmap : wideFields.map (fun v ↦ v.expand.squash .fnv) =
      squashedFields .fnv (wideFields.map Value.expand) := by
    rw [squashedFields, map_map]
    rfl
  rw [hmap]
  exact rejoined_ne newKey 126 (hmade.keyFields hlast) (cons_ne_nil _ _) (by decide +kernel)

end

end LumoSQL
