import LumoSQL.Index.SquashedKey
import Mathlib.Algebra.Group.Action.Defs
import Mathlib.Tactic.IntervalCases

/-!
# The limit for the size of a key

LMDB refuses a key of more than `MDB_MAXKEYSIZE` bytes. `squashIndexKey` bounds what a field adds to
a key, at 72 bytes and two bytes for its serial type, but not how many fields there are.
`keySize` is the size of the key by the sizes of the fields, and `insert_key_fits_iff` says that the
key that is handed to LMDB is within the limit exactly if this size is. It is for every record of at
most 27 fields (`keySize_le_of_columns`), and it is not for some records of 28.
-/

namespace LumoSQL

open Foundation List

/-- The largest size of a key, `MDB_MAXKEYSIZE`. -/
def MDB_MAXKEYSIZE : ℕ := 2000

/-- The number of bytes of a field in a key: at most 72 of a text or a blob. -/
def cutLen (fileFormat : ℕ) : Value → ℕ
  | .text bytes => min bytes.length 72
  | .blob bytes nZero => min (bytes.length + nZero) 72
  | v => fieldLen fileFormat v

def cutType (fileFormat : ℕ) : Value → ℕ
  | .text bytes => min bytes.length 72 * 2 + 12 + 1
  | .blob bytes nZero => min (bytes.length + nZero) 72 * 2 + 12
  | v => sqlite3VdbeSerialType v fileFormat

def cutTypes (fileFormat : ℕ) (fields : List Value) : ℕ :=
  (fields.map fun v ↦ sqlite3VarintLen (cutType fileFormat v)).sum

/-- The size of the key for a record of these fields and a rowid. The header is that of the record
without the serial type of the rowid, or the one `squashIndexKey` writes if a field is long. -/
def keySize (fileFormat : ℕ) (fields : List Value) : ℕ :=
  (if ShortFields fields then headerSize (cutTypes fileFormat fields + 1) - 1
    else headerSize (cutTypes fileFormat fields)) + (fields.map (cutLen fileFormat)).sum

section

variable {hash : MdbHash} {fileFormat format : ℕ} {fields : List Value}

theorem serialType_cut (hash : MdbHash) (format : ℕ) (v : Value) :
    sqlite3VdbeSerialType (v.expand.squash hash) format = cutType format v := by
  cases v with
  | text bytes =>
    simp [Value.expand, Value.squash, sqlite3VdbeSerialType, squashBytes_length, cutType]
  | blob bytes nZero =>
    simp [Value.expand, Value.squash, sqlite3VdbeSerialType, squashBytes_length, cutType,
      length_replicate]
  | _ => rfl

theorem serialBytes_cut (hash : MdbHash) (format : ℕ) (v : Value) :
    (serialBytes (v.expand.squash hash) format).length = cutLen format v := by
  rw [serialBytes_length (v.expand.squash_expanded hash v.expand_expanded), serialType_cut]
  cases v with
  | text bytes | blob bytes nZero =>
    rw [cutType, cutLen, serialTypeLen_large (by omega)]
    omega
  | _ => rfl

/-- A field takes at most 72 bytes of a key, and two of its header. -/
theorem cut_le (format : ℕ) (v : Value) : cutLen format v ≤ 72 ∧ cutType format v ≤ 157 := by
  cases v with
  | text bytes | blob bytes nZero =>
    simp only [cutLen, cutType]
    omega
  | null => exact ⟨Nat.zero_le _, Nat.zero_le _⟩
  | int i =>
    obtain ⟨hlow, hhigh, _⟩ := serialTypeInt_range i.toInt format
    simp only [cutLen, cutType, fieldLen, sqlite3VdbeSerialType]
    refine ⟨?_, by omega⟩
    generalize serialTypeInt i.toInt format = t at hlow hhigh
    interval_cases t <;> decide
  | real r => exact ⟨show 8 ≤ 72 by omega, show 7 ≤ 157 by omega⟩

theorem typeBytes_cut (hash : MdbHash) (format : ℕ) (fields : List Value) :
    (typeBytes format (squashedFields hash (fields.map Value.expand))).length =
      cutTypes format fields := by
  induction fields with
  | nil => rfl
  | cons v rest ih =>
    have hle := (cut_le format v).2
    rw [squashedFields] at ih
    rw [squashedFields, map_cons, map_cons, typeBytes_cons, length_append, ih,
      serialType_cut, putVarint32_length (by omega), cutTypes, cutTypes, map_cons,
      sum_cons]

theorem dataBytes_cut (hash : MdbHash) (format : ℕ) (fields : List Value) :
    (dataBytes format (squashedFields hash (fields.map Value.expand))).length =
      (fields.map (cutLen format)).sum := by
  induction fields with
  | nil => rfl
  | cons v rest ih =>
    rw [squashedFields] at ih
    rw [squashedFields, map_cons, map_cons, dataBytes_cons, length_append, ih,
      serialBytes_cut, map_cons, sum_cons]

/-- The size of the key that `sqlite3BtreeInsert` makes of a record. -/
theorem splitRecord_size (hash : MdbHash) (info : KeyInfo) {last : Value} {z : Bytes}
    {mem : ℕ → UInt8} {a : ℕ} (hmade : MadeRecord format (fields ++ [last]) z)
    (hlast : sqlite3VdbeSerialType last format < 128) (hstands : Stands mem a z)
    (hroom : fields.length ≤ info.nField + 1) :
    (splitRecord hash info format mem a z.length).key.mvSize = keySize format fields := by
  have hfields := hmade.keyFields hlast
  rw [keySize]
  by_cases hshort : ShortFields fields
  · obtain ⟨split, hsplit, hsize, _⟩ :=
      hmade.splitRecord_short hash info hlast hstands format hshort hroom
    have hsame := squashedFields_short hash hshort.expand
    have htypes := typeBytes_cut hash format fields
    have hdata := dataBytes_cut hash format fields
    rw [hsame] at htypes hdata
    rw [hsplit, hsize, if_pos hshort, indexKey, recordBytes_length hfields.header, hdata, keyHeader,
      htypes]
  · obtain ⟨split, hsplit, hsize, _⟩ :=
      splitRecord_squashed hash info hmade hlast hstands hroom hshort
    rw [hsplit, hsize, if_neg hshort, squashedKey,
      recordBytes_length (hfields.squashed_header hash),
      squashedHeader, typeBytes_cut, dataBytes_cut]

/-- The keys of records with at most 27 fields are within the limit. -/
theorem keySize_le_of_columns (hcolumns : fields.length ≤ 27) :
    keySize format fields ≤ MDB_MAXKEYSIZE := by
  have htypes : cutTypes format fields ≤ 2 * fields.length := by
    refine le_trans (sum_le_card_nsmul _ 2 fun n hn ↦ ?_) ?_
    · obtain ⟨v, _, rfl⟩ := mem_map.mp hn
      have hle := (cut_le format v).2
      have hcases := varintLen_cases (show cutType format v < 2 ^ 32 by omega)
      omega
    · rw [length_map, smul_eq_mul, mul_comm]
  have hdata : (fields.map (cutLen format)).sum ≤ 72 * fields.length := by
    refine le_trans (sum_le_card_nsmul _ 72 fun n hn ↦ ?_) ?_
    · obtain ⟨v, _, rfl⟩ := mem_map.mp hn
      exact (cut_le format v).1
    · rw [length_map, smul_eq_mul, mul_comm]
  have hshort : headerSize (cutTypes format fields + 1) ≤ cutTypes format fields + 2 := by
    rw [headerSize, varintLen_one (by omega), varintLen_one (by omega), if_neg (lt_irrefl 1)]
  have hlong : headerSize (cutTypes format fields) ≤ cutTypes format fields + 1 := by
    rw [headerSize, varintLen_one (by omega), varintLen_one (by omega), if_neg (lt_irrefl 1)]
  rw [keySize, MDB_MAXKEYSIZE]
  split_ifs <;> omega

/-- The key that `sqlite3BtreeInsert` hands to LMDB is within the limit for keys exactly if the
sizes of the fields, with at most 72 bytes of each text and blob, and of a header for them add up to
no more than the limit. The record is one `OP_MakeRecord` makes of a field for every column and an
integer, and stands anywhere in memory.

Assumes: the registers hold what registers can hold (`MadeRecord`). -/
theorem insert_key_fits_iff (hash : MdbHash) (pKeyInfo : KeyInfo) (fileFormat : ℕ)
    (fields : List Value) (rowid : Int64) (z : Bytes) (hcolumns : fields.length = pKeyInfo.nField)
    (hmade : MadeRecord fileFormat (fields ++ [.int rowid]) z) (mem : ℕ → UInt8) (a : ℕ)
    (hstands : Stands mem a z) (split : SplitRecord)
    (hsplit : splitRecord hash pKeyInfo fileFormat mem a z.length = split) :
    (split.key.bytes split.mem).length ≤ MDB_MAXKEYSIZE ↔
      keySize fileFormat fields ≤ MDB_MAXKEYSIZE := by
  rw [MdbVal.bytes, read_length, ← hsplit, splitRecord_size hash pKeyInfo hmade
    (serialType_int_lt fileFormat rowid) hstands (by omega)]

/-- A text of any length is within the limit, here one of 5000 bytes. -/
theorem insert_key_fits_text :
    ∃ z : Bytes, MadeRecord 4 ([.text (List.replicate 5000 97)] ++ [.int 300]) z ∧
      ((splitRecord .fnv ⟨[(none, false)]⟩ 4 (ofBytes z) 0 z.length).key.bytes
        (splitRecord .fnv ⟨[(none, false)]⟩ 4 (ofBytes z) 0 z.length).mem).length ≤
          MDB_MAXKEYSIZE := by
  obtain ⟨z, hmade⟩ : ∃ z, MadeRecord 4 ([.text (List.replicate 5000 97)] ++ [.int 300]) z :=
    exists_madeRecord (by decide +kernel) (by decide +kernel)
  exact ⟨z, hmade, (insert_key_fits_iff .fnv ⟨[(none, false)]⟩ 4 _ 300 z rfl hmade _ 0
    (stands_ofBytes z) _ rfl).mpr (keySize_le_of_columns (by decide))⟩

/-- The key of 28 texts of 72 bytes has 2073 bytes. -/
theorem insert_key_too_large :
    ∃ z : Bytes, MadeRecord 4 (List.replicate 28 (.text (List.replicate 72 97)) ++ [.int 300]) z ∧
      ((splitRecord .fnv ⟨List.replicate 28 (none, false)⟩ 4 (ofBytes z) 0 z.length).key.bytes
        (splitRecord .fnv ⟨List.replicate 28 (none, false)⟩ 4 (ofBytes z) 0
          z.length).mem).length = 2073 ∧ MDB_MAXKEYSIZE < 2073 := by
  obtain ⟨z, hmade⟩ : ∃ z,
      MadeRecord 4 (List.replicate 28 (.text (List.replicate 72 97)) ++ [.int 300]) z :=
    exists_madeRecord (by decide +kernel) (by decide +kernel)
  refine ⟨z, hmade, ?_, by decide⟩
  rw [MdbVal.bytes, read_length, splitRecord_size .fnv ⟨List.replicate 28 (none, false)⟩ hmade
    (serialType_int_lt 4 300) (stands_ofBytes z) (by decide)]
  decide +kernel

end

end LumoSQL
