import LumoSQL.Record.Value

/-!
# Records

A record is a header and the serial forms of its fields. The header is its own size as a varint and
the serial types of the fields. `opMakeRecord` is the opcode that makes one, which leaves out the
zeros at its end, and `sqlite3VdbeRecordUnpack` takes one apart.

`recordBytes` is a record with a header of any size that is right for its fields; `headerSize_right`
says that the size `OP_MakeRecord` computes is one. `makeRecord_expanded` says that the opcode
writes such a record, with the zeros at its end written out, and `recordUnpack_fields` that it is
taken apart into its fields.
-/

namespace LumoSQL

open Foundation List Value

/-! ### The functions -/

/-- The size of a header with `nHdr` bytes of serial types:
`nHdr += nVarint = sqlite3VarintLen(nHdr); if( nVarint<sqlite3VarintLen(nHdr) ) nHdr++;`. -/
def headerSize (nHdr : ℕ) : ℕ :=
  let nVarint := sqlite3VarintLen nHdr
  let nHdr := nHdr + nVarint
  if nVarint < sqlite3VarintLen nHdr then nHdr + 1 else nHdr

def Value.nZero : Value → ℕ
  | .blob _ nZero => nZero
  | _ => 0

/-- A register with bytes and a zero tail is expanded before it goes into a record. -/
def Value.forRecord (pRec : Value) : Value :=
  match pRec with
  | .blob (byte :: rest) nZero => Value.expand (.blob (byte :: rest) nZero)
  | v => v

/-- What the first loop of `OP_MakeRecord` adds up. -/
structure RecordTotals where
  nData : ℕ
  nHdr : ℕ
  nZero : ℕ

/-- One round of the first loop of `OP_MakeRecord`. -/
def RecordTotals.add (fileFormat : ℕ) (totals : RecordTotals) (pRec : Value) : RecordTotals :=
  let serialType := sqlite3VdbeSerialType pRec fileFormat
  let len := sqlite3VdbeSerialTypeLen serialType
  { nData := totals.nData + len
    nHdr := totals.nHdr + sqlite3VarintLen serialType
    nZero :=
      if 0 < pRec.nZero then totals.nZero + pRec.nZero
      else if len ≠ 0 then 0
      else totals.nZero }

def typeBytes (fileFormat : ℕ) (fields : List Value) : Bytes :=
  fields.flatMap fun pRec ↦ putVarint32 (sqlite3VdbeSerialType pRec fileFormat)

/-- The last loop of `OP_MakeRecord`, which writes the serial forms from byte `i` on. -/
def putFields (fileFormat nByte : ℕ) : ℕ → List Value → Bytes
  | _, [] => []
  | i, pRec :: rest =>
    let written := sqlite3VdbeSerialPut (nByte - i) pRec fileFormat
    written ++ putFields fileFormat nByte (i + written.length) rest

/-- What the first loop of `OP_MakeRecord` adds up for its registers. -/
def recordTotals (fileFormat : ℕ) (pData0 : List Value) : RecordTotals :=
  (pData0.map Value.forRecord).foldl (RecordTotals.add fileFormat) ⟨0, 0, 0⟩

/-- `nByte`, the size of the record without the zeros left out. -/
def RecordTotals.nByte (totals : RecordTotals) : ℕ :=
  headerSize totals.nHdr + totals.nData - totals.nZero

/-- `OP_MakeRecord` on registers whose affinities have been applied: the bytes written and the
number of zeros left out; `none` is the jump to `too_big`. -/
def opMakeRecord (limit fileFormat : ℕ) (pData0 : List Value) : Option (Bytes × ℕ) :=
  let fields := pData0.map Value.forRecord
  let totals := recordTotals fileFormat pData0
  -- an `int` of zeros that wraps makes `nByte` larger than any limit
  if limit < totals.nByte ∨ 2 ^ 31 ≤ totals.nZero then none
  else
    let header := putVarint32 (headerSize totals.nHdr) ++ typeBytes fileFormat fields
    some (header ++ putFields fileFormat totals.nByte header.length fields, totals.nZero)

/-- The loop of `sqlite3VdbeRecordUnpack`, with room for `room` more fields. -/
def recordUnpackLoop (mem : ℕ → UInt8) (aKey nKey szHdr : ℕ) : ℕ → ℕ → ℕ → List Mem
  | 0, _, _ => []
  | room + 1, idx, d =>
    if idx < szHdr ∧ d ≤ nKey then
      let serialType := getVarint32 mem (aKey + idx)
      let pMem := sqlite3VdbeSerialGet mem (aKey + d) serialType.1
      pMem.1 :: recordUnpackLoop mem aKey nKey szHdr room (idx + serialType.2) (d + pMem.2)
    else []

/-- `sqlite3VdbeRecordUnpack` into a record with room for `nField` fields. -/
def sqlite3VdbeRecordUnpack (mem : ℕ → UInt8) (nKey pKey nField : ℕ) : List Mem :=
  let szHdr := getVarint32 mem pKey
  recordUnpackLoop mem pKey nKey szHdr.1 nField szHdr.2 szHdr.1

/-! ### Records as strings of bytes -/

def dataBytes (fileFormat : ℕ) (fields : List Value) : Bytes :=
  fields.flatMap fun pRec ↦ serialBytes pRec fileFormat

/-- A record with a header of `hdr` bytes. -/
def recordBytes (fileFormat hdr : ℕ) (fields : List Value) : Bytes :=
  putVarint32 hdr ++ (typeBytes fileFormat fields ++ dataBytes fileFormat fields)

/-- The fields can be in a record: the zero tails are written out and the serial types are `u32`. -/
structure Recordable (fileFormat : ℕ) (fields : List Value) : Prop where
  expanded : ∀ v ∈ fields, v.Expanded
  types : ∀ v ∈ fields, sqlite3VdbeSerialType v fileFormat < 2 ^ 32

/-- A header of `hdr` bytes is one for these fields. -/
structure HeaderFor (fileFormat hdr : ℕ) (fields : List Value) : Prop where
  fits : hdr < 2 ^ 32
  size : hdr = sqlite3VarintLen hdr + (typeBytes fileFormat fields).length

section

variable {format hdr : ℕ} {fields left right : List Value} {v : Value}

theorem Recordable.cons : Recordable format (v :: fields) ↔
    (v.Expanded ∧ sqlite3VdbeSerialType v format < 2 ^ 32) ∧ Recordable format fields := by
  constructor
  · rintro ⟨hexpanded, htypes⟩
    rw [forall_mem_cons] at hexpanded htypes
    exact ⟨⟨hexpanded.1, htypes.1⟩, hexpanded.2, htypes.2⟩
  · rintro ⟨⟨hexpanded, htype⟩, hrest⟩
    exact ⟨forall_mem_cons.mpr ⟨hexpanded, hrest.expanded⟩,
      forall_mem_cons.mpr ⟨htype, hrest.types⟩⟩

theorem Recordable.append_int (hfields : Recordable format fields) (r : Int64) :
    Recordable format (fields ++ [.int r]) := by
  refine ⟨forall_mem_append.mpr ⟨hfields.expanded, forall_mem_singleton.mpr trivial⟩,
    forall_mem_append.mpr ⟨hfields.types, forall_mem_singleton.mpr ?_⟩⟩
  exact lt_trans (serialType_int_lt format r) (by decide)

@[simp] theorem typeBytes_nil (format : ℕ) : typeBytes format [] = [] := rfl

@[simp] theorem dataBytes_nil (format : ℕ) : dataBytes format [] = [] := rfl

theorem typeBytes_cons (format : ℕ) (v : Value) (fields : List Value) :
    typeBytes format (v :: fields) =
      putVarint32 (sqlite3VdbeSerialType v format) ++ typeBytes format fields := rfl

theorem dataBytes_cons (format : ℕ) (v : Value) (fields : List Value) :
    dataBytes format (v :: fields) =
      serialBytes v format ++ dataBytes format fields := rfl

theorem typeBytes_append (format : ℕ) (left right : List Value) :
    typeBytes format (left ++ right) =
      typeBytes format left ++ typeBytes format right := flatMap_append

theorem dataBytes_append (format : ℕ) (left right : List Value) :
    dataBytes format (left ++ right) =
      dataBytes format left ++ dataBytes format right := flatMap_append

theorem varintLen_cases {n : ℕ} (hn : n < 2 ^ 32) : (n < 2 ^ 7 ∧ sqlite3VarintLen n = 1) ∨
    (2 ^ 7 ≤ n ∧ n < 2 ^ 14 ∧ sqlite3VarintLen n = 2) ∨
    (2 ^ 14 ≤ n ∧ n < 2 ^ 21 ∧ sqlite3VarintLen n = 3) ∨
    (2 ^ 21 ≤ n ∧ n < 2 ^ 28 ∧ sqlite3VarintLen n = 4) ∨ (2 ^ 28 ≤ n ∧ sqlite3VarintLen n = 5) := by
  by_cases h1 : n < 2 ^ 7
  · exact .inl ⟨h1, varintLen_of_range (n := 0) (.inl rfl) (by omega) (by omega)⟩
  by_cases h2 : n < 2 ^ 14
  · exact .inr (.inl ⟨by omega, h2, varintLen_of_range (n := 1) (.inr (by omega)) (by omega)
      (by omega)⟩)
  by_cases h3 : n < 2 ^ 21
  · exact .inr (.inr (.inl ⟨by omega, h3, varintLen_of_range (n := 2) (.inr (by omega))
      (by omega) (by omega)⟩))
  by_cases h4 : n < 2 ^ 28
  · exact .inr (.inr (.inr (.inl ⟨by omega, h4, varintLen_of_range (n := 3)
      (.inr (by omega)) (by omega) (by omega)⟩)))
  · exact .inr (.inr (.inr (.inr ⟨by omega, varintLen_of_range (n := 4)
      (.inr (by omega)) (by omega) (by omega)⟩)))

theorem varintLen_one {n : ℕ} (hn : n < 128) : sqlite3VarintLen n = 1 := by
  have hcases := varintLen_cases (n := n) (by omega)
  omega

/-- The size computed for a header is right. -/
theorem headerSize_right {nHdr : ℕ} (hn : nHdr < 2 ^ 31) :
    headerSize nHdr = sqlite3VarintLen (headerSize nHdr) + nHdr ∧ headerSize nHdr < 2 ^ 32 := by
  simp only [headerSize]
  have hself := varintLen_cases (n := nHdr) (by omega)
  have hsum := varintLen_cases (n := nHdr + sqlite3VarintLen nHdr) (by omega)
  have hnext := varintLen_cases (n := nHdr + sqlite3VarintLen nHdr + 1) (by omega)
  split_ifs with hlonger
  · omega
  · omega

/-- The size computed for a header is never the first one with a longer varint: one less has a
varint of the same length. -/
theorem headerSize_pred {nHdr : ℕ} (hn : nHdr < 2 ^ 31) :
    sqlite3VarintLen (headerSize nHdr - 1) = sqlite3VarintLen (headerSize nHdr) := by
  simp only [headerSize]
  have hself := varintLen_cases (n := nHdr) (by omega)
  have hsum := varintLen_cases (n := nHdr + sqlite3VarintLen nHdr) (by omega)
  have hnext := varintLen_cases (n := nHdr + sqlite3VarintLen nHdr + 1) (by omega)
  have hpred := varintLen_cases (n := nHdr + sqlite3VarintLen nHdr - 1) (by omega)
  split_ifs with hlonger
  · rw [Nat.add_sub_cancel]
    omega
  · omega

end

/-! ### Taking a record apart -/

/-- The registers for fields whose serial forms are next to each other in memory. -/
def memsAt (fileFormat : ℕ) : ℕ → List Value → List Mem
  | _, [] => []
  | a, v :: rest => v.memAt a :: memsAt fileFormat (a + (serialBytes v fileFormat).length) rest

section

variable {mem : ℕ → UInt8} {format : ℕ} {fields : List Value}

@[simp] theorem memsAt_length (format a : ℕ) (fields : List Value) :
    (memsAt format a fields).length = fields.length := by
  induction fields generalizing a with
  | nil => rfl
  | cons v rest ih => rw [memsAt, length_cons, length_cons, ih]

theorem memsAt_value (hfields : Recordable format fields) {a : ℕ}
    (hstands : Stands mem a (dataBytes format fields)) :
    (memsAt format a fields).map (Mem.value mem) = fields := by
  induction fields generalizing a with
  | nil => rfl
  | cons v rest ih =>
    obtain ⟨⟨hexpanded, _⟩, hrest⟩ := Recordable.cons.mp hfields
    rw [dataBytes_cons, stands_append] at hstands
    rw [memsAt, map_cons, value_memAt hexpanded 0 format hstands.1, ih hrest hstands.2]

/-- The loop takes the fields off the types and the data that are left. -/
theorem recordUnpackLoop_fields {aKey nKey szHdr room idx d : ℕ}
    (hfields : Recordable format fields)
    (htypes : Stands mem (aKey + idx) (typeBytes format fields))
    (hdata : Stands mem (aKey + d) (dataBytes format fields))
    (hidx : idx + (typeBytes format fields).length = szHdr)
    (hd : d + (dataBytes format fields).length ≤ nKey) :
    recordUnpackLoop mem aKey nKey szHdr room idx d =
      (memsAt format (aKey + d) fields).take room := by
  induction fields generalizing room idx d with
  | nil =>
    cases room with
    | zero => rfl
    | succ room =>
      rw [typeBytes_nil, length_nil] at hidx
      rw [recordUnpackLoop, if_neg (by omega)]
      rfl
  | cons v rest ih =>
    cases room with
    | zero => rfl
    | succ room =>
      obtain ⟨⟨hexpanded, htype⟩, hrest⟩ := Recordable.cons.mp hfields
      have hpos := varintLen_pos (sqlite3VdbeSerialType v format)
      rw [typeBytes_cons, stands_append, putVarint32_length htype, add_assoc] at htypes
      rw [typeBytes_cons, length_append, putVarint32_length htype] at hidx
      rw [dataBytes_cons, stands_append, add_assoc] at hdata
      rw [dataBytes_cons, length_append] at hd
      have hget := serialGet_put hexpanded 0 format hdata.1
      rw [← serialBytes_length hexpanded] at hget
      rw [recordUnpackLoop, if_pos (by omega)]
      simp only [getVarint32_put htype htypes.1, hget]
      rw [ih hrest htypes.2 hdata.2 (by omega) (by omega), memsAt, take_succ_cons,
        add_assoc]

theorem recordUnpack_fields {pKey nKey hdr : ℕ} (nField : ℕ) (hfields : Recordable format fields)
    (hhdr : HeaderFor format hdr fields) (hstands : Stands mem pKey (recordBytes format hdr fields))
    (hsize : (recordBytes format hdr fields).length ≤ nKey) :
    sqlite3VdbeRecordUnpack mem nKey pKey nField =
      (memsAt format (pKey + hdr) fields).take nField := by
  have hlen := putVarint32_length hhdr.fits
  have hsz := hhdr.size
  rw [recordBytes, length_append, length_append, hlen] at hsize
  rw [recordBytes, stands_append, stands_append, hlen, add_assoc, ← hsz] at hstands
  rw [sqlite3VdbeRecordUnpack, getVarint32_put hhdr.fits hstands.1]
  exact recordUnpackLoop_fields hfields hstands.2.1 hstands.2.2 hsz.symm (by omega)

theorem HeaderFor.stands_data {a hdr : ℕ} (hhdr : HeaderFor format hdr fields)
    (hstands : Stands mem a (recordBytes format hdr fields)) :
    Stands mem (a + hdr) (dataBytes format fields) := by
  rw [recordBytes, stands_append, stands_append, putVarint32_length hhdr.fits, add_assoc,
    ← hhdr.size] at hstands
  exact hstands.2.2

/-- The registers of a record that is taken apart hold its first fields. -/
theorem recordUnpack_values {hdr : ℕ} (nField : ℕ) (hfields : Recordable format fields)
    (hhdr : HeaderFor format hdr fields) {z : Bytes} (hz : z = recordBytes format hdr fields) :
    (sqlite3VdbeRecordUnpack (ofBytes z) z.length 0 nField).map (Mem.value (ofBytes z)) =
      fields.take nField := by
  subst hz
  have hstands := stands_ofBytes (recordBytes format hdr fields)
  rw [recordUnpack_fields nField hfields hhdr hstands (le_refl _), map_take,
    memsAt_value hfields (hhdr.stands_data hstands)]

end

/-! ### Making a record -/

/-- The largest size of a text, a blob or a record, `SQLITE_MAX_LENGTH`. -/
def SQLITE_MAX_LENGTH : ℕ := 1000000000

/-- A field as `OP_MakeRecord` writes it: its bytes are all in the register, or none are. -/
def Value.Plain (v : Value) : Prop := v.Expanded ∨ ∃ nZero, v = .blob [] nZero

def fieldLen (fileFormat : ℕ) (v : Value) : ℕ :=
  sqlite3VdbeSerialTypeLen (sqlite3VdbeSerialType v fileFormat)

def fieldsLen (fileFormat : ℕ) : List Value → ℕ
  | [] => 0
  | v :: rest => fieldLen fileFormat v + fieldsLen fileFormat rest

/-- The field consists of zeros that are not stored, or of nothing. -/
def Soft (fileFormat : ℕ) (v : Value) : Prop := 0 < v.nZero ∨ fieldLen fileFormat v = 0

instance (fileFormat : ℕ) (v : Value) : Decidable (Soft fileFormat v) :=
  inferInstanceAs (Decidable (_ ∨ _))

/-- The zeros at the end of the fields, which the record leaves out. -/
def trailingZeros (fileFormat : ℕ) : List Value → ℕ
  | [] => 0
  | v :: rest => trailingZeros fileFormat rest +
      if ∀ w ∈ rest, Soft fileFormat w then v.nZero else 0

section

variable {fileFormat : ℕ} {v : Value} {fields : List Value}

theorem Value.forRecord_plain (v : Value) : v.forRecord.Plain := by
  match v with
  | .null => exact .inl trivial
  | .int i => exact .inl trivial
  | .real r => exact .inl trivial
  | .text bytes => exact .inl trivial
  | .blob [] nZero => exact .inr ⟨nZero, rfl⟩
  | .blob (byte :: rest) nZero => exact .inl rfl

theorem Value.expand_forRecord (v : Value) : v.forRecord.expand = v.expand := by
  match v with
  | .null => rfl
  | .int i => rfl
  | .real r => rfl
  | .text bytes => rfl
  | .blob [] nZero => rfl
  | .blob (byte :: rest) nZero =>
    exact expand_eq_self (expand_expanded (.blob (byte :: rest) nZero))

theorem Value.nZero_of_expanded (hexpanded : v.Expanded) : v.nZero = 0 := by
  cases v with
  | blob bytes nZero => exact hexpanded
  | _ => rfl

variable (nZero : ℕ) (totals : RecordTotals)

theorem fieldLen_zeros : fieldLen fileFormat (.blob [] nZero) = nZero := by
  rw [fieldLen, sqlite3VdbeSerialType, serialTypeLen_large (by omega), length_nil]
  omega

theorem serialBytes_zeros :
    serialBytes (Value.expand (.blob [] nZero)) fileFormat = List.replicate nZero 0 := by
  rw [Value.expand, serialBytes, serialPut_blob]
  simp

theorem fieldLen_expand (v : Value) : fieldLen fileFormat v.expand = fieldLen fileFormat v := by
  rw [fieldLen, serialType_expand, fieldLen]

/-- The first loop of `OP_MakeRecord` adds up the sizes. -/
theorem totals_nData : (fields.foldl (RecordTotals.add fileFormat) totals).nData =
      totals.nData + fieldsLen fileFormat fields := by
  induction fields generalizing totals with
  | nil => rfl
  | cons v rest ih =>
    rw [foldl_cons, ih, fieldsLen]
    exact add_assoc ..

/-- The first loop of `OP_MakeRecord` adds up the sizes of the serial types. -/
theorem totals_nHdr (htypes : ∀ v ∈ fields, sqlite3VdbeSerialType v fileFormat < 2 ^ 32)
    (totals : RecordTotals) : (fields.foldl (RecordTotals.add fileFormat) totals).nHdr =
      totals.nHdr + (typeBytes fileFormat fields).length := by
  induction fields generalizing totals with
  | nil => rfl
  | cons v rest ih =>
    rw [foldl_cons, ih fun w hw ↦ htypes w (mem_cons_of_mem v hw), typeBytes_cons,
      length_append, putVarint32_length (htypes v (.head _))]
    exact add_assoc ..

/-- The first loop of `OP_MakeRecord` counts the zeros at the end. -/
theorem totals_nZero :
    (fields.foldl (RecordTotals.add fileFormat) totals).nZero = trailingZeros fileFormat fields +
      if ∀ w ∈ fields, Soft fileFormat w then totals.nZero else 0 := by
  induction fields generalizing totals with
  | nil => simp [trailingZeros]
  | cons v rest ih =>
    rw [foldl_cons, ih, trailingZeros, add_assoc]
    refine congrArg (trailingZeros fileFormat rest + ·) ?_
    by_cases hrest : ∀ w ∈ rest, Soft fileFormat w
    · have hall : (∀ w ∈ v :: rest, Soft fileFormat w) ↔ Soft fileFormat v := by
        rw [forall_mem_cons, and_iff_left hrest]
      rw [if_pos hrest, if_pos hrest]
      simp only [hall]
      by_cases hsoft : Soft fileFormat v
      · rw [if_pos hsoft, RecordTotals.add]
        by_cases hzero : 0 < v.nZero
        · rw [if_pos hzero]
          exact add_comm ..
        · have hlen : fieldLen fileFormat v = 0 := hsoft.resolve_left hzero
          have hnot : ¬ sqlite3VdbeSerialTypeLen (sqlite3VdbeSerialType v fileFormat) ≠ 0 :=
            not_not_intro hlen
          rw [if_neg hzero, if_neg hnot, Nat.eq_zero_of_not_pos hzero, Nat.zero_add]
      · have hhard : ¬ 0 < v.nZero ∧ fieldLen fileFormat v ≠ 0 := not_or.mp hsoft
        have hlen : sqlite3VdbeSerialTypeLen (sqlite3VdbeSerialType v fileFormat) ≠ 0 := hhard.2
        rw [if_neg hsoft, RecordTotals.add, if_neg hhard.1, if_pos hlen,
          Nat.eq_zero_of_not_pos hhard.1]
    · have hall : ¬ ∀ w ∈ v :: rest, Soft fileFormat w := fun hall ↦
        hrest fun w hw ↦ hall w (mem_cons_of_mem v hw)
      rw [if_neg hrest, if_neg hrest, if_neg hall]

/-- Fields that are zeros or nothing are zeros that are left out. -/
theorem soft_zeros (hplain : ∀ v ∈ fields, v.Plain) (hsoft : ∀ v ∈ fields, Soft fileFormat v) :
    trailingZeros fileFormat fields = fieldsLen fileFormat fields ∧
      dataBytes fileFormat (fields.map Value.expand) =
        List.replicate (fieldsLen fileFormat fields) 0 := by
  induction fields with
  | nil => exact ⟨rfl, rfl⟩
  | cons v rest ih =>
    obtain ⟨hv, hrest⟩ := forall_mem_cons.mp hsoft
    obtain ⟨hpv, hprest⟩ := forall_mem_cons.mp hplain
    obtain ⟨hzeros, hdata⟩ := ih hprest hrest
    have hfield : v.nZero = fieldLen fileFormat v ∧
        serialBytes v.expand fileFormat = List.replicate (fieldLen fileFormat v) 0 := by
      rcases hpv with hexpanded | ⟨nZero, rfl⟩
      · have hnone := nZero_of_expanded hexpanded
        have hlen : fieldLen fileFormat v = 0 := hv.resolve_left (by omega)
        refine ⟨by omega, ?_⟩
        rw [hlen, expand_eq_self hexpanded]
        exact eq_nil_of_length_eq_zero ((serialBytes_length hexpanded fileFormat).trans hlen)
      · rw [fieldLen_zeros, serialBytes_zeros]
        exact ⟨rfl, rfl⟩
    constructor
    · rw [trailingZeros, if_pos hrest, hzeros, fieldsLen, hfield.1, add_comm]
    · rw [map_cons, dataBytes_cons, hfield.2, hdata, fieldsLen, replicate_add]

theorem trailingZeros_le (fileFormat : ℕ) (hplain : ∀ v ∈ fields, v.Plain) :
    trailingZeros fileFormat fields ≤ fieldsLen fileFormat fields := by
  induction fields with
  | nil => exact le_refl 0
  | cons v rest ih =>
    obtain ⟨hpv, hprest⟩ := forall_mem_cons.mp hplain
    have hv : v.nZero ≤ fieldLen fileFormat v := by
      rcases hpv with hexpanded | ⟨nZero, rfl⟩
      · rw [nZero_of_expanded hexpanded]
        exact Nat.zero_le _
      · exact le_of_eq (fieldLen_zeros nZero).symm
    have hrest := ih hprest
    rw [trailingZeros, fieldsLen]
    split_ifs with hsoft <;> omega

/-- The last loop of `OP_MakeRecord` writes the serial forms, but for the zeros at the end. -/
theorem putFields_expanded {nByte i : ℕ} (hplain : ∀ v ∈ fields, v.Plain)
    (hroom : nByte + trailingZeros fileFormat fields = i + fieldsLen fileFormat fields) :
    putFields fileFormat nByte i fields ++ List.replicate (trailingZeros fileFormat fields) 0 =
      dataBytes fileFormat (fields.map Value.expand) := by
  induction fields generalizing i with
  | nil => rfl
  | cons v rest ih =>
    obtain ⟨hpv, hprest⟩ := forall_mem_cons.mp hplain
    have hle := trailingZeros_le fileFormat hprest
    rw [trailingZeros, fieldsLen] at hroom
    rw [putFields, map_cons, dataBytes_cons, trailingZeros]
    -- a field is cut only if all that is written after it is nothing
    by_cases hcut : (∀ w ∈ rest, Soft fileFormat w) ∧ ∃ nZero, v = .blob [] nZero
    · obtain ⟨hsoft, nZero, rfl⟩ := hcut
      obtain ⟨hzeros, hdata⟩ := soft_zeros hprest hsoft
      rw [if_pos hsoft, fieldLen_zeros, show (Value.blob [] nZero).nZero = nZero from rfl] at hroom
      have hnothing : sqlite3VdbeSerialPut (nByte - i) (.blob [] nZero) fileFormat = [] := by
        rw [serialPut_blob, show nByte - i = 0 by omega, min_zero]
        rfl
      have hrest := ih (i := i) hprest (by omega)
      simp only [hnothing]
      rw [nil_append, length_nil, add_zero, if_pos hsoft, replicate_add,
        ← append_assoc, hrest, hdata, serialBytes_zeros,
        show (Value.blob [] nZero).nZero = nZero from rfl, ← replicate_add,
        ← replicate_add, add_comm]
    · have hnone : (if ∀ w ∈ rest, Soft fileFormat w then v.nZero else 0) = 0 := by
        split_ifs with hsoft
        · rcases hpv with hexpanded | hzeros
          · exact nZero_of_expanded hexpanded
          · exact absurd ⟨hsoft, hzeros⟩ hcut
        · rfl
      rw [hnone, add_zero] at hroom ⊢
      have hwritten : sqlite3VdbeSerialPut (nByte - i) v fileFormat =
          serialBytes v.expand fileFormat := by
        rcases hpv with hexpanded | ⟨nZero, rfl⟩
        · rw [serialPut_expanded hexpanded, expand_eq_self hexpanded]
        · rw [fieldLen_zeros] at hroom
          rw [serialPut_blob, serialBytes_zeros, nil_append, length_nil, zero_add,
            Nat.min_eq_left (by omega), Nat.sub_zero]
      have hlen := (serialBytes_length v.expand_expanded fileFormat).trans (fieldLen_expand v)
      have hrest := ih (i := i + fieldLen fileFormat v) hprest (by omega)
      simp only [hwritten, hlen]
      rw [append_assoc, hrest]

theorem dataBytes_length (fields : List Value) :
    (dataBytes fileFormat (fields.map Value.expand)).length = fieldsLen fileFormat fields := by
  induction fields with
  | nil => rfl
  | cons v rest ih =>
    rw [map_cons, dataBytes_cons, length_append, ih, fieldsLen, ← fieldLen_expand]
    exact congrArg (· + _) (serialBytes_length v.expand_expanded fileFormat)

/-- The last loop of `OP_MakeRecord` fills the record: `assert( i==nByte )`. -/
theorem putFields_length {nByte i : ℕ} (hplain : ∀ v ∈ fields, v.Plain)
    (hroom : nByte + trailingZeros fileFormat fields = i + fieldsLen fileFormat fields) :
    i + (putFields fileFormat nByte i fields).length = nByte := by
  have hlength := congrArg List.length (putFields_expanded hplain hroom)
  rw [length_append, length_replicate, dataBytes_length] at hlength
  omega

theorem typeBytes_expand (fields : List Value) :
    typeBytes fileFormat (fields.map Value.expand) = typeBytes fileFormat fields := by
  rw [typeBytes, typeBytes, flatMap_map]
  simp [serialType_expand]

def makeHeader (fileFormat : ℕ) (fields : List Value) : ℕ :=
  headerSize (typeBytes fileFormat fields).length

/-- The record `OP_MakeRecord` makes of registers, with its zeros written out, is a header that is
right for the fields and the serial forms of the fields.
Assumes: the limit is a length limit, and the registers hold values of lengths below it. -/
theorem makeRecord_expanded {limit : ℕ} {pData0 : List Value} {z : Bytes} {nZero : ℕ}
    (hlimit : limit ≤ SQLITE_MAX_LENGTH)
    (htypes : ∀ v ∈ pData0, sqlite3VdbeSerialType v fileFormat < 2 ^ 32)
    (hmade : opMakeRecord limit fileFormat pData0 = some (z, nZero)) :
    z ++ List.replicate nZero 0 = recordBytes fileFormat
        (makeHeader fileFormat (pData0.map Value.expand)) (pData0.map Value.expand) ∧
      HeaderFor fileFormat (makeHeader fileFormat (pData0.map Value.expand))
        (pData0.map Value.expand) ∧
      (typeBytes fileFormat (pData0.map Value.expand)).length < 2 ^ 31 ∧
      z.length = (recordTotals fileFormat pData0).nByte := by
  have hplain : ∀ v ∈ pData0.map Value.forRecord, v.Plain := by
    intro v hv
    obtain ⟨w, _, rfl⟩ := mem_map.mp hv
    exact w.forRecord_plain
  have hexpand : (pData0.map Value.forRecord).map Value.expand = pData0.map Value.expand := by
    rw [map_map]
    exact map_congr_left fun v _ ↦ v.expand_forRecord
  have hfields : ∀ v ∈ pData0.map Value.forRecord, sqlite3VdbeSerialType v fileFormat < 2 ^ 32 := by
    intro v hv
    obtain ⟨w, hw, rfl⟩ := mem_map.mp hv
    rw [← serialType_expand, w.expand_forRecord, serialType_expand]
    exact htypes w hw
  have htypeBytes : typeBytes fileFormat (pData0.map Value.forRecord) =
      typeBytes fileFormat (pData0.map Value.expand) := by
    rw [← hexpand, typeBytes_expand]
  have hle := trailingZeros_le fileFormat hplain
  simp only [opMakeRecord, RecordTotals.nByte, recordTotals, totals_nData, totals_nHdr hfields,
    totals_nZero, zero_add, ite_self, add_zero, htypeBytes] at hmade ⊢
  split_ifs at hmade with hbig
  cases hmade
  have hself : (typeBytes fileFormat (pData0.map Value.expand)).length ≤
      headerSize (typeBytes fileFormat (pData0.map Value.expand)).length := by
    simp only [headerSize]
    split_ifs <;> omega
  have hsmall : (typeBytes fileFormat (pData0.map Value.expand)).length < 2 ^ 31 := by
    rw [SQLITE_MAX_LENGTH] at hlimit
    omega
  obtain ⟨hsize, hfits⟩ := headerSize_right hsmall
  have hheader : (putVarint32 (headerSize (typeBytes fileFormat (pData0.map Value.expand)).length)
      ++ typeBytes fileFormat (pData0.map Value.expand)).length =
        headerSize (typeBytes fileFormat (pData0.map Value.expand)).length := by
    rw [length_append, putVarint32_length hfits, ← hsize]
  refine ⟨?_, ⟨hfits, hsize⟩, hsmall, ?_⟩
  · rw [append_assoc, putFields_expanded hplain (by omega), hexpand, recordBytes, makeHeader,
      append_assoc]
  · rw [length_append, putFields_length hplain (by omega)]

end

/-! ### Records made of registers -/

def Value.size : Value → ℕ
  | .text bytes => bytes.length
  | .blob bytes nZero => bytes.length + nZero
  | _ => 0

/-- The bytes are those of the record `OP_MakeRecord` makes of registers, with its zeros written
out. -/
structure MadeRecord (fileFormat : ℕ) (pData0 : List Value) (z : Bytes) : Prop where
  sizes : ∀ v ∈ pData0, v.size ≤ SQLITE_MAX_LENGTH
  made : ∃ limit bytes nZero, limit ≤ SQLITE_MAX_LENGTH ∧
    opMakeRecord limit fileFormat pData0 = some (bytes, nZero) ∧ z = bytes ++ List.replicate nZero 0

section

variable {fileFormat : ℕ} {pData0 : List Value} {z : Bytes}

theorem serialType_lt {v : Value} (hsize : v.size ≤ SQLITE_MAX_LENGTH) (fileFormat : ℕ) :
    sqlite3VdbeSerialType v fileFormat < 2 ^ 32 := by
  rw [SQLITE_MAX_LENGTH] at hsize
  cases v with
  | null => exact Nat.two_pow_pos 32
  | int i =>
    have hrange := serialTypeInt_range i.toInt fileFormat
    rw [sqlite3VdbeSerialType]
    omega
  | real r =>
    rw [sqlite3VdbeSerialType]
    omega
  | text bytes | blob bytes nZero =>
    rw [Value.size] at hsize
    rw [sqlite3VdbeSerialType]
    omega

/-- There is a record of registers whose values are not too large for it. -/
theorem exists_madeRecord (hsizes : ∀ v ∈ pData0, v.size ≤ SQLITE_MAX_LENGTH)
    (hmade : (opMakeRecord SQLITE_MAX_LENGTH fileFormat pData0).isSome = true) :
    ∃ z, MadeRecord fileFormat pData0 z := by
  obtain ⟨⟨bytes, nZero⟩, hopcode⟩ := Option.isSome_iff_exists.mp hmade
  exact ⟨_, hsizes, SQLITE_MAX_LENGTH, bytes, nZero, le_refl _, hopcode, rfl⟩

section

variable (hmade : MadeRecord fileFormat pData0 z)

include hmade

theorem MadeRecord.types : ∀ v ∈ pData0, sqlite3VdbeSerialType v fileFormat < 2 ^ 32 := fun v hv ↦
  serialType_lt (hmade.sizes v hv) fileFormat

theorem MadeRecord.recordable : Recordable fileFormat (pData0.map Value.expand) := by
  refine ⟨fun v hv ↦ ?_, fun v hv ↦ ?_⟩
  · obtain ⟨w, _, rfl⟩ := mem_map.mp hv
    exact w.expand_expanded
  · obtain ⟨w, hw, rfl⟩ := mem_map.mp hv
    rw [serialType_expand]
    exact hmade.types w hw

theorem MadeRecord.bytes_eq :
    z = recordBytes fileFormat (makeHeader fileFormat (pData0.map Value.expand))
      (pData0.map Value.expand) := by
  obtain ⟨limit, bytes, nZero, hlimit, hopcode, rfl⟩ := hmade.made
  exact (makeRecord_expanded hlimit hmade.types hopcode).1

theorem MadeRecord.header : HeaderFor fileFormat (makeHeader fileFormat (pData0.map Value.expand))
      (pData0.map Value.expand) := by
  obtain ⟨limit, bytes, nZero, hlimit, hopcode, rfl⟩ := hmade.made
  exact (makeRecord_expanded hlimit hmade.types hopcode).2.1

theorem MadeRecord.types_length :
    (typeBytes fileFormat (pData0.map Value.expand)).length < 2 ^ 31 := by
  obtain ⟨limit, bytes, nZero, hlimit, hopcode, rfl⟩ := hmade.made
  exact (makeRecord_expanded hlimit hmade.types hopcode).2.2.1

/-- The size of the header and one less have varints of one length. -/
theorem MadeRecord.header_pred :
    sqlite3VarintLen (makeHeader fileFormat (pData0.map Value.expand) - 1) =
      sqlite3VarintLen (makeHeader fileFormat (pData0.map Value.expand)) :=
  headerSize_pred hmade.types_length

end

/-- `OP_MakeRecord` fills the size it computed exactly, or that size is too large; and the record it
makes is taken apart into the values of the registers once its zeros are written out.
Assumes: the limit is a length limit, and the registers hold values of lengths below it. -/
theorem makeRecord_round_trip {limit : ℕ} (hlimit : limit ≤ SQLITE_MAX_LENGTH)
    (hsizes : ∀ v ∈ pData0, v.size ≤ SQLITE_MAX_LENGTH) :
    (opMakeRecord limit fileFormat pData0 = none ↔ limit < (recordTotals fileFormat pData0).nByte ∨
        2 ^ 31 ≤ (recordTotals fileFormat pData0).nZero) ∧
      ∀ z nZero, opMakeRecord limit fileFormat pData0 = some (z, nZero) →
        z.length = (recordTotals fileFormat pData0).nByte ∧
          ∀ record, record = z ++ List.replicate nZero 0 →
            (sqlite3VdbeRecordUnpack (ofBytes record) record.length 0 pData0.length).map
              (Mem.value (ofBytes record)) = pData0.map Value.expand := by
  constructor
  · simp only [opMakeRecord, ite_eq_left_iff, reduceCtorEq, imp_false, not_not]
  · intro z nZero hopcode
    have hmade : MadeRecord fileFormat pData0 (z ++ List.replicate nZero 0) :=
      ⟨hsizes, limit, z, nZero, hlimit, hopcode, rfl⟩
    refine ⟨(makeRecord_expanded hlimit hmade.types hopcode).2.2.2, fun record hrecord ↦ ?_⟩
    rw [recordUnpack_values pData0.length hmade.recordable hmade.header
      (hrecord.trans hmade.bytes_eq)]
    exact take_of_length_le (length_map _).le

theorem makeRecord_round_trip_four : opMakeRecord 100 4 [.null, .int 5, .text [97], .blob [] 2] =
        some ([5, 0, 1, 15, 16, 5, 97], 2) ∧
      (sqlite3VdbeRecordUnpack (ofBytes [5, 0, 1, 15, 16, 5, 97, 0, 0]) 9 0 4).map
          (Mem.value (ofBytes [5, 0, 1, 15, 16, 5, 97, 0, 0])) =
        [.null, .int 5, .text [97], .blob [0, 0] 0] := by
  have hopcode : opMakeRecord 100 4 [.null, .int 5, .text [97], .blob [] 2] =
      some ([5, 0, 1, 15, 16, 5, 97], 2) := by decide
  have hboth := @makeRecord_round_trip 4 [.null, .int 5, .text [97], .blob [] 2] 100 (by decide)
    (by decide)
  exact ⟨hopcode, (hboth.2 _ _ hopcode).2 _ rfl⟩

end

end LumoSQL
