import LumoSQL.Foundation.ThreeWay
import LumoSQL.Record.Record

/-!
# Comparing records

`sqlite3MemCompare` compares two registers: nulls before numbers before text before blobs. An
integer and a double are compared as doubles, for which the integer is rounded to one
(`castDouble`), and two texts by a collating sequence. `sqlite3VdbeRecordCompare` compares a record
with registers that hold the fields of another one, field by field.

`CollSeq` carries what `sqlite3_create_collation` requires of a collating function. It makes the
comparison of registers oriented (`memCompare_oriented`), and transitive as long as no doubles are
compared (`memCompare_trans`): an integer and its neighbour can both be equal to one double.
`recordCompare_fields` says that the comparison with a record is the comparison with its fields, and
`recordCompare_cells` the same of fields that were written under different file formats.
-/

namespace LumoSQL

open Foundation List

/-! ### Registers -/

/-- A collating sequence: the function that compares two texts in the encoding of the database.
It is required to be oriented and transitive. -/
structure CollSeq where
  xCmp : Bytes → Bytes → ℤ
  oriented : Oriented xCmp
  trans : TransOn (fun _ ↦ True) xCmp

/-- `a < b`, `a == b` or `a > b` as -1, 0 and 1. -/
def compareNumbers (a b : ℤ) : ℤ := if a < b then -1 else if b < a then 1 else 0

/-- `memcmp` over the shorter length. -/
def memcmp (a b : Bytes) : ℤ := lexCompare (fun _ x y ↦ compareNumbers x.toNat y.toNat) 0 a b

/-- `memcmp` and then the lengths. -/
def compareBytes (a b : Bytes) : ℤ :=
  let rc := memcmp a b
  if rc = 0 then (a.length : ℤ) - b.length else rc

/-- The bits of the double next to a number that is not negative, to even if there are two. -/
def roundDouble (n : ℕ) : ℕ :=
  if n = 0 then 0
  else
    let e := n.log2
    let mantissa := if e ≤ 52 then n * 2 ^ (52 - e)
      else
        let q := n / 2 ^ (e - 52)
        let r := n % 2 ^ (e - 52)
        if 2 ^ (e - 53) < r ∨ (r = 2 ^ (e - 53) ∧ q % 2 = 1) then q + 1 else q
    (1022 + e) * 2 ^ 52 + mantissa

/-- The place of `(double)i` among the doubles: its bits without the sign, with the sign. -/
def castDouble (i : Int64) : ℤ :=
  if i.toInt < 0 then -(roundDouble i.toInt.natAbs : ℤ) else roundDouble i.toInt.natAbs

/-- The place of a double among the doubles; both zeros have the same. -/
def Real64.place (r : Real64) : ℤ :=
  if r.bits.toNat < 2 ^ 63 then r.bits.toNat else -((r.bits.toNat : ℤ) - 2 ^ 63)

def sqlite3MemCompare (pMem1 pMem2 : Value) (pColl : Option CollSeq) : ℤ :=
  match pMem1, pMem2 with
  | .null, .null => 0
  | .null, _ => -1
  | _, .null => 1
  | .int i1, .int i2 => compareNumbers i1.toInt i2.toInt
  | .int i1, .real r2 => compareNumbers (castDouble i1) r2.place
  | .real r1, .int i2 => compareNumbers r1.place (castDouble i2)
  | .real r1, .real r2 => compareNumbers r1.place r2.place
  | .int _, _ => -1
  | .real _, _ => -1
  | _, .int _ => 1
  | _, .real _ => 1
  | .text z1, .text z2 =>
    match pColl with
    | some coll => coll.xCmp z1 z2
    | none => compareBytes z1 z2
  | .text _, .blob _ _ => -1
  | .blob _ _, .text _ => 1
  -- the zeros of a tail are not looked at
  | .blob z1 _, .blob z2 _ => compareBytes z1 z2

/-! ### Records -/

/-- `struct KeyInfo`: the collating sequence of every column and whether its order is `DESC`. -/
structure KeyInfo where
  cols : List (Option CollSeq × Bool)

/-- `pKeyInfo->nField`. -/
def KeyInfo.nField (pKeyInfo : KeyInfo) : ℕ := pKeyInfo.cols.length

/-- The collating sequence of column `i`; there is none behind the columns. -/
def KeyInfo.aColl (pKeyInfo : KeyInfo) (i : ℕ) : Option CollSeq :=
  (pKeyInfo.cols[i]?).elim none Prod.fst

/-- Whether column `i` has the order `DESC`. -/
def KeyInfo.aSortOrder (pKeyInfo : KeyInfo) (i : ℕ) : Bool :=
  (pKeyInfo.cols[i]?).elim false Prod.snd

/-- The comparison of two values in column `i`. -/
def KeyInfo.compareField (pKeyInfo : KeyInfo) (i : ℕ) (v1 v2 : Value) : ℤ :=
  let rc := sqlite3MemCompare v1 v2 (pKeyInfo.aColl i)
  if pKeyInfo.aSortOrder i then -rc else rc

/-- `struct UnpackedRecord`: the registers, the three flags and the rowid found by a comparison. -/
structure UnpackedRecord where
  aMem : List Mem
  incrKey : Bool
  prefixMatch : Bool
  prefixSearch : Bool
  rowid : Int64
  deriving DecidableEq

/-- How the loop of `sqlite3VdbeRecordCompare` ends: at a difference in field `i`, with the register
of the record, or with the fields of one side, at byte `idx1` of the header. -/
inductive CompareEnd
  | differs (rc : ℤ) (i : ℕ) (mem1 : Mem)
  | ran (idx1 : ℕ)

/-- The loop of `sqlite3VdbeRecordCompare` over the fields of the right side. -/
def recordCompareLoop (pKeyInfo : KeyInfo) (aKey1 : ℕ → UInt8) (nKey1 szHdr1 : ℕ) :
    ℕ → ℕ → ℕ → List Value → CompareEnd
  | _, idx1, _, [] => .ran idx1
  | i, idx1, d1, v2 :: rest =>
    if idx1 < szHdr1 then
      let serialType1 := getVarint32 aKey1 idx1
      if nKey1 ≤ d1 ∧ 0 < sqlite3VdbeSerialTypeLen serialType1.1 then .ran (idx1 + serialType1.2)
      else
        let mem1 := sqlite3VdbeSerialGet aKey1 d1 serialType1.1
        let rc := pKeyInfo.compareField i (mem1.1.value aKey1) v2
        if rc ≠ 0 then .differs rc i mem1.1
        else recordCompareLoop pKeyInfo aKey1 nKey1 szHdr1 (i + 1) (idx1 + serialType1.2)
          (d1 + mem1.2) rest
    else .ran idx1

/-- `sqlite3VdbeRecordCompare` of a record and registers in memory: the result, and the registers'
record with the rowid of the left side if the flag `UNPACKED_PREFIX_SEARCH` asked for it. -/
def sqlite3VdbeRecordCompare (pKeyInfo : KeyInfo) (pKey1 : Bytes) (mem : ℕ → UInt8)
    (pPKey2 : UnpackedRecord) : ℤ × UnpackedRecord :=
  let aKey1 := ofBytes pKey1
  let szHdr1 := getVarint32 aKey1 0
  match recordCompareLoop pKeyInfo aKey1 pKey1.length szHdr1.1 0 szHdr1.2 szHdr1.1
      (pPKey2.aMem.map (Mem.value mem)) with
  | .differs rc i mem1 =>
    if pPKey2.prefixSearch ∧ i + 1 = pPKey2.aMem.length then
      match mem1 with
      | .int rowid => (rc, { pPKey2 with prefixSearch := false, rowid := rowid })
      | _ => (rc, { pPKey2 with prefixSearch := false })
    else (rc, pPKey2)
  | .ran idx1 =>
    if pPKey2.incrKey then (-1, pPKey2)
    else if pPKey2.prefixMatch then (0, pPKey2)
    else if idx1 < szHdr1.1 then (1, pPKey2)
    else (0, pPKey2)

/-! ### The order of the registers -/

section

variable {coll : Option CollSeq}

variable {a b : ℤ} (x y : UInt8) (info : KeyInfo) (i : ℕ)

theorem compareNumbers_neg : compareNumbers a b < 0 ↔ a < b := by
  unfold compareNumbers
  constructor
  · intro hneg
    split_ifs at hneg with hlt hgt
    · exact hlt
    all_goals cases hneg
  · intro hlt
    rw [if_pos hlt]
    decide

theorem compareNumbers_pos : 0 < compareNumbers a b ↔ b < a := by
  unfold compareNumbers
  constructor
  · intro hpos
    split_ifs at hpos with hlt hgt
    · cases hpos
    · exact hgt
    · cases hpos
  · intro hgt
    rw [if_neg (by omega), if_pos hgt]
    decide

theorem compareNumbers_oriented : Oriented compareNumbers := fun _ _ ↦
  compareNumbers_neg.trans compareNumbers_pos.symm

theorem compareNumbers_trans : TransOn (fun _ ↦ True) compareNumbers := by
  intro a b c _ _ _ hab hbc
  have hleft := mt compareNumbers_pos.mpr (not_lt.mpr hab)
  have hright := mt compareNumbers_pos.mpr (not_lt.mpr hbc)
  exact not_lt.mp (mt compareNumbers_pos.mp (by omega))

theorem compareNumbers_eq_zero : compareNumbers a b = 0 ↔ a = b := by
  have hneg := compareNumbers_neg (a := a) (b := b)
  have hpos := compareNumbers_pos (a := a) (b := b)
  omega

theorem memcmp_cons (a b : Bytes) : memcmp (x :: a) (y :: b) =
    if compareNumbers x.toNat y.toNat ≠ 0 then compareNumbers x.toNat y.toNat else memcmp a b := by
  have hshift : ∀ (a b : Bytes) (i : ℕ),
      lexCompare (fun _ x y ↦ compareNumbers (UInt8.toNat x) (UInt8.toNat y)) i a b =
        memcmp a b := by
    intro a
    induction a with
    | nil => simp [memcmp]
    | cons x a ih =>
      intro b i
      cases b with
      | nil => simp [memcmp]
      | cons y b => rw [memcmp, lexCompare_cons, lexCompare_cons, ih b, ih b]
  rw [memcmp, lexCompare_cons, hshift]

theorem compareBytes_nil_left (b : Bytes) : compareBytes [] b = -(b.length : ℤ) := by
  simp [compareBytes, memcmp]

theorem compareBytes_nil_right (a : Bytes) : compareBytes a [] = a.length := by
  simp [compareBytes, memcmp]

theorem compareBytes_cons (a b : Bytes) : compareBytes (x :: a) (y :: b) =
    if compareNumbers x.toNat y.toNat ≠ 0 then compareNumbers x.toNat y.toNat
    else compareBytes a b := by
  simp only [compareBytes, memcmp_cons]
  by_cases hzero : compareNumbers x.toNat y.toNat = 0
  · rw [if_neg (not_not_intro hzero), if_neg (not_not_intro hzero), length_cons, length_cons]
    split_ifs
    · omega
    · rfl
  · rw [if_pos hzero, if_neg hzero]
    exact (if_pos hzero).symm

theorem compareBytes_oriented : Oriented compareBytes := by
  intro a b
  induction a generalizing b with
  | nil =>
    rw [compareBytes_nil_left, compareBytes_nil_right]
    omega
  | cons x a ih =>
    cases b with
    | nil =>
      rw [compareBytes_nil_left, compareBytes_nil_right]
      omega
    | cons y b =>
      have hzero := compareNumbers_oriented.eq_zero_comm x.toNat y.toNat
      rw [compareBytes_cons, compareBytes_cons]
      by_cases hxy : compareNumbers x.toNat y.toNat = 0
      · rw [if_neg (not_not_intro hxy), if_neg (not_not_intro (hzero.mp hxy))]
        exact ih b
      · rw [if_pos hxy, if_pos (mt hzero.mpr hxy)]
        exact compareNumbers_oriented _ _

theorem compareBytes_eq_zero {a b : Bytes} : compareBytes a b = 0 ↔ a = b := by
  induction a generalizing b with
  | nil =>
    rw [compareBytes_nil_left, neg_eq_zero, Int.natCast_eq_zero, length_eq_zero_iff]
    exact eq_comm
  | cons x a ih =>
    cases b with
    | nil =>
      rw [compareBytes_nil_right, length_cons]
      constructor
      · omega
      · exact fun hnil ↦ absurd hnil (cons_ne_nil x a)
    | cons y b =>
      have hzero : compareNumbers x.toNat y.toNat = 0 ↔ x = y := by
        rw [compareNumbers_eq_zero, Int.natCast_inj, UInt8.toNat_inj]
      rw [compareBytes_cons, List.cons.injEq]
      by_cases hxy : compareNumbers x.toNat y.toNat = 0
      · rw [if_neg (not_not_intro hxy), ih]
        exact (and_iff_right (hzero.mp hxy)).symm
      · rw [if_pos hxy]
        exact ⟨fun hno ↦ absurd hno hxy, fun hboth ↦ absurd (hzero.mpr hboth.1) hxy⟩

theorem compareBytes_trans : TransOn (fun _ ↦ True) compareBytes := by
  intro a b c _ _ _ hab hbc
  induction a generalizing b c with
  | nil =>
    rw [compareBytes_nil_left]
    omega
  | cons x a ih =>
    cases b with
    | nil =>
      rw [compareBytes_nil_right, length_cons] at hab
      omega
    | cons y b =>
      cases c with
      | nil =>
        rw [compareBytes_nil_right, length_cons] at hbc
        omega
      | cons z c =>
        rw [compareBytes_cons] at hab hbc ⊢
        rcases lt_trichotomy (x.toNat : ℤ) y.toNat with hxy | hxy | hxy
        · have hyz : (y.toNat : ℤ) ≤ z.toNat := by
            by_contra hzy
            have hpos := compareNumbers_pos.mpr (not_le.mp hzy)
            rw [if_pos hpos.ne'] at hbc
            omega
          have hneg := compareNumbers_neg.mpr (lt_of_lt_of_le hxy hyz)
          rw [if_pos hneg.ne]
          exact hneg.le
        · rw [hxy, if_neg (not_not_intro (compareNumbers_eq_zero.mpr rfl))] at hab
          rw [hxy]
          by_cases hzero : compareNumbers y.toNat z.toNat = 0
          · rw [if_neg (not_not_intro hzero)] at hbc ⊢
            exact ih b c hab hbc
          · rw [if_pos hzero] at hbc ⊢
            exact hbc
        · have hpos := compareNumbers_pos.mpr hxy
          rw [if_pos hpos.ne'] at hab
          omega

def compareText (pColl : Option CollSeq) (z1 z2 : Bytes) : ℤ :=
  match pColl with
  | some coll => coll.xCmp z1 z2
  | none => compareBytes z1 z2

theorem compareText_oriented (coll : Option CollSeq) : Oriented (compareText coll) := by
  cases coll with
  | none => exact compareBytes_oriented
  | some coll => exact coll.oriented

theorem compareText_trans (coll : Option CollSeq) : TransOn (fun _ ↦ True) (compareText coll) := by
  cases coll with
  | none => exact compareBytes_trans
  | some coll => exact coll.trans

/-- The kinds of values in their order: nulls, numbers, texts and blobs. -/
def Value.rank : Value → ℤ
  | .null => 0
  | .int _ => 1
  | .real _ => 1
  | .text _ => 2
  | .blob _ _ => 3

/-- Values of different kinds are compared by their kinds. -/
theorem memCompare_rank {v w : Value} (hrank : v.rank ≠ w.rank) :
    sqlite3MemCompare v w coll = compareNumbers v.rank w.rank := by
  cases v <;> cases w <;> first | rfl | exact absurd rfl hrank

theorem memCompare_oriented (coll : Option CollSeq) :
    Oriented fun v w ↦ sqlite3MemCompare v w coll := by
  intro v w
  show sqlite3MemCompare v w coll < 0 ↔ 0 < sqlite3MemCompare w v coll
  by_cases hrank : v.rank = w.rank
  · match v, w, hrank with
    | .null, .null, _ => exact Iff.rfl
    | .int i1, .int i2, _ => exact compareNumbers_oriented _ _
    | .int i1, .real r2, _ => exact compareNumbers_oriented _ _
    | .real r1, .int i2, _ => exact compareNumbers_oriented _ _
    | .real r1, .real r2, _ => exact compareNumbers_oriented _ _
    | .text z1, .text z2, _ => exact compareText_oriented coll z1 z2
    | .blob z1 n1, .blob z2 n2, _ => exact compareBytes_oriented z1 z2
  · rw [memCompare_rank hrank, memCompare_rank (Ne.symm hrank)]
    exact compareNumbers_oriented v.rank w.rank

def Value.NotReal : Value → Prop
  | .real _ => False
  | _ => True

theorem Value.NotReal.expand {v : Value} (hv : v.NotReal) : v.expand.NotReal := by
  cases v with
  | real r => exact hv
  | _ => trivial

/-- The comparison is transitive as long as no doubles are compared. -/
theorem memCompare_trans (coll : Option CollSeq) :
    TransOn Value.NotReal fun v w ↦ sqlite3MemCompare v w coll := by
  intro u v w hu hv hw huv hvw
  show sqlite3MemCompare u w coll ≤ 0
  replace huv : sqlite3MemCompare u v coll ≤ 0 := huv
  replace hvw : sqlite3MemCompare v w coll ≤ 0 := hvw
  have hrank : u.rank ≤ v.rank ∧ v.rank ≤ w.rank := by
    refine ⟨?_, ?_⟩
    · by_contra hgt
      rw [memCompare_rank (by omega)] at huv
      exact hgt (not_lt.mp (mt compareNumbers_pos.mpr (not_lt.mpr huv)))
    · by_contra hgt
      rw [memCompare_rank (by omega)] at hvw
      exact hgt (not_lt.mp (mt compareNumbers_pos.mpr (not_lt.mpr hvw)))
  by_cases hlt : u.rank < w.rank
  · rw [memCompare_rank hlt.ne]
    exact (compareNumbers_neg.mpr hlt).le
  · have hsame : u.rank = v.rank ∧ v.rank = w.rank := by omega
    match u, v, hsame.1 with
    | .null, .null, _ =>
      match w, hsame.2 with
      | .null, _ => exact le_refl 0
    | .int i1, .int i2, _ =>
      match w, hsame.2 with
      | .int i3, _ => exact compareNumbers_trans _ _ _ trivial trivial trivial huv hvw
      | .real r, _ => exact hw.elim
    | .text z1, .text z2, _ =>
      match w, hsame.2 with
      | .text z3, _ => exact compareText_trans coll z1 z2 z3 trivial trivial trivial huv hvw
    | .blob z1 n1, .blob z2 n2, _ =>
      match w, hsame.2 with
      | .blob z3 n3, _ => exact compareBytes_trans z1 z2 z3 trivial trivial trivial huv hvw
    | .real r, _, _ => exact hu.elim
    | .int i1, .real r, _ => exact hv.elim

theorem compareField_eq_zero (v1 v2 : Value) :
    info.compareField i v1 v2 = 0 ↔ sqlite3MemCompare v1 v2 (info.aColl i) = 0 := by
  unfold KeyInfo.compareField
  split_ifs
  · exact neg_eq_zero
  · exact Iff.rfl

theorem compareField_oriented : Oriented (info.compareField i) := by
  intro v w
  have horiented := memCompare_oriented (info.aColl i)
  have hleft := horiented v w
  have hright := horiented w v
  simp only [KeyInfo.compareField]
  split_ifs
  · rw [neg_neg_iff_pos, neg_pos]
    exact hright.symm
  · exact hleft

/-- A column is ordered as its values are, also if its order is `DESC`. -/
theorem compareField_trans {info : KeyInfo} {i : ℕ} {kind : Value → Prop}
    (htrans : TransOn kind fun v w ↦ sqlite3MemCompare v w (info.aColl i)) :
    TransOn kind (info.compareField i) := by
  intro u v w hu hv hw huv hvw
  have horiented := memCompare_oriented (info.aColl i)
  have hforward := htrans u v w hu hv hw
  have hbackward := htrans w v u hw hv hu
  have hflips := fun a b ↦ (horiented.nonneg_iff a b)
  simp only [KeyInfo.compareField] at huv hvw ⊢
  split_ifs at huv hvw ⊢
  · rw [Left.neg_nonpos_iff] at huv hvw ⊢
    exact (hflips u w).mpr (hbackward ((hflips v w).mp hvw) ((hflips u v).mp huv))
  · exact hforward huv hvw

end

/-! ### The comparison with a record -/

/-- The comparison of the fields of a record with those of the right side, whose flags decide when
there is no difference: the longer record is the greater one if none is set. -/
def compareFields (pKeyInfo : KeyInfo) (fields1 fields2 : List Value) (incrKey prefixMatch : Bool) :
    ℤ :=
  let rc := lexCompare pKeyInfo.compareField 0 fields1 fields2
  if rc ≠ 0 then rc
  else if incrKey then -1
  else if prefixMatch then 0
  else if fields2.length < fields1.length then 1
  else 0

/-- If the right side is not the shorter one and has no flag that counts, only differences do. -/
theorem compareFields_of_le (info : KeyInfo) {fields1 fields2 : List Value}
    (hle : fields1.length ≤ fields2.length) (prefixMatch : Bool) :
    compareFields info fields1 fields2 false prefixMatch =
      lexCompare info.compareField 0 fields1 fields2 := by
  simp only [compareFields, not_lt.mpr hle, if_false, Bool.false_eq_true, ite_self]
  split_ifs with hdiffer
  · rfl
  · exact (not_not.mp hdiffer).symm

/-- The serial types of fields that may have been written under different file formats. -/
def cellTypes (cells : List (ℕ × Value)) : Bytes :=
  cells.flatMap fun cell ↦ putVarint32 (sqlite3VdbeSerialType cell.2 cell.1)

/-- The serial forms of fields that may have been written under different file formats. -/
def cellData (cells : List (ℕ × Value)) : Bytes :=
  cells.flatMap fun cell ↦ serialBytes cell.2 cell.1

/-- The fields can be in a record, each under its file format. -/
def RecordableCells (cells : List (ℕ × Value)) : Prop :=
  ∀ cell ∈ cells, cell.2.Expanded ∧ sqlite3VdbeSerialType cell.2 cell.1 < 2 ^ 32

section

variable {info : KeyInfo} {cells : List (ℕ × Value)}

variable (format : ℕ) (fields : List Value) (cell : ℕ × Value) (left right : List (ℕ × Value))

theorem cellTypes_cons (cells : List (ℕ × Value)) : cellTypes (cell :: cells) =
      putVarint32 (sqlite3VdbeSerialType cell.2 cell.1) ++ cellTypes cells := rfl

theorem cellData_cons (cells : List (ℕ × Value)) :
    cellData (cell :: cells) = serialBytes cell.2 cell.1 ++ cellData cells := rfl

theorem cellTypes_append :
    cellTypes (left ++ right) = cellTypes left ++ cellTypes right := flatMap_append

theorem cellData_append :
    cellData (left ++ right) = cellData left ++ cellData right := flatMap_append

theorem cellTypes_map : cellTypes (fields.map fun v ↦ (format, v)) = typeBytes format fields :=
  flatMap_map _ _ _

theorem cellData_map : cellData (fields.map fun v ↦ (format, v)) = dataBytes format fields :=
  flatMap_map _ _ _

theorem Recordable.recordableCells {format : ℕ} {fields : List Value}
    (hfields : Recordable format fields) : RecordableCells (fields.map fun v ↦ (format, v)) := by
  intro cell hcell
  obtain ⟨v, hv, rfl⟩ := mem_map.mp hcell
  exact ⟨hfields.expanded v hv, hfields.types v hv⟩

/-- The loop finds the first difference between the fields of the record that are left and those of
the right side, or it ends before the end of the header if the right side is the shorter one. -/
theorem recordCompareLoop_cells (info : KeyInfo) (fields2 : List Value) {aKey1 : ℕ → UInt8}
    {nKey1 szHdr1 i idx1 d1 : ℕ} (hcells : RecordableCells cells)
    (htypes : Stands aKey1 idx1 (cellTypes cells)) (hdata : Stands aKey1 d1 (cellData cells))
    (hidx : idx1 + (cellTypes cells).length = szHdr1) (hd : d1 + (cellData cells).length ≤ nKey1) :
    (lexCompare info.compareField i (cells.map Prod.snd) fields2 ≠ 0 ∧ ∃ j mem1,
        recordCompareLoop info aKey1 nKey1 szHdr1 i idx1 d1 fields2 =
          .differs (lexCompare info.compareField i (cells.map Prod.snd) fields2) j mem1) ∨
      (lexCompare info.compareField i (cells.map Prod.snd) fields2 = 0 ∧ ∃ idx,
        recordCompareLoop info aKey1 nKey1 szHdr1 i idx1 d1 fields2 = .ran idx ∧
          (idx < szHdr1 ↔ fields2.length < cells.length)) := by
  induction fields2 generalizing cells i idx1 d1 with
  | nil =>
    refine .inr ⟨lexCompare_nil_right _ _ _, idx1, rfl, ?_⟩
    cases cells with
    | nil =>
      have hnil : (cellTypes []).length = 0 := rfl
      omega
    | cons cell rest1 =>
      have hpos := varintLen_pos (sqlite3VdbeSerialType cell.2 cell.1)
      rw [cellTypes_cons, length_append, putVarint32_length (hcells cell (.head _)).2] at hidx
      simp only [length_nil, length_cons]
      omega
  | cons v2 rest2 ih =>
    cases cells with
    | nil =>
      have hnil : (cellTypes []).length = 0 := rfl
      refine .inr ⟨lexCompare_nil_left _ _ _, idx1, ?_, ?_⟩
      · rw [recordCompareLoop, if_neg (by omega)]
      · simp only [length_nil, length_cons]
        omega
    | cons cell rest1 =>
      obtain ⟨⟨hexpanded, htype⟩, hrest⟩ := forall_mem_cons.mp hcells
      have hpos := varintLen_pos (sqlite3VdbeSerialType cell.2 cell.1)
      have hlength := serialBytes_length hexpanded cell.1
      rw [cellTypes_cons, stands_append, putVarint32_length htype] at htypes
      rw [cellTypes_cons, length_append, putVarint32_length htype] at hidx
      rw [cellData_cons, stands_append] at hdata
      rw [cellData_cons, length_append] at hd
      have hget := serialGet_put hexpanded 0 cell.1 hdata.1
      have hvalue := value_memAt hexpanded 0 cell.1 hdata.1
      rw [recordCompareLoop, if_pos (by omega)]
      simp only [getVarint32_put htype htypes.1]
      rw [if_neg (by omega)]
      simp only [hget, hvalue, map_cons, lexCompare_cons]
      by_cases hsame : info.compareField i cell.2 v2 = 0
      · rw [if_neg (not_not_intro hsame), if_neg (not_not_intro hsame)]
        rw [hlength] at hdata hd
        simp only [length_cons, Nat.add_lt_add_iff_right]
        exact ih hrest htypes.2 hdata.2 (by omega) (by omega)
      · rw [if_pos hsame, if_pos hsame]
        exact .inl ⟨hsame, i, _, rfl⟩

/-- The comparison with a record is the comparison with its fields, whatever the file format of each
of them is. -/
theorem recordCompare_cells (info : KeyInfo) {hdr : ℕ} (hcells : RecordableCells cells)
    (hfits : hdr < 2 ^ 32)
    (hsize : hdr = sqlite3VarintLen hdr + (cellTypes cells).length) (mem : ℕ → UInt8)
    (pPKey2 : UnpackedRecord) :
    (sqlite3VdbeRecordCompare info (putVarint32 hdr ++ (cellTypes cells ++ cellData cells)) mem
        pPKey2).1 =
      compareFields info (cells.map Prod.snd) (pPKey2.aMem.map (Mem.value mem)) pPKey2.incrKey
        pPKey2.prefixMatch := by
  have hlength := putVarint32_length hfits
  have htotal : (putVarint32 hdr ++ (cellTypes cells ++ cellData cells)).length =
      hdr + (cellData cells).length := by
    rw [length_append, length_append, hlength]
    omega
  have hparts := stands_ofBytes (putVarint32 hdr ++ (cellTypes cells ++ cellData cells))
  obtain ⟨hhead, htypes, hdata⟩ :
      Stands (ofBytes (putVarint32 hdr ++ (cellTypes cells ++ cellData cells))) 0
        (putVarint32 hdr) ∧
        Stands (ofBytes (putVarint32 hdr ++ (cellTypes cells ++ cellData cells)))
          (sqlite3VarintLen hdr) (cellTypes cells) ∧
        Stands (ofBytes (putVarint32 hdr ++ (cellTypes cells ++ cellData cells))) hdr
          (cellData cells) := by
    have hthree := hparts
    rwa [stands_append, stands_append, hlength, Nat.zero_add, ← hsize] at hthree
  have hheader := getVarint32_put hfits hhead
  simp only [sqlite3VdbeRecordCompare, hheader, compareFields]
  rcases recordCompareLoop_cells info (pPKey2.aMem.map (Mem.value mem)) (i := 0) hcells htypes
      hdata hsize.symm htotal.ge with ⟨hdiffers, j, mem1, hloop⟩ | ⟨hsame, idx, hloop, hlonger⟩
  · rw [if_pos hdiffers]
    simp only [hloop]
    split_ifs
    · cases mem1 <;> rfl
    · rfl
  · rw [if_neg (not_not_intro hsame)]
    simp only [hloop, hlonger, length_map]
    split_ifs <;> rfl

/-- The comparison with a record is the comparison with its fields. -/
theorem recordCompare_fields {format hdr : ℕ} {fields1 : List Value}
    (hfields : Recordable format fields1) (hhdr : HeaderFor format hdr fields1)
    (mem : ℕ → UInt8) (pPKey2 : UnpackedRecord) :
    (sqlite3VdbeRecordCompare info (recordBytes format hdr fields1) mem pPKey2).1 =
      compareFields info fields1 (pPKey2.aMem.map (Mem.value mem)) pPKey2.incrKey
        pPKey2.prefixMatch := by
  have hsize := hhdr.size
  rw [← cellTypes_map] at hsize
  have hcompare := recordCompare_cells info hfields.recordableCells hhdr.fits hsize mem pPKey2
  have hvalues : (fields1.map fun v ↦ (format, v)).map Prod.snd = fields1 := by
    rw [map_map]
    exact map_id fields1
  rwa [cellTypes_map, cellData_map, hvalues] at hcompare

end

end LumoSQL
