import LumoSQL.Record.Varint
import Mathlib.Tactic.NormNum
import Mathlib.Tactic.Positivity

/-!
# Values and their serial form

The registers of the VDBE (`Mem`) and the values they hold (`Value`), and the functions of
`vdbeaux.c` that turn a value into a serial type and a string of bytes and back:
`sqlite3VdbeSerialType`, `sqlite3VdbeSerialTypeLen`, `sqlite3VdbeSerialPut` and
`sqlite3VdbeSerialGet`. A register holds the address of a text or a blob and shares the bytes with
every other register that holds it, so that `Mem.value` depends on the memory.

`serialGet_put` says that a value whose zero tail has been expanded is read back from its serial
form.
-/

namespace LumoSQL

open Foundation List

/-! ### Registers and values -/

/-- `sqlite3IsNaN` on the bits of a double: the exponent is all ones and the fraction is not zero.
-/
def sqlite3IsNaN (bits : UInt64) : Bool := 0x7ff0000000000000 < bits.toNat % 2 ^ 63

/-- The bits of a double that is a number; a register never holds another one. -/
structure Real64 where
  bits : UInt64
  notNaN : sqlite3IsNaN bits = false
  deriving DecidableEq

/-- What a register holds: a blob may end in zeros that are not stored. -/
inductive Value
  | null
  | int (i : Int64)
  | real (r : Real64)
  | text (bytes : Bytes)
  | blob (bytes : Bytes) (nZero : ℕ)
  deriving DecidableEq

/-- `struct Mem`: the flags say which kind of value it is, `z` and `n` where the bytes are and how
many, and `nZero` how many zeros follow (`MEM_Zero`). -/
inductive Mem
  | null
  | int (i : Int64)
  | real (r : Real64)
  | str (z n : ℕ)
  | blob (z n nZero : ℕ)
  deriving DecidableEq

/-- The value of a register. -/
def Mem.value (mem : ℕ → UInt8) : Mem → Value
  | .null => .null
  | .int i => .int i
  | .real r => .real r
  | .str z n => .text (read mem z n)
  | .blob z n nZero => .blob (read mem z n) nZero

/-- The register for a value whose bytes are at an address. -/
def Value.memAt (a : ℕ) : Value → Mem
  | .null => .null
  | .int i => .int i
  | .real r => .real r
  | .text bytes => .str a bytes.length
  | .blob bytes nZero => .blob a bytes.length nZero

/-- `pMem->n`. -/
def Mem.n : Mem → ℕ
  | .str _ n => n
  | .blob _ n _ => n
  | _ => 0

/-- `sqlite3VdbeMemExpandBlob`: the zero tail is written out. -/
def Value.expand : Value → Value
  | .blob bytes nZero => .blob (bytes ++ List.replicate nZero 0) 0
  | v => v

def Value.Expanded : Value → Prop
  | .blob _ nZero => nZero = 0
  | _ => True

instance : DecidablePred Value.Expanded
  | .null => isTrue trivial
  | .int _ => isTrue trivial
  | .real _ => isTrue trivial
  | .text _ => isTrue trivial
  | .blob _ nZero => inferInstanceAs (Decidable (nZero = 0))

/-! ### Serial types -/

/-- The largest integer of six bytes, `MAX_6BYTE`. -/
def MAX_6BYTE : ℤ := 0x00008000 * 2 ^ 32 - 1

/-- `sqlite3VdbeSerialType` of an integer. -/
def serialTypeInt (i : ℤ) (fileFormat : ℕ) : ℕ :=
  if i < -MAX_6BYTE then 6
  else if i.natAbs ≤ 127 then
    if (i = 0 ∨ i = 1) ∧ 4 ≤ fileFormat then 8 + i.natAbs else 1
  else if i.natAbs ≤ 32767 then 2
  else if i.natAbs ≤ 8388607 then 3
  else if i.natAbs ≤ 2147483647 then 4
  else if (i.natAbs : ℤ) ≤ MAX_6BYTE then 5
  else 6

def sqlite3VdbeSerialType (pMem : Value) (fileFormat : ℕ) : ℕ :=
  match pMem with
  | .null => 0
  | .int i => serialTypeInt i.toInt fileFormat
  | .real _ => 7
  | .text bytes => bytes.length * 2 + 12 + 1
  | .blob bytes nZero => (bytes.length + nZero) * 2 + 12

def sqlite3VdbeSerialTypeLen (serialType : ℕ) : ℕ :=
  if 12 ≤ serialType then (serialType - 12) / 2
  else [0, 1, 2, 3, 4, 6, 8, 8, 0, 0, 0, 0].getD serialType 0

/-! ### Bytes of a number -/

/-- The loop `while( i-- ){ buf[i] = (u8)(v&0xFF); v >>= 8; }`. -/
def bigEndian : ℕ → ℕ → Bytes
  | 0, _ => []
  | n + 1, v => bigEndian n (v >>> 8) ++ [UInt8.ofNat (v &&& 0xff)]

def ofBigEndian (bytes : Bytes) : ℕ := bytes.foldl (fun acc byte ↦ acc * 256 + byte.toNat) 0

/-- The signed number of `n` bytes with the given bits. -/
def signExtend (n v : ℕ) : ℤ := if v < 2 ^ (8 * n - 1) then v else v - 2 ^ (8 * n)

@[simp] theorem bigEndian_length (n v : ℕ) : (bigEndian n v).length = n := by
  induction n generalizing v with
  | zero => rfl
  | succ n ih => rw [bigEndian, length_append, ih, length_singleton]

theorem ofBigEndian_bigEndian (n v : ℕ) : ofBigEndian (bigEndian n v) = v % 256 ^ n := by
  induction n generalizing v with
  | zero =>
    rw [Nat.pow_zero, Nat.mod_one]
    rfl
  | succ n ih =>
    have hbyte : (UInt8.ofNat (v &&& 0xff)).toNat = v % 256 := by
      rw [UInt8.toNat_ofNat', show v &&& 0xff = v % 256 from and_mask v 8]
      exact Nat.mod_mod v 256
    have hfold : ofBigEndian (bigEndian (n + 1) v) =
        ofBigEndian (bigEndian n (v >>> 8)) * 256 + (UInt8.ofNat (v &&& 0xff)).toNat := by
      rw [ofBigEndian, bigEndian, foldl_append]
      rfl
    have hmod := Nat.mod_mul (x := v) (a := 256) (b := 256 ^ n)
    have hpow : 256 ^ (n + 1) = 256 * 256 ^ n := Nat.pow_succ'
    have hshift : v >>> 8 = v / 256 := Nat.shiftRight_eq_div_pow v 8
    rw [hfold, ih, hbyte, hshift, hpow, hmod]
    omega

/-- A number that fits `n` bytes is what its bits say. -/
theorem signExtend_of_fits {n : ℕ} (hn : 0 < n) {i : ℤ} (hlow : -2 ^ (8 * n - 1) ≤ i)
    (hhigh : i < 2 ^ (8 * n - 1)) : signExtend n (i % 2 ^ (8 * n)).toNat = i := by
  have hpow : (2 : ℤ) ^ (8 * n) = 2 * 2 ^ (8 * n - 1) := by
    rw [← pow_succ']
    congr 1
    omega
  have hpos : (0 : ℤ) < 2 ^ (8 * n - 1) := by positivity
  unfold signExtend
  by_cases hneg : i < 0
  · have hmod : i % 2 ^ (8 * n) = i + 2 ^ (8 * n) := by
      rw [← Int.add_emod_right, Int.emod_eq_of_lt (by omega) (by omega)]
    have hcast : ((i + 2 ^ (8 * n)).toNat : ℤ) = i + 2 ^ (8 * n) := Int.toNat_of_nonneg (by omega)
    have hbig : ¬ (i + 2 ^ (8 * n)).toNat < 2 ^ (8 * n - 1) := by
      intro hlt
      have hlt' : ((i + 2 ^ (8 * n)).toNat : ℤ) < 2 ^ (8 * n - 1) := by exact_mod_cast hlt
      omega
    rw [hmod, if_neg hbig, hcast]
    omega
  · have hmod : i % 2 ^ (8 * n) = i := Int.emod_eq_of_lt (by omega) (by omega)
    have hcast : (i.toNat : ℤ) = i := Int.toNat_of_nonneg (by omega)
    have hsmall : i.toNat < 2 ^ (8 * n - 1) := by
      have hlt' : (i.toNat : ℤ) < 2 ^ (8 * n - 1) := by omega
      exact_mod_cast hlt'
    rw [hmod, if_pos hsmall, hcast]

/-! ### Writing and reading a value -/

def Value.bits : Value → ℕ
  | .int i => (i.toInt % 2 ^ 64).toNat
  | .real r => r.bits.toNat
  | _ => 0

/-- `sqlite3VdbeSerialPut`: the bytes written into a buffer of `nBuf` bytes. -/
def sqlite3VdbeSerialPut (nBuf : ℕ) (pMem : Value) (fileFormat : ℕ) : Bytes :=
  let serialType := sqlite3VdbeSerialType pMem fileFormat
  if serialType ≤ 7 ∧ 0 < serialType then
    bigEndian (sqlite3VdbeSerialTypeLen serialType) pMem.bits
  else
    match pMem with
    | .text bytes => bytes
    | .blob bytes nZero =>
      bytes ++ List.replicate (min (bytes.length + nZero) nBuf - bytes.length) 0
    | _ => []

/-- A signed integer of `n` bytes in memory. -/
def getInt (mem : ℕ → UInt8) (buf n : ℕ) : Int64 :=
  Int64.ofInt (signExtend n (ofBigEndian (read mem buf n)))

/-- `sqlite3VdbeSerialGet`: the register and the number of bytes read. -/
def sqlite3VdbeSerialGet (mem : ℕ → UInt8) (buf serialType : ℕ) : Mem × ℕ :=
  match serialType with
  | 0 => (.null, 0)
  | 1 => (.int (getInt mem buf 1), 1)
  | 2 => (.int (getInt mem buf 2), 2)
  | 3 => (.int (getInt mem buf 3), 3)
  | 4 => (.int (getInt mem buf 4), 4)
  | 5 => (.int (getInt mem buf 6), 6)
  | 6 => (.int (getInt mem buf 8), 8)
  | 7 =>
    let bits := UInt64.ofNat (ofBigEndian (read mem buf 8))
    (if h : sqlite3IsNaN bits = false then .real ⟨bits, h⟩ else .null, 8)
  | 8 => (.int 0, 0)
  | 9 => (.int 1, 0)
  | 10 => (.null, 0)
  | 11 => (.null, 0)
  | serialType =>
    let len := (serialType - 12) / 2
    (if serialType % 2 = 1 then .str buf len else .blob buf len 0, len)

/-! ### The round trip -/

section

variable {mem : ℕ → UInt8} {buf : ℕ}

/-- The serial type of an integer and the number of bytes it is written in. -/
theorem serialTypeInt_cases (i : ℤ) (format : ℕ) :
    ((i = 0 ∨ i = 1) ∧ serialTypeInt i format = 8 + i.toNat) ∨
      (serialTypeInt i format = 1 ∧ -2 ^ 7 ≤ i ∧ i < 2 ^ 7) ∨
      (serialTypeInt i format = 2 ∧ -2 ^ 15 ≤ i ∧ i < 2 ^ 15) ∨
      (serialTypeInt i format = 3 ∧ -2 ^ 23 ≤ i ∧ i < 2 ^ 23) ∨
      (serialTypeInt i format = 4 ∧ -2 ^ 31 ≤ i ∧ i < 2 ^ 31) ∨
      (serialTypeInt i format = 5 ∧ -2 ^ 47 ≤ i ∧ i < 2 ^ 47) ∨ serialTypeInt i format = 6 := by
  unfold serialTypeInt MAX_6BYTE
  split_ifs with h6 h1 hbit h2 h3 h4 h5
  · exact .inr (.inr (.inr (.inr (.inr (.inr rfl)))))
  · exact .inl ⟨hbit.1, by omega⟩
  · exact .inr (.inl ⟨rfl, by omega, by omega⟩)
  · exact .inr (.inr (.inl ⟨rfl, by omega, by omega⟩))
  · exact .inr (.inr (.inr (.inl ⟨rfl, by omega, by omega⟩)))
  · exact .inr (.inr (.inr (.inr (.inl ⟨rfl, by omega, by omega⟩))))
  · exact .inr (.inr (.inr (.inr (.inr (.inl ⟨rfl, by omega, by omega⟩)))))
  · exact .inr (.inr (.inr (.inr (.inr (.inr rfl)))))

theorem serialTypeInt_range (i : ℤ) (format : ℕ) :
    1 ≤ serialTypeInt i format ∧ serialTypeInt i format ≤ 9 ∧ serialTypeInt i format ≠ 7 := by
  unfold serialTypeInt
  split_ifs <;> omega

theorem serialType_int_lt (format : ℕ) (r : Int64) :
    sqlite3VdbeSerialType (.int r) format < 128 := by
  have hrange := serialTypeInt_range r.toInt format
  show serialTypeInt r.toInt format < 128
  omega

/-- An integer that fits is read back from its bytes. -/
theorem getInt_of_stands {n : ℕ} (hn : 0 < n) (hle : n ≤ 8) {i : Int64}
    (hlow : -2 ^ (8 * n - 1) ≤ i.toInt) (hhigh : i.toInt < 2 ^ (8 * n - 1))
    (hstands : Stands mem buf (bigEndian n (i.toInt % 2 ^ 64).toNat)) : getInt mem buf n = i := by
  have hread : read mem buf n = bigEndian n (i.toInt % 2 ^ 64).toNat := by
    rwa [Stands, bigEndian_length] at hstands
  have hbits : (i.toInt % 2 ^ 64).toNat % 256 ^ n = (i.toInt % 2 ^ (8 * n)).toNat := by
    have hpow : (256 : ℕ) ^ n = 2 ^ (8 * n) := by
      rw [Nat.pow_mul]
    have hdvd : (2 : ℤ) ^ (8 * n) ∣ 2 ^ 64 := pow_dvd_pow 2 (by omega)
    have hnonneg : 0 ≤ i.toInt % 2 ^ 64 := Int.emod_nonneg _ (by norm_num)
    rw [hpow, ← Int.emod_emod_of_dvd i.toInt hdvd, Int.toNat_emod hnonneg (by positivity)]
    norm_cast
  rw [getInt, hread, ofBigEndian_bigEndian, hbits, signExtend_of_fits hn hlow hhigh,
    Int64.ofInt_toInt]

theorem serialGet_large (mem : ℕ → UInt8) (buf : ℕ) {t : ℕ} (ht : 12 ≤ t) :
    sqlite3VdbeSerialGet mem buf t =
      (if t % 2 = 1 then .str buf ((t - 12) / 2) else .blob buf ((t - 12) / 2) 0,
        (t - 12) / 2) := by
  unfold sqlite3VdbeSerialGet
  split
  all_goals first | omega | rfl

theorem serialTypeLen_large {t : ℕ} (ht : 12 ≤ t) : sqlite3VdbeSerialTypeLen t = (t - 12) / 2 := by
  rw [sqlite3VdbeSerialTypeLen, if_pos ht]

theorem serialPut_text (nBuf : ℕ) (bytes : Bytes) (format : ℕ) :
    sqlite3VdbeSerialPut nBuf (.text bytes) format = bytes := by
  have hlarge : ¬ (sqlite3VdbeSerialType (.text bytes) format ≤ 7 ∧
      0 < sqlite3VdbeSerialType (.text bytes) format) := by
    rw [sqlite3VdbeSerialType]
    omega
  unfold sqlite3VdbeSerialPut
  exact if_neg hlarge

theorem serialPut_blob (nBuf : ℕ) (bytes : Bytes) (nZero format : ℕ) :
    sqlite3VdbeSerialPut nBuf (.blob bytes nZero) format =
      bytes ++ List.replicate (min (bytes.length + nZero) nBuf - bytes.length) 0 := by
  have hlarge : ¬ (sqlite3VdbeSerialType (.blob bytes nZero) format ≤ 7 ∧
      0 < sqlite3VdbeSerialType (.blob bytes nZero) format) := by
    rw [sqlite3VdbeSerialType]
    omega
  unfold sqlite3VdbeSerialPut
  exact if_neg hlarge

/-- An integer written in `n` bytes under a serial type that is read as `n` bytes. -/
theorem serialGet_int (n : ℕ) {t nBuf format : ℕ} {i : Int64}
    (htype : serialTypeInt i.toInt format = t) (hnumber : t ≤ 7 ∧ 0 < t)
    (hlen : sqlite3VdbeSerialTypeLen t = n)
    (hget : sqlite3VdbeSerialGet mem buf t = (.int (getInt mem buf n), n)) (hn : 0 < n)
    (hle : n ≤ 8) (hfits : -2 ^ (8 * n - 1) ≤ i.toInt ∧ i.toInt < 2 ^ (8 * n - 1))
    (hstands : Stands mem buf (sqlite3VdbeSerialPut nBuf (.int i) format)) :
    sqlite3VdbeSerialGet mem buf (sqlite3VdbeSerialType (.int i) format) =
      (.int i, sqlite3VdbeSerialTypeLen (sqlite3VdbeSerialType (.int i) format)) := by
  simp only [sqlite3VdbeSerialPut, sqlite3VdbeSerialType, htype, if_pos hnumber, hlen] at hstands
  simp only [sqlite3VdbeSerialType, htype, hget, hlen]
  rw [getInt_of_stands hn hle hfits.1 hfits.2 hstands]

/-- A value without a zero tail is read back from its serial form. -/
theorem serialGet_put {v : Value} (hexpanded : v.Expanded) (nBuf format : ℕ)
    (hstands : Stands mem buf (sqlite3VdbeSerialPut nBuf v format)) :
    sqlite3VdbeSerialGet mem buf (sqlite3VdbeSerialType v format) =
      (v.memAt buf, sqlite3VdbeSerialTypeLen (sqlite3VdbeSerialType v format)) := by
  cases v with
  | null => rfl
  | int i =>
    have hbounds : -2 ^ (8 * 8 - 1) ≤ i.toInt ∧ i.toInt < 2 ^ (8 * 8 - 1) :=
      ⟨Int64.le_toInt i, Int64.toInt_lt i⟩
    rcases serialTypeInt_cases i.toInt format with ⟨hzero | hone, ht⟩ | ⟨ht, hfits⟩ |
      ⟨ht, hfits⟩ | ⟨ht, hfits⟩ | ⟨ht, hfits⟩ | ⟨ht, hfits⟩ | ht
    · obtain rfl : i = 0 := Int64.toInt.inj (hzero.trans Int64.toInt_zero.symm)
      rw [hzero] at ht
      simp only [sqlite3VdbeSerialType, hzero, ht]
      rfl
    · obtain rfl : i = 1 := Int64.toInt.inj (hone.trans Int64.toInt_one.symm)
      rw [hone] at ht
      simp only [sqlite3VdbeSerialType, hone, ht]
      rfl
    · exact serialGet_int 1 ht (by omega) rfl rfl (by omega) (by omega) hfits hstands
    · exact serialGet_int 2 ht (by omega) rfl rfl (by omega) (by omega) hfits hstands
    · exact serialGet_int 3 ht (by omega) rfl rfl (by omega) (by omega) hfits hstands
    · exact serialGet_int 4 ht (by omega) rfl rfl (by omega) (by omega) hfits hstands
    · exact serialGet_int 6 ht (by omega) rfl rfl (by omega) (by omega) hfits hstands
    · exact serialGet_int 8 ht (by omega) rfl rfl (by omega) (by omega) hbounds hstands
  | real r =>
    have hread : read mem buf 8 = bigEndian 8 r.bits.toNat := hstands
    have hbits : UInt64.ofNat (ofBigEndian (read mem buf 8)) = r.bits := by
      have hfits : r.bits.toNat < 256 ^ 8 := r.bits.toNat_lt
      rw [hread, ofBigEndian_bigEndian, Nat.mod_eq_of_lt hfits, UInt64.ofNat_toNat]
    simp only [sqlite3VdbeSerialType, sqlite3VdbeSerialGet, hbits, r.notNaN, dif_pos]
    rfl
  | text bytes =>
    have hlen : (bytes.length * 2 + 12 + 1 - 12) / 2 = bytes.length := by omega
    simp only [sqlite3VdbeSerialType]
    rw [serialGet_large mem buf (by omega), serialTypeLen_large (by omega), if_pos (by omega), hlen]
    rfl
  | blob bytes nZero =>
    obtain rfl : nZero = 0 := hexpanded
    have hlen : ((bytes.length + 0) * 2 + 12 - 12) / 2 = bytes.length := by omega
    simp only [sqlite3VdbeSerialType]
    rw [serialGet_large mem buf (by omega), serialTypeLen_large (by omega), if_neg (by omega), hlen]
    rfl

/-- The register for a value holds the value when its bytes are in memory. -/
theorem value_memAt {v : Value} (hexpanded : v.Expanded) (nBuf format : ℕ)
    (hstands : Stands mem buf (sqlite3VdbeSerialPut nBuf v format)) :
    (v.memAt buf).value mem = v := by
  cases v with
  | null | int i | real r => rfl
  | text bytes =>
    rw [serialPut_text] at hstands
    exact congrArg Value.text hstands
  | blob bytes nZero =>
    obtain rfl : nZero = 0 := hexpanded
    rw [serialPut_blob, Nat.add_zero, Nat.sub_eq_zero_of_le (Nat.min_le_left _ _),
      replicate_zero, append_nil] at hstands
    exact congrArg (Value.blob · 0) hstands

end

/-! ### The serial form -/

/-- The bytes of a value without a zero tail, for which the size of the buffer plays no part. -/
def serialBytes (v : Value) (fileFormat : ℕ) : Bytes := sqlite3VdbeSerialPut 0 v fileFormat

variable {v : Value}

theorem serialPut_expanded (hexpanded : v.Expanded) (nBuf fileFormat : ℕ) :
    sqlite3VdbeSerialPut nBuf v fileFormat = serialBytes v fileFormat := by
  cases v with
  | blob bytes nZero =>
    obtain rfl : nZero = 0 := hexpanded
    rw [serialBytes, serialPut_blob, serialPut_blob, add_zero,
      Nat.sub_eq_zero_of_le (Nat.min_le_left _ _), Nat.sub_eq_zero_of_le (Nat.min_le_left _ _)]
  | _ => rfl

theorem serialBytes_length (hexpanded : v.Expanded) (format : ℕ) : (serialBytes v format).length =
      sqlite3VdbeSerialTypeLen (sqlite3VdbeSerialType v format) := by
  cases v with
  | null | real r => rfl
  | int i =>
    unfold serialBytes sqlite3VdbeSerialPut
    have hrange := serialTypeInt_range i.toInt format
    by_cases hnumber : sqlite3VdbeSerialType (.int i) format ≤ 7 ∧
        0 < sqlite3VdbeSerialType (.int i) format
    · rw [if_pos hnumber, bigEndian_length]
    · rw [if_neg hnumber]
      have htype : sqlite3VdbeSerialType (.int i) format = 8 ∨
          sqlite3VdbeSerialType (.int i) format = 9 := by
        simp only [sqlite3VdbeSerialType] at hnumber ⊢
        omega
      rcases htype with htype | htype <;> rw [htype] <;> rfl
  | text bytes =>
    rw [serialBytes, serialPut_text, sqlite3VdbeSerialType, serialTypeLen_large (by omega)]
    omega
  | blob bytes nZero =>
    obtain rfl : nZero = 0 := hexpanded
    rw [serialBytes, serialPut_blob, sqlite3VdbeSerialType, serialTypeLen_large (by omega),
      length_append, length_replicate]
    omega

theorem Value.expand_expanded (v : Value) : v.expand.Expanded := by
  cases v with
  | blob bytes nZero => rfl
  | _ => trivial

theorem Value.expand_eq_self (hexpanded : v.Expanded) : v.expand = v := by
  cases v with
  | blob bytes nZero =>
    obtain rfl : nZero = 0 := hexpanded
    rw [Value.expand, replicate_zero, append_nil]
  | _ => rfl

/-- Writing out the zero tail does not change the serial type. -/
theorem serialType_expand (v : Value) (fileFormat : ℕ) :
    sqlite3VdbeSerialType v.expand fileFormat = sqlite3VdbeSerialType v fileFormat := by
  cases v with
  | blob bytes nZero =>
    simp [Value.expand, sqlite3VdbeSerialType, length_replicate]
  | _ => rfl

end LumoSQL
