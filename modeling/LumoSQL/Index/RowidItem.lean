import LumoSQL.Index.Order

/-!
# The data item of a rowid

An insert cuts the item of a rowid out of a record, and a search makes one of a register. Both are
the serial type of the rowid in one byte and its serial form (`rowidItem_eq`), so under one file
format they are the same item exactly for the same rowid (`lastItem_int_inj`).

LMDB compares items as strings of bytes. `compareItem_neg_iff` says which rowids are in the order of
their items: the number of the serial type decides, and the sign under one serial type, as the bytes
of a negative number are those of a large one.
-/

namespace LumoSQL

open Foundation

/-- The serial type of the first rowid comes before that of the second, or it is the same and both
are on one side of zero. -/
def SerialBefore (fileFormat : ℕ) (r s : Int64) : Prop :=
  serialTypeInt r.toInt fileFormat < serialTypeInt s.toInt fileFormat ∨
    (serialTypeInt r.toInt fileFormat = serialTypeInt s.toInt fileFormat ∧
      (0 ≤ r.toInt ↔ 0 ≤ s.toInt))

instance (fileFormat : ℕ) (r s : Int64) : Decidable (SerialBefore fileFormat r s) :=
  inferInstanceAs (Decidable (_ ∨ _))

section

variable {fileFormat format : ℕ} {r s : Int64}

/-- A search makes the item that an insert cuts out.
Assumes: the serial type fits into one byte. -/
theorem rowidItem_eq {v : Value} (hexpanded : v.Expanded)
    (htype : sqlite3VdbeSerialType v format < 128) : rowidItem v format = lastItem format v := by
  have hone := putVarint32_one htype
  have hlength := serialBytes_length hexpanded format
  have hstands : Stands (write (write (fun _ ↦ 0) 0
      (putVarint32 (sqlite3VdbeSerialType v format)))
      1 (serialBytes v format)) 0 (lastItem format v) := by
    rw [lastItem, stands_append, hone]
    exact ⟨(stands_write _ _ _).write_before _ (le_refl _), stands_write _ _ _⟩
  have hsize : (lastItem format v).length =
      sqlite3VdbeSerialTypeLen (sqlite3VdbeSerialType v format) + 1 := by
    rw [lastItem, hone, List.length_append, List.length_singleton, hlength, add_comm]
  simp only [rowidItem]
  rwa [Nat.mod_eq_of_lt (lt_trans htype (by decide)), serialPut_expanded hexpanded, ← hsize]

/-- The serial form of a rowid, also for those that need no byte. -/
theorem serialBytes_int (format : ℕ) (r : Int64) : serialBytes (.int r) format =
    bigEndian (sqlite3VdbeSerialTypeLen (serialTypeInt r.toInt format))
      (r.toInt % 2 ^ 64).toNat := by
  have hrange := serialTypeInt_range r.toInt format
  unfold serialBytes sqlite3VdbeSerialPut
  by_cases hnumber : sqlite3VdbeSerialType (.int r) format ≤ 7 ∧
      0 < sqlite3VdbeSerialType (.int r) format
  · rw [if_pos hnumber]
    rfl
  · rw [if_neg hnumber]
    have htype : serialTypeInt r.toInt format = 8 ∨ serialTypeInt r.toInt format = 9 := by
      simp only [sqlite3VdbeSerialType] at hnumber
      omega
    rcases htype with htype | htype <;> rw [htype] <;> rfl

/-- Big-endian strings of one length are compared as numbers. -/
theorem memcmp_bigEndian (n v w : ℕ) : memcmp (bigEndian n v) (bigEndian n w) =
    compareNumbers (v % 256 ^ n : ℕ) (w % 256 ^ n : ℕ) := by
  induction n generalizing v w with
  | zero => simp [bigEndian, memcmp, compareNumbers, Nat.mod_one]
  | succ n ih =>
    have hbyte : ∀ v : ℕ, (UInt8.ofNat (v &&& 0xff)).toNat = v % 256 := fun v ↦ by
      rw [UInt8.toNat_ofNat', show v &&& 0xff = v % 256 from and_mask v 8]
      exact Nat.mod_mod v 256
    have hsplit : ∀ v : ℕ, v % 256 ^ (n + 1) = v % 256 + 256 * (v / 256 % 256 ^ n) := fun v ↦ by
      rw [Nat.pow_succ', Nat.mod_mul]
    have hcompare : memcmp (bigEndian n (v >>> 8)) (bigEndian n (w >>> 8)) =
        compareNumbers (v / 256 % 256 ^ n : ℕ) (w / 256 % 256 ^ n : ℕ) := by
      rw [ih, Nat.shiftRight_eq_div_pow, Nat.shiftRight_eq_div_pow]
    have hsnoc := lexCompare_snoc (fun _ x y ↦
      compareNumbers (UInt8.toNat x) (UInt8.toNat y)) (i := 0)
      (show (bigEndian n (v >>> 8)).length = (bigEndian n (w >>> 8)).length by simp)
      (UInt8.ofNat (v &&& 0xff)) (UInt8.ofNat (w &&& 0xff))
    rw [memcmp, bigEndian, bigEndian, hsnoc, ← memcmp, hcompare, hbyte, hbyte, hsplit, hsplit]
    have hv := Nat.mod_lt v (show 0 < 256 by decide)
    have hw := Nat.mod_lt w (show 0 < 256 by decide)
    unfold compareNumbers
    split_ifs <;> omega

theorem lastItem_int (fileFormat : ℕ) (r : Int64) : lastItem fileFormat (.int r) =
    UInt8.ofNat (serialTypeInt r.toInt fileFormat) :: serialBytes (.int r) fileFormat := by
  rw [lastItem, putVarint32_one (serialType_int_lt fileFormat r)]
  rfl

theorem serialTypeInt_byte (fileFormat : ℕ) (i : ℤ) :
    (UInt8.ofNat (serialTypeInt i fileFormat)).toNat = serialTypeInt i fileFormat := by
  have hrange := serialTypeInt_range i fileFormat
  rw [UInt8.toNat_ofNat']
  exact Nat.mod_eq_of_lt (by omega)

/-- Items of different serial types are compared by these, also under different file formats. -/
theorem compareItem_types {format : ℕ}
    (hne : serialTypeInt r.toInt format ≠ serialTypeInt s.toInt fileFormat) :
    compareBytes (lastItem format (.int r)) (lastItem fileFormat (.int s)) =
      compareNumbers (serialTypeInt r.toInt format) (serialTypeInt s.toInt fileFormat) := by
  rw [lastItem_int, lastItem_int, compareBytes_cons, serialTypeInt_byte, serialTypeInt_byte,
    if_pos (mt compareNumbers_eq_zero.mp (by exact_mod_cast hne))]

/-- Items of rowids are compared by their serial types and then by their serial forms as numbers. -/
theorem compareItem_int (format : ℕ) (r s : Int64) :
    compareBytes (lastItem format (.int r)) (lastItem format (.int s)) =
      if serialTypeInt r.toInt format ≠ serialTypeInt s.toInt format then
        compareNumbers (serialTypeInt r.toInt format) (serialTypeInt s.toInt format)
      else compareNumbers ((r.toInt % 2 ^ 64).toNat %
            256 ^ sqlite3VdbeSerialTypeLen (serialTypeInt r.toInt format) : ℕ)
          ((s.toInt % 2 ^ 64).toNat %
            256 ^ sqlite3VdbeSerialTypeLen (serialTypeInt r.toInt format) : ℕ) := by
  by_cases hsame : serialTypeInt r.toInt format = serialTypeInt s.toInt format
  · rw [lastItem_int, lastItem_int, compareBytes_cons, if_neg (not_not_intro hsame), hsame,
      if_neg (not_not_intro (compareNumbers_eq_zero.mpr rfl)), serialBytes_int, serialBytes_int,
      hsame, ← memcmp_bigEndian]
    simp only [compareBytes, bigEndian_length, sub_self]
    split_ifs with hmem
    · exact hmem.symm
    · rfl
  · rw [compareItem_types hsame, if_pos hsame]

/-- The bits of a number that are written, for one that fits. -/
theorem payload_eq {n : ℕ} (hn : 0 < n) (hle : n ≤ 8) {i : ℤ} (hlow : -2 ^ (8 * n - 1) ≤ i)
    (hhigh : i < 2 ^ (8 * n - 1)) :
    (((i % 2 ^ 64).toNat % 256 ^ n : ℕ) : ℤ) = if 0 ≤ i then i else i + 2 ^ (8 * n) := by
  have hpow : (2 : ℤ) ^ (8 * n) = 2 * 2 ^ (8 * n - 1) := by
    rw [← pow_succ']
    congr 1
    omega
  have hdvd : (2 : ℤ) ^ (8 * n) ∣ 2 ^ 64 := pow_dvd_pow 2 (by omega)
  have hbase : ((256 ^ n : ℕ) : ℤ) = 2 ^ (8 * n) := by
    rw [Nat.cast_pow, pow_mul]
    norm_num
  rw [Int.natCast_emod, Int.toNat_of_nonneg (Int.emod_nonneg _ (by norm_num)), hbase,
    Int.emod_emod_of_dvd _ hdvd]
  split_ifs with hnonneg
  · exact Int.emod_eq_of_lt hnonneg (by omega)
  · rw [← Int.add_emod_right, Int.emod_eq_of_lt (by omega) (by omega)]

/-- A rowid is `0` or `1` and written in no byte, or it fits into its bytes. -/
theorem serialTypeInt_fits (format : ℕ) (r : Int64) :
    ((r.toInt = 0 ∨ r.toInt = 1) ∧ serialTypeInt r.toInt format = 8 + r.toInt.toNat ∧
        sqlite3VdbeSerialTypeLen (serialTypeInt r.toInt format) = 0) ∨
      ∃ n, sqlite3VdbeSerialTypeLen (serialTypeInt r.toInt format) = n ∧ 0 < n ∧ n ≤ 8 ∧
        -2 ^ (8 * n - 1) ≤ r.toInt ∧ r.toInt < 2 ^ (8 * n - 1) := by
  rcases serialTypeInt_cases r.toInt format with ⟨hbit, htype⟩ | ⟨htype, hfits⟩ |
    ⟨htype, hfits⟩ |
    ⟨htype, hfits⟩ | ⟨htype, hfits⟩ | ⟨htype, hfits⟩ | htype
  · refine .inl ⟨hbit, htype, ?_⟩
    rw [htype]
    rcases hbit with hbit | hbit <;> rw [hbit] <;> rfl
  · exact .inr ⟨1, by rw [htype]; rfl, by decide, by decide, hfits⟩
  · exact .inr ⟨2, by rw [htype]; rfl, by decide, by decide, hfits⟩
  · exact .inr ⟨3, by rw [htype]; rfl, by decide, by decide, hfits⟩
  · exact .inr ⟨4, by rw [htype]; rfl, by decide, by decide, hfits⟩
  · exact .inr ⟨6, by rw [htype]; rfl, by decide, by decide, hfits⟩
  · exact .inr ⟨8, by rw [htype]; rfl, by decide, by decide, r.le_toInt, r.toInt_lt⟩

/-- Two rowids of one serial type are the same, or their items are in the order of the numbers with
their bits. -/
theorem compareItem_same (hsame : serialTypeInt r.toInt format = serialTypeInt s.toInt format) :
    r = s ∨ ∃ half : ℤ, -half ≤ r.toInt ∧ r.toInt < half ∧ -half ≤ s.toInt ∧ s.toInt < half ∧
      compareBytes (lastItem format (.int r)) (lastItem format (.int s)) =
        compareNumbers (if 0 ≤ r.toInt then r.toInt else r.toInt + 2 * half)
          (if 0 ≤ s.toInt then s.toInt else s.toInt + 2 * half) := by
  have hcompare := compareItem_int format r s
  rw [if_neg (not_not_intro hsame)] at hcompare
  rcases serialTypeInt_fits format r with ⟨_, htype, hlen⟩ | ⟨n, hlen, hpos, hle, hlow, hhigh⟩
  · rcases serialTypeInt_fits format s with ⟨_, htype', _⟩ | ⟨m, hlen', hpos', _, _⟩
    · exact .inl (Int64.toInt_inj.mp (by omega))
    · rw [← hsame, hlen] at hlen'
      omega
  · rcases serialTypeInt_fits format s with ⟨_, _, hlen'⟩ | ⟨m, hlen', _, _, hlow', hhigh'⟩
    · rw [← hsame, hlen] at hlen'
      omega
    · rw [← hsame, hlen] at hlen'
      subst hlen'
      have hpow : (2 : ℤ) ^ (8 * n) = 2 * 2 ^ (8 * n - 1) := by
        rw [← pow_succ']
        congr 1
        omega
      rw [hlen, payload_eq hpos hle hlow hhigh, payload_eq hpos hle hlow' hhigh', hpow] at hcompare
      exact .inr ⟨2 ^ (8 * n - 1), hlow, hhigh, hlow', hhigh', hcompare⟩

/-- The items of two rowids are in the order of the rowids exactly if the serial types are, or are
the same on one side of zero. -/
theorem compareItem_neg_iff (hless : r.toInt < s.toInt) :
    compareBytes (lastItem format (.int r)) (lastItem format (.int s)) < 0 ↔
      SerialBefore format r s := by
  rw [SerialBefore]
  by_cases hsame : serialTypeInt r.toInt format = serialTypeInt s.toInt format
  · rcases compareItem_same hsame with rfl | ⟨half, hlow, hhigh, hlow', hhigh', hcompare⟩
    · exact absurd hless (lt_irrefl _)
    · rw [hcompare, compareNumbers_neg, hsame]
      split_ifs <;> omega
  · rw [compareItem_int, if_pos hsame, compareNumbers_neg]
    omega

theorem lastItem_int_inj (hitem : lastItem format (.int r) = lastItem format (.int s)) : r = s := by
  have hzero := compareBytes_eq_zero.mpr hitem
  by_cases hsame : serialTypeInt r.toInt format = serialTypeInt s.toInt format
  · rcases compareItem_same hsame with heq | ⟨half, hlow, hhigh, hlow', hhigh', hcompare⟩
    · exact heq
    · rw [hcompare, compareNumbers_eq_zero] at hzero
      refine Int64.toInt_inj.mp ?_
      split_ifs at hzero <;> omega
  · rw [compareItem_int, if_pos hsame, compareNumbers_eq_zero] at hzero
    exact absurd (Int.natCast_inj.mp hzero) hsame

end

end LumoSQL
