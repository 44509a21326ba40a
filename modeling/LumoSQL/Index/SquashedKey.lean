import LumoSQL.Index.Entries

/-!
# The key of squashed fields

`Value.squash` is what `squashIndexKey` is for: a text or a blob of more than 72 bytes becomes its
first 64 bytes and the hash of the others. The function itself works on registers and on the memory
they share. `squashFields_values` says that registers whose strings do not meet (`Mem.Apart`) hold
the squashed values afterwards, and `squashRewrite_record` that the record of what the registers
hold is written over the key if each string starts at or behind the place it is written to
(`LaidOut`).

The registers of a key that has been unpacked are apart and laid out, so that `splitRecord_squashed`
says what `sqlite3BtreeInsert` hands to LMDB for a record with a long field: the record of the
squashed fields under a header of its own.
-/

namespace LumoSQL

open Foundation List Mem

/-! ### Squashed values -/

/-- The bytes of a text or a blob as `squashIndexKey` leaves them. -/
def squashBytes (hash : MdbHash) (bytes : Bytes) : Bytes :=
  if 72 < bytes.length then bytes.take 64 ++ hash.val (bytes.drop 64) else bytes

/-- The value as `squashIndexKey` leaves it. -/
def Value.squash (hash : MdbHash) : Value → Value
  | .text bytes => .text (squashBytes hash bytes)
  | .blob bytes nZero => .blob (squashBytes hash bytes) nZero
  | v => v

section

variable (hash : MdbHash)

variable {bytes : Bytes} {v : Value}

theorem squashBytes_short (hshort : bytes.length ≤ 72) : squashBytes hash bytes = bytes := by
  rw [squashBytes, if_neg (by omega)]

theorem squashBytes_long (hlong : 72 < bytes.length) :
    squashBytes hash bytes = bytes.take 64 ++ hash.val (bytes.drop 64) := by
  rw [squashBytes, if_pos hlong]

theorem squashBytes_length (bytes : Bytes) :
    (squashBytes hash bytes).length = min bytes.length 72 := by
  rw [squashBytes]
  split_ifs with hlong
  · rw [length_append, length_take, hash.size]
    omega
  · omega

theorem Value.squash_expanded (hexpanded : v.Expanded) : (v.squash hash).Expanded := by
  cases v with
  | blob bytes nZero => exact hexpanded
  | _ => trivial

theorem Value.squash_short (hshort : v.size ≤ 72) : v.squash hash = v := by
  cases v with
  | blob bytes nZero =>
    have hbytes : bytes.length ≤ 72 := le_trans (Nat.le_add_right _ _) hshort
    rw [Value.squash, squashBytes_short hash hbytes]
  | text bytes => rw [Value.squash, squashBytes_short hash hshort]
  | _ => rfl

/-- A squashed value has at most 72 bytes. -/
theorem Value.size_squash (hexpanded : v.Expanded) : (v.squash hash).size = min v.size 72 := by
  cases v with
  | blob bytes nZero =>
    obtain rfl : nZero = 0 := hexpanded
    exact squashBytes_length hash bytes
  | text bytes => exact squashBytes_length hash bytes
  | _ => rfl

/-- Squashing a value does not give it a greater serial type. -/
theorem serialType_squash_le (v : Value) (fileFormat : ℕ) :
    sqlite3VdbeSerialType (v.squash hash) fileFormat ≤ sqlite3VdbeSerialType v fileFormat := by
  cases v with
  | blob bytes nZero | text bytes =>
    have hlength := squashBytes_length hash bytes
    simp only [Value.squash, sqlite3VdbeSerialType]
    omega
  | _ => exact le_refl _

/-- Squashing a value does not give it a longer serial form. -/
theorem serialBytes_squash_le (hexpanded : v.Expanded) (format : ℕ) :
    (serialBytes (v.squash hash) format).length ≤ (serialBytes v format).length := by
  have hle := serialType_squash_le hash v format
  rw [serialBytes_length (v.squash_expanded hash hexpanded), serialBytes_length hexpanded]
  cases v with
  | blob bytes nZero | text bytes =>
    rw [Value.squash, sqlite3VdbeSerialType, sqlite3VdbeSerialType] at *
    rw [serialTypeLen_large (by omega), serialTypeLen_large (by omega)]
    omega
  | _ => exact le_refl _

end

/-! ### Registers -/

def Mem.Apart (pMem other : Mem) : Prop :=
  pMem.z + pMem.n ≤ other.z ∨ other.z + other.n ≤ pMem.z

section

variable {hash : MdbHash} {format : ℕ} {mem mem' : ℕ → UInt8} {aMem : List Mem}

variable {pMem : Mem}

/-- A register keeps its value as long as the memory of its string does. -/
theorem Mem.value_congr (hsame : ∀ x, pMem.z ≤ x → x < pMem.z + pMem.n → mem' x = mem x) :
    pMem.value mem' = pMem.value mem := by
  cases pMem with
  | null | int i | real r => rfl
  | str z n =>
    refine congrArg Value.text (read_congr fun i hi ↦ ?_)
    exact hsame (z + i) (Nat.le_add_right z i) (Nat.add_lt_add_left hi z)
  | blob z n nZero =>
    refine congrArg (Value.blob · nZero) (read_congr fun i hi ↦ ?_)
    exact hsame (z + i) (Nat.le_add_right z i) (Nat.add_lt_add_left hi z)

/-- The bytes of a long string after the hash of its end has been written into it. -/
theorem read_squash (hash : MdbHash) (mem : ℕ → UInt8) (z : ℕ) {n : ℕ} (hlong : 72 < n) :
    read (write mem (z + 64) (hash.val (read mem (z + 64) (n - 64)))) z 72 =
      squashBytes hash (read mem z n) := by
  have hparts : read mem z n = read mem z 64 ++ read mem (z + 64) (n - 64) := by
    rw [← read_add, Nat.add_sub_cancel' (by omega)]
  have hhash : read (write mem (z + 64) (hash.val (read mem (z + 64) (n - 64)))) (z + 64) 8 =
      hash.val (read mem (z + 64) (n - 64)) := by
    have hstands := stands_write mem (z + 64) (hash.val (read mem (z + 64) (n - 64)))
    rwa [Stands, hash.size] at hstands
  rw [squashBytes_long hash (by rw [read_length]; exact hlong), hparts,
    take_left' (read_length _ _ _), drop_left' (read_length _ _ _), read_add _ z 64 8,
    hhash, read_write_before _ _ (le_refl _)]

/-- A long register after the hash has been written into its string. -/
theorem Mem.value_squash (hlong : pMem.Long format) : (pMem.setN 72).value (write mem (pMem.z + 64)
        (hash.val (read mem (pMem.z + 64) (pMem.n - 64)))) =
      (pMem.value mem).squash hash := by
  have hn := hlong.2
  cases pMem with
  | null | int i | real r => exact absurd hn (Nat.not_lt_zero 72)
  | str z n => exact congrArg Value.text (read_squash hash mem z hn)
  | blob z n nZero => exact congrArg (Value.blob · nZero) (read_squash hash mem z hn)

/-- The value of a register that is not long stays as it is. -/
theorem Mem.value_squash_short (hshort : ¬ pMem.Long format) (mem : ℕ → UInt8) :
    (pMem.value mem).squash hash = pMem.value mem := by
  cases pMem with
  | null | int i | real r => rfl
  | str z n | blob z n nZero =>
    have hn : n ≤ 72 := by
      by_contra hlong
      exact hshort ⟨by simp only [Mem.serialType]; omega, not_le.mp hlong⟩
    rw [Mem.value, Value.squash, squashBytes_short hash (by rw [read_length]; exact hn)]

theorem squashFields_outside {x : ℕ} (hoff : ∀ pMem ∈ aMem, x < pMem.z ∨ pMem.z + pMem.n ≤ x) :
    (squashFields hash format mem aMem).1 x = mem x := by
  induction aMem generalizing mem with
  | nil => rfl
  | cons pMem rest ih =>
    obtain ⟨hfirst, hrest⟩ := forall_mem_cons.mp hoff
    rw [squashFields]
    split_ifs with hlong
    · have hn := hlong.2
      simp only [ih hrest]
      rcases hfirst with hbefore | hafter
      · exact write_of_lt _ _ (by omega)
      · refine write_of_le _ ?_
        rw [hash.size]
        omega
    · exact ih hrest

/-- Registers whose strings do not meet hold the squashed values after the first loop. -/
theorem squashFields_values (hapart : aMem.Pairwise Mem.Apart) :
    (squashFields hash format mem aMem).2.map (Mem.value (squashFields hash format mem aMem).1) =
      aMem.map fun pMem ↦ (pMem.value mem).squash hash := by
  induction aMem generalizing mem with
  | nil => rfl
  | cons pMem rest ih =>
    obtain ⟨hfirst, hrest⟩ := pairwise_cons.mp hapart
    -- the loop over the rest leaves the string of the first register
    have hkept : ∀ before : ℕ → UInt8, ∀ x, pMem.z ≤ x → x < pMem.z + pMem.n →
        (squashFields hash format before rest).1 x = before x := by
      intro before x hlow hhigh
      refine squashFields_outside fun other hother ↦ ?_
      rcases hfirst other hother with hapart | hapart
      · exact .inl (by omega)
      · exact .inr (by omega)
    rw [squashFields, map_cons]
    split_ifs with hlong
    · have hn := hlong.2
      simp only [map_cons]
      have hsquashed : ∀ other ∈ rest, other.value (write mem (pMem.z + 64)
          (hash.val (read mem (pMem.z + 64) (pMem.n - 64)))) = other.value mem := by
        intro other hother
        refine value_congr fun x hlow hhigh ↦ ?_
        rcases hfirst other hother with hapart | hapart
        · refine write_of_le _ ?_
          rw [hash.size]
          omega
        · exact write_of_lt _ _ (by omega)
      have hhead : (pMem.setN 72).z = pMem.z ∧ (pMem.setN 72).n ≤ pMem.n := by
        cases pMem with
        | null | int i | real r => exact ⟨rfl, le_refl _⟩
        | str z n | blob z n nZero => exact ⟨rfl, le_of_lt hn⟩
      rw [ih hrest, map_congr_left fun other hother ↦
        congrArg (Value.squash hash) (hsquashed other hother)]
      refine congrArg (· :: _) ?_
      rw [← value_squash hlong]
      refine value_congr fun x hlow hhigh ↦ hkept _ x (by omega) (by omega)
    · simp only [map_cons]
      rw [ih hrest, value_squash_short hlong]
      exact congrArg (· :: _) (value_congr (hkept mem))

end

/-! ### Writing the record -/

/-- Each string starts at or behind the place its register is written to, if the serial forms of
the registers are written next to each other from `a` on. -/
def LaidOut (fileFormat : ℕ) : ℕ → List Mem → Prop
  | _, [] => True
  | a, pMem :: rest => (pMem.n = 0 ∨ a ≤ pMem.z) ∧
      LaidOut fileFormat (a + sqlite3VdbeSerialTypeLen (pMem.serialType fileFormat)) rest

section

variable {format : ℕ} {mem mem' : ℕ → UInt8} {aMem : List Mem}

theorem LaidOut.behind {a : ℕ} (hlaid : LaidOut format a aMem) :
    ∀ pMem ∈ aMem, pMem.n = 0 ∨ a ≤ pMem.z := by
  induction aMem generalizing a with
  | nil => exact fun pMem hpMem ↦ absurd hpMem not_mem_nil
  | cons first rest ih =>
    intro pMem hpMem
    rcases mem_cons.mp hpMem with rfl | hin
    · exact hlaid.1
    · exact (ih hlaid.2 pMem hin).imp_right fun hle ↦ le_trans (Nat.le_add_right _ _) hle

/-- Registers behind the bytes that change keep their values. -/
theorem LaidOut.values {a : ℕ} (hlaid : LaidOut format a aMem)
    (hsame : ∀ x, a ≤ x → mem' x = mem x) :
    aMem.map (Mem.value mem') = aMem.map (Mem.value mem) := by
  refine map_congr_left fun pMem hpMem ↦ value_congr fun x hlow hhigh ↦ ?_
  rcases hlaid.behind pMem hpMem with hempty | hle
  · omega
  · exact hsame x (by omega)

/-- The last loop writes the serial forms of what the registers hold, although they share the
memory it writes to. -/
theorem squashPut_stands (nByte : ℕ) {aKey len : ℕ}
    (hexpanded : ∀ v ∈ aMem.map (Mem.value mem), v.Expanded)
    (hlaid : LaidOut format (aKey + len) aMem) : (squashPut format aKey nByte mem len aMem).2 =
        len + (dataBytes format (aMem.map (Mem.value mem))).length ∧
      Stands (squashPut format aKey nByte mem len aMem).1 (aKey + len)
        (dataBytes format (aMem.map (Mem.value mem))) ∧
      ∀ x, aKey + len + (dataBytes format (aMem.map (Mem.value mem))).length ≤ x →
        (squashPut format aKey nByte mem len aMem).1 x = mem x := by
  induction aMem generalizing mem len with
  | nil => exact ⟨rfl, stands_nil _ _, fun x _ ↦ rfl⟩
  | cons pMem rest ih =>
    rw [map_cons] at hexpanded ⊢
    obtain ⟨hfirst, hrest⟩ := forall_mem_cons.mp hexpanded
    have hput := serialPut_expanded hfirst (nByte - len) format
    have hlength := serialBytes_length hfirst format
    rw [serialType_value] at hlength
    obtain ⟨_, hlaidRest⟩ := hlaid
    rw [← hlength, Nat.add_assoc] at hlaidRest
    have hvalues : rest.map (Mem.value (write mem (aKey + len)
        (serialBytes (pMem.value mem) format))) = rest.map (Mem.value mem) :=
      hlaidRest.values fun x hx ↦ write_of_le mem (by omega)
    obtain ⟨hsize, hstands, hbehind⟩ := ih (by rw [hvalues]; exact hrest) hlaidRest
    rw [hvalues] at hsize hstands hbehind
    simp only [squashPut, hput]
    rw [dataBytes_cons, length_append, stands_append, Nat.add_assoc aKey len]
    refine ⟨by rw [hsize]; omega, ⟨?_, hstands⟩, fun x hx ↦ ?_⟩
    · refine (stands_write mem (aKey + len) (serialBytes (pMem.value mem) format)).congr
        fun i hi ↦ squashPut_before ?_
      omega
    · rw [hbehind x (by omega), write_of_le mem (by omega)]

theorem memTypeBytes_value (mem : ℕ → UInt8) (aMem : List Mem) :
    memTypeBytes format aMem = typeBytes format (aMem.map (Mem.value mem)) := by
  rw [memTypeBytes, typeBytes, flatMap_map]
  simp [serialType_value]

theorem sum_varintLen (mem : ℕ → UInt8)
    (htypes : ∀ v ∈ aMem.map (Mem.value mem), sqlite3VdbeSerialType v format < 2 ^ 32) :
    (aMem.map fun pMem ↦ sqlite3VarintLen (pMem.serialType format)).sum =
      (typeBytes format (aMem.map (Mem.value mem))).length := by
  induction aMem with
  | nil => rfl
  | cons pMem rest ih =>
    rw [map_cons] at htypes
    obtain ⟨hfirst, hrest⟩ := forall_mem_cons.mp htypes
    rw [map_cons, sum_cons, ih hrest, map_cons, typeBytes_cons, length_append,
      putVarint32_length hfirst, serialType_value]

/-- The record of what the registers hold is written over the key. -/
theorem squashRewrite_record {fields : List Value} {hdr : ℕ} (key : MdbVal)
    (hfields : aMem.map (Mem.value mem) = fields) (hrecordable : Recordable format fields)
    (htypes : (typeBytes format fields).length < 2 ^ 31)
    (hhdr : headerSize (typeBytes format fields).length = hdr)
    (hlaid : LaidOut format (key.mvData + hdr) aMem) : (squashRewrite format mem aMem key).2 =
        ⟨(recordBytes format hdr fields).length, key.mvData⟩ ∧
      Stands (squashRewrite format mem aMem key).1 key.mvData (recordBytes format hdr fields) ∧
      ∀ x, key.mvData + (recordBytes format hdr fields).length ≤ x →
        (squashRewrite format mem aMem key).1 x = mem x := by
  obtain ⟨hsize, hfits⟩ := headerSize_right htypes
  rw [hhdr] at hsize hfits
  have hlength : (putVarint32 hdr ++ typeBytes format fields).length = hdr := by
    rw [length_append, putVarint32_length hfits]
    exact hsize.symm
  have hsum := sum_varintLen mem (hfields.symm ▸ hrecordable.types)
  have htypeBytes := @memTypeBytes_value format mem aMem
  rw [hfields] at hsum htypeBytes
  have hvalues : aMem.map (Mem.value (write mem key.mvData
      (putVarint32 hdr ++ typeBytes format fields))) = fields :=
    (hlaid.values fun x hx ↦ write_of_le mem (by rw [hlength]; exact hx)).trans hfields
  rw [recordBytes_length ⟨hfits, hsize⟩]
  simp only [squashRewrite]
  rw [hsum, htypeBytes, hhdr, hlength]
  obtain ⟨hend, hstands, hbehind⟩ := squashPut_stands
    (hdr + (aMem.map fun pMem ↦ sqlite3VdbeSerialTypeLen (pMem.serialType format)).sum)
    (by rw [hvalues]; exact hrecordable.expanded) hlaid
  rw [hvalues] at hend hstands hbehind
  refine ⟨by rw [hend], ?_, fun x hx ↦ ?_⟩
  · rw [recordBytes, ← append_assoc, stands_append, hlength]
    refine ⟨(stands_write mem key.mvData _).congr fun i hi ↦ squashPut_before ?_, hstands⟩
    rw [hlength] at hi
    omega
  · rw [hbehind x (by omega), write_of_le mem (by rw [hlength]; omega)]

end

/-! ### The registers of an unpacked key -/

section

variable {hash : MdbHash} {fileFormat : ℕ} {fields : List Value} {a : ℕ}

theorem Value.serialType_memAt (v : Value) (a fileFormat : ℕ) :
    (v.memAt a).serialType fileFormat = sqlite3VdbeSerialType v fileFormat := by
  cases v with
  | _ => rfl

/-- The register for a value has no string, or the string is the serial form of the value. -/
theorem Value.memAt_string {v : Value} (hexpanded : v.Expanded) (a fileFormat : ℕ) :
    ((v.memAt a).z = 0 ∧ (v.memAt a).n = 0) ∨
      ((v.memAt a).z = a ∧ (v.memAt a).n = (serialBytes v fileFormat).length) := by
  have hlength := serialBytes_length hexpanded fileFormat
  cases v with
  | null | int i | real r => exact .inl ⟨rfl, rfl⟩
  | text bytes => exact .inr ⟨rfl, by rw [serialBytes, serialPut_text]; rfl⟩
  | blob bytes nZero =>
    obtain rfl : nZero = 0 := hexpanded
    refine .inr ⟨rfl, ?_⟩
    rw [hlength, sqlite3VdbeSerialType, serialTypeLen_large (by omega), Value.memAt, Mem.n]
    omega

/-- The strings of the registers are where the serial forms of the fields are. -/
theorem memsAt_within (hexpanded : ∀ v ∈ fields, v.Expanded) :
    ∀ pMem ∈ memsAt fileFormat a fields, (pMem.z = 0 ∧ pMem.n = 0) ∨
      (a ≤ pMem.z ∧ pMem.z + pMem.n ≤ a + (dataBytes fileFormat fields).length) := by
  induction fields generalizing a with
  | nil => exact fun pMem hpMem ↦ absurd hpMem not_mem_nil
  | cons v rest ih =>
    obtain ⟨hv, hrest⟩ := forall_mem_cons.mp hexpanded
    rw [dataBytes_cons, length_append]
    intro pMem hpMem
    rcases mem_cons.mp hpMem with rfl | hin
    · exact (v.memAt_string hv a fileFormat).imp_right fun hstring ↦ by omega
    · exact (ih hrest pMem hin).imp_right fun hwithin ↦ by omega

theorem memsAt_apart (hexpanded : ∀ v ∈ fields, v.Expanded) :
    (memsAt fileFormat a fields).Pairwise Mem.Apart := by
  induction fields generalizing a with
  | nil => exact List.Pairwise.nil
  | cons v rest ih =>
    obtain ⟨hv, hrest⟩ := forall_mem_cons.mp hexpanded
    refine List.Pairwise.cons (fun other hother ↦ ?_) (ih hrest)
    have hfirst := v.memAt_string hv a fileFormat
    rcases memsAt_within hrest other hother with hempty | hwithin
    · exact .inr (by omega)
    · exact .inl (by omega)

/-- A squashed register does not take more bytes than before. -/
theorem Mem.squash_typeLen (pMem : Mem) (fileFormat : ℕ) :
    sqlite3VdbeSerialTypeLen ((pMem.squash fileFormat).serialType fileFormat) ≤
      sqlite3VdbeSerialTypeLen (pMem.serialType fileFormat) := by
  rw [Mem.squash]
  split_ifs with hlong
  · have hn := hlong.2
    cases pMem with
    | null | int i | real r => exact le_refl _
    | str z n | blob z n nZero =>
      have hn : 72 < n := hn
      rw [Mem.setN, Mem.serialType, Mem.serialType, serialTypeLen_large (by omega),
        serialTypeLen_large (by omega)]
      omega
  · exact le_refl _

theorem Mem.squash_string (pMem : Mem) (fileFormat : ℕ) :
    (pMem.squash fileFormat).z = pMem.z ∧ (pMem.squash fileFormat).n ≤ pMem.n := by
  refine ⟨?_, ?_⟩
  · rw [Mem.squash]
    split_ifs with hlong
    · cases pMem <;> rfl
    · rfl
  · rw [n_squash]
    split_ifs with hlong
    · exact le_of_lt hlong.2
    · exact le_refl _

/-- The squashed registers are laid out for a key that starts no later. -/
theorem memsAt_laidOut (fileFormat : ℕ) {b : ℕ} (hexpanded : ∀ v ∈ fields, v.Expanded)
    (hle : b ≤ a) :
    LaidOut fileFormat b ((memsAt fileFormat a fields).map (Mem.squash fileFormat)) := by
  induction fields generalizing a b with
  | nil => trivial
  | cons v rest ih =>
    obtain ⟨hv, hrest⟩ := forall_mem_cons.mp hexpanded
    have hstring := (v.memAt a).squash_string fileFormat
    have hlen := (v.memAt a).squash_typeLen fileFormat
    rw [v.serialType_memAt, ← serialBytes_length hv] at hlen
    refine ⟨?_, ih hrest (by omega)⟩
    rcases v.memAt_string hv a fileFormat with hempty | hat
    · exact .inl (by omega)
    · exact .inr (by omega)

theorem exists_long_memsAt (hexpanded : ∀ v ∈ fields, v.Expanded) (fileFormat' : ℕ) :
    (∃ pMem ∈ memsAt fileFormat a fields, pMem.Long fileFormat') ↔ ¬ ShortFields fields := by
  constructor
  · rintro ⟨pMem, hmem, hlong⟩ hshort
    exact short_memsAt hexpanded hshort fileFormat' a pMem hmem hlong
  · intro hlong
    induction fields generalizing a with
    | nil => exact absurd (fun v hv ↦ absurd hv not_mem_nil) hlong
    | cons v rest ih =>
      obtain ⟨hv, hrest⟩ := forall_mem_cons.mp hexpanded
      by_cases hsize : v.size ≤ 72
      · obtain ⟨pMem, hmem, hpMem⟩ := ih hrest (a := a + (serialBytes v fileFormat).length)
          fun hshort ↦ hlong (forall_mem_cons.mpr ⟨hsize, hshort⟩)
        exact ⟨pMem, .tail _ hmem, hpMem⟩
      · refine ⟨v.memAt a, .head _, ?_, ?_⟩
        · rw [v.serialType_memAt]
          cases v with
          | null | int i | real r => exact absurd (Nat.zero_le 72) hsize
          | text bytes | blob bytes nZero =>
            rw [sqlite3VdbeSerialType]
            omega
        · cases v with
          | null | int i | real r => exact absurd (Nat.zero_le 72) hsize
          | text bytes => exact not_le.mp hsize
          | blob bytes nZero =>
            obtain rfl : nZero = 0 := hv
            exact not_le.mp hsize

end

/-! ### The key of a record with a long field -/

/-- The fields of a key as `squashIndexKey` leaves them. -/
def squashedFields (hash : MdbHash) (fields : List Value) : List Value :=
  fields.map (Value.squash hash)

/-- The size of the header of the key that `squashIndexKey` writes. -/
def squashedHeader (hash : MdbHash) (fileFormat : ℕ) (fields : List Value) : ℕ :=
  headerSize (typeBytes fileFormat (squashedFields hash fields)).length

def squashedKey (hash : MdbHash) (fileFormat : ℕ) (fields : List Value) : Bytes :=
  recordBytes fileFormat (squashedHeader hash fileFormat fields) (squashedFields hash fields)

section

variable {format : ℕ} {fields : List Value} {last : Value} {z : Bytes}

variable (hash : MdbHash)

theorem squashedFields_short (hshort : ShortFields fields) :
    squashedFields hash fields = fields := by
  have hsame : fields.map (Value.squash hash) = fields.map id :=
    map_congr_left fun v hv ↦ v.squash_short hash (hshort v hv)
  rw [squashedFields, hsame, map_id]

theorem Recordable.squashed (hrecordable : Recordable format fields) :
    Recordable format (squashedFields hash fields) := by
  refine ⟨fun w hw ↦ ?_, fun w hw ↦ ?_⟩
  · obtain ⟨v, hv, rfl⟩ := mem_map.mp hw
    exact v.squash_expanded hash (hrecordable.expanded v hv)
  · obtain ⟨v, hv, rfl⟩ := mem_map.mp hw
    exact lt_of_le_of_lt (serialType_squash_le hash v format) (hrecordable.types v hv)

/-- Squashed fields take no more bytes, neither in the header of a record nor behind it. -/
theorem squashedFields_le (hrecordable : Recordable format fields) :
    (typeBytes format (squashedFields hash fields)).length ≤ (typeBytes format fields).length ∧
      (dataBytes format (squashedFields hash fields)).length ≤
        (dataBytes format fields).length := by
  induction fields with
  | nil => exact ⟨le_refl _, le_refl _⟩
  | cons v rest ih =>
    obtain ⟨⟨hexpanded, htype⟩, hrest⟩ := Recordable.cons.mp hrecordable
    obtain ⟨htypes, hdata⟩ := ih hrest
    have hle := serialType_squash_le hash v format
    have hvarint := varintLen_mono hle htype
    have hbytes := serialBytes_squash_le hash hexpanded format
    rw [squashedFields] at htypes hdata
    rw [squashedFields, map_cons, typeBytes_cons, typeBytes_cons, dataBytes_cons,
      dataBytes_cons, length_append, length_append, length_append,
      length_append, putVarint32_length htype,
      putVarint32_length (lt_of_le_of_lt hle htype)]
    omega

theorem KeyFields.squashed_types (hfields : KeyFields format fields) :
    (typeBytes format (squashedFields hash fields)).length + 1 < 2 ^ 31 := by
  have hle := (squashedFields_le hash hfields.recordable).1
  have htypes := hfields.types
  omega

theorem KeyFields.squashed_header (hfields : KeyFields format fields) :
    HeaderFor format (squashedHeader hash format fields) (squashedFields hash fields) := by
  have htypes := hfields.squashed_types hash
  obtain ⟨hsize, hfits⟩ := headerSize_right
    (show (typeBytes format (squashedFields hash fields)).length < 2 ^ 31 by omega)
  exact ⟨hfits, hsize⟩

/-- The header and the whole key are no longer than before. -/
theorem KeyFields.squashed_le (hfields : KeyFields format fields) :
    squashedHeader hash format fields ≤ keyHeader format fields ∧
      (squashedKey hash format fields).length ≤ (indexKey format fields).length := by
  obtain ⟨htypes, hdata⟩ := squashedFields_le hash hfields.recordable
  have hlt := hfields.types
  have hheader : squashedHeader hash format fields ≤ keyHeader format fields :=
    headerSize_le htypes (by omega) hfields.header.fits hfields.header.size
  refine ⟨hheader, ?_⟩
  rw [squashedKey, indexKey, recordBytes_length (hfields.squashed_header hash),
    recordBytes_length hfields.header]
  omega

/-- What `sqlite3BtreeInsert` makes of a record with a long field: the key is the record of the
squashed fields, and the item is that of the last field.
Assumes: the record has at most one field more than the registers of the cursor hold. -/
theorem splitRecord_squashed (info : KeyInfo) {mem : ℕ → UInt8} {a : ℕ}
    (hmade : MadeRecord format (fields ++ [last]) z)
    (hlast : sqlite3VdbeSerialType last format < 128) (hstands : Stands mem a z)
    (hroom : fields.length ≤ info.nField + 1) (hlong : ¬ ShortFields fields) :
    ∃ split, splitRecord hash info format mem a z.length = split ∧
      split.key.mvSize = (squashedKey hash format (fields.map Value.expand)).length ∧
      split.key.bytes split.mem = squashedKey hash format (fields.map Value.expand) ∧
      split.data.bytes split.mem = lastItem format last.expand := by
  obtain ⟨mem', hsplit, hkey, hitem, hunpack⟩ := hmade.split hlast hstands (info.nField + 1)
  have hfields := hmade.keyFields hlast
  have hsome : ¬ ShortFields (fields.map Value.expand) := fun hshort ↦ hlong fun v hv ↦ by
    rw [← v.size_expand]
    exact hshort v.expand (mem_map_of_mem hv)
  rw [← length_map Value.expand] at hroom
  generalize fields.map Value.expand = fields at hsplit hkey hitem hunpack hfields hsome hroom ⊢
  obtain ⟨hheaderLe, hkeyLe⟩ := hfields.squashed_le hash
  have hexpanded := hfields.recordable.expanded
  -- what is known of the registers of the key
  rw [take_of_length_le (by rw [memsAt_length]; exact hroom)] at hunpack
  have hregisters := memsAt_value hfields.recordable (hfields.stands_data hkey)
  have hlaid := memsAt_laidOut format hexpanded (Nat.add_le_add_left hheaderLe a)
  have hexists := (@exists_long_memsAt format fields (a + keyHeader format fields)
    hexpanded format).mpr hsome
  have hapart := @memsAt_apart format fields (a + keyHeader format fields) hexpanded
  have hwithin := @memsAt_within format fields (a + keyHeader format fields) hexpanded
  generalize memsAt format (a + keyHeader format fields) fields = aMem
    at hunpack hregisters hexists hlaid hapart hwithin
  have hvalues : (squashFields hash format mem' aMem).2.map
      (Mem.value (squashFields hash format mem' aMem).1) = squashedFields hash fields := by
    rw [squashFields_values hapart, squashedFields, ← hregisters, map_map]
    rfl
  rw [← squashFields_snd mem'] at hlaid
  have htypes := hfields.squashed_types hash
  obtain ⟨hsize, hrecord, hbehind⟩ := squashRewrite_record ⟨(indexKey format fields).length, a⟩
    hvalues (hfields.recordable.squashed hash) (by omega) rfl hlaid
  refine ⟨_, rfl, ?_⟩
  simp only [splitRecord, hsplit, hunpack, squashIndexKey, if_pos hexists, Option.getD_some, hsize]
  refine ⟨rfl, hrecord, ?_⟩
  -- the item is behind the strings and behind the new key
  refine hitem.congr fun i _ ↦ ?_
  have hlength := recordBytes_length hfields.header
  rw [← indexKey] at hlength
  have hpast : a + (squashedKey hash format fields).length ≤
      a + (indexKey format fields).length + i := by omega
  rw [hbehind _ hpast]
  refine squashFields_outside fun pMem hpMem ↦ ?_
  rcases hwithin pMem hpMem with hempty | hwithin
  · rw [hempty.1, hempty.2]
    exact .inr (Nat.zero_le _)
  · exact .inr (by omega)

end

end LumoSQL
