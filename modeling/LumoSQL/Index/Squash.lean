import LumoSQL.Index.Key

/-!
# Long fields in index keys

LMDB bounds the size of a key, so `squashIndexKey` cuts every text and blob of more than 72 bytes to
its first 64 bytes and a hash of the others. It does so in the registers it is given and in the
memory they point to; if it is given the key too, it writes the record of the cut fields over it, in
place.

`squashIndexKey_short` says that nothing happens if no field is long (`Short`), and
`squashFields_long` that otherwise a register ends up with another length. `squashRewrite_header`
says what the rewritten key starts with.
-/

namespace LumoSQL

open Foundation List

/-- `mdb_hash_val`: a hash of eight bytes, as they are in memory. -/
structure MdbHash where
  val : Bytes → Bytes
  size : ∀ bytes, (val bytes).length = 8

/-- The 64-bit FNV-1a hash that LMDB computes, with its bytes in the order of a little-endian
machine. -/
def MdbHash.fnv : MdbHash where
  val bytes :=
    let h : UInt64 := bytes.foldl (fun h byte ↦ (h ^^^ byte.toUInt64) * 0x100000001b3)
      0xcbf29ce484222325
    (bigEndian 8 h.toNat).reverse
  size bytes := by
    rw [List.length_reverse, bigEndian_length]

/-- `pMem->z`. -/
def Mem.z : Mem → ℕ
  | .str z _ => z
  | .blob z _ _ => z
  | _ => 0

/-- The register with `n` bytes. -/
def Mem.setN (n : ℕ) : Mem → Mem
  | .str z _ => .str z n
  | .blob z _ nZero => .blob z n nZero
  | pMem => pMem

/-- The serial type of a register, which its bytes play no part in. -/
def Mem.serialType (pMem : Mem) (fileFormat : ℕ) : ℕ :=
  match pMem with
  | .null => 0
  | .int i => serialTypeInt i.toInt fileFormat
  | .real _ => 7
  | .str _ n => n * 2 + 12 + 1
  | .blob _ n nZero => (n + nZero) * 2 + 12

/-- The test of the first loop of `squashIndexKey`. -/
def Mem.Long (fileFormat : ℕ) (pMem : Mem) : Prop :=
  12 ≤ pMem.serialType fileFormat ∧ 72 < pMem.n

instance (fileFormat : ℕ) (pMem : Mem) : Decidable (pMem.Long fileFormat) :=
  inferInstanceAs (Decidable (_ ∧ _))

/-- The first loop of `squashIndexKey`: the memory and the registers. -/
def squashFields (hash : MdbHash) (fileFormat : ℕ) :
    (ℕ → UInt8) → List Mem → (ℕ → UInt8) × List Mem
  | mem, [] => (mem, [])
  | mem, pMem :: rest =>
    if pMem.Long fileFormat then
      let squashed := write mem (pMem.z + 64) (hash.val (read mem (pMem.z + 64) (pMem.n - 64)))
      let others := squashFields hash fileFormat squashed rest
      (others.1, pMem.setN 72 :: others.2)
    else
      let others := squashFields hash fileFormat mem rest
      (others.1, pMem :: others.2)

/-- The last loop of `squashIndexKey`, which writes the serial forms from byte `len` of the key on:
the memory and the length. -/
def squashPut (fileFormat aKey nByte : ℕ) : (ℕ → UInt8) → ℕ → List Mem → (ℕ → UInt8) × ℕ
  | mem, len, [] => (mem, len)
  | mem, len, pMem :: rest =>
    let written := sqlite3VdbeSerialPut (nByte - len) (pMem.value mem) fileFormat
    squashPut fileFormat aKey nByte (write mem (aKey + len) written) (len + written.length) rest

def memTypeBytes (fileFormat : ℕ) (aMem : List Mem) : Bytes :=
  aMem.flatMap fun pMem ↦ putVarint32 (pMem.serialType fileFormat)

/-- The second part of `squashIndexKey`: the record of the registers is written over the key. -/
def squashRewrite (fileFormat : ℕ) (mem : ℕ → UInt8) (aMem : List Mem) (key : MdbVal) :
    (ℕ → UInt8) × MdbVal :=
  let nData := (aMem.map fun pMem ↦ sqlite3VdbeSerialTypeLen (pMem.serialType fileFormat)).sum
  let nHdr := headerSize (aMem.map fun pMem ↦ sqlite3VarintLen (pMem.serialType fileFormat)).sum
  let header := putVarint32 nHdr ++ memTypeBytes fileFormat aMem
  let written := squashPut fileFormat key.mvData (nHdr + nData) (write mem key.mvData header)
    header.length aMem
  (written.1, ⟨written.2, key.mvData⟩)

/-- `squashIndexKey`: the memory, the registers and the key, which need not be given. -/
def squashIndexKey (hash : MdbHash) (mem : ℕ → UInt8) (pun : List Mem) (fileFormat : ℕ)
    (key : Option MdbVal) : (ℕ → UInt8) × List Mem × Option MdbVal :=
  let squashed := squashFields hash fileFormat mem pun
  if ∃ pMem ∈ pun, pMem.Long fileFormat then
    match key with
    | some key =>
      let rewritten := squashRewrite fileFormat squashed.1 squashed.2 key
      (rewritten.1, squashed.2, some rewritten.2)
    | none => (squashed.1, squashed.2, none)
  else (squashed.1, squashed.2, key)

section

variable {hash : MdbHash} {fileFormat : ℕ} {mem : ℕ → UInt8} {aMem : List Mem}

theorem Mem.serialType_value (mem : ℕ → UInt8) (pMem : Mem) (fileFormat : ℕ) :
    sqlite3VdbeSerialType (pMem.value mem) fileFormat = pMem.serialType fileFormat := by
  cases pMem with
  | null | int i | real r => rfl
  | str z n | blob z n nZero => rw [Mem.value, sqlite3VdbeSerialType, read_length, Mem.serialType]

def Short (fileFormat : ℕ) (aMem : List Mem) : Prop := ∀ pMem ∈ aMem, ¬ pMem.Long fileFormat

instance (fileFormat : ℕ) (aMem : List Mem) : Decidable (Short fileFormat aMem) :=
  inferInstanceAs (Decidable (∀ pMem ∈ aMem, ¬ pMem.Long fileFormat))

theorem Short.format (hshort : Short fileFormat aMem) (format : ℕ) : Short format aMem := by
  rintro (_ | i | r | ⟨z, n⟩ | ⟨z, n, nZero⟩) hmem hlong
  case int =>
    have hrange := serialTypeInt_range i.toInt format
    have htype : 12 ≤ serialTypeInt i.toInt format := hlong.1
    omega
  all_goals exact hshort _ hmem hlong

theorem squashFields_short (hshort : Short fileFormat aMem) :
    squashFields hash fileFormat mem aMem = (mem, aMem) := by
  induction aMem with
  | nil => rfl
  | cons pMem rest ih =>
    obtain ⟨hfirst, hrest⟩ := forall_mem_cons.mp hshort
    rw [squashFields, if_neg hfirst]
    simp [ih hrest]

theorem squashIndexKey_short (hshort : Short fileFormat aMem) (key : Option MdbVal) :
    squashIndexKey hash mem aMem fileFormat key = (mem, aMem, key) := by
  have hnone : ¬ ∃ pMem ∈ aMem, pMem.Long fileFormat := fun ⟨pMem, hmem, hlong⟩ ↦
    hshort pMem hmem hlong
  simp only [squashIndexKey, squashFields_short hshort]
  rw [if_neg hnone]

/-- The register as `squashIndexKey` leaves it. -/
def Mem.squash (fileFormat : ℕ) (pMem : Mem) : Mem :=
  if pMem.Long fileFormat then pMem.setN 72 else pMem

theorem squashFields_snd (mem : ℕ → UInt8) (aMem : List Mem) :
    (squashFields hash fileFormat mem aMem).2 = aMem.map (Mem.squash fileFormat) := by
  induction aMem generalizing mem with
  | nil => rfl
  | cons pMem rest ih =>
    rw [squashFields, map_cons, Mem.squash]
    by_cases hlong : pMem.Long fileFormat
    · rw [if_pos hlong, if_pos hlong]
      simp [ih]
    · rw [if_neg hlong, if_neg hlong]
      simp [ih]

theorem Mem.n_squash (pMem : Mem) :
    (pMem.squash fileFormat).n = if pMem.Long fileFormat then 72 else pMem.n := by
  rw [Mem.squash]
  split_ifs with hlong
  · have hpositive := hlong.2
    cases pMem with
    | str z n | blob z n nZero => rfl
    | _ => exact absurd hpositive (Nat.not_lt_zero 72)
  · rfl

/-- A register that is long ends up with another length. -/
theorem squashFields_long (hash : MdbHash) (mem : ℕ → UInt8)
    (hlong : ∃ pMem ∈ aMem, pMem.Long fileFormat) :
    (squashFields hash fileFormat mem aMem).2.map Mem.n ≠ aMem.map Mem.n := by
  intro hsame
  obtain ⟨pMem, hmem, hlong⟩ := hlong
  rw [squashFields_snd, map_map] at hsame
  have heq : (pMem.squash fileFormat).n = pMem.n := map_inj_left.mp hsame pMem hmem
  rw [Mem.n_squash, if_pos hlong] at heq
  exact absurd hlong.2 (by omega)

/-! ### The rewritten key -/

theorem squashPut_before {aKey nByte len x : ℕ} (hx : x < aKey + len) :
    (squashPut fileFormat aKey nByte mem len aMem).1 x = mem x := by
  induction aMem generalizing mem len with
  | nil => rfl
  | cons pMem rest ih =>
    simp only [squashPut]
    rw [ih (by omega), write_of_lt _ _ hx]

/-- The rewritten key starts with the size of its header. -/
theorem squashRewrite_header (fileFormat : ℕ) (mem : ℕ → UInt8) (aMem : List Mem) (key : MdbVal) :
    Stands (squashRewrite fileFormat mem aMem key).1 key.mvData (putVarint32
      (headerSize (aMem.map fun pMem ↦ sqlite3VarintLen (pMem.serialType fileFormat)).sum)) := by
  have hheader := stands_write mem key.mvData (putVarint32
    (headerSize (aMem.map fun pMem ↦ sqlite3VarintLen (pMem.serialType fileFormat)).sum) ++
      memTypeBytes fileFormat aMem)
  rw [stands_append] at hheader
  refine hheader.1.congr fun i hi ↦ ?_
  refine squashPut_before ?_
  rw [length_append]
  omega

theorem varintLen_mono {m n : ℕ} (hmn : m ≤ n) (hn : n < 2 ^ 32) :
    sqlite3VarintLen m ≤ sqlite3VarintLen n := by
  have hm := varintLen_cases (n := m) (by omega)
  have hn' := varintLen_cases hn
  omega

/-- A header is at least as long as one computed for no more bytes of serial types. -/
theorem headerSize_le {nHdr types hdr : ℕ} (hle : nHdr ≤ types) (htypes : types < 2 ^ 31)
    (hfits : hdr < 2 ^ 32) (hsize : hdr = sqlite3VarintLen hdr + types) :
    headerSize nHdr ≤ hdr := by
  simp only [headerSize]
  have hself := varintLen_cases (n := nHdr) (by omega)
  have hsum := varintLen_cases (n := nHdr + sqlite3VarintLen nHdr) (by omega)
  have hhdr := varintLen_cases (n := hdr) (by omega)
  split_ifs with hlonger
  · omega
  · omega

/-- The serial type of a register does not get longer, also under another file format. -/
theorem Mem.squash_varintLen (pMem : Mem) (fileFormat : ℕ) {fileFormat' : ℕ}
    (htype : pMem.serialType fileFormat' < 2 ^ 32) :
    sqlite3VarintLen ((pMem.squash fileFormat).serialType fileFormat) ≤
      sqlite3VarintLen (pMem.serialType fileFormat') := by
  cases pMem with
  | null => exact le_refl _
  | int i =>
    have hleft := serialTypeInt_range i.toInt fileFormat
    have hright := serialTypeInt_range i.toInt fileFormat'
    have hint : ((Mem.int i).squash fileFormat) = .int i := by
      rw [Mem.squash, if_neg fun hlong ↦ absurd hlong.2 (Nat.not_lt_zero 72)]
    rw [hint, Mem.serialType, Mem.serialType, varintLen_one (by omega), varintLen_one (by omega)]
  | real r =>
    have hreal : ((Mem.real r).squash fileFormat) = .real r := by
      rw [Mem.squash, if_neg fun hlong ↦ absurd hlong.2 (Nat.not_lt_zero 72)]
    rw [hreal]
    exact le_refl _
  | str z n | blob z n nZero =>
    refine varintLen_mono ?_ htype
    rw [Mem.squash]
    split_ifs with hlong
    · have hn : 72 < n := hlong.2
      simp only [Mem.setN, Mem.serialType]
      omega
    · exact le_refl _

end

end LumoSQL
