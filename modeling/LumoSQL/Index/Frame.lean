import LumoSQL.Index.Access

/-!
# What a call leaves of its caller's key

A search and an insert are given a key that is not theirs: the registers of a search belong to the
program, which may share their bytes with other registers, and the record of an insert is in one.
Yet `squashIndexKey` and `splitIndexKey` work in place.

`KeepsRegisters` and `KeepsRecord` say that a call leaves its key as it was. `calls_keep_key_iff`
says when: a search in an index that is not empty does if none of its fields is a text or blob of
more than 72 bytes, and an insert of a record into an index never does, unless it fails before it
starts.
-/

namespace LumoSQL

open Foundation List Option Mem

/-- The search leaves the value of every field of its record, and of every register, as it was. -/
def KeepsRegisters (mem : ℕ → UInt8) (pUnKey : UnpackedRecord) (moved : Moved) : Prop :=
  (∃ after, moved.pUnKey = some after ∧
      after.aMem.map (Mem.value moved.mem) = pUnKey.aMem.map (Mem.value mem)) ∧
    ∀ register : Mem, register.value moved.mem = register.value mem

/-- The insert leaves the `nKey` bytes at `pKey` as they were. -/
def KeepsRecord (mem : ℕ → UInt8) (pKey nKey : ℕ) (inserted : Rc × MdbTable × (ℕ → UInt8)) : Prop :=
  read inserted.2.2 pKey nKey = read mem pKey nKey

/-- The database has `MDB_INTEGERKEY`. -/
def MdbTable.IsIntegerKey : MdbTable → Prop
  | .integerKey _ => True
  | _ => False

instance : DecidablePred MdbTable.IsIntegerKey
  | .integerKey _ => isTrue trivial
  | .plain _ => isFalse id
  | .dupSort _ => isFalse id

section

variable (hash : MdbHash) (info : KeyInfo) (format : ℕ)

/-! ### Searches -/

/-- A comparison leaves the registers of the record. -/
theorem recordCompare_aMem (pKey1 : Bytes) (mem : ℕ → UInt8) (pPKey2 : UnpackedRecord) :
    (sqlite3VdbeRecordCompare info pKey1 mem pPKey2).2.aMem = pPKey2.aMem := by
  unfold sqlite3VdbeRecordCompare
  simp only
  split
  · split_ifs
    · split <;> rfl
    · rfl
  · split_ifs <;> rfl

variable {a : ℕ} {fields : List Value} {fileFormat' : ℕ} {last : Value} {z : Bytes}
  (index mem : ℕ → UInt8) (pUnKey : UnpackedRecord) (nodes : List (Node Bytes Bytes))

/-- What a search in an index leaves: the memory and the registers of `squashIndexKey`. -/
theorem movetoRecord_frame : (movetoRecord hash info format index mem pUnKey nodes).mem =
        (squashFields hash format mem pUnKey.aMem).1 ∧
      ∃ after, (movetoRecord hash info format index mem pUnKey nodes).pUnKey = some after ∧
        after.aMem = (squashFields hash format mem pUnKey.aMem).2 := by
  have hsquash : squashIndexKey hash mem pUnKey.aMem format none =
      ((squashFields hash format mem pUnKey.aMem).1,
        (squashFields hash format mem pUnKey.aMem).2, none) := by
    unfold squashIndexKey
    split_ifs <;> rfl
  unfold movetoRecord
  simp only [hsquash]
  split
  · exact ⟨rfl, _, rfl, rfl⟩
  · exact ⟨rfl, _, rfl, recordCompare_aMem _ _ _ _⟩

theorem Mem.n_of_value (mem : ℕ → UInt8) (pMem : Mem) : pMem.n = match pMem.value mem with
      | .text bytes => bytes.length
      | .blob bytes _ => bytes.length
      | _ => 0 := by
  cases pMem with
  | null | int i | real r => rfl
  | str z n | blob z n nZero => exact (read_length mem z n).symm

theorem lengths_of_values {mem mem' : ℕ → UInt8} {aMem aMem' : List Mem}
    (hvalues : aMem'.map (Mem.value mem') = aMem.map (Mem.value mem)) :
    aMem'.map Mem.n = aMem.map Mem.n := by
  have hlengths := congrArg (List.map fun v : Value ↦ match v with
      | .text bytes => bytes.length
      | .blob bytes _ => bytes.length
      | _ => 0) hvalues
  rw [List.map_map, List.map_map] at hlengths
  have hleft : aMem'.map Mem.n = _ := map_congr_left fun pMem _ ↦ n_of_value mem' pMem
  have hright : aMem.map Mem.n = _ := map_congr_left fun pMem _ ↦ n_of_value mem pMem
  rwa [hleft, hright]

/-- A search in an index keeps its key if and only if no field is long. -/
theorem movetoRecord_keeps_iff :
    KeepsRegisters mem pUnKey (movetoRecord hash info format index mem pUnKey nodes) ↔
      Short format pUnKey.aMem := by
  obtain ⟨hmem, after, hafter, haMem⟩ :=
    movetoRecord_frame hash info format index mem pUnKey nodes
  constructor
  · rintro ⟨⟨after', hafter', hvalues⟩, _⟩
    obtain rfl : after = after' := some.inj (hafter.symm.trans hafter')
    intro pMem hpMem hlong
    refine squashFields_long hash mem ⟨pMem, hpMem, hlong⟩ ?_
    rw [← haMem]
    exact lengths_of_values hvalues
  · intro hshort
    rw [squashFields_short hshort] at hmem haMem
    refine ⟨⟨after, hafter, ?_⟩, fun register ↦ ?_⟩
    · rw [hmem, haMem]
    · rw [hmem]

/-! ### Inserts -/

/-- The serial types of squashed registers take no more bytes than those of the fields. -/
theorem squashed_types_le (hfields : Recordable fileFormat' fields) (a room : ℕ) :
    ((((memsAt fileFormat' a fields).take room).map (Mem.squash format)).map fun pMem ↦
        sqlite3VarintLen (pMem.serialType format)).sum ≤
      (typeBytes fileFormat' fields).length := by
  induction fields generalizing a room with
  | nil => simp [memsAt]
  | cons v rest ih =>
    cases room with
    | zero => simp
    | succ room =>
      obtain ⟨⟨_, htype⟩, hrest⟩ := Recordable.cons.mp hfields
      have hmemType : (v.memAt a).serialType fileFormat' = sqlite3VdbeSerialType v fileFormat' := by
        cases v <;> rfl
      have hfirst := squash_varintLen (v.memAt a) format
        (show (v.memAt a).serialType fileFormat' < 2 ^ 32 by rw [hmemType]; exact htype)
      rw [hmemType] at hfirst
      rw [memsAt, take_succ_cons, map_cons, map_cons, sum_cons, typeBytes_cons,
        length_append, putVarint32_length htype]
      exact add_le_add hfirst (ih hrest _ room)

/-- Before the put, the record starts with the size of a header that is shorter than its own.
Assumes: the last serial type of the record is one byte. -/
theorem splitRecord_header {mem : ℕ → UInt8} (hmade : MadeRecord fileFormat' (fields ++ [last]) z)
    (hlast : sqlite3VdbeSerialType last fileFormat' < 128) (hstands : Stands mem a z) :
    ∃ hdr < keyHeader fileFormat' (fields.map Value.expand) + 1,
      Stands (splitRecord hash info format mem a z.length).mem a (putVarint32 hdr) := by
  have hkey := hmade.keyFields hlast
  obtain ⟨mem', hsplit, hstands', _, hunpack⟩ := hmade.split hlast hstands (info.nField + 1)
  simp only [splitRecord, hsplit, hunpack, squashIndexKey]
  split_ifs with hlong
  · refine ⟨_, ?_, squashRewrite_header format _ _ _⟩
    rw [squashFields_snd]
    have htypes := squashed_types_le format hkey.recordable
      (a + keyHeader fileFormat' (fields.map Value.expand)) (info.nField + 1)
    have hsmall := hkey.types
    exact Nat.lt_succ_of_le (headerSize_le htypes (by omega) hkey.header.fits hkey.header.size)
  · have hshort : Short format ((memsAt fileFormat'
        (a + keyHeader fileFormat' (fields.map Value.expand))
        (fields.map Value.expand)).take (info.nField + 1)) := fun pMem hpMem hlong' ↦
      hlong ⟨pMem, hpMem, hlong'⟩
    rw [squashFields_short hshort]
    rw [indexKey, recordBytes, stands_append] at hstands'
    exact ⟨keyHeader fileFormat' (fields.map Value.expand), Nat.lt_succ_self _, hstands'.1⟩

theorem splitRecord_changes {mem : ℕ → UInt8} (hmade : MadeRecord fileFormat' (fields ++ [last]) z)
    (hlast : sqlite3VdbeSerialType last fileFormat' < 128) (hstands : Stands mem a z) :
    read (splitRecord hash info format mem a z.length).mem a z.length ≠ read mem a z.length := by
  intro hsame
  have hkey := hmade.keyFields hlast
  have hbytes := hmade.bytes_key hlast
  obtain ⟨hdr, hless, hheader⟩ := splitRecord_header hash info format hmade hlast hstands
  have hrecord : Stands (splitRecord hash info format mem a z.length).mem a
      (putVarint32 (keyHeader fileFormat' (fields.map Value.expand) + 1) ++
        (typeBytes fileFormat' (fields.map Value.expand ++ [last.expand]) ++
          dataBytes fileFormat' (fields.map Value.expand ++ [last.expand]))) := by
    rw [← recordBytes, ← hbytes]
    exact hsame.trans hstands
  have hfits := hkey.fits
  have hshorter := getVarint32_put (by omega) hheader
  have hown := getVarint32_put hfits (stands_append.mp hrecord).1
  have hequal := (Prod.mk.inj (hshorter.symm.trans hown)).1
  omega

end

/-- When a call leaves its caller's key as it was. A search for a record does if the index is empty,
if the table has `MDB_INTEGERKEY`, or if no field is a text or blob of more than 72 bytes, and only
then. An insert of a record does if the table has `MDB_INTEGERKEY` or no memory could be allocated,
and, for a record whose last serial type is one byte, only then. -/
theorem calls_keep_key_iff (hash : MdbHash) (pKeyInfo : KeyInfo) (fileFormat : ℕ) (table : MdbTable)
    (mem : ℕ → UInt8) :
    (∀ (past : Bool) (index : ℕ → UInt8) (pUnKey : UnpackedRecord) (intKey : Int64) (moved : Moved),
      sqlite3BtreeMovetoUnpacked hash pKeyInfo fileFormat past index table mem
          (some pUnKey) intKey = some moved →
        (KeepsRegisters mem pUnKey moved ↔
          table.mdEntries = 0 ∨ table.IsIntegerKey ∨ Short fileFormat pUnKey.aMem)) ∧
    ∀ (allocated : Bool) (outcome : MdbRc) (pKey : ℕ) (nKey : Int64) (data : Bytes),
      (table.IsIntegerKey ∨ allocated = false →
        KeepsRecord mem pKey nKey.toInt.toNat (sqlite3BtreeInsert hash pKeyInfo fileFormat allocated
          outcome table mem (some pKey) nKey data)) ∧
      ∀ (recordFormat : ℕ) (fields : List Value) (last : Value) (z : Bytes),
        MadeRecord recordFormat (fields ++ [last]) z →
        sqlite3VdbeSerialType last recordFormat < 128 → nKey.toInt = z.length → Stands mem pKey z →
        (KeepsRecord mem pKey nKey.toInt.toNat
          (sqlite3BtreeInsert hash pKeyInfo fileFormat allocated
          outcome table mem (some pKey) nKey data) ↔ table.IsIntegerKey ∨ allocated = false) := by
  refine ⟨?_, ?_⟩
  · intro past index pUnKey intKey moved hmoved
    unfold sqlite3BtreeMovetoUnpacked at hmoved
    by_cases hempty : table.mdEntries = 0
    · rw [if_pos hempty] at hmoved
      cases hmoved
      exact ⟨fun _ ↦ .inl hempty, fun _ ↦ ⟨⟨pUnKey, rfl, rfl⟩, fun _ ↦ rfl⟩⟩
    · rw [if_neg hempty] at hmoved
      cases table with
      | integerKey nodes =>
        cases hmoved
        refine ⟨fun _ ↦ .inr (.inl trivial), fun _ ↦ ?_⟩
        simp only [movetoRow]
        split
        · exact ⟨⟨pUnKey, rfl, rfl⟩, fun _ ↦ rfl⟩
        · split_ifs
          · exact ⟨⟨pUnKey, rfl, rfl⟩, fun _ ↦ rfl⟩
          · exact ⟨⟨pUnKey, rfl, rfl⟩, fun _ ↦ rfl⟩
      | plain nodes => cases hmoved
      | dupSort nodes =>
        cases hmoved
        rw [movetoRecord_keeps_iff]
        constructor
        · exact fun hshort ↦ .inr (.inr hshort)
        · rintro (hzero | hinteger | hshort)
          · exact absurd hzero hempty
          · exact hinteger.elim
          · exact hshort
  · intro allocated outcome pKey nKey data
    have henough : table.IsIntegerKey ∨ allocated = false →
        (sqlite3BtreeInsert hash pKeyInfo fileFormat allocated outcome table mem (some pKey) nKey
          data).2.2 = mem := by
      rintro (hinteger | rfl)
      · cases table with
        | integerKey nodes => rfl
        | plain nodes | dupSort nodes => exact hinteger.elim
      · cases table <;> rfl
    refine ⟨fun hcond ↦ congrArg (fun mem' ↦ read mem' pKey nKey.toInt.toNat) (henough hcond), ?_⟩
    intro recordFormat fields last z hmade hlast hsize hstands
    refine ⟨fun hkeeps ↦ ?_, fun hcond ↦
      congrArg (fun mem' ↦ read mem' pKey nKey.toInt.toNat) (henough hcond)⟩
    by_contra hcond
    obtain ⟨hindex, hallocated⟩ := not_or.mp hcond
    rw [Bool.not_eq_false] at hallocated
    have hlength : nKey.toInt.toNat = z.length := by omega
    refine splitRecord_changes hash pKeyInfo fileFormat hmade hlast hstands ?_
    rw [KeepsRecord, hallocated, hlength] at hkeeps
    cases table with
    | integerKey nodes => exact absurd trivial hindex
    | plain nodes | dupSort nodes =>
      simp only [sqlite3BtreeInsert, if_pos, hlength] at hkeeps
      exact hkeeps

/-- An index of one column with the entry of the record `(5, 7)`. -/
def fiveSeven : MdbTable := .dupSort [⟨[2, 1, 5], [[1, 7]]⟩]

/-- The search for `key` that `OP_Found` makes. -/
def foundKey (key : Mem) : UnpackedRecord :=
  { aMem := [key], incrKey := false, prefixMatch := true, prefixSearch := false, rowid := 0 }

theorem calls_keep_key_fiveSeven :
    (∃ moved, sqlite3BtreeMovetoUnpacked .fnv ⟨[(none, false)]⟩ 4 false (fun _ ↦ 0) fiveSeven
        (ofBytes [3, 1, 1, 5, 7]) (some (foundKey (.int 5))) 0 = some moved ∧
      KeepsRegisters (ofBytes [3, 1, 1, 5, 7]) (foundKey (.int 5)) moved) ∧
    ¬ KeepsRecord (ofBytes [3, 1, 1, 5, 7]) 0 (Int64.toInt 5).toNat (sqlite3BtreeInsert .fnv
      ⟨[(none, false)]⟩ 4 true .success fiveSeven (ofBytes [3, 1, 1, 5, 7]) (some 0) 5 []) := by
  have hcalls := calls_keep_key_iff .fnv ⟨[(none, false)]⟩ 4 fiveSeven (ofBytes [3, 1, 1, 5, 7])
  have hmade : MadeRecord 4 ([.int 5] ++ [.int 7]) [3, 1, 1, 5, 7] :=
    ⟨by decide, SQLITE_MAX_LENGTH, [3, 1, 1, 5, 7], 0, le_refl _, by decide, rfl⟩
  refine ⟨⟨_, rfl, (hcalls.1 false (fun _ ↦ 0) (foundKey (.int 5)) 0 _ rfl).mpr
    (.inr (.inr (by decide)))⟩, ?_⟩
  rw [(hcalls.2 true .success 0 5 []).2 4 [.int 5] (.int 7) [3, 1, 1, 5, 7] hmade (by decide) rfl
    (stands_ofBytes _)]
  decide

/-- A search for a text of 73 bytes in an index with an entry leaves a text of 72 bytes in the
register of its caller. -/
theorem moveto_cuts_register :
    ∃ moved, sqlite3BtreeMovetoUnpacked .fnv ⟨[(none, false)]⟩ 4 false (fun _ ↦ 0) fiveSeven
        (fun _ ↦ 0x61) (some (foundKey (.str 0 73))) 0 = some moved ∧
      (moved.pUnKey.map UnpackedRecord.aMem) = some [.str 0 72] ∧
      ¬ KeepsRegisters (fun _ ↦ 0x61) (foundKey (.str 0 73)) moved := by
  refine ⟨_, rfl, ?_, ?_⟩
  · obtain ⟨_, after, hafter, haMem⟩ := movetoRecord_frame .fnv ⟨[(none, false)]⟩ 4 (fun _ ↦ 0)
      (fun _ ↦ 0x61) (foundKey (.str 0 73)) [⟨[2, 1, 5], [[1, 7]]⟩]
    rw [hafter, map_some, haMem, squashFields_snd]
    decide
  · rw [movetoRecord_keeps_iff]
    decide

end LumoSQL
