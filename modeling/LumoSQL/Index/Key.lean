import LumoSQL.Record.Compare

/-!
# Index keys without the rowid

An index entry is stored as a key and a data item: `splitIndexKey` takes the last field, the rowid,
out of the record in place, so that the rows with the same indexed values share one key, and
`joinIndexKey` puts it back when the entry is read. Both take the last byte of the header to be the
serial type of the last field.

`splitIndexKey_record` says what is left of a record whose last serial type is one byte: the record
of the other fields, under a header that is one byte shorter, and the item. `joinIndexKey_key` says
what is joined of a key and an item. The sizes of the two headers have to have varints of one
length: a size that `OP_MakeRecord` computes has (`headerSize_pred`), and joining what a record of
it was split into gives the record.
-/

namespace LumoSQL

open Foundation List

/-- `MDB_val`: a string in memory. -/
structure MdbVal where
  mvSize : ℕ
  mvData : ℕ
  deriving DecidableEq

/-- The bytes of an `MDB_val`. -/
def MdbVal.bytes (mem : ℕ → UInt8) (val : MdbVal) : Bytes := read mem val.mvData val.mvSize

/-- `splitIndexKey`: the memory, the key and the data. -/
def splitIndexKey (mem : ℕ → UInt8) (key : MdbVal) : (ℕ → UInt8) × MdbVal × MdbVal :=
  let aKey := key.mvData
  let hdrSize := (getVarint32 mem aKey).1
  let rowidType := (getVarint32 mem (aKey + (hdrSize - 1))).1
  let dataSize := sqlite3VdbeSerialTypeLen rowidType + 1
  let keySize := key.mvSize - dataSize
  let moved := write mem (aKey + (hdrSize - 1))
    (read mem (aKey + hdrSize) (keySize - (hdrSize - 1)))
  let typed := write moved (aKey + keySize) (putVarint32 rowidType)
  let headed := write typed aKey (putVarint32 (hdrSize - 1))
  (headed, ⟨keySize, aKey⟩, ⟨dataSize, aKey + keySize⟩)

/-- `joinIndexKey` into the buffer of the cursor, of which it gives the content. -/
def joinIndexKey (newKey : ℕ → UInt8) (key data : Bytes) : ℕ → UInt8 :=
  let aKey := ofBytes key
  let aData := ofBytes data
  let hdrSize := (getVarint32 aKey 0).1
  let headed := write newKey 0 (read aKey 0 hdrSize)
  let keyed := write headed (hdrSize + 1) (read aKey hdrSize (key.length - hdrSize))
  let joined := write keyed (key.length + 1) (read aData 1 (data.length - 1))
  let typed := write joined hdrSize [aData 0]
  write typed 0 (putVarint32 (hdrSize + 1))

/-- The data item of the last field: its serial type and its serial form. -/
def lastItem (fileFormat : ℕ) (last : Value) : Bytes :=
  putVarint32 (sqlite3VdbeSerialType last fileFormat) ++ serialBytes last fileFormat

section

variable {mem : ℕ → UInt8} {fileFormat hdr format : ℕ} {fields : List Value} {last : Value}

theorem recordBytes_length (hhdr : HeaderFor format hdr fields) :
    (recordBytes format hdr fields).length = hdr + (dataBytes format fields).length := by
  have hsize := hhdr.size
  rw [recordBytes, length_append, length_append, putVarint32_length hhdr.fits]
  omega

theorem putVarint32_one {v : ℕ} (hv : v < 128) : putVarint32 v = [UInt8.ofNat v] := by
  rw [putVarint32, if_pos hv]

/-- The header of a record with one field more, whose serial type is one byte. -/
theorem HeaderFor.append_last (hhdr : HeaderFor format hdr fields) (hfits : hdr + 1 < 2 ^ 32)
    (hvarint : sqlite3VarintLen (hdr + 1) = sqlite3VarintLen hdr)
    (hlast : sqlite3VdbeSerialType last format < 128) :
    HeaderFor format (hdr + 1) (fields ++ [last]) := by
  have hsize := hhdr.size
  refine ⟨hfits, ?_⟩
  rw [typeBytes_append, length_append, hvarint, typeBytes_cons, putVarint32_one hlast,
    typeBytes_nil, append_nil, length_singleton]
  omega

/-- The header of a record without its last field, whose serial type is one byte. -/
theorem HeaderFor.dropLast (hhdr : HeaderFor format hdr (fields ++ [last]))
    (hvarint : sqlite3VarintLen (hdr - 1) = sqlite3VarintLen hdr)
    (hlast : sqlite3VdbeSerialType last format < 128) : HeaderFor format (hdr - 1) fields := by
  have hsize := hhdr.size
  have hfits := hhdr.fits
  rw [typeBytes_append, length_append, typeBytes_cons, putVarint32_one hlast, typeBytes_nil,
    append_nil, length_singleton] at hsize
  exact ⟨by omega, by omega⟩

variable {a : ℕ} {types data rest : Bytes} (newKey : ℕ → UInt8)

/-- What is left of a record when the last byte of its header and as many bytes of its end as that
byte stands for are taken out. -/
theorem splitIndexKey_parts {short : ℕ} {byte : UInt8} (hfits : short + 1 < 2 ^ 32)
    (hsize : short = sqlite3VarintLen short + types.length)
    (hvarint : sqlite3VarintLen short = sqlite3VarintLen (short + 1)) (hbyte : byte.toNat < 128)
    (hlength : rest.length = sqlite3VdbeSerialTypeLen byte.toNat)
    (hstands : Stands mem a (putVarint32 (short + 1) ++ (types ++ ([byte] ++ (data ++ rest))))) :
    ∃ mem', splitIndexKey mem
          ⟨(putVarint32 (short + 1) ++ (types ++ ([byte] ++ (data ++ rest)))).length, a⟩ =
        (mem', ⟨(putVarint32 short ++ (types ++ data)).length, a⟩,
          ⟨(byte :: rest).length, a + (putVarint32 short ++ (types ++ data)).length⟩) ∧
      Stands mem' a ((putVarint32 short ++ (types ++ data)) ++ byte :: rest) ∧
      ∀ x, x < a ∨
        a + (putVarint32 (short + 1) ++ (types ++ ([byte] ++ (data ++ rest)))).length ≤ x →
        mem' x = mem x := by
  have hone : putVarint32 byte.toNat = [byte] := by rw [putVarint32_one hbyte, UInt8.ofNat_toNat]
  have hheader := putVarint32_length hfits
  have hheader' := putVarint32_length (show short < 2 ^ 32 by omega)
  rw [← hvarint] at hheader
  have hrecord : (putVarint32 (short + 1) ++ (types ++ ([byte] ++ (data ++ rest)))).length =
      short + 1 + data.length + rest.length := by
    simp only [length_append, length_singleton, hheader]
    omega
  have hkey : (putVarint32 short ++ (types ++ data)).length = short + data.length := by
    simp only [length_append, hheader']
    omega
  rw [stands_append, stands_append, stands_append, stands_append, hheader, length_singleton,
    add_assoc a, ← hsize] at hstands
  obtain ⟨hhead, htypes, htype, hdata, hrest⟩ := hstands
  have hread : (getVarint32 mem a).1 = short + 1 := by rw [getVarint32_put hfits hhead]
  have hreadType : (getVarint32 mem (a + short)).1 = byte.toNat := by
    rw [getVarint32_put (by omega) (hone.symm ▸ htype)]
  have hkeySize : short + 1 + data.length + rest.length -
      (sqlite3VdbeSerialTypeLen byte.toNat + 1) = short + data.length := by
    omega
  have hmoved : read mem (a + (short + 1)) (short + data.length - short) = data := by
    rwa [Nat.add_sub_cancel_left]
  rw [hrecord, hkey]
  refine ⟨write (write (write mem (a + short) data) (a + (short + data.length)) [byte]) a
    (putVarint32 short), ?_, ?_, ?_⟩
  · simp only [splitIndexKey, hread, Nat.add_sub_cancel, hreadType, hkeySize, hmoved, hone]
    rw [length_cons, hlength]
  · have hitem : byte :: rest = [byte] ++ rest := rfl
    rw [hitem, append_assoc, append_assoc, stands_append, stands_append, stands_append,
      stands_append, hheader', length_singleton, add_assoc a, ← hsize]
    refine ⟨stands_write _ _ _, ?_, ?_, ?_, ?_⟩
    · exact ((htypes.write_before _ (by omega)).write_before _ (by omega)).write_after (by omega)
    · exact Stands.write_after (Stands.write_before (stands_write _ _ _) _ (by omega)) (by omega)
    · rw [add_assoc a]
      exact Stands.write_after (stands_write _ _ _) (by omega)
    · rw [add_right_comm]
      refine ((hrest.write_after (by omega)).write_after ?_).write_after (by omega)
      rw [length_singleton]
      omega
  · intro x hx
    rcases hx with hbefore | hafter
    · rw [write_of_lt _ _ hbefore, write_of_lt _ _ (by omega), write_of_lt _ _ (by omega)]
    · have hend : a + (short + data.length) + [byte].length ≤ x := by
        rw [length_singleton]
        omega
      rw [write_of_le _ (by omega), write_of_le _ hend, write_of_le _ (by omega)]

/-- What is left of a record when its last field is taken out. -/
theorem splitIndexKey_record (hfields : Recordable fileFormat (fields ++ [last]))
    (hhdr : HeaderFor fileFormat hdr (fields ++ [last]))
    (hvarint : sqlite3VarintLen (hdr - 1) = sqlite3VarintLen hdr)
    (hlast : sqlite3VdbeSerialType last fileFormat < 128)
    (hstands : Stands mem a (recordBytes fileFormat hdr (fields ++ [last]))) :
    ∃ mem', splitIndexKey mem ⟨(recordBytes fileFormat hdr (fields ++ [last])).length, a⟩ =
        (mem', ⟨(recordBytes fileFormat (hdr - 1) fields).length, a⟩,
          ⟨(lastItem fileFormat last).length,
            a + (recordBytes fileFormat (hdr - 1) fields).length⟩) ∧
      Stands mem' a (recordBytes fileFormat (hdr - 1) fields ++ lastItem fileFormat last) ∧
      ∀ x, x < a ∨ a + (recordBytes fileFormat hdr (fields ++ [last])).length ≤ x →
        mem' x = mem x := by
  have hone := putVarint32_one hlast
  have hsize := (hhdr.dropLast hvarint hlast).size
  have hfull := hhdr.size
  have hpos := varintLen_pos hdr
  obtain ⟨short, rfl⟩ : ∃ short, hdr = short + 1 := ⟨hdr - 1, by omega⟩
  rw [Nat.add_sub_cancel] at hvarint hsize ⊢
  have htoNat : (UInt8.ofNat (sqlite3VdbeSerialType last fileFormat)).toNat =
      sqlite3VdbeSerialType last fileFormat := by
    rw [UInt8.toNat_ofNat', Nat.mod_eq_of_lt (by omega)]
  have hparts : recordBytes fileFormat (short + 1) (fields ++ [last]) =
      putVarint32 (short + 1) ++ (typeBytes fileFormat fields ++
        ([UInt8.ofNat (sqlite3VdbeSerialType last fileFormat)] ++
          (dataBytes fileFormat fields ++ serialBytes last fileFormat))) := by
    rw [recordBytes, typeBytes_append, dataBytes_append, typeBytes_cons, typeBytes_nil,
      append_nil, hone, dataBytes_cons, dataBytes_nil, append_nil, append_assoc]
  rw [hparts] at hstands ⊢
  rw [lastItem, hone, recordBytes]
  refine splitIndexKey_parts hhdr.fits hsize hvarint ?_ ?_ hstands
  · rwa [htoNat]
  · rw [htoNat, serialBytes_length (hfields.expanded last (by simp))]

/-- What is joined of a key and an item. If the size of the header gets a varint that is `k` bytes
longer, that one takes the place of the first bytes of the serial types. -/
theorem joinIndexKey_parts {hdr k : ℕ} (byte : UInt8) (hfits : hdr + 1 < 2 ^ 32)
    (hsize : hdr = sqlite3VarintLen hdr + types.length)
    (hlonger : sqlite3VarintLen (hdr + 1) = sqlite3VarintLen hdr + k) (hroom : k ≤ types.length) :
    read (joinIndexKey newKey (putVarint32 hdr ++ (types ++ data)) (byte :: rest)) 0
        ((putVarint32 hdr ++ (types ++ data)).length + (byte :: rest).length) =
      putVarint32 (hdr + 1) ++ (types.drop k ++ ([byte] ++ (data ++ rest))) := by
  have hhead := putVarint32_length (show hdr < 2 ^ 32 by omega)
  have hhead' := putVarint32_length hfits
  have hheader : (putVarint32 hdr ++ types).length = hdr := by
    rw [length_append, hhead, ← hsize]
  have hparts := stands_ofBytes ((putVarint32 hdr ++ types) ++ data)
  rw [stands_append, hheader, zero_add, append_assoc] at hparts
  have hlength : (putVarint32 hdr ++ (types ++ data)).length = hdr + data.length := by
    rw [← append_assoc, length_append, hheader]
  generalize putVarint32 hdr ++ (types ++ data) = key at hparts hlength ⊢
  obtain ⟨hkeyStart, hkeyEnd⟩ := hparts
  have hitem := stands_cons.mp (stands_ofBytes (byte :: rest))
  have hread : (getVarint32 (ofBytes key) 0).1 = hdr := by
    rw [getVarint32_put (by omega) (stands_append.mp hkeyStart).1]
  rw [Stands, hheader] at hkeyStart
  have hdata : read (ofBytes key) hdr (key.length - hdr) = data := by
    rwa [hlength, Nat.add_sub_cancel_left]
  have hitemEnd : read (ofBytes (byte :: rest)) 1 ((byte :: rest).length - 1) = rest := hitem.2
  have htypes : Stands (write newKey 0 (putVarint32 hdr ++ types)) (sqlite3VarintLen hdr + k)
      (types.drop k) := by
    have hall := stands_write newKey 0 (putVarint32 hdr ++ (types.take k ++ types.drop k))
    rw [stands_append, stands_append, hhead, length_take, min_eq_left hroom,
      take_append_drop, zero_add] at hall
    exact hall.2.2
  have hjoined : Stands (joinIndexKey newKey key (byte :: rest)) 0
      (putVarint32 (hdr + 1) ++ (types.drop k ++ ([byte] ++ (data ++ rest)))) := by
    simp only [joinIndexKey, hread, hkeyStart, hdata, hitemEnd, hitem.1]
    rw [hlength, stands_append, stands_append, stands_append, stands_append, hhead', hlonger,
      zero_add, length_drop,
      show sqlite3VarintLen hdr + k + (types.length - k) = hdr by omega, length_singleton]
    refine ⟨stands_write _ _ _, ?_, ?_, ?_, ?_⟩
    · exact (((htypes.write_before _ (by simp; omega)).write_before _ (by simp; omega)).write_before
        _ (by simp; omega)).write_after (by omega)
    · exact Stands.write_after (stands_write _ _ _) (by omega)
    · refine Stands.write_after (Stands.write_after (Stands.write_before (stands_write _ _ _) _
        (by omega)) ?_) (by omega)
      rw [length_singleton]
    · rw [show hdr + 1 + data.length = hdr + data.length + 1 by omega]
      refine Stands.write_after (Stands.write_after (stands_write _ _ _) ?_) (by omega)
      rw [length_singleton]
      omega
  have htotal : (putVarint32 (hdr + 1) ++ (types.drop k ++ ([byte] ++ (data ++ rest)))).length =
      key.length + (byte :: rest).length := by
    simp only [length_append, length_drop, hhead', hlonger, hlength, length_cons, length_nil]
    omega
  rwa [← htotal]

/-- A key and an item are joined to a record if the size of its header has a varint of the same
length. The item may have been written under another file format than the key. -/
theorem joinIndexKey_key {itemFormat : ℕ} (hhdr : HeaderFor format hdr fields)
    (hfits : hdr + 1 < 2 ^ 32) (hvarint : sqlite3VarintLen (hdr + 1) = sqlite3VarintLen hdr)
    (hlast : sqlite3VdbeSerialType last itemFormat < 128) :
    read (joinIndexKey newKey (recordBytes format hdr fields) (lastItem itemFormat last)) 0
        ((recordBytes format hdr fields).length + (lastItem itemFormat last).length) =
      putVarint32 (hdr + 1) ++
        (cellTypes ((fields.map fun v ↦ (format, v)) ++ [(itemFormat, last)]) ++
          cellData ((fields.map fun v ↦ (format, v)) ++ [(itemFormat, last)])) := by
  have hsize := hhdr.size
  have hone := putVarint32_one hlast
  rw [lastItem, hone, singleton_append, recordBytes,
    joinIndexKey_parts newKey _ hfits hsize hvarint (Nat.zero_le _), drop_zero, cellTypes_append,
    cellData_append, cellTypes_map, cellData_map, cellTypes_cons,
    cellData_cons, hone]
  simp [cellTypes, cellData]

end

end LumoSQL
