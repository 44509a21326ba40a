import LumoSQL.Index.Access

/-!
# Records split and joined

`splitIndexKey` reads the last byte of a header as a serial type of its own. For a rowid it is one;
for a text or a blob of more than 57 bytes it is the end of a longer varint, and the item then gets
that byte and only as many bytes of the end of the record as it stands for. They are there
(`serialTypeLen_last`), so the two parts together are still the bytes of the record, and
`joinIndexKey_split` says that joining them gives the record back, whatever its last field is.

`splitIndexKey_unpack` says what the parts are if the last field is an integer: a record of the
other fields, and the serial type and serial form of the integer.
-/

namespace LumoSQL

open Foundation List

/-! ### The last byte of a header -/

/-- The last byte of a varint holds the last seven bits of the value. -/
theorem putVarint32_last {v : ℕ} (hv : v < 2 ^ 32) :
    ∃ before, putVarint32 v = before ++ [UInt8.ofNat (v % 128)] := by
  refine ⟨groups (sqlite3VarintLen v - 1) (v / 128), ?_⟩
  rw [putVarint32_eq hv, putVarint_groups (by omega), if_pos (by omega)]

/-- The last seven bits of a serial type stand for no more bytes than the serial type. -/
theorem serialTypeLen_last (t : ℕ) :
    sqlite3VdbeSerialTypeLen (t % 128) ≤ sqlite3VdbeSerialTypeLen t := by
  rcases lt_or_ge t 128 with hshort | hlong
  · rw [Nat.mod_eq_of_lt hshort]
  · have hmod : t % 128 < 128 := Nat.mod_lt t (by omega)
    have hlen := serialTypeLen_large (show 12 ≤ t by omega)
    have hlast : sqlite3VdbeSerialTypeLen (t % 128) ≤ 57 := by
      rcases lt_or_ge (t % 128) 12 with hsmall | hlarge
      · generalize t % 128 = low at hsmall
        revert low
        decide
      · rw [serialTypeLen_large hlarge]
        omega
    omega

section

variable {fileFormat format : ℕ} {fields : List Value} {last : Value} {z : Bytes}

/-- The five parts `splitIndexKey` sees in a record: the size of the header, the serial types but
for their last byte, that byte, the data and as many bytes of its end as the byte stands for. -/
theorem MadeRecord.parts (hmade : MadeRecord format (fields ++ [last]) z) :
    ∃ (short : ℕ) (types data rest : Bytes) (byte : UInt8),
      z = putVarint32 (short + 1) ++ (types ++ ([byte] ++ (data ++ rest))) ∧ short + 1 < 2 ^ 32 ∧
      short = sqlite3VarintLen short + types.length ∧
      sqlite3VarintLen short = sqlite3VarintLen (short + 1) ∧ byte.toNat < 128 ∧
      rest.length = sqlite3VdbeSerialTypeLen byte.toNat := by
  have hrecordable := hmade.recordable
  have hheader := hmade.header
  have hbytes := hmade.bytes_eq
  have hpred := hmade.header_pred
  rw [map_append, map_singleton] at hrecordable hheader hbytes hpred
  generalize fields.map Value.expand = fields, last.expand = last
    at hrecordable hheader hbytes hpred
  generalize makeHeader format (fields ++ [last]) = hdr at hheader hbytes hpred
  obtain ⟨before, hbefore⟩ := putVarint32_last (hrecordable.types last (by simp))
  have htypes : typeBytes format (fields ++ [last]) = typeBytes format fields ++ before ++
      [UInt8.ofNat (sqlite3VdbeSerialType last format % 128)] := by
    rw [typeBytes_append, typeBytes_cons, typeBytes_nil, append_nil, hbefore, append_assoc]
  have hsize := hheader.size
  rw [htypes, length_append, length_singleton] at hsize
  have hlast : sqlite3VdbeSerialType last format % 128 < 128 := Nat.mod_lt _ (by omega)
  have htoNat : (UInt8.ofNat (sqlite3VdbeSerialType last format % 128)).toNat =
      sqlite3VdbeSerialType last format % 128 := by
    rw [UInt8.toNat_ofNat', Nat.mod_eq_of_lt (by omega)]
  -- the data ends with at least the bytes of the last field
  have hroom : sqlite3VdbeSerialTypeLen (sqlite3VdbeSerialType last format % 128) ≤
      (dataBytes format (fields ++ [last])).length := by
    rw [dataBytes_append, dataBytes_cons, dataBytes_nil, append_nil, length_append,
      serialBytes_length (hrecordable.expanded last (by simp))]
    exact (serialTypeLen_last _).trans (Nat.le_add_left _ _)
  rw [recordBytes, htypes] at hbytes
  generalize dataBytes format (fields ++ [last]) = data at hroom hbytes
  generalize sqlite3VdbeSerialType last format % 128 = type at hlast htoNat hroom hbytes
  obtain ⟨short, rfl⟩ : ∃ short, hdr = short + 1 := ⟨hdr - 1, by omega⟩
  refine ⟨short, typeBytes format fields ++ before,
    data.take (data.length - sqlite3VdbeSerialTypeLen type),
    data.drop (data.length - sqlite3VdbeSerialTypeLen type), UInt8.ofNat type, ?_, hheader.fits, ?_,
    hpred, ?_, ?_⟩
  · rw [hbytes, take_append_drop, append_assoc (typeBytes format fields ++ before)]
  · rw [Nat.add_sub_cancel] at hpred
    omega
  · rwa [htoNat]
  · rw [htoNat, length_drop, Nat.sub_sub_self hroom]

/-- Joining the key and the data that a record is split into gives the record back, byte for byte.
The record is one `OP_MakeRecord` makes of one or more fields of any types, with its zeros written
out, and stands anywhere in memory; the buffer of the cursor holds anything before.

Assumes: the registers hold what registers can hold (`MadeRecord`). -/
theorem joinIndexKey_split (fileFormat : ℕ) (pData0 : List Value) (z : Bytes)
    (hmade : MadeRecord fileFormat pData0 z) (hne : pData0 ≠ []) (mem : ℕ → UInt8) (a : ℕ)
    (hstands : Stands mem a z) (newKey : ℕ → UInt8) (mem' : ℕ → UInt8) (key data : MdbVal)
    (hsplit : splitIndexKey mem ⟨z.length, a⟩ = (mem', key, data)) :
    key.mvSize + data.mvSize = z.length ∧
      read (joinIndexKey newKey (key.bytes mem') (data.bytes mem')) 0 (key.mvSize + data.mvSize) =
        z := by
  obtain ⟨fields, last, rfl⟩ : ∃ fields last, pData0 = fields ++ [last] :=
    ⟨pData0.dropLast, pData0.getLast hne, (dropLast_append_getLast hne).symm⟩
  obtain ⟨short, types, content, rest, byte, rfl, hfits, hsize, hvarint, hbyte, hlength⟩ :=
    hmade.parts
  obtain ⟨after, hafter, hparts, -⟩ := splitIndexKey_parts hfits hsize hvarint hbyte hlength hstands
  rw [hsplit, Prod.mk.injEq, Prod.mk.injEq] at hafter
  obtain ⟨rfl, rfl, rfl⟩ := hafter
  obtain ⟨hkey, hitem⟩ := stands_append.mp hparts
  have hjoined : read (joinIndexKey newKey (putVarint32 short ++ (types ++ content))
      (byte :: rest)) 0 ((putVarint32 short ++ (types ++ content)).length + (byte :: rest).length) =
      _ := joinIndexKey_parts newKey byte hfits hsize hvarint.symm (Nat.zero_le _)
  rw [drop_zero] at hjoined
  refine ⟨?_, ?_⟩
  · have hboth := congrArg List.length hjoined
    rwa [read_length] at hboth
  · rwa [MdbVal.bytes, MdbVal.bytes, hkey, hitem]

/-- A blob of 58 bytes has the serial type 128, of two bytes: the item is the second one alone. -/
theorem joinIndexKey_split_blob : ∃ z : Bytes, MadeRecord 4 [.blob (List.replicate 58 7) 0] z ∧
      ∀ newKey, read (joinIndexKey newKey ((splitIndexKey (ofBytes z) ⟨z.length, 0⟩).2.1.bytes
            (splitIndexKey (ofBytes z) ⟨z.length, 0⟩).1)
          ((splitIndexKey (ofBytes z) ⟨z.length, 0⟩).2.2.bytes
            (splitIndexKey (ofBytes z) ⟨z.length, 0⟩).1)) 0 z.length = z := by
  have hmade : MadeRecord 4 [.blob (List.replicate 58 7) 0]
      ([3, 129, 0] ++ List.replicate 58 7) := by
    exact ⟨by decide, SQLITE_MAX_LENGTH, _, 0, le_refl _, rfl, by decide⟩
  refine ⟨_, hmade, fun newKey ↦ ?_⟩
  obtain ⟨hsize, hjoined⟩ := joinIndexKey_split 4 _ _ hmade (cons_ne_nil _ _) _ 0
    (stands_ofBytes _) newKey _ _ _ rfl
  rwa [hsize] at hjoined

/-- The key that a record is split into is a record of the fields before the last one and unpacks
to exactly them, and the data is the serial type of the last one, an integer, followed by its serial
form. There is room for as many fields in what is unpacked to as the index has columns, or more.

Assumes: the registers hold what registers can hold (`MadeRecord`). -/
theorem splitIndexKey_unpack (fileFormat : ℕ) (fields : List Value) (rowid : Int64) (z : Bytes)
    (hmade : MadeRecord fileFormat (fields ++ [.int rowid]) z) (mem : ℕ → UInt8) (a : ℕ)
    (hstands : Stands mem a z) (nField : ℕ) (hroom : fields.length ≤ nField) (mem' : ℕ → UInt8)
    (key data : MdbVal) (hsplit : splitIndexKey mem ⟨z.length, a⟩ = (mem', key, data)) :
    (sqlite3VdbeRecordUnpack mem' key.mvSize key.mvData nField).map (Mem.value mem') =
        fields.map Value.expand ∧
      data.bytes mem' = putVarint32 (sqlite3VdbeSerialType (.int rowid) fileFormat) ++
        sqlite3VdbeSerialPut (sqlite3VdbeSerialTypeLen
          (sqlite3VdbeSerialType (.int rowid) fileFormat)) (.int rowid) fileFormat := by
  have hlast := serialType_int_lt fileFormat rowid
  have hfields := hmade.keyFields hlast
  obtain ⟨after, hafter, hkey, hitem, -⟩ := hmade.split hlast hstands nField
  rw [hsplit, Prod.mk.injEq, Prod.mk.injEq] at hafter
  obtain ⟨rfl, rfl, rfl⟩ := hafter
  refine ⟨?_, ?_⟩
  · rw [indexKey] at hkey ⊢
    rw [recordUnpack_fields nField hfields.recordable hfields.header hkey (le_refl _),
      map_take, memsAt_value hfields.recordable (hfields.stands_data hkey),
      take_of_length_le (by rw [length_map]; exact hroom)]
  · rw [MdbVal.bytes, hitem]
    rfl

theorem splitIndexKey_unpack_pair :
    ∃ z : Bytes, MadeRecord 4 ([.text [0x61], .null] ++ [.int 300]) z ∧
      (sqlite3VdbeRecordUnpack (splitIndexKey (ofBytes z) ⟨z.length, 0⟩).1
          (splitIndexKey (ofBytes z) ⟨z.length, 0⟩).2.1.mvSize 0 3).map
          (Mem.value (splitIndexKey (ofBytes z) ⟨z.length, 0⟩).1) = [.text [0x61], .null] ∧
      (splitIndexKey (ofBytes z) ⟨z.length, 0⟩).2.2.bytes
        (splitIndexKey (ofBytes z) ⟨z.length, 0⟩).1 = [2, 1, 44] := by
  have hmade : MadeRecord 4 ([.text [0x61], .null] ++ [.int 300]) [4, 15, 0, 2, 0x61, 1, 44] :=
    ⟨by decide, SQLITE_MAX_LENGTH, _, 0, le_refl _, rfl, by decide⟩
  exact ⟨_, hmade, splitIndexKey_unpack 4 _ 300 _ hmade _ 0 (stands_ofBytes _) 3 (by decide) _ _ _
    rfl⟩

end

end LumoSQL
