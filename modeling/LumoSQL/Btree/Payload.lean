import LumoSQL.Index.KeySize

/-!
# Part of a payload

`sqlite3BtreeData`, `sqlite3BtreeKey` and `sqlite3BtreePutData` check a range of bytes with the sum
of two words of 32 bits, which wraps, and compare it with the size of the payload. For which ranges
that is right is in `range_exact_iff`.

`sqlite3BtreePutData` writes in place, but a payload on an overflow page that is not dirty is
copied, written in the copy and put back. The size of the copy is never set, and the entry gets as
many bytes as that word of the stack says (`put_data_iff`).
-/

namespace LumoSQL.Payload

open Foundation List Function

/-- What a call does with a payload: bytes are copied out of it, or written in it, or written in a
copy that is put back with the size `mvSize`. -/
inductive Touch
  | reads (offset amt : ℕ)
  | writes (offset : ℕ) (z : Bytes)
  | puts (offset : ℕ) (z : Bytes) (mvSize : ℕ)

namespace Touch

/-- The first of the bytes that are copied from or to the caller, and how many they are. -/
def range : Touch → ℕ × ℕ
  | reads offset amt => (offset, amt)
  | writes offset z => (offset, z.length)
  | puts offset z _ => (offset, z.length)

/-- The payload after the call; `heap` is the memory from the copy on. -/
def payload (heap : ℕ → UInt8) (data : Bytes) : Touch → Bytes
  | reads _ _ => data
  | writes offset z => read (write (ofBytes data) offset z) 0 data.length
  | puts offset z mvSize => read (write (write heap 0 data) offset z) 0 mvSize

end Touch

def sqlite3BtreeData (data : Bytes) (offset amt : UInt32) : Rc × Option Touch :=
  if (offset + amt).toNat ≤ data.length then (.ok, some (.reads offset.toNat amt.toNat))
  else (.corrupt, none)

/-- `sqlite3BtreeKey` of a cursor that has been positioned or not. -/
def sqlite3BtreeKey (initialised : Bool) (key : Bytes) (offset amt : UInt32) : Rc × Option Touch :=
  if initialised then
    if (offset + amt).toNat ≤ key.length then (.ok, some (.reads offset.toNat amt.toNat))
    else (.corrupt, none)
  else (.error, none)

/-- Where a payload is stored. -/
inductive Storage
  | inline
  | cleanOverflow
  | dirtyOverflow
  deriving DecidableEq

/-- What `sqlite3BtreePutData` meets: the flag of the cursor, what LMDB reports, where the payload
is, whether memory is allocated, and what the stack has at `ndata.mv_size`. -/
structure PutSite where
  initialised : Bool
  touched : MdbRc
  storage : Storage
  allocated : Bool
  mvSize : ℕ
  put : MdbRc

/-- `sqlite3BtreePutData`, `z` being the `amt` bytes at the caller's pointer. -/
def sqlite3BtreePutData (site : PutSite) (data : Bytes) (offset amt : UInt32) (z : Bytes) :
    Rc × Option Touch :=
  if !site.initialised then (.abort, none)
  else if site.touched ≠ .success then (errmap site.touched, none)
  else if data.length < (offset + amt).toNat then (.corrupt, none)
  else if site.storage = .cleanOverflow then
    if !site.allocated then (.nomem, none)
    else if site.put ≠ .success then (errmap site.put, none)
    else (.ok, some (.puts offset.toNat z site.mvSize))
  else (.ok, some (.writes offset.toNat z))

/-! ### The check of the range -/

/-- The call is refused and touches nothing if the range ends behind the payload, and touches the
range otherwise. -/
def RangeExact (size : ℕ) (offset amt : UInt32) (result : Rc × Option Touch) : Prop :=
  if offset.toNat + amt.toNat ≤ size then
    result.1 = .ok ∧ result.2.map Touch.range = some (offset.toNat, amt.toNat)
  else result = (.corrupt, none)

/-- The sum has 32 bits, or what is left of it is more than the payload, or the payload has as many
bytes. -/
def SumFits (size : ℕ) (offset amt : UInt32) : Prop :=
  offset.toNat + amt.toNat < 2 ^ 32 ∨ size < (offset.toNat + amt.toNat) % 2 ^ 32 ∨
    offset.toNat + amt.toNat ≤ size

variable {offset amt : UInt32} {z data : Bytes} {site : PutSite}

theorem rangeExact_iff {size : ℕ} {touch : Touch}
    (hrange : touch.range = (offset.toNat, amt.toNat)) : RangeExact size offset amt
        (if (offset + amt).toNat ≤ size then (.ok, some touch) else (.corrupt, none)) ↔
      SumFits size offset amt := by
  have hsum : (offset + amt).toNat = (offset.toNat + amt.toNat) % 2 ^ 32 := UInt32.toNat_add ..
  unfold RangeExact SumFits
  rw [hsum]
  split_ifs with hfits hcheck hcheck
  · simp [hrange, hfits]
  · omega
  · simp only [Prod.mk.injEq, reduceCtorEq, false_and, false_iff]
    omega
  · simp only [true_iff]
    omega

/-- A positioned cursor on a working LMDB, with memory for the copy where one is made. -/
def PutSite.Ready (site : PutSite) : Prop :=
  site.initialised = true ∧ site.touched = .success ∧
    (site.storage = .cleanOverflow → site.allocated = true ∧ site.put = .success)

def PutSite.touch (site : PutSite) (offset : ℕ) (z : Bytes) : Touch :=
  if site.storage = .cleanOverflow then .puts offset z site.mvSize else .writes offset z

theorem putData_ready (hready : site.Ready) (data : Bytes) (offset amt : UInt32) (z : Bytes) :
    sqlite3BtreePutData site data offset amt z = if (offset + amt).toNat ≤ data.length then
      (.ok, some (site.touch offset.toNat z)) else (.corrupt, none) := by
  obtain ⟨hinitialised, htouched, hput⟩ := hready
  rw [sqlite3BtreePutData, hinitialised, htouched, PutSite.touch]
  by_cases hfits : (offset + amt).toNat ≤ data.length
  · rw [if_pos hfits, if_neg (by simp), if_neg (by simp), if_neg (by omega)]
    by_cases hclean : site.storage = .cleanOverflow
    · obtain ⟨hallocated, hsuccess⟩ := hput hclean
      rw [if_pos hclean, if_pos hclean, hallocated, hsuccess, if_neg (by simp), if_neg (by simp)]
    · rw [if_neg hclean, if_neg hclean]
  · rw [if_neg hfits, if_neg (by simp), if_neg (by simp), if_pos (by omega)]

theorem putData_not_ready (hready : ¬ site.Ready) (data : Bytes) (offset amt : UInt32) (z : Bytes) :
    ∃ rc, rc ≠ .ok ∧ sqlite3BtreePutData site data offset amt z = (rc, none) := by
  have herror : ∀ rc, rc ≠ .success → errmap rc ≠ .ok := fun rc ↦ mt (errmap_eq_ok_iff rc).mp
  unfold sqlite3BtreePutData
  split_ifs with hinitialised htouched hshort hclean hallocated hput
  · exact ⟨.abort, by decide, rfl⟩
  · exact ⟨_, herror _ htouched, rfl⟩
  · exact ⟨.corrupt, by decide, rfl⟩
  · exact ⟨.nomem, by decide, rfl⟩
  · exact ⟨_, herror _ hput, rfl⟩
  · exact absurd ⟨by simpa using hinitialised, by simpa using htouched,
      fun _ ↦ ⟨by simpa using hallocated, by simpa using hput⟩⟩ hready
  · exact absurd ⟨by simpa using hinitialised, by simpa using htouched,
      fun hstored ↦ absurd hstored hclean⟩ hready

/-- Assumes: a site that is ready. The three functions check a range exactly if its sum does not
wrap to one that they accept. -/
theorem range_exact_iff (data key : Bytes) (offset amt : UInt32) (site : PutSite) (z : Bytes)
    (hz : z.length = amt.toNat) (hready : site.Ready) :
    (RangeExact data.length offset amt (sqlite3BtreeData data offset amt) ∧
      RangeExact key.length offset amt (sqlite3BtreeKey true key offset amt) ∧
      RangeExact data.length offset amt (sqlite3BtreePutData site data offset amt z)) ↔
    SumFits data.length offset amt ∧ SumFits key.length offset amt := by
  have hdata : RangeExact data.length offset amt (sqlite3BtreeData data offset amt) ↔
      SumFits data.length offset amt := rangeExact_iff rfl
  have hkey : RangeExact key.length offset amt (sqlite3BtreeKey true key offset amt) ↔
      SumFits key.length offset amt := rangeExact_iff rfl
  have hrange : (site.touch offset.toNat z).range = (offset.toNat, amt.toNat) := by
    rw [← hz, PutSite.touch]
    split_ifs <;> rfl
  rw [hdata, hkey, putData_ready hready, rangeExact_iff hrange]
  exact ⟨fun hfits ↦ ⟨hfits.1, hfits.2.1⟩, fun hfits ↦ ⟨hfits.1, hfits.2, hfits.1⟩⟩

def inlineSite : PutSite := ⟨true, .success, .inline, true, 0, .success⟩

/-- Two bytes of three. -/
theorem range_exact_two : RangeExact 3 1 2 (sqlite3BtreeData [7, 8, 9] 1 2) ∧
    RangeExact 2 1 2 (sqlite3BtreeKey true [7, 8] 1 2) ∧
    RangeExact 3 1 2 (sqlite3BtreePutData inlineSite [7, 8, 9] 1 2 [5, 6]) :=
  (range_exact_iff [7, 8, 9] [7, 8] 1 2 inlineSite [5, 6] rfl ⟨rfl, rfl, fun _ ↦ ⟨rfl, rfl⟩⟩).mpr
    ⟨.inl (by decide), .inl (by decide)⟩

/-- Two bytes from the last 32-bit offset on are taken for bytes of a payload of three. -/
theorem range_wraps : sqlite3BtreeData [7, 8, 9] 0xffffffff 2 = (.ok, some (.reads 0xffffffff 2)) ∧
    sqlite3BtreeKey true [7, 8, 9] 0xffffffff 2 = (.ok, some (.reads 0xffffffff 2)) ∧
    sqlite3BtreePutData inlineSite [7, 8, 9] 0xffffffff 2 [5, 6] =
      (.ok, some (.writes 0xffffffff [5, 6])) ∧
    ¬ RangeExact 3 0xffffffff 2 (sqlite3BtreeData [7, 8, 9] 0xffffffff 2) := by
  refine ⟨rfl, rfl, rfl, ?_⟩
  rw [RangeExact, if_neg (by decide)]
  exact nofun

/-! ### Writing in place -/

section

variable {ι : Type*}

/-- A call that succeeds leaves a payload of the same size with the bytes `z` at the offset, and one
that fails leaves everything. -/
structure WrittenInPlace (entries entries' : ι → Bytes) (e : ι) (offset : ℕ) (z : Bytes)
    (rc : Rc) : Prop where
  length : rc = .ok → (entries' e).length = (entries e).length
  written : rc = .ok → ∀ i < z.length, (entries' e)[offset + i]? = z[i]?
  kept : rc = .ok → ∀ i, i < offset ∨ offset + z.length ≤ i → (entries' e)[i]? = (entries e)[i]?
  others : ∀ other ≠ e, entries' other = entries other
  failed : rc ≠ .ok → entries' = entries

theorem writtenInPlace_failed {entries : ι → Bytes} {e : ι} {n : ℕ} {rc : Rc} (hrc : rc ≠ .ok) :
    WrittenInPlace entries entries e n z rc :=
  ⟨fun hok ↦ absurd hok hrc, fun hok ↦ absurd hok hrc, fun hok ↦ absurd hok hrc, fun _ _ ↦ rfl,
    fun _ ↦ rfl⟩

variable [DecidableEq ι]

def payloads (heap : ℕ → UInt8) (entries : ι → Bytes) (e : ι) (touched : Option Touch) :
    ι → Bytes :=
  match touched with
  | none => entries
  | some touch => Function.update entries e (touch.payload heap (entries e))

theorem writtenInPlace_write {entries : ι → Bytes} {e : ι} {n : ℕ} {mem : ℕ → UInt8}
    (hstands : Stands mem 0 (entries e)) (hrange : n + z.length ≤ (entries e).length) :
    WrittenInPlace entries
      (Function.update entries e (read (write mem n z) 0 (entries e).length)) e n z .ok := by
  refine ⟨fun _ ↦ by simp, fun _ i hi ↦ ?_, fun _ i hi ↦ ?_,
    fun other hne ↦ update_of_ne hne _ _, fun hfails ↦ absurd rfl hfails⟩
  · rw [update_self, read_getElem? _ _ (by omega), Nat.zero_add, write_at _ _ hi,
      getElem?_eq_getElem hi]
  · rw [update_self]
    by_cases hin : i < (entries e).length
    · have hsame : (entries e)[i]? = some (mem (0 + i)) := by
        rw [← read_getElem? mem 0 hin, hstands]
      rw [read_getElem? _ _ hin, hsame, Nat.zero_add]
      rcases hi with hbefore | hbehind
      · rw [write_of_lt mem z hbefore]
      · rw [write_of_le mem hbehind]
    · rw [getElem?_eq_none (by rw [read_length]; omega), getElem?_eq_none (by omega)]

/-- Assumes: a range inside the payload. It is written in place exactly if the size of the copy,
where one is put back, is that of the payload. -/
theorem put_data_iff (heap : ℕ → UInt8) (entries : ι → Bytes) (e : ι) (site : PutSite)
    (offset amt : UInt32) (z : Bytes) (hz : z.length = amt.toNat)
    (hrange : offset.toNat + amt.toNat ≤ (entries e).length) : WrittenInPlace entries
        (payloads heap entries e (sqlite3BtreePutData site (entries e) offset amt z).2) e
        offset.toNat z (sqlite3BtreePutData site (entries e) offset amt z).1 ↔
      (site.Ready → site.storage = .cleanOverflow → site.mvSize = (entries e).length) := by
  by_cases hready : site.Ready
  swap
  · obtain ⟨rc, hrc, hresult⟩ := putData_not_ready hready (entries e) offset amt z
    rw [hresult]
    exact iff_of_true (writtenInPlace_failed hrc) fun hall ↦ absurd hall hready
  have hfits : (offset + amt).toNat ≤ (entries e).length := by
    rw [UInt32.toNat_add]
    omega
  rw [putData_ready hready, if_pos hfits, PutSite.touch]
  by_cases hclean : site.storage = .cleanOverflow
  · rw [if_pos hclean]
    refine ⟨fun hwritten _ _ ↦ ?_, fun hsize ↦ ?_⟩
    · simpa [payloads, Touch.payload] using hwritten.length rfl
    · simp only [payloads, Touch.payload, hsize hready hclean]
      exact writtenInPlace_write (stands_write heap 0 (entries e)) (by omega)
  · rw [if_neg hclean]
    exact iff_of_true (writtenInPlace_write (stands_ofBytes (entries e)) (by omega))
      fun _ hstored ↦ absurd hstored hclean

/-- Two bytes of an entry that is stored in its node. -/
theorem put_data_inline : WrittenInPlace (fun _ : Unit ↦ [7, 8, 9])
    (payloads (fun _ ↦ 0) (fun _ ↦ [7, 8, 9]) ()
      (sqlite3BtreePutData inlineSite [7, 8, 9] 1 2 [5, 6]).2) () 1 [5, 6]
    (sqlite3BtreePutData inlineSite [7, 8, 9] 1 2 [5, 6]).1 :=
  (put_data_iff (fun _ ↦ 0) (fun _ : Unit ↦ [7, 8, 9]) () inlineSite 1 2 [5, 6] rfl
    (by decide)).mpr nofun

/-- A cursor at a payload on a clean overflow page, the stack having 0 at `ndata.mv_size`. -/
def cleanSite : PutSite := ⟨true, .success, .cleanOverflow, true, 0, .success⟩

/-- The call succeeds and leaves the entry without data. -/
theorem put_data_lost :
    sqlite3BtreePutData cleanSite [7, 8, 9] 1 2 [5, 6] = (.ok, some (.puts 1 [5, 6] 0)) ∧
      payloads (fun _ ↦ 0) (fun _ : Unit ↦ [7, 8, 9]) () (some (.puts 1 [5, 6] 0)) () = [] ∧
      ¬ WrittenInPlace (fun _ : Unit ↦ [7, 8, 9])
        (payloads (fun _ ↦ 0) (fun _ ↦ [7, 8, 9]) () (some (.puts 1 [5, 6] 0))) () 1 [5, 6] .ok :=
  ⟨rfl, rfl, fun hwritten ↦ absurd (hwritten.length rfl) (by decide)⟩

end

end LumoSQL.Payload
