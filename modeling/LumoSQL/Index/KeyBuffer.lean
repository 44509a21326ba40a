import LumoSQL.Foundation.GuardedRun
import LumoSQL.Index.Access

/-!
# The key buffer of a cursor

`sqlite3BtreeKeyFetch` joins the key and the item of an index entry in a buffer of the cursor. Where
`index.mv_size` is too small for them, `joinIndexKey` frees the buffer and asks for twice the size;
if it gets no memory it returns before it sets `index.mv_size`, which then counts bytes that are
not there any more. The next key that is no longer than that is written through `NULL`.

`keyFetch_run_iff`: a run of calls keeps the buffer sound exactly if no allocation fails after one
has succeeded, and the keys are shorter than `2 ^ 31` bytes, so that twice their size does not wrap.
-/

namespace LumoSQL

open Foundation List Option

/-- The `index` of a cursor: `mv_size`, and the number of bytes allocated at `mv_data`, none where
that is `NULL`. -/
structure KeyBuffer where
  mvSize : ℕ
  mvData : Option ℕ

/-- A call of `sqlite3BtreeKeyFetch` at an entry of an index, as `splitIndexKey` leaves them: the
key has its header, and the item its serial type. There may be memory for it or not. -/
structure KeyFetchCall where
  key : Bytes
  data : Bytes
  header : (getVarint32 (ofBytes key) 0).1 ≤ key.length
  typed : 0 < data.length
  memory : Bool

def KeyFetchCall.size (call : KeyFetchCall) : ℕ := call.key.length + call.data.length

/-- The places of the buffer that `joinIndexKey` writes. -/
def KeyFetchCall.places (call : KeyFetchCall) : List ℕ :=
  let hdrSize := (getVarint32 (ofBytes call.key) 0).1
  List.range' 0 hdrSize ++ List.range' (hdrSize + 1) (call.key.length - hdrSize) ++
    List.range' (call.key.length + 1) (call.data.length - 1) ++ List.range' hdrSize 1 ++
    List.range' 0 (putVarint32 (hdrSize + 1)).length

/-- `sqlite3Malloc`: the number of bytes allocated. An `unsigned` from `2 ^ 31` on is a negative
`int`. -/
def sqlite3Malloc (memory : Bool) (n : ℕ) : Option ℕ :=
  if n = 0 ∨ 0x7fffff00 ≤ n ∨ memory = false then none else some n

namespace KeyBuffer

def allocated (b : KeyBuffer) : ℕ := b.mvData.getD 0

/-- `joinIndexKey`: the buffer, and the places of it that are written. -/
def joinIndexKey (b : KeyBuffer) (call : KeyFetchCall) : KeyBuffer × List ℕ :=
  let amount := u32 call.size
  if b.mvSize < amount then
    match sqlite3Malloc call.memory (u32 (amount * 2)) with
    | none => ({ b with mvData := none }, [])
    | some n => ({ mvSize := u32 (amount * 2), mvData := some n }, call.places)
  else (b, call.places)

/-- `sqlite3BtreeKeyFetch`: the buffer, and what is at the address that is returned. -/
def sqlite3BtreeKeyFetch (b : KeyBuffer) (call : KeyFetchCall) : KeyBuffer × Option ℕ :=
  ((b.joinIndexKey call).1, (b.joinIndexKey call).1.mvData)

def fetched (b : KeyBuffer) (call : KeyFetchCall) : KeyBuffer := (b.sqlite3BtreeKeyFetch call).1

def Fails (b : KeyBuffer) (call : KeyFetchCall) : Prop :=
  b.mvSize < u32 call.size ∧ sqlite3Malloc call.memory (u32 (u32 call.size * 2)) = none

/-- The call leaves no greater size than is allocated, writes only what is allocated, and returns
`NULL` exactly where its allocation has failed. -/
def Safe (b : KeyBuffer) (call : KeyFetchCall) : Prop :=
  (b.fetched call).mvSize ≤ (b.fetched call).allocated ∧
    (∀ place ∈ (b.joinIndexKey call).2, place < (b.fetched call).allocated) ∧
    ((b.sqlite3BtreeKeyFetch call).2 = none ↔ b.Fails call)

/-- The allocation of the call fails where the buffer has had no memory yet, or it does not fail and
twice the size of the key does not wrap. -/
def Guard (b : KeyBuffer) (call : KeyFetchCall) : Prop :=
  (b.Fails call ∧ b.mvSize = 0) ∨ (¬ b.Fails call ∧ call.size < 2 ^ 31)

/-- The size is allocated, and the allocation is one that `sqlite3Malloc` grants. -/
def Sound (b : KeyBuffer) : Prop := b.mvSize ≤ b.allocated ∧ b.allocated < 2 ^ 31

end KeyBuffer

section

variable (call : KeyFetchCall)

theorem write_of_notMem {α : Type} (mem : ℕ → α) {a n place : ℕ} {bytes : List α}
    (hn : bytes.length = n) (hplace : place ∉ List.range' a n) :
    write mem a bytes place = mem place := by
  rw [mem_range'_1] at hplace
  rcases lt_or_ge place a with hlt | hge
  · exact write_of_lt mem bytes hlt
  · exact write_of_le mem (by omega)

/-- Joining the entry in memory changes no other place. -/
theorem joinIndexKey_frame (newKey : ℕ → UInt8) {place : ℕ} (hplace : place ∉ call.places) :
    joinIndexKey newKey call.key call.data place = newKey place := by
  simp only [KeyFetchCall.places, mem_append, not_or] at hplace
  obtain ⟨⟨⟨⟨hhead, hkey⟩, hdata⟩, htype⟩, hsize⟩ := hplace
  unfold joinIndexKey
  rw [write_of_notMem _ rfl hsize, write_of_notMem _ rfl htype,
    write_of_notMem _ (read_length _ _ _) hdata, write_of_notMem _ (read_length _ _ _) hkey,
    write_of_notMem _ (read_length _ _ _) hhead]

/-- Assumes: a buffer that `sqlite3Malloc` grants, with room for the key if twice its size does not
wrap. -/
theorem places_within_iff {n : ℕ} (hn : n < 2 ^ 31) (hroom : call.size < 2 ^ 31 → call.size ≤ n) :
    (∀ place ∈ call.places, place < n) ↔ call.size < 2 ^ 31 := by
  have hheader := call.header
  have htyped := call.typed
  simp only [KeyFetchCall.places, KeyFetchCall.size, mem_append, mem_range'_1] at hroom ⊢
  generalize (getVarint32 (ofBytes call.key) 0).1 = hdrSize at hheader ⊢
  constructor
  · intro hwithin
    -- the last place of the key is written
    have hlast := hwithin (call.key.length + call.data.length - 1) (by omega)
    omega
  · intro hsize place hplace
    have hvarint : (putVarint32 (hdrSize + 1)).length ≤ hdrSize + 1 := by
      by_cases hone : hdrSize + 1 < 128
      · rw [putVarint32_one hone, length_singleton]
        omega
      · rw [putVarint32_length (by omega)]
        exact (varintLenLoop_le 9 _).trans (by omega)
    have hfits := hroom hsize
    omega

end

namespace KeyBuffer

variable {b left : KeyBuffer} {call : KeyFetchCall}

/-- Assumes: a call that does not fail leaves a sound buffer, with room for the key if twice its
size does not wrap. -/
theorem Sound.joined (hleft : left.Sound) (hjoined : b.joinIndexKey call = (left, call.places))
    (hfails : ¬ b.Fails call) (hroom : call.size < 2 ^ 31 → call.size ≤ left.mvSize) :
    (b.Safe call ↔ b.Guard call) ∧ (b.fetched call).allocated < 2 ^ 31 := by
  have hwithin := places_within_iff call hleft.2 fun hsize ↦ (hroom hsize).trans hleft.1
  have hpos : 0 < call.size := Nat.add_pos_right _ call.typed
  have hnull : call.size < 2 ^ 31 → left.mvData ≠ none := by
    intro hsize hnone
    have hle := (hroom hsize).trans hleft.1
    rw [allocated, hnone, getD_none] at hle
    omega
  have hsize := hleft.1
  simp only [Safe, Guard, fetched, sqlite3BtreeKeyFetch, hjoined, hwithin, hfails]
  exact ⟨by tauto, hleft.2⟩

/-- A call at a sound buffer is safe exactly if it meets the guard, and leaves no more than
`sqlite3Malloc` grants. -/
theorem Sound.fetch (hsound : b.Sound) (call : KeyFetchCall) :
    (b.Safe call ↔ b.Guard call) ∧ (b.fetched call).allocated < 2 ^ 31 := by
  by_cases hgrows : b.mvSize < u32 call.size
  · by_cases hfails : sqlite3Malloc call.memory (u32 (u32 call.size * 2)) = none
    · simp [Safe, Guard, fetched, sqlite3BtreeKeyFetch, joinIndexKey, hgrows, hfails, Fails,
        allocated]
    · obtain ⟨n, hn⟩ := ne_none_iff_exists'.mp hfails
      have hjoined : b.joinIndexKey call = (⟨u32 (u32 call.size * 2), some n⟩, call.places) := by
        simp [joinIndexKey, hgrows, hn]
      unfold sqlite3Malloc at hn
      split_ifs at hn with hgranted
      cases hn
      refine Sound.joined ⟨le_rfl, ?_⟩ hjoined (fun h ↦ hfails h.2) fun hsize ↦ ?_
      · show u32 (u32 call.size * 2) < 2 ^ 31
        omega
      · show call.size ≤ u32 (u32 call.size * 2)
        unfold u32
        omega
  · refine hsound.joined (by simp [joinIndexKey, hgrows]) (fun h ↦ hgrows h.1) fun hsize ↦ ?_
    unfold u32 at hgrows
    omega

/-- The calls on a cursor are safe exactly if none fails to allocate when the buffer has had memory,
and the keys are shorter than `2 ^ 31` bytes. -/
theorem keyFetch_run_iff (calls : List KeyFetchCall) :
    Meets fetched Safe ⟨0, none⟩ calls ↔ Meets fetched Guard ⟨0, none⟩ calls := by
  have hstart : Sound ⟨0, none⟩ := ⟨le_rfl, by decide⟩
  refine Meets.iff_of_invariant (fun b call (hsound : b.Sound) _ hguard ↦ ?_)
    (fun b call hsound _ ↦ (hsound.fetch call).1) hstart
    (meets_of_forall (fun _ _ ↦ trivial) _ _)
  have hfetch := hsound.fetch call
  exact ⟨(hfetch.1.mpr hguard).1, hfetch.2⟩

/-- A key of four bytes, one of ten for which there is no memory, and the first one again: the
buffer has a size but no memory, so that the key is written through `NULL`. -/
theorem keyFetch_through_null : ∃ short long : KeyFetchCall,
    short.memory = true ∧ ¬ Meets fetched Safe ⟨0, none⟩ [short, long, short] := by
  refine ⟨⟨[2, 1], [1, 7], by decide, by decide, true⟩,
    ⟨[2, 1, 0, 0, 0, 0, 0, 0], [1, 7], by decide, by decide, false⟩, rfl, fun hmeets ↦ ?_⟩
  exact absurd (hmeets.2.2.1.2.1 0 (by decide)) (by decide)

end KeyBuffer

end LumoSQL
