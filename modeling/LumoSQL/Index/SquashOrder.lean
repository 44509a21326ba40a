import LumoSQL.Index.SquashedKey
import LumoSQL.Record.Collation

/-!
# Squashed fields and the order of an index

An index is searched with squashed fields, so what it finds depends on whether squashing keeps the
comparison of the columns. A long string is its first 64 bytes followed by `squashTail`, the hash of
the others, and a string of at most 72 bytes is both parts of itself.

With `BINARY` the order of two lists is kept if the first 64 bytes decide it, or one of the two
strings ends within them (`squash_keeps_order`). Equality is another matter with the other
collations: the hash is one of the bytes, so that texts that differ in case or in spaces behind byte
64 get tails that have nothing in common. `squash_keeps_equal_iff` says that equal lists are equal
after squashing exactly if the tails of their texts are equal under the collation of the column
(`KeepsEqual`).
-/

namespace LumoSQL

open Foundation List Option

/-- What follows the first 64 bytes of a string that has been squashed. -/
def squashTail (hash : MdbHash) (bytes : Bytes) : Bytes :=
  if 72 < bytes.length then hash.val (bytes.drop 64) else bytes.drop 64

/-- The values of the registers that `squashIndexKey` leaves when it is not given a key. -/
def squashedValues (hash : MdbHash) (fileFormat : ℕ) (mem : ℕ → UInt8) (pun : List Mem) :
    List Value :=
  let squashed := squashIndexKey hash mem pun fileFormat none
  squashed.2.1.map (Mem.value squashed.1)

section

variable {hash : MdbHash} {format : ℕ} {mem : ℕ → UInt8} {aMem : List Mem}

theorem squashBytes_parts (hash : MdbHash) (bytes : Bytes) :
    squashBytes hash bytes = bytes.take 64 ++ squashTail hash bytes := by
  rw [squashBytes, squashTail]
  split_ifs
  · rfl
  · rw [take_append_drop]

theorem squashTail_length (hash : MdbHash) {bytes : Bytes} (hlong : 72 < bytes.length) :
    (squashTail hash bytes).length = 8 := by
  rw [squashTail, if_pos hlong, hash.size]

/-- Registers whose strings do not meet end up with the squashed values. -/
theorem squashedValues_eq (hapart : aMem.Pairwise Mem.Apart) : squashedValues hash format mem aMem =
      (aMem.map (Mem.value mem)).map (Value.squash hash) := by
  have hvalues : (squashFields hash format mem aMem).2.map
      (Mem.value (squashFields hash format mem aMem).1) =
        aMem.map fun pMem ↦ (pMem.value mem).squash hash := squashFields_values hapart
  rw [List.map_map]
  simp only [squashedValues, squashIndexKey]
  split_ifs
  · exact hvalues
  · exact hvalues

theorem squashIndexKey_registers (hash : MdbHash) (mem : ℕ → UInt8) (aMem : List Mem)
    (format : ℕ) (key : Option MdbVal) :
    (squashIndexKey hash mem aMem format key).2.1 = aMem.map (Mem.squash format) := by
  simp only [squashIndexKey]
  split_ifs
  · cases key with
    | none | some key => exact squashFields_snd mem aMem
  · exact squashFields_snd mem aMem

/-- Registers that have been squashed are not squashed again. -/
theorem squashIndexKey_again (hash : MdbHash) (mem mem' : ℕ → UInt8) (aMem : List Mem)
    (format : ℕ) (first again : Option MdbVal) :
    squashIndexKey hash mem' (squashIndexKey hash mem aMem format first).2.1 format again =
      (mem', (squashIndexKey hash mem aMem format first).2.1, again) := by
  refine squashIndexKey_short (fun pMem hpMem hlong ↦ ?_) again
  rw [squashIndexKey_registers] at hpMem
  obtain ⟨before, _, rfl⟩ := mem_map.mp hpMem
  have hn := hlong.2
  rw [Mem.n_squash] at hn
  split_ifs at hn with hbefore
  · exact lt_irrefl 72 hn
  · rw [Mem.squash, if_neg hbefore] at hlong
    exact hbefore hlong

end

/-! ### The order under `BINARY` -/

/-- The first 64 bytes of two strings decide their order, or squashing leaves both. -/
def KeptDecides (x y : Bytes) : Prop :=
  (x.length ≤ 72 ∧ y.length ≤ 72) ∨ x.length ≤ 64 ∨ y.length ≤ 64 ∨ x.take 64 ≠ y.take 64

/-- The values are of different types or numbers, or their kept bytes decide their order. -/
def Decides : Value → Value → Prop
  | .text x, .text y => KeptDecides x y
  | .blob x _, .blob y _ => KeptDecides x y
  | _, _ => True

/-- The collating sequence of every column is `BINARY`, or there is none. -/
def KeyInfo.Binary (pKeyInfo : KeyInfo) : Prop :=
  ∀ i coll, pKeyInfo.aColl i = some coll → coll.xCmp = compareBytes

section

variable {hash : MdbHash} {x y : Bytes} {v w : Value} {coll : Option CollSeq}

/-- Starts of one length that differ decide the order. -/
theorem compareBytes_append {left right : Bytes} (hlength : left.length = right.length)
    (hne : left ≠ right) (a b : Bytes) :
    compareBytes (left ++ a) (right ++ b) = memcmp left right := by
  have hdiffers : memcmp left right ≠ 0 := fun hzero ↦ hne (by
    have hcompare : compareBytes left right = 0 := by
      rw [compareBytes, hzero, if_pos rfl, hlength, sub_self]
    exact compareBytes_eq_zero.mp hcompare)
  have happend : memcmp (left ++ a) (right ++ b) = memcmp left right := by
    rw [memcmp, lexCompare_append _ hlength]
    exact if_pos hdiffers
  rw [compareBytes, happend, if_neg hdiffers]

/-- A string is compared with the start of a longer one, and is the lesser one if it is equal. -/
theorem compareBytes_longer {start : Bytes} (hle : x.length ≤ start.length) {rest : Bytes}
    (hrest : rest ≠ []) : (compareBytes x (start ++ rest)).sign = if memcmp x start = 0 then -1 else
      (memcmp x start).sign := by
  have hpos := length_pos_iff.mpr hrest
  have happend : memcmp x (start ++ rest) = memcmp x start := lexCompare_longer _ hle rest
  simp only [compareBytes, happend]
  split_ifs
  · rw [length_append]
    exact Int.sign_eq_neg_one_of_neg (by omega)
  · rfl

theorem compareBytes_sign_comm (x y : Bytes) :
    (compareBytes x y).sign = -(compareBytes y x).sign := by
  have hleft := compareBytes_oriented x y
  have hright := compareBytes_oriented y x
  rcases lt_trichotomy (compareBytes x y) 0 with hlt | hzero | hgt
  · rw [Int.sign_eq_neg_one_of_neg hlt, Int.sign_eq_one_of_pos (hleft.mp hlt)]
  · rw [hzero, compareBytes_oriented.eq_zero_comm y x |>.mpr hzero]
    rfl
  · rw [Int.sign_eq_one_of_pos hgt, Int.sign_eq_neg_one_of_neg (hright.mpr hgt)]
    rfl

/-- A string of at most 64 bytes is on the same side of a string before and after squashing. -/
theorem compareBytes_squash_short (hash : MdbHash) (hx : x.length ≤ 64) (y : Bytes) :
    (compareBytes (squashBytes hash x) (squashBytes hash y)).sign = (compareBytes x y).sign := by
  rw [squashBytes_short hash (by omega)]
  by_cases hlong : 72 < y.length
  · have htake : (y.take 64).length = 64 := by
      rw [length_take]
      omega
    have hrest : y.drop 64 ≠ [] := ne_nil_of_length_pos (by rw [length_drop]; omega)
    have htail : squashTail hash y ≠ [] :=
      ne_nil_of_length_pos (by rw [squashTail_length hash hlong]; omega)
    rw [squashBytes_parts, compareBytes_longer (by omega) htail,
      ← compareBytes_longer (by omega) hrest, take_append_drop]
  · rw [squashBytes_short hash (by omega)]

/-- Squashing keeps the order of two strings if the kept bytes decide it. -/
theorem compareBytes_squash (hash : MdbHash) (hdecides : KeptDecides x y) :
    (compareBytes (squashBytes hash x) (squashBytes hash y)).sign = (compareBytes x y).sign := by
  by_cases hx : x.length ≤ 64
  · exact compareBytes_squash_short hash hx y
  by_cases hy : y.length ≤ 64
  · rw [compareBytes_sign_comm, compareBytes_squash_short hash hy, ← compareBytes_sign_comm]
  rcases hdecides with hshort | hshort | hshort | hdiffer
  · rw [squashBytes_short hash hshort.1, squashBytes_short hash hshort.2]
  · exact absurd hshort hx
  · exact absurd hshort hy
  · have hlength : (x.take 64).length = (y.take 64).length := by
      rw [length_take, length_take]
      omega
    have hwhole := compareBytes_append hlength hdiffer (x.drop 64) (y.drop 64)
    rw [take_append_drop, take_append_drop] at hwhole
    rw [squashBytes_parts, squashBytes_parts, compareBytes_append hlength hdiffer, hwhole]

theorem Value.rank_squash (hash : MdbHash) (v : Value) : (v.squash hash).rank = v.rank := by
  cases v <;> rfl

/-- Squashing makes no difference between values that have none. -/
theorem memCompare_squash_zero (hash : MdbHash)
    (hbinary : ∀ c, coll = some c → c.xCmp = compareBytes)
    (hzero : sqlite3MemCompare v w coll = 0) :
    sqlite3MemCompare (v.squash hash) (w.squash hash) coll = 0 := by
  have htext : compareText coll = compareBytes := by
    cases coll with
    | none => rfl
    | some c => exact hbinary c rfl
  have hrank : v.rank = w.rank := by
    by_contra hne
    rw [memCompare_rank hne, compareNumbers_eq_zero] at hzero
    exact hne hzero
  match v, w, hrank with
  | .null, .null, _ => rfl
  | .int i1, .int i2, _ => exact hzero
  | .int i1, .real r2, _ => exact hzero
  | .real r1, .int i2, _ => exact hzero
  | .real r1, .real r2, _ => exact hzero
  | .text z1, .text z2, _ =>
    have hsame : z1 = z2 := by
      replace hzero : compareText coll z1 z2 = 0 := hzero
      rwa [htext, compareBytes_eq_zero] at hzero
    show compareText coll (squashBytes hash z1) (squashBytes hash z2) = 0
    rw [htext, compareBytes_eq_zero, hsame]
  | .blob z1 n1, .blob z2 n2, _ =>
    have hsame : z1 = z2 := compareBytes_eq_zero.mp hzero
    show compareBytes (squashBytes hash z1) (squashBytes hash z2) = 0
    rw [compareBytes_eq_zero, hsame]

/-- Squashing keeps the order of two values if their kept bytes decide it. -/
theorem memCompare_squash_sign (hash : MdbHash)
    (hbinary : ∀ c, coll = some c → c.xCmp = compareBytes) (hdecides : Decides v w) :
    (sqlite3MemCompare (v.squash hash) (w.squash hash) coll).sign =
      (sqlite3MemCompare v w coll).sign := by
  have htext : compareText coll = compareBytes := by
    cases coll with
    | none => rfl
    | some c => exact hbinary c rfl
  by_cases hrank : v.rank = w.rank
  · match v, w, hrank with
    | .null, .null, _ => rfl
    | .int i1, .int i2, _ => rfl
    | .int i1, .real r2, _ => rfl
    | .real r1, .int i2, _ => rfl
    | .real r1, .real r2, _ => rfl
    | .text z1, .text z2, _ =>
      show (compareText coll (squashBytes hash z1) (squashBytes hash z2)).sign =
        (compareText coll z1 z2).sign
      rw [htext]
      exact compareBytes_squash hash hdecides
    | .blob z1 n1, .blob z2 n2, _ => exact compareBytes_squash hash hdecides
  · rw [memCompare_rank hrank, memCompare_rank (by rwa [v.rank_squash, w.rank_squash]),
      v.rank_squash, w.rank_squash]

/-- Squashing keeps the order of two lists if the kept bytes decide it at the first field where they
differ, and squashing again changes nothing. The columns may be in descending order; the registers
of a list have strings that do not meet.

Assumes: the collating sequences are `BINARY`. -/
theorem squash_keeps_order (hash : MdbHash) (pKeyInfo : KeyInfo) (hbinary : pKeyInfo.Binary)
    (fileFormat : ℕ) (mem mem' : ℕ → UInt8) (a b : List Mem) (ha : a.Pairwise Mem.Apart)
    (hb : b.Pairwise Mem.Apart)
    (hdecides : DiffersAt pKeyInfo.compareField Decides 0 (a.map (Mem.value mem))
      (b.map (Mem.value mem'))) :
    (lexCompare pKeyInfo.compareField 0 (squashedValues hash fileFormat mem a)
        (squashedValues hash fileFormat mem' b)).sign =
      (lexCompare pKeyInfo.compareField 0 (a.map (Mem.value mem)) (b.map (Mem.value mem'))).sign ∧
    ∀ first again, squashIndexKey hash (squashIndexKey hash mem a fileFormat first).1
        (squashIndexKey hash mem a fileFormat first).2.1 fileFormat again =
      ((squashIndexKey hash mem a fileFormat first).1,
        (squashIndexKey hash mem a fileFormat first).2.1, again) := by
  refine ⟨?_, fun first again ↦ squashIndexKey_again hash mem _ a fileFormat first again⟩
  rw [squashedValues_eq ha, squashedValues_eq hb]
  refine lexCompare_map_sign (fun i v w hzero ↦ ?_) (fun i v w hkept ↦ ?_) hdecides
  · rw [compareField_eq_zero] at hzero ⊢
    exact memCompare_squash_zero hash (hbinary i) hzero
  · have hsign := memCompare_squash_sign hash (hbinary i) hkept
    simp only [KeyInfo.compareField]
    split_ifs
    · rw [Int.sign_neg, Int.sign_neg, hsign]
    · exact hsign

/-- A long text of `a` and a long text of `b` behind equal numbers, the texts in descending order.
-/
theorem squash_keeps_order_texts :
    (lexCompare (KeyInfo.compareField ⟨[(none, false), (none, true)]⟩) 0
        (squashedValues .fnv 4 (fun _ ↦ 97) [.int 5, .str 0 80])
        (squashedValues .fnv 4 (fun _ ↦ 98) [.int 5, .str 0 90])).sign = 1 := by
  have hbinary : KeyInfo.Binary ⟨[(none, false), (none, true)]⟩ := by
    intro i coll hcoll
    match i with
    | 0 => cases hcoll
    | 1 => cases hcoll
    | i + 2 => cases hcoll
  have hapart : ∀ n, [Mem.int 5, .str 0 n].Pairwise Mem.Apart := fun n ↦
    pairwise_pair.mpr (.inl (le_refl 0))
  have hdecides : DiffersAt (KeyInfo.compareField ⟨[(none, false), (none, true)]⟩) Decides 0
      ([Mem.int 5, .str 0 80].map (Mem.value fun _ ↦ 97))
      ([Mem.int 5, .str 0 90].map (Mem.value fun _ ↦ 98)) :=
    ⟨fun hne ↦ absurd rfl hne, fun _ ↦ ⟨fun _ ↦ .inr (.inr (.inr (by decide +kernel))),
      fun _ ↦ trivial⟩⟩
  rw [(squash_keeps_order .fnv ⟨[(none, false), (none, true)]⟩ hbinary 4 _ _ _ _ (hapart 80)
    (hapart 90) hdecides).1]
  decide +kernel

end

/-! ### Equality under the other collations -/

/-- Two values that are equal under a collation stay equal: for texts under `NOCASE` and `RTRIM`,
what follows the first 64 bytes is equal under the collation, or for `NOCASE` a zero in these ends
the comparison. -/
def KeepsEqual (hash : MdbHash) (coll : Builtin) : Value → Value → Prop
  | .text x, .text y =>
    match coll with
    | .binary => True
    | .nocase => 0 ∈ x.take 64 ∨ nocaseCollatingFunc (squashTail hash x) (squashTail hash y) = 0
    | .rtrim => binCollFunc true (squashTail hash x) (squashTail hash y) = 0
  | _, _ => True

/-- The lists are equal field by field, under the collation of each column and `BINARY` behind the
columns. -/
def EqualUnder (colls : List Builtin) (a b : List Value) : Prop :=
  ∀ i v w, a[i]? = some v → b[i]? = some w → (colls.getD i .binary).memCompare v w = 0

section

variable {hash : MdbHash} {x y : Bytes} {v w : Value}

/-- Texts that are equal under `NOCASE` stay equal if their tails are, or a zero comes first. -/
theorem nocase_squash_iff (hash : MdbHash) (hequal : nocaseCollatingFunc x y = 0) :
    nocaseCollatingFunc (squashBytes hash x) (squashBytes hash y) = 0 ↔
      0 ∈ x.take 64 ∨ nocaseCollatingFunc (squashTail hash x) (squashTail hash y) = 0 := by
  obtain ⟨hzero, hlength⟩ := nocase_eq_zero.mp hequal
  have htake : (x.take 64).length = (y.take 64).length := by
    rw [length_take, length_take, hlength]
  have htail : (squashTail hash x).length = (squashTail hash y).length := by
    rw [squashTail, squashTail, hlength]
    split_ifs
    · rw [hash.size, hash.size]
    · rw [length_drop, length_drop, hlength]
  have hstart : strnicmp (x.take 64) (y.take 64) = 0 := by
    rw [← take_append_drop 64 x, ← take_append_drop 64 y, strnicmp_append htake] at hzero
    exact hzero.1
  have hboth : (squashBytes hash x).length = (squashBytes hash y).length := by
    rw [squashBytes_length, squashBytes_length, hlength]
  rw [nocase_eq_zero, nocase_eq_zero, and_iff_left hboth, and_iff_left htail, squashBytes_parts,
    squashBytes_parts, strnicmp_append htake, and_iff_right hstart]

/-- Texts that are equal under `RTRIM` stay equal if their tails are. -/
theorem rtrim_squash_append (hash : MdbHash) {spaces : Bytes} (hspaces : allSpaces spaces = true) :
    binCollFunc true (squashBytes hash x) (squashBytes hash (x ++ spaces)) = 0 ↔
      binCollFunc true (squashTail hash x) (squashTail hash (x ++ spaces)) = 0 := by
  rw [squashBytes_parts, squashBytes_parts]
  by_cases hlong : 64 ≤ x.length
  · rw [take_append_of_le_length hlong, rtrim_append]
  · -- the first text ends within the bytes that are kept
    have htail : squashTail hash x = [] := by
      rw [squashTail, if_neg (by omega), drop_eq_nil_of_le (by omega)]
    have htake : (x ++ spaces).take 64 = x ++ spaces.take (64 - x.length) := by
      rw [take_append, take_of_length_le (by omega)]
    have hkept : allSpaces (spaces.take (64 - x.length)) = true := by
      rw [← take_append_drop (64 - x.length) spaces, allSpaces_append] at hspaces
      exact hspaces.1
    rw [htail, take_of_length_le (by omega), htake, append_assoc, rtrim_append,
      rtrim_nil, rtrim_nil, allSpaces_append, and_iff_right hkept]

theorem rtrim_squash_iff (hash : MdbHash) (hequal : binCollFunc true x y = 0) :
    binCollFunc true (squashBytes hash x) (squashBytes hash y) = 0 ↔
      binCollFunc true (squashTail hash x) (squashTail hash y) = 0 := by
  obtain ⟨spaces, hspaces, rfl | rfl⟩ := rtrim_eq_zero.mp hequal
  · exact rtrim_squash_append hash hspaces
  · rw [rtrim_symm, rtrim_symm (a := squashTail hash (y ++ spaces))]
    exact rtrim_squash_append hash hspaces

theorem Value.eq_text_of_squash (htext : v.squash hash = .text x) : ∃ z, v = .text z := by
  cases v with
  | text z => exact ⟨z, rfl⟩
  | _ => cases htext

/-- Values that are equal stay equal exactly if `KeepsEqual` holds of them. -/
theorem memCompare_squash_iff (hash : MdbHash) (coll : Builtin) (hequal : coll.memCompare v w = 0) :
    coll.memCompare (v.squash hash) (w.squash hash) = 0 ↔ KeepsEqual hash coll v w := by
  by_cases htexts : ∃ x y, v = .text x ∧ w = .text y
  · obtain ⟨x, y, rfl, rfl⟩ := htexts
    cases coll with
    | binary =>
      have hsame : x = y := by
        replace hequal : binCollFunc false x y = 0 := hequal
        rwa [binCollFunc_false, compareBytes_eq_zero] at hequal
      refine iff_of_true ?_ trivial
      show binCollFunc false (squashBytes hash x) (squashBytes hash y) = 0
      rw [binCollFunc_false, compareBytes_eq_zero, hsame]
    | nocase => exact nocase_squash_iff hash hequal
    | rtrim => exact rtrim_squash_iff hash hequal
  · have hother : ∀ {v w : Value}, (¬ ∃ x y, v = .text x ∧ w = .text y) →
        coll.memCompare v w = sqlite3MemCompare v w none := by
      intro v w hnot
      unfold Builtin.memCompare
      split
      · rename_i x y
        exact absurd ⟨x, y, rfl, rfl⟩ hnot
      · rfl
    have hsquashed : ¬ ∃ x y, v.squash hash = .text x ∧ w.squash hash = .text y := by
      rintro ⟨x, y, hx, hy⟩
      obtain ⟨z, rfl⟩ := Value.eq_text_of_squash hx
      obtain ⟨z', rfl⟩ := Value.eq_text_of_squash hy
      exact htexts ⟨z, z', rfl, rfl⟩
    have hkeeps : KeepsEqual hash coll v w := by
      unfold KeepsEqual
      split
      · rename_i x y
        exact absurd ⟨x, y, rfl, rfl⟩ htexts
      · trivial
    rw [hother htexts] at hequal
    rw [hother hsquashed]
    exact iff_of_true (memCompare_squash_zero hash (by rintro _ ⟨⟩) hequal) hkeeps

/-- Two lists of fields that are equal under the collations of the columns are left equal by
`squashIndexKey` exactly if at every field what follows the first 64 bytes of the texts is equal
(`KeepsEqual`). The registers of a list have strings that do not meet. -/
theorem squash_keeps_equal_iff (hash : MdbHash) (colls : List Builtin) (fileFormat : ℕ)
    (mem mem' : ℕ → UInt8) (a b : List Mem) (ha : a.Pairwise Mem.Apart) (hb : b.Pairwise Mem.Apart)
    (hequal : EqualUnder colls (a.map (Mem.value mem)) (b.map (Mem.value mem'))) :
    EqualUnder colls (squashedValues hash fileFormat mem a)
        (squashedValues hash fileFormat mem' b) ↔
      ∀ i v w, (a.map (Mem.value mem))[i]? = some v → (b.map (Mem.value mem'))[i]? = some w →
        KeepsEqual hash (colls.getD i .binary) v w := by
  rw [squashedValues_eq ha, squashedValues_eq hb]
  constructor
  · intro hsquashed i v w hv hw
    refine (memCompare_squash_iff hash _ (hequal i v w hv hw)).mp ?_
    refine hsquashed i _ _ ?_ ?_
    · rw [getElem?_map, hv, map_some]
    · rw [getElem?_map, hw, map_some]
  · intro hkeeps i v' w' hv' hw'
    rw [getElem?_map, map_eq_some_iff] at hv' hw'
    obtain ⟨v, hv, rfl⟩ := hv'
    obtain ⟨w, hw, rfl⟩ := hw'
    exact (memCompare_squash_iff hash _ (hequal i v w hv hw)).mpr (hkeeps i v w hv hw)

/-- A text of 80 bytes and the same text with another case within the first 64 bytes. -/
theorem squash_keeps_equal_start : EqualUnder [.nocase]
      (squashedValues .fnv 4 (ofBytes (List.replicate 80 97)) [.str 0 80])
      (squashedValues .fnv 4 (ofBytes (65 :: List.replicate 79 97)) [.str 0 80]) := by
  have hequal : EqualUnder [.nocase] ([.str 0 80].map (Mem.value (ofBytes (List.replicate 80 97))))
      ([.str 0 80].map (Mem.value (ofBytes (65 :: List.replicate 79 97)))) := by
    intro i v w hv hw
    match i with
    | 0 =>
      cases hv
      cases hw
      decide +kernel
    | i + 1 => cases hv
  refine (squash_keeps_equal_iff .fnv [.nocase] 4 _ _ _ _ (pairwise_singleton _ _)
    (pairwise_singleton _ _) hequal).mpr fun i v w hv hw ↦ ?_
  match i with
  | 0 =>
    cases hv
    cases hw
    exact .inr (by decide +kernel)
  | i + 1 => cases hv

/-- A text of 73 bytes and the same text in upper case are equal under `NOCASE`, but not after
squashing: in the index with the row of one of them a search for the other finds nothing equal. -/
theorem squash_separates_equal :
    EqualUnder [.nocase] [(Mem.str 0 73).value fun _ ↦ 65] [(Mem.str 0 73).value fun _ ↦ 97] ∧
    ¬ EqualUnder [.nocase] (squashedValues .fnv 4 (fun _ ↦ 65) [.str 0 73])
      (squashedValues .fnv 4 (fun _ ↦ 97) [.str 0 73]) ∧
    MadeRecord 4 ([.text (List.replicate 73 65)] ++ [.int 300])
      ([4, 129, 31, 2] ++ List.replicate 73 65 ++ [1, 44]) ∧
    (sqlite3BtreeMovetoUnpacked .fnv ⟨[(some .nocase, false)]⟩ 4 false (fun _ ↦ 0)
        (sqlite3BtreeInsert .fnv ⟨[(some .nocase, false)]⟩ 4 true .success (.dupSort [])
          (ofBytes ([4, 129, 31, 2] ++ List.replicate 73 65 ++ [1, 44])) (some 0) 79 []).2.1
        (fun _ ↦ 97) (some ⟨[.str 0 73], false, true, false, 0⟩) 0).map Moved.res ≠ some 0 := by
  refine ⟨fun i v w hv hw ↦ ?_, fun hequal ↦ ?_, ?_, ?_⟩
  · match i with
    | 0 =>
      cases hv
      cases hw
      decide +kernel
    | i + 1 => cases hv
  · exact absurd (hequal 0 _ _ rfl rfl) (by decide +kernel)
  · exact ⟨by decide, SQLITE_MAX_LENGTH, _, 0, Nat.le_refl _, rfl, by decide⟩
  · decide +kernel

end

end LumoSQL
