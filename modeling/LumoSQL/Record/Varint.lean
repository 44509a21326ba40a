import LumoSQL.Foundation.ByteMemory
import LumoSQL.Foundation.Limbs
import LumoSQL.Lmdb
import Mathlib.Data.Nat.Log

/-!
# Variable-length integers

The varints of `util.c`: big-endian groups of seven bits, the high bit set on every byte but the
last, except that a ninth byte carries eight bits. `sqlite3PutVarint`, `sqlite3PutVarint32` and the
macro `putVarint32` write them, `sqlite3GetVarint`, `sqlite3GetVarint32` and the macro `getVarint32`
read them from memory; the readers are the unrolled code of the source, with its `u32` arithmetic.

A varint is `groups n v`, the low `n` groups of `v` each with the high bit set, and a last byte.
`getVarint_eq` says what the unrolled reader makes of any bytes, `putVarint_groups` that the writer
writes such groups; together they give `varints_read_back`, that a value is read back from the bytes
written for it.
-/

namespace LumoSQL

open Foundation List

/-! ### The functions of util.c -/

/-- A value cut to a `u32`. -/
def u32 (v : ℕ) : ℕ := v % 2 ^ 32

/-- The loop `do { buf[n++] = (v & 0x7f) | 0x80; v >>= 7; } while( v!=0 )`, with room for `room`
bytes. -/
def putVarintBuf : ℕ → ℕ → List ℕ
  | 0, _ => []
  | room + 1, v =>
    ((v &&& 0x7f) ||| 0x80) :: if v >>> 7 = 0 then [] else putVarintBuf room (v >>> 7)

/-- The loop `for(i=7; i>=0; i--){ p[i] = (v & 0x7f) | 0x80; v >>= 7; }` for `n` bytes. -/
def groups : ℕ → ℕ → Bytes
  | 0, _ => []
  | n + 1, v => groups n (v >>> 7) ++ [UInt8.ofNat ((v &&& 0x7f) ||| 0x80)]

/-- `sqlite3PutVarint`: the bytes it writes. -/
def sqlite3PutVarint (v : ℕ) : Bytes :=
  if v &&& 0xff000000 <<< 32 ≠ 0 then groups 8 (v >>> 8) ++ [UInt8.ofNat v]
  else
    match putVarintBuf 10 v with
    | [] => []
    | first :: rest => (((first &&& 0x7f) :: rest).map UInt8.ofNat).reverse

def sqlite3PutVarint32 (v : ℕ) : Bytes :=
  if v < 0x4000 then [UInt8.ofNat ((v >>> 7) ||| 0x80), UInt8.ofNat (v &&& 0x7f)]
  else sqlite3PutVarint v

/-- The macro `putVarint32`. -/
def putVarint32 (v : ℕ) : Bytes := if v < 0x80 then [UInt8.ofNat v] else sqlite3PutVarint32 v

/-- The loop of `sqlite3VarintLen`, which ends after `room` rounds. -/
def varintLenLoop : ℕ → ℕ → ℕ
  | 0, _ => 0
  | room + 1, v => 1 + if v >>> 7 = 0 then 0 else varintLenLoop room (v >>> 7)

def sqlite3VarintLen (v : ℕ) : ℕ := varintLenLoop 9 v

/-- The mask `(0x7f<<14) | 0x7f`. -/
def SLOT_2_0 : ℕ := 0x001fc07f

/-- The mask `(0xf<<28) | (0x7f<<14) | 0x7f`. -/
def SLOT_4_2_0 : ℕ := 0xf01fc07f

/-- `sqlite3GetVarint` from its ninth byte on. -/
def getVarint9 (mem : ℕ → UInt8) (p a b s : ℕ) : ℕ × ℕ :=
  let a := u32 (a <<< 15) ||| (mem (p + 8)).toNat
  let a := a ||| u32 ((b &&& SLOT_2_0) <<< 8)
  let s := u32 (s <<< 4) ||| (((mem (p + 4)).toNat &&& 0x7f) >>> 3)
  (s <<< 32 ||| a, 9)

/-- `sqlite3GetVarint` from its eighth byte on. -/
def getVarint8 (mem : ℕ → UInt8) (p a b s : ℕ) : ℕ × ℕ :=
  let a := a &&& SLOT_2_0
  let b := u32 (b <<< 14) ||| (mem (p + 7)).toNat
  if b &&& 0x80 = 0 then ((s >>> 4) <<< 32 ||| (u32 (a <<< 7) ||| (b &&& SLOT_4_2_0)), 8)
  else getVarint9 mem p a b s

/-- `sqlite3GetVarint` from its seventh byte on. -/
def getVarint7 (mem : ℕ → UInt8) (p a b s : ℕ) : ℕ × ℕ :=
  let a := u32 (a <<< 14) ||| (mem (p + 6)).toNat
  if a &&& 0x80 = 0 then
    ((s >>> 11) <<< 32 ||| ((a &&& SLOT_4_2_0) ||| u32 ((b &&& SLOT_2_0) <<< 7)), 7)
  else getVarint8 mem p a b s

/-- `sqlite3GetVarint` from its sixth byte on. -/
def getVarint6 (mem : ℕ → UInt8) (p a b s : ℕ) : ℕ × ℕ :=
  let s := u32 (s <<< 7) ||| b
  let b := u32 (b <<< 14) ||| (mem (p + 5)).toNat
  if b &&& 0x80 = 0 then ((s >>> 18) <<< 32 ||| (u32 ((a &&& SLOT_2_0) <<< 7) ||| b), 6)
  else getVarint7 mem p a b s

/-- `sqlite3GetVarint` from its fifth byte on. -/
def getVarint5 (mem : ℕ → UInt8) (p a b : ℕ) : ℕ × ℕ :=
  let b := b &&& SLOT_2_0
  let s := a
  let a := u32 (a <<< 14) ||| (mem (p + 4)).toNat
  if a &&& 0x80 = 0 then ((s >>> 18) <<< 32 ||| (a ||| u32 (b <<< 7)), 5)
  else getVarint6 mem p a b s

/-- `sqlite3GetVarint` from its fourth byte on. -/
def getVarint4 (mem : ℕ → UInt8) (p a b : ℕ) : ℕ × ℕ :=
  let a := a &&& SLOT_2_0
  let b := u32 (b <<< 14) ||| (mem (p + 3)).toNat
  if b &&& 0x80 = 0 then (u32 (a <<< 7) ||| (b &&& SLOT_2_0), 4)
  else getVarint5 mem p a b

/-- `sqlite3GetVarint` from its third byte on. -/
def getVarint3 (mem : ℕ → UInt8) (p a b : ℕ) : ℕ × ℕ :=
  let a := u32 (a <<< 14) ||| (mem (p + 2)).toNat
  if a &&& 0x80 = 0 then ((a &&& SLOT_2_0) ||| u32 ((b &&& 0x7f) <<< 7), 3)
  else getVarint4 mem p a b

/-- `sqlite3GetVarint`: the value read and the number of bytes. -/
def sqlite3GetVarint (mem : ℕ → UInt8) (p : ℕ) : ℕ × ℕ :=
  let a := (mem p).toNat
  if a &&& 0x80 = 0 then (a, 1)
  else
    let b := (mem (p + 1)).toNat
    if b &&& 0x80 = 0 then (u32 ((a &&& 0x7f) <<< 7) ||| b, 2)
    else getVarint3 mem p a b

/-- `sqlite3GetVarint32`, which is called when the first byte has its high bit set. -/
def sqlite3GetVarint32 (mem : ℕ → UInt8) (p : ℕ) : ℕ × ℕ :=
  let a := (mem p).toNat
  let b := (mem (p + 1)).toNat
  if b &&& 0x80 = 0 then (u32 ((a &&& 0x7f) <<< 7) ||| b, 2)
  else
  let a := u32 (a <<< 14) ||| (mem (p + 2)).toNat
  if a &&& 0x80 = 0 then ((a &&& SLOT_2_0) ||| u32 ((b &&& 0x7f) <<< 7), 3)
  else
  let v64 := sqlite3GetVarint mem p
  (if v64.1 &&& 0xffffffff ≠ v64.1 then 0xffffffff else v64.1, v64.2)

/-- The macro `getVarint32`. -/
def getVarint32 (mem : ℕ → UInt8) (p : ℕ) : ℕ × ℕ :=
  if (mem p).toNat < 0x80 then ((mem p).toNat, 1) else sqlite3GetVarint32 mem p

/-! ### The words of the readers -/

section

theorem u32_shift (x k : ℕ) : u32 (x <<< k) = x * 2 ^ k % 2 ^ 32 := by
  rw [u32, Nat.shiftLeft_eq]

variable {c : ℕ} (w : ℕ) (x : ℕ)

theorem and_0x7f : x &&& 0x7f = x % 128 := and_mask x 7

/-- The test of the high bit of a byte at the bottom of a word. -/
theorem and_0x80_eq_zero (hc : c < 256) : (w * 2 ^ 14 + c) &&& 0x80 = 0 ↔ c < 128 := by
  have hbit : (w * 2 ^ 7 + c / 128) &&& 1 = c / 128 := by
    have hone : (w * 2 ^ 7 + c / 128) &&& 1 = (w * 2 ^ 7 + c / 128) % 2 := and_mask _ 1
    omega
  have hlimb := and_limb (k := 7) (w * 2 ^ 7 + c / 128) 1
    (Nat.mod_lt c (Nat.two_pow_pos 7)) (Nat.two_pow_pos 7)
  rw [hbit, Nat.and_zero] at hlimb
  have hcut : (w * 2 ^ 7 + c / 128) * 2 ^ 7 + c % 2 ^ 7 = w * 2 ^ 14 + c := by omega
  rw [hcut] at hlimb
  have hand : (w * 2 ^ 14 + c) &&& 0x80 = c / 128 * 2 ^ 7 := hlimb
  omega

theorem byte_and_0x80_eq_zero (hc : c < 256) : c &&& 0x80 = 0 ↔ c < 128 := by
  have hword := and_0x80_eq_zero 0 hc
  simpa using hword

/-- `SLOT_2_0` keeps two groups of seven bits, fourteen bits apart. -/
theorem and_slot_2_0 {y : ℕ} (hy : y < 2 ^ 14) :
    (x * 2 ^ 14 + y) &&& SLOT_2_0 = (x % 128) * 2 ^ 14 + y % 128 := by
  have hlimb := and_limb (k := 14) x (2 ^ 7 - 1) hy (show 2 ^ 7 - 1 < 2 ^ 14 by omega)
  rwa [and_mask, and_mask] at hlimb

/-- `SLOT_4_2_0` keeps four more bits. -/
theorem and_slot_4_2_0 {x y : ℕ} (hx : x < 2 ^ 14) (hy : y < 2 ^ 14) :
    ((w * 2 ^ 14 + x) * 2 ^ 14 + y) &&& SLOT_4_2_0 =
      (w % 16 * 2 ^ 14 + x % 128) * 2 ^ 14 + y % 128 := by
  have hhigh := and_limb (k := 14) w (2 ^ 4 - 1) hx (show 2 ^ 7 - 1 < 2 ^ 14 by omega)
  have hlimb := and_limb (k := 14) (w * 2 ^ 14 + x) ((2 ^ 4 - 1) * 2 ^ 14 + (2 ^ 7 - 1)) hy
    (show 2 ^ 7 - 1 < 2 ^ 14 by omega)
  rwa [hhigh, and_mask, and_mask, and_mask] at hlimb

theorem or_between {y z : ℕ} (hy : y < 128) (hz : z < 128) :
    (x * 2 ^ 14 + z) ||| (y * 2 ^ 7) = x * 2 ^ 14 + y * 2 ^ 7 + z := by
  have hlimb := or_limb (k := 7) (x * 2 ^ 7) y hz (show 0 < 2 ^ 7 by omega)
  rw [Nat.or_zero, or_low x hy] at hlimb
  have hleft : x * 2 ^ 7 * 2 ^ 7 + z = x * 2 ^ 14 + z := by omega
  rw [hleft, add_zero] at hlimb
  rw [hlimb]
  omega

/-- Two groups of seven bits between two others and what is at the bottom. -/
theorem or_limbs (j : ℕ) {x y z c : ℕ} (hx : x < 128) (hy : y < 128) (hz : z < 128)
    (hc : c < 2 ^ j) : ((w * 2 ^ 14 + y) * 2 ^ (7 + j) + c) ||| ((x * 2 ^ 14 + z) * 2 ^ j) =
      (w * 2 ^ 14 + x * 2 ^ 7 + y) * 2 ^ (7 + j) + z * 2 ^ j + c := by
  have hz' : z * 2 ^ j < 2 ^ (7 + j) := by
    rw [pow_add]
    exact Nat.mul_lt_mul_of_pos_right hz (Nat.two_pow_pos j)
  have hlimb := or_limb (w * 2 ^ 14 + y) (x * 2 ^ 7)
    (hc.trans_le (Nat.pow_le_pow_right (by omega) (Nat.le_add_left j 7))) hz'
  have hlow : c ||| z * 2 ^ j = z * 2 ^ j + c := by
    rw [Nat.or_comm]
    exact or_low z hc
  have hright : (x * 2 ^ 7) * 2 ^ (7 + j) + z * 2 ^ j = (x * 2 ^ 14 + z) * 2 ^ j := by
    rw [pow_add, ← mul_assoc, ← add_mul, mul_assoc x, ← pow_add]
  refine (congrArg _ hright.symm).trans (hlimb.trans ?_)
  simp only [or_between w hx hy, hlow]
  exact (add_assoc _ _ _).symm

theorem or_between_two {x y z c : ℕ} (hx : x < 128) (hy : y < 128) (hz : z < 128) (hc : c < 128) :
    ((w * 2 ^ 14 + y) * 2 ^ 14 + c) ||| ((x * 2 ^ 14 + z) * 2 ^ 7) =
      (w * 2 ^ 14 + x * 2 ^ 7 + y) * 2 ^ 14 + z * 2 ^ 7 + c := or_limbs w 7 hx hy hz hc

/-- A word shifted by two groups, with the next byte at the bottom. -/
theorem shift14_or (hc : c < 256) : u32 (x <<< 14) ||| c = x % 2 ^ 18 * 2 ^ 14 + c := by
  have hcut : u32 (x <<< 14) = x % 2 ^ 18 * 2 ^ 14 := by
    rw [u32_shift]
    omega
  rw [hcut]
  exact or_low _ (by omega)

theorem shift7 : u32 (x <<< 7) = x % 2 ^ 25 * 2 ^ 7 := by
  rw [u32_shift]
  omega

theorem high_or_low (s : ℕ) {a : ℕ} (ha : a < 2 ^ 32) : s <<< 32 ||| a = s * 2 ^ 32 + a := by
  rw [Nat.shiftLeft_eq]
  exact or_low s ha

end

/-! ### What the readers read -/

/-- The value of a varint and its length: at most `left` groups of seven bits, and then a byte of
eight bits. -/
def readGroups (mem : ℕ → UInt8) : ℕ → ℕ → ℕ → ℕ → ℕ × ℕ
  | 0, p, acc, n => (acc * 256 + (mem p).toNat, n + 1)
  | left + 1, p, acc, n =>
    if (mem p).toNat < 128 then (acc * 128 + (mem p).toNat, n + 1)
    else readGroups mem left (p + 1) (acc * 128 + ((mem p).toNat - 128)) (n + 1)

theorem readGroups_last {mem : ℕ → UInt8} {p : ℕ} (left acc n : ℕ) (hlast : (mem p).toNat < 128) :
    readGroups mem (left + 1) p acc n = (acc * 128 + (mem p).toNat, n + 1) := by
  rw [readGroups, if_pos hlast]

theorem readGroups_more {mem : ℕ → UInt8} {p y : ℕ} (left acc n : ℕ)
    (hmore : (mem p).toNat = 128 + y) : readGroups mem (left + 1) p acc n =
      readGroups mem left (p + 1) (acc * 128 + y) (n + 1) := by
  rw [readGroups, if_neg (by omega), hmore, Nat.add_sub_cancel_left]

section

variable {mem : ℕ → UInt8} {p y0 y1 y2 y3 y4 y5 y6 y7 : ℕ}

/-- The next byte ends the varint, or it is a group with the high bit set. -/
theorem byte_cases (mem : ℕ → UInt8) (p : ℕ) :
    (mem p).toNat < 128 ∨ ∃ y < 128, (mem p).toNat = 128 + y := by
  have hbyte := (mem p).toNat_lt
  by_cases hlast : (mem p).toNat < 128
  · exact .inl hlast
  · exact .inr ⟨(mem p).toNat - 128, by omega, by omega⟩

/-- A reader that ends at a byte without the high bit, or goes on with the group of the byte. -/
theorem byte_branch {w left acc n : ℕ} {last more : ℕ × ℕ}
    (hlast : (mem p).toNat < 128 → last = (acc * 128 + (mem p).toNat, n + 1))
    (hmore : ∀ y < 128, (mem p).toNat = 128 + y →
      more = readGroups mem left (p + 1) (acc * 128 + y) (n + 1)) :
    (if (w * 2 ^ 14 + (mem p).toNat) &&& 0x80 = 0 then last else more) =
      readGroups mem (left + 1) p acc n := by
  have hbit := and_0x80_eq_zero w (mem p).toNat_lt
  rcases byte_cases mem p with hbyte | ⟨y, hy, hbyte⟩
  · rw [if_pos (hbit.mpr hbyte), readGroups_last _ _ _ hbyte, hlast hbyte]
  · rw [if_neg (mt hbit.mp (by omega)), readGroups_more _ _ _ hbyte, hmore y hy hbyte]

theorem getVarint9_eq (hy4 : y4 < 128) (hy5 : y5 < 128) (hy6 : y6 < 128) (hy7 : y7 < 128) {s w : ℕ}
    (hs : s < 2 ^ 28) (h4 : (mem (p + 4)).toNat = 128 + y4) :
    getVarint9 mem p (y4 * 2 ^ 14 + y6) ((w * 2 ^ 14 + (128 + y5)) * 2 ^ 14 + (128 + y7)) s =
      readGroups mem 0 (p + 8) ((((s * 128 + y4) * 128 + y5) * 128 + y6) * 128 + y7) 8 := by
  have hbyte := (mem (p + 8)).toNat_lt
  have ha : u32 ((y4 * 2 ^ 14 + y6) <<< 15) ||| (mem (p + 8)).toNat =
      (y4 % 8 * 2 ^ 14 + y6) * 2 ^ 15 + (mem (p + 8)).toNat := by
    have hcut : u32 ((y4 * 2 ^ 14 + y6) <<< 15) = (y4 % 8 * 2 ^ 14 + y6) * 2 ^ 15 := by
      rw [u32_shift]
      omega
    rw [hcut]
    exact or_low _ (by omega)
  have hb : u32 ((((w * 2 ^ 14 + (128 + y5)) * 2 ^ 14 + (128 + y7)) &&& SLOT_2_0) <<< 8) =
      (y5 * 2 ^ 14 + y7) * 2 ^ 8 := by
    rw [and_slot_2_0 _ (by omega), u32_shift]
    omega
  have hword : u32 (s <<< 4) ||| (((128 + y4) &&& 0x7f) >>> 3) = s * 2 ^ 4 + y4 / 8 := by
    have hcut : u32 (s <<< 4) = s * 2 ^ 4 := by
      rw [u32_shift]
      omega
    have hlow : ((128 + y4) &&& 0x7f) >>> 3 = y4 / 8 := by
      rw [and_0x7f, Nat.shiftRight_eq_div_pow]
      omega
    rw [hcut, hlow]
    exact or_low s (by omega)
  simp only [getVarint9, h4, ha, hb, hword, or_limbs _ 8 hy5 hy6 hy7 hbyte, readGroups]
  rw [high_or_low _ (by omega)]
  refine congrArg₂ Prod.mk ?_ rfl
  omega

variable {c : ℕ} {s v w : ℕ}

theorem getVarint8_eq (hy3 : y3 < 128) (hy4 : y4 < 128) (hy5 : y5 < 128) (hy6 : y6 < 128)
    (hs : s < 2 ^ 21) (h4 : (mem (p + 4)).toNat = 128 + y4) :
    getVarint8 mem p ((w * 2 ^ 14 + (128 + y4)) * 2 ^ 14 + (128 + y6))
        ((v * 2 ^ 14 + y3) * 2 ^ 14 + (128 + y5)) (s * 128 + y3) =
      readGroups mem 1 (p + 7) ((((s * 128 + y3) * 128 + y4) * 128 + y5) * 128 + y6) 7 := by
  have hbyte := (mem (p + 7)).toNat_lt
  have ha : ((w * 2 ^ 14 + (128 + y4)) * 2 ^ 14 + (128 + y6)) &&& SLOT_2_0 = y4 * 2 ^ 14 + y6 := by
    rw [and_slot_2_0 _ (by omega)]
    omega
  have hb : u32 (((v * 2 ^ 14 + y3) * 2 ^ 14 + (128 + y5)) <<< 14) ||| (mem (p + 7)).toNat =
      (y3 % 16 * 2 ^ 14 + (128 + y5)) * 2 ^ 14 + (mem (p + 7)).toNat := by
    rw [shift14_or _ hbyte]
    omega
  simp only [getVarint8, ha, hb]
  refine byte_branch (fun hlast ↦ ?_) fun y7 hy7 h7 ↦ ?_
  · have hvalue : u32 ((y4 * 2 ^ 14 + y6) <<< 7) |||
        (((y3 % 16 * 2 ^ 14 + (128 + y5)) * 2 ^ 14 + (mem (p + 7)).toNat) &&& SLOT_4_2_0) =
        (y3 % 16 * 2 ^ 14 + y4 * 2 ^ 7 + y5) * 2 ^ 14 + y6 * 2 ^ 7 + (mem (p + 7)).toNat := by
      rw [and_slot_4_2_0 _ (by omega) (by omega), shift7, Nat.or_comm,
        ← or_between_two _ hy4 hy5 hy6 hlast]
      exact congrArg₂ HOr.hOr (by omega) (by omega)
    rw [hvalue, high_or_low _ (by omega), Nat.shiftRight_eq_div_pow]
    refine congrArg₂ Prod.mk ?_ rfl
    omega
  · rw [h7, getVarint9_eq hy4 hy5 hy6 hy7 (by omega) h4]

theorem getVarint7_eq (hy2 : y2 < 128) (hy3 : y3 < 128) (hy4 : y4 < 128) (hy5 : y5 < 128)
    (hs : s < 2 ^ 14) (h4 : (mem (p + 4)).toNat = 128 + y4) :
    getVarint7 mem p ((w * 2 ^ 14 + y2) * 2 ^ 14 + (128 + y4))
        ((v * 2 ^ 14 + y3) * 2 ^ 14 + (128 + y5)) ((s * 128 + y2) * 128 + y3) =
      readGroups mem 2 (p + 6) ((((s * 128 + y2) * 128 + y3) * 128 + y4) * 128 + y5) 6 := by
  have hbyte := (mem (p + 6)).toNat_lt
  have ha : u32 (((w * 2 ^ 14 + y2) * 2 ^ 14 + (128 + y4)) <<< 14) ||| (mem (p + 6)).toNat =
      (y2 % 16 * 2 ^ 14 + (128 + y4)) * 2 ^ 14 + (mem (p + 6)).toNat := by
    rw [shift14_or _ hbyte]
    omega
  simp only [getVarint7, ha]
  refine byte_branch (fun hlast ↦ ?_) fun y6 hy6 h6 ↦ ?_
  · have hvalue : (((y2 % 16 * 2 ^ 14 + (128 + y4)) * 2 ^ 14 + (mem (p + 6)).toNat) &&&
          SLOT_4_2_0) ||| u32 ((((v * 2 ^ 14 + y3) * 2 ^ 14 + (128 + y5)) &&& SLOT_2_0) <<< 7) =
        (y2 % 16 * 2 ^ 14 + y3 * 2 ^ 7 + y4) * 2 ^ 14 + y5 * 2 ^ 7 + (mem (p + 6)).toNat := by
      rw [and_slot_4_2_0 _ (by omega) (by omega), and_slot_2_0 _ (by omega), shift7,
        ← or_between_two _ hy3 hy4 hy5 hlast]
      exact congrArg₂ HOr.hOr (by omega) (by omega)
    rw [hvalue, high_or_low _ (by omega), Nat.shiftRight_eq_div_pow]
    refine congrArg₂ Prod.mk ?_ rfl
    omega
  · rw [h6, getVarint8_eq hy3 hy4 hy5 hy6 (by omega) h4]

theorem getVarint6_eq (hy0 : y0 < 128) (hy1 : y1 < 128) (hy2 : y2 < 128) (hy3 : y3 < 128)
    (hy4 : y4 < 128) (h4 : (mem (p + 4)).toNat = 128 + y4) :
    getVarint6 mem p ((y0 % 16 * 2 ^ 14 + y2) * 2 ^ 14 + (128 + y4)) (y1 * 2 ^ 14 + y3)
        (y0 * 2 ^ 14 + y2) =
      readGroups mem 3 (p + 5) ((((y0 * 128 + y1) * 128 + y2) * 128 + y3) * 128 + y4) 5 := by
  have hbyte := (mem (p + 5)).toNat_lt
  have hs : u32 ((y0 * 2 ^ 14 + y2) <<< 7) ||| (y1 * 2 ^ 14 + y3) =
      ((y0 * 128 + y1) * 128 + y2) * 128 + y3 := by
    have hgroups := or_between_two 0 hy0 hy1 hy2 hy3
    rw [shift7, Nat.or_comm]
    refine Eq.trans ?_ (hgroups.trans ?_)
    · exact congrArg₂ HOr.hOr (by omega) (by omega)
    · omega
  have hb : u32 ((y1 * 2 ^ 14 + y3) <<< 14) ||| (mem (p + 5)).toNat =
      (y1 % 16 * 2 ^ 14 + y3) * 2 ^ 14 + (mem (p + 5)).toNat := by
    rw [shift14_or _ hbyte]
    omega
  simp only [getVarint6, hs, hb]
  refine byte_branch (fun hlast ↦ ?_) fun y5 hy5 h5 ↦ ?_
  · have hvalue : u32 ((((y0 % 16 * 2 ^ 14 + y2) * 2 ^ 14 + (128 + y4)) &&& SLOT_2_0) <<< 7) |||
          ((y1 % 16 * 2 ^ 14 + y3) * 2 ^ 14 + (mem (p + 5)).toNat) =
        (y1 % 16 * 2 ^ 14 + y2 * 2 ^ 7 + y3) * 2 ^ 14 + y4 * 2 ^ 7 + (mem (p + 5)).toNat := by
      rw [and_slot_2_0 _ (by omega), shift7, Nat.or_comm, ← or_between_two _ hy2 hy3 hy4 hlast]
      exact congrArg₂ HOr.hOr rfl (by omega)
    rw [hvalue, high_or_low _ (by omega), Nat.shiftRight_eq_div_pow]
    refine congrArg₂ Prod.mk ?_ rfl
    omega
  · rw [h5, getVarint7_eq hy2 hy3 hy4 hy5 (by omega) h4]

theorem getVarint5_eq (hy0 : y0 < 128) (hy1 : y1 < 128) (hy2 : y2 < 128) (hy3 : y3 < 128) :
    getVarint5 mem p (y0 * 2 ^ 14 + y2) ((128 + y1) * 2 ^ 14 + (128 + y3)) =
      readGroups mem 4 (p + 4) (((y0 * 128 + y1) * 128 + y2) * 128 + y3) 4 := by
  have hbyte := (mem (p + 4)).toNat_lt
  have hb : ((128 + y1) * 2 ^ 14 + (128 + y3)) &&& SLOT_2_0 = y1 * 2 ^ 14 + y3 := by
    rw [and_slot_2_0 _ (by omega)]
    omega
  have ha : u32 ((y0 * 2 ^ 14 + y2) <<< 14) ||| (mem (p + 4)).toNat =
      (y0 % 16 * 2 ^ 14 + y2) * 2 ^ 14 + (mem (p + 4)).toNat := by
    rw [shift14_or _ hbyte]
    omega
  simp only [getVarint5, ha, hb]
  refine byte_branch (fun hlast ↦ ?_) fun y4 hy4 h4 ↦ ?_
  · have hvalue : ((y0 % 16 * 2 ^ 14 + y2) * 2 ^ 14 + (mem (p + 4)).toNat) |||
          u32 ((y1 * 2 ^ 14 + y3) <<< 7) =
        (y0 % 16 * 2 ^ 14 + y1 * 2 ^ 7 + y2) * 2 ^ 14 + y3 * 2 ^ 7 + (mem (p + 4)).toNat := by
      rw [shift7, ← or_between_two _ hy1 hy2 hy3 hlast]
      exact congrArg₂ HOr.hOr rfl (by omega)
    rw [hvalue, high_or_low _ (by omega), Nat.shiftRight_eq_div_pow]
    refine congrArg₂ Prod.mk ?_ rfl
    omega
  · rw [h4, getVarint6_eq hy0 hy1 hy2 hy3 hy4 h4]

theorem getVarint4_eq (hy0 : y0 < 128) (hy1 : y1 < 128) (hy2 : y2 < 128) :
    getVarint4 mem p ((128 + y0) * 2 ^ 14 + (128 + y2)) (128 + y1) =
      readGroups mem 5 (p + 3) ((y0 * 128 + y1) * 128 + y2) 3 := by
  have hbyte := (mem (p + 3)).toNat_lt
  have ha : ((128 + y0) * 2 ^ 14 + (128 + y2)) &&& SLOT_2_0 = y0 * 2 ^ 14 + y2 := by
    rw [and_slot_2_0 _ (by omega)]
    omega
  have hb : u32 ((128 + y1) <<< 14) ||| (mem (p + 3)).toNat =
      (128 + y1) * 2 ^ 14 + (mem (p + 3)).toNat := by
    rw [shift14_or _ hbyte]
    omega
  simp only [getVarint4, ha, hb]
  refine byte_branch (fun hlast ↦ ?_) fun y3 hy3 h3 ↦ ?_
  · have hvalue : u32 ((y0 * 2 ^ 14 + y2) <<< 7) |||
          (((128 + y1) * 2 ^ 14 + (mem (p + 3)).toNat) &&& SLOT_2_0) =
        (0 * 2 ^ 14 + y0 * 2 ^ 7 + y1) * 2 ^ 14 + y2 * 2 ^ 7 + (mem (p + 3)).toNat := by
      rw [and_slot_2_0 _ (by omega), shift7, Nat.or_comm, ← or_between_two 0 hy0 hy1 hy2 hlast]
      exact congrArg₂ HOr.hOr (by omega) (by omega)
    rw [hvalue]
    refine congrArg₂ Prod.mk ?_ rfl
    omega
  · rw [h3, getVarint5_eq hy0 hy1 hy2 hy3]

/-- Two bytes of a varint, as both readers take them. -/
theorem two_bytes (hy0 : y0 < 128) (hc : c < 128) :
    u32 (((128 + y0) &&& 0x7f) <<< 7) ||| c = y0 * 128 + c := by
  have hcut : u32 (((128 + y0) &&& 0x7f) <<< 7) = y0 * 2 ^ 7 := by
    rw [and_0x7f, shift7]
    omega
  rw [hcut]
  exact or_low y0 hc

/-- Three bytes of a varint, as both readers take them. -/
theorem three_bytes (hy0 : y0 < 128) (hy1 : y1 < 128) (hc : c < 128) :
    (((128 + y0) * 2 ^ 14 + c) &&& SLOT_2_0) ||| u32 (((128 + y1) &&& 0x7f) <<< 7) =
      (y0 * 128 + y1) * 128 + c := by
  have hcut : u32 (((128 + y1) &&& 0x7f) <<< 7) = y1 * 2 ^ 7 := by
    rw [and_0x7f, shift7]
    omega
  have hslot : ((128 + y0) * 2 ^ 14 + c) &&& SLOT_2_0 = y0 * 2 ^ 14 + c := by
    rw [and_slot_2_0 _ (by omega)]
    omega
  rw [hcut, hslot, or_between y0 hy1 hc]
  omega

theorem third_byte (hy0 : y0 < 128) (hc : c < 256) :
    u32 ((128 + y0) <<< 14) ||| c = (128 + y0) * 2 ^ 14 + c := by
  rw [shift14_or _ hc]
  omega

/-- The unrolled reader computes the value group by group. -/
theorem getVarint_eq (mem : ℕ → UInt8) (p : ℕ) :
    sqlite3GetVarint mem p = readGroups mem 8 p 0 0 := by
  unfold sqlite3GetVarint
  rcases byte_cases mem p with hlast | ⟨y0, hy0, h0⟩
  · rw [readGroups_last _ _ _ hlast, if_pos ((byte_and_0x80_eq_zero (by omega)).mpr hlast)]
    simp
  rw [readGroups_more _ _ _ h0, h0, if_neg (mt (byte_and_0x80_eq_zero (by omega)).mp (by omega))]
  rcases byte_cases mem (p + 1) with hlast | ⟨y1, hy1, h1⟩
  · rw [readGroups_last _ _ _ hlast, if_pos ((byte_and_0x80_eq_zero (by omega)).mpr hlast),
      two_bytes hy0 hlast, zero_mul, zero_add]
  rw [readGroups_more _ _ _ h1, h1, if_neg (mt (byte_and_0x80_eq_zero (by omega)).mp (by omega))]
  have hbyte := (mem (p + 2)).toNat_lt
  simp only [getVarint3, third_byte hy0 hbyte]
  refine byte_branch (fun hlast ↦ ?_) fun y2 hy2 h2 ↦ ?_
  · rw [three_bytes hy0 hy1 hlast, zero_mul, zero_add]
  · rw [h2, getVarint4_eq hy0 hy1 hy2, zero_mul, zero_add]

/-- The 32-bit reader gives the value where it fits, and the largest `u32` where it does not. -/
theorem getVarint32_eq (mem : ℕ → UInt8) (p : ℕ) : getVarint32 mem p =
    (if (readGroups mem 8 p 0 0).1 < 2 ^ 32 then (readGroups mem 8 p 0 0).1 else 0xffffffff,
      (readGroups mem 8 p 0 0).2) := by
  unfold getVarint32
  rcases byte_cases mem p with hlast | ⟨y0, hy0, h0⟩
  · rw [if_pos hlast, readGroups_last _ _ _ hlast, zero_mul, zero_add, if_pos (by omega)]
  rw [if_neg (by omega)]
  unfold sqlite3GetVarint32
  rcases byte_cases mem (p + 1) with hlast | ⟨y1, hy1, h1⟩
  · rw [readGroups_more _ _ _ h0, readGroups_last _ _ _ hlast, h0,
      if_pos ((byte_and_0x80_eq_zero (by omega)).mpr hlast), two_bytes hy0 hlast, zero_mul,
      zero_add, if_pos (by omega)]
  have hbyte := (mem (p + 2)).toNat_lt
  rw [h0, h1, if_neg (mt (byte_and_0x80_eq_zero (by omega)).mp (by omega))]
  simp only [third_byte hy0 hbyte]
  rcases byte_cases mem (p + 2) with hlast | ⟨y2, hy2, h2⟩
  · rw [readGroups_more _ _ _ h0, readGroups_more _ _ _ h1, readGroups_last _ _ _ hlast,
      if_pos ((and_0x80_eq_zero _ hbyte).mpr hlast), three_bytes hy0 hy1 hlast, zero_mul,
      zero_add, if_pos (by omega)]
  rw [if_neg (mt (and_0x80_eq_zero _ hbyte).mp (by omega)), getVarint_eq]
  have hmask : (readGroups mem 8 p 0 0).1 &&& 0xffffffff = (readGroups mem 8 p 0 0).1 % 2 ^ 32 :=
    and_mask _ 32
  rw [hmask]
  by_cases hfits : (readGroups mem 8 p 0 0).1 < 2 ^ 32
  · rw [if_pos hfits, if_neg (not_not.mpr (Nat.mod_eq_of_lt hfits))]
  · have hcut : (readGroups mem 8 p 0 0).1 % 2 ^ 32 ≠ (readGroups mem 8 p 0 0).1 := by
      intro hsame
      omega
    rw [if_neg hfits, if_pos hcut]

end

/-! ### What the writers write -/

section

theorem shiftRight_seven (v : ℕ) : v >>> 7 = v / 128 := Nat.shiftRight_eq_div_pow v 7

@[simp] theorem groups_length (n v : ℕ) : (groups n v).length = n := by
  induction n generalizing v with
  | zero => rfl
  | succ n ih => rw [groups, length_append, ih, length_singleton]

theorem or_0x80 (v : ℕ) : (v &&& 0x7f) ||| 0x80 = 128 + v % 128 := by
  rw [and_0x7f, Nat.or_comm]
  exact or_low (k := 7) 1 (Nat.mod_lt v (by omega))

/-- The loop fills the buffer with the groups of the value, the last one first. -/
theorem putVarintBuf_groups (room v : ℕ) : ((putVarintBuf room v).map UInt8.ofNat).reverse =
    groups (varintLenLoop room v) v := by
  induction room generalizing v with
  | zero => rfl
  | succ room ih =>
    rw [putVarintBuf, varintLenLoop, add_comm 1, groups]
    by_cases hlast : v >>> 7 = 0
    · rw [if_pos hlast, if_pos hlast]
      rfl
    · rw [if_neg hlast, if_neg hlast, map_cons, reverse_cons, ih]

theorem varintLenLoop_step (room v : ℕ) : varintLenLoop (room + 1) v =
    1 + if v / 128 = 0 then 0 else varintLenLoop room (v / 128) := by
  rw [varintLenLoop, shiftRight_seven]

theorem varintLenLoop_room {n room v : ℕ} (hroom : v < 128 ^ (n + 1)) (hle : n ≤ room) :
    varintLenLoop (room + 1) v = varintLenLoop (n + 1) v := by
  induction n generalizing room v with
  | zero =>
    have hlast : v / 128 = 0 := by omega
    rw [varintLenLoop_step, varintLenLoop_step, if_pos hlast, if_pos hlast]
  | succ n ih =>
    obtain ⟨room, rfl⟩ : ∃ k, room = k + 1 := ⟨room - 1, by omega⟩
    have hsmaller : v / 128 < 128 ^ (n + 1) :=
      Nat.div_lt_of_lt_mul (by rwa [Nat.pow_succ'] at hroom)
    rw [varintLenLoop_step, varintLenLoop_step (n + 1), ih hsmaller (by omega)]

/-- A value that needs more than `n` groups takes at least `n + 1` rounds. -/
theorem varintLenLoop_full {n v : ℕ} (hlow : n = 0 ∨ 128 ^ n ≤ v) :
    varintLenLoop (n + 1) v = n + 1 := by
  induction n generalizing v with
  | zero =>
    rw [varintLenLoop_step]
    split_ifs <;> rfl
  | succ n ih =>
    have hpow : 128 ^ (n + 1) ≤ v := hlow.resolve_left (Nat.succ_ne_zero n)
    have hone : 1 ≤ 128 ^ n := Nat.one_le_pow _ _ (by omega)
    have hless : 128 ^ n ≤ v / 128 := by
      rwa [Nat.le_div_iff_mul_le (by omega), ← Nat.pow_succ]
    rw [varintLenLoop_step, if_neg (by omega), ih (.inr hless), add_comm]

theorem varintLen_of_range {n v : ℕ} (hlow : n = 0 ∨ 128 ^ n ≤ v) (hhigh : v < 128 ^ (n + 1))
    (hn : n ≤ 8) : sqlite3VarintLen v = n + 1 := by
  rw [sqlite3VarintLen, varintLenLoop_room hhigh hn, varintLenLoop_full hlow]

variable {v : ℕ}

/-- The bytes of a varint: the groups of the value before the last one, and the last byte. -/
theorem putVarint_groups (hv : v < 2 ^ 64) : sqlite3PutVarint v =
    if v < 2 ^ 56 then groups (sqlite3VarintLen v - 1) (v / 128) ++ [UInt8.ofNat (v % 128)]
    else groups 8 (v / 256) ++ [UInt8.ofNat v] := by
  have hhigh : v &&& 0xff000000 <<< 32 = v / 2 ^ 56 * 2 ^ 56 := by
    have hlimb := and_limb (k := 56) (v / 2 ^ 56) (2 ^ 8 - 1) (Nat.mod_lt v (Nat.two_pow_pos 56))
      (Nat.two_pow_pos 56)
    have hbyte : v / 2 ^ 56 % 2 ^ 8 = v / 2 ^ 56 := Nat.mod_eq_of_lt (by omega)
    have hmask : (0xff000000 : ℕ) <<< 32 = (2 ^ 8 - 1) * 2 ^ 56 + 0 := by decide
    rw [hmask]
    refine (congrArg (· &&& _) (Nat.div_add_mod' v (2 ^ 56)).symm).trans (hlimb.trans ?_)
    rw [and_mask, Nat.and_zero, hbyte, Nat.add_zero]
  have hlow : ((v &&& 0x7f) ||| 0x80) &&& 0x7f = v % 128 := by
    rw [or_0x80, and_0x7f]
    omega
  unfold sqlite3PutVarint
  by_cases hsmall : v < 2 ^ 56
  · have hroom : sqlite3VarintLen v = varintLenLoop 10 v :=
      (varintLenLoop_room (show v < 128 ^ (8 + 1) by omega) (show 8 ≤ 9 by omega)).symm
    rw [hhigh, if_neg (by omega), if_pos hsmall, hroom, varintLenLoop_step, Nat.add_sub_cancel_left,
      putVarintBuf, shiftRight_seven]
    by_cases hlast : v / 128 = 0
    · rw [if_pos hlast, if_pos hlast]
      show [UInt8.ofNat (((v &&& 0x7f) ||| 0x80) &&& 0x7f)] = [UInt8.ofNat (v % 128)]
      rw [hlow]
    · rw [if_neg hlast, if_neg hlast]
      show (UInt8.ofNat (((v &&& 0x7f) ||| 0x80) &&& 0x7f) ::
        (putVarintBuf 9 (v / 128)).map UInt8.ofNat).reverse = _
      rw [hlow, reverse_cons, putVarintBuf_groups]
  · rw [hhigh, if_pos (by omega), if_neg hsmall, Nat.shiftRight_eq_div_pow]

/-- The number of groups of a value that takes at most eight. -/
theorem exists_range (hv : v < 2 ^ 56) : ∃ n ≤ 7, (n = 0 ∨ 128 ^ n ≤ v) ∧ v < 128 ^ (n + 1) := by
  refine ⟨Nat.log 128 v, ?_, ?_, Nat.lt_pow_succ_log_self (by omega) v⟩
  · have hlog : Nat.log 128 v < 8 := Nat.log_lt_of_lt_pow' (by omega) (by omega)
    omega
  · rcases Nat.eq_zero_or_pos v with rfl | hpos
    · exact .inl (Nat.log_zero_right 128)
    · exact .inr (Nat.pow_log_le_self 128 (by omega))

theorem putVarint_length (hv : v < 2 ^ 64) : (sqlite3PutVarint v).length = sqlite3VarintLen v := by
  rw [putVarint_groups hv]
  split_ifs with hsmall
  · have hpos : 1 ≤ sqlite3VarintLen v := by
      rw [sqlite3VarintLen, varintLenLoop_step]
      omega
    rw [length_append, groups_length, length_singleton, Nat.sub_add_cancel hpos]
  · have hfull : sqlite3VarintLen v = 9 := varintLenLoop_full (n := 8) (.inr (by omega))
    rw [hfull, length_append, groups_length, length_singleton]

/-- The macro writes what `sqlite3PutVarint` writes. -/
theorem putVarint32_eq (hv : v < 2 ^ 32) : putVarint32 v = sqlite3PutVarint v := by
  unfold putVarint32 sqlite3PutVarint32
  by_cases hone : v < 0x80
  · have hlen : sqlite3VarintLen v = 1 := varintLen_of_range (n := 0) (.inl rfl) (by omega)
      (by omega)
    rw [if_pos hone, putVarint_groups (by omega), if_pos (by omega), hlen, Nat.mod_eq_of_lt hone]
    rfl
  · rw [if_neg hone]
    by_cases htwo : v < 0x4000
    · have hlen : sqlite3VarintLen v = 2 := varintLen_of_range (n := 1) (.inr (by omega))
        (by omega) (by omega)
      have hhigh : (v >>> 7) ||| 0x80 = ((v / 128) &&& 0x7f) ||| 0x80 := by
        rw [shiftRight_seven, and_0x7f, Nat.mod_eq_of_lt (by omega)]
      rw [if_pos htwo, putVarint_groups (by omega), if_pos (by omega), hlen, hhigh, and_0x7f v]
      rfl
    · rw [if_neg htwo]

end

/-! ### Reading what was written -/

section

variable {mem : ℕ → UInt8} {p v w : ℕ}

/-- The reader goes through groups with the high bit set. -/
theorem readGroups_groups (left acc n : ℕ) {k u : ℕ} (hstands : Stands mem p (groups k u)) :
    readGroups mem (left + k) p acc n =
      readGroups mem left (p + k) (acc * 128 ^ k + u % 128 ^ k) (n + k) := by
  induction k generalizing left u with
  | zero => simp [Nat.mod_one]
  | succ k ih =>
    rw [groups, stands_append, groups_length] at hstands
    have hbyte : (mem (p + k)).toNat = 128 + u % 128 := by
      rw [(stands_cons.mp hstands.2).1, or_0x80, UInt8.toNat_ofNat']
      omega
    have hsum : (acc * 128 ^ k + u / 128 % 128 ^ k) * 128 + u % 128 =
        acc * 128 ^ (k + 1) + u % 128 ^ (k + 1) := by
      have hmod := Nat.mod_mul (x := u) (a := 128) (b := 128 ^ k)
      have hpow : 128 ^ (k + 1) = 128 * 128 ^ k := Nat.pow_succ'
      rw [hpow, hmod, mul_left_comm]
      omega
    rw [shiftRight_seven] at hstands
    rw [show left + (k + 1) = (left + 1) + k by omega, ih (left + 1) hstands.1,
      readGroups_more _ _ _ hbyte, hsum]
    rfl

/-- A value is read back from the bytes written for it. -/
theorem readGroups_put (hv : v < 2 ^ 64) (hstands : Stands mem p (sqlite3PutVarint v)) :
    readGroups mem 8 p 0 0 = (v, sqlite3VarintLen v) := by
  have hlength := putVarint_length hv
  rw [putVarint_groups hv] at hstands hlength
  by_cases hsmall : v < 2 ^ 56
  · obtain ⟨n, hn, hlow, hhigh⟩ := exists_range hsmall
    have hlen := varintLen_of_range hlow hhigh (by omega)
    rw [if_pos hsmall, hlen, Nat.add_sub_cancel, stands_append, groups_length] at hstands
    have hbyte : (mem (p + n)).toNat = v % 128 := by
      rw [(stands_cons.mp hstands.2).1, UInt8.toNat_ofNat']
      omega
    have hfits : v / 128 < 128 ^ n := Nat.div_lt_of_lt_mul (by rwa [Nat.pow_succ'] at hhigh)
    rw [show 8 = (7 - n + 1) + n by omega, readGroups_groups _ 0 0 hstands.1,
      readGroups_last _ _ _ (by omega), hbyte, Nat.mod_eq_of_lt hfits, hlen]
    refine congrArg₂ Prod.mk ?_ ?_ <;> omega
  · rw [if_neg hsmall] at hstands hlength
    rw [stands_append, groups_length] at hstands
    have hbyte : (mem (p + 8)).toNat = v % 256 := by
      rw [(stands_cons.mp hstands.2).1, UInt8.toNat_ofNat']
    rw [readGroups_groups 0 0 0 hstands.1, readGroups, hbyte, ← hlength, length_append,
      groups_length]
    refine congrArg₂ Prod.mk ?_ rfl
    omega

/-- A value below `2 ^ 32` is read back from the bytes the macro writes for it. -/
theorem getVarint32_put (hv : v < 2 ^ 32) (hstands : Stands mem p (putVarint32 v)) :
    getVarint32 mem p = (v, sqlite3VarintLen v) := by
  rw [putVarint32_eq hv] at hstands
  rw [getVarint32_eq, readGroups_put (by omega) hstands, if_pos hv]

@[simp] theorem putVarint32_length (hv : v < 2 ^ 32) :
    (putVarint32 v).length = sqlite3VarintLen v := by
  rw [putVarint32_eq hv, putVarint_length (by omega)]

theorem varintLen_pos (v : ℕ) : 0 < sqlite3VarintLen v := by
  rw [sqlite3VarintLen, varintLenLoop_step]
  omega

theorem varintLenLoop_le (room v : ℕ) : varintLenLoop room v ≤ room := by
  induction room generalizing v with
  | zero => exact le_refl 0
  | succ room ih =>
    have hrest := ih (v / 128)
    rw [varintLenLoop_step]
    split_ifs <;> omega

/-- No varint is the beginning of another one: what is read there is the value of both. -/
theorem eq_of_putVarint_isPrefix (hv : v < 2 ^ 64) (hw : w < 2 ^ 64)
    (hbegins : sqlite3PutVarint v <+: sqlite3PutVarint w) : v = w := by
  obtain ⟨rest, hrest⟩ := hbegins
  have hlong := stands_ofBytes (sqlite3PutVarint w)
  have hshort := hlong
  rw [← hrest, stands_append, hrest] at hshort
  have hread := readGroups_put hv hshort.1
  rw [readGroups_put hw hlong] at hread
  exact (Prod.mk.inj hread).1.symm

/-- The function behind the macro takes the case of one byte as handled: it writes two bytes for
a value below 128, and what `sqlite3PutVarint` writes for the others. -/
theorem putVarint32_function_iff (hv : v < 2 ^ 32) :
    sqlite3PutVarint32 v = sqlite3PutVarint v ↔ 128 ≤ v := by
  constructor
  · intro hsame
    by_contra hone
    have hlen : sqlite3VarintLen v = 1 := varintLen_of_range (n := 0) (.inl rfl) (by omega)
      (by omega)
    have htwo := congrArg List.length hsame
    rw [putVarint_length (by omega), hlen, sqlite3PutVarint32, if_pos (by omega)] at htwo
    cases htwo
  · intro hmore
    rw [← putVarint32_eq hv, putVarint32, if_neg (by omega)]

/-- What `sqlite3PutVarint` writes has the length `sqlite3VarintLen` gives, one to nine bytes, is
read back whatever follows, and is not the beginning of the varint of another value. The macro
`putVarint32` writes the same bytes, and so does the function behind it from 128 on. Whatever is in
memory, `getVarint32` reads as many bytes as `sqlite3GetVarint`, and the same value if it fits.
Assumes: the values are `u64`. -/
theorem varints_read_back (hv : v < 2 ^ 64) (hw : w < 2 ^ 64) (mem : ℕ → UInt8) (p : ℕ) :
    ((sqlite3PutVarint v).length = sqlite3VarintLen v ∧ 1 ≤ sqlite3VarintLen v ∧
      sqlite3VarintLen v ≤ 9 ∧ (Stands mem p (sqlite3PutVarint v) →
        sqlite3GetVarint mem p = (v, sqlite3VarintLen v))) ∧
      (v ≠ w → ¬sqlite3PutVarint v <+: sqlite3PutVarint w) ∧
      (v < 2 ^ 32 → putVarint32 v = sqlite3PutVarint v ∧
        (sqlite3PutVarint32 v = putVarint32 v ↔ 128 ≤ v)) ∧
      getVarint32 mem p = (if (sqlite3GetVarint mem p).1 < 2 ^ 32 then (sqlite3GetVarint mem p).1
        else 0xffffffff, (sqlite3GetVarint mem p).2) := by
  refine ⟨⟨putVarint_length hv, varintLen_pos v, varintLenLoop_le 9 v, fun hstands ↦ ?_⟩,
    fun hne hbegins ↦ hne (eq_of_putVarint_isPrefix hv hw hbegins), fun hfits ↦ ?_, ?_⟩
  · rw [getVarint_eq, readGroups_put hv hstands]
  · rw [putVarint32_eq hfits]
    exact ⟨rfl, putVarint32_function_iff hfits⟩
  · rw [getVarint_eq, getVarint32_eq]

theorem varints_read_back_300 : sqlite3GetVarint (ofBytes [0x82, 0x2c, 0xff]) 0 = (300, 2) ∧
      ¬sqlite3PutVarint 300 <+: sqlite3PutVarint 5 := by
  have hboth := varints_read_back (show 300 < 2 ^ 64 by omega) (show 5 < 2 ^ 64 by omega)
    (ofBytes [0x82, 0x2c, 0xff]) 0
  exact ⟨hboth.1.2.2.2 (show read _ _ _ = _ by decide), hboth.2.1 (by decide)⟩

/-- Called without the macro, `sqlite3PutVarint32` writes two bytes for 5. -/
theorem putVarint32_function_five :
    ¬∀ v < 2 ^ 32, sqlite3PutVarint32 v = putVarint32 v := fun hall ↦
  absurd (hall 5 (by omega)) (by decide)

end

end LumoSQL
