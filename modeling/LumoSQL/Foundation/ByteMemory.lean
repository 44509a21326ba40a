import Mathlib.Data.List.Basic

/-!
# A flat memory

A memory gives every address its content. `read` is the string of the given length at an address and
`write` puts a string there; an address outside the string keeps its content (`write_of_lt`,
`write_of_le`), so that a read that does not meet a write is not changed by it (`read_write_before`,
`read_write_after`).

`Stands mem a bytes` says that a string is at an address. A string of two parts is at an address
when its parts are next to each other (`stands_append`), and a write makes its string stand
(`stands_write`). `ofBytes` is the memory that starts with a string.
-/

namespace LumoSQL.Foundation

open List

variable {α : Type*}

/-- The string of length `n` at the address `a`. -/
def read (mem : ℕ → α) (a n : ℕ) : List α := (List.range n).map fun i ↦ mem (a + i)

/-- The memory after a string has been written to the address `a`. -/
def write (mem : ℕ → α) (a : ℕ) (bytes : List α) : ℕ → α := fun x ↦
  if a ≤ x then (bytes[x - a]?).getD (mem x) else mem x

/-- The string is in memory at the address `a`. -/
def Stands (mem : ℕ → α) (a : ℕ) (bytes : List α) : Prop := read mem a bytes.length = bytes

variable {mem mem' : ℕ → α} {a b n : ℕ} {bytes left right : List α}

/-! ### Reading -/

@[simp] theorem read_length (mem : ℕ → α) (a n : ℕ) : (read mem a n).length = n := by
  simp [read]

theorem read_getElem? (mem : ℕ → α) (a : ℕ) {i : ℕ} (hi : i < n) :
    (read mem a n)[i]? = some (mem (a + i)) := by
  simp [read, hi]

theorem read_add (mem : ℕ → α) (a m n : ℕ) :
    read mem a (m + n) = read mem a m ++ read mem (a + m) n := by
  simp only [read, range_add, map_append, map_map]
  congr 1
  refine map_congr_left fun i _ ↦ ?_
  show mem (a + (m + i)) = mem (a + m + i)
  rw [Nat.add_assoc]

theorem read_congr (hsame : ∀ i < n, mem (a + i) = mem' (b + i)) : read mem a n = read mem' b n :=
  map_congr_left fun i hi ↦ hsame i (mem_range.mp hi)

/-! ### Writing -/

/-- An address before the string keeps its content. -/
theorem write_of_lt (mem : ℕ → α) (bytes : List α) (hlt : b < a) : write mem a bytes b = mem b := by
  rw [write, if_neg (by omega)]

/-- An address behind the string keeps its content. -/
theorem write_of_le (mem : ℕ → α) (hle : a + bytes.length ≤ b) : write mem a bytes b = mem b := by
  rw [write, getElem?_eq_none (by omega), Option.getD_none, ite_self]

theorem write_at (mem : ℕ → α) (a : ℕ) {i : ℕ} (hi : i < bytes.length) :
    write mem a bytes (a + i) = bytes[i] := by
  rw [write, if_pos (by omega), Nat.add_sub_cancel_left, getElem?_eq_getElem hi, Option.getD_some]

theorem read_write_self (mem : ℕ → α) (a : ℕ) (bytes : List α) :
    read (write mem a bytes) a bytes.length = bytes := by
  refine ext_getElem? fun i ↦ ?_
  by_cases hi : i < bytes.length
  · rw [read_getElem? _ _ hi, write_at mem a hi, getElem?_eq_getElem hi]
  · rw [getElem?_eq_none (by rw [read_length]; omega), getElem?_eq_none (by omega)]

/-- A read before the string is not changed by the write. -/
theorem read_write_before (mem : ℕ → α) (bytes : List α) (hbefore : b + n ≤ a) :
    read (write mem a bytes) b n = read mem b n :=
  read_congr fun _ _ ↦ write_of_lt mem bytes (by omega)

/-- A read behind the string is not changed by the write. -/
theorem read_write_after (mem : ℕ → α) (hafter : a + bytes.length ≤ b) :
    read (write mem a bytes) b n = read mem b n :=
  read_congr fun _ _ ↦ write_of_le mem (by omega)

/-! ### Strings in memory -/

theorem stands_write (mem : ℕ → α) (a : ℕ) (bytes : List α) : Stands (write mem a bytes) a bytes :=
  read_write_self mem a bytes

@[simp] theorem stands_nil (mem : ℕ → α) (a : ℕ) : Stands mem a [] := rfl

theorem stands_append : Stands mem a (left ++ right) ↔
    Stands mem a left ∧ Stands mem (a + left.length) right := by
  rw [Stands, length_append, read_add]
  constructor
  · intro hboth
    exact append_inj hboth (read_length mem a left.length)
  · rintro ⟨hleft, hright⟩
    exact congrArg₂ _ hleft hright

theorem stands_cons {byte : α} : Stands mem a (byte :: bytes) ↔
    mem a = byte ∧ Stands mem (a + 1) bytes := by
  have hsplit : byte :: bytes = [byte] ++ bytes := rfl
  rw [hsplit, stands_append]
  simp [Stands, read]

/-- A string stays where it is as long as the memory under it does. -/
theorem Stands.congr (hstands : Stands mem a bytes)
    (hsame : ∀ i < bytes.length, mem' (b + i) = mem (a + i)) : Stands mem' b bytes :=
  (read_congr hsame).trans hstands

theorem Stands.write_before (hstands : Stands mem b bytes) (other : List α)
    (hbefore : b + bytes.length ≤ a) : Stands (write mem a other) b bytes :=
  (read_write_before mem other hbefore).trans hstands

theorem Stands.write_after {other : List α} (hstands : Stands mem b bytes)
    (hafter : a + other.length ≤ b) : Stands (write mem a other) b bytes :=
  (read_write_after mem hafter).trans hstands

/-- Two strings of one length at one address are the same. -/
theorem Stands.unique (hleft : Stands mem a left) (hright : Stands mem a right)
    (hlength : left.length = right.length) : left = right := by
  rw [← hleft, ← hright, hlength]

/-! ### A string as a memory -/

/-- A memory with a string at its start and the default content behind it. -/
def ofBytes [Inhabited α] (bytes : List α) : ℕ → α := fun i ↦ bytes.getD i default

theorem stands_ofBytes [Inhabited α] (bytes : List α) : Stands (ofBytes bytes) 0 bytes := by
  refine ext_getElem? fun i ↦ ?_
  by_cases hi : i < bytes.length
  · rw [read_getElem? _ _ hi, Nat.zero_add, ofBytes, getD_eq_getElem?_getD, getElem?_eq_getElem hi]
    rfl
  · rw [getElem?_eq_none (by rw [read_length]; omega), getElem?_eq_none (by omega)]

end LumoSQL.Foundation
