import Mathlib.Data.List.Basic
import Mathlib.Tactic.Ring

/-! Flat memories as lists: the range read and the range overwrite, and how both
split over a concatenation of blocks. Nothing here fixes the element type. -/
namespace Radixun.Foundation.BlockMemory
variable {α : Type*}

/-- The `n` cells of `mem` from offset `off` on. -/
def slice (mem : List α) (off n : Nat) : List α := (mem.drop off).take n

/-- Overwrite the cells of `mem` from offset `off` on with `bytes`. -/
def patch (mem : List α) (off : Nat) (bytes : List α) : List α :=
  mem.take off ++ (bytes ++ mem.drop (off + bytes.length))

theorem slice_length {mem : List α} {off n : Nat} (h : off + n ≤ mem.length) : (slice mem off n).length = n := by
  simp only [slice, List.length_take, List.length_drop]
  omega

@[simp] theorem slice_zero (mem : List α) (off : Nat) : slice mem off 0 = [] := by simp [slice]

@[simp] theorem slice_length_self (mem : List α) : slice mem 0 mem.length = mem := by simp [slice]

theorem slice_append_left {x y : List α} {off n : Nat} (h : off + n ≤ x.length) :
    slice (x ++ y) off n = slice x off n := by
  simp only [slice]
  rw [List.drop_append_of_le_length (by omega), List.take_append_of_le_length (by simp; omega)]

theorem slice_append_right (x y : List α) (off n : Nat) : slice (x ++ y) (x.length + off) n = slice y off n := by
  simp only [slice, List.drop_append]
  rw [List.drop_of_length_le (by omega), Nat.add_sub_cancel_left, List.nil_append]

/-- A read that runs past the end of the first block goes on at the start of the second. -/
theorem slice_append_split {x y : List α} {off n : Nat} (ho : off ≤ x.length) (hn : x.length ≤ off + n) :
    slice (x ++ y) off n = slice x off (x.length - off) ++ slice y 0 (n - (x.length - off)) := by
  simp only [slice, List.drop_zero]
  rw [List.drop_append_of_le_length ho, List.take_append]
  simp only [List.length_drop]
  congr 1
  rw [List.take_of_length_le (by simp; omega), List.take_of_length_le (by simp)]

theorem slice_concat (mem : List α) (off a b : Nat) :
    slice mem off a ++ slice mem (off + a) b = slice mem off (a + b) := by
  simp only [slice, List.take_add, List.drop_drop]

@[simp] theorem patch_nil (mem : List α) (off : Nat) : patch mem off [] = mem := by simp [patch]

theorem patch_end (mem bytes : List α) : patch mem mem.length bytes = mem ++ bytes := by simp [patch]

theorem patch_length {mem : List α} {off : Nat} {bytes : List α} (h : off + bytes.length ≤ mem.length) :
    (patch mem off bytes).length = mem.length := by
  simp only [patch, List.length_append, List.length_take, List.length_drop]
  omega

/-- Cells just before an overwrite and the overwrite itself, read in one go. -/
theorem slice_patch {mem bytes : List α} {start n : Nat} (h : start + n ≤ mem.length) :
    slice (patch mem (start + n) bytes) start (n + bytes.length) = slice mem start n ++ bytes := by
  have hl : (mem.take (start + n)).length = start + n := List.length_take_of_le h
  have hbefore : slice (mem.take (start + n)) start n = slice mem start n := by
    conv_rhs => rw [← List.take_append_drop (start + n) mem, slice_append_left hl.ge]
  have hafter := slice_append_right (mem.take (start + n)) (bytes ++ mem.drop (start + n + bytes.length)) 0 bytes.length
  rw [hl, Nat.add_zero, slice_append_left (Nat.zero_add _).le] at hafter
  rw [← slice_concat, patch, slice_append_left hl.ge, hbefore, hafter, slice_length_self]

theorem patch_append_left {x y : List α} {off : Nat} {bytes : List α} (h : off + bytes.length ≤ x.length) :
    patch (x ++ y) off bytes = patch x off bytes ++ y := by
  simp only [patch, List.append_assoc]
  rw [List.take_append_of_le_length (by omega), List.drop_append_of_le_length h]

theorem patch_append_right (x y : List α) (off : Nat) (bytes : List α) :
    patch (x ++ y) (x.length + off) bytes = x ++ patch y off bytes := by
  simp only [patch, List.take_append, List.drop_append]
  rw [List.take_of_length_le (by omega), List.drop_of_length_le (show x.length ≤ x.length + off + _ by omega)]
  simp only [Nat.add_sub_cancel_left, Nat.add_assoc, List.nil_append, List.append_assoc]

/-- An overwrite that fills the first block to its end goes on at the start of the second. -/
theorem patch_append_split {x y : List α} {off : Nat} {bytes : List α} (ho : off ≤ x.length)
    (hb : x.length ≤ off + bytes.length) :
    patch (x ++ y) off bytes =
      patch x off (bytes.take (x.length - off)) ++ patch y 0 (bytes.drop (x.length - off)) := by
  have hlen : (bytes.take (x.length - off)).length = x.length - off := by simp; omega
  simp only [patch, hlen, List.take_zero, List.nil_append, Nat.zero_add, List.length_drop]
  rw [List.take_append_of_le_length ho, List.drop_append, List.drop_of_length_le hb,
    List.drop_of_length_le (show x.length ≤ off + (x.length - off) by omega)]
  simp only [List.nil_append, List.append_nil, List.append_assoc]
  rw [← List.append_assoc (bytes.take _), List.take_append_drop]
  congr 3
  omega

/-- Two consecutive overwrites are one. -/
theorem patch_concat {mem : List α} {off : Nat} {a b : List α} (h : off + a.length ≤ mem.length) :
    patch (patch mem off a) (off + a.length) b = patch mem off (a ++ b) := by
  have hp : (mem.take off ++ a).length = off + a.length := by simp; omega
  simp only [patch, List.length_append]
  rw [← List.append_assoc (mem.take off), List.take_append_of_le_length (by omega), List.take_of_length_le (by omega),
    List.drop_append, List.drop_of_length_le (by omega), hp]
  simp only [List.nil_append, List.drop_drop, List.append_assoc]
  congr 4
  omega

/-- An overwrite that starts in the first `s` cells, seen on these cells and on those it adds
to them. What lies behind the memory does not matter. -/
theorem take_patch_max {mem extra : List α} {off s : Nat} {bytes : List α} (ho : off ≤ s) (hs : s ≤ mem.length) :
    (patch (mem ++ extra) off bytes).take (max s (off + bytes.length)) = patch (mem.take s) off bytes := by
  have hl : (mem.take off ++ bytes).length = off + bytes.length := by simp; omega
  simp only [patch, List.take_take, Nat.min_eq_left ho]
  rw [List.take_append_of_le_length (show off ≤ mem.length by omega), ← List.append_assoc, List.take_append, hl,
    List.take_of_length_le (by omega), ← List.append_assoc]
  congr 1
  rcases Nat.lt_or_ge s (off + bytes.length) with hlt | hge
  · rw [max_eq_right hlt.le, Nat.sub_self, List.take_zero, List.drop_of_length_le]
    rw [List.length_take]
    omega
  · rw [max_eq_left hge, List.drop_append_of_le_length (by omega), List.take_append_of_le_length, List.take_drop]
    · congr 2
      omega
    · rw [List.length_drop]
      omega

/-- The meaning of an overwrite cell by cell: the range holds the new bytes and
every other cell keeps its value. -/
theorem patch_getElem? {mem : List α} {off : Nat} {bytes : List α} (h : off + bytes.length ≤ mem.length) (i : Nat) :
    (patch mem off bytes)[i]? = if off ≤ i ∧ i < off + bytes.length then bytes[i - off]? else mem[i]? := by
  have hl : (mem.take off).length = off := by simp; omega
  simp only [patch, List.getElem?_append, hl, List.getElem?_take, List.getElem?_drop]
  split
  · rw [if_neg (by omega)]
  · split
    · rw [if_pos (by omega)]
    · rw [if_neg (by omega)]
      congr 1
      omega

end Radixun.Foundation.BlockMemory
