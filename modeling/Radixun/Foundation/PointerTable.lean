import Mathlib.Algebra.Ring.Nat

/-! Vectors of pointers that may be null, indexed by a C `int`: a table kept by descriptor. -/
namespace Radixun.Foundation.PointerTable
universe u
variable {α : Type u} {v : List (Option α)} {fd : Int32} {i n : Nat}

/-- What is beyond the new size is dropped, and new slots are null. -/
def resize (v : List (Option α)) (n : Nat) : List (Option α) := v.take n ++ List.replicate (n - v.length) none

/-- `(int)size > fd`. -/
def covers (v : List (Option α)) (fd : Int32) : Bool := fd < Int32.ofNat v.length

/-- The slot at an index; a negative one is outside of every vector. -/
def slot (v : List (Option α)) (fd : Int32) : Option (Option α) := if fd < 0 then none else v[fd.toNatClampNeg]?

/-- `fd * 1.5` as a size. The product is exact; a negative one is no size. -/
def enlarged (fd : Int32) : Option Nat := if fd < 0 then none else some (fd.toNatClampNeg * 3 / 2)

theorem length_resize (v : List (Option α)) (n : Nat) : (resize v n).length = n := by
  simp only [resize, List.length_append, List.length_take, List.length_replicate]
  omega

theorem getElem?_resize (v : List (Option α)) (n i : Nat) : (resize v n)[i]? = if i < n then some v[i]?.join else none := by
  by_cases hn : i < n
  · rw [if_pos hn, resize]
    by_cases hv : i < v.length
    · rw [List.getElem?_append_left (by rw [List.length_take]; omega), List.getElem?_take_of_lt hn,
        List.getElem?_eq_getElem hv, Option.join_some]
    · rw [List.getElem?_append_right (by rw [List.length_take]; omega), List.getElem?_eq_none (by omega : v.length ≤ i),
        List.getElem?_replicate, if_pos (by rw [List.length_take]; omega)]
      rfl
  · rw [if_neg hn, List.getElem?_eq_none]
    rw [length_resize]
    omega

theorem not_neg : ¬ fd < 0 ↔ 0 ≤ fd.toInt := by
  rw [Int32.lt_iff_toInt_lt, Int32.toInt_zero, Int.not_lt]

theorem slot_nonneg (h : ¬ fd < 0) : slot v fd = v[fd.toNatClampNeg]? := if_neg h

theorem slot_neg (h : fd < 0) : slot v fd = none := if_pos h

theorem enlarged_nonneg (h : ¬ fd < 0) : enlarged fd = some (fd.toNatClampNeg * 3 / 2) := if_neg h

theorem covers_iff : covers v fd = true ↔ fd.toInt < (v.length : Int).bmod (2^32) := by
  rw [covers, decide_eq_true_iff, Int32.lt_iff_toInt_lt, Int32.toInt_ofNat']
  rfl

/-- A vector too long for an `int` looks shorter than it is, never longer. -/
theorem lt_of_covers (h : covers v fd = true) : fd.toInt < v.length := by
  have hb := covers_iff.mp h
  have hle : (v.length : Int).bmod (2^32) ≤ v.length := by
    rw [Int.bmod_def]
    split <;> omega
  omega

theorem covers_of_small (hv : v.length < 2^31) : covers v fd = true ↔ fd.toInt < v.length := by
  rw [covers_iff, Int.bmod_eq_of_le_mul_two (by omega) (by omega)]

theorem slot_of_covers (h : covers v fd = true) (h0 : ¬ fd < 0) : ∃ p, slot v fd = some p := by
  have hlt := lt_of_covers h
  have h0' := not_neg.mp h0
  have hi : fd.toNatClampNeg < v.length := by
    rw [← Int32.toNat_toInt]
    omega
  exact ⟨v[fd.toNatClampNeg],by rw [slot_nonneg h0, List.getElem?_eq_getElem hi]⟩

/-- Below the size as an `int`, only a negative index is outside of the vector. -/
theorem slot_covered_none (h : covers v fd = true) : slot v fd = none ↔ fd < 0 := by
  constructor
  · intro hs
    by_contra h0
    obtain ⟨p,hp⟩ := slot_of_covers h h0
    rw [hs] at hp
    cases hp
  · exact slot_neg

/-- A vector made half as long again as the index has a slot for it from 2 on. -/
theorem slot_enlarged_none (h0 : ¬ fd < 0) (hv : v.length = fd.toNatClampNeg * 3 / 2) : slot v fd = none ↔ fd.toNatClampNeg < 2 := by
  rw [slot_nonneg h0, List.getElem?_eq_none_iff]
  omega

end Radixun.Foundation.PointerTable
