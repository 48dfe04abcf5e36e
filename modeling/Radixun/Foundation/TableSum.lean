import Mathlib.Algebra.BigOperators.Group.Finset.Basic
import Mathlib.Tactic.Abel

/-! The total over a table when one row of it is replaced. -/
namespace Radixun.Foundation.TableSum
variable {ι α M : Type*} [DecidableEq ι] [AddCommMonoid M]

/-- What the row gave before and gives now makes the two totals equal. -/
theorem sum_update (t : Finset ι) (f : ι → α) (g : α → M) {i : ι} (hi : i ∈ t) (v : α) :
    ∑ x ∈ t, g (Function.update f i v x) + g (f i) = ∑ x ∈ t, g (f x) + g v := by
  have hrest : ∑ x ∈ t.erase i, g (Function.update f i v x) = ∑ x ∈ t.erase i, g (f x) := by
    apply Finset.sum_congr rfl
    intro x hx
    rw [Function.update_of_ne (Finset.ne_of_mem_erase hx)]
  rw [← Finset.add_sum_erase t _ hi, ← Finset.add_sum_erase t (fun x => g (f x)) hi, hrest, Function.update_self]
  abel

/-- Rows behind the end that count nothing may be taken in. -/
theorem sum_extend (f : ℕ → M) {m n : ℕ} (hmn : m ≤ n) (h : ∀ i, m ≤ i → f i = 0) :
    ∑ i ∈ Finset.range n, f i = ∑ i ∈ Finset.range m, f i := by
  symm
  apply Finset.sum_subset (Finset.range_mono hmn)
  intro i _ hi
  exact h i (Nat.le_of_not_lt (mt Finset.mem_range.mpr hi))

end Radixun.Foundation.TableSum
