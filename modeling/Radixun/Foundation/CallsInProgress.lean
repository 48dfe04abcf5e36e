import Mathlib.Algebra.BigOperators.Group.List.Basic
import Mathlib.Algebra.Order.BigOperators.Group.List
import Mathlib.Algebra.Order.Ring.Nat
import Mathlib.Tactic.Abel

/-! Any number of calls in progress, of which one at a time goes on: what they have in their hands, summed
up over all of them. -/
namespace Radixun.Foundation.CallsInProgress
variable {κ M : Type*} {calls : List κ} {i : Nat} {k k' : κ} {next : Option κ}

/-- The call at the place goes on as `next`, or is over. -/
def advance (calls : List κ) (i : Nat) (next : Option κ) : List κ := calls.take i ++ next.toList ++ calls.drop (i + 1)

theorem split_at (h : calls[i]? = some k) : calls = calls.take i ++ k :: calls.drop (i + 1) := by
  obtain ⟨hi,rfl⟩ := List.getElem?_eq_some_iff.mp h
  rw [List.getElem_cons_drop, List.take_append_drop]

/-- The calls are the one that went on and the others. -/
theorem mem_advance (h : k' ∈ advance calls i next) : next = some k' ∨ k' ∈ advance calls i none := by
  rw [advance, Option.toList_none, List.append_nil]
  rcases List.mem_append.mp h with h | h
  · rcases List.mem_append.mp h with h | h
    · exact .inr (List.mem_append_left _ h)
    · exact .inl (Option.mem_toList.mp h)
  · exact .inr (List.mem_append_right _ h)

theorem mem_of_others (h : k' ∈ advance calls i none) : k' ∈ calls := by
  rw [advance, Option.toList_none, List.append_nil] at h
  rcases List.mem_append.mp h with h | h
  · exact List.mem_of_mem_take h
  · exact List.mem_of_mem_drop h

variable [AddCommMonoid M]

/-- What a call has in its hands; nothing when it is over. -/
def share (g : κ → M) (next : Option κ) : M := (next.map g).getD 0

/-- The sum over the calls changes by the share of the one that went on. -/
theorem sum_advance (g : κ → M) (h : calls[i]? = some k) (next : Option κ) :
    ((advance calls i next).map g).sum + g k = (calls.map g).sum + share g next := by
  have hsplit : (calls.map g).sum = ((calls.take i).map g).sum + (g k + ((calls.drop (i + 1)).map g).sum) := by
    conv_lhs => rw [split_at h, List.map_append, List.sum_append, List.map_cons, List.sum_cons]
  have hnext : (next.toList.map g).sum = share g next := by
    cases next with
    | none => rfl
    | some k' => exact List.sum_singleton
  rw [advance, List.map_append, List.map_append, List.sum_append, List.sum_append, hnext, hsplit]
  abel

/-- The call that goes on and another one have no more than all calls together. -/
theorem others_le (g : κ → Nat) (h : calls[i]? = some k) (hk : k' ∈ advance calls i none) : g k' + g k ≤ (calls.map g).sum := by
  have hsum := sum_advance g h none
  have hle := List.le_sum_of_mem (List.mem_map_of_mem (f := g) hk)
  simp only [share, Option.map_none, Option.getD_none] at hsum
  omega

theorem sum_begin (g : κ → M) (calls : List κ) (k : κ) : ((calls ++ [k]).map g).sum = (calls.map g).sum + g k := by
  rw [List.map_append, List.sum_append, List.map_singleton, List.sum_singleton]

end Radixun.Foundation.CallsInProgress
