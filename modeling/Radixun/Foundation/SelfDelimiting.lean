import Radixun.Foundation.TextFrame

/-! Texts that say themselves where they end, alone, one behind the other, and in lists with a separator. -/
namespace Radixun.Foundation
variable {A B C : Type} {P : A → Prop} {Q : B → Prop} {print : A → List C} {print' : B → List C}

/-- What follows a value is what follows it in any reading of the text. -/
def SelfDelimiting (P : A → Prop) (print : A → List C) : Prop :=
  ∀ a a', P a → P a' → ∀ r r', print a ++ r = print a' ++ r' → a = a' ∧ r = r'

namespace SelfDelimiting

/-- A text between quotes that it does not have itself. -/
theorem quoted (q : C) : SelfDelimiting (q ∉ ·) fun s : List C => q :: (s ++ [q]) := by
  intro s s' hs hs' r r' heq
  rw [List.cons_append, List.cons_append, List.append_assoc, List.append_assoc] at heq
  exact TextFrame.delimiter_unique hs hs' (List.cons.inj heq).2

theorem literal (h : SelfDelimiting P print) (l : List C) : SelfDelimiting P fun a => l ++ print a := by
  intro a a' ha ha' r r' heq
  rw [List.append_assoc, List.append_assoc] at heq
  exact h a a' ha ha' r r' (List.append_cancel_left heq)

theorem pair (h : SelfDelimiting P print) (h' : SelfDelimiting Q print') :
    SelfDelimiting (fun e : A × B => P e.1 ∧ Q e.2) fun e => print e.1 ++ print' e.2 := by
  intro e e' he he' r r' heq
  rw [List.append_assoc, List.append_assoc] at heq
  obtain ⟨hfirst,hrest⟩ := h e.1 e'.1 he.1 he'.1 _ _ heq
  obtain ⟨hsecond,hr⟩ := h' e.2 e'.2 he.2 he'.2 _ _ hrest
  exact ⟨Prod.ext hfirst hsecond,hr⟩

/-- Values each with the separator before it, up to something that does not begin like the separator. -/
theorem behind_separators (h : SelfDelimiting P print) {c : C} {sep : List C} {as as' : List A} (ha : ∀ a ∈ as, P a)
    (ha' : ∀ a ∈ as', P a) {r r' : List C} (hr : r.head? ≠ some c) (hr' : r'.head? ≠ some c)
    (heq : (as.map fun a => c :: sep ++ print a).flatten ++ r = (as'.map fun a => c :: sep ++ print a).flatten ++ r') :
    as = as' ∧ r = r' := by
  induction as generalizing as' with
  | nil =>
    cases as' with
    | nil => exact ⟨rfl,heq⟩
    | cons a' as' =>
      rw [List.map_nil, List.flatten_nil, List.nil_append] at heq
      rw [heq] at hr
      exact absurd rfl hr
  | cons a as ih =>
    cases as' with
    | nil =>
      rw [List.map_nil, List.flatten_nil, List.nil_append] at heq
      rw [← heq] at hr'
      exact absurd rfl hr'
    | cons a' as' =>
      obtain ⟨hpa,has⟩ := List.forall_mem_cons.mp ha
      obtain ⟨hpa',has'⟩ := List.forall_mem_cons.mp ha'
      rw [List.map_cons, List.map_cons, List.flatten_cons, List.flatten_cons, List.append_assoc, List.append_assoc,
        List.append_assoc, List.append_assoc] at heq
      obtain ⟨rfl,hrest⟩ := h a a' hpa hpa' _ _ (List.append_cancel_left heq)
      obtain ⟨rfl,htail⟩ := ih has has' hrest
      exact ⟨rfl,htail⟩

/-- A first value, and others behind separators. -/
theorem separated (h : SelfDelimiting P print) {c : C} {sep : List C} {a a' : A} {as as' : List A}
    (ha : ∀ b ∈ a :: as, P b) (ha' : ∀ b ∈ a' :: as', P b) {r r' : List C} (hr : r.head? ≠ some c)
    (hr' : r'.head? ≠ some c)
    (heq : print a ++ (as.map fun a => c :: sep ++ print a).flatten ++ r =
      print a' ++ (as'.map fun a => c :: sep ++ print a).flatten ++ r') :
    a :: as = a' :: as' ∧ r = r' := by
  obtain ⟨hpa,has⟩ := List.forall_mem_cons.mp ha
  obtain ⟨hpa',has'⟩ := List.forall_mem_cons.mp ha'
  rw [List.append_assoc, List.append_assoc] at heq
  obtain ⟨rfl,hrest⟩ := h a a' hpa hpa' _ _ heq
  obtain ⟨rfl,htail⟩ := behind_separators h has has' hr hr' hrest
  exact ⟨rfl,htail⟩

end SelfDelimiting

end Radixun.Foundation
