import Radixun.Foundation.ActionMachine

/-! What a machine does on all bytes of a class at once, read off the first edge that meets the class. -/
namespace Radixun.Foundation

/-- Each range lies in one of the other class. -/
def ByteClass.inside (c d : ByteClass) : Bool := c.all fun r => d.any fun q => q.1 ≤ r.1 && r.2 ≤ q.2

theorem ByteClass.has_of_inside {c d : ByteClass} {b : UInt8} (h : c.inside d = true) (hb : c.has b = true) :
    d.has b = true := by
  obtain ⟨r,hr,hrb⟩ := List.any_eq_true.mp hb
  obtain ⟨q,hq,hqr⟩ := List.any_eq_true.mp (List.all_eq_true.mp h r hr)
  simp only [Bool.and_eq_true, decide_eq_true_eq] at hrb hqr
  refine List.any_eq_true.mpr ⟨q,hq,?_⟩
  simp only [Bool.and_eq_true, decide_eq_true_eq]
  omega

namespace ActionMachine
variable {A : Type} {M : ActionMachine A} {cs t : Nat} {c : ByteClass} {b : UInt8} {acts : List A}

/-- The move that all bytes of a class have in common, if the first edge that meets the class takes it whole. -/
def onClass (M : ActionMachine A) (cs : Nat) (c : ByteClass) : Option (List A × Nat) :=
  match (M.row cs).find? (·.on.meets c) with
  | some e => if c.inside e.on then some (e.acts,e.target) else none
  | none => none

theorem move_of_onClass (h : M.onClass cs c = some (acts,t)) (hb : c.has b = true) : M.move cs b = some (acts,t) := by
  unfold onClass at h
  cases hfind : (M.row cs).find? (·.on.meets c) with
  | none =>
    rw [hfind] at h
    cases h
  | some e =>
    rw [hfind] at h
    dsimp only at h
    split at h
    · rename_i hinside
      obtain ⟨-,before,after,hrow,hbefore⟩ := List.find?_eq_some_iff_append.mp hfind
      have hedge : M.edge cs b = some e := by
        refine List.find?_eq_some_iff_append.mpr ⟨ByteClass.has_of_inside hinside hb,before,after,hrow,?_⟩
        intro x hx
        have hmiss := hbefore x hx
        by_contra hhas
        rw [Bool.not_eq_true', Bool.not_eq_false] at hhas
        rw [ByteClass.meets_of_has hhas hb] at hmiss
        cases hmiss
      rw [move, hedge]
      exact h
    · cases h

/-- One byte whose actions go on. -/
theorem walk_one (h : M.move cs b = some (acts,t)) (hgo : acts.any M.breaks = false) (p : Nat) :
    M.walk cs p [b] = ⟨acts.map fun a => (p,a),.more t⟩ := by
  obtain ⟨e,he,heq⟩ := Option.map_eq_some_iff.mp h
  obtain ⟨rfl,rfl⟩ := Prod.mk.inj heq
  rw [walk_cons_go he hgo]
  simp [Walk.after]

/-- A text whose walk is known from the beginning of a buffer, at any place. -/
theorem walk_literal {xs : List UInt8} {es : List (Nat × A)} (hevents : (M.walk cs 0 xs).events = es)
    (hstop : (M.walk cs 0 xs).stop = .more t) (p : Nat) : M.walk cs p xs = ⟨es.map fun e => (e.1 + p,e.2),.more t⟩ := by
  have hshift := M.walk_shift cs 0 p xs
  rw [Nat.zero_add] at hshift
  rw [hshift, Walk.shift, hevents, hstop]
  rfl

end ActionMachine
end Radixun.Foundation
