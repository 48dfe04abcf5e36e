import Mathlib.Data.List.Basic
import Mathlib.Data.List.Infix

/-! Directory trees, given by what is at each place, and what is left of them when entries are taken
away. -/
namespace Radixun.Foundation.FileTree

abbrev Name := List UInt8

/-- The names on the way from the root. -/
abbrev Location := List Name

inductive FileType where
  | regular | directory | symlink | fifo | charDevice | blockDevice | socket
  deriving DecidableEq, Repr

/-- The bits of `S_IFMT`. -/
def FileType.mode : FileType → Nat
  | .socket => 0o140000
  | .symlink => 0o120000
  | .regular => 0o100000
  | .blockDevice => 0o060000
  | .directory => 0o040000
  | .charDevice => 0o020000
  | .fifo => 0o010000

/-- The content of a symbolic link is the path it leads to. -/
structure Inode where
  type : FileType
  content : List UInt8
  deriving DecidableEq, Repr

abbrev Tree := Location → Option Inode

def isDirectory (t : Tree) (l : Location) : Bool := (t l).any fun i => i.type = .directory

/-- Entries stand in directories. -/
def Closed (t : Tree) : Prop := ∀ l n, t (l ++ [n]) ≠ none → isDirectory t l = true

/-- The first tree is what is left of the second one. -/
def Restricts (s t : Tree) : Prop := ∀ l, s l = none ∨ s l = t l

def erase (t : Tree) (l : Location) : Tree := fun k => if k = l then none else t k

/-- The tree without what is at a place and below it. -/
def cut (t : Tree) (l : Location) : Tree := fun k => if l <+: k then none else t k

/-- The tree without what is below a place. -/
def clear (t : Tree) (l : Location) : Tree := fun k => if l <+: k ∧ l ≠ k then none else t k

/-- What is at a place and below it taken to another place. -/
def move (t : Tree) (source target : Location) : Tree := fun k =>
  if target <+: k then t (source ++ k.drop target.length) else if source <+: k then none else t k

variable {s t u : Tree} {l k : Location}

theorem isDirectory_iff : isDirectory t l = true ↔ ∃ i, t l = some i ∧ i.type = .directory := by
  rw [isDirectory, Option.any_eq_true]
  constructor
  · rintro ⟨i,hi,htype⟩
    exact ⟨i,hi,of_decide_eq_true htype⟩
  · rintro ⟨i,hi,htype⟩
    exact ⟨i,hi,decide_eq_true htype⟩

theorem ne_none_of_isDirectory (h : isDirectory t l = true) : t l ≠ none := by
  obtain ⟨i,hi,-⟩ := isDirectory_iff.mp h
  exact Option.ne_none_iff_exists'.mpr ⟨i,hi⟩

theorem isDirectory_congr (h : s l = t l) : isDirectory s l = isDirectory t l := congrArg (Option.any _) h

namespace Restricts

theorem refl (t : Tree) : Restricts t t := fun _ => .inr rfl

theorem trans (h : Restricts s t) (h' : Restricts t u) : Restricts s u := by
  intro l
  rcases h l with hs | hs
  · exact .inl hs
  · rw [hs]
    exact h' l

theorem antisymm (h : Restricts s t) (h' : Restricts t s) : s = t := by
  funext l
  rcases h l with hs | hs
  · rcases h' l with ht | ht
    · rw [hs, ht]
    · exact ht.symm
  · exact hs

theorem eq_some (h : Restricts s t) {i : Inode} (hs : s l = some i) : t l = some i := by
  rcases h l with hn | heq
  · rw [hs] at hn
    cases hn
  · rw [← heq, hs]

theorem ne_none (h : Restricts s t) (hs : s l ≠ none) : t l ≠ none := by
  rw [← (h l).resolve_left hs]
  exact hs

theorem isDirectory (h : Restricts s t) (hs : FileTree.isDirectory s l = true) : FileTree.isDirectory t l = true := by
  obtain ⟨i,hi,htype⟩ := isDirectory_iff.mp hs
  exact isDirectory_iff.mpr ⟨i,h.eq_some hi,htype⟩

end Restricts

theorem erase_restricts (t : Tree) (l : Location) : Restricts (erase t l) t := by
  intro k
  rw [erase]
  split
  · exact .inl rfl
  · exact .inr rfl

theorem cut_restricts (t : Tree) (l : Location) : Restricts (cut t l) t := by
  intro k
  rw [cut]
  split
  · exact .inl rfl
  · exact .inr rfl

theorem clear_restricts (t : Tree) (l : Location) : Restricts (clear t l) t := by
  intro k
  rw [clear]
  split
  · exact .inl rfl
  · exact .inr rfl

/-- Clearing a place leaves what is at it and above it. -/
theorem clear_above (t : Tree) (h : k <+: l) : clear t l k = t k :=
  if_neg fun hk => hk.2 (hk.1.eq_of_length_le h.length_le)

theorem cut_inside (h : l <+: k) : cut t l k = none := if_pos h

theorem cut_outside (h : ¬l <+: k) : cut t l k = t k := if_neg h

/-- Nothing is below a place where nothing is. -/
theorem Closed.none_below (hc : Closed t) (h : t l = none) (hk : l <+: k) : t k = none := by
  obtain ⟨rest,rfl⟩ := hk
  induction rest using List.reverseRecOn with
  | nil => rw [List.append_nil, h]
  | append_singleton rest n ih =>
    by_contra hne
    rw [← List.append_assoc] at hne
    obtain ⟨i,hi,-⟩ := isDirectory_iff.mp (hc _ n hne)
    rw [ih] at hi
    cases hi

/-- Nothing is below a place without entries. -/
theorem Closed.none_strictly (hc : Closed t) (h : ∀ n, t (l ++ [n]) = none) (hk : l <+: k) (hne : l ≠ k) :
    t k = none := by
  obtain ⟨rest,rfl⟩ := hk
  cases rest with
  | nil => exact absurd (List.append_nil l).symm hne
  | cons n rest =>
    apply hc.none_below (h n)
    exact ⟨rest,by rw [List.append_assoc, List.singleton_append]⟩

/-- Taking an entry away that has none below it leaves all others in their directories. -/
theorem Closed.erase (hc : Closed t) (h : ∀ n, t (l ++ [n]) = none) : Closed (FileTree.erase t l) := by
  intro k n hk
  have ht := (erase_restricts t l).ne_none hk
  have hdir := hc k n ht
  have hne : k ≠ l := by
    rintro rfl
    exact ht (h n)
  rwa [isDirectory_congr (show FileTree.erase t l k = t k from if_neg hne)]

/-- A tree that is as before outside of a place and has nothing below it. -/
theorem eq_clear (hout : ∀ k, ¬(l <+: k ∧ l ≠ k) → s k = t k) (hin : ∀ k, l <+: k → l ≠ k → s k = none) :
    s = clear t l := by
  funext k
  rw [clear]
  split
  · rename_i h
    exact hin k h.1 h.2
  · rename_i h
    exact hout k h

theorem clear_eq_of_agree (h : ∀ k, ¬(l <+: k ∧ l ≠ k) → s k = t k) : clear s l = clear t l := by
  funext k
  rw [clear, clear]
  split
  · rfl
  · rename_i hk
    exact h k hk

/-- An entry is strictly below its directory, and so is what is below it. -/
theorem strictly_below {n : Name} (h : l ++ [n] <+: k) : l <+: k ∧ l ≠ k := by
  refine ⟨(List.prefix_append l [n]).trans h,?_⟩
  rintro rfl
  have := h.length_le
  rw [List.length_append, List.length_singleton] at this
  omega

/-- Less is cleared away further down. -/
theorem clear_restricts_clear (t : Tree) (l : Location) (n : Name) : Restricts (clear t l) (clear t (l ++ [n])) := by
  intro k
  rw [clear, clear]
  split
  · exact .inl rfl
  · rename_i h
    rw [if_neg]
    · exact .inr rfl
    · intro hk
      exact h (strictly_below hk.1)

/-- What was at the source, and only that, is at the target afterwards. -/
theorem move_target (t : Tree) (source target rest : Location) : move t source target (target ++ rest) = t (source ++ rest) := by
  rw [move, if_pos (List.prefix_append target rest), List.drop_left]

/-- Two different entries of a directory have nothing in common. -/
theorem not_prefix_entry {n m : Name} (h : n ≠ m) {k : Location} (hk : l ++ [n] <+: k) : ¬l ++ [m] <+: k := by
  intro hk'
  have hlen : (l ++ [n]).length = (l ++ [m]).length := by
    rw [List.length_append, List.length_append, List.length_singleton, List.length_singleton]
  have heq : l ++ [n] = l ++ [m] := by
    rcases List.prefix_or_prefix_of_prefix hk hk' with hp | hp
    · exact hp.eq_of_length hlen
    · exact (hp.eq_of_length hlen.symm).symm
  exact h (List.cons.inj (List.append_cancel_left heq)).1

end Radixun.Foundation.FileTree
