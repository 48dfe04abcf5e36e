import Mathlib.Data.List.Basic
import Radixun.Common.ConfigMembers

/-! The scanner of log patterns: `%k` and `%k{fmt}` items between literal text. -/
namespace Radixun.Common.Log
open Config (bytes)

/-- `isalpha` in the C locale. -/
def isalpha (b : UInt8) : Bool := 65 ≤ b.toNat && b.toNat ≤ 90 || 97 ≤ b.toNat && b.toNat ≤ 122

/-- `std::string::substr`, which throws if `pos` is behind the end. -/
def substr (s : List UInt8) (pos len : Nat) : Option (List UInt8) := if pos ≤ s.length then some ((s.drop pos).take len) else none

/-- An element of `vec`: text if `type` is 0, an item if it is 1. -/
structure Piece where
  str : List UInt8
  fmt : List UInt8
  type : Nat
  deriving DecidableEq

/-- What `init` keeps over the turns of its outer loop. -/
structure Scan where
  nstr : List UInt8
  vec : List Piece
  error : Bool
  deriving DecidableEq

/-- What it keeps over the turns of the inner one. `fmtStatus` is set from `{` up to `}`. -/
structure ItemScan where
  n : Nat
  fmtStatus : Bool
  fmtBegin : Nat
  str : List UInt8
  fmt : List UInt8

namespace ItemScan

/-- The end of the body of the inner loop. -/
def advance (pattern : List UInt8) (i : Nat) (s : ItemScan) : Option ItemScan :=
  if s.n + 1 = pattern.length ∧ s.str = [] then
    (substr pattern (i + 1) pattern.length).map fun str => { s with n := s.n + 1, str }
  else some { s with n := s.n + 1 }

/-- A turn of the inner loop on the character `c`; `.inl` is `break`. -/
def turn (pattern : List UInt8) (i : Nat) (c : UInt8) (s : ItemScan) : Option (ItemScan ⊕ ItemScan) :=
  if !s.fmtStatus && (!isalpha c && c != 123 && c != 125) then
    (substr pattern (i + 1) (s.n - i - 1)).map fun str => .inl { s with str }
  else if !s.fmtStatus && c == 123 then
    (substr pattern (i + 1) (s.n - i - 1)).map fun str => .inr { s with n := s.n + 1, fmtStatus := true, fmtBegin := s.n, str }
  else if s.fmtStatus && c == 125 then
    (substr pattern (s.fmtBegin + 1) (s.n - s.fmtBegin - 1)).map fun fmt => .inl { s with n := s.n + 1, fmtStatus := false, fmt }
  else (s.advance pattern i).map .inr

/-- `while(n < m_pattern.size())`. `none` is an access outside of the pattern, or no end. -/
def loop (pattern : List UInt8) (i : Nat) : Nat → ItemScan → Option ItemScan
  | 0, _ => none
  | fuel + 1, s =>
    if s.n < pattern.length then
      match pattern[s.n]? with
      | none => none
      | some c =>
        match s.turn pattern i c with
        | none => none
        | some (.inl s') => some s'
        | some (.inr s') => loop pattern i fuel s'
    else some s

end ItemScan

namespace Scan

/-- Text that is waiting becomes an element of its own. -/
def flush (s : Scan) : Scan := if s.nstr = [] then s else { s with nstr := [], vec := s.vec ++ [⟨s.nstr,[],0⟩] }

/-- The end of the outer loop's body: the new element, and the index from which `++i` goes on. -/
def addItem (i : Nat) (item : ItemScan) (s : Scan) : Nat × Scan :=
  if item.fmtStatus then (i,{ s with error := true, vec := s.vec ++ [⟨bytes "<<pattern_error>>",item.fmt,0⟩] })
  else (item.n - 1,{ s.flush with vec := s.flush.vec ++ [⟨item.str,item.fmt,1⟩] })

/-- A turn of the outer loop at the index `i`, up to the `++i`. -/
def turn (pattern : List UInt8) (i : Nat) (s : Scan) : Option (Nat × Scan) :=
  match pattern[i]? with
  | none => none
  | some c =>
    if c ≠ 37 then some (i,{ s with nstr := s.nstr ++ [c] })
    else if pattern[i + 1]? = some 37 then some (i,{ s with nstr := s.nstr ++ [37] })
    else (ItemScan.loop pattern i (pattern.length + 1) ⟨i + 1,false,0,[],[]⟩).map fun item => s.addItem i item

/-- `for(size_t i = 0; i < m_pattern.size(); ++i)`. -/
def loop (pattern : List UInt8) : Nat → Nat → Scan → Option Scan
  | 0, _, _ => none
  | fuel + 1, i, s =>
    if i < pattern.length then
      match s.turn pattern i with
      | none => none
      | some (i',s') => loop pattern fuel (i' + 1) s'
    else some s

end Scan

/-- What a formatter is made of, by the classes of the source. -/
inductive FormatItem where
  | message | level | elapse | name | threadId | newLine
  | dateTime (format : List UInt8)
  | filename | line | tab | fiberId | threadName
  | string (str : List UInt8)
  deriving DecidableEq

def FormatItem.mkDateTime (format : List UInt8) : FormatItem := .dateTime (if format = [] then bytes "%Y-%m-%d %H:%M:%S" else format)

/-- `s_format_items`. -/
def formatItems : List (List UInt8 × (List UInt8 → FormatItem)) :=
  [(bytes "m",fun _ => .message),(bytes "p",fun _ => .level),(bytes "r",fun _ => .elapse),(bytes "c",fun _ => .name),
   (bytes "t",fun _ => .threadId),(bytes "n",fun _ => .newLine),(bytes "d",.mkDateTime),(bytes "f",fun _ => .filename),
   (bytes "l",fun _ => .line),(bytes "T",fun _ => .tab),(bytes "F",fun _ => .fiberId),(bytes "N",fun _ => .threadName)]

/-- The item of a piece, and whether it is an error. -/
def Piece.item (p : Piece) : FormatItem × Bool :=
  if p.type = 0 then (.string p.str,false)
  else
    match formatItems.lookup p.str with
    | none => (.string (bytes "<<error_format %" ++ p.str ++ bytes ">>"),true)
    | some make => (make p.fmt,false)

/-- The pieces of a pattern with `m_error` as the scan leaves it. -/
def scan (pattern : List UInt8) : Option Scan := (Scan.loop pattern (pattern.length + 1) 0 ⟨[],[],false⟩).map Scan.flush

/-- `LogFormatter::init`: `m_items` and `m_error`. -/
def init (pattern : List UInt8) : Option (List FormatItem × Bool) :=
  (scan pattern).map fun s => (s.vec.map fun p => p.item.1,s.error || s.vec.any fun p => p.item.2)

theorem substr_within {s : List UInt8} {pos len : Nat} (h : pos ≤ s.length) : substr s pos len = some ((s.drop pos).take len) := by
  rw [substr, if_pos h]

/-- The inner loop at a place behind the `%`, with the opening brace before it if there is one. -/
structure ItemScan.Within (pattern : List UInt8) (i : Nat) (s : ItemScan) : Prop where
  after : i < s.n
  inside : s.n ≤ pattern.length
  brace : s.fmtStatus = true → s.fmtBegin < s.n

variable {pattern : List UInt8} {i : Nat}

theorem ItemScan.advance_within {s : ItemScan} (h : s.Within pattern i) (hn : s.n < pattern.length) :
    ∃ s', s.advance pattern i = some s' ∧ s'.Within pattern i ∧ s'.n = s.n + 1 := by
  rw [advance]
  split
  · rw [substr_within (Nat.le_of_lt (Nat.lt_of_le_of_lt h.after hn))]
    exact ⟨_,rfl,⟨Nat.lt_succ_of_lt h.after,hn,fun hs => Nat.lt_succ_of_lt (h.brace hs)⟩,rfl⟩
  · exact ⟨_,rfl,⟨Nat.lt_succ_of_lt h.after,hn,fun hs => Nat.lt_succ_of_lt (h.brace hs)⟩,rfl⟩

/-- No turn of the inner loop leaves the pattern, and one that does not end the loop goes one character on. -/
theorem ItemScan.turn_within {s : ItemScan} (c : UInt8) (h : s.Within pattern i) (hn : s.n < pattern.length) :
    (∃ s', s.turn pattern i c = some (.inl s') ∧ s'.Within pattern i) ∨
      ∃ s', s.turn pattern i c = some (.inr s') ∧ s'.Within pattern i ∧ s'.n = s.n + 1 := by
  have hi : i + 1 ≤ pattern.length := Nat.le_of_lt (Nat.lt_of_le_of_lt h.after hn)
  rw [turn]
  split
  · rw [substr_within hi]
    exact .inl ⟨_,rfl,h.after,h.inside,h.brace⟩
  · split
    · rw [substr_within hi]
      exact .inr ⟨_,rfl,⟨Nat.lt_succ_of_lt h.after,hn,fun _ => Nat.lt_succ_self _⟩,rfl⟩
    · split
      · rename_i hs
        rw [substr_within (Nat.lt_of_lt_of_le (h.brace (Bool.and_eq_true_iff.mp hs).1) h.inside)]
        exact .inl ⟨_,rfl,Nat.lt_succ_of_lt h.after,hn,fun hf => (by cases hf)⟩
      · obtain ⟨s',he,hw,hlen⟩ := advance_within h hn
        rw [he]
        exact .inr ⟨s',rfl,hw,hlen⟩

theorem ItemScan.loop_within {s : ItemScan} (fuel : Nat) (h : s.Within pattern i) (hf : pattern.length < fuel + s.n) :
    ∃ s', loop pattern i fuel s = some s' ∧ s'.Within pattern i := by
  induction fuel generalizing s with
  | zero => exact absurd (Nat.lt_of_lt_of_le hf (Nat.zero_add _ ▸ h.inside)) (Nat.lt_irrefl _)
  | succ fuel ih =>
    rw [loop]
    split
    · rename_i hn
      rw [List.getElem?_eq_getElem hn]
      obtain ⟨s',he,hw⟩ | ⟨s',he,hw,hlen⟩ := turn_within pattern[s.n] h hn
      · simp only [he]
        exact ⟨s',rfl,hw⟩
      · simp only [he]
        exact ih hw (by omega)
    · exact ⟨s,rfl,h⟩

theorem Scan.addItem_index {item : ItemScan} (s : Scan) (h : item.Within pattern i) :
    i ≤ (s.addItem i item).1 ∧ (s.addItem i item).1 < pattern.length ∨ (s.addItem i item).1 = i := by
  rw [addItem]
  split
  · exact .inr rfl
  · have := h.after
    have := h.inside
    exact .inl ⟨by omega,by omega⟩

/-- A turn of the outer loop does not leave the pattern and does not go back. -/
theorem Scan.turn_within (s : Scan) (h : i < pattern.length) :
    ∃ i' s', s.turn pattern i = some (i',s') ∧ i ≤ i' ∧ i' < pattern.length := by
  rw [turn, List.getElem?_eq_getElem h]
  simp only []
  split
  · exact ⟨i,_,rfl,Nat.le_refl _,h⟩
  · split
    · exact ⟨i,_,rfl,Nat.le_refl _,h⟩
    · obtain ⟨item,he,hw⟩ := ItemScan.loop_within (s := ⟨i + 1,false,0,[],[]⟩) (pattern.length + 1)
        ⟨Nat.lt_succ_self i,h,fun hs => (by cases hs)⟩ (by omega)
      rw [he]
      obtain ⟨h₁,h₂⟩ | h₁ := addItem_index s hw
      · exact ⟨_,_,rfl,h₁,h₂⟩
      · exact ⟨_,_,rfl,h₁.symm ▸ Nat.le_refl i,h₁.symm ▸ h⟩

theorem Scan.loop_total {fuel : Nat} (s : Scan) (hi : i ≤ pattern.length) (h : pattern.length < fuel + i) :
    ∃ s', loop pattern fuel i s = some s' := by
  induction fuel generalizing i s with
  | zero => omega
  | succ fuel ih =>
    rw [loop]
    split
    · rename_i hlt
      obtain ⟨i',s',he,hge,hlt'⟩ := turn_within s hlt
      rw [he]
      exact ih s' hlt' (by omega)
    · exact ⟨s,rfl⟩

/-- Every pattern is scanned to its end. -/
theorem init_isSome (pattern : List UInt8) : (init pattern).isSome = true := by
  obtain ⟨s,he⟩ := Scan.loop_total ⟨[],[],false⟩ (Nat.zero_le pattern.length) (Nat.lt_succ_self _)
  rw [init, scan, he]
  rfl

/-- A `LogFormatter`, which does not change after its constructor. -/
structure LogFormatter where
  pattern : List UInt8
  items : List FormatItem
  isError : Bool
  deriving DecidableEq

/-- The constructor. -/
def LogFormatter.make (pattern : List UInt8) : LogFormatter :=
  let r := (init pattern).get (init_isSome pattern)
  ⟨pattern,r.1,r.2⟩

example : (LogFormatter.make (bytes "%d\x7b%H:%M\x7d%T[%p] %m%n")).items =
    [.dateTime (bytes "%H:%M"),.tab,.string (bytes "["),.level,.string (bytes "] "),.message,.newLine] := by decide +kernel

example : (LogFormatter.make (bytes "%d\x7b%H")).isError = true := by decide +kernel

end Radixun.Common.Log
