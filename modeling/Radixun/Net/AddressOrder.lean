import Radixun.Foundation.CString
import Radixun.Net.SocketAddresses

/-! The comparisons of `Address`, which look at the bytes of the socket addresses. -/
namespace Radixun.Net
open Radixun.Foundation CString

/-- All bytes that `getAddrLen()` promises are there. -/
structure ReadableAddress extends Address where
  readable : length ≤ buffer.length

/-- `operator<`. -/
def Address.less (a rhs : Address) : Bool :=
  let minlen := min a.length rhs.length
  let result := memcmp a.buffer rhs.buffer minlen
  if result < 0 then true
  else if 0 < result then false
  else if a.length < rhs.length then true
  else false

/-- `operator==`. -/
def Address.equal (a rhs : Address) : Bool := a.length == rhs.length && memcmp a.buffer rhs.buffer a.length == 0

/-- `operator!=`. -/
def Address.unequal (a rhs : Address) : Bool := !a.equal rhs

def ExactlyOne (p q r : Prop) : Prop := p ∧ ¬q ∧ ¬r ∨ ¬p ∧ q ∧ ¬r ∨ ¬p ∧ ¬q ∧ r

namespace ReadableAddress

/-- Where the address stands in the order. -/
def key (a : ReadableAddress) : List Nat := a.bytes.map UInt8.toNat

theorem bytes_length (a : ReadableAddress) : a.bytes.length = a.length := List.length_take_of_le a.readable

theorem key_inj {a b : ReadableAddress} : a.key = b.key ↔ a.bytes = b.bytes :=
  (List.map_injective_iff.mpr fun _ _ => UInt8.toNat_inj.mp).eq_iff

/-- The comparison within the objects is one of the bytes they stand for. -/
theorem memcmp_bytes (a b : ReadableAddress) {n : Nat} (ha : n ≤ a.length) (hb : n ≤ b.length) :
    memcmp a.buffer b.buffer n = memcmp a.bytes b.bytes n := (memcmp_take a.buffer b.buffer ha hb).symm

theorem less_iff (a b : ReadableAddress) : a.less b.toAddress = true ↔ a.key < b.key := by
  have hmemcmp := memcmp_bytes a b (Nat.min_le_left _ _) (Nat.min_le_right _ _)
  rw [key, key, ← memcmp_lt_iff, bytes_length, bytes_length, ← hmemcmp, Address.less]
  by_cases hneg : memcmp a.buffer b.buffer (min a.length b.length) < 0
  · rw [if_pos hneg]
    exact iff_of_true rfl (.inl hneg)
  rw [if_neg hneg, or_iff_right hneg]
  by_cases hpos : 0 < memcmp a.buffer b.buffer (min a.length b.length)
  · rw [if_pos hpos]
    exact iff_of_false Bool.false_ne_true fun h => Int.ne_of_gt hpos h.1
  have hzero : memcmp a.buffer b.buffer (min a.length b.length) = 0 := by omega
  rw [if_neg hpos, and_iff_right hzero]
  by_cases hlen : a.length < b.length
  · rw [if_pos hlen]
    exact iff_of_true rfl hlen
  · rw [if_neg hlen]
    exact iff_of_false Bool.false_ne_true hlen

theorem equal_iff (a b : ReadableAddress) : a.equal b.toAddress = true ↔ a.bytes = b.bytes := by
  rw [Address.equal, Bool.and_eq_true, beq_iff_eq, beq_iff_eq]
  by_cases hlen : a.length = b.length
  · have hbytes : a.bytes.length = b.bytes.length := by rw [bytes_length, bytes_length, hlen]
    rw [and_iff_right hlen, memcmp_bytes a b (Nat.le_refl _) (Nat.le_of_eq hlen), ← memcmp_eq_zero_iff hbytes, bytes_length]
  · apply iff_of_false fun h => hlen h.1
    intro heq
    apply hlen
    rw [← bytes_length, ← bytes_length, heq]

/-- Addresses may be the keys of a map. -/
instance strictWeak : StrictWeakOrder fun a b : ReadableAddress => a.less b.toAddress := .of_key key less_iff

/-- Such a map has one entry for each address that is different by `operator==`. -/
theorem same_iff_equal (a b : ReadableAddress) :
    OrderedMap.same (fun a b : ReadableAddress => a.less b.toAddress) a b = true ↔ a.equal b.toAddress = true := by
  rw [OrderedMap.same, Bool.and_eq_true, Bool.not_eq_true', Bool.not_eq_true', not_less_iff_of_key key less_iff a b,
    equal_iff, key_inj]

theorem trichotomy (a b : ReadableAddress) :
    ExactlyOne (a.less b.toAddress = true) (b.less a.toAddress = true) (a.equal b.toAddress = true) := by
  rw [less_iff, less_iff, equal_iff, ← key_inj]
  rcases lt_trichotomy a.key b.key with hlt | heq | hgt
  · exact .inl ⟨hlt,lt_asymm hlt,ne_of_lt hlt⟩
  · exact .inr (.inr ⟨not_lt_of_ge (le_of_eq heq.symm),not_lt_of_ge (le_of_eq heq),heq⟩)
  · exact .inr (.inl ⟨lt_asymm hgt,hgt,ne_of_gt hgt⟩)

end ReadableAddress

theorem newAddress_readable (family : Int) : (newAddress family).length ≤ (newAddress family).buffer.length := by
  have hblank (family : Int) {size n : Nat} (h2 : 2 ≤ size) (h : n ≤ size) : n ≤ (blank family size).length := by
    rw [blank_length family h2]
    exact h
  rw [newAddress]
  split
  · exact hblank afInet (by decide) (by decide)
  split
  · exact hblank afInet6 (by decide) (by decide)
  split
  · exact hblank afUnix (by decide) (by decide)
  · exact hblank family (by decide) (Nat.le_refl 16)

/-- What the kernel reports is readable as long as it fits a `sockaddr_un`. -/
theorem readAddress_readable (family : Int) {report : Sockaddr} (h : report.length ≤ 110) :
    (readAddress family report).length ≤ (readAddress family report).buffer.length := by
  have hnew := newAddress_readable family
  simp only [readAddress, List.length_append, List.length_drop, List.length_take]
  split
  · rename_i hunix
    have hbuffer : (newAddress family).buffer.length = 110 := by
      subst hunix
      rfl
    omega
  · omega

/-- A strict total order of the addresses as byte strings, on which the comparisons agree. -/
theorem address_order :
    (∀ a : ReadableAddress, a.less a.toAddress = false) ∧
    (∀ a b c : ReadableAddress, a.less b.toAddress = true → b.less c.toAddress = true → a.less c.toAddress = true) ∧
    (∀ a b : ReadableAddress,
      ExactlyOne (a.less b.toAddress = true) (b.less a.toAddress = true) (a.equal b.toAddress = true)) ∧
    (∀ a b : ReadableAddress, a.equal b.toAddress = true ↔ a.bytes = b.bytes) ∧
    ∀ a b : ReadableAddress, a.unequal b.toAddress = !a.equal b.toAddress := by
  refine ⟨ReadableAddress.strictWeak.not_self,?_,ReadableAddress.trichotomy,ReadableAddress.equal_iff,fun _ _ => rfl⟩
  intro a b c
  exact ReadableAddress.strictWeak.trans

end Radixun.Net
