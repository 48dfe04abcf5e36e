import Mathlib.Algebra.Group.Int.Defs
import Radixun.Common.ByteArrayCodec
import Radixun.Net.SocketAddresses

/-! Subnets of an `IPv4Address`: the mask of a prefix length, and the address combined with it. -/
namespace Radixun.Net
open Radixun.Common

/-- Evaluations the language leaves undefined: a shift by the width of `int` or more, a signed overflow, an
access outside `s6_addr`. -/
inductive Undefined where
  | shift
  | overflow
  | index
  deriving DecidableEq, Repr

/-- `(1 << (sizeof(T) * 8 - bits)) - 1`: the amount is a `size_t`, the rest an `int`, the result of `w` bits. -/
def createMask (w : Nat) (bits : UInt32) : Except Undefined (BitVec w) :=
  let amount := (((w : Int) - bits.toNat) % 2^64).toNat
  if 32 ≤ amount then .error .shift
  else
    let one : Int := ((2^amount : Nat) : Int).bmod (2^32)
    if one - 1 < -2^31 then .error .overflow else .ok (BitVec.ofInt w (one - 1))

def byteswapOnLittleEndian {w : Nat} (host : Endian) (t : BitVec w) : BitVec w :=
  match host with
  | .little => byteswap t
  | .big => t

/-- The `sockaddr_in` of the object; the address is the number the host reads from its bytes. -/
structure IPv4Address where
  family : Int
  port : BitVec 16
  addr : BitVec 32
  deriving DecidableEq, Repr

namespace IPv4Address

/-- A null pointer is `none`. -/
def broadcastAddress (host : Endian) (a : IPv4Address) (prefixLen : UInt32) : Except Undefined (Option IPv4Address) :=
  if 32 < prefixLen.toNat then .ok none
  else (createMask 32 prefixLen).map fun mask => some { a with addr := a.addr ||| byteswapOnLittleEndian host mask }

def networdAddress (host : Endian) (a : IPv4Address) (prefixLen : UInt32) : Except Undefined (Option IPv4Address) :=
  if 32 < prefixLen.toNat then .ok none
  else (createMask 32 prefixLen).map fun mask => some { a with addr := a.addr &&& byteswapOnLittleEndian host mask }

/-- Does not look at the address, and does not check the length. -/
def subnetMask (host : Endian) (prefixLen : UInt32) : Except Undefined (Option IPv4Address) :=
  (createMask 32 prefixLen).map fun mask => some ⟨afInet,0,~~~byteswapOnLittleEndian host mask⟩

/-- The address as a number: its bytes in memory, the first one the most significant. -/
def number (host : Endian) (a : IPv4Address) : BitVec 32 := Endian.big.value 32 (host.bytes a.addr)

end IPv4Address

/-- A prefix length within a bound. -/
structure PrefixLength (max : Nat) where
  bits : UInt32
  inRange : bits.toNat ≤ max

section
open IPv4Address
variable (host : Endian) (a : IPv4Address) (p : PrefixLength 32)

/-- The mask has the top bits, and the broadcast address all bits behind them. -/
def MasksRight : Prop :=
  ∃ m b, subnetMask host p.bits = .ok (some m) ∧ broadcastAddress host a p.bits = .ok (some b) ∧
    (∀ i, i < 32 → (m.number host).getMsbD i = decide (i < p.bits.toNat)) ∧ b.addr = a.addr ||| ~~~m.addr ∧
    a.number host ≤ b.number host ∧ broadcastAddress host b p.bits = .ok (some b) ∧ b.port = a.port

/-- The network address has the bits of the address under the mask. -/
def NetworkRight : Prop :=
  ∃ m n, subnetMask host p.bits = .ok (some m) ∧ networdAddress host a p.bits = .ok (some n) ∧
    n.addr = a.addr &&& m.addr ∧ n.number host ≤ a.number host ∧ networdAddress host n p.bits = .ok (some n) ∧
    n.port = a.port

structure SubnetArithmetic : Prop where
  masks : MasksRight host a p
  network : NetworkRight host a p

end

section
variable {w : Nat}

theorem byteswap_and (hw : 8 ∣ w) (x y : BitVec w) : byteswap (x &&& y) = byteswap x &&& byteswap y := by
  apply BitVec.eq_of_getLsbD_eq
  intro i hi
  rw [BitVec.getLsbD_and, Endian.byteswap_bit hw _ hi, Endian.byteswap_bit hw _ hi, Endian.byteswap_bit hw _ hi,
    BitVec.getLsbD_and]

theorem byteswap_or (hw : 8 ∣ w) (x y : BitVec w) : byteswap (x ||| y) = byteswap x ||| byteswap y := by
  apply BitVec.eq_of_getLsbD_eq
  intro i hi
  rw [BitVec.getLsbD_or, Endian.byteswap_bit hw _ hi, Endian.byteswap_bit hw _ hi, Endian.byteswap_bit hw _ hi,
    BitVec.getLsbD_or]

theorem byteswap_not (hw : 8 ∣ w) (x : BitVec w) : byteswap (~~~x) = ~~~byteswap x := by
  apply BitVec.eq_of_getLsbD_eq
  intro i hi
  have hin : 8 * (w / 8 - 1 - i / 8) + i % 8 < w := by omega
  rw [BitVec.getLsbD_not, Endian.byteswap_bit hw _ hi, Endian.byteswap_bit hw _ hi, BitVec.getLsbD_not,
    decide_eq_true hi, decide_eq_true hin]

theorem byteswap_byteswap (hw : 8 ∣ w) (x : BitVec w) : byteswap (byteswap x) = x := by
  apply BitVec.eq_of_getLsbD_eq
  intro i hi
  have hin : 8 * (w / 8 - 1 - i / 8) + i % 8 < w := by omega
  have hback : 8 * (w / 8 - 1 - (8 * (w / 8 - 1 - i / 8) + i % 8) / 8) + (8 * (w / 8 - 1 - i / 8) + i % 8) % 8 = i := by omega
  rw [Endian.byteswap_bit hw _ hi, Endian.byteswap_bit hw _ hin, hback]

end

theorem number_eq (host : Endian) (a : IPv4Address) : a.number host = byteswapOnLittleEndian host a.addr := by
  have hw : 8 ∣ 32 := by decide
  have hvalue := Endian.value_host hw host .big (Endian.bytes_length host a.addr)
  rw [IPv4Address.number, ← hvalue, Endian.value_bytes hw]
  cases host <;> rfl

section
variable (host : Endian) (x y : BitVec 32)

theorem swap_and : byteswapOnLittleEndian host (x &&& y) = byteswapOnLittleEndian host x &&& byteswapOnLittleEndian host y := by
  cases host with
  | little => exact byteswap_and (by decide) x y
  | big => rfl

theorem swap_or : byteswapOnLittleEndian host (x ||| y) = byteswapOnLittleEndian host x ||| byteswapOnLittleEndian host y := by
  cases host with
  | little => exact byteswap_or (by decide) x y
  | big => rfl

theorem swap_not : byteswapOnLittleEndian host (~~~x) = ~~~byteswapOnLittleEndian host x := by
  cases host with
  | little => exact byteswap_not (by decide) x
  | big => rfl

theorem swap_swap : byteswapOnLittleEndian host (byteswapOnLittleEndian host x) = x := by
  cases host with
  | little => exact byteswap_byteswap (by decide) x
  | big => rfl

end

/-- For up to 30 low bits the mask is made of these bits. -/
theorem createMask_low {w : Nat} {bits : UInt32} (hw : bits.toNat ≤ w) (h : w - bits.toNat ≤ 30) :
    createMask w bits = .ok (BitVec.ofNat w (2^(w - bits.toNat) - 1)) := by
  have hamount : (((w : Int) - bits.toNat) % 2^64).toNat = w - bits.toNat := by omega
  have hpos : 0 < 2^(w - bits.toNat) := Nat.two_pow_pos _
  have hle : 2^(w - bits.toNat) ≤ 2^30 := Nat.pow_le_pow_right (by omega) h
  have hone : ((2^(w - bits.toNat) : Nat) : Int).bmod (2^32) = (2^(w - bits.toNat) : Nat) := by
    apply Int.bmod_eq_of_le <;> omega
  have hcast : (((2^(w - bits.toNat) : Nat) : Int) - 1) = ((2^(w - bits.toNat) - 1 : Nat) : Int) := by omega
  unfold createMask
  simp only [hamount, hone]
  rw [if_neg (by omega), if_neg (by omega), hcast, BitVec.ofInt_natCast]

/-- With no bits the shift is by the width of `int`, and with one bit the subtraction overflows. -/
theorem createMask_undefined {bits : UInt32} (h : ¬(2 ≤ bits.toNat ∧ bits.toNat ≤ 32)) :
    createMask 32 bits = .error (if bits.toNat = 1 then .overflow else .shift) := by
  by_cases hone : bits.toNat = 1
  · have hamount : (((32 : Nat) : Int) - bits.toNat) % 2^64 = 31 := by omega
    unfold createMask
    rw [hamount, if_pos hone]
    decide
  · have hamount : 32 ≤ ((((32 : Nat) : Int) - bits.toNat) % 2^64).toNat := by
      have := bits.toNat_lt
      omega
    unfold createMask
    rw [if_neg hone]
    exact if_pos hamount

/-- The top bits are those the mask leaves out. -/
theorem mask_top {w n i : Nat} (hi : i < w) (hn : n ≤ w) :
    (~~~BitVec.ofNat w (2^(w - n) - 1)).getMsbD i = decide (i < n) := by
  have hj : w - 1 - i < w := by omega
  rw [BitVec.getMsbD_eq_getLsbD, decide_eq_true hi, Bool.true_and, BitVec.getLsbD_not, decide_eq_true hj, Bool.true_and,
    BitVec.getLsbD_ofNat, decide_eq_true hj, Bool.true_and, Nat.testBit_two_pow_sub_one, Bool.eq_iff_iff]
  simp only [Bool.not_eq_true', decide_eq_false_iff_not, decide_eq_true_eq]
  omega

/-- The bits on both sides of a mask are the same only where there are none. -/
theorem and_not_eq_iff {w : Nat} (x y : BitVec w) : x &&& y = x &&& ~~~y ↔ x = 0 := by
  constructor
  · intro h
    apply BitVec.eq_of_getLsbD_eq
    intro i hi
    have hbit := congrArg (fun z => z.getLsbD i) h
    simp only [BitVec.getLsbD_and, BitVec.getLsbD_not, hi, decide_true, Bool.true_and] at hbit
    change x.getLsbD i = (0#w).getLsbD i
    rw [BitVec.getLsbD_zero]
    cases hx : x.getLsbD i with
    | false => rfl
    | true => cases hy : y.getLsbD i <;> simp [hx, hy] at hbit
  · rintro rfl
    simp

section
open IPv4Address
variable (host : Endian) (a : IPv4Address) (p : PrefixLength 32)

/-- The mask of the bits behind the prefix. -/
def hostMask (p : PrefixLength 32) : BitVec 32 := BitVec.ofNat 32 (2^(32 - p.bits.toNat) - 1)

/-- What the three functions return from two bits on. -/
theorem subnets_defined (hp : 2 ≤ p.bits.toNat) :
    subnetMask host p.bits = .ok (some ⟨afInet,0,~~~byteswapOnLittleEndian host (hostMask p)⟩) ∧
    (∀ c : IPv4Address, broadcastAddress host c p.bits =
      .ok (some { c with addr := c.addr ||| byteswapOnLittleEndian host (hostMask p) })) ∧
    ∀ c : IPv4Address, networdAddress host c p.bits =
      .ok (some { c with addr := c.addr &&& byteswapOnLittleEndian host (hostMask p) }) := by
  have hrange := p.inRange
  have hmask : createMask 32 p.bits = .ok (hostMask p) := createMask_low p.inRange (by omega)
  refine ⟨?_,?_,?_⟩
  · rw [subnetMask, hmask]
    rfl
  · intro c
    rw [broadcastAddress, if_neg (by omega), hmask]
    rfl
  · intro c
    rw [networdAddress, if_neg (by omega), hmask]
    rfl

theorem subnetMask_undefined (hp : ¬2 ≤ p.bits.toNat) (m : IPv4Address) : subnetMask host p.bits ≠ .ok (some m) := by
  have hout : ¬(2 ≤ p.bits.toNat ∧ p.bits.toNat ≤ 32) := fun h => hp h.1
  rw [subnetMask, createMask_undefined hout]
  intro h
  cases h

theorem masks_right_iff : MasksRight host a p ↔ 2 ≤ p.bits.toNat := by
  constructor
  · rintro ⟨m,_,hm,_⟩
    by_contra hp
    exact subnetMask_undefined host p hp m hm
  · intro hp
    obtain ⟨hm,hb,_⟩ := subnets_defined host p hp
    refine ⟨_,_,hm,hb a,?_,?_,?_,?_,rfl⟩
    · intro i hi
      rw [number_eq, swap_not, swap_swap]
      exact mask_top hi p.inRange
    · exact congrArg (a.addr ||| ·) (BitVec.not_not ..).symm
    · rw [number_eq, number_eq, swap_or, BitVec.le_def, BitVec.toNat_or]
      exact Nat.left_le_or
    · rw [hb, BitVec.or_assoc, BitVec.or_self]

theorem network_right_iff : NetworkRight host a p ↔ 2 ≤ p.bits.toNat ∧ a.addr = 0 := by
  constructor
  · rintro ⟨m,n,hm,hn,haddr,_⟩
    have hp : 2 ≤ p.bits.toNat := by
      by_contra hp
      exact subnetMask_undefined host p hp m hm
    obtain ⟨hm',_,hn'⟩ := subnets_defined host p hp
    rw [hm'] at hm
    rw [hn'] at hn
    cases hm
    cases hn
    exact ⟨hp,(and_not_eq_iff _ _).mp haddr⟩
  · rintro ⟨hp,hzero⟩
    obtain ⟨hm,_,hn⟩ := subnets_defined host p hp
    refine ⟨_,_,hm,hn a,?_,?_,?_,rfl⟩
    · exact (and_not_eq_iff _ _).mpr hzero
    · rw [number_eq, number_eq, swap_and, BitVec.le_def, BitVec.toNat_and]
      exact Nat.and_le_left
    · rw [hn, BitVec.and_assoc, BitVec.and_self]

/-- Mask and broadcast address are right from two bits on; the network address is taken under the host mask,
so that all is right for the zero address only. -/
theorem subnet_arithmetic_iff : (MasksRight host a p ↔ 2 ≤ p.bits.toNat) ∧
    (SubnetArithmetic host a p ↔ 2 ≤ p.bits.toNat ∧ a.addr = 0) := by
  refine ⟨masks_right_iff host a p,?_⟩
  rw [← network_right_iff host a p]
  constructor
  · intro h
    exact h.network
  · intro h
    exact ⟨(masks_right_iff host a p).mpr ((network_right_iff host a p).mp h).1,h⟩

end

/-- 112.80.248.75 in the subnet of 24 bits. -/
theorem host_part_kept : ¬SubnetArithmetic .little ⟨afInet,0x5000,0x4BF85070⟩ ⟨24,by decide⟩ := by
  intro h
  have hzero := ((network_right_iff .little ⟨afInet,0x5000,0x4BF85070⟩ ⟨24,by decide⟩).mp h.network).2
  exact absurd hzero (by decide)

end Radixun.Net
