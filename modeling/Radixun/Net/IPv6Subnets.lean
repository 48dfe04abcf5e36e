import Radixun.Net.IPv4Subnets

/-! Subnets of an `IPv6Address`, byte by byte, and the prefix lengths both kinds of address take. -/
namespace Radixun.Net
open Radixun.Common

/-- `s6_addr`. -/
abbrev In6Addr := Vector (BitVec 8) 16

/-- The `sockaddr_in6` of the object. -/
structure IPv6Address where
  family : Int
  port : BitVec 16
  flowinfo : BitVec 32
  addr : In6Addr
  scopeId : BitVec 32
  deriving DecidableEq

/-- `s6_addr[i] = f(s6_addr[i])`. -/
def modifyByte (addr : In6Addr) (i : Nat) (f : BitVec 8 → BitVec 8) : Except Undefined In6Addr :=
  if h : i < 16 then .ok (addr.set i (f addr[i])) else .error .index

/-- `s6_addr[i] = x` for `count` indices from `first` on. -/
def fill (x : BitVec 8) : Nat → Nat → In6Addr → Except Undefined In6Addr
  | _, 0, addr => .ok addr
  | first, count + 1, addr => do
    let addr ← modifyByte addr first fun _ => x
    fill x (first + 1) count addr

namespace IPv6Address

def broadcastAddress (a : IPv6Address) (prefixLen : UInt32) : Except Undefined (Option IPv6Address) := do
  let mask ← createMask 8 (prefixLen % 8)
  let addr ← modifyByte a.addr (prefixLen / 8).toNat (· ||| mask)
  let addr ← fill 0xff ((prefixLen / 8).toNat + 1) (16 - ((prefixLen / 8).toNat + 1)) addr
  return some { a with addr := addr }

def networdAddress (a : IPv6Address) (prefixLen : UInt32) : Except Undefined (Option IPv6Address) := do
  let mask ← createMask 8 (prefixLen % 8)
  let addr ← modifyByte a.addr (prefixLen / 8).toNat (· &&& mask)
  let addr ← fill 0x00 ((prefixLen / 8).toNat + 1) (16 - ((prefixLen / 8).toNat + 1)) addr
  return some { a with addr := addr }

def subnetMask (prefixLen : UInt32) : Except Undefined (Option IPv6Address) := do
  let mask ← createMask 8 (prefixLen % 8)
  let addr ← modifyByte (Vector.replicate 16 0) (prefixLen / 8).toNat fun _ => ~~~mask
  let addr ← fill 0xff 0 (prefixLen / 8).toNat addr
  return some ⟨afInet6,0,0,addr,0⟩

end IPv6Address

section
open IPv6Address
variable (a : IPv6Address) (p : PrefixLength 127)

/-- Port, scope and flow of one address are those of another one. -/
def SameExtras (a b : IPv6Address) : Prop := b.port = a.port ∧ b.scopeId = a.scopeId ∧ b.flowinfo = a.flowinfo

/-- The mask has the top bits, and the broadcast address all bits behind them. -/
def Masks6Right : Prop :=
  ∃ m b, subnetMask p.bits = .ok (some m) ∧ broadcastAddress a p.bits = .ok (some b) ∧
    (∀ j (hj : j < 16) k, k < 8 → m.addr[j].getMsbD k = decide (8 * j + k < p.bits.toNat)) ∧
    (∀ j (hj : j < 16), b.addr[j] = a.addr[j] ||| ~~~m.addr[j]) ∧ SameExtras a b

/-- The network address has the bytes of the address under the mask. -/
def Network6Right : Prop :=
  ∃ m n, subnetMask p.bits = .ok (some m) ∧ networdAddress a p.bits = .ok (some n) ∧
    (∀ j (hj : j < 16), n.addr[j] = a.addr[j] &&& m.addr[j]) ∧ SameExtras a n

structure Subnet6Arithmetic : Prop where
  masks : Masks6Right a p
  network : Network6Right a p

end

theorem modifyByte_ok {addr : In6Addr} {i : Nat} (h : i < 16) (f : BitVec 8 → BitVec 8) :
    modifyByte addr i f = .ok (addr.set i (f addr[i])) := dif_pos h

theorem modifyByte_outside {addr : In6Addr} {i : Nat} (h : ¬i < 16) (f : BitVec 8 → BitVec 8) :
    modifyByte addr i f = .error .index := dif_neg h

/-- A loop inside the array stores its byte in the places it goes through. -/
theorem fill_ok {x : BitVec 8} {first count : Nat} {addr : In6Addr} (h : first + count ≤ 16) :
    ∃ out, fill x first count addr = .ok out ∧
      ∀ j (hj : j < 16), out[j] = if first ≤ j ∧ j < first + count then x else addr[j] := by
  induction count generalizing first addr with
  | zero =>
    refine ⟨addr,rfl,?_⟩
    intro j hj
    exact (if_neg (by omega)).symm
  | succ count ih =>
    have hfirst : first < 16 := by omega
    obtain ⟨out,hout,hbytes⟩ := @ih (first + 1) (addr.set first x) (by omega)
    refine ⟨out,?_,?_⟩
    · rw [fill, modifyByte_ok hfirst]
      exact hout
    · intro j hj
      rw [hbytes j hj, Vector.getElem_set]
      by_cases hj0 : first = j
      · rw [if_neg (by omega), if_pos hj0, if_pos (by omega)]
      · rw [if_neg hj0]
        by_cases hin : first + 1 ≤ j ∧ j < first + 1 + count
        · rw [if_pos hin, if_pos (by omega)]
        · rw [if_neg hin, if_neg (by omega)]

/-- The byte on the boundary changed, and all bytes behind it overwritten. -/
theorem boundary_ok {addr : In6Addr} {i : Nat} (hi : i < 16) (f : BitVec 8 → BitVec 8) (x : BitVec 8) :
    ∃ out, fill x (i + 1) (16 - (i + 1)) (addr.set i (f addr[i])) = .ok out ∧
      ∀ j (hj : j < 16), out[j] = if i < j then x else if j = i then f addr[j] else addr[j] := by
  obtain ⟨out,hout,hbytes⟩ := @fill_ok x (i + 1) (16 - (i + 1)) (addr.set i (f addr[i])) (by omega)
  refine ⟨out,hout,?_⟩
  intro j hj
  rw [hbytes j hj, Vector.getElem_set]
  by_cases hlt : i < j
  · rw [if_pos hlt, if_pos (by omega)]
  · rw [if_neg hlt, if_neg (by omega)]
    by_cases heq : j = i
    · subst heq
      rw [if_pos rfl]
    · rw [if_neg heq, if_neg fun h => heq h.symm]

/-- The mask of the bits behind the prefix in the byte on the boundary. -/
def boundaryMask (p : UInt32) : BitVec 8 := BitVec.ofNat 8 (2^(8 - p.toNat % 8) - 1)

theorem createMask_boundary (p : UInt32) : createMask 8 (p % 8) = .ok (boundaryMask p) := by
  have hbits : (p % 8).toNat = p.toNat % 8 := UInt32.toNat_mod p 8
  have hlow := @createMask_low 8 (p % 8) (by omega) (by omega)
  rw [hlow, hbits]
  rfl

theorem boundary_index (p : UInt32) : (p / 8).toNat = p.toNat / 8 := UInt32.toNat_div p 8

section
open IPv6Address
variable (a : IPv6Address) {p : UInt32}

theorem broadcast6_ok (hp : p.toNat < 128) : ∃ out, broadcastAddress a p = .ok (some { a with addr := out }) ∧
    ∀ j (hj : j < 16), out[j] =
      if p.toNat / 8 < j then 0xff else if j = p.toNat / 8 then a.addr[j] ||| boundaryMask p else a.addr[j] := by
  have hi : p.toNat / 8 < 16 := by omega
  obtain ⟨out,hout,hbytes⟩ := @boundary_ok a.addr _ hi (· ||| boundaryMask p) 0xff
  refine ⟨out,?_,hbytes⟩
  simp only [broadcastAddress, createMask_boundary, boundary_index, bind, Except.bind, modifyByte_ok hi, hout]
  rfl

theorem network6_ok (hp : p.toNat < 128) : ∃ out, networdAddress a p = .ok (some { a with addr := out }) ∧
    ∀ j (hj : j < 16), out[j] =
      if p.toNat / 8 < j then 0x00 else if j = p.toNat / 8 then a.addr[j] &&& boundaryMask p else a.addr[j] := by
  have hi : p.toNat / 8 < 16 := by omega
  obtain ⟨out,hout,hbytes⟩ := @boundary_ok a.addr _ hi (· &&& boundaryMask p) 0x00
  refine ⟨out,?_,hbytes⟩
  simp only [networdAddress, createMask_boundary, boundary_index, bind, Except.bind, modifyByte_ok hi, hout]
  rfl

theorem mask6_ok (hp : p.toNat < 128) : ∃ out, subnetMask p = .ok (some ⟨afInet6,0,0,out,0⟩) ∧
    ∀ j (hj : j < 16), out[j] =
      if j < p.toNat / 8 then 0xff else if j = p.toNat / 8 then ~~~boundaryMask p else 0x00 := by
  have hi : p.toNat / 8 < 16 := by omega
  have hinside : 0 + p.toNat / 8 ≤ 16 := by omega
  obtain ⟨out,hout,hbytes⟩ := @fill_ok 0xff 0 (p.toNat / 8) ((Vector.replicate 16 0).set _ (~~~boundaryMask p) hi) hinside
  refine ⟨out,?_,?_⟩
  · simp only [subnetMask, createMask_boundary, boundary_index, bind, Except.bind, modifyByte_ok hi, hout]
    rfl
  · intro j hj
    rw [hbytes j hj, Vector.getElem_set, Vector.getElem_replicate]
    by_cases hlt : j < p.toNat / 8
    · rw [if_pos hlt, if_pos (by omega)]
    · rw [if_neg hlt, if_neg (by omega)]
      by_cases heq : p.toNat / 8 = j
      · rw [if_pos heq, if_pos heq.symm]
      · rw [if_neg heq, if_neg fun h => heq h.symm]

/-- From 128 bits on the byte on the boundary is not there. -/
theorem outside6 (hp : ¬p.toNat < 128) : broadcastAddress a p = .error .index ∧ networdAddress a p = .error .index ∧
    subnetMask p = .error .index := by
  have hi : ¬p.toNat / 8 < 16 := by omega
  simp only [broadcastAddress, networdAddress, subnetMask, createMask_boundary, boundary_index, bind, Except.bind,
    modifyByte_outside hi, and_self]

end

section
open IPv6Address
variable (a : IPv6Address) (p : PrefixLength 127)

private theorem ones_bit : ∀ k, k < 8 → (0xff : BitVec 8).getMsbD k = true := by decide

private theorem or_ones (x : BitVec 8) : 0xff = x ||| ~~~0x00 := (BitVec.or_allOnes ..).symm

private theorem and_ones (x : BitVec 8) : x = x &&& 0xff := (BitVec.and_allOnes ..).symm

theorem masks6_right : Masks6Right a p := by
  have hp : p.bits.toNat < 128 := Nat.lt_succ_of_le p.inRange
  obtain ⟨m,hm,hmask⟩ := mask6_ok hp
  obtain ⟨b,hb,hbytes⟩ := broadcast6_ok a hp
  refine ⟨_,_,hm,hb,?_,?_,rfl,rfl,rfl⟩
  · intro j hj k hk
    dsimp only
    rw [hmask j hj]
    by_cases hlt : j < p.bits.toNat / 8
    · rw [if_pos hlt, ones_bit k hk]
      exact (decide_eq_true (by omega)).symm
    · rw [if_neg hlt]
      by_cases heq : j = p.bits.toNat / 8
      · rw [if_pos heq, boundaryMask, mask_top hk (by omega), decide_eq_decide]
        omega
      · rw [if_neg heq]
        exact BitVec.getMsbD_zero.trans (decide_eq_false (by omega)).symm
  · intro j hj
    dsimp only
    rw [hmask j hj, hbytes j hj]
    by_cases hlt : p.bits.toNat / 8 < j
    · rw [if_pos hlt, if_neg (by omega), if_neg (by omega)]
      exact or_ones _
    · rw [if_neg hlt]
      by_cases heq : j = p.bits.toNat / 8
      · rw [if_pos heq, if_neg (by omega), if_pos heq, BitVec.not_not]
      · rw [if_neg heq, if_pos (by omega)]
        exact (BitVec.or_zero ..).symm

theorem network6_right_iff : Network6Right a p ↔ a.addr[p.bits.toNat / 8]? = some 0 := by
  have hp : p.bits.toNat < 128 := Nat.lt_succ_of_le p.inRange
  have hi : p.bits.toNat / 8 < 16 := by omega
  obtain ⟨m,hm,hmask⟩ := mask6_ok hp
  obtain ⟨n,hn,hbytes⟩ := network6_ok a hp
  rw [Vector.getElem?_eq_getElem hi, Option.some.injEq]
  constructor
  · rintro ⟨m',n',hm',hn',hand,_⟩
    rw [hm] at hm'
    rw [hn] at hn'
    cases hm'
    cases hn'
    have hbyte := hand _ hi
    dsimp only at hbyte
    rw [hmask _ hi, hbytes _ hi, if_neg (Nat.lt_irrefl _), if_pos rfl, if_neg (Nat.lt_irrefl _), if_pos rfl] at hbyte
    exact (and_not_eq_iff _ _).mp hbyte
  · intro hzero
    refine ⟨_,_,hm,hn,?_,rfl,rfl,rfl⟩
    intro j hj
    dsimp only
    rw [hmask j hj, hbytes j hj]
    by_cases hlt : p.bits.toNat / 8 < j
    · rw [if_pos hlt, if_neg (by omega), if_neg (by omega)]
      exact (BitVec.and_zero ..).symm
    · rw [if_neg hlt]
      by_cases heq : j = p.bits.toNat / 8
      · subst heq
        rw [if_pos rfl, if_neg (Nat.lt_irrefl _), if_pos rfl, and_not_eq_iff]
        exact hzero
      · rw [if_neg heq, if_pos (by omega)]
        exact and_ones _

/-- Mask and broadcast address are right for every length; the network address takes the byte on the boundary
under the host mask, so that all is right where this byte is zero. -/
theorem subnet6_arithmetic_iff : Masks6Right a p ∧
    (Subnet6Arithmetic a p ↔ a.addr[p.bits.toNat / 8]? = some 0) := by
  refine ⟨masks6_right a p,?_⟩
  rw [← network6_right_iff a p]
  constructor
  · intro h
    exact h.network
  · intro h
    exact ⟨masks6_right a p,h⟩

end

/-- Of an address with interface bits in the byte behind the prefix. -/
theorem boundary_byte_kept :
    ¬Subnet6Arithmetic ⟨afInet6,0,0,#v[0xfe,0x80,0,0,0,0,0,0,2,0x15,0x5d,0xff,0xfe,0x20,0xe2,0x6a],0⟩ ⟨64,by decide⟩ := by
  intro h
  have hzero := (network6_right_iff _ _).mp h.network
  exact absurd hzero (by decide)

/-- The functions that take a prefix length. -/
inductive SubnetFunction where
  | broadcast4 | network4 | mask4
  | broadcast6 | network6 | mask6
  deriving DecidableEq, Repr

namespace SubnetFunction

/-- Whether a call returns an address rather than a null pointer. -/
def call (host : Endian) (a : IPv4Address) (b : IPv6Address) (p : UInt32) : SubnetFunction → Except Undefined Bool
  | broadcast4 => (a.broadcastAddress host p).map Option.isSome
  | network4 => (a.networdAddress host p).map Option.isSome
  | mask4 => (IPv4Address.subnetMask host p).map Option.isSome
  | broadcast6 => (b.broadcastAddress p).map Option.isSome
  | network6 => (b.networdAddress p).map Option.isSome
  | mask6 => (IPv6Address.subnetMask p).map Option.isSome

/-- The longest prefix of the kind of address. -/
def longest : SubnetFunction → Nat
  | broadcast4 | network4 | mask4 => 32
  | broadcast6 | network6 | mask6 => 128

/-- The lengths a function takes as it should. -/
def Takes (p : Nat) : SubnetFunction → Prop
  | broadcast4 | network4 => p ≠ 0
  | mask4 => 1 ≤ p ∧ p ≤ 32
  | broadcast6 | network6 | mask6 => p < 128

/-- The call stays inside the array and shifts by less than the width, and full-length prefixes are accepted. -/
structure StaysInRange (host : Endian) (a : IPv4Address) (b : IPv6Address) (p : UInt32) (f : SubnetFunction) : Prop where
  index : f.call host a b p ≠ .error .index
  shift : f.call host a b p ≠ .error .shift
  accepts : p.toNat ≤ f.longest → f.call host a b p ≠ .ok false

variable (host : Endian) (a : IPv4Address) (b : IPv6Address) (p : UInt32)

/-- How a mask is computed, as far as it matters here. -/
theorem createMask_call {r : Except Undefined Bool} (hr : r = (createMask 32 p).map fun _ => true) :
    (1 ≤ p.toNat ∧ p.toNat ≤ 32 ∧ (r = .ok true ∨ r = .error .overflow)) ∨
      (¬(1 ≤ p.toNat ∧ p.toNat ≤ 32) ∧ r = .error .shift) := by
  by_cases hp : 2 ≤ p.toNat ∧ p.toNat ≤ 32
  · rw [createMask_low hp.2 (by omega)] at hr
    exact .inl ⟨by omega,hp.2,.inl hr⟩
  · rw [createMask_undefined hp] at hr
    by_cases hone : p.toNat = 1
    · rw [if_pos hone] at hr
      exact .inl ⟨by omega,by omega,.inr hr⟩
    · rw [if_neg hone] at hr
      exact .inr ⟨by omega,hr⟩

theorem checked_call : broadcast4.call host a b p = network4.call host a b p ∧
    network4.call host a b p = if 32 < p.toNat then .ok false else (createMask 32 p).map fun _ => true := by
  simp only [call, IPv4Address.broadcastAddress, IPv4Address.networdAddress]
  split
  · exact ⟨rfl,rfl⟩
  · cases createMask 32 p <;> exact ⟨rfl,rfl⟩

theorem mask4_call : mask4.call host a b p = (createMask 32 p).map fun _ => true := by
  simp only [call, IPv4Address.subnetMask]
  cases createMask 32 p <;> rfl

/-- A result that is an address or an overflow violates nothing. -/
theorem inRange_of_result {r : Except Undefined Bool} (hr : r = .ok true ∨ r = .error .overflow) :
    r ≠ .error .index ∧ r ≠ .error .shift ∧ r ≠ .ok false := by
  rcases hr with rfl | rfl <;> decide

theorem checked_in_range {f : SubnetFunction} (hlongest : f.longest = 32)
    (hcall : f.call host a b p = if 32 < p.toNat then .ok false else (createMask 32 p).map fun _ => true) :
    f.StaysInRange host a b p ↔ p.toNat ≠ 0 := by
  by_cases hp : 32 < p.toNat
  · rw [if_pos hp] at hcall
    refine iff_of_true ⟨?_,?_,?_⟩ (by omega)
    · rw [hcall]
      decide
    · rw [hcall]
      decide
    · intro hle
      omega
  · rw [if_neg hp] at hcall
    obtain ⟨hlo,_,hr⟩ | ⟨hout,hr⟩ := createMask_call p hcall
    · obtain ⟨hindex,hshift,hnull⟩ := inRange_of_result hr
      exact iff_of_true ⟨hindex,hshift,fun _ => hnull⟩ (by omega)
    · refine iff_of_false ?_ (by omega)
      intro h
      exact h.shift hr

theorem mask4_in_range : mask4.StaysInRange host a b p ↔ 1 ≤ p.toNat ∧ p.toNat ≤ 32 := by
  obtain ⟨hlo,hhi,hr⟩ | ⟨hout,hr⟩ := createMask_call p (mask4_call host a b p)
  · obtain ⟨hindex,hshift,hnull⟩ := inRange_of_result hr
    exact iff_of_true ⟨hindex,hshift,fun _ => hnull⟩ ⟨hlo,hhi⟩
  · refine iff_of_false ?_ hout
    intro h
    exact h.shift hr

/-- The functions of an `IPv6Address` do not check the length. -/
theorem unchecked_in_range {f : SubnetFunction} (hinside : p.toNat < 128 → f.call host a b p = .ok true)
    (houtside : ¬p.toNat < 128 → f.call host a b p = .error .index) : f.StaysInRange host a b p ↔ p.toNat < 128 := by
  by_cases hp : p.toNat < 128
  · obtain ⟨hindex,hshift,hnull⟩ := inRange_of_result (.inl (hinside hp))
    exact iff_of_true ⟨hindex,hshift,fun _ => hnull⟩ hp
  · refine iff_of_false ?_ hp
    intro h
    exact h.index (houtside hp)

/-- The lengths for which each function stays in range and accepts what it should. -/
theorem stays_in_range_iff (f : SubnetFunction) : f.StaysInRange host a b p ↔ f.Takes p.toNat := by
  obtain ⟨hsame,hchecked⟩ := checked_call host a b p
  cases f with
  | broadcast4 => exact checked_in_range host a b p rfl (hsame.trans hchecked)
  | network4 => exact checked_in_range host a b p rfl hchecked
  | mask4 => exact mask4_in_range host a b p
  | broadcast6 =>
    apply unchecked_in_range
    · intro hp
      obtain ⟨out,hout,_⟩ := broadcast6_ok b hp
      exact congrArg (·.map Option.isSome) hout
    · intro hp
      exact congrArg (·.map Option.isSome) (outside6 b hp).1
  | network6 =>
    apply unchecked_in_range
    · intro hp
      obtain ⟨out,hout,_⟩ := network6_ok b hp
      exact congrArg (·.map Option.isSome) hout
    · intro hp
      exact congrArg (·.map Option.isSome) (outside6 b hp).2.1
  | mask6 =>
    apply unchecked_in_range
    · intro hp
      obtain ⟨out,hout,_⟩ := mask6_ok hp
      exact congrArg (·.map Option.isSome) hout
    · intro hp
      exact congrArg (·.map Option.isSome) (outside6 b hp).2.2

/-- A full-length prefix reaches behind `s6_addr`, and shifts by 32 and more are made. -/
theorem lengths_out_of_range :
    ¬broadcast6.StaysInRange .little ⟨afInet,0,0⟩ ⟨afInet6,0,0,Vector.replicate 16 0,0⟩ 128 ∧
      ¬network4.StaysInRange .little ⟨afInet,0,0⟩ ⟨afInet6,0,0,Vector.replicate 16 0,0⟩ 0 ∧
      ¬mask4.StaysInRange .little ⟨afInet,0,0⟩ ⟨afInet6,0,0,Vector.replicate 16 0,0⟩ 33 := by
  refine ⟨?_,?_,?_⟩
  · intro h
    exact h.index rfl
  · intro h
    exact h.shift rfl
  · intro h
    exact h.shift rfl

end SubnetFunction

end Radixun.Net
