import Mathlib.Data.List.Basic
import Mathlib.Tactic.Ring

/-! Numbers as byte strings of a fixed length, least significant byte first. -/
namespace Radixun.Foundation.ByteCodec

def leBytes : Nat → Nat → List UInt8
  | 0, _ => []
  | k + 1, v => .ofNat v :: leBytes k (v / 256)

def leValue : List UInt8 → Nat
  | [] => 0
  | b :: bs => b.toNat + 256 * leValue bs

@[simp] theorem leBytes_length (k v : Nat) : (leBytes k v).length = k := by
  induction k generalizing v with
  | zero => rfl
  | succ k ih => rw [leBytes, List.length_cons, ih]

theorem leValue_lt (bs : List UInt8) : leValue bs < 256 ^ bs.length := by
  induction bs with
  | nil => exact Nat.one_pos
  | cons b bs ih =>
    have hb := b.toNat_lt
    rw [leValue, List.length_cons, Nat.pow_succ]
    omega

theorem leValue_leBytes (k v : Nat) : leValue (leBytes k v) = v % 256 ^ k := by
  induction k generalizing v with
  | zero => rw [leBytes, leValue, Nat.pow_zero, Nat.mod_one]
  | succ k ih =>
    rw [leBytes, leValue, ih, UInt8.toNat_ofNat', show 256 ^ (k + 1) = 256 * 256 ^ k from Nat.pow_succ']
    exact Nat.mod_mul.symm

theorem leBytes_leValue (bs : List UInt8) : leBytes bs.length (leValue bs) = bs := by
  induction bs with
  | nil => rfl
  | cons b bs ih =>
    have hb := b.toNat_lt
    have hd : (b.toNat + 256 * leValue bs) / 256 = leValue bs := by omega
    rw [List.length_cons, leBytes, leValue, hd, ih]
    congr 1
    apply UInt8.toNat_inj.mp
    rw [UInt8.toNat_ofNat']
    omega

/-- The bits of a number are those of its bytes, one byte after the other. -/
theorem testBit_leValue (bs : List UInt8) (i : Nat) :
    (leValue bs).testBit i = (bs.getD (i / 8) 0).toNat.testBit (i % 8) := by
  induction bs generalizing i with
  | nil => simp [leValue]
  | cons b bs ih =>
    have hvalue : leValue (b :: bs) = 2^8 * leValue bs + b.toNat := by rw [leValue]; omega
    rw [hvalue, Nat.testBit_two_pow_mul_add _ b.toNat_lt]
    by_cases hi : i < 8
    · rw [if_pos hi, Nat.div_eq_of_lt hi, Nat.mod_eq_of_lt hi, List.getD_cons_zero]
    · have hdiv : i / 8 = (i - 8) / 8 + 1 := by omega
      have hmod : i % 8 = (i - 8) % 8 := by omega
      rw [if_neg hi, ih, hdiv, hmod, List.getD_cons_succ]

theorem getD_leBytes {k i : Nat} (h : i < k) (v : Nat) : (leBytes k v).getD i 0 = .ofNat (v / 256 ^ i) := by
  induction k generalizing i v with
  | zero => exact absurd h (Nat.not_lt_zero i)
  | succ k ih =>
    rw [leBytes]
    cases i with
    | zero => rw [List.getD_cons_zero, Nat.pow_zero, Nat.div_one]
    | succ i => rw [List.getD_cons_succ, ih (Nat.lt_of_succ_lt_succ h), Nat.div_div_eq_div_mul, Nat.pow_succ']

end Radixun.Foundation.ByteCodec
