import Mathlib.Data.Fintype.EquivFin
import Mathlib.Data.Nat.Bitwise
import Mathlib.Data.Nat.Size
import Radixun.Common.ByteArrayTyped

/-! The number encodings without the array: host byte orders, zigzag and the
seven-bit groups. Widths are arbitrary. -/
namespace Radixun.Common
open Foundation.ByteCodec Foundation.ExceptionState
variable {w : Nat}

namespace Endian

theorem bytes_length (order : Endian) (v : BitVec w) : (order.bytes v).length = w / 8 := by
  cases order with
  | little => exact leBytes_length _ _
  | big => rw [Endian.bytes, List.length_reverse, leBytes_length]

private theorem pow_bytes (hw : 8 ∣ w) : 256 ^ (w / 8) = 2 ^ w := by
  obtain ⟨k,rfl⟩ := hw
  rw [Nat.mul_div_cancel_left _ (by omega), Nat.pow_mul]

private theorem leBytes_ofNat (hw : 8 ∣ w) {bs : List UInt8} (hl : bs.length = w / 8) :
    leBytes (w / 8) (BitVec.ofNat w (leValue bs)).toNat = bs := by
  have hlt := leValue_lt bs
  rw [hl, pow_bytes hw] at hlt
  rw [BitVec.toNat_ofNat, Nat.mod_eq_of_lt hlt, ← hl]
  exact leBytes_leValue bs

theorem value_bytes (hw : 8 ∣ w) (order : Endian) (v : BitVec w) : order.value w (order.bytes v) = v := by
  have hv : BitVec.ofNat w (leValue (leBytes (w / 8) v.toNat)) = v := by
    rw [leValue_leBytes, pow_bytes hw, Nat.mod_eq_of_lt v.isLt, BitVec.ofNat_toNat, BitVec.setWidth_eq]
  cases order with
  | little => exact hv
  | big => rw [Endian.bytes, Endian.value, List.reverse_reverse, hv]

/-- Swapping a number reverses its bytes in the memory of any host. -/
theorem bytes_byteswap (hw : 8 ∣ w) (order : Endian) (v : BitVec w) :
    order.bytes (byteswap v) = (order.bytes v).reverse := by
  have hl : leBytes (w / 8) (byteswap v).toNat = (leBytes (w / 8) v.toNat).reverse :=
    leBytes_ofNat hw (bytes_length .big v)
  cases order with
  | little => exact hl
  | big => exact congrArg List.reverse hl

/-- Swapping keeps the bits of each byte together. -/
theorem byteswap_bit (hw : 8 ∣ w) (v : BitVec w) {i : Nat} (hi : i < w) :
    (byteswap v).getLsbD i = v.getLsbD (8 * (w / 8 - 1 - i / 8) + i % 8) := by
  have hbyte : i / 8 < w / 8 := by omega
  have hlength : (leBytes (w / 8) v.toNat).length = w / 8 := leBytes_length _ _
  have hreverse : (leBytes (w / 8) v.toNat).reverse.getD (i / 8) 0 = .ofNat (v.toNat / 256 ^ (w / 8 - 1 - i / 8)) := by
    rw [← getD_leBytes (show w / 8 - 1 - i / 8 < w / 8 by omega), List.getD_eq_getElem?_getD, List.getD_eq_getElem?_getD,
      List.getElem?_reverse (by rw [hlength]; exact hbyte), hlength]
  have hpow : 256 ^ (w / 8 - 1 - i / 8) = 2 ^ (8 * (w / 8 - 1 - i / 8)) := (Nat.pow_mul 2 8 _).symm
  rw [byteswap, Endian.value, Endian.bytes, BitVec.getLsbD_ofNat, testBit_leValue, hreverse, hpow, UInt8.toNat_ofNat',
    Nat.testBit_mod_two_pow, Nat.testBit_div_two_pow, BitVec.getLsbD]
  simp only [hi, Nat.mod_lt i (show 0 < 8 by omega), decide_true, Bool.true_and, Nat.add_comm]

/-- What a fixed-width write puts down is the number in the order of the array, on any host. -/
theorem bytes_host (hw : 8 ∣ w) (host order : Endian) (v : BitVec w) :
    host.bytes (if order ≠ host then byteswap v else v) = order.bytes v := by
  split
  · rename_i hne
    rw [bytes_byteswap hw]
    cases host <;> cases order
    · exact absurd rfl hne
    · rfl
    · exact List.reverse_reverse _
    · exact absurd rfl hne
  · rename_i he
    rw [not_ne_iff.mp he]

theorem value_host (hw : 8 ∣ w) (host order : Endian) {bs : List UInt8} (hl : bs.length = w / 8) :
    (if order = host then host.value w bs else byteswap (host.value w bs)) = order.value w bs := by
  split
  · rename_i he
    rw [he]
  · rename_i hne
    have hr : bs.reverse.length = w / 8 := by rw [List.length_reverse, hl]
    cases host <;> cases order
    · exact absurd rfl hne
    · simp only [byteswap, Endian.value, Endian.bytes, leBytes_ofNat hw hl]
    · simp only [byteswap, Endian.value, Endian.bytes, leBytes_ofNat hw hr, List.reverse_reverse]
    · exact absurd rfl hne

end Endian

private theorem decodeZigzag_even {e : BitVec w} {n : Nat} (hw : 1 < w) (he : e.toNat = 2 * n) :
    decodeZigzag e = .ofNat w n := by
  have hlast : e &&& 1#w = 0#w := by
    apply BitVec.eq_of_toNat_eq
    rw [BitVec.toNat_and, BitVec.toNat_ofNat, Nat.mod_eq_of_lt (Nat.one_lt_two_pow (by omega)), Nat.and_one_is_mod, he,
      BitVec.toNat_zero, Nat.mul_mod_right]
  rw [decodeZigzag, hlast, BitVec.neg_zero, BitVec.xor_zero]
  apply BitVec.eq_of_toNat_eq
  have hlt := e.isLt
  rw [BitVec.toNat_ushiftRight, Nat.shiftRight_eq_div_pow, BitVec.toNat_ofNat, Nat.mod_eq_of_lt (by omega)]
  omega

private theorem decodeZigzag_odd {e : BitVec w} {n : Nat} (hw : 1 < w) (he : e.toNat = 2 * n + 1) :
    decodeZigzag e = ~~~ .ofNat w n := by
  have hlast : e &&& 1#w = 1#w := by
    apply BitVec.eq_of_toNat_eq
    rw [BitVec.toNat_and, BitVec.toNat_ofNat, Nat.mod_eq_of_lt (Nat.one_lt_two_pow (by omega)), Nat.and_one_is_mod, he]
    omega
  rw [decodeZigzag, hlast, BitVec.neg_one_eq_allOnes, BitVec.xor_allOnes]
  congr 1
  apply BitVec.eq_of_toNat_eq
  have hlt := e.isLt
  rw [BitVec.toNat_ushiftRight, Nat.shiftRight_eq_div_pow, BitVec.toNat_ofNat, Nat.mod_eq_of_lt (by omega)]
  omega

/-- Decoding undoes the zigzag encoding, the least number included. -/
theorem decodeZigzag_encodeZigzag (hw : 1 < w) (v : BitVec w) : decodeZigzag (encodeZigzag v) = v := by
  have hv := v.isLt
  have hpow : 2 ^ w = 2 * 2 ^ (w - 1) := by rw [← Nat.pow_succ']; congr 1; omega
  have htwo : (2#w).toNat = 2 := by
    rw [BitVec.toNat_ofNat, Nat.mod_eq_of_lt]
    exact (Nat.pow_lt_pow_right (by omega) hw : 2 ^ 1 < 2 ^ w)
  unfold encodeZigzag
  split
  · rename_i hneg
    have hmsb := BitVec.toInt_neg_iff.mp hneg
    have hm : (-v * 2#w).toNat = (2 * (2 ^ w - v.toNat)) % 2 ^ w := by
      rw [BitVec.toNat_mul, BitVec.toNat_neg, htwo, Nat.mod_eq_of_lt (show 2 ^ w - v.toNat < 2 ^ w by omega), Nat.mul_comm]
    have hone : (1#w).toNat = 1 := by rw [BitVec.toNat_ofNat, Nat.mod_eq_of_lt (by omega)]
    have he : (-v * 2#w - 1#w).toNat = 2 * (2 ^ w - v.toNat - 1) + 1 := by
      rw [BitVec.toNat_sub, hm, hone]
      rcases hmsb.lt_or_eq with hlt | heq
      · -- no overflow
        rw [Nat.mod_eq_of_lt (show 2 * (2 ^ w - v.toNat) < 2 ^ w by omega),
          show 2 ^ w - 1 + 2 * (2 ^ w - v.toNat) = 2 ^ w + (2 * (2 ^ w - v.toNat - 1) + 1) by omega,
          Nat.add_mod_left, Nat.mod_eq_of_lt (by omega)]
      · -- the least number: doubling it overflows to zero
        rw [show 2 * (2 ^ w - v.toNat) = 2 ^ w by omega, Nat.mod_self, Nat.add_zero, Nat.mod_eq_of_lt (by omega)]
        omega
    rw [decodeZigzag_odd hw he]
    apply BitVec.eq_of_toNat_eq
    rw [BitVec.toNat_not, BitVec.toNat_ofNat, Nat.mod_eq_of_lt (by omega)]
    omega
  · rename_i hpos
    have hmsb := mt BitVec.toInt_neg_iff.mpr hpos
    have he : (v * 2#w).toNat = 2 * v.toNat := by
      rw [BitVec.toNat_mul, htwo, Nat.mod_eq_of_lt (by omega), Nat.mul_comm]
    rw [decodeZigzag_even hw he, BitVec.ofNat_toNat, BitVec.setWidth_eq]

theorem decodeZigzag32_encodeZigzag32 (v : Int32) : decodeZigzag32 (encodeZigzag32 v) = v :=
  congrArg Int32.ofBitVec (decodeZigzag_encodeZigzag (by decide) v.toBitVec)

theorem decodeZigzag64_encodeZigzag64 (v : Int64) : decodeZigzag64 (encodeZigzag64 v) = v :=
  congrArg Int64.ofBitVec (decodeZigzag_encodeZigzag (by decide) v.toBitVec)

namespace ByteArray

/-- The seven low bits and the rest of a number make it up again, at any shift. -/
private theorem low_group (hw : 8 ≤ w) (v : BitVec w) (i : Nat) :
    ((((v &&& 0x7F#w) ||| 0x80#w).setWidth 8 &&& 0x7F#8).setWidth w <<< i) ||| ((v >>> 7) <<< (i + 7)) = v <<< i := by
  have h7 : ∀ j, Nat.testBit 127 j = decide (j < 7) := fun j => Nat.testBit_two_pow_sub_one 7 j
  have h8 : ∀ j, Nat.testBit 128 j = decide (7 = j) := fun j => Nat.testBit_two_pow (n := 7) 
  apply BitVec.eq_of_getLsbD_eq
  intro j hj
  simp only [BitVec.getLsbD_or, BitVec.getLsbD_and, BitVec.getLsbD_shiftLeft, BitVec.getLsbD_setWidth, BitVec.getLsbD_ofNat,
    BitVec.getLsbD_ushiftRight, h7, h8]
  rcases Nat.lt_or_ge j (i + 7) with hlt | hge
  · have h8 : ¬ 7 = j - i := by omega
    have h7 : j - i < 7 := by omega
    have hw' : j - i < w := by omega
    simp [hj, hlt, h7, h8, hw', show j - i < 8 by omega]
  · have h7 : ¬ j - i < 7 := by omega
    have hi : 7 + (j - (i + 7)) = j - i := by omega
    simp [hj, h7, hi, show ¬ j < i by omega, show ¬ j < i + 7 by omega]

private theorem group_toNat (hw : 8 ≤ w) (v : BitVec w) : 0x80 ≤ (((v &&& 0x7F#w) ||| 0x80#w).setWidth 8).toNat := by
  have h8 : Nat.testBit 128 7 = true := by decide
  have hbit : (((v &&& 0x7F#w) ||| 0x80#w).setWidth 8).getLsbD 7 = true := by
    simp [BitVec.getLsbD_ofNat, h8, show 7 < w by omega]
  exact Nat.ge_two_pow_of_testBit hbit

/-- A group that has the high bit leaves the rest of the number for the groups behind it. -/
theorem group_more (hw : 8 ≤ w) (v : BitVec w) (i : Nat) (result : BitVec w) :
    let b : UInt8 := ⟨((v &&& 0x7F#w) ||| 0x80#w).setWidth 8⟩
    ¬ b.toNat < 0x80 ∧
      result ||| ((b.toBitVec &&& 0x7F#8).setWidth w <<< i) ||| ((v >>> 7) <<< (i + 7)) = result ||| (v <<< i) := by
  refine ⟨Nat.not_lt.mpr (group_toNat hw v),?_⟩
  rw [BitVec.or_assoc, low_group hw]

/-- A group without it is the number. -/
theorem group_last {v : BitVec w} (hv : v.toNat < 0x80) :
    let b : UInt8 := ⟨v.setWidth 8⟩
    b.toNat < 0x80 ∧ b.toBitVec.setWidth w = v := by
  have hb : (v.setWidth 8).toNat = v.toNat := by rw [BitVec.toNat_setWidth, Nat.mod_eq_of_lt (by omega)]
  refine ⟨hb.trans_lt hv,?_⟩
  apply BitVec.eq_of_toNat_eq
  rw [BitVec.toNat_setWidth, hb, Nat.mod_eq_of_lt v.isLt]

theorem fillTmp_ok (slots : Nat) (v : BitVec w) (hv : v.toNat < 128 ^ (slots + 1)) :
    ∃ tmp, fillTmp (slots + 1) v = .ok tmp := by
  induction slots generalizing v with
  | zero => exact ⟨_,if_neg (by omega)⟩
  | succ slots ih =>
    rw [fillTmp]
    split
    · have hs : (v >>> 7).toNat < 128 ^ (slots + 1) := by
        rw [BitVec.toNat_ushiftRight, Nat.shiftRight_eq_div_pow]
        exact Nat.div_lt_of_lt_mul (by rw [← Nat.pow_succ']; exact hv)
      obtain ⟨tmp,ht⟩ := ih (v >>> 7) hs
      exact ⟨_,by rw [ht, ok_bind]⟩
    · exact ⟨_,rfl⟩

/-- The reading loop over bytes alone: the number and the bytes left, or nothing when they end too soon. -/
def takeGroups : List Nat → BitVec w → List UInt8 → Option (BitVec w × List UInt8)
  | [], result, bytes => some (result,bytes)
  | _ :: _, _, [] => none
  | i :: is, result, b :: bytes =>
    if b.toNat < 0x80 then some (result ||| (b.toBitVec.setWidth w <<< i),bytes)
    else takeGroups is (result ||| ((b.toBitVec &&& 0x7F#8).setWidth w <<< i)) bytes

/-- It takes exactly the groups that the writing loop put down. -/
theorem takeGroups_fillTmp (hw : 8 ≤ w) (slots : Nat) {v : BitVec w} {tmp : List UInt8} (ht : fillTmp slots v = .ok tmp)
    (i n : Nat) (hn : slots ≤ n) (result : BitVec w) (suffix : List UInt8) :
    takeGroups (List.range' i n 7) result (tmp ++ suffix) = some (result ||| (v <<< i),suffix) := by
  induction slots generalizing v tmp i n result with
  | zero => cases ht
  | succ slots ih =>
    obtain ⟨n,rfl⟩ := Nat.exists_eq_add_one.mpr (show 0 < n by omega)
    rw [fillTmp] at ht
    by_cases hv : v.toNat ≥ 0x80
    · rw [if_pos hv] at ht
      cases hf : fillTmp slots (v >>> 7) with
      | error e => rw [hf] at ht; cases ht
      | ok more =>
        rw [hf] at ht
        cases ht
        obtain ⟨hb,hor⟩ := group_more hw v i result
        have hrest := ih hf (i + 7) n (by omega) (result ||| ((((v &&& 0x7F#w) ||| 0x80#w).setWidth 8 &&& 0x7F#8).setWidth w <<< i))
        rw [hor] at hrest
        rw [List.range'_succ, List.cons_append, takeGroups, if_neg hb]
        exact hrest
    · rw [if_neg hv] at ht
      cases ht
      obtain ⟨hb,hval⟩ := group_last (show v.toNat < 0x80 by omega)
      rw [List.range'_succ, List.singleton_append, takeGroups, if_pos hb, hval]

/-- On any bytes it takes one a turn at most, and fails only where they end. -/
theorem takeGroups_bounded (is : List Nat) (result : BitVec w) (bytes : List UInt8) :
    match takeGroups is result bytes with
    | some (_,rest) => ∃ taken, bytes = taken ++ rest ∧ taken.length ≤ is.length
    | none => bytes.length < is.length := by
  induction is generalizing result bytes with
  | nil => exact ⟨[],rfl,Nat.le_refl 0⟩
  | cons i is ih =>
    cases bytes with
    | nil => exact Nat.succ_pos _
    | cons b bytes =>
      rw [takeGroups]
      by_cases hb : b.toNat < 0x80
      · rw [if_pos hb]
        exact ⟨[b],rfl,Nat.succ_le_succ (Nat.zero_le _)⟩
      · rw [if_neg hb]
        have hrest := ih (result ||| ((b.toBitVec &&& 0x7F#8).setWidth w <<< i)) bytes
        cases ht : takeGroups is (result ||| ((b.toBitVec &&& 0x7F#8).setWidth w <<< i)) bytes with
        | none =>
          rw [ht] at hrest
          exact Nat.succ_lt_succ hrest
        | some out =>
          rw [ht] at hrest
          obtain ⟨taken,rfl,hle⟩ := hrest
          exact ⟨b :: taken,rfl,Nat.succ_le_succ hle⟩

theorem size_div_group {n : Nat} (hn : 128 ≤ n) : Nat.size n = Nat.size (n / 128) + 7 := by
  have hstep (k : Nat) : Nat.size (n / 128) ≤ k ↔ Nat.size n ≤ k + 7 := by
    rw [Nat.size_le, Nat.size_le, Nat.pow_add]
    exact Nat.div_lt_iff_lt_mul (by decide)
  have hlow := (hstep (Nat.size (n / 128))).mp (Nat.le_refl _)
  have hseven : 7 < Nat.size n := Nat.lt_size.mpr hn
  have hhigh := (hstep (Nat.size n - 7)).mpr (by omega)
  omega

/-- One byte for every seven bits begun, and one for zero. -/
def groupCount (n : Nat) : Nat := max 1 ((Nat.size n + 6) / 7)

theorem fillTmp_length (slots : Nat) {v : BitVec w} {tmp : List UInt8} (ht : fillTmp slots v = .ok tmp) :
    tmp.length = groupCount v.toNat := by
  induction slots generalizing v tmp with
  | zero => cases ht
  | succ slots ih =>
    rw [fillTmp] at ht
    by_cases hv : v.toNat ≥ 0x80
    · rw [if_pos hv] at ht
      cases hf : fillTmp slots (v >>> 7) with
      | error e => rw [hf] at ht; cases ht
      | ok more =>
        rw [hf] at ht
        cases ht
        have hmore := ih hf
        rw [BitVec.toNat_ushiftRight, Nat.shiftRight_eq_div_pow] at hmore
        rw [List.length_cons, hmore, groupCount, groupCount, size_div_group hv]
        have hpos : 0 < Nat.size (v.toNat / 2 ^ 7) := Nat.size_pos.mpr (Nat.div_pos hv (by decide))
        rw [show 128 = 2 ^ 7 from rfl]
        omega
    · rw [if_neg hv] at ht
      cases ht
      have hsize : Nat.size v.toNat ≤ 7 := Nat.size_le.mpr (Nat.lt_of_not_le hv)
      rw [groupCount, List.length_singleton]
      omega

end ByteArray

/-- Decoding is undone by encoding as well: both map the numbers of one width one to one. -/
theorem encodeZigzag_decodeZigzag (hw : 1 < w) (e : BitVec w) : encodeZigzag (decodeZigzag e) = e := by
  have hleft : Function.LeftInverse decodeZigzag (encodeZigzag (w := w)) := decodeZigzag_encodeZigzag hw
  have : Finite (BitVec w) := Finite.of_injective BitVec.toFin fun _ _ => BitVec.eq_of_toFin_eq
  obtain ⟨v,rfl⟩ := Finite.injective_iff_surjective.mp hleft.injective e
  rw [hleft v]

end Radixun.Common
