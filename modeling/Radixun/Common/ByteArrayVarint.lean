import Radixun.Common.ByteArrayNumeric

/-! The variable-length encoding as a code: lengths, unique decoding, and how far a read can go. -/
namespace Radixun.Common.ByteArray
open Foundation.BlockMemory Foundation.ExceptionState

/-- The array a call leaves, also when it throws. -/
def left {α : Type} : EStateM.Result Stop ByteArray α → ByteArray
  | .ok _ ba => ba
  | .error _ ba => ba

/-- A pair of a writer and a reader for the numbers of one width, over a buffer `tmp` of `slots` bytes. -/
structure Codec {V : Type} {w : Nat} (bits : V → BitVec w) (slots : Nat) (write : V → Run Unit) (read : Run V) : Prop where
  /-- The loop stays within `tmp` and fills as many bytes as the number has groups of seven bits. -/
  emits : ∀ v, ∃ tmp, fillTmp slots (bits v) = .ok tmp ∧ tmp.length = groupCount (bits v).toNat ∧ tmp.length ≤ slots ∧
    ∀ ba, write v ba = ByteArray.write tmp ba
  /-- Whatever follows them, these bytes are read back as the number, and no byte more is taken. -/
  reads : ∀ v tmp, fillTmp slots (bits v) = .ok tmp → ∀ ba order suffix, Ahead ba order (tmp ++ suffix) →
    ∃ ba', read ba = .ok v ba' ∧ ba'.position = ba.position + tmp.length ∧ Ahead ba' order suffix
  separate : ∀ v v' tmp tmp', fillTmp slots (bits v) = .ok tmp → fillTmp slots (bits v') = .ok tmp' → tmp <+: tmp' →
    v = v' ∧ tmp = tmp'
  /-- A read never takes more than the buffer would hold, whatever the bytes are. -/
  bounded : ∀ ba, Rep ba → ba.position ≤ (left (read ba)).position ∧ (left (read ba)).position ≤ ba.position + slots

section
variable {V : Type} {w : Nat} {bits : V → BitVec w} {slots : Nat}

theorem takeGroups_zero (hw : 8 ≤ w) (hslots : slots = (w + 6) / 7) {v : BitVec w} {tmp : List UInt8}
    (ht : fillTmp slots v = .ok tmp) (suffix : List UInt8) : takeGroups (shifts w) 0#w (tmp ++ suffix) = some (v,suffix) := by
  have h := takeGroups_fillTmp hw slots ht 0 ((w + 6) / 7) hslots.le 0#w suffix
  rwa [BitVec.shiftLeft_zero, BitVec.zero_or] at h

/-- A read takes no more bytes than there are shifts, also when the bytes end too soon. -/
theorem varintLoop_bounded {ba : ByteArray} (h : Rep ba) (is : List Nat) (result : BitVec w) :
    ba.position ≤ (left (varintLoop is result ba)).position ∧
      (left (varintLoop is result ba)).position ≤ ba.position + is.length := by
  have hahead : Ahead ba ba.endian (slice (memory ba.root) ba.position (ba.size - ba.position)) := ⟨h,rfl,rfl⟩
  generalize slice (memory ba.root) ba.position (ba.size - ba.position) = bytes at hahead
  have hrun := varintLoop_run is result hahead
  have hbound := takeGroups_bounded is result bytes
  cases ht : takeGroups is result bytes with
  | none =>
    rw [ht] at hrun hbound
    obtain ⟨ba',he,hp⟩ := hrun
    have hlt : bytes.length < is.length := hbound
    rw [he]
    simp only [left]
    omega
  | some out =>
    obtain ⟨v,rest⟩ := out
    rw [ht] at hrun hbound
    obtain ⟨ba',he,-,hp⟩ := hrun
    obtain ⟨taken,rfl,hle⟩ := hbound
    rw [List.length_append] at hp
    rw [he]
    simp only [left]
    omega

theorem left_map {α β : Type} (f : α → β) (x : Run α) (ba : ByteArray) : left ((f <$> x) ba) = left (x ba) := by
  change left (EStateM.map f x ba) = _
  rw [EStateM.map]
  cases x ba <;> rfl

/-- The two loops of one width make a code if `tmp` has a byte for each shift. -/
theorem codec (hw : 8 ≤ w) (hslots : slots + 1 = (w + 6) / 7) (hfits : 2 ^ w ≤ 128 ^ (slots + 1)) (mk : BitVec w → V)
    (hmk : ∀ v, mk (bits v) = v) :
    Codec bits (slots + 1) (fun v => writeVarint (slots + 1) (bits v)) (mk <$> varintLoop (shifts w) 0) where
  emits v := by
    obtain ⟨tmp,ht⟩ := fillTmp_ok slots (bits v) ((bits v).isLt.trans_le hfits)
    have hlength := fillTmp_length (slots + 1) ht
    have hsize : Nat.size (bits v).toNat ≤ w := Nat.size_le.mpr (bits v).isLt
    refine ⟨tmp,ht,hlength,?_,fun ba => ofExcept_bind ht _ ba⟩
    rw [hlength, groupCount]
    omega
  reads v tmp ht ba order suffix h := by
    have hrun := varintLoop_run (shifts w) 0#w h
    rw [takeGroups_zero hw hslots ht suffix] at hrun
    obtain ⟨ba',he,h',hp⟩ := hrun
    have hmap : (mk <$> varintLoop (shifts w) 0) ba = .ok (mk (bits v)) ba' := map_run_ok mk he
    rw [hmk] at hmap
    refine ⟨ba',hmap,?_,h'⟩
    · rw [List.length_append] at hp
      omega
  separate v v' tmp tmp' ht ht' hprefix := by
    obtain ⟨suffix,rfl⟩ := hprefix
    have hdec := takeGroups_zero hw hslots ht suffix
    have hdec' := takeGroups_zero hw hslots ht' []
    rw [List.append_nil, hdec] at hdec'
    obtain ⟨hv,rfl⟩ := Prod.mk.inj (Option.some.inj hdec')
    refine ⟨?_,(List.append_nil tmp).symm⟩
    rw [← hmk v, hv, hmk]
  bounded ba h := by
    have hlen : (shifts w).length = slots + 1 := by rw [shifts, List.length_range', hslots]
    rw [left_map, ← hlen]
    exact varintLoop_bounded h (shifts w) 0

end

/-- The unsigned numbers of both widths have a prefix-free code of five and of ten bytes at most, and the
zigzag maps of both widths undo each other. -/
theorem varint_zigzag_codec :
    Codec UInt32.toBitVec 5 writeUint32 readUint32 ∧ Codec UInt64.toBitVec 10 writeUint64 readUint64 ∧
    (Function.LeftInverse decodeZigzag32 encodeZigzag32 ∧ Function.RightInverse decodeZigzag32 encodeZigzag32) ∧
    (Function.LeftInverse decodeZigzag64 encodeZigzag64 ∧ Function.RightInverse decodeZigzag64 encodeZigzag64) := by
  refine ⟨codec (by decide) (by decide) (by decide) UInt32.ofBitVec fun _ => rfl,
    codec (by decide) (by decide) (by decide) UInt64.ofBitVec fun _ => rfl,
    ⟨decodeZigzag32_encodeZigzag32,?_⟩,⟨decodeZigzag64_encodeZigzag64,?_⟩⟩
  · intro e
    exact congrArg UInt32.ofBitVec (encodeZigzag_decodeZigzag (by decide) e.toBitVec)
  · intro e
    exact congrArg UInt64.ofBitVec (encodeZigzag_decodeZigzag (by decide) e.toBitVec)

end Radixun.Common.ByteArray
