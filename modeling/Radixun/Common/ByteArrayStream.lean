import Radixun.Common.ByteArrayInvariant

/-! The array as a stream: what is appended at its end is read off its front in order. -/
namespace Radixun.Common.ByteArray
open Foundation.BlockMemory Foundation.ExceptionState

/-- The array with its position at the end of its content, which is `bytes`. -/
structure Written (ba : ByteArray) (order : Endian) (bytes : List UInt8) : Prop where
  rep : Rep ba
  endian_eq : ba.endian = order
  position_eq : ba.position = ba.size
  content_eq : ba.flat.content = bytes

/-- The array with `bytes` from its position to the end of its content. -/
structure Ahead (ba : ByteArray) (order : Endian) (bytes : List UInt8) : Prop where
  rep : Rep ba
  endian_eq : ba.endian = order
  remaining_eq : slice (memory ba.root) ba.position (ba.size - ba.position) = bytes

section Stream
variable {ba ba' : ByteArray} {order : Endian} {bytes : List UInt8}

/-- What one overwrite from the position on does to the content. -/
theorem write_content (h : Rep ba) (he : write bytes ba = .ok () ba') :
    ba'.flat.content = patch ba.flat.content ba.position bytes ∧ ba'.position = ba.position + bytes.length ∧
      ba'.size = max ba.size (ba.position + bytes.length) ∧ ba'.endian = ba.endian := by
  obtain ⟨-,-,hf⟩ := write_completed h he
  obtain ⟨extra,hx⟩ := ba.flat.grow_mem bytes.length
  have hmem : ba'.flat.mem = patch (ba.flat.mem ++ extra) ba.position bytes :=
    (congrArg Flat.mem hf).trans (by rw [Flat.write, hx, flat_position])
  have hsize : ba'.size = max ba.size (ba.position + bytes.length) := congrArg Flat.size hf
  refine ⟨?_,congrArg Flat.position hf,hsize,(congrArg Flat.endian hf).trans (by simp [Flat.write])⟩
  rw [Flat.content, hmem, flat_size, hsize]
  exact take_patch_max h.position_le (h.mem_length.symm ▸ h.size_le)

theorem content_length (h : Rep ba) : ba.flat.content.length = ba.size := by
  rw [Flat.content, List.length_take, flat_mem, h.mem_length, flat_size, Nat.min_eq_left h.size_le]

/-- A write at the end appends. -/
theorem Written.write (h : Written ba order bytes) {buf : List UInt8} (he : write buf ba = .ok () ba') :
    Written ba' order (bytes ++ buf) := by
  have hpos := h.position_eq
  obtain ⟨hcontent,hp,hs,hend⟩ := write_content h.rep he
  refine ⟨(write_completed h.rep he).2.1,hend.trans h.endian_eq,by omega,?_⟩
  rw [hcontent, hpos, ← content_length h.rep, patch_end, h.content_eq]

/-- A read takes its bytes off the front as long as `m_cur` is not null. -/
theorem Ahead.read_at {rest : List UInt8} (h : Ahead ba order (bytes ++ rest)) (hp : ba.position < ba.capacity) :
    ∃ ba', read bytes.length ba = .ok bytes ba' ∧ Ahead ba' order rest ∧ ba'.position = ba.position + bytes.length := by
  have hle := h.rep.position_le
  have hc := h.rep.size_le
  have hlen := congrArg List.length h.remaining_eq
  rw [slice_length (by rw [h.rep.mem_length]; omega), List.length_append] at hlen
  obtain ⟨ba',he,hrep,hf⟩ := read_ok h.rep bytes.length (by omega) hp
  have hsplit := slice_concat (memory ba.root) ba.position bytes.length rest.length
  rw [← hlen, h.remaining_eq] at hsplit
  obtain ⟨hfront,hback⟩ := List.append_inj hsplit (slice_length (by rw [h.rep.mem_length]; omega))
  have hp : ba'.position = ba.position + bytes.length := congrArg Flat.position hf
  have hs : ba'.size = ba.size := congrArg Flat.size hf
  have hm : memory ba'.root = memory ba.root := congrArg Flat.mem hf
  rw [hfront] at he
  refine ⟨ba',he,⟨hrep,(congrArg Flat.endian hf).trans h.endian_eq,?_⟩,hp⟩
  rw [hm, hp, hs, show ba.size - (ba.position + bytes.length) = rest.length by omega, hback]

/-- Where something is ahead, `m_cur` is not null. -/
theorem Ahead.position_lt (h : Ahead ba order bytes) (hb : bytes ≠ []) : ba.position < ba.capacity := by
  have hpos := List.length_pos_iff.mpr hb
  have hle := h.rep.position_le
  have hc := h.rep.size_le
  have hlen := congrArg List.length h.remaining_eq
  rw [slice_length (by rw [h.rep.mem_length]; omega)] at hlen
  omega

theorem Ahead.read {rest : List UInt8} (h : Ahead ba order (bytes ++ rest)) (hb : bytes ≠ []) :
    ∃ ba', read bytes.length ba = .ok bytes ba' ∧ Ahead ba' order rest := by
  obtain ⟨ba',he,h',-⟩ := h.read_at (h.position_lt (by simp [hb]))
  exact ⟨ba',he,h'⟩

theorem Written.setIsLittleEndian (h : Written ba order bytes) (val : Bool) :
    ∃ ba', setIsLittleEndian val ba = .ok () ba' ∧ Written ba' (if val then .little else .big) bytes :=
  ⟨_,rfl,(sound_setIsLittleEndian val ba ⟨h.rep,rfl⟩).1,rfl,h.position_eq,h.content_eq⟩

theorem Ahead.setIsLittleEndian (h : Ahead ba order bytes) (val : Bool) :
    ∃ ba', setIsLittleEndian val ba = .ok () ba' ∧ Ahead ba' (if val then .little else .big) bytes :=
  ⟨_,rfl,(sound_setIsLittleEndian val ba ⟨h.rep,rfl⟩).1,rfl,h.remaining_eq⟩

theorem Written.setPosition (h : Written ba order bytes) :
    ∃ ba', setPosition 0 ba = .ok () ba' ∧ Ahead ba' order bytes ∧ ba'.size = ba.size := by
  obtain ⟨ba',he,hrep,hf⟩ := setPosition_ok h.rep 0 (Nat.zero_le _)
  have hm : memory ba'.root = memory ba.root := congrArg Flat.mem hf
  have hp : ba'.position = 0 := congrArg Flat.position hf
  have hs : ba'.size = ba.size := (congrArg Flat.size hf).trans (Nat.max_eq_left (Nat.zero_le _))
  refine ⟨ba',he,⟨hrep,(congrArg Flat.endian hf).trans h.endian_eq,?_⟩,hs⟩
  rw [hm, hp, hs, Nat.sub_zero, ← h.content_eq]
  rfl

theorem Ahead.toString (h : Ahead ba order bytes) : ba.toString = .ok bytes := by
  rw [toString_ok h.rep, h.remaining_eq]

theorem Ahead.getReadSize (h : Ahead ba order bytes) : ba.getReadSize = bytes.length := by
  have hle := h.rep.position_le
  have hc := h.rep.size_le
  rw [← h.remaining_eq, slice_length (by rw [h.rep.mem_length]; omega), h.rep.getReadSize_eq]

end Stream
end Radixun.Common.ByteArray
