import Radixun.Common.ByteArrayInvariant

/-! When `addCapacity` adds as many nodes as `write` and `getWriteBuffers` go on to use. -/
namespace Radixun.Common.ByteArray
open Foundation.BlockMemory Foundation.ExceptionState Foundation.CommandRuns

/-- The remainder gets a node of its own only if it is larger than the old free room, though that room
has been taken off already. -/
theorem nodeCount_enough {baseSize : Nat} (pos : 0 < baseSize) (oldCap need : Nat) :
    need ≤ baseSize * nodeCount baseSize oldCap need ↔ need % baseSize = 0 ∨ oldCap < need % baseSize := by
  have hdiv := Nat.div_add_mod need baseSize
  have hlt := Nat.mod_lt need pos
  unfold nodeCount
  by_cases hrem : need % baseSize > oldCap
  · rw [if_pos hrem, Nat.mul_add, Nat.mul_one]
    omega
  · rw [if_neg hrem, Nat.add_zero]
    omega

/-- Whole blocks come out exactly where nothing is left over. -/
theorem nodeCount_exact {baseSize : Nat} (pos : 0 < baseSize) (oldCap need : Nat) :
    need = baseSize * nodeCount baseSize oldCap need ↔ need % baseSize = 0 := by
  have hdiv := Nat.div_add_mod need baseSize
  have hlt := Nat.mod_lt need pos
  unfold nodeCount
  by_cases hrem : need % baseSize > oldCap
  · rw [if_pos hrem, Nat.mul_add, Nat.mul_one]
    omega
  · rw [if_neg hrem, Nat.add_zero]
    omega

variable {ba : ByteArray}

theorem grow_length (h : Rep ba) {n : Nat} (hn : ba.capacity < ba.position + n) : (ba.flat.grow n).mem.length =
    ba.capacity + ba.baseSize * nodeCount ba.baseSize (ba.capacity - ba.position) (n - (ba.capacity - ba.position)) := by
  have hp := h.position_le_capacity
  have hmem : ba.flat.mem.length = ba.capacity := h.mem_length
  rw [Flat.grow, if_neg (by rw [hmem, flat_position]; omega)]
  simp only [List.length_append, hmem, flat_position, Flat.fresh_length, flat_baseSize]

/-- There is room for `n` more bytes behind the position exactly in these alignments. -/
theorem grow_enough_iff (h : Rep ba) (n : Nat) : ba.position + n ≤ (ba.flat.grow n).mem.length ↔
    n ≤ ba.capacity - ba.position ∨ (n - (ba.capacity - ba.position)) % ba.baseSize = 0 ∨
      ba.capacity - ba.position < (n - (ba.capacity - ba.position)) % ba.baseSize := by
  have hp := h.position_le_capacity
  have hmem : ba.flat.mem.length = ba.capacity := h.mem_length
  by_cases hn : n ≤ ba.capacity - ba.position
  · have hgrow : ba.flat.grow n = ba.flat := if_pos (by rw [hmem]; exact hn)
    rw [hgrow, hmem]
    exact ⟨fun _ => .inl hn,fun _ => by omega⟩
  · have hgrow := grow_length h (show ba.capacity < ba.position + n by omega)
    have hcount := nodeCount_enough ba.basePos (ba.capacity - ba.position) (n - (ba.capacity - ba.position))
    rw [hgrow, or_iff_right hn, ← hcount]
    omega

/-- Where the old chain has the room, a write completes, and what it leaves of the room stays. -/
theorem Rep.write_room (h : Rep ba) {buf : List UInt8} (hroom : ba.position + buf.length ≤ ba.capacity) :
    ∃ ba', write buf ba = .ok () ba' ∧ Rep ba' ∧ ba'.position = ba.position + buf.length ∧ ba'.capacity = ba.capacity := by
  have hgrow : ba.flat.grow buf.length = ba.flat := if_pos (by rw [flat_mem, h.mem_length, flat_position]; omega)
  have hmem : (ba.flat.grow buf.length).mem.length = ba.capacity := by rw [hgrow]; exact h.mem_length
  obtain ⟨ba',he,h',hf⟩ := write_ok h buf (by omega)
  refine ⟨ba',he,h',congrArg Flat.position hf,?_⟩
  rw [← h'.mem_length, ← hmem, ← flat_mem, hf]
  exact patch_length (by rw [flat_position]; omega)

/-- A completed write ends behind the last node exactly if it reaches the end of the old chain on a node edge. -/
theorem write_fills_iff (h : Rep ba) {buf : List UInt8} {ba' : ByteArray} (he : write buf ba = .ok () ba') :
    ba'.position = ba'.capacity ↔
      ba.capacity ≤ ba.position + buf.length ∧ (ba.position + buf.length) % ba.baseSize = 0 := by
  obtain ⟨hroom,h',hf⟩ := write_completed h he
  have hp : ba'.position = ba.position + buf.length := congrArg Flat.position hf
  have hc : ba'.capacity = (ba.flat.grow buf.length).mem.length := by
    rw [← h'.mem_length, ← flat_mem, hf]
    exact patch_length hroom
  have hedge : ba.capacity % ba.baseSize = 0 := by rw [h.capacity_eq, Nat.mul_mod_right]
  rw [hp, hc]
  by_cases hn : ba.position + buf.length ≤ ba.capacity
  · have hgrow : ba.flat.grow buf.length = ba.flat := if_pos (by rw [flat_mem, h.mem_length, flat_position]; omega)
    rw [hgrow, flat_mem, h.mem_length]
    constructor
    · intro heq
      rw [heq]
      exact ⟨le_rfl,hedge⟩
    · intro hend
      exact hn.antisymm hend.1
  · have hle := h.position_le_capacity
    have hsum : ba.position + buf.length = ba.capacity + (buf.length - (ba.capacity - ba.position)) := by omega
    have hmod : (ba.position + buf.length) % ba.baseSize = (buf.length - (ba.capacity - ba.position)) % ba.baseSize := by
      rw [hsum, Nat.add_mod, hedge, Nat.zero_add, Nat.mod_mod]
    rw [grow_length h (Nat.lt_of_not_le hn), hmod, ← nodeCount_exact ba.basePos (ba.capacity - ba.position)]
    omega

/-- What `addCapacity(n)` is for: room for `n` bytes, so that neither caller runs into a null node. -/
structure LeavesRoom (ba : ByteArray) (n : Nat) : Prop where
  room : ∃ g, addCapacity n ba = .ok () g ∧ n ≤ g.getCapacity
  writes : ∀ buf, buf.length = n → ∃ ba', write buf ba = .ok () ba'
  lists : ∃ iovs ba', getWriteBuffers n ba = .ok (iovs,n) ba'

theorem leavesRoom_iff (h : Rep ba) (n : Nat) : LeavesRoom ba n ↔ ba.position + n ≤ (ba.flat.grow n).mem.length := by
  constructor
  · intro hr
    obtain ⟨iovs,ba',he⟩ := hr.lists
    exact (getWriteBuffers_completed h he).1
  · intro hroom
    obtain ⟨hg,hf⟩ := grow_flat h n
    have hpos : (ba.grow n).position = ba.position := (congrArg Flat.position hf).trans (by simp)
    refine ⟨⟨_,addCapacity_run ba n,?_⟩,?_,?_⟩
    · rw [← hf, flat_mem, hg.mem_length] at hroom
      rw [hg.getCapacity_eq, hpos]
      omega
    · rintro buf rfl
      obtain ⟨ba',he,-⟩ := write_ok h buf hroom
      exact ⟨ba',he⟩
    · obtain ⟨iovs,he,-⟩ := getWriteBuffers_ok h n hroom
      exact ⟨iovs,_,he⟩

/-- In every reachable state `addCapacity(n)` leaves enough room exactly if there was enough already, or
what is missing is a multiple of the block size, or its remainder is larger than the old free room. -/
theorem addCapacity_enough_iff (host : Endian) (baseSize : Nat) (ba : ByteArray) (h : Reachable host baseSize ba)
    (n : Nat) : LeavesRoom ba n ↔ n ≤ ba.capacity - ba.position ∨ (n - (ba.capacity - ba.position)) % baseSize = 0 ∨
      ba.capacity - ba.position < (n - (ba.capacity - ba.position)) % baseSize := by
  obtain ⟨hrep,rfl⟩ := h.repOf
  rw [leavesRoom_iff hrep, grow_enough_iff hrep]

private theorem one_of_four : ∃ ba, Reachable .little 4 ba ∧ ba.position = 1 ∧ ba.capacity = 4 := by
  obtain ⟨ba,hreach,hat⟩ : ∃ ba, Reachable .little 4 ba ∧ (ba.position,ba.capacity) = (1,4) :=
    reachable_of_run (by decide) zeroHeap [.write [7]] (by decide +kernel)
  exact ⟨ba,hreach,Prod.mk.inj hat⟩

/-- Seven more bytes behind one in a block of four: one more block is added, and is enough. -/
theorem addCapacity_enough_seven : ∃ ba, Reachable .little 4 ba ∧ ba.position = 1 ∧ ba.capacity = 4 ∧ LeavesRoom ba 7 := by
  obtain ⟨ba,hreach,hp,hc⟩ := one_of_four
  refine ⟨ba,hreach,hp,hc,(addCapacity_enough_iff .little 4 ba hreach 7).mpr ?_⟩
  rw [hp, hc]
  decide

/-- Five more bytes there: two are missing, no block is added, and `write` follows a null pointer. -/
theorem addCapacity_too_little : ∃ ba, Reachable .little 4 ba ∧ ba.position = 1 ∧ ba.capacity = 4 ∧ ¬LeavesRoom ba 5 ∧
    ∃ ba', write [1,2,3,4,5] ba = .error .nullDeref ba' := by
  obtain ⟨ba,hreach,hp,hc⟩ := one_of_four
  have hrep := hreach.repOf
  have hroom : ¬ba.position + 5 ≤ (ba.flat.grow 5).mem.length := by
    rw [grow_enough_iff hrep.1, hrep.2, hp, hc]
    decide
  refine ⟨ba,hreach,hp,hc,mt (leavesRoom_iff hrep.1 5).mp hroom,?_⟩
  exact write_null hrep.1 [1,2,3,4,5] (Nat.lt_of_not_le hroom)

end Radixun.Common.ByteArray
