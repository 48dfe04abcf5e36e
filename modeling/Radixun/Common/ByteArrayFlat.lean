import Radixun.Common.ByteArrayLoops

/-! The representation invariant of the chunked array, the flat memory it stands for,
and one specification for each member function in terms of that memory. -/
namespace Radixun.Common
open Foundation.BlockMemory Foundation.ExceptionState

/-- The purpose of a byte array: one memory, a position in it, and the length of its content. -/
structure Flat where
  baseSize : Nat
  mem : List UInt8
  position : Nat
  size : Nat
  endian : Endian
  heap : Heap

namespace Flat

/-- The flat memory of a fresh byte array. -/
def new (baseSize : Nat) (heap : Heap) : Flat where
  baseSize := baseSize
  mem := (List.range baseSize).map (heap.blocks 0)
  position := 0
  size := 0
  endian := .big
  heap := { heap with blocks := fun i => heap.blocks (i + 1) }

/-- The bytes of `count` fresh blocks, whatever the allocator left in them. -/
def fresh (f : Flat) (count : Nat) : List UInt8 :=
  ((List.range count).map fun i => (List.range f.baseSize).map (f.heap.blocks i)).flatten

/-- Room is added in whole blocks, by the number of blocks the code computes. -/
def grow (f : Flat) (n : Nat) : Flat :=
  if n ≤ f.mem.length - f.position then f
  else
    let oldCap := f.mem.length - f.position
    let count := ByteArray.nodeCount f.baseSize oldCap (n - oldCap)
    { f with mem := f.mem ++ f.fresh count, heap := { f.heap with blocks := fun i => f.heap.blocks (i + count) } }

def write (f : Flat) (buf : List UInt8) : Flat :=
  let g := f.grow buf.length
  { g with
    mem := patch g.mem f.position buf
    position := f.position + buf.length
    size := max f.size (f.position + buf.length) }

def setPosition (f : Flat) (v : Nat) : Flat := { f with position := v, size := max f.size v }

def clear (f : Flat) : Flat := { f with mem := f.mem.take f.baseSize, position := 0, size := 0 }

/-- The bytes that can be read. -/
def content (f : Flat) : List UInt8 := f.mem.take f.size

theorem fresh_length (f : Flat) (count : Nat) : (f.fresh count).length = f.baseSize * count := by
  induction count with
  | zero => rfl
  | succ count ih =>
    have hsucc : f.fresh (count + 1) = f.fresh count ++ (List.range f.baseSize).map (f.heap.blocks count) := by
      simp [fresh, List.range_succ]
    rw [hsucc, List.length_append, ih, List.length_map, List.length_range, Nat.mul_succ]

@[simp] theorem grow_baseSize (f : Flat) (n : Nat) : (f.grow n).baseSize = f.baseSize := by unfold grow; split <;> rfl
@[simp] theorem grow_position (f : Flat) (n : Nat) : (f.grow n).position = f.position := by unfold grow; split <;> rfl
@[simp] theorem grow_size (f : Flat) (n : Nat) : (f.grow n).size = f.size := by unfold grow; split <;> rfl
@[simp] theorem grow_endian (f : Flat) (n : Nat) : (f.grow n).endian = f.endian := by unfold grow; split <;> rfl

/-- Growing only adds bytes behind the memory there is. -/
theorem grow_mem (f : Flat) (n : Nat) : ∃ extra, (f.grow n).mem = f.mem ++ extra := by
  unfold grow
  split
  · exact ⟨[],(List.append_nil _).symm⟩
  · exact ⟨_,rfl⟩

end Flat

namespace ByteArray

/-- The chunked array is well formed. The node of `m_cur` is the one the position lies in. -/
structure Rep (ba : ByteArray) : Prop where
  uniform : Uniform ba.baseSize ba.root
  capacity_eq : ba.capacity = ba.baseSize * ba.root.length
  root_ne : ba.root ≠ []
  position_le : ba.position ≤ ba.size
  size_le : ba.size ≤ ba.capacity
  cur_eq : ba.cur = ba.link (ba.position / ba.baseSize)

/-- What the chunked array stands for. -/
def flat (ba : ByteArray) : Flat := ⟨ba.baseSize,memory ba.root,ba.position,ba.size,ba.endian,ba.heap⟩

@[simp] theorem flat_mem (ba : ByteArray) : ba.flat.mem = memory ba.root := rfl
@[simp] theorem flat_baseSize (ba : ByteArray) : ba.flat.baseSize = ba.baseSize := rfl
@[simp] theorem flat_position (ba : ByteArray) : ba.flat.position = ba.position := rfl
@[simp] theorem flat_size (ba : ByteArray) : ba.flat.size = ba.size := rfl
@[simp] theorem flat_endian (ba : ByteArray) : ba.flat.endian = ba.endian := rfl
@[simp] theorem flat_heap (ba : ByteArray) : ba.flat.heap = ba.heap := rfl

theorem new_uniform (size : Nat) (left : Nat → Nat → UInt8) (count : Nat) :
    Uniform size ((List.range count).map fun i => Node.new size (left i)) := by
  intro node hn
  obtain ⟨i,-,rfl⟩ := List.mem_map.mp hn
  rfl

theorem rep_new (baseSize : Nat) (pos : 0 < baseSize) (heap : Heap) : Rep (new baseSize pos heap) where
  uniform := Uniform.cons rfl (fun _ hx => absurd hx List.not_mem_nil)
  capacity_eq := (Nat.mul_one _).symm
  root_ne := List.cons_ne_nil _ _
  position_le := le_rfl
  size_le := Nat.zero_le _
  cur_eq := by simp [new, link]

namespace Rep
variable {ba : ByteArray}

theorem position_le_capacity (h : Rep ba) : ba.position ≤ ba.capacity := h.position_le.trans h.size_le

theorem mem_length (h : Rep ba) : (memory ba.root).length = ba.capacity := by
  rw [memory_length h.uniform, h.capacity_eq]

theorem getReadSize_eq (h : Rep ba) : ba.getReadSize = ba.size - ba.position := sizeSub_of_le h.position_le

theorem getCapacity_eq (h : Rep ba) : ba.getCapacity = ba.capacity - ba.position := sizeSub_of_le h.position_le_capacity

theorem node_lt (h : Rep ba) (hp : ba.position < ba.capacity) : ba.position / ba.baseSize < ba.root.length :=
  Nat.div_lt_of_lt_mul (h.capacity_eq ▸ hp)

/-- `m_cur` is null exactly at the end of the chain. -/
theorem cur_eq_none_iff (h : Rep ba) : ba.cur = none ↔ ba.position = ba.capacity := by
  have hB := ba.basePos
  rw [h.cur_eq, link, ite_eq_right_iff]
  constructor
  · intro hn
    by_contra hne
    exact absurd (hn (h.node_lt (lt_of_le_of_ne h.position_le_capacity hne))) (by simp)
  · intro he hlt
    rw [he, h.capacity_eq, Nat.mul_div_cancel_left _ hB] at hlt
    exact absurd hlt (lt_irrefl _)

/-- Following a non-null `m_cur` gives the node of the position. -/
theorem derefCur_ok (h : Rep ba) (hp : ba.position < ba.capacity) :
    ∃ node next, ba.derefCur = .ok (ba.position / ba.baseSize,node,next) ∧ node.size = ba.baseSize ∧
      ba.root.drop (ba.position / ba.baseSize) = node :: next := by
  have hlt := h.node_lt hp
  obtain ⟨node,next,hd⟩ := List.exists_cons_of_length_pos
    (show 0 < (ba.root.drop (ba.position / ba.baseSize)).length by rw [List.length_drop]; omega)
  refine ⟨node,next,?_,h.uniform node (List.mem_of_mem_drop (hd ▸ List.mem_cons_self)),hd⟩
  have hcur : ba.cur = some (ba.position / ba.baseSize) := by rw [h.cur_eq, link, if_pos hlt]
  simp only [derefCur, hcur, chainAt, hd]

theorem derefCur_null (h : Rep ba) (hp : ba.position = ba.capacity) : ba.derefCur = .error .nullDeref := by
  simp only [derefCur, h.cur_eq_none_iff.mpr hp]

/-- The chain from the node of the position on reaches to the end of the memory. -/
theorem room_eq (h : Rep ba) (n : Nat) :
    ba.position % ba.baseSize + n ≤ ba.baseSize * (ba.root.drop (ba.position / ba.baseSize)).length ↔
      ba.position + n ≤ ba.capacity := by
  have hp := h.position_le_capacity
  have hm := Nat.div_add_mod ba.position ba.baseSize
  have hle : ba.baseSize * (ba.position / ba.baseSize) ≤ ba.baseSize * ba.root.length := by
    rw [← h.capacity_eq]
    exact (Nat.mul_div_le _ _).trans hp
  rw [List.length_drop, Nat.mul_sub, ← h.capacity_eq]
  rw [← h.capacity_eq] at hle
  omega

end Rep
section Operations
variable {ba : ByteArray}

theorem rep_appendNodes (h : Rep ba) (hp : ba.position < ba.capacity) (count : Nat) : Rep (ba.appendNodes count) where
  uniform := h.uniform.append (new_uniform _ _ _)
  capacity_eq := by
    simp only [appendNodes, List.length_append, List.length_map, List.length_range, Nat.mul_add, h.capacity_eq]
  root_ne := by simp [appendNodes, h.root_ne]
  position_le := h.position_le
  size_le := h.size_le.trans (Nat.le_add_right _ _)
  cur_eq := by
    have hlt := h.node_lt hp
    simp only [appendNodes, link, List.length_append]
    rw [h.cur_eq, link, if_pos hlt, if_pos (by omega)]

/-- At the end of the chain `m_cur` moves to the first new node. -/
theorem rep_appendNodes_end (h : Rep ba) (hp : ba.position = ba.capacity) (count : Nat) :
    Rep { ba.appendNodes count with cur := (ba.appendNodes count).link ba.root.length } where
  uniform := h.uniform.append (new_uniform _ _ _)
  capacity_eq := by
    simp only [appendNodes, List.length_append, List.length_map, List.length_range, Nat.mul_add, h.capacity_eq]
  root_ne := by simp [appendNodes, h.root_ne]
  position_le := h.position_le
  size_le := h.size_le.trans (Nat.le_add_right _ _)
  cur_eq := by
    have hd : ba.position / ba.baseSize = ba.root.length := by
      rw [hp, h.capacity_eq, Nat.mul_div_cancel_left _ ba.basePos]
    simp only [appendNodes, link, hd]
    rfl

theorem memory_new (size : Nat) (left : Nat → Nat → UInt8) (count : Nat) :
    memory ((List.range count).map fun i => Node.new size (left i)) =
      ((List.range count).map fun i => (List.range size).map (left i)).flatten := by
  simp [memory, List.map_map, Function.comp_def, Node.new]

theorem flat_appendNodes (ba : ByteArray) (count : Nat) : (ba.appendNodes count).flat =
    { ba.flat with
      mem := ba.flat.mem ++ ba.flat.fresh count
      heap := { ba.heap with blocks := fun i => ba.heap.blocks (i + count) } } := by
  simp only [flat, appendNodes, memory_append, memory_new, Flat.fresh]

/-- `addCapacity` keeps the array well formed and adds blocks behind the memory. -/
theorem grow_flat (h : Rep ba) (n : Nat) : Rep (ba.grow n) ∧ (ba.grow n).flat = ba.flat.grow n := by
  have hc := h.getCapacity_eq
  have hl := h.mem_length
  unfold grow Flat.grow
  simp only [flat_mem, flat_position, hl, ← hc]
  by_cases hn : n = 0
  · rw [if_pos hn, if_pos (by omega)]
    exact ⟨h,rfl⟩
  by_cases hle : n ≤ ba.getCapacity
  · rw [if_neg hn, if_pos hle, if_pos hle]
    exact ⟨h,rfl⟩
  rw [if_neg hn, if_neg hle, if_neg hle]
  by_cases hz : ba.getCapacity = 0
  · have hp : ba.position = ba.capacity := by have := h.position_le_capacity; omega
    rw [if_pos hz]
    exact ⟨rep_appendNodes_end h hp _,flat_appendNodes ba _⟩
  · rw [if_neg hz]
    exact ⟨rep_appendNodes h (by omega) _,flat_appendNodes ba _⟩

theorem addCapacity_run (ba : ByteArray) (n : Nat) : addCapacity n ba = .ok () (ba.grow n) := rfl

private theorem div_moved {B : Nat} (hB : 0 < B) (p n : Nat) : p / B + (p % B + n) / B = (p + n) / B := by
  conv_rhs => rw [← Nat.div_add_mod p B, Nat.add_assoc, Nat.mul_add_div hB]

/-- The memory behind a node range that was overwritten in place. -/
private theorem memory_splice {root chain' : List Node} {B i npos : Nat} {buf : List UInt8} (hu : Uniform B root)
    (hi : i ≤ root.length) (hm : memory chain' = patch (memory (root.drop i)) npos buf) :
    memory (root.take i ++ chain') = patch (memory root) (B * i + npos) buf := by
  have hl := memory_length (hu.take i)
  rw [List.length_take, Nat.min_eq_left hi] at hl
  rw [memory_append, hm, ← hl, ← patch_append_right, ← memory_append, List.take_append_drop]

/-- `write` with room enough after `addCapacity` is the flat overwrite. -/
theorem write_ok (h : Rep ba) (buf : List UInt8)
    (hroom : ba.position + buf.length ≤ (ba.flat.grow buf.length).mem.length) :
    ∃ ba', write buf ba = .ok () ba' ∧ Rep ba' ∧ ba'.flat = ba.flat.write buf := by
  by_cases hb : buf.length = 0
  · refine ⟨ba,by rw [write, if_pos hb]; rfl,h,?_⟩
    obtain rfl := List.eq_nil_of_length_eq_zero hb
    simp [Flat.write, Flat.grow, flat, h.position_le]
  rw [write, if_neg hb, bind_ok (addCapacity_run ba _), get_run]
  obtain ⟨hg,hf⟩ := grow_flat h buf.length
  have hpos : (ba.grow buf.length).position = ba.position := (congrArg Flat.position hf).trans (by simp)
  have hsize : (ba.grow buf.length).size = ba.size := (congrArg Flat.size hf).trans (by simp)
  rw [Flat.write, ← hf]
  rw [← hf] at hroom
  clear hf
  generalize ba.grow buf.length = g at *
  rw [flat_mem, hg.mem_length] at hroom
  obtain ⟨node,next,hd,hs,hn⟩ := hg.derefCur_ok (by omega)
  have hmod := Nat.mod_lt g.position g.basePos
  have hdm := Nat.div_add_mod g.position g.baseSize
  have hlt := hg.node_lt (by omega)
  obtain ⟨chain',hw,hu',hl',hm'⟩ := writeLoop_ok (hg.uniform.drop (g.position / g.baseSize)) hmod buf g.position
    ((hg.room_eq _).mpr (by omega))
  rw [hn] at hw
  simp only [ofExcept_bind hd, hs, sizeSub_of_le hmod.le, ofExcept_bind hw]
  have hlen : (g.root.take (g.position / g.baseSize) ++ chain').length = g.root.length := by
    rw [List.length_append, hl', List.length_take, List.length_drop]
    omega
  refine ⟨_,rfl,?_,?_⟩
  · exact {
      uniform := (hg.uniform.take _).append hu'
      capacity_eq := by rw [hg.capacity_eq]; exact congrArg _ hlen.symm
      root_ne := List.ne_nil_of_length_pos (hlen ▸ (Nat.zero_le _).trans_lt hlt)
      position_le := by dsimp only; split <;> omega
      size_le := by have := hg.size_le; dsimp only; split <;> omega
      cur_eq := by
        dsimp only [link]
        rw [div_moved g.basePos] }
  · have hmem := memory_splice hg.uniform hlt.le hm'
    rw [hdm] at hmem
    have hmax : (if g.position + buf.length > g.size then g.position + buf.length else g.size) =
        max g.size (g.position + buf.length) := by split <;> omega
    simp only [flat, hmem, hmax, ← hpos, ← hsize]

/-- `write` without room enough steps onto a null node. -/
theorem write_null (h : Rep ba) (buf : List UInt8)
    (hroom : (ba.flat.grow buf.length).mem.length < ba.position + buf.length) :
    ∃ ba', write buf ba = .error .nullDeref ba' := by
  have hb : buf.length ≠ 0 := by
    intro hz
    obtain ⟨extra,he⟩ := ba.flat.grow_mem buf.length
    rw [he, List.length_append, flat_mem, h.mem_length, hz] at hroom
    have := h.position_le_capacity
    omega
  rw [write, if_neg hb, bind_ok (addCapacity_run ba _), get_run]
  obtain ⟨hg,hf⟩ := grow_flat h buf.length
  have hpos : (ba.grow buf.length).position = ba.position := (congrArg Flat.position hf).trans (by simp)
  rw [← hf] at hroom
  clear hf
  generalize ba.grow buf.length = g at *
  rw [flat_mem, hg.mem_length, ← hpos] at hroom
  rcases hg.position_le_capacity.lt_or_eq with hp | hp
  · obtain ⟨node,next,hd,hs,hn⟩ := hg.derefCur_ok hp
    have hmod := Nat.mod_lt g.position g.basePos
    have hw := writeLoop_null (hg.uniform.drop (g.position / g.baseSize)) hmod buf g.position
      (List.ne_nil_of_length_pos (Nat.pos_of_ne_zero hb))
      (Nat.lt_of_not_le (mt (hg.room_eq _).mp (Nat.not_le_of_lt hroom)))
    rw [hn] at hw
    simp only [ofExcept_bind hd, hs, sizeSub_of_le hmod.le]
    exact ⟨g,ofExcept_stop hw _ _⟩
  · exact ⟨g,ofExcept_stop (hg.derefCur_null hp) _ _⟩

/-- A `write` that completes had room enough. -/
theorem write_completed (h : Rep ba) {buf : List UInt8} {ba' : ByteArray} (he : write buf ba = .ok () ba') :
    ba.position + buf.length ≤ (ba.flat.grow buf.length).mem.length ∧ Rep ba' ∧ ba'.flat = ba.flat.write buf := by
  rcases Nat.lt_or_ge (ba.flat.grow buf.length).mem.length (ba.position + buf.length) with hr | hr
  · obtain ⟨_,hn⟩ := write_null h buf hr
    rw [hn] at he
    cases he
  · obtain ⟨_,he',hrep,hf⟩ := write_ok h buf hr
    rw [he'] at he
    cases he
    exact ⟨hr,hrep,hf⟩

/-- The reading loop from the node of the position on reads from the position on. -/
private theorem readLoop_run (h : Rep ba) (n : Nat) (hn : ba.position + n ≤ ba.capacity) :
    readLoop (ba.root.drop (ba.position / ba.baseSize)) (ba.position % ba.baseSize)
        (ba.baseSize - ba.position % ba.baseSize) n ba.position =
      .ok (slice (memory ba.root) ba.position n,(ba.position % ba.baseSize + n) / ba.baseSize,ba.position + n) := by
  have hdm := Nat.div_add_mod ba.position ba.baseSize
  rw [readLoop_ok (h.uniform.drop _) (Nat.mod_lt _ ba.basePos) n _ ((h.room_eq _).mpr hn),
    memory_drop h.uniform, slice, slice, List.drop_drop, hdm]

theorem read_run (h : Rep ba) (n : Nat) (hn : ba.position + n ≤ ba.size) (hp : ba.position < ba.capacity) :
    read n ba = .ok (slice (memory ba.root) ba.position n)
      { ba with cur := ba.link ((ba.position + n) / ba.baseSize), position := ba.position + n } := by
  obtain ⟨node,next,hd,hs,hnx⟩ := h.derefCur_ok hp
  have hmod := Nat.mod_lt ba.position ba.basePos
  have hr := readLoop_run h n (hn.trans h.size_le)
  rw [hnx] at hr
  rw [read, get_run, if_neg (by rw [h.getReadSize_eq]; omega)]
  simp only [ofExcept_bind hd, hs, sizeSub_of_le hmod.le, ofExcept_bind hr, div_moved ba.basePos]
  rfl

/-- A read within the readable bytes returns them, as long as `m_cur` is not null. -/
theorem read_ok (h : Rep ba) (n : Nat) (hn : ba.position + n ≤ ba.size) (hp : ba.position < ba.capacity) :
    ∃ ba', read n ba = .ok (slice (memory ba.root) ba.position n) ba' ∧ Rep ba' ∧
      ba'.flat = { ba.flat with position := ba.position + n } := by
  refine ⟨_,read_run h n hn hp,?_,rfl⟩
  exact {
    uniform := h.uniform
    capacity_eq := h.capacity_eq
    root_ne := h.root_ne
    position_le := hn
    size_le := h.size_le
    cur_eq := rfl }

theorem read_short (h : Rep ba) (n : Nat) (hn : ba.size < ba.position + n) :
    read n ba = .error (.outOfRange "not enough len") ba := by
  rw [read, get_run, if_pos (by rw [h.getReadSize_eq]; have := h.position_le; omega)]
  rfl

/-- At the end of the chain even an empty read follows the null pointer. -/
theorem read_null (h : Rep ba) (hp : ba.position = ba.capacity) : read 0 ba = .error .nullDeref ba := by
  rw [read, get_run, if_neg (by omega)]
  exact ofExcept_stop (h.derefCur_null hp) _ _

theorem setPosition_run (h : Rep ba) (v : Nat) (hv : v ≤ ba.capacity) :
    setPosition v ba = .ok () { ba with position := v, size := max ba.size v, cur := ba.link (v / ba.baseSize) } := by
  have hmax : (if v > ba.size then v else ba.size) = max ba.size v := by split <;> omega
  rw [setPosition, get_run, if_neg (by omega),
    ofExcept_bind (seek_ok h.uniform ba.basePos v h.root_ne (h.capacity_eq ▸ hv)), hmax]
  rfl

theorem setPosition_ok (h : Rep ba) (v : Nat) (hv : v ≤ ba.capacity) :
    ∃ ba', setPosition v ba = .ok () ba' ∧ Rep ba' ∧ ba'.flat = ba.flat.setPosition v := by
  refine ⟨_,setPosition_run h v hv,?_,rfl⟩
  exact {
    uniform := h.uniform
    capacity_eq := h.capacity_eq
    root_ne := h.root_ne
    position_le := Nat.le_max_right _ _
    size_le := Nat.max_le.mpr ⟨h.size_le,hv⟩
    cur_eq := rfl }

theorem setPosition_throws (v : Nat) (hv : ba.capacity < v) :
    setPosition v ba = .error (.outOfRange "set_position out of range") ba := by
  rw [setPosition, get_run, if_pos hv]
  rfl

theorem clear_ok (h : Rep ba) : ∃ ba', clear ba = .ok () ba' ∧ Rep ba' ∧ ba'.flat = ba.flat.clear := by
  have hl : (ba.root.take 1).length = 1 := by
    have := List.length_pos_iff.mpr h.root_ne
    rw [List.length_take]
    omega
  refine ⟨_,rfl,?_,?_⟩
  · exact {
      uniform := h.uniform.take 1
      capacity_eq := by rw [hl, Nat.mul_one]
      root_ne := by
        change ba.root.take 1 ≠ []
        exact List.ne_nil_of_length_pos (by omega)
      position_le := le_rfl
      size_le := Nat.zero_le _
      cur_eq := by simp only [link, hl, Nat.zero_div, Nat.zero_lt_one, if_true] }
  · simp only [flat, Flat.clear, memory_take h.uniform, Nat.mul_one]

/-- `readAt` started where `m_cur` points. -/
theorem readAt_ok (h : Rep ba) (n : Nat) (hn : ba.position + n ≤ ba.size) (hp : ba.position < ba.capacity) :
    ba.readAt n ba.position = .ok (slice (memory ba.root) ba.position n) := by
  obtain ⟨node,next,hd,hs,hnx⟩ := h.derefCur_ok hp
  have hr := readLoop_run h n (hn.trans h.size_le)
  rw [hnx] at hr
  rw [readAt, sizeSub_of_le h.position_le, if_neg (by omega)]
  simp only [hd, ok_bind, hs, sizeSub_of_le (Nat.mod_lt ba.position ba.basePos).le, hr]

theorem toString_ok (h : Rep ba) : ba.toString = .ok (slice (memory ba.root) ba.position (ba.size - ba.position)) := by
  have hle := h.position_le
  have hc := h.size_le
  rw [toString, h.getReadSize_eq]
  split
  · rename_i hz
    rw [hz, slice_zero]
  · exact readAt_ok h _ (by omega) (by omega)

/-- The iovecs from the node of the position on cover the range from the position on. -/
private theorem iovLoop_run (h : Rep ba) (len : Nat) (hn : ba.position + len ≤ ba.capacity) :
    ∃ iovs, iovLoop (ba.root.drop (ba.position / ba.baseSize)) (ba.position / ba.baseSize) (ba.position % ba.baseSize)
        (ba.baseSize - ba.position % ba.baseSize) len = .ok iovs ∧ Covers ba.baseSize iovs ba.position len := by
  obtain ⟨iovs,hr,hc⟩ := iovLoop_ok (h.uniform.drop _) (ba.position / ba.baseSize) (Nat.mod_lt _ ba.basePos) len
    ((h.room_eq _).mpr hn)
  rw [Nat.div_add_mod] at hc
  exact ⟨iovs,hr,hc⟩

theorem getReadBuffers_ok (h : Rep ba) (len : Nat) :
    ∃ iovs, ba.getReadBuffers len = .ok (iovs,min len (ba.size - ba.position)) ∧
      Covers ba.baseSize iovs ba.position (min len (ba.size - ba.position)) := by
  have hmin : (if len > ba.getReadSize then ba.getReadSize else len) = min len (ba.size - ba.position) := by
    rw [h.getReadSize_eq]
    split <;> omega
  have hle := h.size_le
  simp only [getReadBuffers, hmin]
  generalize hm : min len (ba.size - ba.position) = m
  by_cases hz : m = 0
  · exact ⟨[],by rw [if_pos hz, hz],hz⟩
  obtain ⟨node,next,hd,hs,hnx⟩ := h.derefCur_ok (by omega)
  obtain ⟨iovs,hr,hc⟩ := iovLoop_run h m (by omega)
  rw [hnx] at hr
  refine ⟨iovs,?_,hc⟩
  simp only [if_neg hz, hd, ok_bind, hs, sizeSub_of_le (Nat.mod_lt ba.position ba.basePos).le, hr]

theorem getWriteBuffers_ok (h : Rep ba) (len : Nat) (hroom : ba.position + len ≤ (ba.flat.grow len).mem.length) :
    ∃ iovs, getWriteBuffers len ba = .ok (iovs,len) (ba.grow len) ∧ Covers ba.baseSize iovs ba.position len := by
  by_cases hz : len = 0
  · subst hz
    exact ⟨[],rfl,rfl⟩
  rw [getWriteBuffers, if_neg hz, bind_ok (addCapacity_run ba _), get_run]
  obtain ⟨hg,hf⟩ := grow_flat h len
  have hpos : (ba.grow len).position = ba.position := (congrArg Flat.position hf).trans (by simp)
  have hbase : (ba.grow len).baseSize = ba.baseSize := (congrArg Flat.baseSize hf).trans (by simp)
  rw [← hf] at hroom
  clear hf
  generalize ba.grow len = g at *
  rw [flat_mem, hg.mem_length] at hroom
  obtain ⟨node,next,hd,hs,hnx⟩ := hg.derefCur_ok (by omega)
  obtain ⟨iovs,hr,hc⟩ := iovLoop_run hg len (by omega)
  rw [hnx] at hr
  rw [hbase, hpos] at hc
  refine ⟨iovs,?_,hc⟩
  simp only [ofExcept_bind hd, hs, sizeSub_of_le (Nat.mod_lt g.position g.basePos).le, ofExcept_bind hr]
  rfl

theorem getWriteBuffers_null (h : Rep ba) (len : Nat) (hroom : (ba.flat.grow len).mem.length < ba.position + len) :
    ∃ ba', getWriteBuffers len ba = .error .nullDeref ba' := by
  have hz : len ≠ 0 := by
    rintro rfl
    obtain ⟨extra,he⟩ := ba.flat.grow_mem 0
    rw [he, List.length_append, flat_mem, h.mem_length] at hroom
    have := h.position_le_capacity
    omega
  rw [getWriteBuffers, if_neg hz, bind_ok (addCapacity_run ba _), get_run]
  obtain ⟨hg,hf⟩ := grow_flat h len
  have hpos : (ba.grow len).position = ba.position := (congrArg Flat.position hf).trans (by simp)
  rw [← hf] at hroom
  clear hf
  generalize ba.grow len = g at *
  rw [flat_mem, hg.mem_length, ← hpos] at hroom
  rcases hg.position_le_capacity.lt_or_eq with hp | hp
  · obtain ⟨node,next,hd,hs,hn⟩ := hg.derefCur_ok hp
    have hmod := Nat.mod_lt g.position g.basePos
    have hw := iovLoop_null (hg.uniform.drop (g.position / g.baseSize)) (g.position / g.baseSize) hmod len hz
      (Nat.lt_of_not_le (mt (hg.room_eq _).mp (Nat.not_le_of_lt hroom)))
    rw [hn] at hw
    simp only [ofExcept_bind hd, hs, sizeSub_of_le hmod.le]
    exact ⟨g,ofExcept_stop hw _ _⟩
  · exact ⟨g,ofExcept_stop (hg.derefCur_null hp) _ _⟩

theorem getWriteBuffers_completed (h : Rep ba) {len n : Nat} {iovs : List IoVec} {g : ByteArray}
    (he : getWriteBuffers len ba = .ok (iovs,n) g) :
    ba.position + len ≤ (ba.flat.grow len).mem.length ∧ n = len ∧ g = ba.grow len ∧
      Covers ba.baseSize iovs ba.position len := by
  rcases Nat.lt_or_ge (ba.flat.grow len).mem.length (ba.position + len) with hr | hr
  · obtain ⟨_,hn⟩ := getWriteBuffers_null h len hr
    rw [hn] at he
    cases he
  · obtain ⟨_,he',hc⟩ := getWriteBuffers_ok h len hr
    rw [he'] at he
    cases he
    exact ⟨hr,rfl,rfl,hc⟩

end Operations
end ByteArray
end Radixun.Common
