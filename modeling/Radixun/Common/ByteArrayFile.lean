import Radixun.Common.ByteArrayStream

/-! A byte array saved to a file, from any position, and loaded into one with another block size. -/
namespace Radixun.Common.ByteArray
open Foundation.BlockMemory Foundation.ExceptionState Foundation.CommandRuns

/-- The bytes that `ofs.write(ptr + diff, len)` takes from the block. -/
def FileWrite.bytes (w : FileWrite) : Except Stop (List UInt8) :=
  if 0 ≤ w.diff ∧ 0 ≤ w.len ∧ w.diff + w.len ≤ w.ptr.length then .ok (slice w.ptr w.diff.toNat w.len.toNat)
  else .error .overrun

/-- What the file holds after the stream operations: it was truncated when opened. -/
def fileContent : List FileWrite → Except Stop (List UInt8)
  | [] => .ok []
  | w :: ws => do
    let bytes ← w.bytes
    let more ← fileContent ws
    .ok (bytes ++ more)

private theorem fileLoop_done (baseSize : Nat) (cur : List Node) (pos : Int) : fileLoop baseSize cur pos 0 = .ok [] := by
  rw [fileLoop.eq_def, if_neg (by omega)]

/-- The stream operations take the range of `len` bytes from byte `a` on, one node of the chain after another; `i` is the
number of the first node of the chain. -/
def FileCovers (B : Nat) : List FileWrite → Nat → List Node → Nat → Nat → Prop
  | [], _, _, _, len => len = 0
  | _ :: _, _, [], _, _ => False
  | w :: ws, i, node :: next, a, len => w.ptr = node.ptr ∧ 0 ≤ w.diff ∧ (B * i + w.diff : Int) = a ∧ 0 < w.len ∧
      w.diff + w.len ≤ B ∧ w.len ≤ len ∧ FileCovers B ws (i + 1) next (a + w.len.toNat) (len - w.len.toNat)

/-- One operation of such a list, on a node of `B` bytes. -/
theorem FileCovers.cons_nat {B i a len : Nat} {node : Node} {next : List Node} {ws : List FileWrite} (off n : Nat)
    (ha : B * i + off = a) (hn : 0 < n) (hoff : off + n ≤ B) (hle : n ≤ len)
    (h : FileCovers B ws (i + 1) next (a + n) (len - n)) :
    FileCovers B (⟨node.ptr,off,n⟩ :: ws) i (node :: next) a len := by
  refine ⟨rfl,Int.natCast_nonneg off,?_,Int.natCast_pos.mpr hn,?_,?_,by rwa [Int.toNat_natCast]⟩
  · rw [← ha]
    push_cast
    rfl
  · exact Int.ofNat_le.mpr hoff
  · exact Int.ofNat_le.mpr hle

theorem FileCovers.positive {B i a len : Nat} {chain : List Node} {ws : List FileWrite}
    (h : FileCovers B ws i chain a len) : ∀ w ∈ ws, 0 < w.len := by
  induction ws generalizing i chain a len with
  | nil => exact fun w hw => absurd hw List.not_mem_nil
  | cons w ws ih =>
    cases chain with
    | nil => exact h.elim
    | cons node next =>
      obtain ⟨-,-,-,hpos,-,-,hrest⟩ := h
      exact List.forall_mem_cons.mpr ⟨hpos,ih hrest⟩

/-- They leave these bytes in the file. -/
theorem FileCovers.content {B i off len : Nat} {chain : List Node} {ws : List FileWrite} (hu : Uniform B chain)
    (h : FileCovers B ws i chain (B * i + off) len) : fileContent ws = .ok (slice (memory chain) off len) := by
  induction ws generalizing i off len chain with
  | nil =>
    obtain rfl : len = 0 := h
    rw [fileContent, slice_zero]
  | cons w ws ih =>
    cases chain with
    | nil => exact h.elim
    | cons node next =>
      have hl : node.ptr.length = B := node.filled.trans hu.head
      obtain ⟨hptr,hd,ha,hpos,hfit,hle,hrest⟩ := h
      obtain ⟨n,hn⟩ := Int.eq_ofNat_of_zero_le hpos.le
      have hdiff : w.diff = off := by push_cast at ha; omega
      have hb : w.bytes = .ok (slice node.ptr off n) := by
        rw [FileWrite.bytes, if_pos ⟨hd,hpos.le,by rw [hptr, hl]; exact hfit⟩, hptr, hdiff, hn]
        rfl
      rw [hn, Int.toNat_natCast] at hrest
      rw [fileContent, hb, ok_bind, memory_cons]
      cases ws with
      | nil =>
        have hlen : len - n = 0 := hrest
        obtain rfl : len = n := by omega
        rw [fileContent, ok_bind, List.append_nil, slice_append_left (by omega)]
      | cons w' ws =>
        -- what follows begins in the next node, so this one was used up
        have hend : off + n = B := by
          cases next with
          | nil => exact hrest.elim
          | cons node' next =>
            obtain ⟨-,hd',ha',-⟩ := hrest
            push_cast at ha'
            rw [Int.mul_add, Int.mul_one] at ha'
            omega
        rw [Nat.add_assoc, hend, ← Nat.mul_succ] at hrest
        have hmore : FileCovers B (w' :: ws) (i + 1) next (B * (i + 1) + 0) (len - n) := hrest
        rw [ih hu.tail hmore, ok_bind, slice_append_split (by omega) (by omega), hl, ← hend, Nat.add_sub_cancel_left]

/-- From a block boundary on the loop takes whole blocks, and of the last one as far as the data goes. -/
theorem fileLoop_covers {B : Nat} (hB : 0 < B) {chain : List Node} (hu : Uniform B chain) (i n : Nat)
    (hn : n ≤ B * chain.length) :
    ∃ writes, fileLoop B chain (B * i : Nat) n = .ok writes ∧ FileCovers B writes i chain (B * i) n := by
  induction chain generalizing i n with
  | nil =>
    rw [List.length_nil, Nat.mul_zero] at hn
    obtain rfl : n = 0 := by omega
    exact ⟨[],fileLoop_done _ _ _,rfl⟩
  | cons node next ih =>
    rw [List.length_cons, Nat.mul_succ] at hn
    rcases Nat.eq_zero_or_pos n with rfl | hpos
    · exact ⟨[],fileLoop_done _ _ _,rfl⟩
    have hdiff : (((asUnsigned (B * i : Nat) % B : Nat) : Int)).bmod (2^32) = 0 := by
      rw [asUnsigned, if_pos (by omega), Int.toNat_natCast, Nat.mul_mod_right]
      rfl
    rcases Nat.lt_or_ge B n with hlt | hge
    · -- a whole block and the rest of the chain
      obtain ⟨more,hr,hc⟩ := ih hu.tail (i + 1) (n - B) (by omega)
      have hlen : (if (n : Int) > B then (B : Int) else n) - 0 = B := by rw [if_pos (by omega), Int.sub_zero]
      refine ⟨⟨node.ptr,0,B⟩ :: more,?_,FileCovers.cons_nat 0 B rfl hB (by omega) hlt.le (Nat.mul_succ B i ▸ hc)⟩
      rw [fileLoop, if_pos (by omega)]
      simp only [hdiff, hlen]
      rw [show ((B * i : Nat) : Int) + B = (B * (i + 1) : Nat) by push_cast; ring,
        show (n : Int) - B = (n - B : Nat) by omega, hr, ok_bind]
    · have hlen : (if (n : Int) > B then (B : Int) else n) - 0 = n := by rw [if_neg (by omega), Int.sub_zero]
      refine ⟨[⟨node.ptr,0,n⟩],?_,FileCovers.cons_nat 0 n rfl hpos (by omega) le_rfl (Nat.sub_self n)⟩
      rw [fileLoop, if_pos (by omega)]
      simp only [hdiff, hlen, Int.sub_self, fileLoop_done, ok_bind]

/-- Saving from the start puts the content into the file. -/
theorem writeToFile_ok {ba : ByteArray} (h : Rep ba) (hp : ba.position = 0) :
    ∃ writes, ba.writeToFile true = .ok (some writes) ∧ fileContent writes = .ok ba.flat.content := by
  have hroot := List.length_pos_iff.mpr h.root_ne
  obtain ⟨writes,hw,hcov⟩ := fileLoop_covers ba.basePos h.uniform 0 ba.size (h.capacity_eq ▸ h.size_le)
  have hc : fileContent writes = .ok (slice (memory ba.root) 0 ba.size) := hcov.content h.uniform
  have hcur : ba.chainAt ba.cur = ba.root := by
    rw [h.cur_eq, hp, Nat.zero_div, link, if_pos hroot, chainAt, List.drop_zero]
  refine ⟨writes,?_,hc⟩
  rw [writeToFile, if_pos rfl, hcur, h.getReadSize_eq, hp, Nat.sub_zero]
  rw [Nat.mul_zero] at hw
  rw [hw]
  rfl

/-- Between two blocks the position is at the end of the capacity, or one block before it.
Then the next block finds room, and a full one ends at the end of the capacity. -/
theorem grow_block {ba : ByteArray} (h : Rep ba) (hc : ba.capacity = ba.position ∨ ba.capacity = ba.position + ba.baseSize)
    {n : Nat} (hn : n ≤ ba.baseSize) :
    ba.position + n ≤ (ba.flat.grow n).mem.length ∧
      (n = ba.baseSize → (ba.flat.grow n).mem.length = ba.position + ba.baseSize) := by
  have hB := ba.basePos
  have hl : ba.flat.mem.length = ba.capacity := h.mem_length
  unfold Flat.grow
  split
  · rename_i hle
    simp only [hl, flat_position] at hle ⊢
    omega
  · rename_i hgt
    simp only [hl, flat_position] at hgt ⊢
    obtain hend : ba.capacity = ba.position := by omega
    have hcount : nodeCount ba.baseSize 0 n = 1 := by
      rcases hn.lt_or_eq with hlt | rfl
      · rw [nodeCount, Nat.div_eq_of_lt hlt, Nat.mod_eq_of_lt hlt, if_pos (by omega)]
      · rw [nodeCount, Nat.div_self hB, Nat.mod_self, if_neg (by omega)]
    rw [List.length_append, hl, Flat.fresh_length, hend, Nat.sub_self, Nat.sub_zero, flat_baseSize, hcount]
    omega

/-- Loading appends the bytes of the file. -/
theorem readBlocks_ok {B : Nat} (pos : 0 < B) (file : List UInt8) {ba : ByteArray} {order : Endian} {bytes : List UInt8}
    (h : Written ba order bytes) (hb : ba.baseSize = B)
    (hc : ba.capacity = ba.position ∨ ba.capacity = ba.position + ba.baseSize) :
    ∃ ba', readBlocks B pos file ba = .ok () ba' ∧ Written ba' order (bytes ++ file) := by
  induction hn : file.length using Nat.strongRecOn generalizing file ba bytes with
  | ind n ih =>
    have hl : (file.take B).length = min B file.length := List.length_take
    obtain ⟨hroom,hfull⟩ := grow_block h.rep hc (show (file.take B).length ≤ ba.baseSize by omega)
    obtain ⟨ba₁,he,hrep,hf⟩ := write_ok h.rep (file.take B) hroom
    have h₁ := h.write he
    rw [readBlocks, bind_ok he]
    split
    · rename_i hle
      have hlen : (file.take B).length = B := by omega
      have hb₁ : ba₁.baseSize = B := (congrArg Flat.baseSize hf).trans (by simp [Flat.write, hb])
      have hp₁ : ba₁.position = ba.position + (file.take B).length := congrArg Flat.position hf
      have hm₁ : ba₁.capacity = ba.position + ba.baseSize := by
        rw [← hrep.mem_length, ← flat_mem, show ba₁.flat.mem = _ from congrArg Flat.mem hf, ← hfull (by omega)]
        exact patch_length hroom
      obtain ⟨ba₂,he₂,h₂⟩ := ih _ (by rw [List.length_drop]; omega) (file.drop B) h₁ hb₁ (.inl (by omega)) rfl
      rw [List.append_assoc, List.take_append_drop] at h₂
      exact ⟨ba₂,he₂,h₂⟩
    · rename_i hlt
      rw [List.take_of_length_le (by omega)] at h₁
      exact ⟨ba₁,rfl,h₁⟩

/-- A byte array saved from its start and loaded with any other block size has the same
content. Neither direction runs out of its chain. -/
theorem file_round_trip (host : Endian) (b₁ b₂ : Nat) (ba : ByteArray) (h : Reachable host b₁ ba) (hp : ba.position = 0)
    (writes : List FileWrite) (hw : ba.writeToFile true = .ok (some writes)) (pos : 0 < b₂) (heap : Heap) :
    ∃ file content loaded start, fileContent writes = .ok file ∧ ba.toString = .ok content ∧
      readFromFile (some file) (new b₂ pos heap) = .ok true loaded ∧ setPosition 0 loaded = .ok () start ∧
      start.toString = .ok content ∧ start.size = ba.size := by
  have hrep := h.repOf.1
  obtain ⟨writes',hw',hfile⟩ := writeToFile_ok hrep hp
  rw [hw'] at hw
  cases hw
  have hnew : Written (new b₂ pos heap) .big [] := ⟨rep_new b₂ pos heap,rfl,rfl,rfl⟩
  obtain ⟨loaded,hl,hwritten⟩ := readBlocks_ok pos ba.flat.content hnew rfl (.inr (Nat.zero_add _).symm)
  rw [List.nil_append] at hwritten
  obtain ⟨start,hs,hahead,hsize⟩ := hwritten.setPosition
  refine ⟨_,_,loaded,start,hfile,?_,?_,hs,hahead.toString,?_⟩
  · rw [toString_ok hrep, hp, Nat.sub_zero]
    rfl
  · rw [readFromFile, get_run]
    exact bind_ok hl
  · rw [hsize, ← content_length hwritten.rep, hwritten.content_eq, content_length hrep]

/-- Four bytes saved from blocks of three and loaded into blocks of two. -/
theorem file_round_trip_blocks :
    ∃ ba writes file loaded start, Reachable .little 3 ba ∧ ba.writeToFile true = .ok (some writes) ∧
      fileContent writes = .ok file ∧ ba.toString = .ok [1,2,3,4] ∧
      readFromFile (some file) (new 2 Nat.two_pos zeroHeap) = .ok true loaded ∧ setPosition 0 loaded = .ok () start ∧
      start.toString = .ok [1,2,3,4] ∧ start.size = ba.size := by
  let calls : List Call := [.write [1,2,3],.write [4],.setPosition 0]
  have hrun : (runAll (Call.run .little) calls (new 3 (by decide) zeroHeap)).map
      (fun r => (r.2.position,r.2.toString.toOption)) = .ok (0,some [1,2,3,4]) := by decide +kernel
  cases hr : runAll (Call.run .little) calls (new 3 (by decide) zeroHeap) with
  | error e => rw [hr] at hrun; cases hrun
  | ok out =>
    obtain ⟨rs,ba⟩ := out
    rw [hr] at hrun
    obtain ⟨hp,ht⟩ := Prod.mk.inj (Except.ok.inj hrun)
    have hreach : Reachable .little 3 ba := ⟨by decide,zeroHeap,calls,rs,hr⟩
    obtain ⟨writes,hw,-⟩ := writeToFile_ok hreach.repOf.1 hp
    obtain ⟨file,content,loaded,start,hfile,hc,hl,hs,hts,hsize⟩ :=
      file_round_trip .little 3 2 ba hreach hp writes hw Nat.two_pos zeroHeap
    simp only [hc] at ht
    cases ht
    exact ⟨ba,writes,file,loaded,start,hreach,hw,hfile,hc,hl,hs,hts,hsize⟩

/-- One turn of the loop that was completed. -/
theorem fileLoop_turn {B : Nat} {chain : List Node} {pos readSize : Int} {writes : List FileWrite} (hr : 0 < readSize)
    (he : fileLoop B chain pos readSize = .ok writes) : ∃ node next more, chain = node :: next ∧
      let diff := ((asUnsigned pos % B : Nat) : Int).bmod (2^32)
      let len := (if readSize > B then (B : Int) else readSize) - diff
      writes = ⟨node.ptr,diff,len⟩ :: more ∧ fileLoop B next (pos + len) (readSize - len) = .ok more := by
  rw [fileLoop.eq_def, if_pos hr] at he
  cases chain with
  | nil => cases he
  | cons node next =>
    obtain ⟨more,hmore,rfl⟩ := map_ok (f := fun more => _ :: more) he
    exact ⟨node,next,more,rfl,rfl,hmore⟩

/-- What saving is for: the bytes from the position on, node by node, in operations of positive length. -/
def SavesTail (ba : ByteArray) : Prop :=
  ∃ writes, ba.writeToFile true = .ok (some writes) ∧ (∀ w ∈ writes, 0 < w.len) ∧
    FileCovers ba.baseSize writes (ba.position / ba.baseSize) (ba.root.drop (ba.position / ba.baseSize)) ba.position
      (ba.size - ba.position) ∧
    fileContent writes = .ok (slice (memory ba.root) ba.position (ba.size - ba.position))

section Tail
variable {ba : ByteArray}

/-- The offset goes through an `int`, which holds it if it is below `2^31`. -/
theorem offset_eq_iff (p B : Nat) : ((asUnsigned p % B : Nat) : Int).bmod (2^32) = (p % B : Nat) ↔ p % B < 2^31 := by
  have hp : asUnsigned p = p := by rw [asUnsigned, if_pos (Int.natCast_nonneg p), Int.toNat_natCast]
  rw [hp]
  constructor
  · intro heq
    have hlt := Int.bmod_lt (x := ((p % B : Nat) : Int)) (show 0 < 2^32 by decide)
    rw [heq] at hlt
    exact Int.ofNat_lt.mp hlt
  · intro hlt
    exact Int.bmod_eq_of_le (by omega) (by omega)

theorem chainAt_cur (h : Rep ba) (hp : ba.position < ba.capacity) :
    ba.chainAt ba.cur = ba.root.drop (ba.position / ba.baseSize) := by
  rw [h.cur_eq, link, if_pos (h.node_lt hp), chainAt]

theorem savesTail_iff_loop (h : Rep ba) (hp : ba.position < ba.size) : SavesTail ba ↔
    ∃ writes, fileLoop ba.baseSize (ba.root.drop (ba.position / ba.baseSize)) ba.position (ba.size - ba.position : Nat) =
        .ok writes ∧
      FileCovers ba.baseSize writes (ba.position / ba.baseSize) (ba.root.drop (ba.position / ba.baseSize)) ba.position
        (ba.size - ba.position) := by
  have hwrite : ba.writeToFile true = some <$> fileLoop ba.baseSize (ba.root.drop (ba.position / ba.baseSize)) ba.position
      (ba.size - ba.position : Nat) := by
    rw [writeToFile, if_pos rfl, chainAt_cur h (hp.trans_le h.size_le), h.getReadSize_eq]
  constructor
  · rintro ⟨writes,he,-,hcov,-⟩
    rw [hwrite] at he
    obtain ⟨writes',he',hsome⟩ := map_ok he
    cases hsome
    exact ⟨writes,he',hcov⟩
  · rintro ⟨writes,he,hcov⟩
    have hsplit : FileCovers ba.baseSize writes (ba.position / ba.baseSize) (ba.root.drop (ba.position / ba.baseSize))
        (ba.baseSize * (ba.position / ba.baseSize) + ba.position % ba.baseSize) (ba.size - ba.position) := by
      rwa [Nat.div_add_mod]
    refine ⟨writes,by rw [hwrite, he]; rfl,hcov.positive,hcov,?_⟩
    rw [hsplit.content (h.uniform.drop _), memory_drop h.uniform, slice, slice, List.drop_drop, Nat.div_add_mod]

/-- From within a block the loop goes on right if there is a whole block's worth of bytes. -/
theorem fileLoop_inside {B i d n : Nat} {chain : List Node} (hB : 0 < B) (hu : Uniform B chain) (hd : d < B) (hd31 : d < 2^31)
    (hpos : 0 < d) (hn : B ≤ n) (hroom : d + n ≤ B * chain.length) :
    ∃ writes, fileLoop B chain (B * i + d : Nat) n = .ok writes ∧ FileCovers B writes i chain (B * i + d) n := by
  have hmod : (B * i + d) % B = d := by rw [Nat.mul_add_mod, Nat.mod_eq_of_lt hd]
  have hdiff := (offset_eq_iff (B * i + d) B).mpr (hmod.symm ▸ hd31)
  rw [hmod] at hdiff
  cases chain with
  | nil =>
    rw [List.length_nil, Nat.mul_zero] at hroom
    omega
  | cons node next =>
    rw [List.length_cons, Nat.mul_succ] at hroom
    have hlen : (if (n : Int) > B then (B : Int) else n) - d = (B - d : Nat) := by split <;> omega
    have hnext : ((B * i + d : Nat) : Int) + (B - d : Nat) = (B * (i + 1) : Nat) := by
      rw [Nat.mul_succ]
      omega
    obtain ⟨more,hr,hc⟩ := fileLoop_covers hB hu.tail (i + 1) (n - (B - d)) (by omega)
    refine ⟨⟨node.ptr,d,(B - d : Nat)⟩ :: more,?_,FileCovers.cons_nat d (B - d) rfl (by omega) (by omega) (by omega) ?_⟩
    · rw [fileLoop, if_pos (by omega)]
      simp only [hdiff, hlen, hnext]
      rw [show (n : Int) - (B - d : Nat) = (n - (B - d) : Nat) by omega, hr, ok_bind]
    · rwa [show B * i + d + (B - d) = B * (i + 1) by rw [Nat.mul_succ]; omega]

/-- And only then: with less than a block left the offset is taken off what is left, and the next node is begun too early. -/
theorem fileLoop_needs {B i d n : Nat} {chain : List Node} {writes : List FileWrite} (hd : d < B) (hpos : 0 < d) (hn : 0 < n)
    (he : fileLoop B chain (B * i + d : Nat) n = .ok writes) (hc : FileCovers B writes i chain (B * i + d) n) :
    B ≤ n ∧ d < 2^31 := by
  have hmod : (B * i + d) % B = d := by rw [Nat.mul_add_mod, Nat.mod_eq_of_lt hd]
  obtain ⟨node,next,more,rfl,rfl,-⟩ := fileLoop_turn (Int.natCast_pos.mpr hn) he
  obtain ⟨-,-,ha,hlen,-,-,hrest⟩ := hc
  have hdiff : ((asUnsigned (B * i + d : Nat) % B : Nat) : Int).bmod (2^32) = d := by push_cast at ha ⊢; omega
  have hd31 : d < 2^31 := hmod ▸ (offset_eq_iff (B * i + d) B).mp (by rw [hmod]; exact hdiff)
  refine ⟨?_,hd31⟩
  by_contra hshort
  simp only [hdiff] at hlen hrest
  rw [if_neg (show ¬(n : Int) > B by omega)] at hlen hrest
  rw [show ((n : Int) - d).toNat = n - d by omega] at hrest
  cases more with
  | nil =>
    have hleft : n - (n - d) = 0 := hrest
    omega
  | cons w ws =>
    cases next with
    | nil => exact hrest.elim
    | cons node' next =>
      obtain ⟨-,hge,ha',-⟩ := hrest
      push_cast at ha'
      rw [Int.mul_add, Int.mul_one] at ha'
      omega

theorem fileLoop_iff {B p n : Nat} {chain : List Node} (hB : 0 < B) (hu : Uniform B chain) (hn : 0 < n)
    (hroom : p % B + n ≤ B * chain.length) :
    (∃ writes, fileLoop B chain p n = .ok writes ∧ FileCovers B writes (p / B) chain p n) ↔
      p % B = 0 ∨ (B ≤ n ∧ p % B < 2^31) := by
  have hmod := Nat.mod_lt p hB
  have hdm := Nat.div_add_mod p B
  generalize p / B = i, p % B = d at *
  subst hdm
  rcases Nat.eq_zero_or_pos d with rfl | hd
  · refine iff_of_true ?_ (.inl rfl)
    exact fileLoop_covers hB hu i n (by omega)
  rw [or_iff_right hd.ne']
  constructor
  · rintro ⟨writes,he,hcov⟩
    exact fileLoop_needs hmod hd hn he hcov
  · rintro ⟨hle,hd31⟩
    exact fileLoop_inside hB hu hmod hd31 hd hle hroom

end Tail

/-- In every reachable state saving writes the bytes from the position on exactly if there are none, or the position is on a
block boundary, or there is a whole block's worth of them and the offset in the block fits an `int`. -/
theorem writeToFile_iff (host : Endian) (baseSize : Nat) (ba : ByteArray) (h : Reachable host baseSize ba) :
    SavesTail ba ↔ ba.size - ba.position = 0 ∨ ba.position % baseSize = 0 ∨
      (baseSize ≤ ba.size - ba.position ∧ ba.position % baseSize < 2^31) := by
  obtain ⟨hrep,rfl⟩ := h.repOf
  have hc := hrep.size_le
  rcases Nat.eq_zero_or_pos (ba.size - ba.position) with hz | hr
  · refine iff_of_true ?_ (.inl hz)
    refine ⟨[],?_,fun w hw => absurd hw List.not_mem_nil,hz,by rw [hz, slice_zero]; rfl⟩
    rw [writeToFile, if_pos rfl, hrep.getReadSize_eq, hz]
    exact congrArg (some <$> ·) (fileLoop_done _ _ _)
  · have hroom := (hrep.room_eq (ba.size - ba.position)).mpr (by omega)
    rw [savesTail_iff_loop hrep (by omega), or_iff_right hr.ne']
    exact fileLoop_iff ba.basePos (hrep.uniform.drop _) hr hroom

/-- Three bytes from the second one of a block of two on. -/
theorem writeToFile_inside : ∃ ba, Reachable .little 2 ba ∧ ba.position = 1 ∧ ba.size = 4 ∧ SavesTail ba := by
  obtain ⟨ba,hreach,hat⟩ : ∃ ba, Reachable .little 2 ba ∧ (ba.position,ba.size) = (1,4) :=
    reachable_of_run Nat.two_pos zeroHeap [.write [1,2,3,4],.setPosition 1] (by decide +kernel)
  obtain ⟨hp,hs⟩ := Prod.mk.inj hat
  refine ⟨ba,hreach,hp,hs,(writeToFile_iff .little 2 ba hreach).mpr ?_⟩
  rw [hp, hs]
  decide

/-- Three bytes in a block of four and the position behind the second one: the length passed to the stream is minus one, and
then the null pointer behind the block is followed. -/
theorem writeToFile_short : ∃ ba, Reachable .little 4 ba ∧ ba.position = 2 ∧ ba.size = 3 ∧
    ba.writeToFile true = .error .nullDeref ∧ ¬SavesTail ba := by
  obtain ⟨ba,hreach,hat⟩ : ∃ ba, Reachable .little 4 ba ∧
      (ba.position,ba.size,ba.writeToFile true) = (2,3,.error .nullDeref) :=
    reachable_of_run (by decide) zeroHeap [.write [1,2,3],.setPosition 2] (by decide +kernel)
  obtain ⟨hp,hmore⟩ := Prod.mk.inj hat
  obtain ⟨hs,hw⟩ := Prod.mk.inj hmore
  refine ⟨ba,hreach,hp,hs,hw,?_⟩
  rintro ⟨writes,he,-⟩
  rw [hw] at he
  cases he

end Radixun.Common.ByteArray
