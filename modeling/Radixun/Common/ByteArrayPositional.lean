import Radixun.Common.ByteArrayReadFailures
import Radixun.Common.ByteArrayScatter

/-! The members that take a position of their own. The copying one starts at `m_cur` all the same, the listing one cuts
its length by `m_position`. -/
namespace Radixun.Common.ByteArray
open Foundation.BlockMemory Foundation.ExceptionState Foundation.CommandRuns

/-- Where the positional read begins: at the offset of `q`, but in the node of `m_cur`. -/
def readStart (ba : ByteArray) (q : Nat) : Nat := ba.baseSize * (ba.position / ba.baseSize) + q % ba.baseSize

section ReadAt
variable {ba : ByteArray} {n q : Nat}

/-- The room from an offset in node `i` to the end of the chain. -/
theorem Rep.room_from (h : Rep ba) {i : Nat} (hi : i ≤ ba.root.length) (npos n : Nat) :
    npos + n ≤ ba.baseSize * (ba.root.drop i).length ↔ ba.baseSize * i + npos + n ≤ ba.capacity := by
  have hsub := Nat.mul_sub ba.baseSize ba.root.length i
  have hmul : ba.baseSize * i ≤ ba.baseSize * ba.root.length := Nat.mul_le_mul_left _ hi
  rw [List.length_drop, h.capacity_eq]
  omega

theorem readStart_lt (h : Rep ba) (hp : ba.position < ba.capacity) : ba.readStart q < ba.capacity := by
  have hmod := Nat.mod_lt q ba.basePos
  have hnode := Nat.mul_le_mul_left ba.baseSize (Nat.succ_le_of_lt (h.node_lt hp))
  rw [← h.capacity_eq, Nat.mul_succ] at hnode
  rw [readStart]
  omega

/-- What the positional read returns where the sizes let it begin. -/
theorem readAt_run (h : Rep ba) (hp : ba.position < ba.capacity) (hn : n ≤ sizeSub ba.size q) : ba.readAt n q =
    if ba.readStart q + n ≤ ba.capacity then .ok (slice (memory ba.root) (ba.readStart q) n) else .error .nullDeref := by
  obtain ⟨node,next,hd,hs,hnx⟩ := h.derefCur_ok hp
  have hmod := Nat.mod_lt q ba.basePos
  have hroom := h.room_from (h.node_lt hp).le (q % ba.baseSize) n
  rw [readAt, if_neg (Nat.not_lt.mpr hn)]
  simp only [hd, ok_bind, hs, sizeSub_of_le hmod.le, ← hnx]
  rw [← readStart] at hroom
  split
  · rename_i hfit
    rw [readLoop_ok (h.uniform.drop _) hmod n q (hroom.mpr hfit), memory_drop h.uniform, slice, List.drop_drop]
    rfl
  · rename_i hlong
    have hz : n ≠ 0 := by
      rintro rfl
      exact hlong (readStart_lt h hp).le
    rw [readLoop_null (h.uniform.drop _) hmod n q hz (by omega)]
    rfl

theorem readAt_null (h : Rep ba) (hp : ba.position = ba.capacity) (hn : n ≤ sizeSub ba.size q) :
    ba.readAt n q = .error .nullDeref := by
  rw [readAt, if_neg (Nat.not_lt.mpr hn), h.derefCur_null hp, error_bind]

theorem readAt_throws (hn : sizeSub ba.size q < n) : ba.readAt n q = .error (.outOfRange "not enough len") := by
  rw [readAt, if_pos hn]

/-- A range of the content is found exactly if the chain holds its bytes where the read begins. -/
theorem readAt_range_iff (h : Rep ba) (hp : ba.position < ba.capacity) (hq : q ≤ ba.size) (hn : n ≤ ba.size - q) :
    ba.readAt n q = .ok (slice (memory ba.root) q n) ↔ n = 0 ∨ q / ba.baseSize = ba.position / ba.baseSize ∨
      (ba.readStart q + n ≤ ba.capacity ∧ slice (memory ba.root) (ba.readStart q) n = slice (memory ba.root) q n) := by
  have hc := h.size_le
  have hok : ba.readAt n q = .ok (slice (memory ba.root) q n) ↔
      ba.readStart q + n ≤ ba.capacity ∧ slice (memory ba.root) (ba.readStart q) n = slice (memory ba.root) q n := by
    rw [readAt_run h hp (by rw [sizeSub_of_le hq]; exact hn)]
    split
    · rename_i hfit
      rw [and_iff_right hfit, Except.ok.injEq]
    · rename_i hlong
      exact iff_of_false (by simp) (fun hboth => hlong hboth.1)
  rw [hok]
  constructor
  · intro hboth
    exact .inr (.inr hboth)
  · rintro (rfl | hnode | hboth)
    · exact ⟨(readStart_lt h hp).le,by rw [slice_zero, slice_zero]⟩
    · have hstart : ba.readStart q = q := by rw [readStart, ← hnode, Nat.div_add_mod]
      rw [hstart]
      exact ⟨by omega,rfl⟩
    · exact hboth

end ReadAt

/-- What a positional read is for: the bytes of the range where it lies in the content, an exception elsewhere. -/
def PositionalRead (ba : ByteArray) (n q : Nat) : Prop :=
  if q ≤ ba.size ∧ n ≤ ba.size - q then ba.readAt n q = .ok (slice (memory ba.root) q n)
  else ba.readAt n q = .error (.outOfRange "not enough len")

/-- In every reachable state a range of the content is read exactly if `m_cur` is not null and nothing is asked for, or the
range begins in the node of `m_cur`, or the chain holds the same bytes at its offset from that node on; and what is no such
range is refused exactly if it begins in the content or `m_size - q`, which wraps then, is too small. -/
theorem readAt_iff (host : Endian) (baseSize : Nat) (ba : ByteArray) (h : Reachable host baseSize ba) (n q : Nat) :
    PositionalRead ba n q ↔ if q ≤ ba.size ∧ n ≤ ba.size - q then
        ba.position < ba.capacity ∧ (n = 0 ∨ q / baseSize = ba.position / baseSize ∨ (ba.readStart q + n ≤ ba.capacity ∧
          slice (memory ba.root) (ba.readStart q) n = slice (memory ba.root) q n))
      else q ≤ ba.size ∨ sizeSub ba.size q < n := by
  obtain ⟨hrep,rfl⟩ := h.repOf
  rw [PositionalRead]
  split
  · rename_i hin
    rcases hrep.position_le_capacity.lt_or_eq with hp | hp
    · rw [readAt_range_iff hrep hp hin.1 hin.2, and_iff_right hp]
    · rw [readAt_null hrep hp (by rw [sizeSub_of_le hin.1]; exact hin.2)]
      exact iff_of_false (by simp) (fun hboth => hboth.1.ne hp)
  · rename_i hout
    by_cases hn : sizeSub ba.size q < n
    · rw [readAt_throws hn]
      exact iff_of_true rfl (.inr hn)
    · have hq : ¬q ≤ ba.size := fun hq => hout ⟨hq,by rwa [sizeSub_of_le hq, Nat.not_lt] at hn⟩
      refine iff_of_false ?_ (by omega)
      rcases hrep.position_le_capacity.lt_or_eq with hp | hp
      · rw [readAt_run hrep hp (Nat.le_of_not_lt hn)]
        split <;> simp
      · rw [readAt_null hrep hp (Nat.le_of_not_lt hn)]
        simp

/-- Five bytes over blocks of two, the position in the second one: a range there is read. -/
theorem readAt_same_node : ∃ ba, Reachable .little 2 ba ∧ ba.position = 2 ∧ PositionalRead ba 2 3 := by
  obtain ⟨ba,hreach,hat⟩ : ∃ ba, Reachable .little 2 ba ∧ (ba.position,ba.size,ba.capacity) = (2,5,6) :=
    reachable_of_run Nat.two_pos zeroHeap [.write [1,2,3,4],.write [5],.setPosition 2] (by decide +kernel)
  obtain ⟨hp,hmore⟩ := Prod.mk.inj hat
  obtain ⟨hs,hc⟩ := Prod.mk.inj hmore
  refine ⟨ba,hreach,hp,(readAt_iff .little 2 ba hreach 2 3).mpr ?_⟩
  rw [hp, hs, hc, if_pos (by decide)]
  exact ⟨by decide,.inr (.inl (by decide))⟩

/-- Four bytes with the position in the first block: the third one is asked for and the first one comes back. With the
position behind them a null pointer is followed. -/
theorem readAt_other_node :
    (∃ ba, Reachable .little 2 ba ∧ ba.readAt 1 2 = .ok [1] ∧ ¬PositionalRead ba 1 2) ∧
    (∃ ba, Reachable .little 2 ba ∧ ba.readAt 2 0 = .error .nullDeref ∧ ¬PositionalRead ba 2 0) := by
  constructor
  · obtain ⟨ba,hreach,hat⟩ : ∃ ba, Reachable .little 2 ba ∧
        (ba.readAt 1 2,decide (2 ≤ ba.size ∧ 1 ≤ ba.size - 2),slice (memory ba.root) 2 1) = (.ok [1],true,[3]) :=
      reachable_of_run Nat.two_pos zeroHeap [.write [1,2,3,4],.setPosition 0] (by decide +kernel)
    obtain ⟨hr,hmore⟩ := Prod.mk.inj hat
    obtain ⟨hin,hc⟩ := Prod.mk.inj hmore
    refine ⟨ba,hreach,hr,?_⟩
    rw [PositionalRead, if_pos (of_decide_eq_true hin), hr, hc]
    simp
  · obtain ⟨ba,hreach,hat⟩ : ∃ ba, Reachable .little 2 ba ∧
        (ba.readAt 2 0,decide (0 ≤ ba.size ∧ 2 ≤ ba.size - 0)) = (.error .nullDeref,true) :=
      reachable_of_run Nat.two_pos zeroHeap [.write [1,2,3,4]] (by decide +kernel)
    obtain ⟨hr,hin⟩ := Prod.mk.inj hat
    refine ⟨ba,hreach,hr,?_⟩
    rw [PositionalRead, if_pos (of_decide_eq_true hin), hr]
    simp

/-- What a positional listing is for: iovecs that hold the bytes from `q` on, as many as there are up to `len`. -/
def PositionalView (ba : ByteArray) (len q : Nat) : Prop :=
  ∃ iovs, ba.getReadBuffersAt len q = .ok (iovs,min len (ba.size - q)) ∧
    gather ba.root iovs = .ok (slice (memory ba.root) q (min len (ba.size - q)))

section Listing
variable {ba : ByteArray} {len q : Nat}

private theorem cut_length (h : Rep ba) (len : Nat) :
    (if len > ba.getReadSize then ba.getReadSize else len) = min len (ba.size - ba.position) := by
  rw [h.getReadSize_eq]
  split <;> omega

/-- Whatever comes out, its length is cut by the position of the array. -/
theorem getReadBuffersAt_length (h : Rep ba) {iovs : List IoVec} {m : Nat} (he : ba.getReadBuffersAt len q = .ok (iovs,m)) :
    m = min len (ba.size - ba.position) := by
  simp only [getReadBuffersAt, cut_length h] at he
  split at he
  · rename_i hz
    cases he
    exact hz.symm
  · cases hskip : skip ba.root (q / ba.baseSize) with
    | error e =>
      rw [hskip] at he
      cases he
    | ok chain =>
      rw [hskip, ok_bind] at he
      cases chain with
      | nil => cases he
      | cons node next =>
        obtain ⟨more,-,heq⟩ := map_ok (f := fun more => (more,min len (ba.size - ba.position))) he
        exact (congrArg Prod.snd heq).symm

/-- The listing begins at `q` wherever the position is. -/
theorem getReadBuffersAt_run (h : Rep ba) (hq : q < ba.capacity) : ba.getReadBuffersAt len q =
    (iovLoop (ba.root.drop (q / ba.baseSize)) (q / ba.baseSize) (q % ba.baseSize) (ba.baseSize - q % ba.baseSize)
      (min len (ba.size - ba.position))).map fun iovs => (iovs,min len (ba.size - ba.position)) := by
  have hnode : q / ba.baseSize < ba.root.length := Nat.div_lt_of_lt_mul (h.capacity_eq ▸ hq)
  obtain ⟨node,next,hd⟩ := List.exists_cons_of_length_pos (show 0 < (ba.root.drop (q / ba.baseSize)).length by
    rw [List.length_drop]; omega)
  have hs : node.size = ba.baseSize := h.uniform.drop (q / ba.baseSize) node (hd ▸ List.mem_cons_self)
  simp only [getReadBuffersAt, cut_length h]
  by_cases hz : min len (ba.size - ba.position) = 0
  · rw [if_pos hz, hz, iovLoop.eq_def, if_pos rfl]
    rfl
  · rw [if_neg hz]
    simp only [skip_ok hnode.le, hd, ok_bind, hs, sizeSub_of_le (Nat.mod_lt q ba.basePos).le]
    rfl

theorem positionalView_ok (h : Rep ba) (hq : q ≤ ba.size) (hcut : min len (ba.size - ba.position) = min len (ba.size - q)) :
    PositionalView ba len q := by
  have hc := h.size_le
  rw [PositionalView, ← hcut]
  by_cases hz : min len (ba.size - ba.position) = 0
  · refine ⟨[],?_,by rw [hz, slice_zero]; rfl⟩
    simp only [getReadBuffersAt, cut_length h]
    rw [if_pos hz, hz]
  · have hlt : q < ba.capacity := by omega
    have hnode : q / ba.baseSize < ba.root.length := Nat.div_lt_of_lt_mul (h.capacity_eq ▸ hlt)
    have hroom := h.room_from hnode.le (q % ba.baseSize) (min len (ba.size - ba.position))
    rw [Nat.div_add_mod] at hroom
    have hend : q + min len (ba.size - ba.position) ≤ ba.capacity := by omega
    obtain ⟨iovs,hr,hcov⟩ := iovLoop_ok (h.uniform.drop _) (q / ba.baseSize) (Nat.mod_lt q ba.basePos) _ (hroom.mpr hend)
    rw [Nat.div_add_mod] at hcov
    refine ⟨iovs,?_,gather_ok h.uniform hcov (h.capacity_eq ▸ hend)⟩
    rw [getReadBuffersAt_run h hlt, hr]
    rfl

end Listing

/-- In every reachable state the listing from a position in the content is right exactly if that is the position of the
array, or `len` is no more than there is from either of the two on. -/
theorem getReadBuffersAt_iff (host : Endian) (baseSize : Nat) (ba : ByteArray) (h : Reachable host baseSize ba)
    (len q : Nat) (hq : q ≤ ba.size) :
    PositionalView ba len q ↔ q = ba.position ∨ (len ≤ ba.size - ba.position ∧ len ≤ ba.size - q) := by
  obtain ⟨hrep,rfl⟩ := h.repOf
  have hle := hrep.position_le
  constructor
  · rintro ⟨iovs,he,-⟩
    have hcut := getReadBuffersAt_length hrep he
    omega
  · intro hcase
    exact positionalView_ok hrep hq (by omega)

/-- One byte from the third on, the position being at the first. -/
theorem getReadBuffersAt_one : ∃ ba, Reachable .little 2 ba ∧ ba.position = 0 ∧ PositionalView ba 1 2 := by
  obtain ⟨ba,hreach,hat⟩ : ∃ ba, Reachable .little 2 ba ∧ (ba.position,ba.size) = (0,4) :=
    reachable_of_run Nat.two_pos zeroHeap [.write [1,2,3,4],.setPosition 0] (by decide +kernel)
  obtain ⟨hp,hs⟩ := Prod.mk.inj hat
  refine ⟨ba,hreach,hp,(getReadBuffersAt_iff .little 2 ba hreach 1 2 (by omega)).mpr (.inr ?_)⟩
  omega

/-- Four bytes with the position behind them: nothing is listed from the first one on. With the position at the first and
four asked for from the third on, the walk leaves the chain. -/
theorem getReadBuffersAt_cut :
    (∃ ba, Reachable .little 2 ba ∧ ba.size = 4 ∧ ba.getReadBuffersAt 4 0 = .ok ([],0) ∧ ¬PositionalView ba 4 0) ∧
    (∃ ba, Reachable .little 2 ba ∧ ba.size = 4 ∧ ba.getReadBuffersAt 4 2 = .error .nullDeref ∧ ¬PositionalView ba 4 2) := by
  constructor
  · obtain ⟨ba,hreach,hat⟩ : ∃ ba, Reachable .little 2 ba ∧ (ba.size,ba.getReadBuffersAt 4 0) = (4,.ok ([],0)) :=
      reachable_of_run Nat.two_pos zeroHeap [.write [1,2,3,4]] (by decide +kernel)
    obtain ⟨hs,hr⟩ := Prod.mk.inj hat
    refine ⟨ba,hreach,hs,hr,?_⟩
    rintro ⟨iovs,he,-⟩
    rw [hr, hs] at he
    cases he
  · obtain ⟨ba,hreach,hat⟩ : ∃ ba, Reachable .little 2 ba ∧ (ba.size,ba.getReadBuffersAt 4 2) = (4,.error .nullDeref) :=
      reachable_of_run Nat.two_pos zeroHeap [.write [1,2,3,4],.setPosition 0] (by decide +kernel)
    obtain ⟨hs,hr⟩ := Prod.mk.inj hat
    refine ⟨ba,hreach,hs,hr,?_⟩
    rintro ⟨iovs,he,-⟩
    rw [hr] at he
    cases he

end Radixun.Common.ByteArray
