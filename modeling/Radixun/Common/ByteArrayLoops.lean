import Mathlib.Data.List.Flatten
import Radixun.Common.ByteArrayModel

/-! What the copy loops do on a chain of blocks of one size, seen as one flat memory.
Each loop stops at a null pointer exactly when the chain is too short for it. -/
namespace Radixun.Common.ByteArray
open Foundation.BlockMemory Foundation.ExceptionState
variable {B : Nat}

/-- Every node of the chain has size `B`. -/
def Uniform (B : Nat) (chain : List Node) : Prop := ∀ node ∈ chain, node.size = B

/-- The bytes of the blocks one after another. -/
def memory (chain : List Node) : List UInt8 := (chain.map Node.ptr).flatten

@[simp] theorem memory_nil : memory [] = [] := rfl
@[simp] theorem memory_cons (node : Node) (next : List Node) : memory (node :: next) = node.ptr ++ memory next := rfl
@[simp] theorem memory_append (x y : List Node) : memory (x ++ y) = memory x ++ memory y := by simp [memory]

theorem Uniform.head {node : Node} {next : List Node} (h : Uniform B (node :: next)) : node.size = B :=
  h node List.mem_cons_self

theorem Uniform.tail {node : Node} {next : List Node} (h : Uniform B (node :: next)) : Uniform B next :=
  fun x hx => h x (List.mem_cons_of_mem _ hx)

theorem Uniform.cons {node : Node} {next : List Node} (h : node.size = B) (hu : Uniform B next) :
    Uniform B (node :: next) := fun x hx => (List.mem_cons.mp hx).elim (fun he => he ▸ h) (hu x)

theorem Uniform.append {x y : List Node} (hx : Uniform B x) (hy : Uniform B y) : Uniform B (x ++ y) :=
  fun z hz => (List.mem_append.mp hz).elim (hx z) (hy z)

theorem Uniform.take {chain : List Node} (h : Uniform B chain) (i : Nat) : Uniform B (chain.take i) :=
  fun x hx => h x (List.mem_of_mem_take hx)

theorem Uniform.drop {chain : List Node} (h : Uniform B chain) (i : Nat) : Uniform B (chain.drop i) :=
  fun x hx => h x (List.mem_of_mem_drop hx)

theorem memory_length {chain : List Node} (h : Uniform B chain) : (memory chain).length = B * chain.length := by
  induction chain with
  | nil => rfl
  | cons node next ih =>
    rw [memory_cons, List.length_append, ih h.tail, node.filled, h.head, List.length_cons, Nat.mul_succ, Nat.add_comm]

/-- The first `i` nodes hold the first `B * i` bytes. -/
theorem memory_take {chain : List Node} (h : Uniform B chain) (i : Nat) :
    memory (chain.take i) = (memory chain).take (B * i) := by
  have hs : memory chain = memory (chain.take i) ++ memory (chain.drop i) := by
    rw [← memory_append, List.take_append_drop]
  rcases Nat.lt_or_ge chain.length i with hi | hi
  · rw [List.take_of_length_le hi.le, List.take_of_length_le]
    rw [memory_length h]
    exact Nat.mul_le_mul_left B hi.le
  · have hl := memory_length (h.take i)
    rw [List.length_take, Nat.min_eq_left hi] at hl
    rw [hs, List.take_append_of_le_length hl.ge, List.take_of_length_le hl.le]

theorem memory_drop {chain : List Node} (h : Uniform B chain) (i : Nat) :
    memory (chain.drop i) = (memory chain).drop (B * i) := by
  have hs : memory chain = memory (chain.take i) ++ memory (chain.drop i) := by
    rw [← memory_append, List.take_append_drop]
  rw [memory_take h i] at hs
  have hd := List.take_append_drop (B * i) (memory chain)
  exact (List.append_cancel_left (hs.symm.trans hd.symm))

theorem sizeSub_of_le {a b : Nat} (h : b ≤ a) : sizeSub a b = a - b := if_pos h

/-- A range that leaves the first block covers one block boundary more than its rest does. -/
private theorem div_cross {npos n : Nat} (hn : npos < B) (h : B ≤ npos + n) :
    (0 + (n - (B - npos))) / B + 1 = (npos + n) / B := by
  rw [Nat.div_eq_sub_div (by omega) h]
  congr 2
  omega

private theorem div_last {npos n : Nat} (hn : npos < B) (h : n ≤ B - npos) :
    (if B = npos + n then 1 else 0) = (npos + n) / B := by
  split
  · rename_i he
    rw [← he, Nat.div_self (by omega)]
  · rw [Nat.div_eq_of_lt (by omega)]

theorem store_ok (node : Node) (off : Nat) (bytes : List UInt8) (h : off + bytes.length ≤ node.size) :
    ∃ node', node.store off bytes = .ok node' ∧ node'.size = node.size ∧ node'.ptr = patch node.ptr off bytes :=
  ⟨_,dif_pos h,rfl,rfl⟩

private theorem load_ok {node : Node} {off n : Nat} (h : off + n ≤ node.size) :
    node.load off n = .ok (slice node.ptr off n) := if_pos h

/-- `write`'s loop succeeds on a chain with room enough; the chain afterwards is the
same memory with the range overwritten. -/
theorem writeLoop_ok {chain : List Node} (hu : Uniform B chain) {npos : Nat} (hn : npos < B) (buf : List UInt8)
    (position : Nat) (h : npos + buf.length ≤ B * chain.length) :
    ∃ chain', writeLoop chain npos (B - npos) buf position =
        .ok (chain',(npos + buf.length) / B,position + buf.length) ∧
      Uniform B chain' ∧ chain'.length = chain.length ∧ memory chain' = patch (memory chain) npos buf := by
  induction chain generalizing npos buf position with
  | nil =>
    rw [List.length_nil, Nat.mul_zero] at h
    have hb : buf = [] := List.eq_nil_of_length_eq_zero (by omega)
    subst hb
    exact ⟨[],by simp [writeLoop, Nat.div_eq_of_lt hn],hu,rfl,(patch_nil _ _).symm⟩
  | cons node next ih =>
    have hs := hu.head
    rw [List.length_cons, Nat.mul_succ] at h
    rw [writeLoop]
    by_cases hb : buf = []
    · subst hb
      exact ⟨node :: next,by simp [Nat.div_eq_of_lt hn],hu,rfl,(patch_nil _ _).symm⟩
    rw [if_neg (mt List.eq_nil_of_length_eq_zero hb)]
    by_cases hc : buf.length ≤ B - npos
    · -- the rest of the buffer fits into this node
      obtain ⟨node',he,hs',hp⟩ := store_ok node npos buf (by omega)
      refine ⟨node' :: next,?_,hu.tail.cons (hs'.trans hs),rfl,?_⟩
      · rw [if_pos hc, he, hs]
        rw [ok_bind, div_last hn hc]
      · rw [memory_cons, memory_cons, hp]
        exact (patch_append_left (by rw [node.filled]; omega)).symm
    · have hlen : (buf.take (B - npos)).length = B - npos := by rw [List.length_take]; omega
      obtain ⟨node',he,hs',hp⟩ := store_ok node npos (buf.take (B - npos)) (by omega)
      cases next with
      | nil => simp at h; omega
      | cons n rest =>
        obtain ⟨chain',hr,hu',hl,hm⟩ := ih hu.tail (show 0 < B by omega) (buf.drop (B - npos)) (position + (B - npos))
          (by rw [List.length_drop]; omega)
        refine ⟨node' :: chain',?_,hu'.cons (hs'.trans hs),by simp only [List.length_cons, hl],?_⟩
        · rw [Nat.sub_zero, List.length_drop] at hr
          rw [if_neg hc, he]
          simp only [ok_bind, hu.tail.head, hr, div_cross hn (show B ≤ npos + buf.length by omega)]
          congr 3
          omega
        · rw [memory_cons node', hm, hp, memory_cons node,
            patch_append_split (by rw [node.filled]; omega) (by rw [node.filled]; omega), node.filled, hs]

/-- `write`'s loop steps onto the null pointer when the chain is too short. -/
theorem writeLoop_null {chain : List Node} (hu : Uniform B chain) {npos : Nat} (hn : npos < B) (buf : List UInt8)
    (position : Nat) (hb : buf ≠ []) (h : B * chain.length < npos + buf.length) :
    writeLoop chain npos (B - npos) buf position = .error .nullDeref := by
  induction chain generalizing npos buf position with
  | nil => rw [writeLoop, if_neg (mt List.eq_nil_of_length_eq_zero hb)]
  | cons node next ih =>
    have hs := hu.head
    rw [List.length_cons, Nat.mul_succ] at h
    rw [writeLoop, if_neg (mt List.eq_nil_of_length_eq_zero hb), if_neg (by omega)]
    have hlen : (buf.take (B - npos)).length = B - npos := by rw [List.length_take]; omega
    obtain ⟨node',he,-,-⟩ := store_ok node npos (buf.take (B - npos)) (by omega)
    rw [he, ok_bind]
    cases next with
    | nil => rfl
    | cons n rest =>
      have hd : (buf.drop (B - npos)).length = buf.length - (B - npos) := List.length_drop
      have hr := ih hu.tail (show 0 < B by omega) (buf.drop (B - npos)) (position + (B - npos))
        (List.ne_nil_of_length_pos (by omega)) (by omega)
      rw [Nat.sub_zero] at hr
      simp only [hu.tail.head, hr, error_bind]

/-- The reading loop returns the range of the flat memory. -/
theorem readLoop_ok {chain : List Node} (hu : Uniform B chain) {npos : Nat} (hn : npos < B) (size position : Nat)
    (h : npos + size ≤ B * chain.length) :
    readLoop chain npos (B - npos) size position =
      .ok (slice (memory chain) npos size,(npos + size) / B,position + size) := by
  induction chain generalizing npos size position with
  | nil =>
    rw [List.length_nil, Nat.mul_zero] at h
    obtain rfl : size = 0 := by omega
    simp [readLoop, Nat.div_eq_of_lt hn]
  | cons node next ih =>
    have hs := hu.head
    rw [List.length_cons, Nat.mul_succ] at h
    rw [readLoop]
    by_cases hz : size = 0
    · subst hz
      simp [Nat.div_eq_of_lt hn]
    rw [if_neg hz]
    by_cases hc : size ≤ B - npos
    · rw [if_pos hc, load_ok (by omega), ok_bind, hs, div_last hn hc, memory_cons,
        slice_append_left (by rw [node.filled]; omega)]
    · cases next with
      | nil => simp at h; omega
      | cons n rest =>
        have hr := ih hu.tail (show 0 < B by omega) (size - (B - npos)) (position + (B - npos)) (by omega)
        rw [Nat.sub_zero] at hr
        rw [if_neg hc, load_ok (by omega), memory_cons node,
          slice_append_split (by rw [node.filled]; omega) (by rw [node.filled]; omega), node.filled, hs]
        simp only [ok_bind, hu.tail.head, hr, div_cross hn (show B ≤ npos + size by omega)]
        congr 3
        omega

/-- The reading loop steps onto the null pointer when the chain is too short. -/
theorem readLoop_null {chain : List Node} (hu : Uniform B chain) {npos : Nat} (hn : npos < B) (size position : Nat)
    (hz : size ≠ 0) (h : B * chain.length < npos + size) : readLoop chain npos (B - npos) size position = .error .nullDeref := by
  induction chain generalizing npos size position with
  | nil => rw [readLoop, if_neg hz]
  | cons node next ih =>
    have hs := hu.head
    rw [List.length_cons, Nat.mul_succ] at h
    rw [readLoop, if_neg hz, if_neg (by omega), load_ok (by omega), ok_bind]
    cases next with
    | nil => rfl
    | cons n rest =>
      have hr := ih hu.tail (show 0 < B by omega) (size - (B - npos)) (position + (B - npos)) (by omega) (by omega)
      rw [Nat.sub_zero] at hr
      simp only [hu.tail.head, hr, error_bind]

/-- The walk of `setPosition` ends at the node the position lies in. -/
theorem seek_ok {root : List Node} (hu : Uniform B root) (hB : 0 < B) (v : Nat) (hr : root ≠ [])
    (h : v ≤ B * root.length) : seek root v = .ok (v / B) := by
  induction root generalizing v with
  | nil => exact absurd rfl hr
  | cons node next ih =>
    rw [List.length_cons, Nat.mul_succ] at h
    rw [seek, hu.head]
    by_cases hv : v > B
    · have hne : next ≠ [] := by
        rintro rfl
        simp at h
        omega
      rw [if_pos hv, ih hu.tail (v - B) hne (by omega), Nat.div_eq_sub_div hB hv.le]
      rfl
    · rw [if_neg hv]
      split
      · rename_i he
        rw [he, Nat.div_self hB]
      · rw [Nat.div_eq_of_lt (by omega)]

/-- The iovecs lie one behind the other in the flat memory: the first starts at byte
`a`, each has bytes of one block only, and together they have length `len`. -/
def Covers (B : Nat) : List IoVec → Nat → Nat → Prop
  | [], _, len => len = 0
  | v :: vs, a, len =>
    B * v.node + v.off = a ∧ v.off + v.len ≤ B ∧ 0 < v.len ∧ v.len ≤ len ∧ Covers B vs (a + v.len) (len - v.len)

/-- The walk along the chain ends at the node counted to. -/
theorem skip_ok {chain : List Node} {count : Nat} (h : count ≤ chain.length) : skip chain count = .ok (chain.drop count) := by
  induction chain generalizing count with
  | nil =>
    obtain rfl : count = 0 := Nat.eq_zero_of_le_zero h
    rfl
  | cons node next ih =>
    cases count with
    | zero => rfl
    | succ count => exact ih (Nat.le_of_succ_le_succ h)

theorem iovLoop_ok {chain : List Node} (hu : Uniform B chain) (i : Nat) {npos : Nat} (hn : npos < B) (len : Nat)
    (h : npos + len ≤ B * chain.length) :
    ∃ iovs, iovLoop chain i npos (B - npos) len = .ok iovs ∧ Covers B iovs (B * i + npos) len := by
  induction chain generalizing i npos len with
  | nil =>
    rw [List.length_nil, Nat.mul_zero] at h
    obtain rfl : len = 0 := by omega
    exact ⟨[],by simp [iovLoop],rfl⟩
  | cons node next ih =>
    rw [List.length_cons, Nat.mul_succ] at h
    rw [iovLoop.eq_def]
    by_cases hz : len = 0
    · exact ⟨[],if_pos hz,hz⟩
    rw [if_neg hz]
    by_cases hc : len ≤ B - npos
    · exact ⟨[⟨i,npos,len⟩],if_pos hc,rfl,show npos + len ≤ B by omega,Nat.pos_of_ne_zero hz,le_rfl,Nat.sub_self len⟩
    · cases next with
      | nil => simp at h; omega
      | cons n rest =>
        obtain ⟨iovs,hr,hcov⟩ := ih hu.tail (i + 1) (show 0 < B by omega) (len - (B - npos)) (by omega)
        refine ⟨⟨i,npos,B - npos⟩ :: iovs,?_,rfl,show npos + (B - npos) ≤ B by omega,
          show 0 < B - npos by omega,show B - npos ≤ len by omega,?_⟩
        · rw [Nat.sub_zero] at hr
          simp only [if_neg hc, hu.tail.head, hr, ok_bind]
        · have ha : B * i + npos + (B - npos) = B * (i + 1) + 0 := by rw [Nat.mul_succ]; omega
          rw [ha]
          exact hcov

theorem iovLoop_null {chain : List Node} (hu : Uniform B chain) (i : Nat) {npos : Nat} (hn : npos < B) (len : Nat)
    (hz : len ≠ 0) (h : B * chain.length < npos + len) :
    iovLoop chain i npos (B - npos) len = .error .nullDeref := by
  induction chain generalizing i npos len with
  | nil => rw [iovLoop, if_neg hz]
  | cons node next ih =>
    rw [List.length_cons, Nat.mul_succ] at h
    rw [iovLoop.eq_def, if_neg hz]
    simp only [if_neg (show ¬ B - npos ≥ len by omega)]
    cases next with
    | nil => rfl
    | cons n rest =>
      have hr := ih hu.tail (i + 1) (show 0 < B by omega) (len - (B - npos)) (by omega) (by omega)
      rw [Nat.sub_zero] at hr
      simp only [hu.tail.head, hr, error_bind]

end Radixun.Common.ByteArray
