import Radixun.Common.ByteArrayStream

/-! Transfers through the buffer listings, as a socket makes them, against the copying
`read` and `write`. -/
namespace Radixun.Common.ByteArray
open Foundation.BlockMemory Foundation.ExceptionState Foundation.CommandRuns
variable {B : Nat} {ba : ByteArray}

/-- The node an iovec points into. -/
def IoVec.target (root : List Node) (v : IoVec) : Except Stop Node :=
  match root[v.node]? with
  | some node => .ok node
  | none => .error .nullDeref

/-- The bytes a transfer takes from the iovecs. -/
def gather (root : List Node) : List IoVec → Except Stop (List UInt8)
  | [] => .ok []
  | v :: vs => do
    let node ← v.target root
    let bytes ← node.load v.off v.len
    let more ← gather root vs
    .ok (bytes ++ more)

/-- A transfer of `bytes` into the iovecs, each filled before the next one. -/
def scatter (root : List Node) : List IoVec → List UInt8 → Except Stop (List Node)
  | _, [] => .ok root
  | [], _ :: _ => .error .overrun
  | v :: vs, b :: bs => do
    let node ← v.target root
    let node' ← node.store v.off ((b :: bs).take v.len)
    scatter (root.set v.node node') vs ((b :: bs).drop v.len)

/-- `SocketStream::read` after `recv` has put `bytes` into the buffers. -/
def receive (iovs : List IoVec) (bytes : List UInt8) : Run Unit := do
  let ba ← get
  let root ← ofExcept (scatter ba.root iovs bytes)
  set { ba with root := root }
  setPosition (ba.position + bytes.length)

private theorem root_split {root : List Node} {i : Nat} (hi : i < root.length) :
    root = root.take i ++ root[i] :: root.drop (i + 1) := by
  rw [List.getElem_cons_drop, List.take_append_drop]

private theorem prefix_length {root : List Node} (hu : Uniform B root) {i : Nat} (hi : i < root.length) :
    (memory (root.take i)).length = B * i := by
  rw [memory_length (hu.take i), List.length_take, Nat.min_eq_left hi.le]

private theorem node_in_range {root : List Node} {v : IoVec} {a len : Nat} (ha : B * v.node + v.off = a) (hpos : 0 < v.len)
    (hle : v.len ≤ len) (h : a + len ≤ B * root.length) : v.node < root.length :=
  Nat.lt_of_mul_lt_mul_left (a := B) (by omega)

private theorem target_ok {root : List Node} {v : IoVec} (hi : v.node < root.length) :
    v.target root = .ok root[v.node] := by rw [IoVec.target, List.getElem?_eq_getElem hi]

/-- A range of one block is a range of the memory. -/
private theorem memory_node {root : List Node} (hu : Uniform B root) {i off n : Nat} (hi : i < root.length)
    (hn : off + n ≤ B) : slice (root[i]).ptr off n = slice (memory root) (B * i + off) n := by
  have hs : (root[i]).ptr.length = B := (root[i]).filled.trans (hu _ (List.getElem_mem hi))
  have hp := slice_append_right (memory (root.take i)) (memory (root[i] :: root.drop (i + 1))) off n
  rw [prefix_length hu hi, ← memory_append, ← root_split hi, memory_cons, slice_append_left (hs.symm ▸ hn)] at hp
  exact hp.symm

/-- An overwrite inside one block is an overwrite of the memory. -/
private theorem memory_set {root : List Node} (hu : Uniform B root) {i off : Nat} {bytes : List UInt8} {node' : Node}
    (hi : i < root.length) (hn : off + bytes.length ≤ B) (hp : node'.ptr = patch (root[i]).ptr off bytes) :
    memory (root.set i node') = patch (memory root) (B * i + off) bytes := by
  have hs : (root[i]).ptr.length = B := (root[i]).filled.trans (hu _ (List.getElem_mem hi))
  have hr := patch_append_right (memory (root.take i)) (memory (root[i] :: root.drop (i + 1))) off bytes
  rw [prefix_length hu hi, ← memory_append, ← root_split hi, memory_cons, patch_append_left (hs.symm ▸ hn)] at hr
  rw [hr, List.set_eq_take_append_cons_drop, if_pos hi, memory_append, memory_cons, hp]

theorem gather_ok {root : List Node} (hu : Uniform B root) {iovs : List IoVec} {a len : Nat} (hc : Covers B iovs a len)
    (h : a + len ≤ B * root.length) : gather root iovs = .ok (slice (memory root) a len) := by
  induction iovs generalizing a len with
  | nil =>
    obtain rfl : len = 0 := hc
    rw [gather, slice_zero]
  | cons v vs ih =>
    obtain ⟨ha,hoff,hpos,hle,hrest⟩ := hc
    have hi := node_in_range ha hpos hle h
    have hload : (root[v.node]).load v.off v.len = .ok (slice (memory root) a v.len) := by
      rw [Node.load, if_pos (by rw [hu _ (List.getElem_mem hi)]; exact hoff), memory_node hu hi hoff, ha]
    rw [gather, target_ok hi, ok_bind, hload, ok_bind, ih hrest (by omega), ok_bind, slice_concat]
    congr 2
    omega

theorem scatter_ok {root : List Node} (hu : Uniform B root) {iovs : List IoVec} {a len : Nat} (hc : Covers B iovs a len)
    (h : a + len ≤ B * root.length) (bytes : List UInt8) (hb : bytes.length ≤ len) :
    ∃ root', scatter root iovs bytes = .ok root' ∧ Uniform B root' ∧ root'.length = root.length ∧
      memory root' = patch (memory root) a bytes := by
  induction iovs generalizing root a len bytes with
  | nil =>
    obtain rfl : len = 0 := hc
    obtain rfl := List.eq_nil_of_length_eq_zero (by omega : bytes.length = 0)
    exact ⟨root,rfl,hu,rfl,(patch_nil _ _).symm⟩
  | cons v vs ih =>
    cases bytes with
    | nil => exact ⟨root,rfl,hu,rfl,(patch_nil _ _).symm⟩
    | cons b bs =>
      obtain ⟨ha,hoff,hpos,hle,hrest⟩ := hc
      have hi := node_in_range ha hpos hle h
      have hs : (root[v.node]).size = B := hu _ (List.getElem_mem hi)
      rw [scatter, target_ok hi, ok_bind]
      generalize hbs : b :: bs = bytes at *
      have htake : (bytes.take v.len).length = min v.len bytes.length := List.length_take
      have hfit : v.off + (bytes.take v.len).length ≤ B := by omega
      obtain ⟨node',hst,hsz,hptr⟩ := store_ok (root[v.node]) v.off (bytes.take v.len) (hs.symm ▸ hfit)
      have hu' : Uniform B (root.set v.node node') := by
        intro x hx
        rcases List.mem_or_eq_of_mem_set hx with hold | rfl
        · exact hu x hold
        · exact hsz.trans hs
      obtain ⟨root',hsc,hur,hlr,hmr⟩ := ih hu' hrest (by rw [List.length_set]; omega) (bytes.drop v.len)
        (by rw [List.length_drop]; omega)
      refine ⟨root',by rw [hst, ok_bind, hsc],hur,by rw [hlr, List.length_set],?_⟩
      rw [hmr, memory_set hu hi hfit hptr, ha]
      rcases Nat.lt_or_ge v.len bytes.length with hlt | hge
      · -- the iovec is filled and the rest goes on behind it
        rw [Nat.min_eq_left hlt.le] at htake
        have hcat : patch (patch (memory root) a (bytes.take v.len)) (a + (bytes.take v.len).length) (bytes.drop v.len) =
            patch (memory root) a (bytes.take v.len ++ bytes.drop v.len) :=
          patch_concat (by rw [memory_length hu, htake]; omega)
        rwa [htake, List.take_append_drop] at hcat
      · rw [List.take_of_length_le hge, List.drop_of_length_le hge, patch_nil]

/-- Moving the position over readable bytes is reading them, and the whole state is the same. -/
theorem setPosition_eq_read (h : Rep ba) (r : Nat) (hr : ba.position + r ≤ ba.size) (hp : ba.position < ba.capacity) :
    ∃ ba', read r ba = .ok (slice (memory ba.root) ba.position r) ba' ∧ setPosition (ba.position + r) ba = .ok () ba' := by
  have hs := setPosition_run h (ba.position + r) (hr.trans h.size_le)
  rw [Nat.max_eq_left hr] at hs
  exact ⟨_,read_run h r hr hp,hs⟩

theorem receive_content (h : Rep ba) {len n : Nat} {iovs : List IoVec} {g : ByteArray}
    (hg : getWriteBuffers len ba = .ok (iovs,n) g) {bytes : List UInt8} (hb : bytes.length ≤ len) :
    ∃ ba', receive iovs bytes g = .ok () ba' ∧
      ba'.flat.content = patch ba.flat.content ba.position bytes ∧ ba'.position = ba.position + bytes.length ∧
      ba'.size = max ba.size (ba.position + bytes.length) := by
  obtain ⟨hr,-,rfl,hc⟩ := getWriteBuffers_completed h hg
  obtain ⟨hrep,hf⟩ := grow_flat h len
  obtain ⟨extra,hx⟩ := ba.flat.grow_mem len
  have hpos : (ba.grow len).position = ba.position := (congrArg Flat.position hf).trans (by simp)
  have hsize : (ba.grow len).size = ba.size := (congrArg Flat.size hf).trans (by simp)
  have hbase : (ba.grow len).baseSize = ba.baseSize := (congrArg Flat.baseSize hf).trans (by simp)
  have hmem : memory (ba.grow len).root = memory ba.root ++ extra := (congrArg Flat.mem hf).trans hx
  rw [← hf, flat_mem, hrep.mem_length] at hr
  generalize ba.grow len = g at *
  obtain ⟨root',hs,hu',hl',hm'⟩ := scatter_ok hrep.uniform (hbase ▸ hc) (hrep.capacity_eq ▸ hr) bytes hb
  have hrep' : Rep { g with root := root' } := {
    uniform := hu'
    capacity_eq := hrep.capacity_eq.trans (congrArg _ hl'.symm)
    root_ne := List.ne_nil_of_length_pos (hl' ▸ List.length_pos_iff.mpr hrep.root_ne)
    position_le := hrep.position_le
    size_le := hrep.size_le
    cur_eq := by
      have hcur := hrep.cur_eq
      simp only [link, hl'] at hcur ⊢
      exact hcur }
  obtain ⟨ba',he,-,hflat⟩ :=
    setPosition_ok hrep' (g.position + bytes.length) (show g.position + bytes.length ≤ g.capacity by omega)
  refine ⟨ba',?_,?_,(congrArg Flat.position hflat).trans (congrArg (· + bytes.length) hpos),?_⟩
  · rw [receive, get_run, ofExcept_bind hs]
    exact he
  · rw [hflat, Flat.setPosition, Flat.content]
    simp only [flat_mem, flat_size, hm', hmem, hpos, hsize]
    exact take_patch_max h.position_le (h.mem_length.symm ▸ h.size_le)
  · rw [← hpos, ← hsize]
    exact congrArg Flat.size hflat

/-- The buffers for reading list the readable bytes, and consuming `r` of them is `read(buf, r)`. -/
def GatherAgrees (ba : ByteArray) (len r : Nat) : Prop :=
  ∃ iovs, ba.getReadBuffers len = .ok (iovs,min len ba.getReadSize) ∧
    gather ba.root iovs = .ok (slice ba.flat.mem ba.position (min len ba.getReadSize)) ∧
    (r ≤ min len ba.getReadSize →
      ∃ ba', read r ba = .ok (slice ba.flat.mem ba.position r) ba' ∧ setPosition (ba.position + r) ba = .ok () ba')

/-- The buffers for writing have the length asked for, and receiving `bytes` through them is
`write(bytes)`, whatever fresh blocks that one gets. -/
def ScatterAgrees (ba : ByteArray) (len : Nat) : Prop :=
  ∀ iovs n g, getWriteBuffers len ba = .ok (iovs,n) g →
    n = len ∧ (iovs.map IoVec.len).sum = len ∧
    ∀ bytes heap ba₁, 0 < bytes.length → bytes.length ≤ len → write bytes { ba with heap := heap } = .ok () ba₁ →
      ∃ ba₂, receive iovs bytes g = .ok () ba₂ ∧ ba₂.flat.content = ba₁.flat.content ∧
        ba₂.position = ba₁.position ∧ ba₂.size = ba₁.size

theorem covers_length {iovs : List IoVec} {a len : Nat} (h : Covers B iovs a len) : (iovs.map IoVec.len).sum = len := by
  induction iovs generalizing a len with
  | nil => exact (show len = 0 from h).symm
  | cons v vs ih =>
    obtain ⟨-,-,-,hle,hrest⟩ := h
    rw [List.map_cons, List.sum_cons, ih hrest]
    omega

theorem scatter_agrees (h : Rep ba) (len : Nat) : ScatterAgrees ba len := by
  intro iovs n g hg
  obtain ⟨-,hn,-,hc⟩ := getWriteBuffers_completed h hg
  refine ⟨hn,covers_length hc,?_⟩
  intro bytes heap ba₁ _ hb hw
  have hrep : Rep { ba with heap := heap } :=
    ⟨h.uniform,h.capacity_eq,h.root_ne,h.position_le,h.size_le,h.cur_eq⟩
  obtain ⟨hc₁,hp₁,hs₁,-⟩ := write_content hrep hw
  obtain ⟨ba₂,he₂,hc₂,hp₂,hs₂⟩ := receive_content h hg hb
  exact ⟨ba₂,he₂,hc₂.trans hc₁.symm,hp₂.trans hp₁.symm,hs₂.trans hs₁.symm⟩

/-- The two paths agree except for a read of nothing at the end of the capacity: there
`read` follows a null pointer where the buffer listing returns before it would. -/
theorem transfers_agree_iff (host : Endian) (baseSize : Nat) (ba : ByteArray) (h : Reachable host baseSize ba)
    (len r : Nat) : GatherAgrees ba len r ∧ ScatterAgrees ba len ↔ ¬ (r = 0 ∧ ba.position = ba.capacity) := by
  have hrep := h.repOf.1
  have hle := hrep.position_le
  have hcap := hrep.size_le
  constructor
  · rintro ⟨⟨iovs,-,-,hread⟩,-⟩ ⟨rfl,hend⟩
    obtain ⟨ba',he,-⟩ := hread (Nat.zero_le _)
    rw [read_null hrep hend] at he
    cases he
  · intro hr
    refine ⟨?_,scatter_agrees hrep len⟩
    obtain ⟨iovs,hg,hc⟩ := getReadBuffers_ok hrep len
    rw [← hrep.getReadSize_eq] at hg hc
    have hsz := hrep.getReadSize_eq
    refine ⟨iovs,hg,gather_ok hrep.uniform hc (by rw [← hrep.capacity_eq]; omega),?_⟩
    intro hrle
    exact setPosition_eq_read hrep r (by omega) (by omega)

/-- Away from the end of the capacity they agree, here over a block boundary. -/
theorem transfers_agree_iff_boundary : ∃ ba, Reachable .little 2 ba ∧ ba.position = 1 ∧ ba.size = 4 ∧
    GatherAgrees ba 2 2 ∧ ScatterAgrees ba 2 := by
  have hrun : (runAll (Call.run .little) [.write [1,2,3,4],.setPosition 1] (new 2 Nat.two_pos zeroHeap)).map
      (fun r => (r.2.position,r.2.capacity,r.2.size)) = .ok (1,4,4) := by decide +kernel
  cases hr : runAll (Call.run .little) [.write [1,2,3,4],.setPosition 1] (new 2 Nat.two_pos zeroHeap) with
  | error e => rw [hr] at hrun; cases hrun
  | ok out =>
    obtain ⟨rs,ba⟩ := out
    rw [hr] at hrun
    have hvals := Except.ok.inj hrun
    simp only [Prod.mk.injEq] at hvals
    obtain ⟨hp,hc,hs⟩ := hvals
    have hreach : Reachable .little 2 ba := ⟨Nat.two_pos,zeroHeap,_,_,hr⟩
    exact ⟨ba,hreach,hp,hs,(transfers_agree_iff .little 2 ba hreach 2 2).mpr (by omega)⟩

/-- One byte in a block of one byte: nothing is left to read, and asking `read` for
nothing follows a null pointer. -/
theorem transfers_disagree :
    ∃ ba, Reachable .little 1 ba ∧ ba.position = ba.capacity ∧ ba.getReadSize = 0 ∧
      read 0 ba = .error .nullDeref ba ∧ ba.getReadBuffers 0 = .ok ([],0) ∧ ¬ GatherAgrees ba 0 0 := by
  have hrun : (runAll (Call.run .little) [.write [7]] (new 1 Nat.one_pos zeroHeap)).map
      (fun r => (r.1,r.2.position,r.2.capacity,r.2.size)) = .ok ([.ok ()],1,1,1) := by decide +kernel
  cases hr : runAll (Call.run .little) [.write [7]] (new 1 Nat.one_pos zeroHeap) with
  | error e => rw [hr] at hrun; cases hrun
  | ok out =>
    obtain ⟨rs,ba⟩ := out
    rw [hr] at hrun
    have hreach : Reachable .little 1 ba := ⟨Nat.one_pos,zeroHeap,_,_,hr⟩
    have hvals := Except.ok.inj hrun
    simp only [Prod.mk.injEq] at hvals
    obtain ⟨-,hp,hc,hs⟩ := hvals
    have hsz : ba.getReadSize = 0 := by rw [hreach.repOf.1.getReadSize_eq]; omega
    have hnull := read_null hreach.repOf.1 (hp.trans hc.symm)
    refine ⟨ba,hreach,hp.trans hc.symm,hsz,hnull,?_,?_⟩
    · simp [getReadBuffers]
    · rintro ⟨iovs,-,-,hread⟩
      obtain ⟨ba',he,-⟩ := hread (Nat.zero_le _)
      rw [hnull] at he
      cases he

end Radixun.Common.ByteArray
