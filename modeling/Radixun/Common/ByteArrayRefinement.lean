import Radixun.Common.ByteArrayFlat
import Radixun.Foundation.CommandRuns

/-! The chunked byte array refines the flat one over whole runs of its raw operations. -/
namespace Radixun.Common.ByteArray
open Foundation.BlockMemory Foundation.ExceptionState Foundation.CommandRuns

inductive Op where
  | write (buf : List UInt8)
  | read (size : Nat)
  | setPosition (v : Nat)
  | clear
  | getWriteBuffers (len : Nat)
  | toString
  deriving DecidableEq, Repr

/-- What a caller gets back. Of `getWriteBuffers` it is the length. -/
inductive Reply where
  | done
  | bytes (data : List UInt8)
  | length (len : Nat)
  deriving DecidableEq, Repr

def Op.call : Op → Run Reply
  | .write buf => (fun _ => .done) <$> ByteArray.write buf
  | .read size => .bytes <$> ByteArray.read size
  | .setPosition v => (fun _ => .done) <$> ByteArray.setPosition v
  | .clear => (fun _ => .done) <$> ByteArray.clear
  | .getWriteBuffers len => (fun out => .length out.2) <$> ByteArray.getWriteBuffers len
  | .toString => do
    let ba ← get
    .bytes <$> ofExcept ba.toString

/-- An operation on the chunked array: a reply or an exception, or no result at all
when it runs into a null pointer. -/
def Op.run (op : Op) : ByteArray → Except Stop (Except Stop Reply × ByteArray) := observe Stop.Thrown op.call

/-- The same operation on the flat memory. -/
def Op.flat : Op → Flat → Except Stop Reply × Flat
  | .write buf, f => (.ok .done,f.write buf)
  | .read size, f =>
    if size > f.size - f.position then (.error (.outOfRange "not enough len"),f)
    else (.ok (.bytes (slice f.mem f.position size)),{ f with position := f.position + size })
  | .setPosition v, f =>
    if v > f.mem.length then (.error (.outOfRange "set_position out of range"),f) else (.ok .done,f.setPosition v)
  | .clear, f => (.ok .done,f.clear)
  | .getWriteBuffers len, f => (.ok (.length len),f.grow len)
  | .toString, f => (.ok (.bytes (slice f.mem f.position (f.size - f.position))),f)

theorem map_run_ok {α β : Type} {x : Run α} {ba ba' : ByteArray} {a : α} (f : α → β) (h : x ba = .ok a ba') :
    (f <$> x) ba = .ok (f a) ba' := by
  change EStateM.map f x ba = _
  rw [EStateM.map, h]

theorem map_run_error {α β : Type} {x : Run α} {ba ba' : ByteArray} {e : Stop} (f : α → β) (h : x ba = .error e ba') :
    (f <$> x) ba = .error e ba' := by
  change EStateM.map f x ba = _
  rw [EStateM.map, h]

/-- Every ending of one operation: the flat operation's reply and state, or a null pointer. -/
theorem op_run (op : Op) {ba : ByteArray} (h : Rep ba) :
    (∃ ba', op.run ba = .ok ((op.flat ba.flat).1,ba') ∧ Rep ba' ∧ ba'.flat = (op.flat ba.flat).2) ∨
      op.run ba = .error .nullDeref := by
  cases op with
  | write buf =>
    rcases Nat.lt_or_ge (ba.flat.grow buf.length).mem.length (ba.position + buf.length) with hr | hr
    · obtain ⟨ba',he⟩ := write_null h buf hr
      exact .inr (observe_fatal (map_run_error _ he) id)
    · obtain ⟨ba',he,hrep,hf⟩ := write_ok h buf hr
      exact .inl ⟨ba',observe_ok (map_run_ok _ he),hrep,hf⟩
  | read size =>
    by_cases hs : size > ba.size - ba.position
    · have hf : (Op.read size).flat ba.flat = (.error (.outOfRange "not enough len"),ba.flat) := if_pos hs
      rw [hf]
      exact .inl ⟨ba,observe_survived (map_run_error _ (read_short h size (by omega))) (by exact trivial),h,rfl⟩
    · have hle := h.position_le
      have hc := h.size_le
      rcases h.position_le_capacity.lt_or_eq with hp | hp
      · obtain ⟨ba',he,hrep,hf⟩ := read_ok h size (by omega) hp
        have hff : (Op.read size).flat ba.flat =
            (.ok (.bytes (slice (memory ba.root) ba.position size)),{ ba.flat with position := ba.position + size }) :=
          if_neg hs
        rw [hff]
        exact .inl ⟨ba',observe_ok (map_run_ok _ he),hrep,hf⟩
      · obtain rfl : size = 0 := by omega
        exact .inr (observe_fatal (map_run_error _ (read_null h hp)) id)
  | setPosition v =>
    by_cases hv : v > ba.capacity
    · have hf : (Op.setPosition v).flat ba.flat = (.error (.outOfRange "set_position out of range"),ba.flat) :=
        if_pos (by rw [flat_mem, h.mem_length]; exact hv)
      rw [hf]
      exact .inl ⟨ba,observe_survived (map_run_error _ (setPosition_throws v hv)) (by exact trivial),h,rfl⟩
    · obtain ⟨ba',he,hrep,hf⟩ := setPosition_ok h v (by omega)
      have hff : (Op.setPosition v).flat ba.flat = (.ok .done,ba.flat.setPosition v) :=
        if_neg (by rw [flat_mem, h.mem_length]; exact hv)
      rw [hff]
      exact .inl ⟨ba',observe_ok (map_run_ok _ he),hrep,hf⟩
  | clear =>
    obtain ⟨ba',he,hrep,hf⟩ := clear_ok h
    exact .inl ⟨ba',observe_ok (map_run_ok _ he),hrep,hf⟩
  | getWriteBuffers len =>
    rcases Nat.lt_or_ge (ba.flat.grow len).mem.length (ba.position + len) with hr | hr
    · obtain ⟨ba',he⟩ := getWriteBuffers_null h len hr
      exact .inr (observe_fatal (map_run_error _ he) id)
    · obtain ⟨iovs,he,-⟩ := getWriteBuffers_ok h len hr
      obtain ⟨hg,hf⟩ := grow_flat h len
      exact .inl ⟨_,observe_ok (map_run_ok _ he),hg,hf⟩
  | toString =>
    have ht : Op.toString.call ba = .ok (.bytes (slice (memory ba.root) ba.position (ba.size - ba.position))) ba := by
      rw [Op.call, get_run, toString_ok h]
      rfl
    exact .inl ⟨ba,observe_ok ht,h,rfl⟩

theorem flat_new (baseSize : Nat) (pos : 0 < baseSize) (heap : Heap) :
    (new baseSize pos heap).flat = Flat.new baseSize heap := by
  simp [flat, new, Flat.new, memory, Node.new]

/-- A completed `write` overwrites the bytes from the position on and no other byte. -/
theorem write_bytes {ba ba' : ByteArray} (h : Rep ba) {buf : List UInt8} (he : write buf ba = .ok () ba') (i : Nat) :
    (ba.position ≤ i → i < ba.position + buf.length → ba'.flat.mem[i]? = buf[i - ba.position]?) ∧
      (i < ba.capacity → (i < ba.position ∨ ba.position + buf.length ≤ i) → ba'.flat.mem[i]? = ba.flat.mem[i]?) := by
  obtain ⟨hr,-,hf⟩ := write_completed h he
  have hp := patch_getElem? hr i
  rw [hf, Flat.write, flat_position]
  refine ⟨fun hlo hhi => by rw [hp, if_pos ⟨hlo,hhi⟩],fun hi hout => ?_⟩
  obtain ⟨extra,hx⟩ := ba.flat.grow_mem buf.length
  rw [hp, if_neg (by omega), hx, List.getElem?_append_left (by rw [flat_mem, h.mem_length]; exact hi)]

private theorem op_run_rep (op : Op) (ba : ByteArray) (r : Except Stop Reply) (ba' : ByteArray) (h : Rep ba)
    (he : op.run ba = .ok (r,ba')) : Rep ba' ∧ op.flat ba.flat = (r,ba'.flat) := by
  rcases op_run op h with ⟨ba₁,he₁,hrep₁,hf₁⟩ | hn
  · rw [he₁] at he
    cases he
    exact ⟨hrep₁,Prod.ext rfl hf₁.symm⟩
  · rw [hn] at he
    cases he

/-- Chunking cannot be observed, for every block size and whatever the fresh blocks hold.
A run that completes gives, reply by reply and in the state it leaves, what the run on the
flat memory gives; the memory is as long as the capacity, and a `write` completed from there
changes its own range only. A run that does not complete has followed a null pointer. -/
theorem runs_refine_flat (baseSize : Nat) (pos : 0 < baseSize) (heap : Heap) (ops : List Op) :
    (∀ replies ba, runAll Op.run ops (new baseSize pos heap) = .ok (replies,ba) →
      runTotal Op.flat ops (Flat.new baseSize heap) = (replies,ba.flat) ∧
        ba.flat.mem.length = ba.capacity ∧ ba.flat.position ≤ ba.flat.size ∧ ba.flat.size ≤ ba.capacity ∧
        ∀ buf ba', write buf ba = .ok () ba' → ∀ i,
          (ba.position ≤ i → i < ba.position + buf.length → ba'.flat.mem[i]? = buf[i - ba.position]?) ∧
          (i < ba.capacity → (i < ba.position ∨ ba.position + buf.length ≤ i) → ba'.flat.mem[i]? = ba.flat.mem[i]?)) ∧
    (∀ e, runAll Op.run ops (new baseSize pos heap) = .error e → e = .nullDeref) := by
  have hnew := rep_new baseSize pos heap
  refine ⟨fun replies ba hr => ?_,fun e hr => ?_⟩
  · have hstep : ∀ op ba f r ba', Rep ba ∧ ba.flat = f → Op.run op ba = .ok (r,ba') →
        (op.flat f).1 = r ∧ Rep ba' ∧ ba'.flat = (op.flat f).2 := by
      rintro op ba _ r ba' ⟨hrep,rfl⟩ he
      obtain ⟨hrep',hf⟩ := op_run_rep op ba r ba' hrep he
      exact ⟨congrArg Prod.fst hf,hrep',(congrArg Prod.snd hf).symm⟩
    obtain ⟨hreply,hrep,hflat⟩ := runAll_refines hstep ops ⟨hnew,flat_new baseSize pos heap⟩ hr
    exact ⟨Prod.ext hreply hflat.symm,hrep.mem_length,hrep.position_le,hrep.size_le,fun _ _ => write_bytes hrep⟩
  · refine runAll_error (E := fun e => e = .nullDeref) (fun op ba r ba' hrep he => (op_run_rep op ba r ba' hrep he).1) ?_ ops hnew hr
    intro op ba e hrep he
    rcases op_run op hrep with ⟨ba₁,he₁,-,-⟩ | hn
    · rw [he₁] at he
      cases he
    · rw [hn] at he
      cases he
      rfl

def zeroHeap : Heap := ⟨fun _ _ => 0,2^20⟩

/-- A run over two blocks of two bytes: a write that fills the first one exactly, a write
into a fresh one, a read across both, and a read that is refused. -/
theorem runs_refine_flat_blocks :
    let ops : List Op := [.write [1,2],.write [3],.setPosition 1,.read 2,.read 1,.toString]
    let replies := [.ok .done,.ok .done,.ok .done,.ok (.bytes [2,3]),.error (.outOfRange "not enough len"),.ok (.bytes [])]
    ∃ ba, runAll Op.run ops (new 2 Nat.two_pos zeroHeap) = .ok (replies,ba) ∧
      runTotal Op.flat ops (Flat.new 2 zeroHeap) = (replies,ba.flat) := by
  intro ops replies
  have hrun : (runAll Op.run ops (new 2 Nat.two_pos zeroHeap)).map Prod.fst = .ok replies := by decide +kernel
  cases hr : runAll Op.run ops (new 2 Nat.two_pos zeroHeap) with
  | error e => rw [hr] at hrun; cases hrun
  | ok out =>
    rw [hr] at hrun
    obtain ⟨rs,ba⟩ := out
    obtain rfl : rs = replies := Except.ok.inj hrun
    exact ⟨ba,rfl,((runs_refine_flat 2 Nat.two_pos zeroHeap ops).1 _ ba hr).1⟩

end Radixun.Common.ByteArray
