import Radixun.Common.ByteArrayRefinement
import Radixun.Common.ByteArrayTyped

/-! The representation invariant over every public member of the byte array, typed reads
and writes and files included, also when a member throws half way. -/
namespace Radixun.Common.ByteArray
open Foundation.BlockMemory Foundation.ExceptionState Foundation.CommandRuns

/-- A call of a public member with its arguments. Results are dropped. -/
inductive Call where
  | writeFint8 (value : Int8)
  | writeFuint8 (value : UInt8)
  | writeFint16 (value : Int16)
  | writeFuint16 (value : UInt16)
  | writeFint32 (value : Int32)
  | writeFuint32 (value : UInt32)
  | writeFint64 (value : Int64)
  | writeFuint64 (value : UInt64)
  | writeInt32 (value : Int32)
  | writeUint32 (value : UInt32)
  | writeInt64 (value : Int64)
  | writeUint64 (value : UInt64)
  | writeFloat (bits : UInt32)
  | writeDouble (bits : UInt64)
  | writeStringF16 (value : List UInt8)
  | writeStringF32 (value : List UInt8)
  | writeStringF64 (value : List UInt8)
  | writeStringVint (value : List UInt8)
  | writeStringWithoutLength (value : List UInt8)
  | readFint8 | readFuint8 | readFint16 | readFuint16 | readFint32 | readFuint32 | readFint64 | readFuint64
  | readInt32 | readUint32 | readInt64 | readUint64 | readFloat | readDouble
  | readStringF16 | readStringF32 | readStringF64 | readStringVint
  | clear
  | write (buf : List UInt8)
  | read (size : Nat)
  | readAt (size position : Nat)
  | setPosition (v : Nat)
  | writeToFile (opens : Bool)
  | readFromFile (file : Option (List UInt8))
  | setIsLittleEndian (val : Bool)
  | toString
  | getReadBuffers (len : Nat)
  | getReadBuffersAt (len position : Nat)
  | getWriteBuffers (len : Nat)

/-- A member that does not change the object. -/
def constant {α : Type} (f : ByteArray → Except Stop α) : Run Unit := do
  let ba ← get
  let _ ← ofExcept (f ba)

def dropped {α : Type} (x : Run α) : Run Unit := (fun _ => ()) <$> x

def Call.call (host : Endian) : Call → Run Unit
  | .writeFint8 value => ByteArray.writeFint8 value
  | .writeFuint8 value => ByteArray.writeFuint8 value
  | .writeFint16 value => ByteArray.writeFint16 host value
  | .writeFuint16 value => ByteArray.writeFuint16 host value
  | .writeFint32 value => ByteArray.writeFint32 host value
  | .writeFuint32 value => ByteArray.writeFuint32 host value
  | .writeFint64 value => ByteArray.writeFint64 host value
  | .writeFuint64 value => ByteArray.writeFuint64 host value
  | .writeInt32 value => ByteArray.writeInt32 value
  | .writeUint32 value => ByteArray.writeUint32 value
  | .writeInt64 value => ByteArray.writeInt64 value
  | .writeUint64 value => ByteArray.writeUint64 value
  | .writeFloat bits => ByteArray.writeFloat host bits
  | .writeDouble bits => ByteArray.writeDouble host bits
  | .writeStringF16 value => ByteArray.writeStringF16 host value
  | .writeStringF32 value => ByteArray.writeStringF32 host value
  | .writeStringF64 value => ByteArray.writeStringF64 host value
  | .writeStringVint value => ByteArray.writeStringVint value
  | .writeStringWithoutLength value => ByteArray.writeStringWithoutLength value
  | .readFint8 => dropped ByteArray.readFint8
  | .readFuint8 => dropped ByteArray.readFuint8
  | .readFint16 => dropped (ByteArray.readFint16 host)
  | .readFuint16 => dropped (ByteArray.readFuint16 host)
  | .readFint32 => dropped (ByteArray.readFint32 host)
  | .readFuint32 => dropped (ByteArray.readFuint32 host)
  | .readFint64 => dropped (ByteArray.readFint64 host)
  | .readFuint64 => dropped (ByteArray.readFuint64 host)
  | .readInt32 => dropped ByteArray.readInt32
  | .readUint32 => dropped ByteArray.readUint32
  | .readInt64 => dropped ByteArray.readInt64
  | .readUint64 => dropped ByteArray.readUint64
  | .readFloat => dropped (ByteArray.readFloat host)
  | .readDouble => dropped (ByteArray.readDouble host)
  | .readStringF16 => dropped (ByteArray.readStringF16 host)
  | .readStringF32 => dropped (ByteArray.readStringF32 host)
  | .readStringF64 => dropped (ByteArray.readStringF64 host)
  | .readStringVint => dropped ByteArray.readStringVint
  | .clear => ByteArray.clear
  | .write buf => ByteArray.write buf
  | .read size => dropped (ByteArray.read size)
  | .readAt size position => constant (ByteArray.readAt · size position)
  | .setPosition v => ByteArray.setPosition v
  | .writeToFile opens => constant (ByteArray.writeToFile · opens)
  | .readFromFile file => dropped (ByteArray.readFromFile file)
  | .setIsLittleEndian val => ByteArray.setIsLittleEndian val
  | .toString => constant ByteArray.toString
  | .getReadBuffers len => constant (ByteArray.getReadBuffers · len)
  | .getReadBuffersAt len position => constant (ByteArray.getReadBuffersAt · len position)
  | .getWriteBuffers len => dropped (ByteArray.getWriteBuffers len)

/-- The call as the caller sees it; only undefined behaviour has no result. -/
def Call.run (host : Endian) (c : Call) : ByteArray → Except Stop (Except Stop Unit × ByteArray) :=
  observe Stop.Thrown (c.call host)

/-- Well formed, with blocks of size `B`. -/
def RepOf (B : Nat) (ba : ByteArray) : Prop := Rep ba ∧ ba.baseSize = B

/-- The member leaves a well-formed array behind, whether it returns or throws. -/
abbrev Sound (B : Nat) {α : Type} (x : Run α) : Prop := Keeps Stop.Thrown (RepOf B) x

section Members
variable {B : Nat}

theorem sound_write (buf : List UInt8) : Sound B (write buf) := by
  rintro ba ⟨h,hb⟩
  rcases Nat.lt_or_ge (ba.flat.grow buf.length).mem.length (ba.position + buf.length) with hr | hr
  · obtain ⟨ba',he⟩ := write_null h buf hr
    rw [he]
    intro hthrown
    exact absurd hthrown id
  · obtain ⟨ba',he,hrep,hf⟩ := write_ok h buf hr
    rw [he]
    exact ⟨hrep,(congrArg Flat.baseSize hf).trans (by simpa [Flat.write] using hb)⟩

theorem sound_read (n : Nat) : Sound B (read n) := by
  rintro ba ⟨h,hb⟩
  by_cases hn : ba.position + n ≤ ba.size
  · rcases h.position_le_capacity.lt_or_eq with hp | hp
    · obtain ⟨ba',he,hrep,hf⟩ := read_ok h n hn hp
      rw [he]
      exact ⟨hrep,(congrArg Flat.baseSize hf).trans hb⟩
    · have hle := h.size_le
      obtain rfl : n = 0 := by omega
      rw [read_null h hp]
      intro hthrown
      exact absurd hthrown id
  · rw [read_short h n (by omega)]
    exact fun _ => ⟨h,hb⟩

theorem sound_setPosition (v : Nat) : Sound B (setPosition v) := by
  rintro ba ⟨h,hb⟩
  by_cases hv : v ≤ ba.capacity
  · obtain ⟨ba',he,hrep,hf⟩ := setPosition_ok h v hv
    rw [he]
    exact ⟨hrep,(congrArg Flat.baseSize hf).trans hb⟩
  · rw [setPosition_throws v (by omega)]
    exact fun _ => ⟨h,hb⟩

theorem sound_clear : Sound B clear := by
  rintro ba ⟨h,hb⟩
  obtain ⟨ba',he,hrep,hf⟩ := clear_ok h
  rw [he]
  exact ⟨hrep,(congrArg Flat.baseSize hf).trans hb⟩

theorem sound_getWriteBuffers (len : Nat) : Sound B (getWriteBuffers len) := by
  rintro ba ⟨h,hb⟩
  rcases Nat.lt_or_ge (ba.flat.grow len).mem.length (ba.position + len) with hr | hr
  · obtain ⟨ba',he⟩ := getWriteBuffers_null h len hr
    rw [he]
    intro hthrown
    exact absurd hthrown id
  · obtain ⟨iovs,he,-⟩ := getWriteBuffers_ok h len hr
    obtain ⟨hg,hf⟩ := grow_flat h len
    rw [he]
    exact ⟨hg,(congrArg Flat.baseSize hf).trans (by simpa using hb)⟩

theorem sound_setIsLittleEndian (val : Bool) : Sound B (setIsLittleEndian val) := fun _ h =>
  ⟨⟨h.1.uniform,h.1.capacity_eq,h.1.root_ne,h.1.position_le,h.1.size_le,h.1.cur_eq⟩,h.2⟩

theorem sound_constant {α : Type} (f : ByteArray → Except Stop α) : Sound B (constant f) :=
  Keeps.get_bind fun _ _ => (Keeps.ofExcept _).bind fun _ => Keeps.pure ()

theorem sound_dropped {α : Type} {x : Run α} (h : Sound B x) : Sound B (dropped x) := h.map _

theorem sound_writeFixed (host : Endian) {w : Nat} (value : BitVec w) : Sound B (writeFixed host value) :=
  Keeps.get_bind fun _ _ => sound_write _

theorem sound_readFixed (host : Endian) (w : Nat) : Sound B (readFixed host w) :=
  (sound_read _).bind fun _ => Keeps.get_bind fun _ _ => Keeps.pure _

theorem sound_writeVarint {w : Nat} (slots : Nat) (value : BitVec w) : Sound B (writeVarint slots value) :=
  (Keeps.ofExcept _).bind fun _ => sound_write _

theorem sound_readFuint8 : Sound B readFuint8 := (sound_read 1).bind fun _ => Keeps.pure _

/-- A variable-length read may throw after some of its bytes; each byte keeps the invariant. -/
theorem sound_varintLoop {w : Nat} (is : List Nat) (result : BitVec w) : Sound B (varintLoop is result) := by
  induction is generalizing result with
  | nil => exact Keeps.pure _
  | cons i is ih =>
    apply sound_readFuint8.bind
    intro b
    split
    · exact Keeps.pure _
    · exact ih _

theorem sound_readPayload (len : Nat) : Sound B (readPayload len) := by
  apply Keeps.get_bind
  intro ba _
  split
  · exact Keeps.throw _
  · exact sound_read len

theorem sound_readBlocks (baseSize : Nat) (pos : 0 < baseSize) (file : List UInt8) :
    Sound B (readBlocks baseSize pos file) := by
  induction hn : file.length using Nat.strongRecOn generalizing file with
  | ind n ih =>
    rw [readBlocks]
    apply (sound_write _).bind
    intro _
    split
    · exact ih _ (by rw [List.length_drop]; omega) _ rfl
    · exact Keeps.pure ()

theorem sound_readFromFile (file : Option (List UInt8)) : Sound B (readFromFile file) := by
  cases file with
  | none => exact Keeps.pure _
  | some bytes => exact Keeps.get_bind fun ba _ => (sound_readBlocks _ ba.basePos bytes).bind fun _ => Keeps.pure _

theorem sound_call (host : Endian) (c : Call) : Sound B (c.call host) := by
  cases c with
  | writeFint8 value => exact sound_write [value.toUInt8]
  | writeFuint8 value => exact sound_write [value]
  | writeStringWithoutLength value | write value => exact sound_write value
  | writeFint16 | writeFuint16 | writeFint32 | writeFuint32 | writeFint64 | writeFuint64 | writeFloat | writeDouble =>
    exact sound_writeFixed host _
  | writeInt32 | writeUint32 | writeInt64 | writeUint64 => exact sound_writeVarint _ _
  | writeStringF16 | writeStringF32 | writeStringF64 => exact (sound_writeFixed host _).bind fun _ => sound_write _
  | writeStringVint => exact (sound_writeVarint _ _).bind fun _ => sound_write _
  | readFint8 => exact sound_dropped ((sound_read 1).bind fun _ => Keeps.pure _)
  | readFuint8 => exact sound_dropped sound_readFuint8
  | readFint16 | readFuint16 | readFint32 | readFuint32 | readFint64 | readFuint64 | readFloat | readDouble =>
    exact sound_dropped ((sound_readFixed host _).map _)
  | readInt32 | readInt64 => exact sound_dropped (((sound_varintLoop _ _).map _).map _)
  | readUint32 | readUint64 => exact sound_dropped ((sound_varintLoop _ _).map _)
  | readStringF16 | readStringF32 | readStringF64 =>
    exact sound_dropped (((sound_readFixed host _).map _).bind fun _ => sound_readPayload _)
  | readStringVint => exact sound_dropped (((sound_varintLoop _ _).map _).bind fun _ => sound_readPayload _)
  | clear => exact sound_clear
  | read size => exact sound_dropped (sound_read size)
  | readAt | writeToFile | toString | getReadBuffers | getReadBuffersAt => exact sound_constant _
  | setPosition v => exact sound_setPosition v
  | readFromFile file => exact sound_dropped (sound_readFromFile file)
  | setIsLittleEndian val => exact sound_setIsLittleEndian val
  | getWriteBuffers len => exact sound_dropped (sound_getWriteBuffers len)

end Members

/-- The states the public members can lead to from a fresh array, by calls that return or throw. -/
def Reachable (host : Endian) (baseSize : Nat) (ba : ByteArray) : Prop :=
  ∃ pos heap calls out, runAll (Call.run host) calls (new baseSize pos heap) = .ok (out,ba)

theorem Reachable.repOf {host : Endian} {baseSize : Nat} {ba : ByteArray} (h : Reachable host baseSize ba) :
    RepOf baseSize ba := by
  obtain ⟨pos,heap,calls,out,hr⟩ := h
  have hstep : ∀ c ba r ba', RepOf baseSize ba → Call.run host c ba = .ok (r,ba') → RepOf baseSize ba' :=
    fun c _ _ _ hrep he => observe_keeps (sound_call host c) hrep he
  exact runAll_keeps hstep calls ⟨rep_new baseSize pos heap,rfl⟩ hr

/-- A run that completes reaches a state with everything that can be computed of it. -/
theorem reachable_of_run {host : Endian} {baseSize : Nat} {α : Type} {f : ByteArray → α} {a : α} (pos : 0 < baseSize)
    (heap : Heap) (calls : List Call) (hrun : (runAll (Call.run host) calls (new baseSize pos heap)).map (fun r => f r.2) = .ok a) :
    ∃ ba, Reachable host baseSize ba ∧ f ba = a := by
  obtain ⟨r,hr,hf⟩ := map_ok hrun
  exact ⟨r.2,⟨pos,heap,calls,r.1,hr⟩,hf⟩

/-- The invariant after every sequence of calls that return or throw. -/
theorem runs_keep_representation (host : Endian) (baseSize : Nat) (pos : 0 < baseSize) (heap : Heap) (calls : List Call)
    (out : List (Except Stop Unit)) (ba : ByteArray)
    (hr : runAll (Call.run host) calls (new baseSize pos heap) = .ok (out,ba)) :
    (∀ node ∈ ba.root, node.size = baseSize) ∧ ba.capacity = baseSize * ba.root.length ∧
      ba.position ≤ ba.size ∧ ba.size ≤ ba.capacity ∧
      (∀ i, ba.cur = some i → i = ba.position / baseSize ∧ i < ba.root.length) ∧
      (ba.cur = none ↔ ba.position = ba.capacity) := by
  obtain ⟨hrep,rfl⟩ := Reachable.repOf ⟨pos,heap,calls,out,hr⟩
  refine ⟨hrep.uniform,hrep.capacity_eq,hrep.position_le,hrep.size_le,?_,hrep.cur_eq_none_iff⟩
  intro i hi
  rw [hrep.cur_eq, link] at hi
  split at hi
  · rename_i hlt
    cases hi
    exact ⟨rfl,hlt⟩
  · cases hi

/-- A variable-length read that meets the end of the data after one byte throws there and
leaves the array well formed one byte further on. -/
theorem runs_keep_representation_halfway :
    let calls : List Call := [.writeFuint8 0x80,.setPosition 0,.readUint32]
    let out : List (Except Stop Unit) := [.ok (),.ok (),.error (.outOfRange "not enough len")]
    ∃ ba, runAll (Call.run .little) calls (new 2 Nat.two_pos zeroHeap) = .ok (out,ba) ∧ ba.position = 1 ∧
      (∀ node ∈ ba.root, node.size = 2) ∧ ba.capacity = 2 * ba.root.length ∧
      ba.position ≤ ba.size ∧ ba.size ≤ ba.capacity ∧
      (∀ i, ba.cur = some i → i = ba.position / 2 ∧ i < ba.root.length) ∧
      (ba.cur = none ↔ ba.position = ba.capacity) := by
  intro calls out
  have hrun : (runAll (Call.run .little) calls (new 2 Nat.two_pos zeroHeap)).map (fun r => (r.1,r.2.position)) =
      .ok (out,1) := by decide +kernel
  cases hr : runAll (Call.run .little) calls (new 2 Nat.two_pos zeroHeap) with
  | error e => rw [hr] at hrun; cases hrun
  | ok r =>
    obtain ⟨rs,ba⟩ := r
    rw [hr] at hrun
    obtain ⟨rfl,hp⟩ : rs = out ∧ ba.position = 1 := Prod.mk.inj (Except.ok.inj hrun)
    exact ⟨ba,rfl,hp,runs_keep_representation .little 2 Nat.two_pos zeroHeap calls _ ba hr⟩

end Radixun.Common.ByteArray
