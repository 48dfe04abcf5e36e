import Radixun.Common.ByteArrayCodec
import Radixun.Common.ByteArrayStream

/-! Sequences of typed numbers and order switches, written and read back. -/
namespace Radixun.Common.ByteArray
open Foundation.BlockMemory Foundation.ExceptionState Foundation.CommandRuns

/-- A number with the member that writes it. -/
inductive Numeric where
  | fint8 (value : Int8)
  | fuint8 (value : UInt8)
  | fint16 (value : Int16)
  | fuint16 (value : UInt16)
  | fint32 (value : Int32)
  | fuint32 (value : UInt32)
  | fint64 (value : Int64)
  | fuint64 (value : UInt64)
  | int32 (value : Int32)
  | uint32 (value : UInt32)
  | int64 (value : Int64)
  | uint64 (value : UInt64)
  deriving DecidableEq

inductive NumericType where
  | fint8 | fuint8 | fint16 | fuint16 | fint32 | fuint32 | fint64 | fuint64 | int32 | uint32 | int64 | uint64

def Numeric.type : Numeric → NumericType
  | .fint8 _ => .fint8
  | .fuint8 _ => .fuint8
  | .fint16 _ => .fint16
  | .fuint16 _ => .fuint16
  | .fint32 _ => .fint32
  | .fuint32 _ => .fuint32
  | .fint64 _ => .fint64
  | .fuint64 _ => .fuint64
  | .int32 _ => .int32
  | .uint32 _ => .uint32
  | .int64 _ => .int64
  | .uint64 _ => .uint64

def Numeric.write (host : Endian) : Numeric → Run Unit
  | .fint8 value => writeFint8 value
  | .fuint8 value => writeFuint8 value
  | .fint16 value => writeFint16 host value
  | .fuint16 value => writeFuint16 host value
  | .fint32 value => writeFint32 host value
  | .fuint32 value => writeFuint32 host value
  | .fint64 value => writeFint64 host value
  | .fuint64 value => writeFuint64 host value
  | .int32 value => writeInt32 value
  | .uint32 value => writeUint32 value
  | .int64 value => writeInt64 value
  | .uint64 value => writeUint64 value

def NumericType.read (host : Endian) : NumericType → Run Numeric
  | .fint8 => .fint8 <$> readFint8
  | .fuint8 => .fuint8 <$> readFuint8
  | .fint16 => .fint16 <$> readFint16 host
  | .fuint16 => .fuint16 <$> readFuint16 host
  | .fint32 => .fint32 <$> readFint32 host
  | .fuint32 => .fuint32 <$> readFuint32 host
  | .fint64 => .fint64 <$> readFint64 host
  | .fuint64 => .fuint64 <$> readFuint64 host
  | .int32 => .int32 <$> readInt32
  | .uint32 => .uint32 <$> readUint32
  | .int64 => .int64 <$> readInt64
  | .uint64 => .uint64 <$> readUint64

/-- A sequence of writes, or of reads, with `setIsLittleEndian` calls in between. -/
abbrev Script (α : Type) := List (α ⊕ Bool)

def writeAll (host : Endian) : Script Numeric → Run Unit
  | [] => pure ()
  | .inl n :: script => do
    n.write host
    writeAll host script
  | .inr val :: script => do
    setIsLittleEndian val
    writeAll host script

def readAll (host : Endian) : Script NumericType → Run (List Numeric)
  | [] => pure []
  | .inl t :: script => do
    let n ← t.read host
    let ns ← readAll host script
    pure (n :: ns)
  | .inr val :: script => do
    setIsLittleEndian val
    readAll host script

def Script.numbers (script : Script Numeric) : List Numeric := script.filterMap Sum.getLeft?
def Script.types (script : Script Numeric) : Script NumericType := script.map (Sum.map Numeric.type id)

/-- The groups of a variable-length number. -/
def varint {w : Nat} (slots : Nat) (value : BitVec w) : List UInt8 := (fillTmp slots value).toOption.getD []

/-- The bytes of a number under an order setting. No host occurs in it. -/
def Numeric.emitted (order : Endian) : Numeric → List UInt8
  | .fint8 value => [value.toUInt8]
  | .fuint8 value => [value]
  | .fint16 value => order.bytes value.toBitVec
  | .fuint16 value => order.bytes value.toBitVec
  | .fint32 value => order.bytes value.toBitVec
  | .fuint32 value => order.bytes value.toBitVec
  | .fint64 value => order.bytes value.toBitVec
  | .fuint64 value => order.bytes value.toBitVec
  | .int32 value => varint 5 (encodeZigzag value.toBitVec)
  | .uint32 value => varint 5 value.toBitVec
  | .int64 value => varint 10 (encodeZigzag value.toBitVec)
  | .uint64 value => varint 10 value.toBitVec

def Script.emitted : Endian → Script Numeric → List UInt8
  | _, [] => []
  | order, .inl n :: script => n.emitted order ++ Script.emitted order script
  | _, .inr val :: script => Script.emitted (if val then .little else .big) script

section Raw
variable {ba : ByteArray} {order : Endian} {bytes : List UInt8}

theorem readFuint8_ahead {b : UInt8} (h : Ahead ba order (b :: bytes)) :
    ∃ ba', readFuint8 ba = .ok b ba' ∧ Ahead ba' order bytes := by
  have hbyte : Ahead ba order ([b] ++ bytes) := h
  obtain ⟨ba',he,h'⟩ := hbyte.read (List.cons_ne_nil _ _)
  exact ⟨ba',bind_ok he,h'⟩

theorem readFixed_ahead {w : Nat} (hw : 8 ∣ w) (hpos : 0 < w / 8) (host : Endian) (v : BitVec w)
    (h : Ahead ba order (order.bytes v ++ bytes)) : ∃ ba', readFixed host w ba = .ok v ba' ∧ Ahead ba' order bytes := by
  have hl := Endian.bytes_length order v
  obtain ⟨ba',he,h'⟩ := h.read (List.ne_nil_of_length_pos (hl ▸ hpos))
  rw [hl] at he
  refine ⟨ba',?_,h'⟩
  rw [readFixed, bind_ok he, get_run, h'.endian_eq, Endian.value_host hw host order hl, Endian.value_bytes hw]
  rfl

theorem read_position {n : Nat} (h : Rep ba) {ba' : ByteArray} (he : read n ba = .ok bytes ba') :
    ba'.position = ba.position + n ∧ ba'.size = ba.size := by
  by_cases hn : ba.position + n ≤ ba.size
  · rcases h.position_le_capacity.lt_or_eq with hp | hp
    · obtain ⟨ba₁,he₁,-,hf⟩ := read_ok h n hn hp
      rw [he₁] at he
      cases he
      exact ⟨congrArg Flat.position hf,congrArg Flat.size hf⟩
    · have hle := h.size_le
      obtain rfl : n = 0 := by omega
      rw [read_null h hp] at he
      cases he
  · rw [read_short h n (Nat.lt_of_not_le hn)] at he
    cases he

theorem readFuint8_end (h : Ahead ba order []) : readFuint8 ba = .error (.outOfRange "not enough len") ba := by
  have hsize := h.getReadSize
  have hle := h.rep.position_le
  rw [h.rep.getReadSize_eq, List.length_nil] at hsize
  exact bind_error (read_short h.rep 1 (by omega))

/-- The reading loop on an array is the one on the bytes ahead in it; the position moves with them. -/
theorem varintLoop_run {w : Nat} (is : List Nat) (result : BitVec w) (h : Ahead ba order bytes) :
    match takeGroups is result bytes with
    | some (v,rest) => ∃ ba', varintLoop is result ba = .ok v ba' ∧ Ahead ba' order rest ∧
        ba'.position + rest.length = ba.position + bytes.length
    | none => ∃ ba', varintLoop is result ba = .error (.outOfRange "not enough len") ba' ∧
        ba'.position = ba.position + bytes.length := by
  induction is generalizing result ba bytes with
  | nil => exact ⟨ba,rfl,h,rfl⟩
  | cons i is ih =>
    cases bytes with
    | nil =>
      rw [takeGroups, varintLoop, bind_error (readFuint8_end h)]
      exact ⟨ba,rfl,rfl⟩
    | cons b bytes =>
      obtain ⟨ba₁,he₁,h₁⟩ := readFuint8_ahead h
      have hp₁ : ba₁.position = ba.position + 1 := by
        obtain ⟨_,ba₂,hread,hpure⟩ := bind_eq_ok he₁
        cases hpure
        exact (read_position h.rep hread).1
      rw [takeGroups, varintLoop, bind_ok he₁]
      by_cases hb : b.toNat < 0x80
      · rw [if_pos hb, if_pos hb]
        exact ⟨ba₁,rfl,h₁,by rw [hp₁, List.length_cons]; omega⟩
      · rw [if_neg hb, if_neg hb]
        have hrest := ih (result ||| ((b.toBitVec &&& 0x7F#8).setWidth w <<< i)) h₁
        cases ht : takeGroups is (result ||| ((b.toBitVec &&& 0x7F#8).setWidth w <<< i)) bytes with
        | none =>
          rw [ht] at hrest
          obtain ⟨ba₂,he₂,hp₂⟩ := hrest
          exact ⟨ba₂,he₂,by rw [hp₂, hp₁, List.length_cons]; omega⟩
        | some out =>
          rw [ht] at hrest
          obtain ⟨ba₂,he₂,h₂,hp₂⟩ := hrest
          exact ⟨ba₂,he₂,h₂,by rw [hp₂, hp₁, List.length_cons]; omega⟩

/-- The reading loop takes exactly the groups that the writing loop put down. -/
theorem varintLoop_ahead {w : Nat} (hw : 8 ≤ w) (slots : Nat) {v : BitVec w} {tmp : List UInt8}
    (ht : fillTmp slots v = .ok tmp) (i n : Nat) (hn : slots ≤ n) (result : BitVec w)
    (h : Ahead ba order (tmp ++ bytes)) : ∃ ba', varintLoop (List.range' i n 7) result ba = .ok (result ||| (v <<< i)) ba' ∧
      Ahead ba' order bytes ∧ ba'.position = ba.position + tmp.length := by
  have hrun := varintLoop_run (List.range' i n 7) result h
  rw [takeGroups_fillTmp hw slots ht i n hn result bytes] at hrun
  obtain ⟨ba',he,h',hp⟩ := hrun
  refine ⟨ba',he,h',?_⟩
  rw [List.length_append] at hp
  omega

private theorem varint_eq {w : Nat} {slots : Nat} {v : BitVec w} (hv : v.toNat < 128 ^ (slots + 1)) :
    fillTmp (slots + 1) v = .ok (varint (slots + 1) v) := by
  obtain ⟨tmp,ht⟩ := fillTmp_ok slots v hv
  rw [varint, ht]
  rfl

private theorem fits32 (v : BitVec 32) : v.toNat < 128 ^ (4 + 1) := v.isLt.trans (by decide)
private theorem fits64 (v : BitVec 64) : v.toNat < 128 ^ (9 + 1) := v.isLt.trans (by decide)

private theorem writeVarint_run {w : Nat} {slots : Nat} {v : BitVec w} (hv : v.toNat < 128 ^ (slots + 1)) (ba : ByteArray) :
    writeVarint (slots + 1) v ba = ByteArray.write (varint (slots + 1) v) ba := ofExcept_bind (varint_eq hv) _ _

private theorem writeFixed_run {w : Nat} (hw : 8 ∣ w) (host : Endian) (v : BitVec w) (ba : ByteArray) :
    writeFixed host v ba = ByteArray.write (ba.endian.bytes v) ba := by
  rw [writeFixed, get_run, Endian.bytes_host hw]

private theorem varintLoop_zero {w : Nat} (hw : 8 ≤ w) {slots : Nat} {v : BitVec w} (hv : v.toNat < 128 ^ (slots + 1))
    (hs : slots + 1 = (w + 6) / 7) (h : Ahead ba order (varint (slots + 1) v ++ bytes)) :
    ∃ ba', varintLoop (shifts w) 0#w ba = .ok v ba' ∧ Ahead ba' order bytes := by
  obtain ⟨ba',he,h',-⟩ := varintLoop_ahead hw _ (varint_eq hv) 0 ((w + 6) / 7) hs.le 0#w h
  rw [BitVec.shiftLeft_zero, BitVec.zero_or] at he
  exact ⟨ba',he,h'⟩

end Raw

/-- Each typed write is one raw write of the emitted bytes. -/
theorem Numeric.write_run (host : Endian) (n : Numeric) (ba : ByteArray) :
    n.write host ba = ByteArray.write (n.emitted ba.endian) ba := by
  cases n with
  | fint8 value | fuint8 value => rfl
  | fint16 value | fuint16 value | fint32 value | fuint32 value | fint64 value | fuint64 value =>
    exact writeFixed_run (by decide) host _ ba
  | int32 value | uint32 value => exact writeVarint_run (fits32 _) ba
  | int64 value | uint64 value => exact writeVarint_run (fits64 _) ba

/-- Each typed read takes what the write of its type emitted and gives the number back. -/
theorem Numeric.read_run (host : Endian) (n : Numeric) {ba : ByteArray} {order : Endian} {rest : List UInt8}
    (h : Ahead ba order (n.emitted order ++ rest)) :
    ∃ ba', n.type.read host ba = .ok n ba' ∧ Ahead ba' order rest := by
  cases n with
  | fint8 value =>
    have hbyte : Ahead ba order ([value.toUInt8] ++ rest) := h
    obtain ⟨ba',he,h'⟩ := hbyte.read (List.cons_ne_nil _ _)
    exact ⟨ba',map_run_ok _ (bind_ok he),h'⟩
  | fuint8 value =>
    obtain ⟨ba',he,h'⟩ := readFuint8_ahead h
    exact ⟨ba',map_run_ok _ he,h'⟩
  | fint16 value | fuint16 value | fint32 value | fuint32 value | fint64 value | fuint64 value =>
    obtain ⟨ba',he,h'⟩ := readFixed_ahead (by decide) (by decide) host _ h
    exact ⟨ba',map_run_ok _ (map_run_ok _ he),h'⟩
  | uint32 value =>
    obtain ⟨ba',he,h'⟩ := varintLoop_zero (by decide) (fits32 _) (by decide) h
    exact ⟨ba',map_run_ok _ (map_run_ok _ he),h'⟩
  | uint64 value =>
    obtain ⟨ba',he,h'⟩ := varintLoop_zero (by decide) (fits64 _) (by decide) h
    exact ⟨ba',map_run_ok _ (map_run_ok _ he),h'⟩
  | int32 value =>
    obtain ⟨ba',he,h'⟩ := varintLoop_zero (by decide) (fits32 _) (by decide) h
    have hr : readInt32 ba = .ok value ba' :=
      (map_run_ok _ (map_run_ok _ he)).trans (congrArg (EStateM.Result.ok · ba') (decodeZigzag32_encodeZigzag32 value))
    exact ⟨ba',map_run_ok _ hr,h'⟩
  | int64 value =>
    obtain ⟨ba',he,h'⟩ := varintLoop_zero (by decide) (fits64 _) (by decide) h
    have hr : readInt64 ba = .ok value ba' :=
      (map_run_ok _ (map_run_ok _ he)).trans (congrArg (EStateM.Result.ok · ba') (decodeZigzag64_encodeZigzag64 value))
    exact ⟨ba',map_run_ok _ hr,h'⟩

/-- The writes of a script append what it emits. -/
theorem writeAll_written (host : Endian) (script : Script Numeric) {ba ba' : ByteArray} {order : Endian}
    {bytes : List UInt8} (h : Written ba order bytes) (he : writeAll host script ba = .ok () ba') :
    ∃ order', Written ba' order' (bytes ++ script.emitted order) := by
  induction script generalizing ba order bytes with
  | nil =>
    cases he
    exact ⟨order,by simpa [Script.emitted] using h⟩
  | cons step script ih =>
    cases step with
    | inl n =>
      obtain ⟨_,ba₁,he₁,hrest⟩ := bind_eq_ok he
      rw [n.write_run host ba, h.endian_eq] at he₁
      obtain ⟨order',h'⟩ := ih (h.write he₁) hrest
      exact ⟨order',by simpa [Script.emitted] using h'⟩
    | inr val =>
      obtain ⟨ba₁,he₁,h₁⟩ := h.setIsLittleEndian val
      rw [writeAll, bind_ok he₁] at he
      exact ih h₁ he

/-- The matching reads of a script give its numbers back and use up what it emitted. -/
theorem readAll_ahead (host : Endian) (script : Script Numeric) {ba : ByteArray} {order : Endian} {rest : List UInt8}
    (h : Ahead ba order (script.emitted order ++ rest)) :
    ∃ ba' order', readAll host script.types ba = .ok script.numbers ba' ∧ Ahead ba' order' rest := by
  induction script generalizing ba order with
  | nil => exact ⟨ba,order,rfl,h⟩
  | cons step script ih =>
    cases step with
    | inl n =>
      rw [Script.emitted, List.append_assoc] at h
      obtain ⟨ba₁,he₁,h₁⟩ := n.read_run host h
      obtain ⟨ba₂,order',he₂,h₂⟩ := ih h₁
      exact ⟨ba₂,order',(bind_ok he₁).trans (bind_ok he₂),h₂⟩
    | inr val =>
      obtain ⟨ba₁,he₁,h₁⟩ := h.setIsLittleEndian val
      obtain ⟨ba₂,order',he₂,h₂⟩ := ih h₁
      exact ⟨ba₂,order',(bind_ok he₁).trans he₂,h₂⟩

/-- Back to the start and to the first order setting. -/
def rewind (val : Bool) : Run Unit := do
  setPosition 0
  setIsLittleEndian val

/-- Numbers written to an empty array, order switches in between, are read back as they
were. The bytes in the array are `emitted`, whatever the host. -/
theorem numbers_round_trip (host : Endian) (baseSize : Nat) (ba ba' : ByteArray) (h : Reachable host baseSize ba)
    (hz : ba.size = 0) (script : Script Numeric) (hw : writeAll host script ba = .ok () ba') :
    ∃ ba₁ ba₂, rewind ba.isLittleEndian ba' = .ok () ba₁ ∧ ba₁.toString = .ok (script.emitted ba.endian) ∧
      readAll host script.types ba₁ = .ok script.numbers ba₂ ∧ ba₂.getReadSize = 0 := by
  have hrep := h.repOf.1
  have hle := hrep.position_le
  have hempty : Written ba ba.endian [] := ⟨hrep,rfl,by omega,by rw [Flat.content, flat_size, hz, List.take_zero]⟩
  obtain ⟨order',hwritten⟩ := writeAll_written host script hempty hw
  obtain ⟨bp,hp,hahead,-⟩ := hwritten.setPosition
  obtain ⟨ba₁,he₁,h₁⟩ := hahead.setIsLittleEndian ba.isLittleEndian
  have hend : (if ba.isLittleEndian then Endian.little else .big) = ba.endian := by
    cases hb : ba.endian <;> simp [isLittleEndian, hb]
  rw [hend] at h₁
  rw [List.nil_append, ← List.append_nil (script.emitted ba.endian)] at h₁
  obtain ⟨ba₂,order₂,he₂,h₂⟩ := readAll_ahead host script h₁
  rw [List.append_nil] at h₁
  exact ⟨ba₁,ba₂,(bind_ok hp).trans he₁,h₁.toString,he₂,h₂.getReadSize⟩

/-- Edge values over blocks of three bytes, on a host that swaps for the first of them. -/
theorem numbers_round_trip_edges :
    let script : Script Numeric := [.inl (.fuint16 0x1234),.inr true,.inl (.int64 (-0x8000000000000000)),
      .inl (.uint32 0xFFFFFFFF),.inr false,.inl (.fint32 (-2)),.inl (.fint8 (-1))]
    let emitted : List UInt8 := [0x12,0x34,0xFF,0xFF,0xFF,0xFF,0xFF,0xFF,0xFF,0xFF,0xFF,0x01,
      0xFF,0xFF,0xFF,0xFF,0x0F,0xFF,0xFF,0xFF,0xFE,0xFF]
    ∃ ba' ba₁ ba₂, writeAll .little script (new 3 (by decide) zeroHeap) = .ok () ba' ∧
      rewind false ba' = .ok () ba₁ ∧ ba₁.toString = .ok emitted ∧
      readAll .little script.types ba₁ = .ok script.numbers ba₂ ∧ ba₂.getReadSize = 0 := by
  intro script emitted
  have hrun : (match writeAll .little script (new 3 (by decide) zeroHeap) with | .ok _ _ => true | .error _ _ => false) = true := by
    decide +kernel
  have hemit : script.emitted .big = emitted := by decide +kernel
  cases hw : writeAll .little script (new 3 (by decide) zeroHeap) with
  | error e s => rw [hw] at hrun; cases hrun
  | ok u ba' =>
    obtain ⟨ba₁,ba₂,h₁,h₂,h₃⟩ := numbers_round_trip .little 3 (new 3 (by decide) zeroHeap) ba'
      ⟨by decide,zeroHeap,[],[],rfl⟩ rfl script hw
    rw [show (new 3 (by decide) zeroHeap).endian = .big from rfl, hemit] at h₂
    exact ⟨ba',ba₁,ba₂,rfl,h₁,h₂,h₃⟩

end Radixun.Common.ByteArray
