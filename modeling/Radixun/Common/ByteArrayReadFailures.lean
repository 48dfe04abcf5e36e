import Radixun.Common.ByteArrayStrings

/-! How reads go wrong: where they follow a null node, and what they leave behind when the bytes end too soon. -/
namespace Radixun.Common.ByteArray
open Foundation.BlockMemory Foundation.ExceptionState Foundation.CommandRuns

/-- What a call stops with, if it does not return. -/
def stop {α : Type} (x : Run α) (ba : ByteArray) : Option Stop :=
  match x ba with
  | .ok _ _ => none
  | .error e _ => some e

/-- The call follows no null pointer. -/
def NullSafe {α : Type} (x : Run α) (ba : ByteArray) : Prop := stop x ba ≠ some .nullDeref

theorem stop_ok {α : Type} {x : Run α} {ba ba' : ByteArray} {a : α} (h : x ba = .ok a ba') : stop x ba = none := by
  rw [stop, h]

theorem stop_error {α : Type} {x : Run α} {ba ba' : ByteArray} {e : Stop} (h : x ba = .error e ba') :
    stop x ba = some e := by rw [stop, h]

theorem ok_of_stop {x : Run Unit} {ba : ByteArray} (h : stop x ba = none) : ∃ ba', x ba = .ok () ba' := by
  cases hx : x ba with
  | ok u ba' => exact ⟨ba',rfl⟩
  | error e ba' =>
    rw [stop_error hx] at h
    cases h

section Null
variable {ba : ByteArray} {order : Endian} {bytes : List UInt8} {n : Nat}

/-- A read of nothing goes wrong behind the last node, since `m_cur` is followed before the size is looked at. -/
theorem read_nullSafe_iff (h : Rep ba) (hn : n ≤ ba.getReadSize) :
    NullSafe (read n) ba ↔ ¬(n = 0 ∧ ba.position = ba.capacity) := by
  have hle := h.position_le
  have hc := h.size_le
  rw [h.getReadSize_eq] at hn
  rw [NullSafe]
  rcases h.position_le_capacity.lt_or_eq with hp | hp
  · obtain ⟨ba',he,-⟩ := read_ok h n (by omega) hp
    rw [stop_ok he]
    exact iff_of_true (by simp) (by omega)
  · obtain rfl : n = 0 := by omega
    rw [stop_error (read_null h hp)]
    exact iff_of_false (not_not_intro rfl) (not_not_intro ⟨rfl,hp⟩)

/-- Elsewhere a read of nothing changes nothing. -/
theorem read_zero (h : Rep ba) (hp : ba.position < ba.capacity) : read 0 ba = .ok [] ba := by
  obtain ⟨ba',he,h',hf⟩ := read_ok h 0 h.position_le hp
  have hstill := still_read 0 ba.still ba rfl
  rw [he] at hstill
  rw [he, slice_zero, eq_of_still h h' hstill (congrArg Flat.position hf)]

theorem readPayload_nullSafe_iff (h : Ahead ba order bytes) (hn : n ≤ bytes.length) :
    NullSafe (readPayload n) ba ↔ ¬(n = 0 ∧ ba.position = ba.capacity) := by
  rcases Nat.lt_or_ge ba.heap.maxString n with hmax | hmax
  · rw [NullSafe, stop_error (readPayload_long hmax)]
    exact iff_of_true (by simp) (by omega)
  · rw [← read_nullSafe_iff h.rep (h.getReadSize.symm ▸ hn), NullSafe, NullSafe, stop, readPayload_eq hmax]
    rfl

end Null

/-- In every reachable state a read of what is there follows no null pointer, and a read of nothing changes
nothing, unless nothing is asked for behind the last node; a string whose bytes are all there is read so
unless it is empty and its prefix ends there. -/
theorem reads_nullSafe_iff (host : Endian) (baseSize : Nat) (ba : ByteArray) (h : Reachable host baseSize ba) :
    (∀ n ≤ ba.getReadSize, (NullSafe (read n) ba ∧ (n = 0 → read n ba = .ok [] ba)) ↔
      ¬(n = 0 ∧ ba.position = ba.capacity)) ∧
    (∀ form : StringForm, ∀ len rest, form.takeLength ba.endian ba.readable = some (len,rest) → len ≤ rest.length →
      (NullSafe (form.read host) ba ↔
        ¬(len = 0 ∧ ba.position + (ba.readable.length - rest.length) = ba.capacity))) := by
  obtain ⟨hrep,rfl⟩ := h.repOf
  constructor
  · intro n hn
    rw [read_nullSafe_iff hrep hn]
    refine and_iff_left_of_imp ?_
    rintro hsafe rfl
    exact read_zero hrep (hrep.position_le_capacity.lt_of_ne fun hp => hsafe ⟨rfl,hp⟩)
  · intro form len rest htake hlen
    have hrun := form.read_run host hrep.ahead
    rw [htake] at hrun
    obtain ⟨ba₁,he,h₁,hstill,hp,-⟩ := hrun
    rw [← hp, ← capacity_of_still hstill, ← readPayload_nullSafe_iff h₁ hlen, NullSafe, NullSafe, stop, stop, he]

/-- One byte in a block of two leaves room behind it, where a read of nothing is safe. -/
theorem reads_nullSafe_fresh : ∃ ba, Reachable .little 2 ba ∧ ba.position = 1 ∧ ba.capacity = 2 ∧
    NullSafe (read 0) ba ∧ read 0 ba = .ok [] ba := by
  obtain ⟨ba,hreach,hat⟩ : ∃ ba, Reachable .little 2 ba ∧ (ba.position,ba.capacity) = (1,2) :=
    reachable_of_run Nat.two_pos zeroHeap [.writeFuint8 7] (by decide +kernel)
  obtain ⟨hp,hc⟩ := Prod.mk.inj hat
  have hread := ((reads_nullSafe_iff .little 2 ba hreach).1 0 (Nat.zero_le _)).mpr (by omega)
  exact ⟨ba,hreach,hp,hc,hread.1,hread.2 rfl⟩

/-- A full block of two bytes: a read of nothing behind it follows the null pointer, and so does the read of an
empty string whose prefix fills it. -/
theorem read_nothing_null :
    (∃ ba, Reachable .little 2 ba ∧ ba.getReadSize = 0 ∧ ¬NullSafe (read 0) ba) ∧
    (∃ ba, Reachable .little 2 ba ∧ StringForm.f16.takeLength ba.endian ba.readable = some (0,[]) ∧
      ¬NullSafe (readStringF16 .little) ba) := by
  constructor
  · obtain ⟨ba,hreach,hat⟩ : ∃ ba, Reachable .little 2 ba ∧ (ba.getReadSize,stop (read 0) ba) = (0,some .nullDeref) :=
      reachable_of_run Nat.two_pos zeroHeap [.writeFuint16 7] (by decide +kernel)
    obtain ⟨hn,hs⟩ := Prod.mk.inj hat
    exact ⟨ba,hreach,hn,not_not_intro hs⟩
  · obtain ⟨ba,hreach,hat⟩ : ∃ ba, Reachable .little 2 ba ∧
        (StringForm.f16.takeLength ba.endian ba.readable,stop (readStringF16 .little) ba) = (some (0,[]),some .nullDeref) :=
      reachable_of_run Nat.two_pos zeroHeap [.writeStringF16 [],.setPosition 0] (by decide +kernel)
    obtain ⟨hn,hs⟩ := Prod.mk.inj hat
    exact ⟨ba,hreach,hn,not_not_intro hs⟩

/-- The typed reads. -/
inductive TypedRead where
  | number (type : NumericType)
  | float
  | double
  | string (form : StringForm)

def TypedRead.call (host : Endian) : TypedRead → Run Unit
  | .number type => dropped (type.read host)
  | .float => dropped (readFloat host)
  | .double => dropped (readDouble host)
  | .string form => dropped (form.read host)

/-- The size of the first raw read of a number. -/
def NumericType.first : NumericType → Nat
  | .fint16 | .fuint16 => 2
  | .fint32 | .fuint32 => 4
  | .fint64 | .fuint64 => 8
  | _ => 1

def TypedRead.first : TypedRead → Nat
  | .number type => type.first
  | .float => 4
  | .double => 8
  | .string form => form.first

/-- A variable-length number ends in these bytes: one of the first `slots` has no continuation bit. -/
def ends (slots : Nat) (bytes : List UInt8) : Bool := (bytes.take slots).any (·.toNat < 0x80)

/-- The bytes begin with a complete number. -/
def NumericType.complete : NumericType → List UInt8 → Bool
  | .int32, bytes | .uint32, bytes => ends 5 bytes
  | .int64, bytes | .uint64, bytes => ends 10 bytes
  | type, bytes => type.first ≤ bytes.length

/-- The bytes begin with a complete record: of a string, its length and as many bytes behind it. -/
def TypedRead.Complete (order : Endian) : TypedRead → List UInt8 → Prop
  | .number type, bytes => type.complete bytes
  | .float, bytes => 4 ≤ bytes.length
  | .double, bytes => 8 ≤ bytes.length
  | .string form, bytes => (form = .vint → ends 10 bytes) ∧
      ∃ len rest, form.takeLength order bytes = some (len,rest) ∧ len ≤ rest.length

section Atomic
variable {α : Type} {x : Run α} {take : Endian → List UInt8 → Option (α × List UInt8)} {first n : Nat}
variable {ba : ByteArray} {order : Endian} {bytes : List UInt8}

/-- A raw read that fails leaves the array alone. -/
theorem read_error {e : Stop} {ba' : ByteArray} (h : Rep ba) (he : read n ba = .error e ba') : ba' = ba := by
  by_cases hn : ba.position + n ≤ ba.size
  · rcases h.position_le_capacity.lt_or_eq with hp | hp
    · obtain ⟨ba₁,he₁,-⟩ := read_ok h n hn hp
      rw [he₁] at he
      cases he
    · have hle := h.size_le
      obtain rfl : n = 0 := by omega
      rw [read_null h hp] at he
      cases he
      rfl
  · rw [read_short h n (Nat.lt_of_not_le hn)] at he
    cases he
    rfl

theorem readPayload_error {e : Stop} {ba' : ByteArray} (h : Rep ba) (he : readPayload n ba = .error e ba') : ba' = ba := by
  rcases Nat.lt_or_ge ba.heap.maxString n with hmax | hmax
  · rw [readPayload_long hmax] at he
    cases he
    rfl
  · rw [readPayload_eq hmax] at he
    exact read_error h he

/-- A number is left alone exactly if its first raw read already fails. -/
theorem Takes.fails_iff (t : Takes x take first) (h : Ahead ba order bytes) :
    dropped x ba = .error (.outOfRange "not enough len") ba ↔ bytes.length < first := by
  have he := (t.map fun _ => ()).ends ba order bytes h
  cases ht : (take order bytes).map (Prod.map (fun _ => ()) id) with
  | none =>
    rw [ht] at he
    obtain ⟨ba',hx,hsame⟩ := he
    rw [dropped, hx, ← hsame]
    constructor
    · rintro ⟨⟩
      rfl
    · rintro rfl
      rfl
  | some out =>
    rw [ht] at he
    obtain ⟨ba',hx,-,hle,-⟩ := he
    rw [dropped, hx]
    exact iff_of_false (by simp) (by omega)

/-- A string is left alone exactly if the first raw read of its length already fails: whatever comes later finds the
position moved. -/
theorem StringForm.fails_iff (host : Endian) (form : StringForm) (h : Ahead ba order bytes) :
    dropped (form.read host) ba = .error (.outOfRange "not enough len") ba ↔ bytes.length < form.first := by
  have hfirst := (form.takes_length host).first_pos
  have hrun := form.read_run host h
  cases ht : form.takeLength order bytes with
  | none =>
    rw [ht] at hrun
    obtain ⟨ba',hx,hsame⟩ := hrun
    rw [dropped, map_run_error _ hx, ← hsame]
    constructor
    · rintro ⟨⟩
      rfl
    · rintro rfl
      rfl
  | some out =>
    rw [ht] at hrun
    obtain ⟨ba₁,hx,h₁,-,hp,hle⟩ := hrun
    refine iff_of_false ?_ (by omega)
    intro hfail
    cases hr : form.read host ba with
    | ok s ba' =>
      rw [dropped, map_run_ok _ hr] at hfail
      cases hfail
    | error e ba' =>
      rw [dropped, map_run_error _ hr] at hfail
      cases hfail
      rw [hx] at hr
      obtain rfl := readPayload_error h₁.rep hr
      omega

theorem takes_number (host : Endian) (type : NumericType) : ∃ take, Takes (type.read host) take type.first := by
  have hfixed : ∀ w, 8 ∣ w → 0 < w / 8 → ∀ f : BitVec w → Numeric, ∃ take, Takes (f <$> readFixed host w) take (w / 8) :=
    fun w hw hpos f => ⟨_,(takes_fixed host hw hpos).map f⟩
  have hgroups : ∀ w, shifts w ≠ [] → ∀ f : BitVec w → Numeric, ∃ take, Takes (f <$> varintLoop (shifts w) 0#w) take 1 :=
    fun w hw f => ⟨_,(takes_varint hw _).map f⟩
  cases type with
  | fint8 =>
    have hbyte : readFint8 = UInt8.toInt8 <$> readFuint8 := by simp [readFint8, readFuint8]
    exact ⟨_,by rw [NumericType.read, hbyte]; exact (takes_byte.map _).map _⟩
  | fuint8 => exact ⟨_,takes_byte.map _⟩
  | fint16 | fuint16 =>
    simp only [NumericType.read, readFint16, readFuint16, Functor.map_map]
    exact hfixed 16 (by decide) (by decide) _
  | fint32 | fuint32 =>
    simp only [NumericType.read, readFint32, readFuint32, Functor.map_map]
    exact hfixed 32 (by decide) (by decide) _
  | fint64 | fuint64 =>
    simp only [NumericType.read, readFint64, readFuint64, Functor.map_map]
    exact hfixed 64 (by decide) (by decide) _
  | int32 | uint32 =>
    simp only [NumericType.read, readInt32, readUint32, Functor.map_map]
    exact hgroups 32 (by decide) _
  | int64 | uint64 =>
    simp only [NumericType.read, readInt64, readUint64, Functor.map_map]
    exact hgroups 64 (by decide) _

theorem TypedRead.fails_iff (host : Endian) (t : TypedRead) (h : Ahead ba order bytes) :
    t.call host ba = .error (.outOfRange "not enough len") ba ↔ bytes.length < t.first := by
  cases t with
  | number type =>
    obtain ⟨take,ht⟩ := takes_number host type
    exact ht.fails_iff h
  | float => exact ((takes_fixed host (by decide) (by decide)).map UInt32.ofBitVec).fails_iff h
  | double => exact ((takes_fixed host (by decide) (by decide)).map UInt64.ofBitVec).fails_iff h
  | string form => exact form.fails_iff host h

end Atomic

/-- In every reachable state a typed read that finds no complete record throws and leaves the array as it was exactly
if its first raw read, of the length itself or of one byte of it, already fails. -/
theorem typed_read_atomic_iff (host : Endian) (baseSize : Nat) (ba : ByteArray) (h : Reachable host baseSize ba)
    (t : TypedRead) : (¬t.Complete ba.endian ba.readable → t.call host ba = .error (.outOfRange "not enough len") ba) ↔
      t.Complete ba.endian ba.readable ∨ ba.getReadSize < t.first := by
  have hahead := h.repOf.1.ahead
  rw [t.fails_iff host hahead, ← hahead.getReadSize]
  exact or_iff_not_imp_left.symm

/-- One byte is too short for a number of two, and stays. -/
theorem typed_read_atomic_short : ∃ ba, Reachable .little 2 ba ∧ ba.getReadSize = 1 ∧
    (TypedRead.number .fuint16).call .little ba = .error (.outOfRange "not enough len") ba := by
  obtain ⟨ba,hreach,hat⟩ : ∃ ba, Reachable .little 2 ba ∧
      (ba.getReadSize,NumericType.fuint16.complete ba.readable) = (1,false) :=
    reachable_of_run Nat.two_pos zeroHeap [.writeFuint8 7,.setPosition 0] (by decide +kernel)
  obtain ⟨hn,hc⟩ := Prod.mk.inj hat
  refine ⟨ba,hreach,hn,(typed_read_atomic_iff .little 2 ba hreach (.number .fuint16)).mpr (.inr ?_) ?_⟩
  · rw [hn]
    decide
  · simpa [TypedRead.Complete] using hc

/-- A group that announces another one and none behind it: the read throws, and the group is gone. -/
theorem typed_read_moved : ∃ ba, Reachable .little 2 ba ∧ ba.position = 0 ∧
    ¬(TypedRead.number .uint32).Complete ba.endian ba.readable ∧
    (left ((TypedRead.number .uint32).call .little ba)).position = 1 ∧
    (TypedRead.number .uint32).call .little ba ≠ .error (.outOfRange "not enough len") ba := by
  obtain ⟨ba,hreach,hat⟩ : ∃ ba, Reachable .little 2 ba ∧ (ba.position,NumericType.uint32.complete ba.readable,
      (left ((TypedRead.number .uint32).call .little ba)).position) = (0,false,1) :=
    reachable_of_run Nat.two_pos zeroHeap [.writeFuint8 0x80,.setPosition 0] (by decide +kernel)
  obtain ⟨hp,hmore⟩ := Prod.mk.inj hat
  obtain ⟨hc,hleft⟩ := Prod.mk.inj hmore
  refine ⟨ba,hreach,hp,by simpa [TypedRead.Complete] using hc,hleft,?_⟩
  intro hsame
  rw [hsame, left, hp] at hleft
  cases hleft

end Radixun.Common.ByteArray
