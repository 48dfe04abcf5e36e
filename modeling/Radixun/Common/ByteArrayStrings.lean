import Radixun.Common.ByteArrayVarint

/-! Strings behind their lengths: what the four pairs of members write, and how a read ends on any
bytes. The length goes through the width of its prefix, the payload is written whole. -/
namespace Radixun.Common.ByteArray
open Foundation.BlockMemory Foundation.ByteCodec Foundation.ExceptionState

/-- The members for strings by the prefix they use. -/
inductive StringForm where
  | f16 | f32 | f64 | vint
  deriving DecidableEq, Repr

/-- The bytes that can be read. -/
def readable (ba : ByteArray) : List UInt8 := slice (memory ba.root) ba.position (ba.size - ba.position)

theorem Rep.ahead {ba : ByteArray} (h : Rep ba) : Ahead ba ba.endian ba.readable := ⟨h,rfl,rfl⟩

/-- A number of fixed width off the front of some bytes. -/
def takeFixed (order : Endian) (w : Nat) (bytes : List UInt8) : Option (BitVec w × List UInt8) :=
  if bytes.length < w / 8 then none else some (order.value w (bytes.take (w / 8)),bytes.drop (w / 8))

namespace StringForm

def write (host : Endian) : StringForm → List UInt8 → Run Unit
  | .f16 => writeStringF16 host
  | .f32 => writeStringF32 host
  | .f64 => writeStringF64 host
  | .vint => writeStringVint

def read (host : Endian) : StringForm → Run (List UInt8)
  | .f16 => readStringF16 host
  | .f32 => readStringF32 host
  | .f64 => readStringF64 host
  | .vint => readStringVint

/-- The width a length is narrowed to. -/
def width : StringForm → Nat
  | .f16 => 16
  | .f32 => 32
  | .f64 => 64
  | .vint => 64

/-- The size of the first raw read of the prefix; the prefix of an empty string has that size. -/
def first : StringForm → Nat
  | .f16 => 2
  | .f32 => 4
  | .f64 => 8
  | .vint => 1

/-- The number that the length of a string is written as. -/
def lengthNumber : StringForm → Nat → Numeric
  | .f16, n => .fuint16 (.ofNat n)
  | .f32, n => .fuint32 (.ofNat n)
  | .f64, n => .fuint64 (.ofNat n)
  | .vint, n => .uint64 (.ofNat n)

/-- The length that some bytes begin with, and the bytes behind it. -/
def takeLength (order : Endian) : StringForm → List UInt8 → Option (Nat × List UInt8)
  | .f16, bytes => (takeFixed order 16 bytes).map (Prod.map BitVec.toNat id)
  | .f32, bytes => (takeFixed order 32 bytes).map (Prod.map BitVec.toNat id)
  | .f64, bytes => (takeFixed order 64 bytes).map (Prod.map BitVec.toNat id)
  | .vint, bytes => (takeGroups (shifts 64) 0#64 bytes).map (Prod.map BitVec.toNat id)

end StringForm

/-- Everything but the position and its node. -/
def still (ba : ByteArray) : ByteArray := { ba with position := 0, cur := none }

section Still
variable {ba ba' : ByteArray}

/-- A well-formed array is determined by its position and the rest. -/
theorem eq_of_still (h : Rep ba) (h' : Rep ba') (hs : ba'.still = ba.still) (hp : ba'.position = ba.position) : ba' = ba := by
  have hcur := h.cur_eq
  have hcur' := h'.cur_eq
  obtain ⟨_,_,position,_,_,_,_,cur,_⟩ := ba
  obtain ⟨_,_,position',_,_,_,_,cur',_⟩ := ba'
  simp only [still, mk.injEq] at hs
  obtain ⟨rfl,-,rfl,rfl,rfl,rfl,-,rfl⟩ := hs
  obtain rfl : position' = position := hp
  simp only [link] at hcur hcur'
  rw [hcur, hcur']

theorem capacity_of_still (h : ba'.still = ba.still) : ba'.capacity = ba.capacity :=
  show ba'.still.capacity = ba.still.capacity from congrArg capacity h

theorem size_of_still (h : ba'.still = ba.still) : ba'.size = ba.size :=
  show ba'.still.size = ba.still.size from congrArg size h

theorem heap_of_still (h : ba'.still = ba.still) : ba'.heap = ba.heap :=
  show ba'.still.heap = ba.still.heap from congrArg heap h

/-- A read moves the position at most, also when it does not return. -/
theorem still_read (n : Nat) (f : ByteArray) : Keeps (fun _ => True) (fun ba => ba.still = f) (read n) := by
  apply Keeps.get_bind
  intro ba hf
  split
  · exact Keeps.throw _
  · apply (Keeps.ofExcept _).bind
    intro out
    apply (Keeps.ofExcept _).bind
    intro res s _
    exact hf

/-- Where nothing but the position moved, it moved behind what is no longer ahead. -/
theorem Ahead.position_of_still {order : Endian} {bytes rest : List UInt8} (h : Ahead ba order (bytes ++ rest))
    (h' : Ahead ba' order rest) (hs : ba'.still = ba.still) : ba'.position = ba.position + bytes.length := by
  have hsize := size_of_still hs
  have hread := h.getReadSize
  have hread' := h'.getReadSize
  have hle := h.rep.position_le
  have hle' := h'.rep.position_le
  rw [h.rep.getReadSize_eq, List.length_append] at hread
  rw [h'.rep.getReadSize_eq] at hread'
  omega

end Still

/-- A read of a number: what it takes off the bytes ahead of the array, and how it fails when they end too
soon. `first` is the size of its first raw read. -/
structure Takes {α : Type} (x : Run α) (take : Endian → List UInt8 → Option (α × List UInt8)) (first : Nat) : Prop where
  still : ∀ f, Keeps (fun _ => True) (fun ba => ba.still = f) x
  first_pos : 0 < first
  ends : ∀ ba order bytes, Ahead ba order bytes → match take order bytes with
    | some (v,rest) => ∃ ba', x ba = .ok v ba' ∧ Ahead ba' order rest ∧ rest.length + first ≤ bytes.length ∧
        ba'.position + rest.length = ba.position + bytes.length
    | none => ∃ ba', x ba = .error (.outOfRange "not enough len") ba' ∧ (ba' = ba ↔ bytes.length < first)

section Takes
variable {α β : Type} {x : Run α} {take : Endian → List UInt8 → Option (α × List UInt8)} {first : Nat}
variable {ba : ByteArray} {order : Endian} {bytes : List UInt8}

theorem Takes.map (t : Takes x take first) (f : α → β) :
    Takes (f <$> x) (fun order bytes => (take order bytes).map (Prod.map f id)) first where
  still g := (t.still g).map f
  first_pos := t.first_pos
  ends ba order bytes h := by
    have he := t.ends ba order bytes h
    cases ht : take order bytes with
    | none =>
      rw [ht] at he
      obtain ⟨ba',hx,hsame⟩ := he
      exact ⟨ba',map_run_error f hx,hsame⟩
    | some out =>
      rw [ht] at he
      obtain ⟨ba',hx,hrest⟩ := he
      exact ⟨ba',map_run_ok f hx,hrest⟩

theorem takes_byte : Takes readFuint8 (fun _ bytes => bytes.head?.map fun b => (b,bytes.tail)) 1 where
  still f := (still_read 1 f).bind fun _ => Keeps.pure _
  first_pos := Nat.one_pos
  ends ba order bytes h := by
    cases bytes with
    | nil => exact ⟨ba,readFuint8_end h,iff_of_true rfl Nat.one_pos⟩
    | cons b bytes =>
      have hbyte : Ahead ba order ([b] ++ bytes) := h
      obtain ⟨ba',he,h',hp⟩ := hbyte.read_at (h.position_lt (List.cons_ne_nil _ _))
      refine ⟨ba',bind_ok he,h',Nat.le_refl _,?_⟩
      rw [hp, List.length_singleton, List.tail_cons, List.length_cons]
      omega

theorem takes_fixed (host : Endian) {w : Nat} (hw : 8 ∣ w) (hpos : 0 < w / 8) :
    Takes (readFixed host w) (fun order => takeFixed order w) (w / 8) where
  still f := (still_read _ f).bind fun _ => Keeps.get_bind fun _ _ => Keeps.pure _
  first_pos := hpos
  ends ba order bytes h := by
    unfold takeFixed
    by_cases hshort : bytes.length < w / 8
    · have hle := h.rep.position_le
      have hsize := h.getReadSize
      rw [h.rep.getReadSize_eq] at hsize
      rw [if_pos hshort]
      exact ⟨ba,bind_error (read_short h.rep _ (by omega)),iff_of_true rfl hshort⟩
    · have hl : (bytes.take (w / 8)).length = w / 8 := by rw [List.length_take]; omega
      have hsplit : Ahead ba order (bytes.take (w / 8) ++ bytes.drop (w / 8)) := by rwa [List.take_append_drop]
      obtain ⟨ba',he,h',hp⟩ := hsplit.read_at (h.position_lt (List.ne_nil_of_length_pos (by omega)))
      rw [hl] at he hp
      rw [if_neg hshort]
      refine ⟨ba',?_,h',?_,?_⟩
      · rw [readFixed, bind_ok he, get_run, h'.endian_eq, Endian.value_host hw host order hl]
        rfl
      · rw [List.length_drop]
        omega
      · rw [List.length_drop]
        omega

/-- Bytes that hold no complete number are used up. -/
theorem takes_varint {w : Nat} {is : List Nat} (his : is ≠ []) (result : BitVec w) :
    Takes (varintLoop is result) (fun _ => takeGroups is result) 1 where
  still f := by
    clear his
    induction is generalizing result with
    | nil => exact Keeps.pure _
    | cons i is ih =>
      apply Keeps.bind ((still_read 1 f).bind fun _ => Keeps.pure _)
      intro b
      split
      · exact Keeps.pure _
      · exact ih _
  first_pos := Nat.one_pos
  ends ba order bytes h := by
    have hrun := varintLoop_run is result h
    cases ht : takeGroups is result bytes with
    | none =>
      rw [ht] at hrun
      obtain ⟨ba',he,hp⟩ := hrun
      refine ⟨ba',he,?_⟩
      constructor
      · rintro rfl
        omega
      · intro hshort
        obtain rfl := List.eq_nil_of_length_eq_zero (Nat.lt_one_iff.mp hshort)
        obtain ⟨i,is,rfl⟩ := List.exists_cons_of_ne_nil his
        rw [varintLoop, bind_error (readFuint8_end h)] at he
        cases he
        rfl
    | some out =>
      rw [ht] at hrun
      obtain ⟨ba',he,h',hp⟩ := hrun
      refine ⟨ba',he,h',?_,hp⟩
      obtain ⟨i,is,rfl⟩ := List.exists_cons_of_ne_nil his
      cases bytes with
      | nil => cases ht
      | cons b bytes =>
        rw [takeGroups] at ht
        split at ht
        · cases ht
          exact Nat.le_refl _
        · have hbound := takeGroups_bounded is (result ||| ((b.toBitVec &&& 0x7F#8).setWidth w <<< i)) bytes
          rw [ht] at hbound
          obtain ⟨taken,rfl,-⟩ := hbound
          rw [List.length_cons, List.length_append]
          omega

end Takes

namespace StringForm
variable {ba : ByteArray} {order : Endian} {bytes rest : List UInt8} {len : Nat}

/-- The first half of a read. -/
def readLength (host : Endian) : StringForm → Run Nat
  | .f16 => UInt16.toNat <$> readFuint16 host
  | .f32 => UInt32.toNat <$> readFuint32 host
  | .f64 => UInt64.toNat <$> readFuint64 host
  | .vint => UInt64.toNat <$> readUint64

theorem read_eq (host : Endian) (form : StringForm) : form.read host = form.readLength host >>= readPayload := by
  cases form with
  | f16 | f32 | f64 | vint => exact (bind_map_left _ _ _).symm

theorem takes_length (host : Endian) (form : StringForm) :
    Takes (form.readLength host) (fun order => form.takeLength order) form.first := by
  have hfixed : ∀ w, 8 ∣ w → 0 < w / 8 → Takes (BitVec.toNat <$> readFixed host w)
      (fun order bytes => (takeFixed order w bytes).map (Prod.map BitVec.toNat id)) (w / 8) :=
    fun w hw hpos => (takes_fixed host hw hpos).map BitVec.toNat
  have hvint : Takes (varintLoop (shifts 64) 0#64) (fun _ => takeGroups (shifts 64) 0#64) 1 := takes_varint (by decide) _
  cases form with
  | f16 =>
    rw [readLength, readFuint16, Functor.map_map]
    exact hfixed 16 (by decide) (by decide)
  | f32 =>
    rw [readLength, readFuint32, Functor.map_map]
    exact hfixed 32 (by decide) (by decide)
  | f64 =>
    rw [readLength, readFuint64, Functor.map_map]
    exact hfixed 64 (by decide) (by decide)
  | vint =>
    rw [readLength, readUint64, Functor.map_map]
    exact hvint.map BitVec.toNat

end StringForm

section Payload
variable {ba : ByteArray} {order : Endian} {bytes : List UInt8} {len : Nat}

theorem readPayload_long (h : ba.heap.maxString < len) : readPayload len ba = .error .noMemory ba := by
  rw [readPayload, get_run, if_pos h]
  rfl

theorem readPayload_eq (h : len ≤ ba.heap.maxString) : readPayload len ba = read len ba := by
  rw [readPayload, get_run, if_neg (Nat.not_lt.mpr h)]

theorem still_readPayload (n : Nat) (f : ByteArray) : Keeps (fun _ => True) (fun ba => ba.still = f) (readPayload n) := by
  apply Keeps.get_bind
  intro ba _
  split
  · exact Keeps.throw _
  · exact still_read n f

theorem readPayload_ok (h : Ahead ba order bytes) (hlen : len ≤ bytes.length) (hmax : len ≤ ba.heap.maxString)
    (hp : ba.position < ba.capacity) : ∃ ba', readPayload len ba = .ok (bytes.take len) ba' ∧
      Ahead ba' order (bytes.drop len) ∧ ba'.position = ba.position + len := by
  have hl : (bytes.take len).length = len := by rw [List.length_take, Nat.min_eq_left hlen]
  have hsplit : Ahead ba order (bytes.take len ++ bytes.drop len) := by rwa [List.take_append_drop]
  have hread := hsplit.read_at hp
  rw [hl] at hread
  rwa [readPayload_eq hmax]

/-- A payload that was read has the length asked for, and `m_cur` was not null. -/
theorem readPayload_completed {ba' : ByteArray} (h : Rep ba) (he : readPayload len ba = .ok bytes ba') :
    bytes.length = len ∧ len ≤ ba.heap.maxString ∧ ba.position < ba.capacity := by
  rcases Nat.lt_or_ge ba.heap.maxString len with hmax | hmax
  · rw [readPayload_long hmax] at he
    cases he
  · rw [readPayload_eq hmax] at he
    have hc := h.size_le
    by_cases hn : ba.position + len ≤ ba.size
    · rcases h.position_le_capacity.lt_or_eq with hp | hp
      · obtain ⟨ba₁,he₁,-⟩ := read_ok h len hn hp
        rw [he₁] at he
        cases he
        exact ⟨slice_length (by rw [h.mem_length]; omega),hmax,hp⟩
      · obtain rfl : len = 0 := by omega
        rw [read_null h hp] at he
        cases he
    · rw [read_short h len (Nat.lt_of_not_le hn)] at he
      cases he

end Payload

theorem StringForm.still_read (host : Endian) (form : StringForm) (f : ByteArray) :
    Keeps (fun _ => True) (fun ba => ba.still = f) (form.read host) := by
  rw [form.read_eq]
  exact ((form.takes_length host).still f).bind fun n => still_readPayload n f

/-- A string is read as its length and then as a payload of that length, from just behind the length. -/
theorem StringForm.read_run {ba : ByteArray} {order : Endian} {bytes : List UInt8} (host : Endian) (form : StringForm)
    (h : Ahead ba order bytes) : match form.takeLength order bytes with
    | some (len,rest) => ∃ ba₁, form.read host ba = readPayload len ba₁ ∧ Ahead ba₁ order rest ∧ ba₁.still = ba.still ∧
        ba₁.position = ba.position + (bytes.length - rest.length) ∧ rest.length + form.first ≤ bytes.length
    | none => ∃ ba', form.read host ba = .error (.outOfRange "not enough len") ba' ∧
        (ba' = ba ↔ bytes.length < form.first) := by
  have ht := form.takes_length host
  have hends := ht.ends ba order bytes h
  have hstill := ht.still ba.still ba rfl
  rw [form.read_eq]
  cases hl : form.takeLength order bytes with
  | none =>
    rw [hl] at hends
    obtain ⟨ba',he,hsame⟩ := hends
    exact ⟨ba',bind_error he,hsame⟩
  | some out =>
    rw [hl] at hends
    obtain ⟨ba₁,he,h₁,hle,hp⟩ := hends
    rw [he] at hstill
    exact ⟨ba₁,bind_ok he,h₁,hstill,by omega,hle⟩

end Radixun.Common.ByteArray
