import Radixun.Common.ByteArrayCapacity
import Radixun.Common.ByteArrayReadFailures

/-! Strings written at any position and read back from there. -/
namespace Radixun.Common.ByteArray
open Foundation.BlockMemory Foundation.ExceptionState Foundation.CommandRuns

/-- The array with its position just behind `bytes`, which begin at `start`. -/
structure Holds (ba : ByteArray) (order : Endian) (start : Nat) (bytes : List UInt8) : Prop where
  rep : Rep ba
  endian_eq : ba.endian = order
  position_eq : ba.position = start + bytes.length
  content_eq : slice (memory ba.root) start bytes.length = bytes

section Holding
variable {ba ba' : ByteArray} {order : Endian} {start : Nat} {bytes buf : List UInt8}

theorem Rep.holds (h : Rep ba) : Holds ba ba.endian ba.position [] := ⟨h,rfl,rfl,slice_zero _ _⟩

theorem write_maxString (h : Rep ba) (he : write buf ba = .ok () ba') : ba'.heap.maxString = ba.heap.maxString := by
  obtain ⟨-,-,hf⟩ := write_completed h he
  have hh : ba'.heap = (ba.flat.grow buf.length).heap := congrArg Flat.heap hf
  rw [hh, Flat.grow]
  split <;> rfl

theorem Holds.write (h : Holds ba order start bytes) (he : write buf ba = .ok () ba') :
    Holds ba' order start (bytes ++ buf) := by
  have hp := h.rep.position_le_capacity
  have hpos := h.position_eq
  obtain ⟨-,hrep,hf⟩ := write_completed h.rep he
  obtain ⟨extra,hx⟩ := ba.flat.grow_mem buf.length
  have hmem : memory ba'.root = patch (memory ba.root ++ extra) (start + bytes.length) buf :=
    (congrArg Flat.mem hf).trans (by rw [Flat.write, hx, flat_position, hpos]; rfl)
  have hroom : start + bytes.length ≤ (memory ba.root).length := by rw [h.rep.mem_length, ← hpos]; exact hp
  have hend : ba'.endian = ba.endian := (congrArg Flat.endian hf).trans (by simp [Flat.write])
  refine ⟨hrep,hend.trans h.endian_eq,?_,?_⟩
  · rw [List.length_append, ← Nat.add_assoc, ← hpos]
    exact congrArg Flat.position hf
  · rw [hmem, List.length_append, slice_patch (by rw [List.length_append]; omega), slice_append_left hroom, h.content_eq]

/-- Back at the start the bytes are ahead, before whatever was behind them already. -/
theorem Holds.setPosition (h : Holds ba order start bytes) : ∃ ba' tail, setPosition start ba = .ok () ba' ∧
    Ahead ba' order (bytes ++ tail) ∧ ba'.position = start ∧ ba'.still = ba.still := by
  have hpos := h.position_eq
  have hle := h.rep.position_le
  have hc := h.rep.size_le
  have hmax : max ba.size start = ba.size := Nat.max_eq_left (by omega)
  obtain ⟨ba',he,hrep,hf⟩ := setPosition_ok h.rep start (by omega)
  have hrun := setPosition_run h.rep start (by omega)
  have hm : memory ba'.root = memory ba.root := congrArg Flat.mem hf
  have hs : ba'.size = max ba.size start := congrArg Flat.size hf
  have hp : ba'.position = start := congrArg Flat.position hf
  refine ⟨ba',slice (memory ba.root) ba.position (ba.size - ba.position),he,⟨hrep,?_,?_⟩,hp,?_⟩
  · exact (congrArg Flat.endian hf).trans h.endian_eq
  · have hsplit := slice_concat (memory ba.root) start bytes.length (ba.size - ba.position)
    rw [h.content_eq, ← hpos] at hsplit
    rw [hm, hp, hs, hmax, hsplit]
    congr 1
    omega
  · rw [hrun] at he
    cases he
    simp only [still, hmax]

end Holding

/-- What a value is read as, and where the read ends, when the position is set to where the value begins. -/
def ReadsBack {α : Type} (x : Run α) (v : α) (start stop : Nat) (ba : ByteArray) : Prop :=
  ∃ ba₁ ba₂, setPosition start ba = .ok () ba₁ ∧ x ba₁ = .ok v ba₂ ∧ ba₂.position = stop

namespace StringForm
variable {ba ba' : ByteArray} {order : Endian} {tail s : List UInt8}

theorem write_eq (host : Endian) (form : StringForm) (s : List UInt8) :
    form.write host s = (form.lengthNumber s.length).write host >>= fun _ => ByteArray.write s := by
  cases form with
  | f16 | f32 | f64 | vint => rfl

/-- The bytes of a string under an order setting. -/
def emitted (order : Endian) (form : StringForm) (s : List UInt8) : List UInt8 :=
  (form.lengthNumber s.length).emitted order ++ s

theorem write_holds (h : Rep ba) (host : Endian) (form : StringForm) (he : form.write host s ba = .ok () ba') :
    Holds ba' ba.endian ba.position (form.emitted ba.endian s) ∧ ba'.heap.maxString = ba.heap.maxString := by
  rw [write_eq] at he
  obtain ⟨_,ba₁,he₁,he₂⟩ := bind_eq_ok he
  rw [Numeric.write_run] at he₁
  have h₁ := h.holds.write he₁
  rw [List.nil_append] at h₁
  exact ⟨h₁.write he₂,(write_maxString h₁.rep he₂).trans (write_maxString h he₁)⟩

theorem write_room (h : Rep ba) (host : Endian) (form : StringForm)
    (hroom : ba.position + (form.emitted ba.endian s).length ≤ ba.capacity) : ∃ ba', form.write host s ba = .ok () ba' := by
  rw [emitted, List.length_append] at hroom
  have hfirst : ba.position + ((form.lengthNumber s.length).emitted ba.endian).length ≤ ba.capacity := by omega
  obtain ⟨ba₁,he₁,h₁,hp₁,hc₁⟩ := h.write_room hfirst
  obtain ⟨ba₂,he₂,-⟩ := h₁.write_room (show ba₁.position + s.length ≤ ba₁.capacity by omega)
  rw [← Numeric.write_run host] at he₁
  exact ⟨ba₂,by rw [write_eq, bind_ok he₁]; exact he₂⟩

private theorem takeFixed_bytes {w : Nat} (hw : 8 ∣ w) (order : Endian) (v : BitVec w) (rest : List UInt8) :
    takeFixed order w (order.bytes v ++ rest) = some (v,rest) := by
  have hl := Endian.bytes_length order v
  rw [takeFixed, if_neg (by rw [List.length_append]; omega), ← hl, List.take_left, List.drop_left, Endian.value_bytes hw]

/-- The length comes back up to the width it was narrowed to. -/
theorem takeLength_emitted (order : Endian) (form : StringForm) (n : Nat) (rest : List UInt8) :
    form.takeLength order ((form.lengthNumber n).emitted order ++ rest) = some (n % 2 ^ form.width,rest) := by
  have hfixed : ∀ w, 8 ∣ w → (takeFixed order w (order.bytes (BitVec.ofNat w n) ++ rest)).map (Prod.map BitVec.toNat id) =
      some (n % 2 ^ w,rest) := by
    intro w hw
    rw [takeFixed_bytes hw, Option.map_some, Prod.map_apply, BitVec.toNat_ofNat, id]
  cases form with
  | f16 => exact hfixed 16 (by decide)
  | f32 => exact hfixed 32 (by decide)
  | f64 => exact hfixed 64 (by decide)
  | vint =>
    obtain ⟨tmp,ht⟩ := fillTmp_ok 9 (BitVec.ofNat 64 n) ((BitVec.ofNat 64 n).isLt.trans (by decide))
    have hv : (lengthNumber .vint n).emitted order = tmp := congrArg (·.toOption.getD []) ht
    rw [hv, takeLength, takeGroups_zero (by decide) (by decide) ht rest, Option.map_some, Prod.map_apply, BitVec.toNat_ofNat,
      id, width]

theorem lengthNumber_zero (order : Endian) (form : StringForm) :
    ((form.lengthNumber 0).emitted order).length = form.first := by
  cases order with
  | little | big => cases form <;> decide

section Back
variable (host : Endian) (form : StringForm) (h : Ahead ba order (form.emitted order s ++ tail))
include h

/-- Where a string begins, its length is read modulo the width of the prefix. -/
theorem read_prefix : ∃ ba₁, form.read host ba = readPayload (s.length % 2 ^ form.width) ba₁ ∧ Ahead ba₁ order (s ++ tail) ∧
    ba₁.still = ba.still ∧ ba₁.position = ba.position + ((form.lengthNumber s.length).emitted order).length := by
  rw [emitted, List.append_assoc] at h
  have hrun := form.read_run host h
  rw [takeLength_emitted] at hrun
  obtain ⟨ba₁,he,h₁,hstill,hp,-⟩ := hrun
  rw [List.length_append, Nat.add_sub_cancel_right] at hp
  exact ⟨ba₁,he,h₁,hstill,hp⟩

/-- A string comes back if its length fits the prefix and can be provided, and the read does not end up behind the last
node with nothing to read. -/
theorem read_emitted (hfit : s.length < 2 ^ form.width) (hmax : s.length ≤ ba.heap.maxString)
    (hnull : ¬(s = [] ∧ ba.position + form.first = ba.capacity)) :
    ∃ ba', form.read host ba = .ok s ba' ∧ Ahead ba' order tail ∧ ba'.still = ba.still := by
  have hkeeps := form.still_read host ba.still ba rfl
  obtain ⟨ba₁,he,h₁,hstill,hp⟩ := read_prefix host form h
  rw [Nat.mod_eq_of_lt hfit] at he
  have hlt : ba₁.position < ba₁.capacity := by
    refine h₁.rep.position_le_capacity.lt_of_ne ?_
    intro hend
    have hnil : s ++ tail = [] := by
      by_contra hne
      exact (h₁.position_lt hne).ne hend
    obtain rfl := (List.append_eq_nil_iff.mp hnil).1
    rw [List.length_nil, lengthNumber_zero] at hp
    exact hnull ⟨rfl,by rw [← hp, hend, capacity_of_still hstill]⟩
  have hlen : s.length ≤ (s ++ tail).length := by rw [List.length_append]; omega
  obtain ⟨ba',he',h',-⟩ := readPayload_ok h₁ hlen (heap_of_still hstill ▸ hmax) hlt
  rw [List.take_left] at he'
  rw [List.drop_left] at h'
  rw [he, he'] at hkeeps
  exact ⟨ba',he.trans he',h',hkeeps⟩

/-- And only then. -/
theorem read_emitted_fits {ba' : ByteArray} (hok : form.read host ba = .ok s ba') : s.length < 2 ^ form.width ∧
    s.length ≤ ba.heap.maxString ∧ ¬(s = [] ∧ ba.position + form.first = ba.capacity) := by
  obtain ⟨ba₁,he,h₁,hstill,hp⟩ := read_prefix host form h
  rw [he] at hok
  obtain ⟨hlen,hmax,hlt⟩ := readPayload_completed h₁.rep hok
  rw [heap_of_still hstill, ← hlen] at hmax
  refine ⟨hlen ▸ Nat.mod_lt _ (Nat.two_pow_pos _),hmax,?_⟩
  rintro ⟨rfl,hend⟩
  rw [List.length_nil, lengthNumber_zero, hend, ← capacity_of_still hstill] at hp
  exact hlt.ne hp

end Back

/-- Where more bytes follow the string, its prefix does not end with the last node. -/
theorem first_lt (form : StringForm) (h : Ahead ba order (form.emitted order s ++ tail)) (ht : tail ≠ []) :
    ¬(s = [] ∧ ba.position + form.first = ba.capacity) := by
  rintro ⟨rfl,hend⟩
  have hread := h.getReadSize
  have hle := h.rep.position_le
  have hc := h.rep.size_le
  have hpos := List.length_pos_iff.mpr ht
  rw [h.rep.getReadSize_eq, emitted, List.append_nil, List.length_append, List.length_nil, lengthNumber_zero] at hread
  omega

end StringForm

theorem Numeric.emitted_ne_nil (order : Endian) (n : Numeric) : n.emitted order ≠ [] := by
  have hfixed : ∀ w, 0 < w / 8 → ∀ v : BitVec w, order.bytes v ≠ [] := by
    intro w hw v
    apply List.ne_nil_of_length_pos
    rwa [Endian.bytes_length]
  have hgroups : ∀ w slots, ∀ v : BitVec w, v.toNat < 128 ^ (slots + 1) → varint (slots + 1) v ≠ [] := by
    intro w slots v hv
    obtain ⟨tmp,ht⟩ := fillTmp_ok slots v hv
    have hlen := fillTmp_length (slots + 1) ht
    rw [varint, ht]
    apply List.ne_nil_of_length_pos
    exact hlen ▸ Nat.lt_of_lt_of_le Nat.one_pos (Nat.le_max_left _ _)
  cases n with
  | fint8 value | fuint8 value => exact List.cons_ne_nil _ _
  | fint16 value | fuint16 value => exact hfixed 16 (by decide) _
  | fint32 value | fuint32 value => exact hfixed 32 (by decide) _
  | fint64 value | fuint64 value => exact hfixed 64 (by decide) _
  | int32 value | uint32 value => exact hgroups 32 4 _ ((BitVec.isLt _).trans (by decide))
  | int64 value | uint64 value => exact hgroups 64 9 _ ((BitVec.isLt _).trans (by decide))

def both {α β : Type} (x : Run α) (y : Run β) : Run (α × β) := do
  let a ← x
  let b ← y
  pure (a,b)

/-- A string, written between the two arrays, is read back from where it was written and the position is just behind it
then; and so is, behind it, a number written after it, or a string if that one is read back at all. -/
structure RoundTrip (host : Endian) (form : StringForm) (s : List UInt8) (ba ba' : ByteArray) : Prop where
  back : ReadsBack (form.read host) s ba.position ba'.position ba'
  number : ∀ (n : Numeric) ba'', n.write host ba' = .ok () ba'' →
    ReadsBack (both (form.read host) (n.type.read host)) (s,n) ba.position ba''.position ba''
  string : ∀ (form' : StringForm) s' ba'', form'.write host s' ba' = .ok () ba'' →
    ReadsBack (form'.read host) s' ba'.position ba''.position ba'' →
    ReadsBack (both (form.read host) (form'.read host)) (s,s') ba.position ba''.position ba''

section Trip
variable {ba ba' : ByteArray} {host : Endian} {form : StringForm} {s : List UInt8}

theorem readsBack_iff (h : Rep ba) (hw : form.write host s ba = .ok () ba') :
    ReadsBack (form.read host) s ba.position ba'.position ba' ↔ s.length < 2 ^ form.width ∧
      s.length ≤ ba.heap.maxString ∧ ¬(s = [] ∧ ba.position + form.first = ba'.capacity) := by
  obtain ⟨hholds,hmax⟩ := form.write_holds h host hw
  obtain ⟨ba₁,tail,hset,hahead,hp,hstill⟩ := hholds.setPosition
  rw [← hmax, ← heap_of_still hstill, ← capacity_of_still hstill, ← hp]
  constructor
  · rintro ⟨ba₂,ba₃,hset₂,hread,-⟩
    rw [hp, hset] at hset₂
    cases hset₂
    exact form.read_emitted_fits host hahead hread
  · rintro ⟨hfit,hlong,hnull⟩
    obtain ⟨ba₂,hread,h₂,hstill₂⟩ := form.read_emitted host hahead hfit hlong hnull
    refine ⟨ba₁,ba₂,by rw [hp]; exact hset,hread,?_⟩
    rw [hahead.position_of_still h₂ hstill₂, hp, hholds.position_eq]

/-- The prefix of an empty string ends with the last node exactly if it reaches the end of the old chain on a node edge. -/
theorem empty_fills_iff (h : Rep ba) (hw : form.write host [] ba = .ok () ba') :
    ba.position + form.first = ba'.capacity ↔
      ba.capacity ≤ ba.position + form.first ∧ (ba.position + form.first) % ba.baseSize = 0 := by
  rw [form.write_eq] at hw
  obtain ⟨_,ba₁,he₁,he₂⟩ := bind_eq_ok hw
  cases he₂
  rw [Numeric.write_run] at he₁
  have hfills := write_fills_iff h he₁
  have hp := (write_content h he₁).2.1
  rwa [hp, List.length_nil, form.lengthNumber_zero] at hfills

/-- A string whose length fits is read together with what follows it, if that can be read from there. -/
theorem both_readsBack {β : Type} {y : Run β} {v : β} {order : Endian} {start : Nat} {more : List UInt8}
    (h : Holds ba order start (form.emitted order s ++ more)) (hmore : more ≠ []) (hfit : s.length < 2 ^ form.width)
    (hmax : s.length ≤ ba.heap.maxString)
    (hy : ∀ ba₁ tail, Ahead ba₁ order (more ++ tail) → ba₁.still = ba.still →
      ba₁.position = start + (form.emitted order s).length → ∃ ba₂, y ba₁ = .ok v ba₂ ∧ Ahead ba₂ order tail ∧ ba₂.still = ba₁.still) :
    ReadsBack (both (form.read host) y) (s,v) start ba.position ba := by
  obtain ⟨ba₁,tail,hset,hahead,hp,hstill⟩ := h.setPosition
  have hsplit := hahead
  rw [List.append_assoc] at hsplit
  have hnull := form.first_lt hsplit fun hnil => hmore (List.append_eq_nil_iff.mp hnil).1
  obtain ⟨ba₂,hread,h₂,hstill₂⟩ := form.read_emitted host hsplit hfit (heap_of_still hstill ▸ hmax) hnull
  have hp₂ := hsplit.position_of_still h₂ hstill₂
  rw [hp] at hp₂
  obtain ⟨ba₃,hv,h₃,hstill₃⟩ := hy ba₂ tail h₂ (hstill₂.trans hstill) hp₂
  refine ⟨ba₁,ba₃,hset,(bind_ok hread).trans (bind_ok hv),?_⟩
  rw [hahead.position_of_still h₃ (hstill₃.trans hstill₂), hp, h.position_eq]

theorem number_follows (h : Rep ba) (hw : form.write host s ba = .ok () ba') (hfit : s.length < 2 ^ form.width)
    (hmax : s.length ≤ ba.heap.maxString) (n : Numeric) {ba'' : ByteArray} (hn : n.write host ba' = .ok () ba'') :
    ReadsBack (both (form.read host) (n.type.read host)) (s,n) ba.position ba''.position ba'' := by
  obtain ⟨hholds,hheap⟩ := form.write_holds h host hw
  rw [n.write_run, hholds.endian_eq] at hn
  rw [← hheap, ← write_maxString hholds.rep hn] at hmax
  refine both_readsBack (hholds.write hn) (n.emitted_ne_nil _) hfit hmax ?_
  intro ba₁ tail h₁ _ _
  obtain ⟨take,ht⟩ := takes_number host n.type
  have hkeeps := ht.still ba₁.still ba₁ rfl
  obtain ⟨ba₂,he,h₂⟩ := n.read_run host h₁
  rw [he] at hkeeps
  exact ⟨ba₂,he,h₂,hkeeps⟩

theorem string_follows (h : Rep ba) (hw : form.write host s ba = .ok () ba') (hfit : s.length < 2 ^ form.width)
    (hmax : s.length ≤ ba.heap.maxString) (form' : StringForm) {s' : List UInt8} {ba'' : ByteArray}
    (hw' : form'.write host s' ba' = .ok () ba'')
    (hback : ReadsBack (form'.read host) s' ba'.position ba''.position ba'') :
    ReadsBack (both (form.read host) (form'.read host)) (s,s') ba.position ba''.position ba'' := by
  obtain ⟨hholds,hheap⟩ := form.write_holds h host hw
  obtain ⟨hfit',hmax',hnull'⟩ := (readsBack_iff hholds.rep hw').mp hback
  have hheap' := (form'.write_holds hholds.rep host hw').2
  rw [form'.write_eq] at hw'
  obtain ⟨_,bl,hl,hs⟩ := bind_eq_ok hw'
  rw [Numeric.write_run, hholds.endian_eq] at hl
  have hboth := (hholds.write hl).write hs
  rw [List.append_assoc] at hboth
  have hne : form'.emitted ba.endian s' ≠ [] := List.append_ne_nil_of_left_ne_nil (Numeric.emitted_ne_nil _ _) _
  rw [← hheap, ← hheap'] at hmax
  rw [← hheap'] at hmax'
  refine both_readsBack hboth hne hfit hmax ?_
  intro ba₁ tail h₁ hstill hp
  refine form'.read_emitted host h₁ hfit' (heap_of_still hstill ▸ hmax') ?_
  rwa [capacity_of_still hstill, hp, ← hholds.position_eq]

end Trip

/-- A string written in any reachable state by a write that completes makes the round trip exactly if its length fits
the prefix and can be provided by the allocator, and it is not an empty one whose prefix reaches the end of the old chain on
a node edge. -/
theorem string_round_trip_iff (host : Endian) (baseSize : Nat) (ba ba' : ByteArray) (h : Reachable host baseSize ba)
    (form : StringForm) (s : List UInt8) (hw : form.write host s ba = .ok () ba') :
    RoundTrip host form s ba ba' ↔ s.length < 2 ^ form.width ∧ s.length ≤ ba.heap.maxString ∧
      ¬(s = [] ∧ ba.capacity ≤ ba.position + form.first ∧ (ba.position + form.first) % baseSize = 0) := by
  obtain ⟨hrep,rfl⟩ := h.repOf
  have hempty : (s = [] ∧ ba.position + form.first = ba'.capacity) ↔
      (s = [] ∧ ba.capacity ≤ ba.position + form.first ∧ (ba.position + form.first) % ba.baseSize = 0) := by
    refine and_congr_right ?_
    rintro rfl
    exact empty_fills_iff hrep hw
  rw [← hempty, ← readsBack_iff hrep hw]
  constructor
  · intro ht
    exact ht.back
  · intro hback
    obtain ⟨hfit,hmax,-⟩ := (readsBack_iff hrep hw).mp hback
    exact ⟨hback,fun n _ => number_follows hrep hw hfit hmax n,fun form' _ _ => string_follows hrep hw hfit hmax form'⟩

/-- Two bytes behind a prefix of one, over blocks of three bytes. -/
theorem string_round_trip_vint : ∃ ba', writeStringVint [7,8] (new 3 (by decide) zeroHeap) = .ok () ba' ∧
    RoundTrip .little .vint [7,8] (new 3 (by decide) zeroHeap) ba' := by
  have hstop : stop (StringForm.vint.write .little [7,8]) (new 3 (by decide) zeroHeap) = none := by decide +kernel
  obtain ⟨ba',hw⟩ := ok_of_stop hstop
  exact ⟨ba',hw,(string_round_trip_iff .little 3 _ ba' ⟨by decide,zeroHeap,[],[],rfl⟩ .vint [7,8] hw).mpr (by decide)⟩

/-- An empty string whose prefix fills the only block does not come back, nor does one of 65536 bytes, whose length is
written as zero. -/
theorem string_lost :
    (∃ ba', writeStringF16 .little [] (new 2 Nat.two_pos zeroHeap) = .ok () ba' ∧
      ¬ReadsBack (readStringF16 .little) [] 0 ba'.position ba') ∧
    (∃ ba', writeStringF16 .little (List.replicate 65536 7) (new 65538 (by decide) zeroHeap) = .ok () ba' ∧
      ¬ReadsBack (readStringF16 .little) (List.replicate 65536 7) 0 ba'.position ba') := by
  constructor
  · have hstop : stop (StringForm.f16.write .little []) (new 2 Nat.two_pos zeroHeap) = none := by decide +kernel
    obtain ⟨ba',hw⟩ := ok_of_stop hstop
    refine ⟨ba',hw,?_⟩
    intro hback
    have hnull := ((readsBack_iff (rep_new 2 Nat.two_pos zeroHeap) hw).mp hback).2.2
    rw [empty_fills_iff (rep_new 2 Nat.two_pos zeroHeap) hw] at hnull
    exact hnull (by decide)
  · have hnew := rep_new 65538 (by decide) zeroHeap
    have hlong : ∀ s : List UInt8, s.length = 65536 → ∃ ba', writeStringF16 .little s (new 65538 (by decide) zeroHeap) =
        .ok () ba' ∧ ¬ReadsBack (readStringF16 .little) s 0 ba'.position ba' := by
      intro s hs
      have hroom : 0 + (StringForm.f16.emitted .big s).length ≤ 65538 := by
        rw [StringForm.emitted, List.length_append, hs]
        decide
      obtain ⟨ba',hw⟩ := StringForm.write_room hnew .little .f16 hroom
      refine ⟨ba',hw,?_⟩
      intro hback
      have hfit := ((readsBack_iff hnew hw).mp hback).1
      rw [hs] at hfit
      exact absurd hfit (by decide)
    exact hlong _ List.length_replicate

end Radixun.Common.ByteArray
