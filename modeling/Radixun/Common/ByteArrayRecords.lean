import Radixun.Common.ByteArrayStringTrip

/-! Records: numbers, floating-point numbers, strings of each form and order switches in any sequence. -/
namespace Radixun.Common.ByteArray
open Foundation.BlockMemory Foundation.ExceptionState Foundation.CommandRuns

/-- An item of a record, a floating-point number by its bits. `plain` is a string whose length the reader knows. -/
inductive Item where
  | number (n : Numeric)
  | float (bits : UInt32)
  | double (bits : UInt64)
  | string (form : StringForm) (s : List UInt8)
  | plain (s : List UInt8)
  | order (val : Bool)
  deriving DecidableEq

/-- What the reader knows of an item. -/
inductive ItemType where
  | number (t : NumericType)
  | float
  | double
  | string (form : StringForm)
  | plain (len : Nat)
  | order (val : Bool)

namespace Item

def type : Item → ItemType
  | .number n => .number n.type
  | .float _ => .float
  | .double _ => .double
  | .string form _ => .string form
  | .plain s => .plain s.length
  | .order val => .order val

def write (host : Endian) : Item → Run Unit
  | .number n => n.write host
  | .float bits => writeFloat host bits
  | .double bits => writeDouble host bits
  | .string form s => form.write host s
  | .plain s => writeStringWithoutLength s
  | .order val => setIsLittleEndian val

/-- The bytes of an item under an order setting. -/
def emitted (order : Endian) : Item → List UInt8
  | .number n => n.emitted order
  | .float bits => (Numeric.fuint32 bits).emitted order
  | .double bits => (Numeric.fuint64 bits).emitted order
  | .string form s => form.emitted order s
  | .plain s => s
  | .order _ => []

/-- The order setting behind an item. -/
def next (order : Endian) : Item → Endian
  | .order val => if val then .little else .big
  | _ => order

/-- A string whose length fits the prefix and can be provided. -/
def Fits (maxString : Nat) : Item → Prop
  | .string form s => s.length < 2 ^ form.width ∧ s.length ≤ maxString
  | _ => True

instance (maxString : Nat) : DecidablePred (Fits maxString)
  | .number _ => isTrue trivial
  | .float _ => isTrue trivial
  | .double _ => isTrue trivial
  | .string _ _ => inferInstanceAs (Decidable (_ ∧ _))
  | .plain _ => isTrue trivial
  | .order _ => isTrue trivial

def isEmpty : Item → Bool
  | .string _ s => s.isEmpty
  | .plain s => s.isEmpty
  | _ => false

def isOrder : Item → Bool
  | .order _ => true
  | _ => false

end Item

def ItemType.read (host : Endian) : ItemType → Run Item
  | .number t => .number <$> t.read host
  | .float => .float <$> readFloat host
  | .double => .double <$> readDouble host
  | .string form => .string form <$> form.read host
  | .plain len => .plain <$> ByteArray.read len
  | .order val => do
    setIsLittleEndian val
    pure (.order val)

def writeRecord (host : Endian) : List Item → Run Unit
  | [] => pure ()
  | item :: items => do
    item.write host
    writeRecord host items

def readRecord (host : Endian) : List ItemType → Run (List Item)
  | [] => pure []
  | t :: ts => do
    let item ← t.read host
    let items ← readRecord host ts
    pure (item :: items)

def recordBytes : Endian → List Item → List UInt8
  | _, [] => []
  | order, item :: items => item.emitted order ++ recordBytes (item.next order) items

/-- The last value of the record is an empty string. -/
def endsEmpty : List Item → Bool
  | [] => false
  | item :: items => endsEmpty items || (item.isEmpty && items.all Item.isOrder)

section Writing
variable {ba ba' : ByteArray} {order : Endian} {start : Nat} {bytes : List UInt8}

/-- The array has been switched, if at all, to the order. -/
theorem Holds.switch (h : Holds ba order start bytes) (val : Bool) :
    ∃ ba', setIsLittleEndian val ba = .ok () ba' ∧ Holds ba' (if val then .little else .big) start bytes ∧
      ba'.heap.maxString = ba.heap.maxString :=
  ⟨_,rfl,⟨(sound_setIsLittleEndian val ba ⟨h.rep,rfl⟩).1,rfl,h.position_eq,h.content_eq⟩,rfl⟩

theorem Item.write_holds (host : Endian) (item : Item) (h : Holds ba order start bytes) (he : item.write host ba = .ok () ba') :
    Holds ba' (item.next order) start (bytes ++ item.emitted order) ∧ ba'.heap.maxString = ba.heap.maxString := by
  have hraw : ∀ {buf}, ByteArray.write buf ba = .ok () ba' → Holds ba' order start (bytes ++ buf) ∧
    ba'.heap.maxString = ba.heap.maxString :=
    fun hw => ⟨h.write hw,write_maxString h.rep hw⟩
  have hnumber : ∀ n : Numeric, n.write host ba = .ok () ba' →
      Holds ba' order start (bytes ++ n.emitted order) ∧ ba'.heap.maxString = ba.heap.maxString := by
    intro n hw
    rw [n.write_run, h.endian_eq] at hw
    exact hraw hw
  cases item with
  | number n => exact hnumber n he
  | float bits => exact hnumber (.fuint32 bits) he
  | double bits => exact hnumber (.fuint64 bits) he
  | plain s => exact hraw he
  | order val =>
    obtain ⟨ba₁,he₁,h₁,hmax⟩ := h.switch val
    cases he.symm.trans he₁
    rw [emitted, List.append_nil]
    exact ⟨h₁,hmax⟩
  | string form s =>
    have hw : form.write host s ba = .ok () ba' := he
    rw [form.write_eq] at hw
    obtain ⟨_,ba₁,he₁,he₂⟩ := bind_eq_ok hw
    rw [Numeric.write_run, h.endian_eq] at he₁
    have h₁ := h.write he₁
    rw [emitted, StringForm.emitted, ← List.append_assoc]
    exact ⟨h₁.write he₂,(write_maxString h₁.rep he₂).trans (write_maxString h.rep he₁)⟩

/-- What a record leaves behind what was there. -/
theorem writeRecord_holds (host : Endian) (items : List Item) (h : Holds ba order start bytes)
    (he : writeRecord host items ba = .ok () ba') :
    ∃ order', Holds ba' order' start (bytes ++ recordBytes order items) ∧ ba'.heap.maxString = ba.heap.maxString := by
  induction items generalizing ba order bytes with
  | nil =>
    cases he
    exact ⟨order,by rwa [recordBytes, List.append_nil],rfl⟩
  | cons item items ih =>
    obtain ⟨_,ba₁,he₁,hrest⟩ := bind_eq_ok he
    obtain ⟨h₁,hmax⟩ := item.write_holds host h he₁
    obtain ⟨order',h',hmax'⟩ := ih h₁ hrest
    rw [List.append_assoc] at h'
    exact ⟨order',h',hmax'.trans hmax⟩

end Writing

section Filling
variable {ba ba' ba'' : ByteArray}

/-- How far writes let the chain grow: not by a whole block beyond the position. -/
structure Grows (ba ba' : ByteArray) : Prop where
  baseSize_eq : ba'.baseSize = ba.baseSize
  position_le : ba.position ≤ ba'.position
  capacity_le : ba.capacity ≤ ba'.capacity
  tight : ba'.capacity = ba.capacity ∨ ba'.capacity < ba'.position + ba.baseSize

theorem Grows.refl (ba : ByteArray) : Grows ba ba := ⟨rfl,le_rfl,le_rfl,.inl rfl⟩

theorem Grows.trans (h : Grows ba ba') (h' : Grows ba' ba'') : Grows ba ba'' := by
  have hp := h'.position_le
  refine ⟨h'.baseSize_eq.trans h.baseSize_eq,h.position_le.trans hp,h.capacity_le.trans h'.capacity_le,?_⟩
  rcases h'.tight with hc' | hc'
  · rcases h.tight with hc | hc
    · exact .inl (hc'.trans hc)
    · exact .inr (by omega)
  · rw [h.baseSize_eq] at hc'
    exact .inr hc'

/-- Room for `n` more bytes, once there is enough of it, is less than a block more than that. -/
theorem grow_tight (h : Rep ba) {n : Nat} (hroom : ba.position + n ≤ (ba.flat.grow n).mem.length) :
    ba.capacity ≤ (ba.flat.grow n).mem.length ∧
      ((ba.flat.grow n).mem.length = ba.capacity ∨ (ba.flat.grow n).mem.length < ba.position + n + ba.baseSize) := by
  have hp := h.position_le_capacity
  have hmem : ba.flat.mem.length = ba.capacity := h.mem_length
  by_cases hn : ba.position + n ≤ ba.capacity
  · have hgrow : ba.flat.grow n = ba.flat := if_pos (by rw [hmem, flat_position]; omega)
    rw [hgrow, hmem]
    exact ⟨le_rfl,.inl rfl⟩
  · rw [grow_length h (Nat.lt_of_not_le hn)] at hroom ⊢
    refine ⟨Nat.le_add_right _ _,.inr ?_⟩
    have hdiv := Nat.div_add_mod (n - (ba.capacity - ba.position)) ba.baseSize
    have hcount := (nodeCount_enough ba.basePos (ba.capacity - ba.position) (n - (ba.capacity - ba.position))).mp (by omega)
    unfold nodeCount
    rcases hcount with hzero | hrem
    · rw [if_neg (by omega), Nat.add_zero]
      have hpos := ba.basePos
      omega
    · rw [if_pos hrem, Nat.mul_add, Nat.mul_one]
      omega

theorem write_grows (h : Rep ba) {buf : List UInt8} (he : write buf ba = .ok () ba') : Grows ba ba' := by
  obtain ⟨hroom,h',hf⟩ := write_completed h he
  have hc : ba'.capacity = (ba.flat.grow buf.length).mem.length := by
    rw [← h'.mem_length, ← flat_mem, hf]
    exact patch_length hroom
  have hp : ba'.position = ba.position + buf.length := congrArg Flat.position hf
  obtain ⟨hle,htight⟩ := grow_tight h hroom
  refine ⟨(congrArg Flat.baseSize hf).trans (by simp [Flat.write]),by omega,hc ▸ hle,?_⟩
  rw [hc, hp]
  exact htight

/-- The position is behind the last node exactly if it reaches the end of the old chain on a node edge. -/
theorem Grows.fills_iff (h' : Rep ba') (hg : Grows ba ba') :
    ba'.position = ba'.capacity ↔ ba.capacity ≤ ba'.position ∧ ba'.position % ba.baseSize = 0 := by
  have hle := h'.position_le_capacity
  have hedge : ba.baseSize ∣ ba'.capacity := ⟨ba'.root.length,by rw [← hg.baseSize_eq]; exact h'.capacity_eq⟩
  constructor
  · intro heq
    rw [heq]
    exact ⟨hg.capacity_le,Nat.mod_eq_zero_of_dvd hedge⟩
  · rintro ⟨hend,hmod⟩
    rcases hg.tight with hc | hc
    · omega
    · have hdvd := Nat.dvd_sub hedge (Nat.dvd_of_mod_eq_zero hmod)
      have hzero := Nat.eq_zero_of_dvd_of_lt hdvd (by omega)
      omega

end Filling

section Reading
variable {ba ba' : ByteArray} {order : Endian} {tail : List UInt8}

/-- The chain is as long as before, and so are the strings that can be provided. -/
structure SameRoom (ba ba' : ByteArray) : Prop where
  capacity_eq : ba'.capacity = ba.capacity
  maxString_eq : ba'.heap.maxString = ba.heap.maxString

theorem of_still (h : ba'.still = ba.still) : SameRoom ba ba' := ⟨capacity_of_still h,congrArg Heap.maxString (heap_of_still h)⟩

theorem map_eq_ok {α β : Type} {f : α → β} {x : Run α} {b : β} (h : (f <$> x) ba = .ok b ba') : ∃ a, x ba = .ok a ba' ∧ f a = b := by
  change EStateM.map f x ba = _ at h
  rw [EStateM.map] at h
  split at h
  · cases h
    exact ⟨_,‹_›,rfl⟩
  · cases h

theorem Numeric.read_still (host : Endian) (n : Numeric) (h : Ahead ba order (n.emitted order ++ tail)) :
    ∃ ba', n.type.read host ba = .ok n ba' ∧ Ahead ba' order tail ∧ ba'.still = ba.still := by
  obtain ⟨take,ht⟩ := takes_number host n.type
  have hkeeps := ht.still ba.still ba rfl
  obtain ⟨ba',he,h'⟩ := n.read_run host h
  rw [he] at hkeeps
  exact ⟨ba',he,h',hkeeps⟩

namespace Item
variable {item : Item}

theorem emitted_empty (form : StringForm) (order : Endian) : ((string form []).emitted order).length = form.first := by
  rw [emitted, StringForm.emitted, List.append_nil, List.length_nil, form.lengthNumber_zero]

/-- An item that is ahead is read, if it fits and is not an empty string behind the last node. -/
theorem read_ahead (host : Endian) (item : Item) (h : Ahead ba order (item.emitted order ++ tail)) (hfits : item.Fits ba.heap.maxString)
    (hroom : ¬(item.isEmpty = true ∧ ba.position + (item.emitted order).length = ba.capacity)) :
    ∃ ba', item.type.read host ba = .ok item ba' ∧ Ahead ba' (item.next order) tail ∧
      ba'.position = ba.position + (item.emitted order).length ∧ SameRoom ba ba' := by
  have hnumber : ∀ n : Numeric, Ahead ba order (n.emitted order ++ tail) → ∃ ba', n.type.read host ba = .ok n ba' ∧
      Ahead ba' order tail ∧ ba'.position = ba.position + (n.emitted order).length ∧ SameRoom ba ba' := by
    intro n hn
    obtain ⟨ba',he,h',hstill⟩ := n.read_still host hn
    exact ⟨ba',he,h',hn.position_of_still h' hstill,of_still hstill⟩
  cases item with
  | number n =>
    obtain ⟨ba',he,h'⟩ := hnumber n h
    exact ⟨ba',map_run_ok _ he,h'⟩
  | float bits =>
    obtain ⟨ba',he,h'⟩ := hnumber (.fuint32 bits) h
    obtain ⟨_,hread,heq⟩ := map_eq_ok he
    cases heq
    exact ⟨ba',map_run_ok _ hread,h'⟩
  | double bits =>
    obtain ⟨ba',he,h'⟩ := hnumber (.fuint64 bits) h
    obtain ⟨_,hread,heq⟩ := map_eq_ok he
    cases heq
    exact ⟨ba',map_run_ok _ hread,h'⟩
  | string form s =>
    have hnull : ¬(s = [] ∧ ba.position + form.first = ba.capacity) := by
      rintro ⟨rfl,hend⟩
      exact hroom ⟨rfl,by rw [emitted_empty, hend]⟩
    obtain ⟨ba',he,h',hstill⟩ := form.read_emitted host h hfits.1 hfits.2 hnull
    exact ⟨ba',map_run_ok _ he,h',h.position_of_still h' hstill,of_still hstill⟩
  | plain s =>
    have hlt : ba.position < ba.capacity := by
      cases s with
      | nil => exact h.rep.position_le_capacity.lt_of_ne fun hend => hroom ⟨rfl,hend⟩
      | cons b bs => exact h.position_lt (List.cons_ne_nil _ _)
    obtain ⟨ba',he,h',hp⟩ := h.read_at hlt
    have hread : ByteArray.read s.length ba = .ok s ba' := he
    have hkeeps := ByteArray.still_read s.length ba.still ba rfl
    rw [hread] at hkeeps
    exact ⟨ba',map_run_ok Item.plain he,h',hp,of_still hkeeps⟩
  | order val =>
    obtain ⟨ba',he,h'⟩ := h.setIsLittleEndian val
    refine ⟨ba',bind_ok he,h',?_⟩
    cases he
    exact ⟨rfl,rfl,rfl⟩

/-- And only then. -/
theorem read_fits (host : Endian) (item : Item) (h : Ahead ba order (item.emitted order ++ tail))
    (he : item.type.read host ba = .ok item ba') :
    item.Fits ba.heap.maxString ∧ ¬(item.isEmpty = true ∧ ba.position + (item.emitted order).length = ba.capacity) := by
  cases item with
  | number n => exact ⟨trivial,fun hempty => Bool.noConfusion hempty.1⟩
  | float bits => exact ⟨trivial,fun hempty => Bool.noConfusion hempty.1⟩
  | double bits => exact ⟨trivial,fun hempty => Bool.noConfusion hempty.1⟩
  | order val => exact ⟨trivial,fun hempty => Bool.noConfusion hempty.1⟩
  | string form s =>
    obtain ⟨_,hread,heq⟩ := map_eq_ok he
    cases heq
    obtain ⟨hfit,hmax,hnull⟩ := form.read_emitted_fits host h hread
    refine ⟨⟨hfit,hmax⟩,?_⟩
    rintro ⟨hs,hend⟩
    obtain rfl : s = [] := List.isEmpty_iff.mp hs
    rw [emitted_empty] at hend
    exact hnull ⟨rfl,hend⟩
  | plain s =>
    obtain ⟨_,hread,-⟩ := map_eq_ok he
    refine ⟨trivial,?_⟩
    rintro ⟨hs,hend⟩
    obtain rfl : s = [] := List.isEmpty_iff.mp hs
    rw [List.length_nil, read_null h.rep hend] at hread
    cases hread

theorem emitted_eq_nil (h : item.emitted order = []) : item.isEmpty = true ∨ item.isOrder = true := by
  cases item with
  | number n => exact absurd h (n.emitted_ne_nil order)
  | float bits => exact absurd h (Numeric.emitted_ne_nil order (.fuint32 bits))
  | double bits => exact absurd h (Numeric.emitted_ne_nil order (.fuint64 bits))
  | string form s => exact absurd (List.append_eq_nil_iff.mp h).1 (Numeric.emitted_ne_nil order _)
  | plain s => exact .inl (List.isEmpty_iff.mpr h)
  | order val => exact .inr rfl

end Item

/-- A record without bytes has only order switches in it, or ends with an empty string. -/
theorem recordBytes_eq_nil {items : List Item} (h : recordBytes order items = []) :
    endsEmpty items = true ∨ items.all Item.isOrder = true := by
  induction items generalizing order with
  | nil => exact .inr rfl
  | cons item items ih =>
    obtain ⟨hitem,hrest⟩ := List.append_eq_nil_iff.mp h
    rw [endsEmpty, List.all_cons, Bool.or_eq_true, Bool.and_eq_true, Bool.and_eq_true]
    rcases ih hrest with hends | hall
    · exact .inl (.inl hends)
    · rcases item.emitted_eq_nil hitem with hempty | horder
      · exact .inl (.inr ⟨hempty,hall⟩)
      · exact .inr ⟨horder,hall⟩

theorem recordBytes_order {items : List Item} (h : items.all Item.isOrder = true) : recordBytes order items = [] := by
  induction items generalizing order with
  | nil => rfl
  | cons item items ih =>
    rw [List.all_cons, Bool.and_eq_true] at h
    obtain ⟨val,rfl⟩ : ∃ val, item = .order val := by
      cases item with
      | order val => exact ⟨val,rfl⟩
      | _ => cases h.1
    exact ih h.2

/-- A record that is ahead is read item by item, if all of its strings fit and it does not end with an empty one behind
the last node. -/
theorem readRecord_ahead (host : Endian) (items : List Item) (h : Ahead ba order (recordBytes order items ++ tail))
    (hfits : ∀ item ∈ items, item.Fits ba.heap.maxString)
    (hroom : ¬(endsEmpty items = true ∧ ba.position + (recordBytes order items).length = ba.capacity)) :
    ∃ ba', readRecord host (items.map Item.type) ba = .ok items ba' ∧ ba'.position = ba.position + (recordBytes order items).length := by
  induction items generalizing ba order with
  | nil => exact ⟨ba,rfl,rfl⟩
  | cons item items ih =>
    rw [recordBytes, List.append_assoc] at h
    rw [recordBytes, List.length_append] at hroom
    have hitem : ¬(item.isEmpty = true ∧ ba.position + (item.emitted order).length = ba.capacity) := by
      rintro ⟨hempty,hend⟩
      -- nothing is ahead of the end of the chain
      have hread := h.getReadSize
      have hle := h.rep.position_le
      have hc := h.rep.size_le
      rw [h.rep.getReadSize_eq, List.length_append, List.length_append] at hread
      have hnil : recordBytes (item.next order) items = [] := List.eq_nil_of_length_eq_zero (by omega)
      apply hroom
      rw [endsEmpty, Bool.or_eq_true, Bool.and_eq_true, hnil]
      refine ⟨?_,hend⟩
      rcases recordBytes_eq_nil hnil with hends | hall
      · exact .inl hends
      · exact .inr ⟨hempty,hall⟩
    obtain ⟨ba₁,he₁,h₁,hp₁,hkeeps⟩ := item.read_ahead host h (hfits item List.mem_cons_self) hitem
    obtain ⟨ba',he',hp'⟩ := ih h₁ (fun it hit => by rw [hkeeps.maxString_eq]; exact hfits it (List.mem_cons_of_mem _ hit)) (by
      rintro ⟨hends,hend⟩
      rw [hp₁, hkeeps.capacity_eq, Nat.add_assoc] at hend
      exact hroom ⟨by rw [endsEmpty, hends, Bool.true_or],hend⟩)
    refine ⟨ba',(bind_ok he₁).trans (bind_ok he'),?_⟩
    rw [recordBytes, List.length_append, hp', hp₁, Nat.add_assoc]

/-- And only then. -/
theorem readRecord_fits (host : Endian) (items : List Item) (h : Ahead ba order (recordBytes order items ++ tail))
    (he : readRecord host (items.map Item.type) ba = .ok items ba') : (∀ item ∈ items, item.Fits ba.heap.maxString) ∧
      ¬(endsEmpty items = true ∧ ba.position + (recordBytes order items).length = ba.capacity) := by
  induction items generalizing ba order with
  | nil => exact ⟨fun _ hmem => absurd hmem List.not_mem_nil,fun hempty => Bool.noConfusion hempty.1⟩
  | cons item items ih =>
    rw [recordBytes, List.append_assoc] at h
    obtain ⟨item',ba₁,he₁,hrest⟩ := bind_eq_ok he
    obtain ⟨items',ba₂,he₂,hpure⟩ := bind_eq_ok hrest
    cases hpure
    obtain ⟨hfit,hitem⟩ := item.read_fits host h he₁
    obtain ⟨ba₃,he₃,h₁,hp₁,hkeeps⟩ := item.read_ahead host h hfit hitem
    cases he₁.symm.trans he₃
    obtain ⟨hfits,hroom⟩ := ih h₁ he₂
    constructor
    · intro it hit
      rcases List.mem_cons.mp hit with rfl | hit
      · exact hfit
      · rw [← hkeeps.maxString_eq]
        exact hfits it hit
    · rintro ⟨hends,hend⟩
      rw [recordBytes, List.length_append, ← Nat.add_assoc, ← hp₁] at hend
      rw [endsEmpty, Bool.or_eq_true, Bool.and_eq_true] at hends
      rcases hends with hends | ⟨hempty,hall⟩
      · exact hroom ⟨hends,by rw [hkeeps.capacity_eq, hend]⟩
      · rw [recordBytes_order hall, List.length_nil, Nat.add_zero, hp₁] at hend
        exact hitem ⟨hempty,hend⟩

end Reading

section Trip
variable {ba ba' : ByteArray} {order : Endian} {start : Nat} {bytes : List UInt8}

theorem setIsLittleEndian_grows (val : Bool) (he : setIsLittleEndian val ba = .ok () ba') : Grows ba ba' := by
  cases he
  exact ⟨rfl,le_rfl,le_rfl,.inl rfl⟩

theorem Item.write_grows (host : Endian) (item : Item) (h : Rep ba) (he : item.write host ba = .ok () ba') : Grows ba ba' := by
  have hnumber : ∀ n : Numeric, n.write host ba = .ok () ba' → Grows ba ba' := by
    intro n hw
    rw [n.write_run] at hw
    exact ByteArray.write_grows h hw
  cases item with
  | number n => exact hnumber n he
  | float bits => exact hnumber (.fuint32 bits) he
  | double bits => exact hnumber (.fuint64 bits) he
  | plain s => exact ByteArray.write_grows h he
  | order val => exact setIsLittleEndian_grows val he
  | string form s =>
    have hw : form.write host s ba = .ok () ba' := he
    rw [form.write_eq] at hw
    obtain ⟨_,ba₁,he₁,he₂⟩ := bind_eq_ok hw
    rw [Numeric.write_run] at he₁
    exact (ByteArray.write_grows h he₁).trans (ByteArray.write_grows (write_completed h he₁).2.1 he₂)

theorem writeRecord_grows (host : Endian) (items : List Item) (h : Rep ba) (he : writeRecord host items ba = .ok () ba') :
    Grows ba ba' := by
  induction items generalizing ba with
  | nil =>
    cases he
    exact Grows.refl _
  | cons item items ih =>
    obtain ⟨_,ba₁,he₁,hrest⟩ := bind_eq_ok he
    exact (item.write_grows host h he₁).trans (ih (item.write_holds host h.holds he₁).1.rep hrest)

/-- The members that read a record from where it was written. -/
def readBack (host : Endian) (val : Bool) (items : List Item) : Run (List Item) := do
  setIsLittleEndian val
  readRecord host (items.map Item.type)

/-- The order settings of an array. -/
theorem endian_of_isLittleEndian (ba : ByteArray) : (if ba.isLittleEndian then Endian.little else .big) = ba.endian := by
  cases hb : ba.endian <;> simp [isLittleEndian, hb]

/-- In the array that holds a record it is read from its beginning. -/
theorem Holds.readBack_iff (host : Endian) {val : Bool} (items : List Item)
    (h : Holds ba order start (recordBytes (if val then .little else .big) items)) :
    ReadsBack (readBack host val items) items start ba.position ba ↔
      (∀ item ∈ items, item.Fits ba.heap.maxString) ∧ ¬(endsEmpty items = true ∧ ba.position = ba.capacity) := by
  obtain ⟨ba₁,tail,hset,hahead,hp,hstill⟩ := h.setPosition
  obtain ⟨ba₂,hswitch,h₂⟩ := hahead.setIsLittleEndian val
  have hsame : ba₂.position = ba₁.position ∧ ba₂.capacity = ba₁.capacity ∧ ba₂.heap = ba₁.heap := by
    cases hswitch
    exact ⟨rfl,rfl,rfl⟩
  have hend : ba₂.position + (recordBytes (if val then .little else .big) items).length = ba.position := by
    rw [hsame.1, hp, h.position_eq]
  have hcapacity : ba₂.capacity = ba.capacity := hsame.2.1.trans (capacity_of_still hstill)
  have hheap : ba₂.heap = ba.heap := hsame.2.2.trans (heap_of_still hstill)
  constructor
  · rintro ⟨ba₃,ba₄,hset₃,hread,-⟩
    cases hset.symm.trans hset₃
    rw [readBack, bind_ok hswitch] at hread
    have hfits := readRecord_fits host items h₂ hread
    rwa [hend, hcapacity, hheap] at hfits
  · rintro ⟨hfits,hroom⟩
    obtain ⟨ba₃,hread,hp₃⟩ := readRecord_ahead host items h₂ (by rwa [hheap]) (by rwa [hend, hcapacity])
    exact ⟨ba₁,ba₃,hset,(bind_ok hswitch).trans hread,hp₃.trans hend⟩

end Trip

/-- A record written in any reachable state by writes that complete is read back exactly if the strings in it fit their
prefixes and can be provided, and it does not end with an empty string at the end of the old chain on a node edge. -/
theorem records_round_trip_iff (host : Endian) (baseSize : Nat) (ba ba' : ByteArray) (h : Reachable host baseSize ba)
    (items : List Item) (hw : writeRecord host items ba = .ok () ba') :
    ReadsBack (readBack host ba.isLittleEndian items) items ba.position ba'.position ba' ↔
      (∀ item ∈ items, item.Fits ba.heap.maxString) ∧
      ¬(endsEmpty items = true ∧ ba.capacity ≤ ba.position + (recordBytes ba.endian items).length ∧
        (ba.position + (recordBytes ba.endian items).length) % baseSize = 0) := by
  obtain ⟨hrep,rfl⟩ := h.repOf
  obtain ⟨order',hholds,hmax⟩ := writeRecord_holds host items hrep.holds hw
  rw [List.nil_append, ← endian_of_isLittleEndian ba] at hholds
  rw [hholds.readBack_iff host items, hmax, (writeRecord_grows host items hrep hw).fills_iff hholds.rep, hholds.position_eq,
    endian_of_isLittleEndian]

/-- A record of all kinds over blocks of five bytes. -/
theorem mixed_record_round_trip :
    let items : List Item := [.number (.int32 (-300)),.string .f16 [7,8,9],.order true,.double 0x4009_21FB_5444_2D18,
      .plain [],.string .vint [],
      .number (.fuint16 0x1234)]
    ∃ ba', writeRecord .big items (new 5 (by decide) zeroHeap) = .ok () ba' ∧
      ReadsBack (readBack .big false items) items 0 ba'.position ba' := by
  intro items
  have hrun : (match writeRecord .big items (new 5 (by decide) zeroHeap) with | .ok _ _ => true | .error _ _ => false) = true := by
    decide +kernel
  cases hw : writeRecord .big items (new 5 (by decide) zeroHeap) with
  | error e s => rw [hw] at hrun; cases hrun
  | ok u ba' =>
    refine ⟨ba',rfl,(records_round_trip_iff .big 5 _ ba' ⟨by decide,zeroHeap,[],[],rfl⟩ items hw).mpr ⟨?_,?_⟩⟩
    · change ∀ item ∈ items, item.Fits zeroHeap.maxString
      decide
    · exact fun hempty => Bool.noConfusion hempty.1

end Radixun.Common.ByteArray
