import Radixun.Foundation.GroupText
import Radixun.Net.IPv6Subnets

/-! The text of an `IPv6Address`, and the address that the text stands for. -/
namespace Radixun.Net
open Radixun.Common Radixun.Foundation GroupText TextFrame

/-- `(uint16_t*)s6_addr`: the host reads a number from each two bytes. -/
def asWords (host : Endian) (addr : In6Addr) : Vector (BitVec 16) 8 :=
  Vector.ofFn fun i => host.value 16 [⟨addr[2 * i.val]⟩,⟨addr[2 * i.val + 1]⟩]

/-- The groups of an address: two bytes each, the first one the higher. -/
def In6Addr.groups (addr : In6Addr) : List Nat :=
  List.ofFn fun i : Fin 8 => 256 * addr[2 * i.val].toNat + addr[2 * i.val + 1].toNat

/-- What the loop has printed, and `used_zeros`. -/
structure Printing where
  os : List UInt8
  usedZeros : Bool
  deriving DecidableEq, Repr

/-- The body of the loop for one index. -/
def Printing.turn (host : Endian) (addr : Vector (BitVec 16) 8) (s : Printing) (i : Nat) (hi : i < 8) : Printing :=
  if addr[i] = 0 ∧ s.usedZeros = false then s
  else
    let s := if i ≠ 0 ∧ addr[i - 1] = 0 ∧ s.usedZeros = false then ⟨s.os ++ [58],true⟩ else s
    let s := if i ≠ 0 then { s with os := s.os ++ [58] } else s
    { s with os := s.os ++ hex (byteswapOnLittleEndian host addr[i]).toNat }

/-- The first `i` turns of the loop. -/
def Printing.loop (host : Endian) (addr : Vector (BitVec 16) 8) : (i : Nat) → i ≤ 8 → Printing
  | 0, _ => ⟨[91],false⟩
  | i + 1, hi => (Printing.loop host addr i (Nat.le_of_succ_le hi)).turn host addr i hi

namespace IPv6Address

def getPort (host : Endian) (a : IPv6Address) : Nat := (byteswapOnLittleEndian host a.port).toNat

def insert (host : Endian) (a : IPv6Address) : List UInt8 :=
  let addr := asWords host a.addr
  let s := Printing.loop host addr 8 (Nat.le_refl 8)
  let s := if s.usedZeros = false ∧ addr[7] = 0 then { s with os := s.os ++ [58,58] } else s
  s.os ++ [93,58] ++ decimal (a.getPort host)

end IPv6Address

/-- What is printed of groups: some without a zero, then zeros that nothing was printed for yet, or the
groups on both sides of the `::`. -/
inductive Printed (done : List Nat) (s : Printing) : Prop where
  | direct (before : List Nat) (zeros : Nat) : s.usedZeros = false → 0 ∉ before →
      done = before ++ List.replicate zeros 0 → s.os = 91 :: colons before → Printed done s
  | abbreviated (before : List Nat) (zeros : Nat) (after : List Nat) : s.usedZeros = true → 0 < zeros → after ≠ [] →
      done = before ++ List.replicate zeros 0 ++ after → s.os = 91 :: (colons before ++ [58,58] ++ colons after) →
      Printed done s

theorem byteswapOnLittleEndian_inj {w : Nat} (hw : 8 ∣ w) {host : Endian} {x y : BitVec w}
    (h : byteswapOnLittleEndian host x = byteswapOnLittleEndian host y) : x = y := by
  cases host with
  | little =>
    rw [← byteswap_byteswap hw x, ← byteswap_byteswap hw y]
    exact congrArg byteswap h
  | big => exact h

section
variable (host : Endian) (addr : In6Addr)

/-- The word at an index, in the byte order of the network. -/
def wordGroup (i : Nat) (hi : i < 8) : Nat := (byteswapOnLittleEndian host (asWords host addr)[i]).toNat

theorem wordGroup_eq {i : Nat} (hi : i < 8) :
    wordGroup host addr i hi = 256 * addr[2 * i].toNat + addr[2 * i + 1].toNat := by
  have hvalue : byteswapOnLittleEndian host (host.value 16 [⟨addr[2 * i]⟩,⟨addr[2 * i + 1]⟩]) =
      Endian.big.value 16 [⟨addr[2 * i]⟩,⟨addr[2 * i + 1]⟩] := by
    rw [← Endian.value_host (by decide) host .big rfl]
    cases host <;> rfl
  have h1 := addr[2 * i].isLt
  have h2 := addr[2 * i + 1].isLt
  rw [wordGroup, asWords, Vector.getElem_ofFn, hvalue]
  change (BitVec.ofNat 16 (addr[2 * i + 1].toNat + 256 * (addr[2 * i].toNat + 256 * 0))).toNat = _
  rw [BitVec.toNat_ofNat]
  omega

/-- Zero is zero in any byte order. -/
theorem word_eq_zero_iff {i : Nat} (hi : i < 8) : (asWords host addr)[i] = 0 ↔ wordGroup host addr i hi = 0 := by
  have hzero : byteswapOnLittleEndian host (0 : BitVec 16) = 0 := by cases host <;> rfl
  constructor
  · intro h
    rw [wordGroup, h, hzero]
    rfl
  · intro h
    have hswap : byteswapOnLittleEndian host (asWords host addr)[i] = byteswapOnLittleEndian host 0 := by
      rw [hzero]
      exact BitVec.eq_of_toNat_eq h
    exact byteswapOnLittleEndian_inj (by decide) hswap

theorem groups_length : addr.groups.length = 8 := List.length_ofFn

theorem groups_take {i : Nat} (hi : i < 8) : addr.groups.take (i + 1) = addr.groups.take i ++ [wordGroup host addr i hi] := by
  have hlen : i < addr.groups.length := by
    rw [groups_length]
    exact hi
  rw [List.take_succ_eq_append_getElem hlen, wordGroup_eq]
  congr 2
  exact List.getElem_ofFn _

/-- Whether the group before an index is zero. -/
theorem last_eq_zero_iff {i : Nat} (hi : i < 8) :
    (addr.groups.take (i + 1)).getLast? = some 0 ↔ (asWords host addr)[i] = 0 := by
  rw [groups_take host addr hi, List.getLast?_concat, Option.some_inj, word_eq_zero_iff]

end

/-- Groups without a zero do not end in one, and zeros behind them do. -/
theorem getLast_zeros {before : List Nat} (h0 : 0 ∉ before) (zeros : Nat) :
    (before ++ List.replicate zeros 0).getLast? = some 0 ↔ 0 < zeros := by
  cases zeros with
  | zero =>
    rw [List.replicate_zero, List.append_nil]
    exact iff_of_false (fun h => h0 (List.mem_of_getLast? h)) (Nat.lt_irrefl 0)
  | succ zeros =>
    rw [List.replicate_succ', ← List.append_assoc, List.getLast?_concat]
    exact iff_of_true rfl (Nat.succ_pos zeros)

section
variable {host : Endian} {addr : In6Addr}

theorem groups_take_length {i : Nat} (hi : i < 8) : (addr.groups.take i).length = i := by
  rw [List.length_take, groups_length]
  exact Nat.min_eq_left (Nat.le_of_lt hi)

/-- A group that is zero before any `::` is left for later. -/
theorem turn_skip {s : Printing} {i : Nat} (hi : i < 8) (h : (asWords host addr)[i] = 0 ∧ s.usedZeros = false) :
    s.turn host (asWords host addr) i hi = s := if_pos h

/-- The first group behind skipped ones closes the `::`. -/
theorem turn_resume {s : Printing} {i : Nat} (hi : i < 8) (h0 : (asWords host addr)[i] ≠ 0) (hpos : i ≠ 0)
    (hlast : (asWords host addr)[i - 1] = 0) (hs : s.usedZeros = false) :
    s.turn host (asWords host addr) i hi = ⟨s.os ++ [58] ++ [58] ++ hex (wordGroup host addr i hi),true⟩ := by
  rw [Printing.turn, if_neg fun h => h0 h.1]
  simp only [if_pos (And.intro hpos (And.intro hlast hs)), if_pos hpos]
  rfl

/-- A group printed on its own, with the colon that every group but the first has before it. -/
theorem turn_print {s : Printing} {i : Nat} (hi : i < 8)
    (h0 : ¬((asWords host addr)[i] = 0 ∧ s.usedZeros = false))
    (hlast : ¬(i ≠ 0 ∧ (asWords host addr)[i - 1] = 0 ∧ s.usedZeros = false)) :
    s.turn host (asWords host addr) i hi =
      { s with os := s.os ++ (if i ≠ 0 then [58] else []) ++ hex (wordGroup host addr i hi) } := by
  rw [Printing.turn, if_neg h0]
  simp only [if_neg hlast]
  by_cases hpos : i ≠ 0
  · simp only [if_pos hpos]
    rfl
  · simp only [if_neg hpos, List.append_nil]
    rfl

theorem colon_concat (gs : List Nat) (g : Nat) :
    colons gs ++ (if gs ≠ [] then [58] else []) ++ hex g = colons (gs ++ [g]) := by
  by_cases h : gs = []
  · subst h
    rw [if_neg (fun h => h rfl), List.append_nil, List.nil_append, colons_nil, List.nil_append, colons_singleton]
  · rw [if_pos h, colons_concat h, List.append_assoc, List.singleton_append]

/-- A turn while no `::` was printed: the group is one more zero left for later, the first behind such ones or printed on
its own. -/
theorem turn_direct {s : Printing} {i : Nat} (hi : i < 8) {before : List Nat} {zeros : Nat} (hused : s.usedZeros = false)
    (h0 : 0 ∉ before) (hdone : addr.groups.take i = before ++ List.replicate zeros 0) (hos : s.os = 91 :: colons before) :
    Printed (addr.groups.take (i + 1)) (s.turn host (asWords host addr) i hi) := by
  rw [groups_take host addr hi]
  have hlast : i ≠ 0 → ((asWords host addr)[i - 1] = 0 ↔ 0 < zeros) := by
    intro hpos
    obtain ⟨k,rfl⟩ := Nat.exists_eq_succ_of_ne_zero hpos
    rw [← getLast_zeros h0 zeros, ← hdone, last_eq_zero_iff host addr (by omega)]
    rfl
  have hempty : before ++ List.replicate zeros 0 ≠ [] ↔ i ≠ 0 := by
    rw [← hdone, ← List.length_pos_iff, groups_take_length hi]
    exact Nat.pos_iff_ne_zero
  by_cases hzero : (asWords host addr)[i] = 0
  · rw [turn_skip hi ⟨hzero,hused⟩, (word_eq_zero_iff host addr hi).mp hzero]
    refine .direct before (zeros + 1) hused h0 ?_ hos
    rw [hdone, List.append_assoc, List.replicate_succ']
  · have hgroup : wordGroup host addr i hi ≠ 0 := fun h => hzero ((word_eq_zero_iff host addr hi).mpr h)
    by_cases hz : 0 < zeros
    · have hpos : i ≠ 0 := by
        apply hempty.mp
        intro hnil
        have := congrArg List.length hnil
        rw [List.length_append, List.length_replicate, List.length_nil] at this
        omega
      rw [turn_resume hi hzero hpos ((hlast hpos).mpr hz) hused]
      refine .abbreviated before zeros [wordGroup host addr i hi] rfl hz (List.cons_ne_nil _ _) ?_ ?_
      · rw [hdone]
      · rw [hos, colons_singleton]
        simp only [List.cons_append, List.append_assoc, List.nil_append]
    · obtain rfl : zeros = 0 := by omega
      rw [List.replicate_zero, List.append_nil] at hdone hempty
      rw [turn_print hi (fun h => hzero h.1) fun h => hz ((hlast h.1).mp h.2.1)]
      refine .direct (before ++ [wordGroup host addr i hi]) 0 hused ?_ ?_ ?_
      · intro hmem
        rcases List.mem_append.mp hmem with hmem | hmem
        · exact h0 hmem
        · exact hgroup (List.mem_singleton.mp hmem).symm
      · rw [hdone, List.replicate_zero, List.append_nil]
      · rw [← colon_concat, hos]
        simp only [← hempty, List.cons_append]

theorem turn_printed {s : Printing} {i : Nat} (hi : i < 8) (h : Printed (addr.groups.take i) s) :
    Printed (addr.groups.take (i + 1)) (s.turn host (asWords host addr) i hi) := by
  cases h with
  | direct before zeros hused h0 hdone hos => exact turn_direct hi hused h0 hdone hos
  | abbreviated before zeros after hused hz hafter hdone hos =>
    have hpos : i ≠ 0 := by
      rintro rfl
      have := congrArg List.length hdone
      rw [groups_take_length hi, List.length_append, List.length_append, List.length_replicate] at this
      omega
    have hnot (p : Prop) : ¬(p ∧ s.usedZeros = false) := by
      intro h
      rw [hused] at h
      cases h.2
    rw [groups_take host addr hi, turn_print hi (hnot _) fun h => hnot _ h.2, if_pos hpos]
    refine .abbreviated before zeros (after ++ [wordGroup host addr i hi]) hused hz (by simp) ?_ ?_
    · rw [hdone, List.append_assoc]
    · rw [colons_concat hafter, hos]
      simp only [List.cons_append, List.append_assoc, List.nil_append]

theorem loop_printed (i : Nat) (hi : i ≤ 8) :
    Printed (addr.groups.take i) (Printing.loop host (asWords host addr) i hi) := by
  induction i with
  | zero => exact .direct [] 0 rfl List.not_mem_nil rfl rfl
  | succ i ih => exact turn_printed hi (ih (Nat.le_of_succ_le hi))

end

theorem mem_groups_lt {addr : In6Addr} {g : Nat} (h : g ∈ addr.groups) : g < 16^4 := by
  rw [In6Addr.groups, List.mem_ofFn] at h
  obtain ⟨i,rfl⟩ := h
  have h1 := addr[2 * i.val].isLt
  have h2 := addr[2 * i.val + 1].isLt
  omega

/-- The text is a form of the groups: those not printed when the loop ends are zero. -/
theorem insert_form (host : Endian) (a : IPv6Address) :
    ∃ form : Form, form.Valid 8 4 ∧ form.groups 8 = a.addr.groups ∧
      a.insert host = 91 :: form.text ++ [93,58] ++ decimal (a.getPort host) := by
  have hlen := groups_length a.addr
  have hall : a.addr.groups.take 8 = a.addr.groups := List.take_of_length_le (Nat.le_of_eq hlen)
  have hlast := last_eq_zero_iff host a.addr (show 7 < 8 by decide)
  have hloop := @loop_printed host a.addr 8 (Nat.le_refl 8)
  rw [hall] at hloop hlast
  rw [IPv6Address.insert]
  cases hloop with
  | direct before zeros hused h0 hdone hos =>
    rw [hdone, getLast_zeros h0] at hlast
    by_cases hz : 0 < zeros
    · obtain ⟨hvalid,hgroups⟩ := @abbreviated_zeros 8 4 zeros _ before [] hz (by rw [hdone, List.append_nil]) hlen
        fun g => mem_groups_lt
      refine ⟨_,hvalid,hgroups,?_⟩
      simp only [if_pos (And.intro hused (hlast.mp hz))]
      rw [hos, Form.text, colons_nil, List.append_nil, List.cons_append]
    · obtain rfl : zeros = 0 := by omega
      rw [List.replicate_zero, List.append_nil] at hdone
      refine ⟨.full before,⟨hdone ▸ hlen,?_⟩,hdone.symm,?_⟩
      · intro g hg
        exact mem_groups_lt (hdone ▸ hg)
      · simp only [if_neg fun h : _ ∧ _ => hz (hlast.mpr h.2)]
        rw [hos, Form.text]
  | abbreviated before zeros after hused hz hafter hdone hos =>
    obtain ⟨hvalid,hgroups⟩ := @abbreviated_zeros 8 4 zeros _ before after hz hdone hlen fun g => mem_groups_lt
    refine ⟨_,hvalid,hgroups,?_⟩
    have hnot : ¬((Printing.loop host (asWords host a.addr) 8 (Nat.le_refl 8)).usedZeros = false ∧
        (asWords host a.addr)[7] = 0) := by
      rw [hused]
      exact fun h => Bool.noConfusion h.1
    simp only [if_neg hnot]
    rw [hos, Form.text]

/-- The bytes of an address from its groups. -/
theorem groups_inj {x y : In6Addr} (h : x.groups = y.groups) : x = y := by
  have hgroup (i : Nat) (hi : i < 8) :
      256 * x[2 * i].toNat + x[2 * i + 1].toNat = 256 * y[2 * i].toNat + y[2 * i + 1].toNat :=
    congrFun (List.ofFn_injective h) ⟨i,hi⟩
  have hbytes (i : Nat) (hi : i < 8) : x[2 * i] = y[2 * i] ∧ x[2 * i + 1] = y[2 * i + 1] := by
    have hx := x[2 * i + 1].isLt
    have hy := y[2 * i + 1].isLt
    have := hgroup i hi
    exact ⟨BitVec.eq_of_toNat_eq (by omega),BitVec.eq_of_toNat_eq (by omega)⟩
  apply Vector.ext
  intro j hj
  obtain ⟨i,hi | hi⟩ := Nat.even_or_odd' j
  · subst hi
    exact (hbytes i (by omega)).1
  · subst hi
    exact (hbytes i (by omega)).2

/-- The bracket ends the address. -/
theorem bracket_unique {form form' : Form} {s t : List UInt8}
    (h : 91 :: form.text ++ [93,58] ++ s = 91 :: form'.text ++ [93,58] ++ t) : form.text = form'.text ∧ s = t := by
  have hfree (form : Form) : 93 ∉ form.text := by
    intro hmem
    rcases mem_text hmem with h | h
    · cases h
    · cases h
  have hcons : form.text ++ 93 :: 58 :: s = form'.text ++ 93 :: 58 :: t := by simpa using h
  obtain ⟨hform,hrest⟩ := delimiter_unique (hfree form) (hfree form') hcons
  exact ⟨hform,(List.cons.inj hrest).2⟩

/-- The text reads back as the address, and no two addresses or ports share it. -/
theorem insert_text (host : Endian) (a : IPv6Address) :
    ∃ form : Form, form.Valid 8 4 ∧ form.groups 8 = a.addr.groups ∧
      a.insert host = 91 :: form.text ++ [93,58] ++ decimal (a.getPort host) ∧
      expand 8 4 form.text = some a.addr.groups ∧
      ∀ b : IPv6Address, b.insert host = a.insert host → b.addr = a.addr ∧ b.port = a.port := by
  obtain ⟨form,hvalid,hgroups,htext⟩ := insert_form host a
  refine ⟨form,hvalid,hgroups,htext,?_,?_⟩
  · rw [expand_text (by decide) hvalid, hgroups]
  · intro b hb
    obtain ⟨form',hvalid',hgroups',htext'⟩ := insert_form host b
    rw [htext, htext'] at hb
    obtain ⟨hform,hport⟩ := bracket_unique hb
    constructor
    · apply groups_inj
      have hread := expand_text (by decide) hvalid'
      rw [hform, expand_text (by decide) hvalid, hgroups, hgroups'] at hread
      exact (Option.some.inj hread).symm
    · have hnat : b.getPort host = a.getPort host := by
        rw [← digits_decimal (b.getPort host), hport, digits_decimal]
      exact byteswapOnLittleEndian_inj (by decide) (BitVec.eq_of_toNat_eq hnat)

end Radixun.Net
