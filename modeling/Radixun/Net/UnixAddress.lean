import Radixun.Foundation.CString
import Radixun.Net.AddressOrder

/-! `UnixAddress`: the object that is made for a path, and the text it is printed as. -/
namespace Radixun.Net
open Radixun.Foundation CString

/-- `offsetof(sockaddr_un, sun_path)` and `sizeof(sun_path)`. -/
def sunPathOffset : Nat := 2
def sunPathSize : Nat := 108

inductive UnixFailure where
  | logicError
  | outside
  deriving DecidableEq, Repr

/-- `memcpy` to a place of a buffer; `none` is an access outside of one of the two. -/
def memcpy (dst : List UInt8) (place : Nat) (src : List UInt8) (n : Nat) : Option (List UInt8) :=
  if n ≤ src.length ∧ place + n ≤ dst.length then some (dst.take place ++ src.take n ++ dst.drop (place + n)) else none

/-- The constructor for a path. `m_length` is a `socklen_t` of 32 bits, `c_str()` has a zero byte at its end. -/
def unixAddress (path : List UInt8) : Except UnixFailure Address :=
  let length : UInt32 := UInt32.ofNat (path.length + 1)
  let length := if path ≠ [] ∧ path.head? = some 0 then length - 1 else length
  if sunPathSize < length.toNat then .error .logicError
  else
    match memcpy (blank afUnix 110) sunPathOffset (path ++ [0]) length.toNat with
    | none => .error .outside
    | some buffer => .ok ⟨.unixAddress,buffer,length.toNat + sunPathOffset⟩

/-- `insert`, where `none` is an access outside of `sun_path`. -/
def unixInsert (a : Address) : Option (List UInt8) :=
  let sunPath := a.buffer.drop sunPathOffset
  if sunPathOffset < a.length ∧ sunPath.head? = some 0 then
    if 1 + (a.length - sunPathOffset - 1) ≤ sunPath.length then
      some ([92,48] ++ (sunPath.drop 1).take (a.length - sunPathOffset - 1))
    else none
  else if 0 ∈ sunPath then some (cstr sunPath)
  else none

def Abstract (path : List UInt8) : Prop := path.head? = some 0

instance (path : List UInt8) : Decidable (Abstract path) := inferInstanceAs (Decidable (_ = _))

/-- The bytes of a path with its terminating zero, which an abstract one does not have. -/
def nameLength (path : List UInt8) : Nat := if Abstract path then path.length else path.length + 1

/-- The text for a path: an abstract one has its first byte written out. -/
def shown (path : List UInt8) : List UInt8 := if Abstract path then [92,48] ++ path.tail else path

/-- What an address for a path has to be. -/
structure UnixRight (path : List UInt8) : Prop where
  throws : unixAddress path = .error .logicError ↔ sunPathSize < nameLength path
  inside : unixAddress path ≠ .error .outside
  length : ∀ a, unixAddress path = .ok a → a.length = sunPathOffset + nameLength path
  copied : ∀ a, unixAddress path = .ok a → (a.buffer.drop sunPathOffset).take (nameLength path) = (path ++ [0]).take (nameLength path)
  text : ∀ a, unixAddress path = .ok a → path ≠ [] → 0 ∉ path.tail → unixInsert a = some (shown path)

/-- The names whose length is not cut to one that fits. -/
def KeepsLength (path : List UInt8) : Prop := nameLength path < 2^32 ∨ sunPathSize < nameLength path % 2^32

instance (path : List UInt8) : Decidable (KeepsLength path) := inferInstanceAs (Decidable (_ ∨ _))

section
variable (path : List UInt8)

theorem abstract_ne_nil {path : List UInt8} (h : Abstract path) : path ≠ [] := by
  rintro rfl
  cases h

/-- `m_length` before the check. -/
theorem length_mod :
    (if path ≠ [] ∧ path.head? = some 0 then UInt32.ofNat (path.length + 1) - 1
      else UInt32.ofNat (path.length + 1)).toNat = nameLength path % 2^32 := by
  have h1 : (1 : UInt32).toNat = 1 := rfl
  rw [nameLength]
  by_cases h : Abstract path
  · rw [if_pos ⟨abstract_ne_nil h,h⟩, if_pos h, UInt32.toNat_sub, UInt32.toNat_ofNat', h1]
    omega
  · rw [if_neg fun hh => h hh.2, if_neg h, UInt32.toNat_ofNat']

theorem nameLength_le : nameLength path ≤ path.length + 1 := by
  rw [nameLength]
  split
  · exact Nat.le_succ _
  · exact Nat.le_refl _

/-- The buffer for a name that fits. -/
def unixBuffer (n : Nat) : List UInt8 := [1,0] ++ (path ++ [0]).take n ++ List.replicate (108 - n) 0

theorem memcpy_blank {n : Nat} (hle : n ≤ path.length + 1) (hn : n ≤ 108) :
    memcpy (blank afUnix 110) sunPathOffset (path ++ [0]) n = some (unixBuffer path n) := by
  have hblank : blank afUnix 110 = [1,0] ++ List.replicate 108 0 := rfl
  have hfits : n ≤ (path ++ [0]).length ∧ sunPathOffset + n ≤ (blank afUnix 110).length := by
    rw [List.length_append, List.length_singleton, blank_length afUnix (by decide), sunPathOffset]
    omega
  rw [memcpy, if_pos hfits, hblank]
  apply congrArg some
  change [1,0] ++ (path ++ [0]).take n ++ (1 :: 0 :: List.replicate 108 0).drop (2 + n) = unixBuffer path n
  rw [Nat.add_comm 2 n, List.drop_succ_cons, List.drop_succ_cons, List.drop_replicate, unixBuffer]

/-- The length is cut to 32 bits before it is checked, and nothing else can go wrong. -/
theorem unixAddress_eq :
    unixAddress path =
      if sunPathSize < nameLength path % 2^32 then .error .logicError
      else .ok ⟨.unixAddress,unixBuffer path (nameLength path % 2^32),nameLength path % 2^32 + sunPathOffset⟩ := by
  have hle := nameLength_le path
  have hmod := Nat.mod_le (nameLength path) (2^32)
  rw [unixAddress, length_mod]
  by_cases h : sunPathSize < nameLength path % 2^32
  · rw [if_pos h, if_pos h]
  · rw [if_neg h, if_neg h, memcpy_blank path (Nat.le_trans hmod hle) (Nat.not_lt.mp h)]

/-- `sun_path` behind a copy. -/
theorem drop_unixBuffer (n : Nat) :
    (unixBuffer path n).drop sunPathOffset = (path ++ [0]).take n ++ List.replicate (108 - n) 0 := rfl

theorem take_copied {n : Nat} (h : n ≤ path.length + 1) :
    ((unixBuffer path n).drop sunPathOffset).take n = (path ++ [0]).take n := by
  rw [drop_unixBuffer]
  apply List.take_left'
  rw [List.length_take, List.length_append, List.length_singleton]
  omega

/-- The text of an abstract name. -/
theorem insert_abstract (h : Abstract path) (hn : path.length ≤ 108) :
    unixInsert ⟨.unixAddress,unixBuffer path path.length,path.length + sunPathOffset⟩ = some ([92,48] ++ path.tail) := by
  obtain ⟨rest,rfl⟩ := List.head?_eq_some_iff.mp h
  have hsun : (unixBuffer (0 :: rest) (0 :: rest).length).drop sunPathOffset =
      (0 :: rest) ++ List.replicate (108 - (0 :: rest).length) 0 := by
    rw [drop_unixBuffer, List.take_left]
  have hin : 1 + ((0 :: rest).length + sunPathOffset - sunPathOffset - 1) ≤
      ((0 :: rest) ++ List.replicate (108 - (0 :: rest).length) 0).length := by
    rw [List.length_append, List.length_cons]
    omega
  rw [unixInsert]
  simp only [hsun]
  rw [if_pos ⟨by rw [List.length_cons]; omega,rfl⟩, if_pos hin, Nat.add_sub_cancel, List.length_cons, Nat.add_sub_cancel,
    List.drop_one, List.tail_cons]
  apply congrArg fun t => some ([92,48] ++ t)
  rw [List.cons_append, List.tail_cons, List.take_left]

/-- The text of an ordinary name, which has its zero byte within `sun_path`. -/
theorem insert_ordinary (h : ¬Abstract path) (hne : path ≠ []) (h0 : 0 ∉ path.tail) :
    unixInsert ⟨.unixAddress,unixBuffer path (path.length + 1),path.length + 1 + sunPathOffset⟩ = some path := by
  obtain ⟨b,rest,rfl⟩ := List.exists_cons_of_ne_nil hne
  have hb : b ≠ 0 := by
    rintro rfl
    exact h rfl
  have hzero : 0 ∉ b :: rest := by
    intro hmem
    rcases List.mem_cons.mp hmem with heq | hmem
    · exact hb heq.symm
    · exact h0 hmem
  have hsun : (unixBuffer (b :: rest) ((b :: rest).length + 1)).drop sunPathOffset =
      (b :: rest) ++ 0 :: List.replicate (108 - ((b :: rest).length + 1)) 0 := by
    rw [drop_unixBuffer, List.take_of_length_le (by rw [List.length_append, List.length_singleton]), List.append_assoc,
      List.singleton_append]
  have hhead : ¬((b :: rest) ++ 0 :: List.replicate (108 - ((b :: rest).length + 1)) 0).head? = some 0 :=
    fun hs => hb (Option.some.inj hs)
  rw [unixInsert]
  simp only [hsun]
  rw [if_neg fun hc => hhead hc.2, if_pos (List.mem_append_right _ List.mem_cons_self), cstr_append hzero]
  exact congrArg some (List.append_nil _)

/-- A path whose cut length does not fit is refused, as its length does not fit either. -/
theorem unixRight_refused (hthrows : sunPathSize < nameLength path % 2^32) : UnixRight path := by
  have hlong : sunPathSize < nameLength path := Nat.lt_of_lt_of_le hthrows (Nat.mod_le _ _)
  have heq : unixAddress path = .error .logicError := by rw [unixAddress_eq, if_pos hthrows]
  have hnone : ∀ a, ¬unixAddress path = .ok a := by
    intro a ha
    rw [heq] at ha
    cases ha
  refine ⟨iff_of_true heq hlong,?_,fun a ha => absurd ha (hnone a),fun a ha => absurd ha (hnone a),
    fun a ha => absurd ha (hnone a)⟩
  rw [heq]
  exact fun hout => by cases hout

/-- A path that fits is copied with all of its bytes. -/
theorem unixRight_made (hfits : nameLength path ≤ sunPathSize) : UnixRight path := by
  have hmod : nameLength path % 2^32 = nameLength path := by
    apply Nat.mod_eq_of_lt
    rw [sunPathSize] at hfits
    omega
  have heq : unixAddress path = .ok ⟨.unixAddress,unixBuffer path (nameLength path),nameLength path + sunPathOffset⟩ := by
    rw [unixAddress_eq, hmod, if_neg (Nat.not_lt.mpr hfits)]
  have hmade : ∀ {a}, unixAddress path = .ok a →
      a = ⟨.unixAddress,unixBuffer path (nameLength path),nameLength path + sunPathOffset⟩ := by
    intro a ha
    rw [heq] at ha
    exact (Except.ok.inj ha).symm
  constructor
  · apply iff_of_false _ (Nat.not_lt.mpr hfits)
    rw [heq]
    exact fun hs => by cases hs
  · rw [heq]
    exact fun hs => by cases hs
  · intro a ha
    rw [hmade ha, Nat.add_comm]
  · intro a ha
    rw [hmade ha]
    exact take_copied path (nameLength_le path)
  · intro a ha hne h0
    rw [hmade ha, nameLength, shown]
    rw [nameLength] at hfits
    by_cases habs : Abstract path
    · simp only [if_pos habs] at hfits ⊢
      exact insert_abstract path habs hfits
    · simp only [if_neg habs]
      exact insert_ordinary path habs hne h0

/-- A path gets the address it has to get exactly where its length is not cut to one that fits. -/
theorem unixAddress_iff : UnixRight path ↔ KeepsLength path := by
  constructor
  · intro h
    by_contra hcut
    obtain ⟨hlong,hfits⟩ := not_or.mp hcut
    have hthrows := h.throws.mpr (by rw [sunPathSize]; omega)
    rw [unixAddress_eq, if_neg hfits] at hthrows
    cases hthrows
  · intro h
    by_cases hthrows : sunPathSize < nameLength path % 2^32
    · exact unixRight_refused path hthrows
    · have hmod : nameLength path % 2^32 = nameLength path := Nat.mod_eq_of_lt (h.resolve_right hthrows)
      rw [hmod] at hthrows
      exact unixRight_made path (Nat.not_lt.mp hthrows)

/-- The object has all bytes it promises. -/
theorem unixAddress_readable {a : Address} (h : unixAddress path = .ok a) : a.length ≤ a.buffer.length := by
  have hle := nameLength_le path
  have hmod := Nat.mod_le (nameLength path) (2^32)
  rw [unixAddress_eq] at h
  split at h
  · cases h
  · rename_i hfits
    cases h
    rw [sunPathSize] at hfits
    simp only [unixBuffer, sunPathOffset, List.length_append, List.length_take, List.length_replicate, List.length_cons,
      List.length_nil]
    omega

end

/-- A path of 2^32 - 1 bytes is taken for an empty name. -/
theorem unixAddress_cut :
    unixAddress (List.replicate (2^32 - 1) 97) = .ok ⟨.unixAddress,unixBuffer [] 0,2⟩ ∧
    ¬∀ path, UnixRight path := by
  have hlength : nameLength (List.replicate (2^32 - 1) 97) = 2^32 := by
    have hordinary : ¬Abstract (List.replicate (2^32 - 1) 97) := by
      intro h
      rw [Abstract, List.head?_replicate, if_neg (by decide)] at h
      exact absurd (Option.some.inj h) (by decide)
    rw [nameLength, if_neg hordinary, List.length_replicate, Nat.sub_add_cancel (by decide)]
  have haccepted : unixAddress (List.replicate (2^32 - 1) 97) = .ok ⟨.unixAddress,unixBuffer [] 0,2⟩ := by
    rw [unixAddress_eq, hlength, Nat.mod_self, if_neg (by decide), unixBuffer, unixBuffer, List.take_zero, List.take_zero,
      Nat.zero_add, sunPathOffset]
  refine ⟨haccepted,?_⟩
  intro h
  have hthrows := (h (List.replicate (2^32 - 1) 97)).throws.mpr (by rw [hlength]; decide)
  rw [haccepted] at hthrows
  cases hthrows

end Radixun.Net
