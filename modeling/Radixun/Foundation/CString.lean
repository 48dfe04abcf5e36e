import Radixun.Foundation.OrderedMap
import Mathlib.Algebra.Ring.Int.Defs
import Mathlib.Algebra.Ring.Nat
import Mathlib.Data.List.Lex
import Mathlib.Data.List.TakeWhile

/-! Functions of the C library on strings: a string ends at the first zero byte or, where a buffer is
given by its bytes, at the end of the buffer. -/
namespace Radixun.Foundation.CString

def cstr (s : List UInt8) : List UInt8 := s.takeWhile (· ≠ 0)

def tolower (b : UInt8) : UInt8 := if 65 ≤ b.toNat ∧ b.toNat ≤ 90 then b + 32 else b

/-- The difference at the first place where two strings differ, the end counting as a zero byte. -/
def compareBytes (f : UInt8 → UInt8) : List UInt8 → List UInt8 → Int
  | [], [] => 0
  | [], b :: _ => -((f b).toNat : Int)
  | a :: _, [] => (f a).toNat
  | a :: as, b :: bs => if f a = f b then compareBytes f as bs else ((f a).toNat : Int) - (f b).toNat

def strcasecmp (a b : List UInt8) : Int := compareBytes tolower (cstr a) (cstr b)
def strcmp (a b : List UInt8) : Int := compareBytes id (cstr a) (cstr b)
def strncmp (a b : List UInt8) (n : Nat) : Int := compareBytes id ((cstr a).take n) ((cstr b).take n)

/-- The first `n` bytes of two buffers that have as many. -/
def memcmp (a b : List UInt8) (n : Nat) : Int := compareBytes id (a.take n) (b.take n)

/-- The first place of a byte among the `n` bytes from `start` on. -/
def memchr (s : List UInt8) (start : Nat) (c : UInt8) (n : Nat) : Option Nat :=
  (((s.drop start).take n).idxOf? c).map (start + ·)

def isspace (b : UInt8) : Bool := b.toNat == 32 || (9 ≤ b.toNat && b.toNat ≤ 13)

/-- The value of a digit in a base of up to 36. -/
def digitValue (base : Nat) (b : UInt8) : Option Nat :=
  let v := if 48 ≤ b.toNat ∧ b.toNat ≤ 57 then b.toNat - 48
    else if 65 ≤ b.toNat ∧ b.toNat ≤ 90 then b.toNat - 55
    else if 97 ≤ b.toNat ∧ b.toNat ≤ 122 then b.toNat - 87 else 36
  if v < base then some v else none

/-- The number the leading digits stand for. -/
def digits (base : Nat) : List UInt8 → Nat → Nat
  | [], n => n
  | b :: bs, n => match digitValue base b with
    | none => n
    | some v => digits base bs (n * base + v)

/-- `strtol` with a 64 bit `long`: blanks, a sign, for base 16 a prefix, digits, clamped. -/
def strtol (base : Nat) (s : List UInt8) : Int :=
  let s := s.dropWhile isspace
  let neg := s.head? == some 45
  let s := if s.head? == some 45 || s.head? == some 43 then s.drop 1 else s
  let s := match s with
    | 48 :: x :: d :: r =>
      if base = 16 ∧ tolower x = 120 ∧ (digitValue 16 d).isSome = true then d :: r else s
    | _ => s
  let n : Int := digits base s 0
  max (-(2^63)) (min (2^63 - 1) (if neg then -n else n))

/-- Conversion to a 32 bit `int`. -/
def toInt (x : Int) : Int := x.bmod (2^32)
def atoi (s : List UInt8) : Int := toInt (strtol 10 s)

theorem cstr_ne_zero {s : List UInt8} {b : UInt8} (h : b ∈ cstr s) : b ≠ 0 := by
  simpa using List.mem_takeWhile_imp h

theorem tolower_ne_zero {b : UInt8} (h : b ≠ 0) : tolower b ≠ 0 := by
  rw [tolower]
  split
  · intro h0
    have := congrArg UInt8.toNat h0
    simp only [UInt8.toNat_add, UInt8.toNat_ofNat] at this
    omega
  · exact h

private theorem toNat_pos {b : UInt8} (h : b ≠ 0) : 0 < b.toNat := by
  rcases Nat.eq_zero_or_pos b.toNat with h0 | h0
  · exact absurd (UInt8.toNat_inj.mp (by simpa using h0)) h
  · exact h0

private theorem toNat_ne {a b : UInt8} (h : a ≠ b) : a.toNat ≠ b.toNat := fun hn => h (UInt8.toNat_inj.mp hn)

/-- Bytes that stay different from zero compare like the lists of their numbers. -/
theorem compareBytes_neg {f : UInt8 → UInt8} {as bs : List UInt8} (ha : ∀ a ∈ as, f a ≠ 0)
    (hb : ∀ b ∈ bs, f b ≠ 0) :
    compareBytes f as bs < 0 ↔ as.map (fun b => (f b).toNat) < bs.map fun b => (f b).toNat := by
  induction as generalizing bs with
  | nil =>
    cases bs with
    | nil => simp [compareBytes]
    | cons b bs =>
      have := toNat_pos (hb b (List.mem_cons_self ..))
      simp [compareBytes, this]
  | cons a as ih =>
    cases bs with
    | nil => simp [compareBytes]
    | cons b bs =>
      rw [compareBytes, List.map_cons, List.map_cons, List.cons_lt_cons_iff]
      by_cases hab : f a = f b
      · rw [if_pos hab, ih (fun x hx => ha x (List.mem_cons_of_mem _ hx)) fun x hx => hb x (List.mem_cons_of_mem _ hx)]
        simp [hab]
      · rw [if_neg hab]
        have := toNat_ne hab
        omega

theorem compareBytes_eq_zero {f : UInt8 → UInt8} {as bs : List UInt8} (ha : ∀ a ∈ as, f a ≠ 0)
    (hb : ∀ b ∈ bs, f b ≠ 0) : compareBytes f as bs = 0 ↔ as.map f = bs.map f := by
  induction as generalizing bs with
  | nil =>
    cases bs with
    | nil => simp [compareBytes]
    | cons b bs =>
      have := toNat_pos (hb b (List.mem_cons_self ..))
      simp only [compareBytes, List.map_nil, List.map_cons]
      constructor
      · intro h; omega
      · intro h; simp at h
  | cons a as ih =>
    cases bs with
    | nil =>
      have := toNat_pos (ha a (List.mem_cons_self ..))
      simp only [compareBytes, List.map_nil, List.map_cons]
      constructor
      · intro h; omega
      · intro h; simp at h
    | cons b bs =>
      rw [compareBytes, List.map_cons, List.map_cons]
      by_cases hab : f a = f b
      · rw [if_pos hab, ih (fun x hx => ha x (List.mem_cons_of_mem _ hx)) fun x hx => hb x (List.mem_cons_of_mem _ hx)]
        simp [hab]
      · rw [if_neg hab]
        have := toNat_ne hab
        simp only [List.cons.injEq, hab, false_and, iff_false]
        omega

/-- The key a string has in case-insensitive order. -/
def foldKey (s : List UInt8) : List Nat := (cstr s).map fun b => (tolower b).toNat

theorem strcasecmp_neg (a b : List UInt8) : strcasecmp a b < 0 ↔ foldKey a < foldKey b :=
  compareBytes_neg (fun _ h => tolower_ne_zero (cstr_ne_zero h)) fun _ h => tolower_ne_zero (cstr_ne_zero h)

theorem strncmp_eq_zero (a b : List UInt8) (n : Nat) :
    strncmp a b n = 0 ↔ (cstr a).take n = (cstr b).take n := by
  have hne : ∀ {s : List UInt8}, ∀ x ∈ (cstr s).take n, id x ≠ 0 := fun x hx => cstr_ne_zero (List.mem_of_mem_take hx)
  rw [strncmp, compareBytes_eq_zero hne hne, List.map_id, List.map_id]

theorem strcmp_eq_zero (a b : List UInt8) : strcmp a b = 0 ↔ cstr a = cstr b := by
  have hne : ∀ {s : List UInt8}, ∀ x ∈ cstr s, id x ≠ 0 := fun x hx => cstr_ne_zero hx
  rw [strcmp, compareBytes_eq_zero hne hne, List.map_id, List.map_id]

/-- The common part first and the lengths behind it is the order of a dictionary. -/
theorem memcmp_lt_iff (a b : List UInt8) :
    memcmp a b (min a.length b.length) < 0 ∨ memcmp a b (min a.length b.length) = 0 ∧ a.length < b.length ↔
      a.map UInt8.toNat < b.map UInt8.toNat := by
  induction a generalizing b with
  | nil =>
    cases b with
    | nil => simp [memcmp, compareBytes]
    | cons y b => simp [memcmp, compareBytes]
  | cons x a ih =>
    cases b with
    | nil => simp [memcmp, compareBytes]
    | cons y b =>
      have hmin : min (x :: a).length (y :: b).length = min a.length b.length + 1 := by
        rw [List.length_cons, List.length_cons]
        omega
      rw [hmin, memcmp, List.take_succ_cons, List.take_succ_cons, compareBytes, List.map_cons, List.map_cons,
        List.cons_lt_cons_iff, ← ih b, List.length_cons, List.length_cons]
      by_cases hxy : x = y
      · subst hxy
        rw [if_pos rfl, memcmp]
        simp
      · rw [if_neg (show ¬id x = id y from hxy)]
        have := toNat_ne hxy
        simp only [id_eq]
        omega

theorem memcmp_eq_zero_iff {a b : List UInt8} (h : a.length = b.length) : memcmp a b a.length = 0 ↔ a = b := by
  induction a generalizing b with
  | nil =>
    have hb : b = [] := List.length_eq_zero_iff.mp h.symm
    subst hb
    simp [memcmp, compareBytes]
  | cons x a ih =>
    cases b with
    | nil => simp at h
    | cons y b =>
      rw [List.length_cons, memcmp, List.take_succ_cons, List.take_succ_cons, compareBytes, List.cons_eq_cons,
        ← ih (Nat.succ.inj h)]
      by_cases hxy : x = y
      · subst hxy
        rw [if_pos rfl, memcmp]
        simp
      · rw [if_neg (show ¬id x = id y from hxy)]
        have := toNat_ne hxy
        simp only [id_eq, hxy, false_and, iff_false]
        omega

theorem memcmp_take (a b : List UInt8) {n m k : Nat} (hm : n ≤ m) (hk : n ≤ k) :
    memcmp (a.take m) (b.take k) n = memcmp a b n := by
  rw [memcmp, memcmp, List.take_take, List.take_take, Nat.min_eq_left hm, Nat.min_eq_left hk]

theorem cstr_of_nonzero {s : List UInt8} (h : 0 ∉ s) : cstr s = s := by
  apply List.takeWhile_eq_self_iff.mpr
  intro b hb
  exact decide_eq_true fun h0 => h (h0 ▸ hb)

theorem cstr_append {s : List UInt8} (h : 0 ∉ s) (t : List UInt8) : cstr (s ++ t) = s ++ cstr t := by
  apply List.takeWhile_append_of_pos
  intro b hb
  exact decide_eq_true fun h0 => h (h0 ▸ hb)

/-- `strncmp` over the length of a string without zero bytes looks whether the other one begins with it. -/
theorem strncmp_prefix {s : List UInt8} (h : 0 ∉ s) (t : List UInt8) : strncmp s t s.length = 0 ↔ s <+: t := by
  rw [strncmp_eq_zero, cstr_of_nonzero h, List.take_length, ← List.prefix_iff_eq_take]
  constructor
  · intro hp
    exact hp.trans (List.takeWhile_prefix _)
  · rintro ⟨u,rfl⟩
    rw [cstr_append h]
    exact List.prefix_append s _

/-- A statement about bytes from one about the numbers below 256. -/
theorem forall_byte {P : UInt8 → Prop} (h : ∀ n, n < 256 → P (UInt8.ofNat n)) (b : UInt8) : P b := by
  simpa using h b.toNat b.toNat_lt

theorem digits_append {base : Nat} {ds : List UInt8} (hds : ∀ d ∈ ds, (digitValue base d).isSome = true) {b : UInt8}
    (hb : digitValue base b = none) (rest : List UInt8) (n : Nat) : digits base (ds ++ b :: rest) n = digits base ds n := by
  induction ds generalizing n with
  | nil => simp [digits, hb]
  | cons d ds ih =>
    obtain ⟨hd,hds⟩ := List.forall_mem_cons.mp hds
    obtain ⟨v,hv⟩ := Option.isSome_iff_exists.mp hd
    simp only [List.cons_append, digits, hv]
    exact ih hds _

private theorem hex_digit (d : UInt8) (h : (digitValue 16 d).isSome = true) :
    isspace d = false ∧ d ≠ 45 ∧ d ≠ 43 ∧ tolower d ≠ 120 :=
  forall_byte (P := fun d => (digitValue 16 d).isSome = true → isspace d = false ∧ d ≠ 45 ∧ d ≠ 43 ∧ tolower d ≠ 120)
    (by decide +kernel) d h

/-- Hexadecimal digits in front of a byte that is none are read as the number they stand for. -/
theorem strtol_hex {ds : List UInt8} (hds : ∀ d ∈ ds, (digitValue 16 d).isSome = true) (hne : ds ≠ []) {b : UInt8}
    (hb : digitValue 16 b = none) (hx : tolower b ≠ 120) (rest : List UInt8) (hsmall : digits 16 ds 0 < 2^63) :
    strtol 16 (ds ++ b :: rest) = digits 16 ds 0 := by
  obtain ⟨d,ds',rfl⟩ := List.exists_cons_of_ne_nil hne
  obtain ⟨hspace,hminus,hplus,_⟩ := hex_digit d (hds d (List.mem_cons_self ..))
  have hprefix : ∀ y z r, d :: ds' ++ b :: rest = 48 :: y :: z :: r → tolower y ≠ 120 := by
    intro y z r heq
    cases ds' with
    | nil =>
      obtain ⟨_,rfl,_⟩ : d = 48 ∧ b = y ∧ rest = z :: r := by simpa using heq
      exact hx
    | cons e es =>
      obtain ⟨_,rfl,_⟩ : d = 48 ∧ e = y ∧ es ++ b :: rest = z :: r := by simpa using heq
      exact (hex_digit e (hds e (by simp))).2.2.2
  have hdrop : (d :: ds' ++ b :: rest).dropWhile isspace = d :: ds' ++ b :: rest := by
    rw [List.cons_append, List.dropWhile_cons, if_neg (by simp [hspace])]
  have hsign : (d :: ds' ++ b :: rest).head? ≠ some 45 ∧ (d :: ds' ++ b :: rest).head? ≠ some 43 := by
    simp [hminus, hplus]
  have hdigits := digits_append hds hb rest 0
  unfold strtol
  simp only [hdrop, beq_eq_false_iff_ne.mpr hsign.1, beq_eq_false_iff_ne.mpr hsign.2, Bool.or_false, Bool.false_eq_true,
    if_false]
  split
  · rename_i y z r heq
    rw [if_neg fun h => hprefix _ _ _ heq h.2.1, hdigits]
    omega
  · rw [hdigits]
    omega

end Radixun.Foundation.CString
