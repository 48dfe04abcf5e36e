import Radixun.Foundation.CString

/-! Text messages: numbers in decimal, lines that end with CR LF up to an empty one, and the header
fields in such lines. -/
namespace Radixun.Foundation.TextFrame
open CString

/-- A number as a stream prints it. -/
def decimal (n : Nat) : List UInt8 := (Nat.toDigits 10 n).map fun c => UInt8.ofNat c.toNat

def isDigit (b : UInt8) : Bool := 48 ≤ b.toNat && b.toNat ≤ 57

theorem digitChar_toNat {d : Nat} (h : d < 10) : (Nat.digitChar d).toNat = 48 + d := by
  revert d
  decide

/-- The last digit comes off the end. -/
theorem decimal_eq (n : Nat) :
    decimal n = (if n < 10 then [] else decimal (n / 10)) ++ [UInt8.ofNat (48 + n % 10)] := by
  by_cases h : n < 10
  · rw [if_pos h, decimal, Nat.toDigits_of_lt_base h, List.map_singleton, digitChar_toNat h, Nat.mod_eq_of_lt h]
    rfl
  · have hsplit : Nat.toDigits 10 n = Nat.toDigits 10 (n / 10) ++ [Nat.digitChar (n % 10)] := by
      rw [Nat.toDigits_eq_if (by omega), if_neg h]
    rw [if_neg h, decimal, hsplit, List.map_append, List.map_singleton, digitChar_toNat (Nat.mod_lt n (by omega))]
    rfl

theorem decimal_ne_nil (n : Nat) : decimal n ≠ [] := by
  rw [decimal_eq]
  simp

private theorem digit_toNat {d : Nat} (h : d < 10) : (UInt8.ofNat (48 + d)).toNat = 48 + d := by
  rw [UInt8.toNat_ofNat']
  omega

theorem isDigit_of_mem_decimal {n : Nat} {b : UInt8} (h : b ∈ decimal n) : isDigit b = true := by
  induction n using Nat.strongRecOn with
  | ind n ih =>
    rw [decimal_eq] at h
    rcases List.mem_append.mp h with h | h
    · split at h
      · cases h
      · exact ih (n / 10) (by omega) h
    · have hd := digit_toNat (Nat.mod_lt n (show 0 < 10 by omega))
      rw [List.mem_singleton.mp h, isDigit, hd]
      have := Nat.mod_lt n (show 0 < 10 by omega)
      simp only [Bool.and_eq_true, decide_eq_true_eq]
      omega

theorem digitValue_of_isDigit {b : UInt8} (h : isDigit b = true) : digitValue 10 b = some (b.toNat - 48) := by
  rw [isDigit, Bool.and_eq_true, decide_eq_true_eq, decide_eq_true_eq] at h
  rw [digitValue, if_pos h]
  exact if_pos (by omega)

theorem digits_append_digits {ds : List UInt8} (h : ∀ b ∈ ds, isDigit b = true) (rest : List UInt8) (n : Nat) :
    digits 10 (ds ++ rest) n = digits 10 rest (digits 10 ds n) := by
  induction ds generalizing n with
  | nil => rfl
  | cons d ds ih =>
    obtain ⟨hd,hds⟩ := List.forall_mem_cons.mp h
    simp only [List.cons_append, digits, digitValue_of_isDigit hd]
    exact ih hds _

theorem digitValue_not_isDigit {b : UInt8} (h : isDigit b = false) : digitValue 10 b = none := by
  rw [isDigit, Bool.and_eq_false_iff, decide_eq_false_iff_not, decide_eq_false_iff_not] at h
  rw [digitValue, if_neg (show ¬(48 ≤ b.toNat ∧ b.toNat ≤ 57) by omega)]
  apply if_neg
  split
  · omega
  · split <;> omega

/-- Digits up to the first other byte are read as the number they stand for, as far as a `long` goes. -/
theorem strtol_number {ds rest : List UInt8} (hds : ∀ b ∈ ds, isDigit b = true) (hne : ds ≠ [])
    (hrest : ∀ b ∈ rest.head?, isDigit b = false) : strtol 10 (ds ++ rest) = min (2^63 - 1) (digits 10 ds 0 : Int) := by
  obtain ⟨d,ds',rfl⟩ := List.exists_cons_of_ne_nil hne
  have hd : 48 ≤ d.toNat ∧ d.toNat ≤ 57 := by simpa [isDigit] using hds d List.mem_cons_self
  have hspace : isspace d = false := by
    simp only [isspace, Bool.or_eq_false_iff, beq_eq_false_iff_ne, Bool.and_eq_false_iff, decide_eq_false_iff_not]
    omega
  have hsign : ∀ n : UInt8, n.toNat = 45 ∨ n.toNat = 43 → d ≠ n := by
    rintro n hn rfl
    omega
  have hnumber : digits 10 (d :: ds' ++ rest) 0 = digits 10 (d :: ds') 0 := by
    rw [digits_append_digits hds]
    cases rest with
    | nil => rfl
    | cons b rest => rw [digits, digitValue_not_isDigit (hrest b rfl)]
  have hdrop : (d :: ds' ++ rest).dropWhile isspace = d :: ds' ++ rest := by
    rw [List.cons_append, List.dropWhile_cons, if_neg (by simp [hspace])]
  have hhead : (d :: ds' ++ rest).head? = some d := rfl
  have hplain : ∀ n : UInt8, n.toNat = 45 ∨ n.toNat = 43 → (some d == some n) = false := by
    intro n hn
    simpa using hsign n hn
  unfold strtol
  simp only [hdrop, hhead, hplain 45 (.inl rfl), hplain 43 (.inr rfl), Bool.or_false, Bool.false_eq_true, if_false]
  split
  · rw [if_neg fun h => by omega, hnumber]
    omega
  · rw [hnumber]
    omega

/-- Printed digits stand for the number. -/
theorem digits_decimal (n : Nat) : digits 10 (decimal n) 0 = n := by
  induction n using Nat.strongRecOn with
  | ind n ih =>
    have hlt := Nat.mod_lt n (show 0 < 10 by omega)
    have hlast (k : Nat) : digits 10 [UInt8.ofNat (48 + n % 10)] k = k * 10 + n % 10 := by
      have hd : isDigit (UInt8.ofNat (48 + n % 10)) = true := by
        apply isDigit_of_mem_decimal (n := n)
        rw [decimal_eq]
        exact List.mem_append_right _ (List.mem_singleton_self _)
      simp only [digits, digitValue_of_isDigit hd, digit_toNat hlt]
      omega
    rw [decimal_eq]
    by_cases hn : n < 10
    · rw [if_pos hn, List.nil_append, hlast]
      omega
    · rw [if_neg hn, digits_append_digits (fun b => isDigit_of_mem_decimal), ih (n / 10) (by omega), hlast]
      omega

def crlf : List UInt8 := [13,10]

/-- A text within a line. -/
def LineText (l : List UInt8) : Prop := ∀ b ∈ l, b ≠ 13 ∧ b ≠ 10

instance (l : List UInt8) : Decidable (LineText l) := List.decidableBAll _ l

def printLines (ls : List (List UInt8)) : List UInt8 := (ls.map (· ++ crlf)).flatten

theorem lineText_append {l l' : List UInt8} : LineText (l ++ l') ↔ LineText l ∧ LineText l' := List.forall_mem_append

theorem lineText_decimal (n : Nat) : LineText (decimal n) := by
  intro b hb
  have h := isDigit_of_mem_decimal hb
  constructor
  · rintro rfl
    cases h
  · rintro rfl
    cases h

/-- The first place of a delimiter is the same on both sides. -/
theorem delimiter_unique {α : Type*} {c : α} {x x' s t : List α} (h : c ∉ x) (h' : c ∉ x')
    (heq : x ++ c :: s = x' ++ c :: t) : x = x' ∧ s = t := by
  induction x generalizing x' with
  | nil =>
    cases x' with
    | nil => exact ⟨rfl,(List.cons.inj heq).2⟩
    | cons b x' => exact absurd (List.cons.inj heq).1 fun hb => h' (hb ▸ List.mem_cons_self)
  | cons a x ih =>
    cases x' with
    | nil => exact absurd (List.cons.inj heq).1 fun ha => h (ha ▸ List.mem_cons_self)
    | cons b x' =>
      obtain ⟨rfl,htail⟩ := List.cons.inj heq
      obtain ⟨rfl,hst⟩ := ih (fun hm => h (List.mem_cons_of_mem a hm)) (fun hm => h' (List.mem_cons_of_mem a hm)) htail
      exact ⟨rfl,hst⟩

theorem line_unique {l l' rest rest' : List UInt8} (h : LineText l) (h' : LineText l')
    (heq : l ++ crlf ++ rest = l' ++ crlf ++ rest') : l = l' ∧ rest = rest' := by
  have hcr {l : List UInt8} (h : LineText l) : 13 ∉ l := fun hm => (h 13 hm).1 rfl
  have hcons : l ++ 13 :: 10 :: rest = l' ++ 13 :: 10 :: rest' := by simpa [crlf] using heq
  obtain ⟨hl,hrest⟩ := delimiter_unique (hcr h) (hcr h') hcons
  exact ⟨hl,(List.cons.inj hrest).2⟩

/-- Lines of which none is empty end at the first empty line. -/
theorem frame_unique {ls ls' : List (List UInt8)} {body body' : List UInt8} (h : ∀ l ∈ ls, LineText l ∧ l ≠ [])
    (h' : ∀ l ∈ ls', LineText l ∧ l ≠ []) (heq : printLines ls ++ crlf ++ body = printLines ls' ++ crlf ++ body') :
    ls = ls' ∧ body = body' := by
  have hempty : LineText [] := fun b hb => by cases hb
  have hcons (l : List UInt8) (ls : List (List UInt8)) (b : List UInt8) :
      printLines (l :: ls) ++ crlf ++ b = l ++ crlf ++ (printLines ls ++ crlf ++ b) := by
    simp [printLines]
  induction ls generalizing ls' with
  | nil =>
    cases ls' with
    | nil => exact ⟨rfl,List.append_cancel_left heq⟩
    | cons l' ls' =>
      rw [hcons] at heq
      have hl' := h' l' List.mem_cons_self
      exact absurd (line_unique hempty hl'.1 heq).1.symm hl'.2
  | cons l ls ih =>
    obtain ⟨hl,hls⟩ := List.forall_mem_cons.mp h
    cases ls' with
    | nil =>
      rw [hcons] at heq
      exact absurd (line_unique hl.1 hempty heq).1 hl.2
    | cons l' ls' =>
      obtain ⟨hl',hls'⟩ := List.forall_mem_cons.mp h'
      rw [hcons, hcons] at heq
      obtain ⟨rfl,hrest⟩ := line_unique hl.1 hl'.1 heq
      obtain ⟨rfl,hbody⟩ := ih hls hls' hrest
      exact ⟨rfl,hbody⟩

/-- The name of a header field: what stands before the first colon. -/
def fieldName (l : List UInt8) : List UInt8 := l.takeWhile (· ≠ 58)
def fieldValue (l : List UInt8) : List UInt8 := (l.dropWhile (· ≠ 58)).drop 1

/-- The field has this name, given in small letters. -/
def named (name l : List UInt8) : Bool := (fieldName l).map tolower = name

def isBlank (b : UInt8) : Bool := b = 32 || b = 9

def trim (l : List UInt8) : List UInt8 := ((l.dropWhile isBlank).reverse.dropWhile isBlank).reverse

/-- The number a text consists of, blanks around it aside. -/
def number (l : List UInt8) : Option Nat :=
  if trim l ≠ [] ∧ (trim l).all isDigit then some (digits 10 (trim l) 0) else none

theorem fieldName_append (k rest : List UInt8) : fieldName (k ++ 58 :: rest) = fieldName k := by
  induction k with
  | nil => rfl
  | cons b k ih =>
    by_cases hb : b = 58
    · rw [List.cons_append, fieldName, fieldName, List.takeWhile_cons_of_neg (by simp [hb]),
        List.takeWhile_cons_of_neg (by simp [hb])]
    · rw [List.cons_append, fieldName, fieldName, List.takeWhile_cons_of_pos (by simp [hb]),
        List.takeWhile_cons_of_pos (by simp [hb])]
      exact congrArg (b :: ·) ih

theorem named_append (name k rest : List UInt8) : named name (k ++ 58 :: rest) = named name k := by
  rw [named, named, fieldName_append]

theorem fieldName_self {k : List UInt8} (h : 58 ∉ k) : fieldName k = k := by
  rw [fieldName, List.takeWhile_eq_self_iff]
  intro b hb
  simp only [ne_eq, decide_eq_true_eq]
  rintro rfl
  exact h hb

theorem fieldValue_append {k : List UInt8} (h : 58 ∉ k) (rest : List UInt8) : fieldValue (k ++ 58 :: rest) = rest := by
  have hk : ∀ b ∈ k, decide (b ≠ 58) = true := by
    intro b hb
    simp only [ne_eq, decide_eq_true_eq]
    rintro rfl
    exact h hb
  rw [fieldValue, List.dropWhile_append_of_pos hk]
  rfl

private theorem mem_dropWhile {b : UInt8} {l : List UInt8} (h : b ∈ l) (hb : isBlank b = false) : b ∈ l.dropWhile isBlank := by
  rw [← List.takeWhile_append_dropWhile (p := isBlank) (l := l)] at h
  rcases List.mem_append.mp h with h | h
  · rw [List.mem_takeWhile_imp h] at hb
    cases hb
  · exact h

theorem mem_trim {b : UInt8} {l : List UInt8} (h : b ∈ l) (hb : isBlank b = false) : b ∈ trim l :=
  List.mem_reverse.mpr (mem_dropWhile (List.mem_reverse.mpr (mem_dropWhile h hb)) hb)

theorem number_blank {b : UInt8} (h : isBlank b = true) (l : List UInt8) : number (b :: l) = number l := by
  have : trim (b :: l) = trim l := by rw [trim, trim, List.dropWhile_cons_of_pos h]
  rw [number, number, this]

theorem number_none {b : UInt8} {l : List UInt8} (h : b ∈ l) (hb : isBlank b = false) (hd : isDigit b = false) :
    number l = none := by
  rw [number, if_neg]
  intro hall
  rw [List.all_eq_true.mp hall.2 b (mem_trim h hb)] at hd
  cases hd

/-- A field whose name goes on behind a colon has no number for a value. -/
theorem number_colon {k : List UInt8} (h : 58 ∈ k) (rest : List UInt8) : number (fieldValue (k ++ 58 :: rest)) = none := by
  have hmem : (58 : UInt8) ∈ fieldValue (k ++ 58 :: rest) := by
    obtain ⟨pre,post,rfl,hpre⟩ := List.eq_append_cons_of_mem h
    rw [List.append_assoc, List.cons_append, fieldValue_append hpre]
    exact List.mem_append_right _ List.mem_cons_self
  exact number_none hmem rfl rfl

theorem trim_digits {l : List UInt8} (h : ∀ b ∈ l, isDigit b = true) : trim l = l := by
  have hdrop {l : List UInt8} (h : ∀ b ∈ l, isDigit b = true) : l.dropWhile isBlank = l := by
    cases l with
    | nil => rfl
    | cons b l =>
      rw [List.dropWhile_cons_of_neg]
      intro hb
      have hd := h b List.mem_cons_self
      rw [isBlank, Bool.or_eq_true, decide_eq_true_eq, decide_eq_true_eq] at hb
      rcases hb with rfl | rfl <;> cases hd
  rw [trim, hdrop h, hdrop, List.reverse_reverse]
  intro b hb
  exact h b (List.mem_reverse.mp hb)

theorem trim_decimal (n : Nat) : trim (decimal n) = decimal n := trim_digits fun _ => isDigit_of_mem_decimal

theorem number_decimal (n : Nat) : number (decimal n) = some n := by
  rw [number, trim_decimal, if_pos ⟨decimal_ne_nil n,List.all_eq_true.mpr fun b => isDigit_of_mem_decimal⟩,
    digits_decimal]

end Radixun.Foundation.TextFrame
