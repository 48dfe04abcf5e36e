import Radixun.Foundation.TextFrame

/-! Groups of hexadecimal digits with colons between them, where one `::` may stand for groups that are
zero. -/
namespace Radixun.Foundation.GroupText
open CString

/-- A number as a stream prints it under `std::hex`. -/
def hex (n : Nat) : List UInt8 := (Nat.toDigits 16 n).map fun c => UInt8.ofNat c.toNat

def isHexDigit (b : UInt8) : Bool := (digitValue 16 b).isSome

/-- At most `w` digits, without leading zeros. -/
def Numeral (w : Nat) (s : List UInt8) : Prop :=
  s ≠ [] ∧ s.length ≤ w ∧ (∀ b ∈ s, isHexDigit b = true) ∧ (s.head? = some 48 → s.length = 1)

instance (w : Nat) (s : List UInt8) : Decidable (Numeral w s) := inferInstanceAs (Decidable (_ ∧ _ ∧ _ ∧ _))

def colons (gs : List Nat) : List UInt8 := [58].intercalate (gs.map hex)

/-- All groups, or those before and behind the `::`. -/
inductive Form where
  | full (groups : List Nat)
  | abbreviated (before after : List Nat)
  deriving DecidableEq, Repr

namespace Form

def text : Form → List UInt8
  | full gs => colons gs
  | abbreviated before after => colons before ++ [58,58] ++ colons after

/-- The groups the form stands for, out of `n`. -/
def groups (n : Nat) : Form → List Nat
  | full gs => gs
  | abbreviated before after => before ++ List.replicate (n - (before.length + after.length)) 0 ++ after

/-- `n` groups of at most `w` digits. The `::` stands for at least one of them. -/
def Valid (n w : Nat) : Form → Prop
  | full gs => gs.length = n ∧ ∀ g ∈ gs, g < 16^w
  | abbreviated before after => before.length + after.length < n ∧ ∀ g ∈ before ++ after, g < 16^w

end Form

/-- What stands before and behind the first `::`. -/
def splitPair : List UInt8 → Option (List UInt8 × List UInt8)
  | [] => none
  | [_] => none
  | x :: y :: rest =>
    if x = 58 ∧ y = 58 then some ([],rest) else (splitPair (y :: rest)).map fun p => (x :: p.1,p.2)

def readGroup (w : Nat) (s : List UInt8) : Option Nat := if Numeral w s then some (digits 16 s 0) else none

def readGroups (w : Nat) (s : List UInt8) : Option (List Nat) :=
  if s = [] then some [] else (s.splitOn 58).mapM (readGroup w)

/-- The `n` groups of at most `w` digits that a text stands for. -/
def expand (n w : Nat) (s : List UInt8) : Option (List Nat) :=
  match splitPair s with
  | none => do
    let gs ← readGroups w s
    if gs.length = n then some gs else none
  | some p => do
    let before ← readGroups w p.1
    let after ← readGroups w p.2
    if before.length + after.length < n then
      some (before ++ List.replicate (n - (before.length + after.length)) 0 ++ after)
    else none

/-! One number. -/

def hexDigit (d : Nat) : UInt8 := UInt8.ofNat (Nat.digitChar d).toNat

theorem digitValue_hexDigit {d : Nat} (h : d < 16) : digitValue 16 (hexDigit d) = some d := by
  revert d
  decide

theorem hexDigit_eq_zero {d : Nat} (h : d < 16) (h0 : hexDigit d = 48) : d = 0 := by
  revert d
  decide

/-- The last digit comes off the end. -/
theorem hex_eq (n : Nat) : hex n = (if n < 16 then [] else hex (n / 16)) ++ [hexDigit (n % 16)] := by
  by_cases h : n < 16
  · rw [if_pos h, hex, Nat.toDigits_of_lt_base h, List.map_singleton, Nat.mod_eq_of_lt h]
    rfl
  · have hsplit : Nat.toDigits 16 n = Nat.toDigits 16 (n / 16) ++ [Nat.digitChar (n % 16)] := by
      rw [Nat.toDigits_eq_if (by omega), if_neg h]
    rw [if_neg h, hex, hsplit, List.map_append, List.map_singleton]
    rfl

theorem hex_ne_nil (n : Nat) : hex n ≠ [] := by
  rw [hex_eq]
  simp

theorem isHexDigit_of_mem_hex {n : Nat} {b : UInt8} (h : b ∈ hex n) : isHexDigit b = true := by
  induction n using Nat.strongRecOn with
  | ind n ih =>
    rw [hex_eq] at h
    rcases List.mem_append.mp h with h | h
    · split at h
      · cases h
      · exact ih (n / 16) (by omega) h
    · have hlt := Nat.mod_lt n (show 0 < 16 by omega)
      rw [List.mem_singleton.mp h, isHexDigit, digitValue_hexDigit hlt]
      rfl

theorem digits_append_hex {s : List UInt8} (h : ∀ b ∈ s, isHexDigit b = true) (t : List UInt8) (n : Nat) :
    digits 16 (s ++ t) n = digits 16 t (digits 16 s n) := by
  induction s generalizing n with
  | nil => rfl
  | cons b s ih =>
    obtain ⟨hb,hs⟩ := List.forall_mem_cons.mp h
    obtain ⟨v,hv⟩ := Option.isSome_iff_exists.mp hb
    simp only [List.cons_append, digits, hv]
    exact ih hs _

theorem digits_hex (n : Nat) : digits 16 (hex n) 0 = n := by
  induction n using Nat.strongRecOn with
  | ind n ih =>
    have hlt := Nat.mod_lt n (show 0 < 16 by omega)
    have hlast (k : Nat) : digits 16 [hexDigit (n % 16)] k = k * 16 + n % 16 := by
      simp only [digits, digitValue_hexDigit hlt]
    rw [hex_eq]
    by_cases hn : n < 16
    · rw [if_pos hn, List.nil_append, hlast]
      omega
    · rw [if_neg hn, digits_append_hex fun b => isHexDigit_of_mem_hex, ih (n / 16) (by omega), hlast]
      omega

/-- Only zero begins with the digit zero. -/
theorem hex_head {n : Nat} (h : (hex n).head? = some 48) : n = 0 := by
  induction n using Nat.strongRecOn with
  | ind n ih =>
    rw [hex_eq] at h
    by_cases hn : n < 16
    · rw [if_pos hn, List.nil_append, List.head?_cons, Option.some_inj] at h
      have := hexDigit_eq_zero (Nat.mod_lt n (by omega)) h
      omega
    · rw [if_neg hn, List.head?_append_of_ne_nil _ (hex_ne_nil _)] at h
      have := ih (n / 16) (by omega) h
      omega

theorem numeral_hex {n w : Nat} (hw : 0 < w) (h : n < 16^w) : Numeral w (hex n) := by
  refine ⟨hex_ne_nil n,?_,fun b => isHexDigit_of_mem_hex,?_⟩
  · rw [hex, List.length_map]
    exact (Nat.length_toDigits_le_iff (by omega) hw).mpr h
  · intro h0
    rw [hex_head h0]
    rfl

theorem readGroup_hex {n w : Nat} (hw : 0 < w) (h : n < 16^w) : readGroup w (hex n) = some n := by
  rw [readGroup, if_pos (numeral_hex hw h), digits_hex]

/-! Groups between colons. -/

theorem ne_of_mem_hex {b c : UInt8} {n : Nat} (hc : isHexDigit c = false) (h : b ∈ hex n) : b ≠ c := by
  rintro rfl
  rw [isHexDigit_of_mem_hex h] at hc
  cases hc

theorem colon_notMem_hex (n : Nat) : 58 ∉ hex n := fun h => ne_of_mem_hex rfl h rfl

@[simp] theorem colons_nil : colons [] = [] := rfl

@[simp] theorem colons_singleton (g : Nat) : colons [g] = hex g := by
  rw [colons, List.map_singleton, List.intercalate_singleton]

theorem colons_cons (g : Nat) {gs : List Nat} (h : gs ≠ []) : colons (g :: gs) = hex g ++ 58 :: colons gs := by
  obtain ⟨g',gs,rfl⟩ := List.exists_cons_of_ne_nil h
  rw [colons, List.map_cons, List.map_cons, List.intercalate_cons_cons, List.append_assoc]
  rfl

theorem colons_concat {gs : List Nat} (h : gs ≠ []) (g : Nat) : colons (gs ++ [g]) = colons gs ++ 58 :: hex g := by
  induction gs with
  | nil => exact absurd rfl h
  | cons g' gs ih =>
    by_cases hgs : gs = []
    · subst hgs
      rw [List.singleton_append, colons_cons g' (List.cons_ne_nil g []), colons_singleton, colons_singleton]
    · rw [List.cons_append, colons_cons g' (List.append_ne_nil_of_left_ne_nil hgs [g]), ih hgs, colons_cons g' hgs,
        List.append_assoc, List.cons_append]

/-- Groups begin with a digit. -/
theorem colons_head {gs : List Nat} (h : gs ≠ []) : ∃ b rest, colons gs = b :: rest ∧ b ≠ 58 := by
  obtain ⟨g,gs,rfl⟩ := List.exists_cons_of_ne_nil h
  obtain ⟨b,s,hs⟩ := List.exists_cons_of_ne_nil (hex_ne_nil g)
  have hb : b ≠ 58 := ne_of_mem_hex rfl (hs ▸ List.mem_cons_self)
  by_cases hgs : gs = []
  · subst hgs
    exact ⟨b,s,(colons_singleton g).trans hs,hb⟩
  · refine ⟨b,s ++ 58 :: colons gs,?_,hb⟩
    rw [colons_cons g hgs, hs, List.cons_append]

theorem mem_colons {gs : List Nat} {b : UInt8} (h : b ∈ colons gs) : b = 58 ∨ isHexDigit b = true := by
  induction gs with
  | nil => cases h
  | cons g gs ih =>
    by_cases hgs : gs = []
    · subst hgs
      rw [colons_singleton] at h
      exact .inr (isHexDigit_of_mem_hex h)
    · rw [colons_cons g hgs] at h
      rcases List.mem_append.mp h with h | h
      · exact .inr (isHexDigit_of_mem_hex h)
      · rcases List.mem_cons.mp h with h | h
        · exact .inl h
        · exact ih h

theorem readGroups_colons {gs : List Nat} {w : Nat} (hw : 0 < w) (h : ∀ g ∈ gs, g < 16^w) :
    readGroups w (colons gs) = some gs := by
  have hread : ∀ {gs : List Nat}, (∀ g ∈ gs, g < 16^w) → (gs.map hex).mapM (readGroup w) = some gs := by
    intro gs h
    induction gs with
    | nil => rfl
    | cons g gs ih =>
      obtain ⟨hg,hgs⟩ := List.forall_mem_cons.mp h
      rw [List.map_cons, List.mapM_cons, readGroup_hex hw hg, ih hgs]
      rfl
  by_cases hgs : gs = []
  · subst hgs
    rfl
  · obtain ⟨b,rest,hb,-⟩ := colons_head hgs
    rw [readGroups, if_neg (by rw [hb]; exact List.cons_ne_nil b rest), colons, List.splitOn_intercalate]
    · exact hread h
    · intro s hs
      obtain ⟨g,-,rfl⟩ := List.mem_map.mp hs
      exact colon_notMem_hex g
    · exact fun hnil => hgs (List.map_eq_nil_iff.mp hnil)

/-! The place of the `::`. -/

theorem splitPair_cons {x : UInt8} (h : x ≠ 58) (t : List UInt8) :
    splitPair (x :: t) = (splitPair t).map fun p => (x :: p.1,p.2) := by
  cases t with
  | nil => rfl
  | cons y t =>
    rw [splitPair]
    exact if_neg fun hxy => h hxy.1

theorem splitPair_single {y : UInt8} (h : y ≠ 58) (t : List UInt8) :
    splitPair (58 :: y :: t) = (splitPair (y :: t)).map fun p => (58 :: p.1,p.2) := by
  rw [splitPair]
  exact if_neg fun hxy => h hxy.2

theorem splitPair_append {s : List UInt8} (h : 58 ∉ s) (t : List UInt8) :
    splitPair (s ++ t) = (splitPair t).map fun p => (s ++ p.1,p.2) := by
  induction s with
  | nil =>
    rw [List.nil_append]
    exact (Option.map_id' (x := splitPair t)).symm
  | cons x s ih =>
    have hx : x ≠ 58 := fun hx => h (hx ▸ List.mem_cons_self)
    have hs : 58 ∉ s := fun hs => h (List.mem_cons_of_mem x hs)
    rw [List.cons_append, splitPair_cons hx, ih hs, Option.map_map]
    rfl

/-- Nothing splits inside groups, so what follows them decides. -/
theorem splitPair_colons (gs : List Nat) (t : List UInt8) :
    splitPair (colons gs ++ t) = (splitPair t).map fun p => (colons gs ++ p.1,p.2) := by
  induction gs with
  | nil => exact splitPair_append (List.not_mem_nil) t
  | cons g gs ih =>
    by_cases hgs : gs = []
    · subst hgs
      rw [colons_singleton]
      exact splitPair_append (colon_notMem_hex g) t
    · obtain ⟨b,rest,hrest,hb⟩ := colons_head hgs
      have hcolon : splitPair (58 :: (colons gs ++ t)) = (splitPair (colons gs ++ t)).map fun p => (58 :: p.1,p.2) := by
        rw [hrest, List.cons_append]
        exact splitPair_single hb _
      rw [colons_cons g hgs, List.append_assoc, List.cons_append, splitPair_append (colon_notMem_hex g), hcolon, ih,
        Option.map_map, Option.map_map]
      apply congrArg (fun f => Option.map f (splitPair t))
      funext p
      rw [Function.comp_apply, Function.comp_apply, List.append_assoc, List.cons_append]

/-- Any zeros within the groups may be left to the `::`. -/
theorem abbreviated_zeros {n w zeros : Nat} {groups before after : List Nat} (hz : 0 < zeros)
    (h : groups = before ++ List.replicate zeros 0 ++ after) (hlen : groups.length = n) (hlt : ∀ g ∈ groups, g < 16^w) :
    (Form.abbreviated before after).Valid n w ∧ (Form.abbreviated before after).groups n = groups := by
  have hn : before.length + zeros + after.length = n := by
    rw [← hlen, h, List.length_append, List.length_append, List.length_replicate]
  refine ⟨⟨by omega,?_⟩,?_⟩
  · intro g hg
    apply hlt
    rw [h]
    rcases List.mem_append.mp hg with hg | hg
    · exact List.mem_append_left _ (List.mem_append_left _ hg)
    · exact List.mem_append_right _ hg
  · rw [Form.groups, h, show n - (before.length + after.length) = zeros by omega]

/-- A form's text stands for the form's groups. -/
theorem expand_text {n w : Nat} (hw : 0 < w) {form : Form} (h : form.Valid n w) :
    expand n w form.text = some (form.groups n) := by
  cases form with
  | full gs =>
    obtain ⟨hlen,hgs⟩ := h
    have hnone : splitPair (colons gs) = none := by
      have := splitPair_colons gs []
      rwa [List.append_nil] at this
    rw [expand, Form.text, hnone]
    simp only [readGroups_colons hw hgs]
    exact if_pos hlen
  | abbreviated before after =>
    obtain ⟨hlen,hgs⟩ := h
    obtain ⟨hbefore,hafter⟩ := List.forall_mem_append.mp hgs
    have hsome : splitPair (colons before ++ [58,58] ++ colons after) = some (colons before,colons after) := by
      rw [List.append_assoc]
      refine (splitPair_colons before (58 :: 58 :: colons after)).trans ?_
      rw [splitPair, if_pos ⟨rfl,rfl⟩, Option.map_some, List.append_nil]
    rw [expand, Form.text, hsome]
    simp only [readGroups_colons hw hbefore, readGroups_colons hw hafter]
    exact if_pos hlen

/-- A form's text has digits and colons only. -/
theorem mem_text {form : Form} {b : UInt8} (h : b ∈ form.text) : b = 58 ∨ isHexDigit b = true := by
  cases form with
  | full gs => exact mem_colons h
  | abbreviated before after =>
    rw [Form.text, List.append_assoc] at h
    rcases List.mem_append.mp h with h | h
    · exact mem_colons h
    · rcases List.mem_append.mp h with h | h
      · have h58 : b = 58 := by simpa using h
        exact .inl h58
      · exact mem_colons h

end Radixun.Foundation.GroupText
