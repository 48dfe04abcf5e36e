import Mathlib.Data.List.Chain
import Radixun.Http.UriOctets

/-! Hosts in brackets: the IPv6 addresses as RFC 3986 has them, as data, and which of them the machine
takes. The states within an address come in levels, one for each group. -/
namespace Radixun.Http.Uri
open Radixun.Foundation CString TextFrame UriMachine ActionMachine

variable {cs : Nat} {a rest : Text}

/-- `h16`: one to four hexadecimal digits. -/
structure H16 where
  digits : Text
  hex : ∀ b ∈ digits, xdigit.has b = true
  nonempty : digits ≠ []
  short : digits.length ≤ 4

structure IPv4address where
  first : UInt8
  second : UInt8
  third : UInt8
  fourth : UInt8

namespace IPv4address

def octets (x : IPv4address) : List UInt8 := [x.first,x.second,x.third,x.fourth]
def toText (x : IPv4address) : Text := [46].intercalate (x.octets.map fun n => decimal n.toNat)

end IPv4address

/-- Groups with colons between them; the last two may be written as an `IPv4address`. -/
structure Groups where
  groups : List H16
  address : Option IPv4address

namespace Groups

def count (x : Groups) : Nat := x.groups.length + if x.address.isSome then 2 else 0
def toText (x : Groups) : Text := [58].intercalate (x.groups.map H16.digits ++ x.address.toList.map IPv4address.toText)
def octets (x : Groups) : List UInt8 := x.address.toList.flatMap IPv4address.octets

end Groups

/-- All eight groups, or a double colon for one or more of them. -/
inductive IPv6address where
  | full (x : Groups) (h : x.count = 8)
  | abbreviated (before : List H16) (behind : Groups) (h : before.length + behind.count ≤ 7)

namespace IPv6address

def toText : IPv6address → Text
  | full x _ => x.toText
  | abbreviated before behind _ => [58].intercalate (before.map H16.digits) ++ [58,58] ++ behind.toText

def octets : IPv6address → List UInt8
  | full x _ => x.octets
  | abbreviated _ behind _ => behind.octets

def literal (t : IPv6address) : Text := text "[" ++ t.toText ++ text "]"

/-- A URI whose host the address is. -/
def url (t : IPv6address) : Text := text "http://" ++ t.literal ++ text "/"

end IPv6address

/-- The states around one group: in front of it, within it by the number of its digits so far, those of an
octet in its place where two groups are left, and whether the address may end behind it. -/
structure Level where
  start : Nat
  inside : List (List Nat)
  octets : Option OctetStates
  closes : Bool

/-- Every digit leads from each of the states to one of the next. -/
def digitsLead (M : ActionMachine Action) : List Nat → List (List Nat) → Bool
  | _, [] => true
  | here, next :: more =>
    (here.all fun s => (M.row s).any (·.on == xdigit) &&
      (M.row s).all fun e => !e.on.meets xdigit || next.contains e.target) && digitsLead M next more

theorem digit_leads {M : ActionMachine Action} {s : Nat} {b : UInt8} {next : List Nat} (hb : xdigit.has b = true)
    (hany : (M.row s).any (·.on == xdigit) = true)
    (hall : ((M.row s).all fun e => !e.on.meets xdigit || next.contains e.target) = true) :
    ∃ acts, ∃ t ∈ next, M.move s b = some (acts,t) := by
  obtain ⟨e,he,hon⟩ := List.any_eq_true.mp hany
  have hfound : (M.edge s b).isSome = true := by
    rw [edge, List.find?_isSome]
    exact ⟨e,he,by rw [eq_of_beq hon]; exact hb⟩
  obtain ⟨e,he⟩ := Option.isSome_iff_exists.mp hfound
  obtain ⟨hmem,hhas⟩ := edge_mem he
  have htarget := List.all_eq_true.mp hall e hmem
  rw [ByteClass.meets_of_has hhas hb, Bool.not_true, Bool.false_or, List.contains_iff_mem] at htarget
  refine ⟨e.acts,e.target,htarget,?_⟩
  rw [move, he]
  rfl

theorem digitsLead_reach {M : ActionMachine Action} {here : List Nat} {more : List (List Nat)}
    (hlead : digitsLead M here more = true) (hcs : cs ∈ here) (ha : ∀ b ∈ a, xdigit.has b = true) (hlen : a.length ≤ more.length) :
    ∃ t, M.reach cs a = some t ∧ t ∈ (here :: more).getD a.length [] := by
  induction a generalizing cs here more with
  | nil => exact ⟨cs,rfl,hcs⟩
  | cons b a ih =>
    cases more with
    | nil => cases hlen
    | cons next more =>
      obtain ⟨hb,ha⟩ := List.forall_mem_cons.mp ha
      rw [digitsLead, Bool.and_eq_true] at hlead
      have hrow := List.all_eq_true.mp hlead.1 cs hcs
      rw [Bool.and_eq_true] at hrow
      obtain ⟨acts,s,hs,hmove⟩ := digit_leads hb hrow.1 hrow.2
      obtain ⟨t,ht,hin⟩ := ih hlead.2 hs ha (Nat.le_of_succ_le_succ hlen)
      refine ⟨t,?_,hin⟩
      rw [reach, hmove]
      exact ht

namespace Level

def low (L : Level) : Nat := L.inside.flatten.foldl min L.start
def high (L : Level) : Nat := L.inside.flatten.foldl max L.start
def machine (L : Level) : ActionMachine Action := uriMachine.between L.low L.high

def ok (L : Level) : Bool :=
  digitsLead L.machine [L.start] L.inside && L.inside.length == 4 && L.inside.flatten.all fun t =>
    L.low ≤ t && t ≤ L.high && L.machine.move t 93 == if L.closes then some ([],512) else none

/-- A colon leads from one level to the next, and octets are possible where two groups are left. -/
def before (L L' : Level) : Bool :=
  (L.inside.flatten.all fun t => L.machine.reach t [58] == some L'.start) &&
    match L.octets with
    | some P => P.front == L.start && L'.closes && P.ok 46 294
    | none => !L'.closes && L.inside.flatten.all fun t => (L.machine.move t 46).isNone

section Group
variable {L L' : Level} {t : Nat}

theorem ok_inside (hL : L.ok = true) (ht : t ∈ L.inside.flatten) :
    (L.low ≤ t ∧ t ≤ L.high) ∧ uriMachine.move t 93 = if L.closes then some ([],512) else none := by
  rw [ok, Bool.and_eq_true, List.all_eq_true] at hL
  have hinside := hL.2 t ht
  simp only [Bool.and_eq_true, decide_eq_true_eq, beq_iff_eq] at hinside
  obtain ⟨hrange,hclose⟩ := hinside
  rw [machine, between_move hrange.1 hrange.2] at hclose
  exact ⟨hrange,hclose⟩

/-- One to four digits. -/
theorem reach_digits (hL : L.ok = true) (ha : ∀ b ∈ a, xdigit.has b = true) (hne : a ≠ []) (hlen : a.length ≤ 4) :
    ∃ t ∈ L.inside.flatten, uriMachine.reach L.start a = some t := by
  simp only [ok, Bool.and_eq_true, beq_iff_eq] at hL
  obtain ⟨⟨hlead,hfour⟩,_⟩ := hL
  obtain ⟨t,ht,hin⟩ := digitsLead_reach hlead (List.mem_singleton_self _) ha (hfour ▸ hlen)
  refine ⟨t,?_,reach_of_between ht⟩
  cases a with
  | nil => exact absurd rfl hne
  | cons b a =>
    have hlt : a.length < L.inside.length := by
      rw [hfour]
      exact hlen
    rw [List.length_cons, List.getD_cons_succ, List.getD_eq_getElem?_getD, List.getElem?_eq_getElem hlt] at hin
    exact List.mem_flatten_of_mem (List.getElem_mem hlt) hin

/-- A last group. -/
theorem accepted_last (hL : L.ok = true) (h : H16) : AcceptedFrom L.start (h.digits ++ [93]) ↔ L.closes = true := by
  obtain ⟨t,ht,hreach⟩ := reach_digits hL h.hex h.nonempty h.short
  have hbracket : uriMachine.reach t [93] = if L.closes then some 512 else none := by
    rw [reach_single, (ok_inside hL ht).2]
    split <;> rfl
  have hclose : AcceptedFrom t ([93] ++ []) ↔ _ := accepted_of_ite hbracket
  rw [accepted_of_reach hreach, ← List.append_nil [93], hclose]
  exact and_iff_left accepted_closed

theorem before_colon (hnext : L.before L' = true) (ht : t ∈ L.inside.flatten) : uriMachine.reach t [58] = some L'.start := by
  rw [before, Bool.and_eq_true, List.all_eq_true] at hnext
  exact reach_of_between (eq_of_beq (hnext.1 t ht))

/-- A group with the colon behind it. -/
theorem reach_colon (hL : L.ok = true) (hnext : L.before L' = true) (h : H16) :
    uriMachine.reach L.start (h.digits ++ [58]) = some L'.start := by
  obtain ⟨t,ht,hreach⟩ := reach_digits hL h.hex h.nonempty h.short
  rw [reach_append, hreach]
  exact before_colon hnext ht

/-- An octet in place of a group. -/
theorem accepted_front (hL : L.ok = true) (hnext : L.before L' = true) {n : Nat} (hn : n < 256) :
    AcceptedFrom L.start (decimal n ++ 46 :: rest) ↔ L'.closes = true ∧ decOctet n = true ∧ AcceptedFrom 294 rest := by
  rw [before, Bool.and_eq_true] at hnext
  obtain ⟨_,hoctets⟩ := hnext
  cases h : L.octets with
  | some P =>
    simp only [h, Bool.and_eq_true, beq_iff_eq] at hoctets
    obtain ⟨⟨hfront,hcloses⟩,hP⟩ := hoctets
    rw [← hfront, OctetStates.accepted_octet hP hn, hcloses]
    simp
  | none =>
    simp only [h, Bool.and_eq_true, Bool.not_eq_true', List.all_eq_true, Option.isNone_iff_eq_none] at hoctets
    obtain ⟨hcloses,hdot⟩ := hoctets
    have hhex : ∀ b ∈ decimal n, xdigit.has b = true := fun b => xdigit_decimal
    have hlen : (decimal n).length ≤ 4 := by
      rw [decimal, List.length_map, Nat.length_toDigits_le_iff (by decide) (by decide)]
      omega
    obtain ⟨t,ht,hreach⟩ := reach_digits hL hhex (decimal_ne_nil n) hlen
    have hrange := (ok_inside hL ht).1
    have hstuck : uriMachine.reach t [46] = none := by
      rw [reach_single, ← between_move hrange.1 hrange.2]
      exact congrArg _ (hdot t ht)
    have hnot : ¬AcceptedFrom t ([46] ++ rest) := not_accepted hstuck
    rw [accepted_of_reach hreach, hcloses]
    simpa using hnot

end Group
end Level

/-- The levels of an address without a double colon. -/
def fullLevels : List Level := [
  ⟨260,[[261],[262],[263],[264]],none,false⟩,
  ⟨265,[[266],[267],[268],[269]],none,false⟩,
  ⟨270,[[271],[272],[273],[274]],none,false⟩,
  ⟨275,[[276],[277],[278],[279]],none,false⟩,
  ⟨280,[[281],[282],[283],[284]],none,false⟩,
  ⟨285,[[286],[287],[288],[289]],none,false⟩,
  ⟨290,[[318,326,329,332,334],[319,327,330,331],[320,328],[321]],some ⟨290,318,326,329,332,327,330,331,328⟩,false⟩,
  ⟨322,[[323],[324],[325],[305]],none,true⟩]

/-- The levels behind a double colon with a group in front of it. -/
def behindLevels : List Level := [
  ⟨363,[[364],[365],[366],[367]],none,false⟩,
  ⟨358,[[359],[360],[361],[362]],none,false⟩,
  ⟨353,[[354],[355],[356],[357]],none,false⟩,
  ⟨348,[[349],[350],[351],[352]],none,false⟩,
  ⟨335,[[336,340,343,346,347],[337,341,344,345],[338,342],[339]],some ⟨335,336,340,343,346,341,344,345,342⟩,false⟩,
  ⟨333,[[323],[324],[325],[305]],none,true⟩]

/-- The levels behind a double colon at the beginning. -/
def leadingLevels : List Level := [
  ⟨369,[[370,439,442,445,446],[371,440,443,444],[372,441],[373]],some ⟨369,370,439,442,445,440,443,444,441⟩,true⟩,
  ⟨374,[[375,431,434,437,438],[376,432,435,436],[377,433],[378]],some ⟨374,375,431,434,437,432,435,436,433⟩,true⟩,
  ⟨379,[[380,423,426,429,430],[381,424,427,428],[382,425],[383]],some ⟨379,380,423,426,429,424,427,428,425⟩,true⟩,
  ⟨384,[[385,415,418,421,422],[386,416,419,420],[387,417],[388]],some ⟨384,385,415,418,421,416,419,420,417⟩,true⟩,
  ⟨389,[[390,407,410,413,414],[391,408,411,412],[392,409],[393]],some ⟨389,390,407,410,413,408,411,412,409⟩,true⟩,
  ⟨394,[[395,399,402,405,406],[396,400,403,404],[397,401],[398]],some ⟨394,395,399,402,405,400,403,404,401⟩,true⟩,
  ⟨333,[[323],[324],[325],[305]],none,true⟩]

/-- Levels one behind the other. -/
structure Row (Ls : List Level) : Prop where
  ok : ∀ L ∈ Ls, L.ok = true
  before : Ls.IsChain fun L L' => L.before L' = true

theorem full_row : Row fullLevels := by constructor <;> decide +kernel
theorem behind_row : Row behindLevels := by constructor <;> decide +kernel
theorem leading_row : Row leadingLevels := by constructor <;> decide +kernel

theorem accepted_address {L L' : Level} (hL : L.ok = true) (hnext : L.before L' = true) (x : IPv4address) :
    AcceptedFrom L.start (x.toText ++ [93]) ↔ (∀ n ∈ x.octets, decOctet n.toNat = true) ∧ L'.closes = true := by
  obtain ⟨a,b,c,d⟩ := x
  have htext : IPv4address.toText ⟨a,b,c,d⟩ ++ [93] = decimal a.toNat ++ 46 :: (decimal b.toNat ++ 46 ::
      (decimal c.toNat ++ 46 :: (decimal d.toNat ++ [93]))) := by
    simp [IPv4address.toText, IPv4address.octets]
  have hsecond : AcceptedFrom 294 (decimal b.toNat ++ 46 :: (decimal c.toNat ++ 46 :: (decimal d.toNat ++ [93]))) ↔ _ :=
    OctetStates.accepted_octet secondOctet_ok b.toNat_lt
  have hthird : AcceptedFrom 298 (decimal c.toNat ++ 46 :: (decimal d.toNat ++ [93])) ↔ _ :=
    OctetStates.accepted_octet thirdOctet_ok c.toNat_lt
  have hfourth : AcceptedFrom 302 (decimal d.toNat ++ [93]) ↔ _ :=
    OctetStates.accepted_octet fourthOctet_ok d.toNat_lt
  rw [htext, Level.accepted_front hL hnext a.toNat_lt, hsecond, hthird, hfourth]
  simp [accepted_closed, IPv4address.octets, and_comm]

namespace Groups
variable {h : H16} {groups : List H16} {address : Option IPv4address}

theorem count_cons : (⟨h :: groups,address⟩ : Groups).count = (⟨groups,address⟩ : Groups).count + 1 := by
  simp only [count, List.length_cons]
  omega

theorem text_cons (hcount : 0 < (⟨groups,address⟩ : Groups).count) :
    (⟨h :: groups,address⟩ : Groups).toText = h.digits ++ [58] ++ (⟨groups,address⟩ : Groups).toText := by
  have hne : groups.map H16.digits ++ address.toList.map IPv4address.toText ≠ [] := by
    intro hnil
    obtain ⟨hgroups,haddress⟩ := List.append_eq_nil_iff.mp hnil
    cases groups with
    | nil =>
      cases address with
      | none => cases hcount
      | some x => cases haddress
    | cons h' groups => cases hgroups
  rw [toText, List.map_cons, List.cons_append, List.intercalate_cons_of_ne_nil hne]
  rfl

theorem eq_nothing {x : Groups} (h : x.count = 0) : x = ⟨[],none⟩ := by
  obtain ⟨groups,address⟩ := x
  rw [count, Nat.add_eq_zero_iff, List.length_eq_zero_iff] at h
  obtain ⟨rfl,haddress⟩ := h
  cases address with
  | none => rfl
  | some x => cases haddress

/-- Groups up to the closing bracket: the last of them has to be one that may be. -/
theorem accepted_groups {Ls : List Level} {L : Level} (hrow : Row (L :: Ls)) (x : Groups) (hpos : 0 < x.count)
    (hcount : x.count ≤ Ls.length + 1) : AcceptedFrom L.start (x.toText ++ [93]) ↔
      (∀ n ∈ x.octets, decOctet n.toNat = true) ∧ ((L :: Ls)[x.count - 1]?.any Level.closes) = true := by
  obtain ⟨groups,address⟩ := x
  have hL := hrow.ok L List.mem_cons_self
  induction groups generalizing L Ls with
  | nil =>
    cases address with
    | none => cases hpos
    | some x =>
      cases Ls with
      | nil => cases Nat.le_of_succ_le_succ hcount
      | cons L' Ls =>
        have hnext := (List.isChain_cons_cons.mp hrow.before).1
        have htext : (⟨[],some x⟩ : Groups).toText = x.toText := List.intercalate_singleton
        have hoctets : (⟨[],some x⟩ : Groups).octets = x.octets := List.append_nil _
        rw [htext, hoctets, accepted_address hL hnext]
        simp [count]
  | cons h groups ih =>
    rcases Nat.eq_zero_or_pos (⟨groups,address⟩ : Groups).count with hzero | hmore
    · obtain ⟨rfl,rfl⟩ := Groups.mk.inj (eq_nothing hzero)
      have htext : (⟨[h],none⟩ : Groups).toText = h.digits := List.intercalate_singleton
      rw [htext, Level.accepted_last hL]
      simp [count, octets]
    · cases Ls with
      | nil =>
        rw [count_cons, List.length_nil] at hcount
        omega
      | cons L' Ls =>
        obtain ⟨hnext,hchain⟩ := List.isChain_cons_cons.mp hrow.before
        have hrow' : Row (L' :: Ls) := ⟨fun K hK => hrow.ok K (List.mem_cons_of_mem L hK),hchain⟩
        have hle : (⟨groups,address⟩ : Groups).count ≤ Ls.length + 1 := by
          rw [count_cons, List.length_cons] at hcount
          omega
        have hindex : (⟨h :: groups,address⟩ : Groups).count - 1 = (⟨groups,address⟩ : Groups).count - 1 + 1 := by
          rw [count_cons]
          omega
        have hrest := ih hrow' hmore hle (hrow'.ok L' List.mem_cons_self)
        rw [text_cons hmore, List.append_assoc, accepted_of_reach (Level.reach_colon hL hnext h), hindex,
          List.getElem?_cons_succ]
        exact hrest

end Groups

theorem Row.drop {Ls : List Level} (hrow : Row Ls) (k : Nat) : Row (Ls.drop k) :=
  ⟨fun L hL => hrow.ok L (List.mem_of_mem_drop hL),hrow.before.drop k⟩

/-- Groups with a colon behind each. -/
theorem reach_groups {Ls : List Level} {L K : Level} (hrow : Row (L :: Ls)) (before : List H16)
    (hK : (L :: Ls)[before.length]? = some K) :
    uriMachine.reach L.start (before.flatMap fun h => h.digits ++ [58]) = some K.start := by
  induction before generalizing L Ls with
  | nil =>
    obtain rfl := Option.some.inj hK
    rfl
  | cons h before ih =>
    cases Ls with
    | nil => cases hK
    | cons L' Ls =>
      have hnext := (List.isChain_cons_cons.mp hrow.before).1
      rw [List.flatMap_cons, reach_append, Level.reach_colon (hrow.ok L List.mem_cons_self) hnext h]
      exact ih (hrow.drop 1) hK

theorem flatMap_joined {before : List H16} (hne : before ≠ []) :
    [58].intercalate (before.map H16.digits) ++ [58] = before.flatMap fun h => h.digits ++ [58] := by
  induction before with
  | nil => exact absurd rfl hne
  | cons h before ih =>
    cases before with
    | nil => simp
    | cons h' before =>
      rw [List.flatMap_cons, ← ih (List.cons_ne_nil h' before)]
      simp

/-- The state behind a double colon with `k + 1` groups in front of it. -/
def behindStart (k : Nat) : Nat := (behindLevels[k]?.map Level.start).getD 305

/-- The moves of the machine at a double colon. -/
structure DoubleColonMoves : Prop where
  leading : uriMachine.reach 260 [58,58] = some 369
  leading_end : uriMachine.reach 369 [93] = some 512
  second : ∀ k, k < 7 → (fullLevels[k + 1]?.any fun K => uriMachine.reach K.start [58] == some (behindStart k)) = true
  behind_end : ∀ k, k < 7 → uriMachine.reach (behindStart k) [93] = if k = 6 then some 512 else none
  leading_closes : ∀ k, k < 7 → (leadingLevels[k]?.any Level.closes) = true
  behind_closes : ∀ k, k < 6 → (behindLevels[k]?.any Level.closes) = (k == 5)
  full_closes : (fullLevels[7]?.any Level.closes) = true

theorem doubleColon_moves : DoubleColonMoves := by constructor <;> decide +kernel

namespace IPv6address

/-- A double colon behind one group or more stands for exactly one. -/
def Fits : IPv6address → Prop
  | full _ _ => True
  | abbreviated before behind _ => before = [] ∨ before.length + behind.count = 7

theorem accepted_full {x : Groups} (h : x.count = 8) :
    AcceptedFrom 260 (x.toText ++ [93]) ↔ ∀ n ∈ x.octets, decOctet n.toNat = true := by
  have hgroups := Groups.accepted_groups full_row x (by omega) (by rw [h]; decide)
  rw [h] at hgroups
  have hcloses : (fullLevels[8 - 1]?.any Level.closes) = true := doubleColon_moves.full_closes
  exact hgroups.trans (and_iff_left hcloses)

theorem accepted_leading {behind : Groups} (h : behind.count ≤ 7) :
    AcceptedFrom 260 ([58,58] ++ (behind.toText ++ [93])) ↔ ∀ n ∈ behind.octets, decOctet n.toNat = true := by
  rw [accepted_of_reach doubleColon_moves.leading]
  rcases Nat.eq_zero_or_pos behind.count with hzero | hpos
  · obtain rfl := Groups.eq_nothing hzero
    have hend : AcceptedFrom 369 ([93] ++ []) := (accepted_of_reach doubleColon_moves.leading_end).mpr accepted_closed
    simpa [Groups.toText, Groups.octets] using hend
  · have hcloses := doubleColon_moves.leading_closes (behind.count - 1) (by omega)
    exact (Groups.accepted_groups leading_row behind hpos h).trans (and_iff_left hcloses)

theorem accepted_behind {k : Nat} {behind : Groups} (h : k + 1 + behind.count ≤ 7) :
    AcceptedFrom (behindStart k) (behind.toText ++ [93]) ↔
      (∀ n ∈ behind.octets, decOctet n.toNat = true) ∧ k + 1 + behind.count = 7 := by
  rcases Nat.eq_zero_or_pos behind.count with hzero | hpos
  · obtain rfl := Groups.eq_nothing hzero
    have htext : (⟨[],none⟩ : Groups).toText ++ [93] = [93] := rfl
    have hclose : AcceptedFrom (behindStart k) ([93] ++ []) ↔ _ := accepted_of_ite (doubleColon_moves.behind_end k (by omega))
    rw [htext, ← List.append_nil [93], hclose]
    simp [accepted_closed, Groups.octets, Groups.count]
  · have hlt : k < behindLevels.length := by
      rw [show behindLevels.length = 6 from rfl]
      omega
    have hdrop := List.drop_eq_getElem_cons hlt
    have hrow : Row (behindLevels[k] :: behindLevels.drop (k + 1)) := hdrop ▸ behind_row.drop k
    have hstart : behindStart k = behindLevels[k].start := by
      rw [behindStart, List.getElem?_eq_getElem hlt]
      rfl
    have hlen : behind.count ≤ (behindLevels.drop (k + 1)).length + 1 := by
      rw [List.length_drop, show behindLevels.length = 6 from rfl]
      omega
    have hcloses := doubleColon_moves.behind_closes (k + (behind.count - 1)) (by omega)
    rw [hstart, Groups.accepted_groups hrow behind hpos hlen, ← hdrop, List.getElem?_drop, hcloses]
    rw [beq_iff_eq]
    apply and_congr_right
    intro _
    omega

theorem accepted_text (t : IPv6address) :
    AcceptedFrom 260 (t.toText ++ [93]) ↔ (∀ n ∈ t.octets, decOctet n.toNat = true) ∧ t.Fits := by
  cases t with
  | full x h => exact (accepted_full h).trans (and_iff_left trivial).symm
  | abbreviated before behind h =>
    cases before with
    | nil =>
      rw [List.length_nil, Nat.zero_add] at h
      simpa [toText, octets, Fits] using accepted_leading h
    | cons g before =>
      have hne : g :: before ≠ [] := List.cons_ne_nil g before
      have htext : (abbreviated (g :: before) behind h).toText ++ [93] =
          ((g :: before).flatMap fun h => h.digits ++ [58]) ++ ([58] ++ (behind.toText ++ [93])) := by
        rw [← flatMap_joined hne, toText]
        simp
      have hlt : before.length < 7 := by
        rw [List.length_cons] at h
        omega
      obtain ⟨K,hK,hcolon⟩ := (Option.any_eq_true _ _).mp (doubleColon_moves.second before.length hlt)
      rw [htext, accepted_of_reach (reach_groups full_row (g :: before) hK), accepted_of_reach (eq_of_beq hcolon),
        accepted_behind h]
      simp [octets, Fits]

/-- Hexadecimal digits, colons and dots. -/
def addressByte : ByteClass := xdigit ++ [(58,58),(46,46)]

end IPv6address

theorem has_intercalate {c : ByteClass} {d : UInt8} {ls : List Text} (hd : c.has d = true)
    (hls : ∀ l ∈ ls, ∀ b ∈ l, c.has b = true) : ∀ b ∈ [d].intercalate ls, c.has b = true := by
  induction ls with
  | nil => simp
  | cons l ls ih =>
    obtain ⟨hl,hls⟩ := List.forall_mem_cons.mp hls
    cases ls with
    | nil => simpa using hl
    | cons l' ls =>
      rw [List.intercalate_cons_cons]
      intro b hb
      rcases List.mem_append.mp hb with hb | hb
      · rcases List.mem_append.mp hb with hb | hb
        · exact hl b hb
        · exact List.mem_singleton.mp hb ▸ hd
      · exact ih hls b hb

namespace IPv6address

theorem addressByte_of_xdigit {b : UInt8} (h : xdigit.has b = true) : addressByte.has b = true := by
  rw [addressByte, ByteClass.has, List.any_append]
  exact Bool.or_eq_true_iff.mpr (.inl h)

theorem addressByte_groups {x : Groups} : ∀ b ∈ x.toText, addressByte.has b = true := by
  have hdot : addressByte.has 46 = true := by decide
  have hcolon : addressByte.has 58 = true := by decide
  apply has_intercalate hcolon
  intro l hl
  rcases List.mem_append.mp hl with hl | hl
  · obtain ⟨h,_,rfl⟩ := List.mem_map.mp hl
    exact fun b hb => addressByte_of_xdigit (h.hex b hb)
  · obtain ⟨y,_,rfl⟩ := List.mem_map.mp hl
    apply has_intercalate hdot
    intro l hl
    obtain ⟨n,_,rfl⟩ := List.mem_map.mp hl
    exact fun b hb => addressByte_of_xdigit (xdigit_decimal hb)

theorem addressByte_text (t : IPv6address) : ∀ b ∈ t.toText, addressByte.has b = true := by
  cases t with
  | full x h => exact addressByte_groups
  | abbreviated before behind h =>
    have hcolons : ∀ b ∈ ([58,58] : Text), addressByte.has b = true := by decide +kernel
    have hbefore := @addressByte_groups ⟨before,none⟩
    rw [Groups.toText, Option.toList_none, List.map_nil, List.append_nil] at hbefore
    exact List.forall_mem_append.mpr ⟨List.forall_mem_append.mpr ⟨hbefore,hcolons⟩,addressByte_groups⟩

/-- No delimiter of a URI is in an address. -/
theorem text_free (t : IPv6address) : Free [35,47,63,64,93] t.toText := by
  intro b hb
  have hbyte := t.addressByte_text b hb
  simp only [addressByte, xdigit, digit, ByteClass.has, List.cons_append, List.nil_append, List.any_cons, List.any_nil,
    Bool.or_eq_true, Bool.and_eq_true, decide_eq_true_eq, Bool.or_false] at hbyte
  simp only [List.mem_cons, List.not_mem_nil, or_false]
  omega

theorem literal_eq (t : IPv6address) : t.literal = 91 :: (t.toText ++ [93]) := by
  rw [literal, show text "[" = [91] by decide, show text "]" = [93] by decide]
  rfl

/-- `create` takes the address, and `getHost` is the literal. -/
def Taken (t : IPv6address) : Prop := ∃ u, create t.url = .ok (some u) ∧ u.host = t.literal

/-- The moves of the machine in front of the address and behind it. -/
structure LiteralMoves : Prop where
  scheme : uriMachine.reach start (text "http") = some 508
  bracket : uriMachine.reach 511 [91] = some 260
  path : uriMachine.reach 513 [] = some 513

theorem literal_moves : LiteralMoves := by constructor <;> decide +kernel

theorem taken_iff_accepted (t : IPv6address) : t.Taken ↔ AcceptedFrom 260 (t.toText ++ [93]) := by
  let c : Components := ⟨text "http",none,t.literal,none,text "/",none,none⟩
  have hscheme : Free [35,47,58,63] (text "http") := by decide +kernel
  have hpath : text "/" = [47] := by decide
  have hshape : c.Shaped := by
    refine ⟨hscheme,by simp [c],?_,by simp [c],⟨.inr ⟨[],hpath⟩,?_,by simp [c]⟩⟩
    · rw [show c.host = 91 :: (t.toText ++ [93]) from t.literal_eq]
      exact .brackets t.text_free
    · rw [show c.path = [47] from hpath]
      decide
  have hglue : c.glue = t.url := by
    have hfront : text "http://" = text "http" ++ text "://" := by decide +kernel
    rw [url, hfront, Components.glue, Components.authority]
    simp only [c, trailed, led, List.nil_append, List.append_nil]
  have hhost : AcceptedFrom 511 t.literal ↔ AcceptedFrom 260 (t.toText ++ [93]) := by
    rw [literal_eq, ← List.singleton_append, accepted_of_reach literal_moves.bracket]
  rw [Taken, ← hglue, ← hhost]
  simp only [Components.create_glue_iff hshape]
  constructor
  · rintro ⟨u,⟨hvalid,_⟩,_⟩
    exact hvalid.host
  · intro h
    refine ⟨c.stored,⟨⟨?_,by simp [c],h,by simp [PortOk, c],?_,by simp [EndingOk, c]⟩,rfl⟩,rfl⟩
    · exact (leads_iff_reach uri_goes_on).mpr literal_moves.scheme
    · intro r hr
      obtain rfl : [] = r := List.tail_eq_of_cons_eq (hpath.symm.trans hr)
      exact accepted_iff_reach.mpr ⟨513,literal_moves.path,by decide⟩

/-- Which addresses are taken: no octet is from 200 to 249, and a double colon behind one group or more
stands for exactly one. -/
theorem literal_taken_iff (t : IPv6address) :
    t.Taken ↔ (∀ n ∈ t.octets, n.toNat < 200 ∨ 250 ≤ n.toNat) ∧ t.Fits := by
  rw [taken_iff_accepted, accepted_text]
  simp [decOctet]

/-- A double colon for six groups behind one, and an octet over 200. -/
theorem short_form_refused :
    let fe80 : H16 := ⟨text "fe80",by decide +kernel,by decide +kernel,by decide +kernel⟩
    let one : H16 := ⟨text "1",by decide +kernel,by decide +kernel,by decide +kernel⟩
    let link : IPv6address := .abbreviated [fe80] ⟨[one],none⟩ (by decide)
    let mapped : IPv6address := .abbreviated [] ⟨[],some ⟨192,168,200,1⟩⟩ (by decide)
    link.url = text "http://[fe80::1]/" ∧ create link.url = .ok none ∧ ¬link.Taken ∧
      mapped.url = text "http://[::192.168.200.1]/" ∧ create mapped.url = .ok none ∧ ¬mapped.Taken := by
  have hrefused : ∀ t : IPv6address, create t.url = .ok none → ¬t.Taken := by
    rintro t hnone ⟨u,hsome,_⟩
    rw [hnone] at hsome
    cases hsome
  intro fe80 one link mapped
  have hlink : create link.url = .ok none := by decide +kernel
  have hmapped : create mapped.url = .ok none := by decide +kernel
  exact ⟨by decide +kernel,hlink,hrefused link hlink,by decide +kernel,hmapped,hrefused mapped hmapped⟩

end IPv6address

end Radixun.Http.Uri
