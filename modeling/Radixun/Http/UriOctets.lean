import Radixun.Http.UriComponents

/-! Decimal octets within a host: what `dec_octet` has, and the states of the machine on the way through
one. -/
namespace Radixun.Http.Uri
open Radixun.Foundation CString TextFrame UriMachine ActionMachine

variable {cs : Nat} {a rest : Text}

/-- The octets that `dec_octet` has. -/
def decOctet (n : Nat) : Bool := n < 200 || 250 ≤ n

/-- What there is of an octet, as far as it matters to what may follow. -/
inductive OctetPart where
  | front | zero | one | two | few | oneMore | full | twoFive | last
  deriving DecidableEq

namespace OctetPart

def all : List OctetPart := [.front,.zero,.one,.two,.few,.oneMore,.full,.twoFive,.last]

/-- One more digit. -/
def next : OctetPart → UInt8 → Option OctetPart
  | .front, b => some (if b = 48 then .zero else if b = 49 then .one else if b = 50 then .two else .few)
  | .one, _ => some .oneMore
  | .two, b => some (if b = 53 then .twoFive else .full)
  | .few, _ => some .full
  | .oneMore, _ => some .last
  | .twoFive, b => if b ≤ 53 then some .last else none
  | .zero, _ | .full, _ | .last, _ => none

def run : OctetPart → Text → Option OctetPart
  | o, [] => some o
  | o, b :: a => (o.next b).bind fun o => run o a

theorem mem_all (o : OctetPart) : o ∈ all := by cases o <;> decide

theorem run_concat {o : OctetPart} {a : Text} {b : UInt8} : o.run (a ++ [b]) = (o.run a).bind fun o => o.next b := by
  induction a generalizing o with
  | nil =>
    cases h : o.next b <;> simp [run, h]
  | cons c a ih =>
    rw [List.cons_append, run, run]
    cases o.next c with
    | none => rfl
    | some o' => exact ih

end OctetPart

def decDigits : Text := text "0123456789"

/-- An octet from 200 to 249 goes one digit too far. -/
theorem octet_runs : ∀ n, n < 256 →
    (decOctet n = true → ((OctetPart.run .front (decimal n)).any (· != .front)) = true) ∧
    (decOctet n = false → OctetPart.run .front (decimal n) = none ∧
      (OctetPart.run .front (decimal n).dropLast).isSome = true) := by decide +kernel

theorem mem_decDigits {n : Nat} {b : UInt8} (hb : b ∈ decimal n) : b ∈ decDigits := by
  have hall : ∀ n, n < 256 → isDigit (UInt8.ofNat n) = true → UInt8.ofNat n ∈ decDigits := by decide +kernel
  have hbyte := hall b.toNat b.toNat_lt
  rw [UInt8.ofNat_toNat] at hbyte
  exact hbyte (isDigit_of_mem_decimal hb)

theorem xdigit_decimal {n : Nat} {b : UInt8} (hb : b ∈ decimal n) : xdigit.has b = true := by
  have hsub : ∀ b ∈ decDigits, xdigit.has b = true := by decide +kernel
  exact hsub b (mem_decDigits hb)

section Accepted
variable {t : Nat}

theorem accepted_iff_reach : AcceptedFrom cs a ↔ ∃ t, uriMachine.reach cs a = some t ∧ firstFinal ≤ t := by
  simp only [AcceptedFrom, leads_iff_reach uri_goes_on]

theorem accepted_of_reach (h : uriMachine.reach cs a = some t) : AcceptedFrom cs (a ++ rest) ↔ AcceptedFrom t rest := by
  simp only [accepted_iff_reach, reach_append, h, Option.bind_some]

theorem not_accepted (h : uriMachine.reach cs a = none) : ¬AcceptedFrom cs (a ++ rest) := by
  simp [accepted_iff_reach, reach_append, h]

theorem accepted_of_ite {c : Prop} [Decidable c] (h : uriMachine.reach cs a = if c then some t else none) :
    AcceptedFrom cs (a ++ rest) ↔ c ∧ AcceptedFrom t rest := by
  by_cases hc : c
  · rw [if_pos hc] at h
    rw [accepted_of_reach h, and_iff_right hc]
  · rw [if_neg hc] at h
    simp [not_accepted h, hc]

/-- Behind the closing bracket. -/
theorem accepted_closed : AcceptedFrom 512 [] := accepted_iff_reach.mpr ⟨512,rfl,by decide⟩

theorem reach_single {b : UInt8} : uriMachine.reach cs [b] = (uriMachine.move cs b).map (·.2) := by
  rw [reach]
  cases uriMachine.move cs b <;> rfl

end Accepted

/-- The states of one octet. -/
structure OctetStates where
  front : Nat
  zero : Nat
  one : Nat
  two : Nat
  few : Nat
  oneMore : Nat
  full : Nat
  twoFive : Nat
  last : Nat

namespace OctetStates

def place (P : OctetStates) : OctetPart → Nat
  | .front => P.front
  | .zero => P.zero
  | .one => P.one
  | .two => P.two
  | .few => P.few
  | .oneMore => P.oneMore
  | .full => P.full
  | .twoFive => P.twoFive
  | .last => P.last

def low (P : OctetStates) : Nat := (OctetPart.all.map P.place).foldl min P.front
def high (P : OctetStates) : Nat := (OctetPart.all.map P.place).foldl max P.front
def machine (P : OctetStates) : ActionMachine Action := uriMachine.between P.low P.high

/-- One digit leads to the state for what `dec_octet` has so far, else to one that `stop` does not leave. -/
def digitLeads (P : OctetStates) (stop : UInt8) (o : OctetPart) (b : UInt8) : Bool :=
  match o.next b with
  | some o' => P.machine.reach (P.place o) [b] == some (P.place o')
  | none => (P.machine.move (P.place o) b).all fun m => P.low ≤ m.2 && m.2 ≤ P.high && (P.machine.move m.2 stop).isNone

/-- The states are those of an octet with `stop` behind it, on the way to `next`. -/
def ok (P : OctetStates) (stop : UInt8) (next : Nat) : Bool :=
  OctetPart.all.all fun o => P.low ≤ P.place o && P.place o ≤ P.high && (decDigits.all fun b => P.digitLeads stop o b) &&
    (o == .front || P.machine.reach (P.place o) [stop] == some next)

section Octet
variable {P : OctetStates} {stop : UInt8} {next : Nat} (hP : P.ok stop next = true) {o o' : OctetPart} {b : UInt8}
include hP

theorem ok_part (o : OctetPart) : (P.low ≤ P.place o ∧ P.place o ≤ P.high) ∧
    (∀ b ∈ decDigits, P.digitLeads stop o b = true) ∧ (o ≠ .front → P.machine.reach (P.place o) [stop] = some next) := by
  have ho := List.all_eq_true.mp hP o o.mem_all
  simp only [Bool.and_eq_true, decide_eq_true_eq, List.all_eq_true, Bool.or_eq_true, beq_iff_eq] at ho
  obtain ⟨⟨hrange,hdigits⟩,hstop⟩ := ho
  exact ⟨hrange,hdigits,fun hfront => hstop.resolve_left hfront⟩

theorem reach_digit (hb : b ∈ decDigits) (h : o.next b = some o') :
    uriMachine.reach (P.place o) [b] = some (P.place o') := by
  have hlead := (ok_part hP o).2.1 b hb
  rw [digitLeads, h] at hlead
  exact reach_of_between (eq_of_beq hlead)

/-- The machine is where `dec_octet` is. -/
theorem reach_run (ha : ∀ b ∈ a, b ∈ decDigits) (h : o.run a = some o') :
    uriMachine.reach (P.place o) a = some (P.place o') := by
  induction a generalizing o with
  | nil =>
    obtain rfl := Option.some.inj h
    rfl
  | cons b a ih =>
    obtain ⟨hb,ha⟩ := List.forall_mem_cons.mp ha
    obtain ⟨o1,hnext,hrun⟩ := Option.bind_eq_some_iff.mp h
    rw [← List.singleton_append, reach_append, reach_digit hP hb hnext]
    exact ih ha hrun

/-- Where `dec_octet` has no more digits the machine may, but none of them ends an octet. -/
theorem reach_too_far (hb : b ∈ decDigits) (h : o.next b = none) : uriMachine.reach (P.place o) [b,stop] = none := by
  obtain ⟨hrange,hdigits,_⟩ := ok_part hP o
  have hlead := hdigits b hb
  rw [digitLeads, h, machine, between_move hrange.1 hrange.2] at hlead
  rw [reach]
  cases hmove : uriMachine.move (P.place o) b with
  | none => rfl
  | some m =>
    simp only [hmove, Option.all_some, Bool.and_eq_true, decide_eq_true_eq, Option.isNone_iff_eq_none] at hlead
    rw [between_move hlead.1.1 hlead.1.2] at hlead
    rw [Option.bind_some, reach, hlead.2]
    rfl

theorem reach_octet {n : Nat} (hn : n < 256) :
    uriMachine.reach P.front (decimal n ++ [stop]) = if decOctet n then some next else none := by
  obtain ⟨htaken,hbarred⟩ := octet_runs n hn
  have hfront : P.front = P.place .front := rfl
  cases hoctet : decOctet n with
  | true =>
    obtain ⟨o,hrun,hne⟩ := (Option.any_eq_true _ _).mp (htaken hoctet)
    rw [hfront, reach_append, reach_run hP (fun b => mem_decDigits) hrun, Option.bind_some]
    exact reach_of_between ((ok_part hP o).2.2 (by simpa using hne))
  | false =>
    obtain ⟨hnone,hsome⟩ := hbarred hoctet
    obtain ⟨o,hrun⟩ := Option.isSome_iff_exists.mp hsome
    have hsplit := List.dropLast_append_getLast (decimal_ne_nil n)
    have hdigits : ∀ b ∈ decimal n, b ∈ decDigits := fun b => mem_decDigits
    rw [← hsplit, OctetPart.run_concat, hrun, Option.bind_some] at hnone
    rw [← hsplit] at hdigits ⊢
    obtain ⟨hinit,hlast⟩ := List.forall_mem_append.mp hdigits
    rw [hfront, List.append_assoc, reach_append, reach_run hP hinit hrun, Option.bind_some]
    exact reach_too_far hP (hlast _ (List.mem_singleton_self _)) hnone

theorem accepted_octet {n : Nat} (hn : n < 256) :
    AcceptedFrom P.front (decimal n ++ stop :: rest) ↔ decOctet n = true ∧ AcceptedFrom next rest := by
  rw [List.append_cons, accepted_of_ite (reach_octet hP hn)]

end Octet
end OctetStates

/-- The second and the third octet, and the last one with the bracket behind it. -/
def secondOctet : OctetStates := ⟨294,297,314,316,315,315,297,317,297⟩
def thirdOctet : OctetStates := ⟨298,301,310,312,311,311,301,313,301⟩
def fourthOctet : OctetStates := ⟨302,305,306,308,307,307,305,309,305⟩

theorem secondOctet_ok : secondOctet.ok 46 298 = true := by decide +kernel
theorem thirdOctet_ok : thirdOctet.ok 46 302 = true := by decide +kernel
theorem fourthOctet_ok : fourthOctet.ok 93 512 = true := by decide +kernel

end Radixun.Http.Uri
