import Radixun.Http.UriComponents

/-! Parts of a URI in another place: a host that has lost the userinfo before it, and the end of a userinfo
as a userinfo of its own. -/
namespace Radixun.Http.Uri
open Radixun.Foundation CString TextFrame UriMachine ActionMachine

variable {c w host : Text} {b : UInt8} {cs t : Nat}

section Host

/-- In a host behind a userinfo. -/
def behindAt : Nat → Bool := within [(258,259),(522,541)]
/-- The state the same host has without one. -/
def bare (cs : Nat) : Nat := if cs = 522 then 511 else if cs = 523 then 520 else if cs < 300 then cs - 5 else cs + 19

/-- The moves of the machine within a host, with a userinfo before it and without. -/
structure BareMoves : Prop where
  behind : uriMachine.move 522 91 = some ([.mark],260)
  without : uriMachine.move 511 91 = some ([.mark],260)
  alike : uriMachine.alikeOn behindAt (ByteClass.without 0 [35,47,58,63,64]) bare
    (fun t t' => t' == t || (behindAt t && t' == bare t)) = true

theorem bare_moves : BareMoves := by constructor <;> decide +kernel

/-- A host behind a userinfo is one without. -/
theorem host_bare (hshape : HostShape host) (h : AcceptedFrom 522 host) : AcceptedFrom 511 host := by
  obtain ⟨t,hleads,hfinal⟩ := h
  cases hshape with
  | brackets hmid =>
    obtain ⟨acts,t0,hmove,hrest⟩ := (leads_cons uri_goes_on).mp hleads
    obtain ⟨rfl,rfl⟩ : acts = [.mark] ∧ t0 = 260 := by simpa [bare_moves.behind, eq_comm] using hmove
    exact ⟨t,(leads_cons uri_goes_on).mpr ⟨_,_,bare_moves.without,hrest⟩,hfinal⟩
  | name hhead hfree =>
    have hmatch : ∀ s s', (s' = s ∨ behindAt s = true ∧ s' = bare s) → ∀ b acts s1,
        (ByteClass.without 0 [35,47,58,63,64]).has b = true → uriMachine.move s b = some (acts,s1) →
          ∃ acts' s1', uriMachine.move s' b = some (acts',s1') ∧ (s1' = s1 ∨ behindAt s1 = true ∧ s1' = bare s1) := by
      rintro s s' (rfl | ⟨hin,rfl⟩) b acts s1 hb hmove
      · exact ⟨acts,s1,hmove,.inl rfl⟩
      · obtain ⟨acts',s1',hmove',hrel⟩ := alikeOn_move bare_moves.alike hin hb hmove
        exact ⟨acts',s1',hmove',by simpa using hrel⟩
    obtain ⟨t',hleads',hrel⟩ := leads_matched uri_goes_on hmatch hfree.without (.inr ⟨by decide,rfl⟩) hleads
    refine ⟨t',hleads',?_⟩
    rw [firstFinal] at hfinal ⊢
    rcases hrel with rfl | ⟨hin,rfl⟩
    · exact hfinal
    · simp only [behindAt, within_cons, within_nil, or_false] at hin
      rw [bare]
      split
      · omega
      · split
        · omega
        · split <;> omega

end Host

section Userinfo

/-- How far a state is inside an escape. -/
def escape (cs : Nat) : Nat := if cs = 253 ∨ cs = 256 then 1 else if cs = 254 ∨ cs = 257 then 2 else 0

/-- The characters of a userinfo, with escapes of two digits. -/
def escapeStep (k : Nat) (b : UInt8) : Option Nat :=
  if k = 0 then (if b = 37 then some 1 else if UriMachine.userinfo.has b then some 0 else none)
  else if xdigit.has b then some ((k + 1) % 3) else none

/-- The states of a text that an `@` can follow. -/
def beforeAt : Nat → Bool := within [(253,257),(520,521),(542,560)]

def plainBytes : List UInt8 := ((List.range 256).map UInt8.ofNat).filter fun b => b.toNat ∉ [35,47,63,64]

theorem mem_plainBytes (hb : b.toNat ∉ [35,47,63,64]) : b ∈ plainBytes := by
  rw [plainBytes, List.mem_filter, List.mem_map]
  exact ⟨⟨b.toNat,List.mem_range.mpr b.toNat_lt,UInt8.ofNat_toNat⟩,decide_eq_true hb⟩

/-- What the machine makes of the characters before an `@`. -/
structure EscapeMoves : Prop where
  second : uriMachine.onBytes inSecond plainBytes (fun t b o =>
    o.all fun r => escapeStep (escape t) b = some (escape r.2)) = true
  before : uriMachine.onBytes beforeAt plainBytes (fun t b o =>
    (escapeStep (escape t) b).all fun k => o.any fun r => beforeAt r.2 && escape r.2 == k) = true
  before_at : uriMachine.onByte beforeAt 64 (fun t o => o.isSome = decide (escape t = 0)) = true
  digit : uriMachine.onBytes (· == 511) ((List.range' 48 10).map UInt8.ofNat)
    (fun _ _ o => o.any fun r => beforeAt r.2 && escape r.2 == 0) = true

theorem escape_moves : EscapeMoves := by constructor <;> decide +kernel

theorem inSecond_bounds (hin : inSecond t = true) : 1 ≤ t ∧ t ≤ 560 ∧ beforeAt t = true := by
  simp only [inSecond, beforeAt, within_cons, within_nil, or_false] at hin ⊢
  omega

theorem beforeAt_bounds (hin : beforeAt t = true) : 1 ≤ t ∧ t ≤ 560 := by
  simp only [beforeAt, within_cons, within_nil, or_false] at hin
  omega

theorem move_at (hin : beforeAt t = true) : (uriMachine.move t 64).isSome = decide (escape t = 0) := by
  obtain ⟨hlow,hhigh⟩ := beforeAt_bounds hin
  exact of_decide_eq_true (move_of_onByte escape_moves.before_at hlow hhigh hin)

theorem row_of_bounds (hlow : 1 ≤ t) (hhigh : t ≤ 560) : t ∈ uriMachine.rows.map (·.1) := by
  rw [uri_rows, List.mem_range'_1]
  omega

/-- The end of a userinfo, moved to where a userinfo may begin or go on. -/
theorem userinfo_suffix (hs : inSecond cs = true) (ht : beforeAt t = true) (hescape : escape t = escape cs)
    (hc : Free [35,47,63,64] c) {cs' : Nat} (h : uriMachine.Leads cs c cs') :
    ∃ t', uriMachine.Leads t c t' ∧ inSecond cs' = true ∧ beforeAt t' = true ∧ escape t' = escape cs' := by
  have hmatch : ∀ s t, (inSecond s = true ∧ beforeAt t = true ∧ escape t = escape s) → ∀ b acts s', b.toNat ∉ [35,47,63,64] →
      uriMachine.move s b = some (acts,s') → ∃ acts' t', uriMachine.move t b = some (acts',t') ∧
        (inSecond s' = true ∧ beforeAt t' = true ∧ escape t' = escape s') := by
    rintro s t ⟨hs,ht,hescape⟩ b acts s' hb hmove
    obtain ⟨hslow,hshigh,_⟩ := inSecond_bounds hs
    obtain ⟨htlow,hthigh⟩ := beforeAt_bounds ht
    have hsecond := holdsOn_move userinfo_moves.second_quiet hs (ByteClass.has_without (Nat.zero_le _) hb) hmove
    rw [Bool.and_eq_true] at hsecond
    have hstep := onBytes_move escape_moves.second (mem_plainBytes hb) (row_of_bounds hslow hshigh) hs
    have hother := onBytes_move escape_moves.before (mem_plainBytes hb) (row_of_bounds htlow hthigh) ht
    rw [hmove, Option.all_some, decide_eq_true_eq] at hstep
    rw [hescape, hstep, Option.all_some] at hother
    obtain ⟨r,hr,hrin⟩ := (Option.any_eq_true _ _).mp hother
    rw [Bool.and_eq_true, beq_iff_eq] at hrin
    exact ⟨r.1,r.2,hr,hsecond.1,hrin.1,hrin.2⟩
  exact leads_matched uri_goes_on hmatch hc ⟨hs,ht,hescape⟩ h

/-- What is stored of a userinfo is one. -/
theorem keptUserinfo_ok (hw : Free [35,47,63,64] w) (h : UserinfoOk w) : UserinfoOk (keptUserinfo w) := by
  cases hdigit : colonDigit w with
  | false => rwa [kept_iff.mpr hdigit]
  | true =>
    have hcolon : 58 ∈ w := by
      by_contra hnot
      rw [colonDigit, afterColon_plain hnot] at hdigit
      cases hdigit
    obtain ⟨a,c,rfl,ha⟩ := List.eq_append_cons_of_mem hcolon
    obtain ⟨hwa,hwc⟩ := free_append.mp hw
    obtain ⟨_,hc⟩ := free_cons.mp hwc
    rw [colonDigit, afterColon_append ha] at hdigit
    rw [keptUserinfo_colon ha, if_pos hdigit]
    obtain ⟨t,hleads,hat⟩ := h
    obtain ⟨hsecond,_,_⟩ := userinfo_colon (free_colon hwa ha) hc hleads fun h => by rw [h] at hat; cases hat
    cases c with
    | nil => cases hdigit
    | cons d r =>
      have hd : isDigit d = true := hdigit
      have hmem : d ∈ (List.range' 48 10).map UInt8.ofNat := by
        simp only [isDigit, Bool.and_eq_true, decide_eq_true_eq] at hd
        rw [List.mem_map]
        exact ⟨d.toNat,by rw [List.mem_range'_1]; omega,UInt8.ofNat_toNat⟩
      have hmove : uriMachine.move 521 d = some ([.mark],542) := move_digit (by decide) hd
      obtain ⟨acts,t0,hmove0,hrest⟩ := (leads_cons uri_goes_on).mp hsecond
      obtain ⟨rfl,rfl⟩ : acts = [.mark] ∧ t0 = 542 := by simpa [hmove, eq_comm] using hmove0
      have hrow : 511 ∈ uriMachine.rows.map (·.1) := row_of_bounds (by decide) (by decide)
      have hfirst := onBytes_move escape_moves.digit hmem hrow (by decide)
      obtain ⟨r0,hr0,hin0⟩ := (Option.any_eq_true _ _).mp hfirst
      rw [Bool.and_eq_true, beq_iff_eq] at hin0
      have hescape0 : escape r0.2 = escape 542 := hin0.2
      obtain ⟨t',hleads',hin,hbefore,hescape⟩ := userinfo_suffix (by decide) hin0.1 hescape0 (free_cons.mp hc).2 hrest
      refine ⟨t',(leads_cons uri_goes_on).mpr ⟨r0.1,r0.2,hr0,hleads'⟩,?_⟩
      rw [move_at hbefore, hescape, ← move_at (inSecond_bounds hin).2.2]
      exact hat

end Userinfo

end Radixun.Http.Uri
