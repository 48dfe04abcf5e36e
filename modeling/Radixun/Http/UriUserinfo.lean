import Radixun.Http.UriAuthority

/-! The userinfo of a URI. The machine takes it for a host and a port until the `@`, so that a digit
behind its first colon moves the mark. -/
namespace Radixun.Http.Uri
open Radixun.Foundation CString TextFrame UriMachine ActionMachine

variable {s pre w a c rest : Text} {b : UInt8} {cs t t' : Nat} {acts : List Action} {x y : Scan} {u v : Uri}

/-- Inside what may be a host or a userinfo. -/
def inFirst : Nat → Bool := within [(229,242),(245,254),(258,450),(512,512),(516,520),(523,541),(543,560)]
/-- Where only a host or a port can be. -/
def pastUserinfo : Nat → Bool := within [(229,242),(245,252),(258,450),(512,512),(514,519),(522,541)]
/-- Behind the byte after the first colon. -/
def inSecond : Nat → Bool := within [(255,257),(542,542)]

/-- The moves of the machine within a userinfo, before its colon and behind it. -/
structure UserinfoMoves : Prop where
  first_first : uriMachine.holdsOn (· == 511) (ByteClass.without 0 [35,47,58,63,64])
    (fun _ acts t => inFirst t && acts == [.mark]) = true
  first_quiet : uriMachine.holdsOn inFirst (ByteClass.without 0 [35,47,58,63,64])
    (fun _ acts t => inFirst t && acts.isEmpty) = true
  first_at : uriMachine.onByte inFirst 64 (fun _ o => o = none || o = some ([.saveUserinfo],522)) = true
  first_colon : uriMachine.holdsOn inFirst (ByteClass.one 58)
    (fun _ acts t => (acts == [.saveHost] && t == 521) || pastUserinfo t) = true
  past_closed : uriMachine.holdsOn pastUserinfo (ByteClass.without 0 [35,47,63,64]) (fun _ _ t => pastUserinfo t) = true
  past_at : uriMachine.onByte pastUserinfo 64 (fun _ o => o = none) = true
  second_quiet : uriMachine.holdsOn inSecond (ByteClass.without 0 [35,47,63,64])
    (fun _ acts t => inSecond t && acts.isEmpty) = true
  second_at : uriMachine.onByte (fun t => t == 521 || inSecond t) 64
    (fun _ o => o = none || o = some ([.saveUserinfo],522)) = true
  none_at : uriMachine.move 511 64 = some ([.mark,.saveUserinfo],522)
  none_colon : uriMachine.move 511 58 = some ([.mark,.saveHost],521)

theorem userinfo_moves : UserinfoMoves := by constructor <;> decide +kernel

/-- What follows the first colon. -/
def afterColon (w : Text) : Text := fieldValue w
/-- A digit follows the first colon. -/
def colonDigit (w : Text) : Bool := (afterColon w).head?.any isDigit
/-- What is stored of a userinfo. -/
def keptUserinfo (w : Text) : Text := if colonDigit w then afterColon w else w

def UserinfoOk (w : Text) : Prop := ∃ t, uriMachine.Leads 511 w t ∧ (uriMachine.move t 64).isSome = true

theorem afterColon_append (ha : 58 ∉ a) : afterColon (a ++ 58 :: c) = c := fieldValue_append ha c

theorem afterColon_plain (ha : 58 ∉ a) : afterColon a = [] := by
  have hall : a.dropWhile (· ≠ 58) = [] := by
    rw [List.dropWhile_eq_nil_iff]
    intro b hb
    exact decide_eq_true fun h => ha (h ▸ hb)
  rw [afterColon, fieldValue, hall]
  rfl

theorem afterColon_length (w : Text) : (afterColon w).length ≤ w.length - 1 := by
  have hle := (List.dropWhile_suffix (fun b : UInt8 => decide (b ≠ 58)) (l := w)).length_le
  rw [afterColon, fieldValue, List.length_drop]
  omega

theorem not_at_past (hin : pastUserinfo cs = true) (hc : Free [35,47,63,64] c) (h : uriMachine.Leads cs c t) :
    uriMachine.move t 64 = none := by
  induction c generalizing cs with
  | nil =>
    obtain rfl := leads_nil.mp h
    have hbounds : 1 ≤ t ∧ t ≤ 560 := by
      simp only [pastUserinfo, within_cons, within_nil, or_false] at hin
      omega
    exact of_decide_eq_true (move_of_onByte userinfo_moves.past_at hbounds.1 hbounds.2 hin)
  | cons b c ih =>
    obtain ⟨hb,hc⟩ := free_cons.mp hc
    obtain ⟨acts,t',hmove,hrest⟩ := (leads_cons uri_goes_on).mp h
    exact ih (holdsOn_move userinfo_moves.past_closed hin (ByteClass.has_without (Nat.zero_le _) hb) hmove) hc hrest

/-- Up to the `@` without a colon. -/
theorem userinfo_plain (hw : Free [35,47,58,63,64] w) (h : uriMachine.Leads 511 w t)
    (hat : uriMachine.move t 64 = some (acts,t')) (pre rest : Text) (x : Scan) :
    t' = 522 ∧ perform (pre ++ w ++ rest) (uriMachine.events 511 pre.length w ++ acts.map fun e => ((pre ++ w).length,e)) x =
      .ok ⟨none,{ x.uri with userinfo := w }⟩ := by
  cases w with
  | nil =>
    obtain rfl := leads_nil.mp h
    have hmove := userinfo_moves.none_at
    obtain ⟨rfl,rfl⟩ : acts = [.mark,.saveUserinfo] ∧ t' = 522 := by simpa [hmove, eq_comm] using hat
    refine ⟨rfl,?_⟩
    simp [events, perform, act, marked, Except.map]
  | cons b a =>
    obtain ⟨hb,ha⟩ := free_cons.mp hw
    have hclass := ByteClass.has_without (Nat.zero_le _) hb
    have hin := leads_segment userinfo_moves.first_first userinfo_moves.first_quiet hclass ha.without h
    have hbounds : 1 ≤ t ∧ t ≤ 560 := by
      simp only [inFirst, within_cons, within_nil, or_false] at hin
      omega
    have hmove := move_of_onByte userinfo_moves.first_at hbounds.1 hbounds.2 hin
    obtain ⟨rfl,rfl⟩ : acts = [.saveUserinfo] ∧ t' = 522 := by simpa [hat] using hmove
    refine ⟨rfl,?_⟩
    rw [events_segment userinfo_moves.first_first userinfo_moves.first_quiet hclass ha.without h]
    simp only [List.singleton_append, List.map_singleton, perform, act, marked_span, Option.isSome_some, if_true, Except.map]

/-- The first colon, in a text that an `@` can follow, is taken for the end of a host. -/
theorem userinfo_colon (ha : Free [35,47,58,63,64] a) (hc : Free [35,47,63,64] c)
    (h : uriMachine.Leads 511 (a ++ 58 :: c) t) (hat : uriMachine.move t 64 ≠ none) :
    uriMachine.Leads 521 c t ∧ uriMachine.Leads 511 (a ++ [58]) 521 ∧ ∀ pre rest x, perform (pre ++ a ++ rest)
      (uriMachine.events 511 pre.length (a ++ [58])) x = .ok ⟨some pre.length,{ x.uri with host := a }⟩ := by
  obtain ⟨t0,hfirst,hrest⟩ := leads_append.mp h
  obtain ⟨acts,t1,hmove,hsecond⟩ := (leads_cons uri_goes_on).mp hrest
  have hleads : uriMachine.Leads 511 (a ++ [58]) t1 :=
    leads_append.mpr ⟨t0,hfirst,(leads_cons uri_goes_on).mpr ⟨acts,t1,hmove,leads_nil.mpr rfl⟩⟩
  have hevents : ∀ p, uriMachine.events 511 p (a ++ [58]) =
      uriMachine.events 511 p a ++ acts.map fun e => (p + a.length,e) := by
    intro p
    rw [events_append hfirst, events_cons uri_goes_on hmove]
    exact congrArg _ (List.append_nil _)
  cases a with
  | nil =>
    obtain rfl := leads_nil.mp hfirst
    have hcolon := userinfo_moves.none_colon
    obtain ⟨rfl,rfl⟩ : acts = [.mark,.saveHost] ∧ t1 = 521 := by simpa [hcolon, eq_comm] using hmove
    refine ⟨hsecond,hleads,?_⟩
    intro pre rest x
    rw [hevents]
    simp [events, perform, act, marked, Except.map]
  | cons b a =>
    obtain ⟨hb,ha⟩ := free_cons.mp ha
    have hclass := ByteClass.has_without (Nat.zero_le _) hb
    have hin := leads_segment userinfo_moves.first_first userinfo_moves.first_quiet hclass ha.without hfirst
    have hedge := holdsOn_move userinfo_moves.first_colon hin (by decide) hmove
    rw [Bool.or_eq_true, Bool.and_eq_true, beq_iff_eq, beq_iff_eq] at hedge
    rcases hedge with ⟨rfl,rfl⟩ | hpast
    · refine ⟨hsecond,hleads,?_⟩
      intro pre rest x
      have hspan : marked (pre ++ b :: a ++ rest) (some pre.length) (pre.length + (b :: a).length) = .ok (b :: a) := by
        rw [← List.length_append]
        exact marked_span
      rw [hevents, events_segment userinfo_moves.first_first userinfo_moves.first_quiet hclass ha.without hfirst]
      simp only [List.singleton_append, List.map_singleton, perform, act, hspan, Option.isSome_some, if_true, Except.map]
    · exact absurd (not_at_past hpast hc hsecond) hat

/-- Behind the first colon a digit moves the mark, as if a port began there. -/
theorem userinfo_second (hc : Free [35,47,63,64] c) (h : uriMachine.Leads 521 c t)
    (hat : uriMachine.move t 64 = some (acts,t')) (pre a rest : Text) (v : Uri) :
    t' = 522 ∧ perform (pre ++ (a ++ c) ++ rest) (uriMachine.events 521 (pre ++ a).length c ++
      acts.map fun e => ((pre ++ (a ++ c)).length,e)) ⟨some pre.length,v⟩ =
        .ok ⟨none,{ v with userinfo := if c.head?.any isDigit then c else a ++ c }⟩ := by
  have hacts : 1 ≤ t ∧ t ≤ 560 → (t == 521 || inSecond t) = true → acts = [.saveUserinfo] ∧ t' = 522 := by
    intro hbounds hin
    have hmove := move_of_onByte userinfo_moves.second_at hbounds.1 hbounds.2 hin
    simpa [hat] using hmove
  have hsecond : inSecond t = true → acts = [.saveUserinfo] ∧ t' = 522 := by
    intro hin
    have hbounds : 1 ≤ t ∧ t ≤ 560 := by
      simp only [inSecond, within_cons, within_nil, or_false] at hin
      omega
    exact hacts hbounds (by rw [hin, Bool.or_true])
  cases c with
  | nil =>
    obtain rfl := leads_nil.mp h
    obtain ⟨rfl,rfl⟩ := hacts (by decide) (by decide)
    refine ⟨rfl,?_⟩
    have hspan : marked (pre ++ (a ++ []) ++ rest) (some pre.length) (pre ++ (a ++ [])).length = .ok (a ++ []) := marked_span
    simp only [events, walk_nil, List.nil_append, List.map_singleton, perform, act, hspan, Option.isSome_some, if_true, Except.map,
      List.head?_nil, Option.any_none, Bool.false_eq_true, if_false]
  | cons d r =>
    obtain ⟨hd,hr⟩ := free_cons.mp hc
    obtain ⟨acts0,t0,hmove,hrest⟩ := (leads_cons uri_goes_on).mp h
    cases hdigit : isDigit d with
    | true =>
      have hdigitmove : uriMachine.move 521 d = some ([.mark],542) := move_digit (by decide) hdigit
      obtain ⟨rfl,rfl⟩ : acts0 = [.mark] ∧ t0 = 542 := by simpa [hdigitmove, eq_comm] using hmove
      obtain ⟨hin,hnone⟩ := leads_quiet uri_goes_on userinfo_moves.second_quiet hr.without (by decide) hrest
      obtain ⟨rfl,rfl⟩ := hsecond hin
      refine ⟨rfl,?_⟩
      have hspan : marked (pre ++ (a ++ d :: r) ++ rest) (some (pre ++ a).length) (pre ++ (a ++ d :: r)).length = .ok (d :: r) := by
        rw [← List.append_assoc]
        exact marked_span
      rw [events_cons uri_goes_on hmove, hnone]
      simp only [List.append_nil, List.singleton_append, List.map_singleton, perform, act, hspan, Option.isSome_some, if_true,
        Except.map, List.head?_cons, Option.any_some, hdigit]
    | false =>
      obtain ⟨hin0,rfl⟩ := move_other (by decide) hdigit hd hmove
      have hin1 : inSecond t0 = true := by
        simp only [inUserinfo, inSecond, within_cons, within_nil, or_false] at hin0 ⊢
        exact .inl hin0
      obtain ⟨hin,hnone⟩ := leads_quiet uri_goes_on userinfo_moves.second_quiet hr.without hin1 hrest
      obtain ⟨rfl,rfl⟩ := hsecond hin
      refine ⟨rfl,?_⟩
      have hspan : marked (pre ++ (a ++ d :: r) ++ rest) (some pre.length) (pre ++ (a ++ d :: r)).length = .ok (a ++ d :: r) :=
        marked_span
      rw [events_cons uri_goes_on hmove, hnone]
      simp only [List.append_nil, List.map_nil, List.nil_append, List.map_singleton, perform, act, hspan, Option.isSome_some,
        if_true, Except.map, List.head?_cons, Option.any_some, hdigit, Bool.false_eq_true, if_false]

theorem keptUserinfo_colon (ha : 58 ∉ a) :
    keptUserinfo (a ++ 58 :: c) = if c.head?.any isDigit then c else a ++ 58 :: c := by
  rw [keptUserinfo, colonDigit, afterColon_append ha]

theorem keptUserinfo_plain (ha : 58 ∉ a) : keptUserinfo a = a := by
  rw [keptUserinfo, colonDigit, afterColon_plain ha]
  rfl

theorem kept_iff : keptUserinfo w = w ↔ colonDigit w = false := by
  rw [keptUserinfo]
  cases hdigit : colonDigit w with
  | true =>
    simp only [if_true, Bool.true_eq_false, iff_false]
    intro hw
    have hlength := afterColon_length w
    rw [hw] at hlength
    obtain rfl : w = [] := List.length_eq_zero_iff.mp (by omega)
    cases hdigit
  | false => simp

theorem free_colon (ha : Free [35,47,63,64] a) (hcolon : 58 ∉ a) : Free [35,47,58,63,64] a := by
  intro b hb
  have hne : b.toNat ≠ 58 := fun h => hcolon (UInt8.toNat_inj.mp (show b.toNat = (58 : UInt8).toNat from h) ▸ hb)
  have hfree := ha b hb
  simp only [List.mem_cons, List.not_mem_nil, or_false] at hfree ⊢
  omega

theorem userinfo_run (hw : Free [35,47,63,64] w) (h : uriMachine.Leads 511 w t)
    (hat : uriMachine.move t 64 = some (acts,t')) (pre rest : Text) (x : Scan) : t' = 522 ∧ ∃ g, perform (pre ++ w ++ rest)
      (uriMachine.events 511 pre.length w ++ acts.map fun e => ((pre ++ w).length,e)) x =
        .ok ⟨none,{ x.uri with userinfo := keptUserinfo w, host := g }⟩ := by
  by_cases hcolon : 58 ∈ w
  · obtain ⟨a,c,rfl,ha⟩ := List.eq_append_cons_of_mem hcolon
    obtain ⟨hwa,hwc⟩ := List.forall_mem_append.mp hw
    have hc : Free [35,47,63,64] c := fun b hb => hwc b (List.mem_cons_of_mem _ hb)
    obtain ⟨hsecond,hcolonleads,hfirst⟩ := userinfo_colon (free_colon hwa ha) hc h (by rw [hat]; exact Option.some_ne_none _)
    obtain ⟨rfl,hrun⟩ := userinfo_second hc hsecond hat pre (a ++ [58]) rest { x.uri with host := a }
    have hsplit : a ++ 58 :: c = a ++ [58] ++ c := by simp
    have hevents : uriMachine.events 511 pre.length (a ++ 58 :: c) =
        uriMachine.events 511 pre.length (a ++ [58]) ++ uriMachine.events 521 (pre ++ (a ++ [58])).length c := by
      have hlength : (pre ++ (a ++ [58])).length = pre.length + (a ++ [58]).length := List.length_append
      rw [hsplit, events_append hcolonleads, hlength]
    have hopen : perform (pre ++ (a ++ 58 :: c) ++ rest) (uriMachine.events 511 pre.length (a ++ [58])) x =
        .ok ⟨some pre.length,{ x.uri with host := a }⟩ := by
      have h := hfirst pre (58 :: c ++ rest) x
      simpa using h
    refine ⟨rfl,a,?_⟩
    rw [keptUserinfo_colon ha, hevents, List.append_assoc (uriMachine.events 511 pre.length (a ++ [58])), perform_append]
    refine ⟨_,hopen,?_⟩
    rw [hsplit]
    exact hrun
  · rw [keptUserinfo_plain hcolon]
    obtain ⟨rfl,hrun⟩ := userinfo_plain (free_colon hw hcolon) h hat pre rest x
    exact ⟨rfl,x.uri.host,hrun⟩

theorem reads_userinfo (hw : Free [35,47,63,64] w) (pre rest : Text) (x : Scan) : ∃ g, ∀ u, Reads pre 511 (w ++ 64 :: rest) x u ↔
    UserinfoOk w ∧ Reads (pre ++ (w ++ [64])) 522 rest ⟨none,{ x.uri with userinfo := keptUserinfo w, host := g }⟩ u := by
  have hpre : pre ++ w ++ [64] = pre ++ (w ++ [64]) := List.append_assoc ..
  by_cases hok : UserinfoOk w
  · obtain ⟨t,hleads,hsome⟩ := hok
    obtain ⟨⟨acts,t'⟩,hat⟩ := Option.isSome_iff_exists.mp hsome
    obtain ⟨rfl,g,hrun⟩ := userinfo_run hw hleads hat pre (64 :: rest) x
    refine ⟨g,?_⟩
    intro u
    rw [reads_append]
    rw [perform_append] at hrun
    obtain ⟨y,hy,hz⟩ := hrun
    rw [List.append_assoc] at hy
    constructor
    · rintro ⟨t',y',hleads',hy',hread⟩
      obtain rfl : t = t' := Stop.more.inj (hleads.symm.trans hleads')
      obtain rfl : y = y' := Except.ok.inj (hy.symm.trans hy')
      obtain ⟨z,hz',hread⟩ := (reads_move hat).mp hread
      rw [hz, Except.ok.injEq] at hz'
      subst hz'
      rw [hpre] at hread
      exact ⟨⟨t,hleads,hsome⟩,hread⟩
    · rintro ⟨_,hread⟩
      refine ⟨t,y,hleads,hy,(reads_move hat).mpr ⟨_,hz,?_⟩⟩
      rw [hpre]
      exact hread
  · refine ⟨[],?_⟩
    intro u
    simp only [hok, false_and, iff_false, reads_append, not_exists]
    rintro t y ⟨hleads,hy,hread⟩
    obtain ⟨acts,t',z,hat,_⟩ := reads_cons.mp hread
    exact hok ⟨t,hleads,by rw [hat]; rfl⟩

end Radixun.Http.Uri
