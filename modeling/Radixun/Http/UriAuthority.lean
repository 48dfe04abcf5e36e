import Radixun.Http.UriSegments

/-! The scheme and the authority of a URI: the port, the host and the userinfo, which share the mark. -/
namespace Radixun.Http.Uri
open Radixun.Foundation CString TextFrame UriMachine ActionMachine

variable {s pre a rest path host : Text} {query fragment : Option Text} {b : UInt8} {cs t : Nat} {x y z : Scan} {u v : Uri}

/-- What follows an authority. -/
def tail (path : Text) (query fragment : Option Text) : Text := path ++ ending query fragment

/-- What the delimiters say of the path and the query. -/
structure TailShape (path : Text) (query : Option Text) : Prop where
  rooted : path = [] ∨ ∃ r, path = 47 :: r
  path_free : Free [35,63] path
  query_free : ∀ q ∈ query, Free [35] q

def TailOk (path : Text) (query fragment : Option Text) : Prop := PathOk path ∧ EndingOk query fragment

def tailed (path : Text) (query fragment : Option Text) (v : Uri) : Uri := ended query fragment { v with path := path }

theorem tail_head (shape : TailShape path query) (hb : b ∈ (tail path query fragment).head?) : b = 47 ∨ b = 63 ∨ b = 35 := by
  rcases shape.rooted with rfl | ⟨r,rfl⟩
  · cases query <;> cases fragment <;> simp_all [tail, ending, led]
  · exact .inl (by simpa [tail, eq_comm] using hb)

section Tail
variable (shape : TailShape path query) (hin : inAuthority cs = true)
include shape hin

/-- Where the last actions of the authority leave the mark at the path. -/
theorem reads_tail (hfinal : firstFinal ≤ cs) (hclose : perform (pre ++ tail path query fragment)
      ((eofActions cs).dropLast.map fun e => (pre.length,e)) x = .ok ⟨some pre.length,v⟩) :
    Reads pre cs (tail path query fragment) x u ↔ TailOk path query fragment ∧ u = tailed path query fragment v := by
  have hmark : marked (pre ++ (path ++ ending query fragment)) (some pre.length) (pre ++ path).length = .ok path := by
    rw [← List.append_assoc]
    exact marked_span
  rw [tail] at hclose ⊢
  rw [reads_path hin shape.rooted shape.path_free shape.query_free]
  constructor
  · rintro ⟨_,hpath,hending,y,w,hy,hw,hu⟩
    rw [hclose, Except.ok.injEq] at hy
    subst hy
    rw [hmark, Except.ok.injEq] at hw
    subst hw
    exact ⟨⟨hpath,hending⟩,hu⟩
  · rintro ⟨⟨hpath,hending⟩,hu⟩
    exact ⟨hfinal,hpath,hending,_,path,hclose,hmark,hu⟩

/-- Where they leave no mark, the path cannot be stored. -/
theorem not_reads_unmarked (hclose : perform (pre ++ tail path query fragment)
      ((eofActions cs).dropLast.map fun e => (pre.length,e)) x = .ok ⟨none,v⟩) :
    ¬Reads pre cs (tail path query fragment) x u := by
  rw [tail] at hclose ⊢
  rw [reads_path hin shape.rooted shape.path_free shape.query_free]
  rintro ⟨_,_,_,y,w,hy,hw,_⟩
  rw [hclose, Except.ok.injEq] at hy
  subst hy
  cases hw

theorem not_reads_unfinished (hfinal : ¬firstFinal ≤ cs) : ¬Reads pre cs (tail path query fragment) x u := by
  rw [tail, reads_path hin shape.rooted shape.path_free shape.query_free]
  exact fun h => hfinal h.1

end Tail

section Port
variable {port : Option Text}

/-- The states of a port, the second of each pair behind its first digit. -/
def inPort : Nat → Bool := within [(514,515),(521,521),(542,542)]
/-- The states from which only the end of a userinfo is left. -/
def inUserinfo : Nat → Bool := within [(255,257)]

/-- The moves of the machine within a port. -/
structure PortMoves : Prop where
  userinfo : uriMachine.holdsOn inUserinfo (ByteClass.without 0 [35,47,63,64])
    (fun _ acts t => inUserinfo t && acts.isEmpty) = true
  other : uriMachine.holdsOn inPort (ByteClass.without 0 ([35,47] ++ List.range' 48 10 ++ [63,64]))
    (fun _ acts t => inUserinfo t && acts.isEmpty) = true
  digits : ((List.range' 48 10).all fun n => uriMachine.onByte inPort (UInt8.ofNat n) fun t o =>
    o = some (if t = 514 || t = 521 then [.mark] else [],if t ≤ 515 then 515 else 542)) = true

theorem port_moves : PortMoves := by constructor <;> decide +kernel

theorem move_digit (hin : inPort cs = true) (hb : isDigit b = true) :
    uriMachine.move cs b = some (if cs = 514 ∨ cs = 521 then [.mark] else [],if cs ≤ 515 then 515 else 542) := by
  have hmem : b.toNat ∈ List.range' 48 10 := by
    simp only [isDigit, Bool.and_eq_true, decide_eq_true_eq] at hb
    rw [List.mem_range'_1]
    omega
  have hcheck := List.all_eq_true.mp port_moves.digits b.toNat hmem
  rw [UInt8.ofNat_toNat] at hcheck
  have hbounds : 1 ≤ cs ∧ cs ≤ 560 := by
    simp only [inPort, within_cons, within_nil, or_false] at hin
    omega
  simpa using move_of_onByte hcheck hbounds.1 hbounds.2 hin

theorem not_reads_inUserinfo (shape : TailShape path query) (hin : inUserinfo cs = true) (ha : Free [35,47,63,64] a) :
    ¬Reads pre cs (a ++ tail path query fragment) x u := by
  rw [reads_quiet port_moves.userinfo ha.without hin]
  rintro ⟨t,_,ht,hread⟩
  simp only [inUserinfo, within_cons, within_nil, or_false] at ht
  have hauthority : inAuthority t = true := by
    simp only [inAuthority, within_cons, within_nil, or_false]
    omega
  apply not_reads_unfinished shape hauthority _ hread
  rw [firstFinal]
  omega

theorem move_other {acts : List Action} (hin : inPort cs = true) (hb : isDigit b = false) (hfree : b.toNat ∉ [35,47,63,64])
    (hmove : uriMachine.move cs b = some (acts,t)) : inUserinfo t = true ∧ acts = [] := by
  have hclass : (ByteClass.without 0 ([35,47] ++ List.range' 48 10 ++ [63,64])).has b = true := by
    apply ByteClass.has_without (Nat.zero_le _)
    simp only [isDigit, Bool.and_eq_false_iff, decide_eq_false_iff_not] at hb
    simp only [List.mem_append, List.mem_cons, List.mem_range'_1, List.not_mem_nil, or_false] at hfree ⊢
    omega
  have hedge := holdsOn_move port_moves.other hin hclass hmove
  rw [Bool.and_eq_true, List.isEmpty_iff] at hedge
  exact hedge

/-- Anything but a digit belongs to a userinfo. -/
theorem not_reads_other (shape : TailShape path query) (hin : inPort cs = true) (hb : isDigit b = false)
    (ha : Free [35,47,63,64] (b :: a)) : ¬Reads pre cs (b :: a ++ tail path query fragment) x u := by
  obtain ⟨hbfree,hafree⟩ := free_cons.mp ha
  rw [List.cons_append, reads_cons]
  rintro ⟨acts,t,y,hmove,_,hread⟩
  exact not_reads_inUserinfo shape (move_other hin hb hbfree hmove).1 hafree hread

theorem reads_digits (shape : TailShape path query) (hcs : cs = 515 ∨ cs = 542) (ha : Free [35,47,63,64] a) :
    Reads pre cs (a ++ tail path query fragment) x u ↔
      (∀ b ∈ a, isDigit b = true) ∧ Reads (pre ++ a) cs (tail path query fragment) x u := by
  have hin : inPort cs = true := by rcases hcs with rfl | rfl <;> decide
  induction a generalizing pre with
  | nil => simp
  | cons b a ih =>
    cases hb : isDigit b with
    | false =>
      constructor
      · exact fun h => absurd h (not_reads_other shape hin hb ha)
      · exact fun h => absurd (h.1 b List.mem_cons_self) (by simp [hb])
    | true =>
      have hmove : uriMachine.move cs b = some ([],cs) := by
        rw [move_digit hin hb]
        rcases hcs with rfl | rfl <;> rfl
      have hfree := (free_cons.mp ha).2
      rw [List.cons_append, reads_move hmove]
      simp [perform, ih hfree, hb]

def PortOk (port : Option Text) : Prop := ∀ d ∈ port, d ≠ [] ∧ ∀ b ∈ d, isDigit b = true

/-- A number is read up to what follows the authority. -/
theorem atoi_tail (shape : TailShape path query) (hne : a ≠ []) (ha : ∀ b ∈ a, isDigit b = true) :
    atoi (a ++ tail path query fragment) = atoi a := by
  have hhead : ∀ b ∈ (tail path query fragment).head?, isDigit b = false := by
    intro b hb
    obtain rfl | rfl | rfl := tail_head shape hb <;> decide
  have hempty : strtol 10 (a ++ []) = _ := strtol_number ha hne (by simp)
  rw [List.append_nil] at hempty
  rw [atoi, atoi, hempty, strtol_number ha hne hhead]

/-- At the end of its digits a port is stored. -/
theorem perform_number (shape : TailShape path query) (hcs : cs = 515 ∨ cs = 542) (hne : a ≠ []) (ha : ∀ b ∈ a, isDigit b = true) :
    perform (pre ++ a ++ tail path query fragment) ((eofActions cs).dropLast.map fun e => ((pre ++ a).length,e))
      ⟨some pre.length,v⟩ = .ok ⟨some (pre ++ a).length,{ v with port := atoi a }⟩ := by
  have hacts : (eofActions cs).dropLast = [.savePort,.mark] := by rcases hcs with rfl | rfl <;> decide
  have hdrop : (pre ++ a ++ tail path query fragment).drop pre.length = a ++ tail path query fragment := by
    rw [List.append_assoc, List.drop_left]
  have hmoved : (pre ++ a).length ≠ pre.length := by
    have hlength := List.length_pos_of_ne_nil hne
    rw [List.length_append]
    omega
  simp only [hacts, List.map_cons, List.map_nil, perform, act, if_pos hmoved, hdrop, atoi_tail shape hne ha]

/-- The digits between the colon and the path, with no place for an empty port: the mark is gone then. -/
theorem reads_number (shape : TailShape path query) (hcs : cs = 514 ∨ cs = 521) (ha : Free [35,47,63,64] a) :
    Reads pre cs (a ++ tail path query fragment) x u ↔ PortOk (some a) ∧ TailOk path query fragment ∧
      u = tailed path query fragment { x.uri with port := atoi a } := by
  have hin : inPort cs = true := by rcases hcs with rfl | rfl <;> decide
  have hauthority : inAuthority cs = true := by rcases hcs with rfl | rfl <;> decide
  cases a with
  | nil =>
    have hacts : (eofActions cs).dropLast = [.mark,.savePort] := by rcases hcs with rfl | rfl <;> decide
    have hnot : ¬Reads pre cs (tail path query fragment) x u := by
      apply not_reads_unmarked shape hauthority (v := x.uri)
      simp [hacts, perform, act]
    simp [PortOk, hnot]
  | cons b a =>
    cases hb : isDigit b with
    | false =>
      constructor
      · exact fun h => absurd h (not_reads_other shape hin hb ha)
      · exact fun h => absurd ((h.1 _ rfl).2 b List.mem_cons_self) (by simp [hb])
    | true =>
      obtain ⟨cs',hcs',hmove⟩ : ∃ cs', (cs' = 515 ∨ cs' = 542) ∧ uriMachine.move cs b = some ([.mark],cs') := by
        rw [move_digit hin hb]
        rcases hcs with rfl | rfl
        · exact ⟨515,.inl rfl,rfl⟩
        · exact ⟨542,.inr rfl,rfl⟩
      have hauthority' : inAuthority cs' = true := by rcases hcs' with rfl | rfl <;> decide
      have hfinal : firstFinal ≤ cs' := by rcases hcs' with rfl | rfl <;> decide
      have hfree := (free_cons.mp ha).2
      have hpre : pre ++ [b] ++ a = pre ++ b :: a := (List.append_cons pre b a).symm
      have hclose : (∀ d ∈ b :: a, isDigit d = true) →
          (Reads (pre ++ b :: a) cs' (tail path query fragment) ⟨some pre.length,x.uri⟩ u ↔ TailOk path query fragment ∧
            u = tailed path query fragment { x.uri with port := atoi (b :: a) }) := by
        intro hdigits
        exact reads_tail shape hauthority' hfinal (perform_number shape hcs' (List.cons_ne_nil b a) hdigits)
      rw [List.cons_append, reads_move hmove]
      simp only [List.map_singleton, perform, act, Except.ok.injEq, exists_eq_left', reads_digits shape hcs' hfree, hpre]
      constructor
      · rintro ⟨hrest,hread⟩
        have hdigits : ∀ d ∈ b :: a, isDigit d = true := List.forall_mem_cons.mpr ⟨hb,hrest⟩
        refine ⟨?_,(hclose hdigits).mp hread⟩
        rintro d hd
        obtain rfl : b :: a = d := by simpa using hd
        exact ⟨List.cons_ne_nil b a,hdigits⟩
      · rintro ⟨hok,h⟩
        have hdigits := (hok _ rfl).2
        exact ⟨fun d hd => hdigits d (List.mem_cons_of_mem _ hd),(hclose hdigits).mpr h⟩

/-- The states that can end a host. -/
def endsHost : Nat → Bool := within [(511,512),(516,520),(522,541),(543,560)]

/-- Where the mark stands at the end of a host: the states before a host are yet to set it. -/
def HostBehind (pre : Text) (cs : Nat) (x : Scan) (host : Text) : Prop :=
  if cs = 511 ∨ cs = 522 then host = [] else ∃ q, pre = q ++ host ∧ x.mark = some q.length

def closeHost (cs : Nat) : List Action := if cs = 511 ∨ cs = 522 then [.mark,.saveHost] else [.saveHost,.mark]
def colonHost (cs : Nat) : List Action := if cs = 511 ∨ cs = 522 then [.mark,.saveHost] else [.saveHost]

theorem endsHost_bounds (hin : endsHost cs = true) : 1 ≤ cs ∧ cs ≤ 560 ∧ firstFinal ≤ cs ∧ inAuthority cs = true := by
  rw [firstFinal]
  simp only [endsHost, inAuthority, within_cons, within_nil, or_false] at hin ⊢
  omega

/-- The moves of the machine at the end of a host. -/
structure HostEnds : Prop where
  acts : ∀ t ∈ List.range' 511 50, endsHost t = true → (eofActions t).dropLast = closeHost t
  colon : uriMachine.onByte endsHost 58 (fun t o =>
    o = some (colonHost t,if t = 511 || 520 = t || 543 ≤ t then 521 else 514)) = true

theorem host_ends : HostEnds := by constructor <;> decide +kernel

theorem endsHost_acts (hin : endsHost cs = true) : (eofActions cs).dropLast = closeHost cs := by
  have hbounds := endsHost_bounds hin
  apply host_ends.acts cs _ hin
  simp only [endsHost, within_cons, within_nil, or_false] at hin
  rw [List.mem_range'_1]
  omega

theorem move_colon (hin : endsHost cs = true) : ∃ t, (t = 514 ∨ t = 521) ∧ uriMachine.move cs 58 = some (colonHost cs,t) := by
  have hbounds := endsHost_bounds hin
  have hmove := of_decide_eq_true (move_of_onByte host_ends.colon hbounds.1 hbounds.2.1 hin)
  refine ⟨_,?_,hmove⟩
  split
  · exact .inr rfl
  · exact .inl rfl

theorem perform_closeHost (h : HostBehind pre cs x host) (rest : Text) :
    perform (pre ++ rest) ((closeHost cs).map fun e => (pre.length,e)) x =
      .ok ⟨some pre.length,{ x.uri with host := host }⟩ := by
  rw [HostBehind] at h
  rw [closeHost]
  split at h
  · subst h
    simp [*, perform, act, marked, Except.map]
  · obtain ⟨q,rfl,hmark⟩ := h
    simp only [*, if_false, List.map_cons, List.map_nil, perform, act, marked_span, Except.map, Option.isSome_some, if_true]

theorem perform_colonHost (h : HostBehind pre cs x host) (rest : Text) :
    ∃ m, perform (pre ++ rest) ((colonHost cs).map fun e => (pre.length,e)) x =
      .ok ⟨some m,{ x.uri with host := host }⟩ := by
  rw [HostBehind] at h
  rw [colonHost]
  split at h
  · subst h
    exact ⟨pre.length,by simp [*, perform, act, marked, Except.map]⟩
  · obtain ⟨q,rfl,hmark⟩ := h
    refine ⟨q.length,?_⟩
    simp only [*, if_false, List.map_cons, List.map_nil, perform, act, marked_span, Except.map, Option.isSome_some, if_true]

/-- The fields behind a host. -/
def placed (host : Text) (port : Option Text) (v : Uri) : Uri :=
  { v with host := host, port := (port.map atoi).getD v.port }

theorem reads_port (shape : TailShape path query) (hin : endsHost cs = true) (hport : ∀ d ∈ port, Free [35,47,63,64] d)
    (hhost : HostBehind pre cs x host) :
    Reads pre cs (led 58 port ++ tail path query fragment) x u ↔ PortOk port ∧ TailOk path query fragment ∧
      u = tailed path query fragment (placed host port x.uri) := by
  obtain ⟨_,_,hfinal,hauthority⟩ := endsHost_bounds hin
  cases port with
  | none =>
    have hclose := perform_closeHost hhost (tail path query fragment)
    rw [← endsHost_acts hin] at hclose
    rw [led, List.nil_append, reads_tail shape hauthority hfinal hclose]
    simp [PortOk, placed]
  | some d =>
    obtain ⟨t,ht,hmove⟩ := move_colon hin
    obtain ⟨m,hopen⟩ := perform_colonHost hhost (58 :: (d ++ tail path query fragment))
    rw [led, List.cons_append, reads_move hmove]
    simp only [hopen, Except.ok.injEq, exists_eq_left', reads_number shape ht (hport d rfl)]
    rfl

end Port

section Host
variable {port : Option Text}

/-- Inside a name or an address of four numbers. -/
def inName : Nat → Bool := within [(229,242),(245,254),(258,259),(512,512),(516,520),(523,541),(543,560)]
/-- Inside the brackets of an address. -/
def inBrackets : Nat → Bool := within [(260,450)]

/-- The moves of the machine within a host, a name or in brackets. -/
structure HostMoves : Prop where
  name_first : ∀ cs, cs = 511 ∨ cs = 522 → uriMachine.holdsOn (· == cs) (ByteClass.without 0 [35,47,58,63,64,91])
    (fun _ acts t => inName t && acts == [.mark]) = true
  name_quiet : uriMachine.holdsOn inName (ByteClass.without 0 [35,47,58,63,64])
    (fun _ acts t => inName t && acts.isEmpty) = true
  brackets_first : ∀ cs, cs = 511 ∨ cs = 522 →
    uriMachine.holdsOn (· == cs) (ByteClass.one 91) (fun _ acts t => inBrackets t && acts == [.mark]) = true
  brackets_quiet : uriMachine.holdsOn inBrackets (ByteClass.without 0 [35,47,63,64,93])
    (fun _ acts t => inBrackets t && acts.isEmpty) = true
  brackets_end : uriMachine.holdsOn inBrackets (ByteClass.one 93) (fun _ acts t => t == 512 && acts.isEmpty) = true
  colon_stuck : uriMachine.onByte (fun t => inName t && !endsHost t) 58 (fun _ o => o = none) = true

theorem host_moves : HostMoves := by
  constructor
  case name_first | brackets_first => rintro cs (rfl | rfl) <;> decide +kernel
  all_goals decide +kernel

/-- What the delimiters say of a host: one in brackets, or a text without a colon. -/
inductive HostShape : Text → Prop where
  | brackets {mid : Text} : Free [35,47,63,64,93] mid → HostShape (91 :: (mid ++ [93]))
  | name {host : Text} : host.head? ≠ some 91 → Free [35,47,58,63,64] host → HostShape host

theorem reads_inName (shape : TailShape path query) (hin : inName cs = true) (hport : ∀ d ∈ port, Free [35,47,63,64] d)
    (hhost : ∃ q, pre = q ++ host ∧ x.mark = some q.length) :
    Reads pre cs (led 58 port ++ tail path query fragment) x u ↔ firstFinal ≤ cs ∧ PortOk port ∧
      TailOk path query fragment ∧ u = tailed path query fragment (placed host port x.uri) := by
  have hbounds : 1 ≤ cs ∧ cs ≤ 560 ∧ inAuthority cs = true ∧ cs ≠ 511 ∧ cs ≠ 522 ∧
      (endsHost cs = true ↔ firstFinal ≤ cs) := by
    rw [firstFinal]
    simp only [inName, inAuthority, endsHost, within_cons, within_nil, or_false] at hin ⊢
    omega
  obtain ⟨hlow,hhigh,hauthority,h511,h522,hends⟩ := hbounds
  by_cases hfinal : firstFinal ≤ cs
  · have hbehind : HostBehind pre cs x host := by
      rw [HostBehind, if_neg (by simp [h511, h522])]
      exact hhost
    rw [reads_port shape (hends.mpr hfinal) hport hbehind]
    simp [hfinal]
  · have hnot : endsHost cs = false := by simpa [hfinal] using hends
    simp only [hfinal, false_and, iff_false]
    cases port with
    | none => exact not_reads_unfinished shape hauthority hfinal
    | some d =>
      apply not_reads_stuck
      simpa using move_of_onByte host_moves.colon_stuck hlow hhigh (by simp [hin, hnot])

section
variable (shape : TailShape path query) (hcs : cs = 511 ∨ cs = 522) (hport : ∀ d ∈ port, Free [35,47,63,64] d)
include shape hcs hport

theorem reads_brackets {mid : Text} (hmid : Free [35,47,63,64,93] mid) :
    Reads pre cs (91 :: (mid ++ [93]) ++ (led 58 port ++ tail path query fragment)) x u ↔
      AcceptedFrom cs (91 :: (mid ++ [93])) ∧ PortOk port ∧ TailOk path query fragment ∧
        u = tailed path query fragment (placed (91 :: (mid ++ [93])) port x.uri) := by
  have hbracket : (ByteClass.one 91).has 91 = true := by decide
  have hclass := hmid.without
  have hpre : pre ++ 91 :: mid ++ [93] = pre ++ 91 :: (mid ++ [93]) := by simp
  have hbehind : HostBehind (pre ++ 91 :: (mid ++ [93])) 512 ⟨some pre.length,x.uri⟩ (91 :: (mid ++ [93])) :=
    ⟨pre,rfl,rfl⟩
  have hport : Reads (pre ++ 91 :: (mid ++ [93])) 512 (led 58 port ++ tail path query fragment) ⟨some pre.length,x.uri⟩ u ↔ _ :=
    reads_port shape (by decide) hport hbehind
  have hclose : ∀ t, uriMachine.Leads cs (91 :: mid) t → ∀ acts t', uriMachine.move t 93 = some (acts,t') → t' = 512 ∧ acts = [] := by
    intro t hleads acts t' hmove
    have hin := leads_segment (host_moves.brackets_first cs hcs) host_moves.brackets_quiet hbracket hclass hleads
    have hedge := holdsOn_move host_moves.brackets_end hin (by decide) hmove
    rw [Bool.and_eq_true, beq_iff_eq, List.isEmpty_iff] at hedge
    exact hedge
  have hsplit : 91 :: (mid ++ [93]) ++ (led 58 port ++ tail path query fragment) =
      91 :: mid ++ 93 :: (led 58 port ++ tail path query fragment) := by simp
  rw [hsplit, reads_segment (host_moves.brackets_first cs hcs) host_moves.brackets_quiet hbracket hclass]
  constructor
  · rintro ⟨t,hleads,_,hread⟩
    obtain ⟨acts,t',y,hmove,hy,hread⟩ := reads_cons.mp hread
    obtain ⟨rfl,rfl⟩ := hclose t hleads acts t' hmove
    rw [List.map_nil, perform, Except.ok.injEq] at hy
    subst hy
    rw [hpre] at hread
    refine ⟨⟨512,?_,by decide⟩,hport.mp hread⟩
    exact leads_append.mpr ⟨t,hleads,(leads_cons uri_goes_on).mpr ⟨_,_,hmove,leads_nil.mpr rfl⟩⟩
  · rintro ⟨⟨t',hleads,_⟩,h⟩
    obtain ⟨t,hleads,hlast⟩ := leads_append.mp (show uriMachine.Leads cs (91 :: mid ++ [93]) t' from hleads)
    obtain ⟨acts,t'',hmove,hnil⟩ := (leads_cons uri_goes_on).mp hlast
    obtain ⟨rfl,rfl⟩ := hclose t hleads acts t'' hmove
    have hin := leads_segment (host_moves.brackets_first cs hcs) host_moves.brackets_quiet hbracket hclass hleads
    refine ⟨t,hleads,hin,reads_cons.mpr ⟨_,_,_,hmove,rfl,?_⟩⟩
    rw [hpre]
    exact hport.mpr h

theorem reads_name (hhead : host.head? ≠ some 91) (hfree : Free [35,47,58,63,64] host) :
    Reads pre cs (host ++ (led 58 port ++ tail path query fragment)) x u ↔ AcceptedFrom cs host ∧ PortOk port ∧
      TailOk path query fragment ∧ u = tailed path query fragment (placed host port x.uri) := by
  cases host with
  | nil =>
    have hends : endsHost cs = true := by rcases hcs with rfl | rfl <;> decide
    have hbehind : HostBehind pre cs x [] := by
      rw [HostBehind, if_pos hcs]
    have hok : AcceptedFrom cs [] := ⟨cs,leads_nil.mpr rfl,(endsHost_bounds hends).2.2.1⟩
    rw [List.nil_append, reads_port shape hends hport hbehind]
    simp [hok]
  | cons b a =>
    obtain ⟨hb,ha⟩ := free_cons.mp hfree
    have hrest := ha.without
    have hfirst : (ByteClass.without 0 [35,47,58,63,64,91]).has b = true := by
      apply ByteClass.has_without (Nat.zero_le _)
      have hne : b.toNat ≠ 91 := fun h => hhead (by simpa using UInt8.toNat_inj.mp h)
      simp only [List.mem_cons, List.not_mem_nil, or_false] at hb ⊢
      omega
    rw [reads_segment (host_moves.name_first cs hcs) host_moves.name_quiet hfirst hrest]
    constructor
    · rintro ⟨t,hleads,hin,hread⟩
      obtain ⟨hfinal,h⟩ := (reads_inName shape hin hport ⟨pre,rfl,rfl⟩).mp hread
      exact ⟨⟨t,hleads,hfinal⟩,h⟩
    · rintro ⟨⟨t,hleads,hfinal⟩,h⟩
      have hin := leads_segment (host_moves.name_first cs hcs) host_moves.name_quiet hfirst hrest hleads
      exact ⟨t,hleads,hin,(reads_inName shape hin hport ⟨pre,rfl,rfl⟩).mpr ⟨hfinal,h⟩⟩

theorem reads_host (hhost : HostShape host) :
    Reads pre cs (host ++ (led 58 port ++ tail path query fragment)) x u ↔ AcceptedFrom cs host ∧ PortOk port ∧
      TailOk path query fragment ∧ u = tailed path query fragment (placed host port x.uri) := by
  cases hhost with
  | brackets hmid => exact reads_brackets shape hcs hport hmid
  | name hhead hfree => exact reads_name shape hcs hport hhead hfree

end

end Host
end Radixun.Http.Uri
