import Radixun.Http.UriUserinfo

/-! The parts of a URI with a scheme and an authority, as its delimiters split it, against the fields
`create` leaves. -/
namespace Radixun.Http.Uri
open Radixun.Foundation CString TextFrame UriMachine ActionMachine

variable {s pre a rest : Text} {b : UInt8} {cs t : Nat} {x y : Scan} {u v : Uri}

section Scheme

/-- Inside the first segment of a relative path. -/
def inRelative : Nat → Bool := within [(3,4),(452,452)]

/-- The moves of the machine within a scheme or the first segment of a relative path, and behind a scheme. -/
structure SchemeMoves : Prop where
  first : uriMachine.holdsOn (· == 451) (ByteClass.without 0 [35,47,58,63])
    (fun _ acts t => (t == 508 && acts == [.mark]) || (inRelative t && acts.isEmpty)) = true
  quiet : uriMachine.holdsOn (fun t => t == 508 || inRelative t) (ByteClass.without 0 [35,47,58,63])
    (fun _ acts t => (t == 508 || inRelative t) && acts.isEmpty) = true
  relative : uriMachine.holdsOn inRelative (ByteClass.without 0 [35,47,58,63])
    (fun _ acts t => inRelative t && acts.isEmpty) = true
  relative_colon : uriMachine.onByte inRelative 58 (fun _ o => o = none) = true
  colon : uriMachine.move 508 58 = some ([.saveScheme],509)
  start_colon : uriMachine.move start 58 = none
  slashes : uriMachine.move 509 47 = some ([],510) ∧ uriMachine.move 510 47 = some ([],511)
  brackets_bare : uriMachine.holdsOn (· == 512) (ByteClass.without 0 [35,47,58,63]) (fun _ _ _ => false) = true

theorem scheme_moves : SchemeMoves := by constructor <;> decide +kernel

theorem move_relative_colon (hin : inRelative cs = true) : uriMachine.move cs 58 = none := by
  have hbounds : 1 ≤ cs ∧ cs ≤ 560 := by
    simp only [inRelative, within_cons, within_nil, or_false] at hin
    omega
  exact of_decide_eq_true (move_of_onByte scheme_moves.relative_colon hbounds.1 hbounds.2 hin)

/-- A colon ends a scheme; in the first segment of a relative path there is none. -/
theorem reads_scheme (ha : Free [35,47,58,63] a) : Reads [] start (a ++ 58 :: rest) ⟨none,init⟩ u ↔
    uriMachine.Leads start a 508 ∧ Reads (a ++ [58]) 509 rest ⟨none,{ init with scheme := a }⟩ u := by
  have hcolon := scheme_moves.colon
  cases a with
  | nil =>
    have hstuck := scheme_moves.start_colon
    have hne : ¬uriMachine.Leads start [] 508 := by rw [leads_nil]; decide
    simp [not_reads_stuck hstuck, hne]
  | cons b a =>
    obtain ⟨hb,ha⟩ := free_cons.mp ha
    have hclass := ByteClass.has_without (Nat.zero_le _) hb
    have hfirst : ∀ acts t, uriMachine.move start b = some (acts,t) →
        (t = 508 ∧ acts = [.mark]) ∨ (inRelative t = true ∧ acts = []) := by
      intro acts t hmove
      simpa using holdsOn_move scheme_moves.first (by decide) hclass hmove
    have hclose : perform (b :: a ++ 58 :: rest) [((b :: a).length,.saveScheme)] ⟨some 0,init⟩ =
        .ok ⟨none,{ init with scheme := b :: a }⟩ := by
      simp [perform, act, marked, Except.map]
    have hpre : [] ++ [b] ++ a = b :: a := by simp
    rw [List.cons_append, reads_cons]
    constructor
    · rintro ⟨acts,t,y,hmove,hy,hread⟩
      rcases hfirst acts t hmove with ⟨rfl,rfl⟩ | ⟨hin,rfl⟩
      · obtain rfl : ⟨some 0,init⟩ = y := by simpa [perform, act] using hy
        obtain ⟨t,hleads,hin,hread⟩ := (reads_quiet scheme_moves.quiet ha.without (by decide)).mp hread
        rcases Bool.or_eq_true_iff.mp hin with h508 | hrel
        · obtain rfl := beq_iff_eq.mp h508
          obtain ⟨z,hz,hread⟩ := (reads_move hcolon).mp hread
          rw [hpre] at hz hread
          obtain rfl := Except.ok.inj (hclose.symm.trans hz)
          exact ⟨(leads_cons uri_goes_on).mpr ⟨_,508,hmove,hleads⟩,hread⟩
        · exact absurd hread (not_reads_stuck (move_relative_colon hrel))
      · obtain ⟨t,_,hin,hread⟩ := (reads_quiet scheme_moves.relative ha.without hin).mp hread
        exact absurd hread (not_reads_stuck (move_relative_colon hin))
    · rintro ⟨hleads,hread⟩
      obtain ⟨acts,t,hmove,hrest⟩ := (leads_cons uri_goes_on).mp hleads
      rcases hfirst acts t hmove with ⟨rfl,rfl⟩ | ⟨hin,rfl⟩
      · refine ⟨_,508,⟨some 0,init⟩,hmove,by simp [perform, act],?_⟩
        apply (reads_quiet scheme_moves.quiet ha.without (by decide)).mpr
        refine ⟨508,hrest,by decide,(reads_move hcolon).mpr ⟨⟨none,{ init with scheme := b :: a }⟩,?_,?_⟩⟩
        · rw [hpre]
          exact hclose
        · rw [hpre]
          exact hread
      · have hend := (leads_quiet uri_goes_on scheme_moves.relative ha.without hin hrest).1
        exact absurd hend (by decide)

/-- Two slashes behind the scheme begin an authority. -/
theorem reads_slashes {cs' : Nat} (hcs : cs = 509 ∧ cs' = 510 ∨ cs = 510 ∧ cs' = 511) :
    Reads pre cs (47 :: rest) x u ↔ Reads (pre ++ [47]) cs' rest x u := by
  have hmove : uriMachine.move cs 47 = some ([],cs') := by
    rcases hcs with ⟨rfl,rfl⟩ | ⟨rfl,rfl⟩
    · exact scheme_moves.slashes.1
    · exact scheme_moves.slashes.2
  rw [reads_move hmove]
  simp [perform]

end Scheme

/-- An optional component in front of its delimiter. -/
def trailed (d : UInt8) : Option Text → Text
  | none => []
  | some a => a ++ [d]

structure Components where
  scheme : Text
  userinfo : Option Text
  host : Text
  port : Option Text
  path : Text
  query : Option Text
  fragment : Option Text
  deriving DecidableEq

namespace Components

def authority (c : Components) : Text := trailed 64 c.userinfo ++ c.host ++ led 58 c.port

/-- The parts with their delimiters. -/
def glue (c : Components) : Text :=
  c.scheme ++ text "://" ++ c.authority ++ c.path ++ led 63 c.query ++ led 35 c.fragment

/-- No part has a delimiter in it that would end it earlier. -/
structure Shaped (c : Components) : Prop where
  scheme : Free [35,47,58,63] c.scheme
  userinfo : ∀ w ∈ c.userinfo, Free [35,47,63,64] w
  host : HostShape c.host
  port : ∀ d ∈ c.port, Free [35,47,63,64] d
  tail : TailShape c.path c.query

/-- What the machine asks of each part. -/
structure Valid (c : Components) : Prop where
  scheme : uriMachine.Leads start c.scheme 508
  userinfo : ∀ w ∈ c.userinfo, UserinfoOk w
  host : AcceptedFrom (if c.userinfo.isSome then 522 else 511) c.host
  port : PortOk c.port
  tail : TailOk c.path c.query c.fragment

/-- The fields `create` leaves. -/
def stored (c : Components) : Uri where
  scheme := c.scheme
  userinfo := (c.userinfo.map keptUserinfo).getD []
  host := c.host
  port := (c.port.map atoi).getD 0
  path := c.path
  query := c.query.getD []
  fragment := c.fragment.getD []

def portNumber (c : Components) : Nat := digits 10 (c.port.getD []) 0

/-- The fields that are the parts themselves. -/
def fields (c : Components) : Uri where
  scheme := c.scheme
  userinfo := c.userinfo.getD []
  host := c.host
  port := c.portNumber
  path := c.path
  query := c.query.getD []
  fragment := c.fragment.getD []

theorem create_glue_iff {c : Components} (h : c.Shaped) : create c.glue = .ok (some u) ↔ c.Valid ∧ u = c.stored := by
  obtain ⟨scheme,userinfo,host,port,path,query,fragment⟩ := c
  have hslashes : text "://" = [58,47,47] := by decide
  have hglue : ∀ o, (⟨scheme,o,host,port,path,query,fragment⟩ : Components).glue =
      scheme ++ 58 :: 47 :: 47 :: (trailed 64 o ++ (host ++ (led 58 port ++ tail path query fragment))) := by
    intro o
    simp [glue, authority, hslashes, tail, ending]
  rw [create_eq_some, hglue, reads_scheme h.scheme, reads_slashes (.inl ⟨rfl,rfl⟩), reads_slashes (.inr ⟨rfl,rfl⟩)]
  cases userinfo with
  | none =>
    rw [trailed, List.nil_append, reads_host h.tail (.inl rfl) h.port h.host]
    constructor
    · rintro ⟨hscheme,hhost,hport,htail,hu⟩
      exact ⟨⟨hscheme,by simp,hhost,hport,htail⟩,hu⟩
    · rintro ⟨hvalid,hu⟩
      exact ⟨hvalid.scheme,hvalid.host,hvalid.port,hvalid.tail,hu⟩
  | some w =>
    obtain ⟨g,huser⟩ := reads_userinfo (h.userinfo w rfl) (scheme ++ [58] ++ [47] ++ [47])
      (host ++ (led 58 port ++ tail path query fragment)) ⟨none,{ init with scheme := scheme }⟩
    have hjoin : w ++ [64] ++ (host ++ (led 58 port ++ tail path query fragment)) =
        w ++ 64 :: (host ++ (led 58 port ++ tail path query fragment)) := List.append_assoc ..
    rw [trailed, hjoin, huser, reads_host h.tail (.inr rfl) h.port h.host]
    constructor
    · rintro ⟨hscheme,huserinfo,hhost,hport,htail,hu⟩
      exact ⟨⟨hscheme,by simpa using huserinfo,hhost,hport,htail⟩,hu⟩
    · rintro ⟨hvalid,hu⟩
      exact ⟨hvalid.scheme,hvalid.userinfo w rfl,hvalid.host,hvalid.port,hvalid.tail,hu⟩

/-- A port number of at most 65535 is stored as it is. -/
theorem atoi_small {d : Text} (hne : d ≠ []) (hd : ∀ b ∈ d, isDigit b = true) (hsmall : digits 10 d 0 ≤ 65535) :
    atoi d = digits 10 d 0 := by
  have hnumber : strtol 10 (d ++ []) = _ := strtol_number hd hne (by simp)
  rw [List.append_nil] at hnumber
  rw [atoi, hnumber, toInt, Int.bmod_def]
  omega

theorem stored_eq_fields {c : Components} (hport : PortOk c.port) (hsmall : c.portNumber ≤ 65535) :
    c.stored = c.fields ↔ ∀ w ∈ c.userinfo, colonDigit w = false := by
  obtain ⟨scheme,userinfo,host,port,path,query,fragment⟩ := c
  rw [portNumber] at hsmall
  have hnumber : (port.map atoi).getD 0 = digits 10 (port.getD []) 0 := by
    cases port with
    | none => rfl
    | some d => exact atoi_small (hport d rfl).1 (hport d rfl).2 hsmall
  have huserinfo : (userinfo.map keptUserinfo).getD [] = userinfo.getD [] ↔ ∀ w ∈ userinfo, colonDigit w = false := by
    cases userinfo with
    | none => simp
    | some w => simp [kept_iff]
  simp only [stored, fields, portNumber, hnumber, Uri.mk.injEq, true_and, and_true, huserinfo]

end Components

/-- A text up to the first of some bytes. -/
theorem split_at (ds : List Nat) (a : Text) :
    ∃ l r, a = l ++ r ∧ Free ds l ∧ (r = [] ∨ ∃ b r', r = b :: r' ∧ b.toNat ∈ ds) := by
  induction a with
  | nil => exact ⟨[],[],rfl,fun b hb => absurd hb List.not_mem_nil,.inl rfl⟩
  | cons b a ih =>
    by_cases hb : b.toNat ∈ ds
    · exact ⟨[],b :: a,rfl,fun b hb => absurd hb List.not_mem_nil,.inr ⟨b,a,rfl,hb⟩⟩
    · obtain ⟨l,r,rfl,hl,hr⟩ := ih
      exact ⟨b :: l,r,rfl,free_cons.mpr ⟨hb,hl⟩,hr⟩

theorem byte_eq {n : Nat} (h : b.toNat = n) : b = UInt8.ofNat n := by rw [← h, UInt8.ofNat_toNat]

theorem ending_split {r : Text} (hr : r = [] ∨ ∃ b r', r = b :: r' ∧ b.toNat ∈ [35,63]) :
    ∃ query fragment, r = ending query fragment ∧ ∀ q ∈ query, Free [35] q := by
  rcases hr with rfl | ⟨b,q,rfl,hb⟩
  · exact ⟨none,none,rfl,by simp⟩
  · have hb : b = 35 ∨ b = 63 := by
      simp only [List.mem_cons, List.not_mem_nil, or_false] at hb
      rcases hb with hb | hb
      · exact .inl (byte_eq hb)
      · exact .inr (byte_eq hb)
    rcases hb with rfl | rfl
    · exact ⟨none,some q,rfl,by simp⟩
    · obtain ⟨query,r2,rfl,hquery,hr2⟩ := split_at [35] q
      rcases hr2 with rfl | ⟨b,f,rfl,hb⟩
      · exact ⟨some query,none,by simp [ending, led],by simpa using hquery⟩
      · obtain rfl : b = 35 := byte_eq (by simpa using hb)
        exact ⟨some query,some f,rfl,by simpa using hquery⟩

theorem tail_split {r : Text} (hr : r = [] ∨ ∃ b r', r = b :: r' ∧ b.toNat ∈ [35,47,63]) :
    ∃ path query fragment, r = tail path query fragment ∧ TailShape path query := by
  obtain ⟨path,r1,rfl,hpath,hr1⟩ := split_at [35,63] r
  have hrooted : path = [] ∨ ∃ r, path = 47 :: r := by
    cases path with
    | nil => exact .inl rfl
    | cons b p =>
      have hb := (free_cons.mp hpath).1
      obtain ⟨b',r',heq,hb'⟩ : ∃ b' r', b :: p ++ r1 = b' :: r' ∧ b'.toNat ∈ [35,47,63] := by simpa using hr
      obtain rfl : b = b' := by simpa using (List.cons.inj heq).1
      simp only [List.mem_cons, List.not_mem_nil, or_false] at hb hb'
      exact .inr ⟨p,by rw [byte_eq (show b.toNat = 47 by omega)]; rfl⟩
  obtain ⟨query,fragment,rfl,hquery⟩ := ending_split hr1
  exact ⟨path,query,fragment,rfl,hrooted,hpath,hquery⟩

theorem free_append {ds : List Nat} {l r : Text} : Free ds (l ++ r) ↔ Free ds l ∧ Free ds r := List.forall_mem_append

theorem free_both {ds es fs : List Nat} (h : Free ds a) (h' : Free es a) (hsub : fs ⊆ ds ++ es) : Free fs a := by
  intro b hb hmem
  rcases List.mem_append.mp (hsub hmem) with hd | he
  · exact h b hb hd
  · exact h' b hb he

/-- An accepted address in brackets is closed, and only a port can follow. -/
theorem brackets_split {r path : Text} {query fragment : Option Text} (shape : TailShape path query)
    (hcs : cs = 511 ∨ cs = 522) (hfree : Free [35,47,63,64] r)
    (h : Reads pre cs (91 :: r ++ tail path query fragment) x u) :
    ∃ mid port, r = mid ++ [93] ++ led 58 port ∧ Free [35,47,63,64,93] mid ∧ ∀ d ∈ port, Free [35,47,63,64] d := by
  obtain ⟨mid,r1,rfl,hmid,hr1⟩ := split_at [93] r
  obtain ⟨hmidfree,hr1free⟩ := free_append.mp hfree
  have hmid' : Free [35,47,63,64,93] mid := free_both hmidfree hmid (by simp)
  have hbracket : (ByteClass.one 91).has 91 = true := by decide
  have hsplit : 91 :: (mid ++ r1) ++ tail path query fragment = 91 :: mid ++ (r1 ++ tail path query fragment) := by simp
  rw [hsplit, reads_segment (host_moves.brackets_first cs hcs) host_moves.brackets_quiet hbracket hmid'.without] at h
  obtain ⟨t,_,hin,hread⟩ := h
  rcases hr1 with rfl | ⟨b,r2,rfl,hb⟩
  · have hbounds : inAuthority t = true ∧ ¬firstFinal ≤ t := by
      rw [firstFinal]
      simp only [inBrackets, inAuthority, within_cons, within_nil, or_false] at hin ⊢
      omega
    exact absurd hread (not_reads_unfinished shape hbounds.1 hbounds.2)
  · obtain rfl : b = 93 := byte_eq (by simpa using hb)
    obtain ⟨acts,t',y,hmove,_,hread⟩ := reads_cons.mp hread
    have hedge := holdsOn_move host_moves.brackets_end hin (by decide) hmove
    rw [Bool.and_eq_true, beq_iff_eq] at hedge
    obtain ⟨rfl,_⟩ := hedge
    obtain ⟨_,hr2⟩ := free_cons.mp hr1free
    cases r2 with
    | nil => exact ⟨mid,none,by simp [led],hmid',by simp⟩
    | cons b d =>
      obtain ⟨hb,hd⟩ := free_cons.mp hr2
      by_cases hcolon : b = 58
      · subst hcolon
        exact ⟨mid,some d,by simp [led],hmid',by simpa using hd⟩
      · have hne : b.toNat ≠ 58 := fun h => hcolon (byte_eq h)
        obtain ⟨acts,t,_,hmove,_⟩ := reads_cons.mp hread
        have hclass : (ByteClass.without 0 [35,47,58,63]).has b = true := by
          apply ByteClass.has_without (Nat.zero_le _)
          simp only [List.mem_cons, List.not_mem_nil, or_false] at hb ⊢
          omega
        exact absurd (holdsOn_move scheme_moves.brackets_bare (by decide) hclass hmove) Bool.false_ne_true

/-- What the machine accepts behind the userinfo splits into a host and a port. -/
theorem host_split {hp path : Text} {query fragment : Option Text} (shape : TailShape path query) (hcs : cs = 511 ∨ cs = 522)
    (hfree : Free [35,47,63,64] hp) (h : Reads pre cs (hp ++ tail path query fragment) x u) :
    ∃ host port, hp = host ++ led 58 port ∧ HostShape host ∧ ∀ d ∈ port, Free [35,47,63,64] d := by
  by_cases hhead : hp.head? = some 91
  · obtain ⟨r,rfl⟩ := List.head?_eq_some_iff.mp hhead
    obtain ⟨mid,port,rfl,hmid,hport⟩ := brackets_split shape hcs (free_cons.mp hfree).2 h
    exact ⟨91 :: (mid ++ [93]),port,rfl,.brackets hmid,hport⟩
  · obtain ⟨host,r,rfl,hhost,hr⟩ := split_at [58] hp
    obtain ⟨hhostfree,hrfree⟩ := free_append.mp hfree
    have hname : Free [35,47,58,63,64] host := free_both hhost hhostfree (by simp)
    have hne : host.head? ≠ some 91 := by
      intro h91
      apply hhead
      rw [List.head?_append, h91]
      rfl
    rcases hr with rfl | ⟨b,d,rfl,hb⟩
    · exact ⟨host,none,rfl,.name hne hname,by simp⟩
    · obtain rfl : b = 58 := byte_eq (by simpa using hb)
      exact ⟨host,some d,rfl,.name hne hname,by simpa using (free_cons.mp hrfree).2⟩

/-- Every accepted text with a scheme and an authority splits at its delimiters. -/
theorem exists_components {scheme : Text} (h : create s = .ok (some u)) (hs : s = scheme ++ text "://" ++ rest)
    (hscheme : Free [35,47,58,63] scheme) : ∃ c : Components, c.Shaped ∧ c.glue = s := by
  subst hs
  have hslashes : text "://" = [58,47,47] := by decide
  have hjoin : scheme ++ text "://" ++ rest = scheme ++ 58 :: 47 :: 47 :: rest := by simp [hslashes]
  rw [hjoin, create_eq_some, reads_scheme hscheme, reads_slashes (.inl ⟨rfl,rfl⟩), reads_slashes (.inr ⟨rfl,rfl⟩)] at h
  obtain ⟨_,hread⟩ := h
  obtain ⟨authority,r,rfl,hauthority,hr⟩ := split_at [35,47,63] rest
  obtain ⟨path,query,fragment,rfl,shape⟩ := tail_split hr
  obtain ⟨w,r1,rfl,hw,hr1⟩ := split_at [64] authority
  obtain ⟨hwfree,hr1free⟩ := free_append.mp hauthority
  have hwboth : Free [35,47,63,64] w := free_both hwfree hw (by simp)
  rcases hr1 with rfl | ⟨b,hp,rfl,hb⟩
  · rw [List.append_nil] at hread
    obtain ⟨host,port,rfl,hhost,hport⟩ := host_split shape (.inl rfl) hwboth hread
    refine ⟨⟨scheme,none,host,port,path,query,fragment⟩,⟨hscheme,by simp,hhost,hport,shape⟩,?_⟩
    simp [Components.glue, Components.authority, trailed, tail, ending]
  · obtain rfl : b = 64 := byte_eq (by simpa using hb)
    have hassoc : w ++ 64 :: hp ++ tail path query fragment = w ++ 64 :: (hp ++ tail path query fragment) := by simp
    rw [hassoc] at hread
    obtain ⟨g,huser⟩ := reads_userinfo hwboth _ _ _
    obtain ⟨_,hread⟩ := (huser u).mp hread
    have hhp : Free [64] hp := by
      obtain ⟨h1,r2,rfl,hh1,hr2⟩ := split_at [64] hp
      rcases hr2 with rfl | ⟨b,r3,rfl,hb⟩
      · simpa using hh1
      · obtain rfl : b = 64 := byte_eq (by simpa using hb)
        have hh1free := (free_append.mp (free_cons.mp hr1free).2).1
        have hat : h1 ++ 64 :: r3 ++ tail path query fragment = h1 ++ 64 :: (r3 ++ tail path query fragment) := by simp
        rw [hat] at hread
        obtain ⟨t,_,hleads,_,hread⟩ := reads_append.mp hread
        exact absurd hread (not_reads_stuck (not_at_past (by decide) (free_both hh1free hh1 (by simp)) hleads))
    have hboth : Free [35,47,63,64] hp := free_both (free_cons.mp hr1free).2 hhp (by simp)
    obtain ⟨host,port,rfl,hhost,hport⟩ := host_split shape (.inr rfl) hboth hread
    refine ⟨⟨scheme,some w,host,port,path,query,fragment⟩,⟨hscheme,by simpa using hwboth,hhost,hport,shape⟩,?_⟩
    simp [Components.glue, Components.authority, trailed, tail, ending]

/-- The fields are the parts between the delimiters, unless a digit follows the first colon of the userinfo. -/
theorem components_stored_iff {scheme : Text} (h : create s = .ok (some u)) (hs : s = scheme ++ text "://" ++ rest)
    (hscheme : Free [35,47,58,63] scheme) :
    (∃ c : Components, c.Shaped ∧ c.glue = s) ∧ ∀ c : Components, c.Shaped → c.glue = s → c.portNumber ≤ 65535 →
      (u = c.fields ↔ ∀ w ∈ c.userinfo, colonDigit w = false) := by
  refine ⟨exists_components h hs hscheme,?_⟩
  rintro c hshape rfl hsmall
  obtain ⟨hvalid,rfl⟩ := (Components.create_glue_iff hshape).mp h
  exact Components.stored_eq_fields hvalid.port hsmall

/-- All the parts there can be, with a colon in the userinfo. -/
theorem components_stored_example :
    let u : Uri := ⟨text "http",text "me:x",text "[::1]",text "/a",text "q=1",text "f",8080⟩
    create (text "http://me:x@[::1]:8080/a?q=1#f") = .ok (some u) ∧
      ∀ c : Components, c.Shaped → c.glue = text "http://me:x@[::1]:8080/a?q=1#f" → c.portNumber ≤ 65535 →
        (u = c.fields ↔ ∀ w ∈ c.userinfo, colonDigit w = false) := by
  intro u
  have hcreate : create (text "http://me:x@[::1]:8080/a?q=1#f") = .ok (some u) := by decide +kernel
  have hsplit : text "http://me:x@[::1]:8080/a?q=1#f" = text "http" ++ text "://" ++ text "me:x@[::1]:8080/a?q=1#f" := by
    decide +kernel
  exact ⟨hcreate,(components_stored_iff hcreate hsplit (by decide +kernel)).2⟩

/-- A password of digits: all that is stored of the userinfo is what follows its colon. -/
theorem userinfo_cut :
    let c : Components := ⟨text "http",some (text "user:80"),text "h",none,text "/",none,none⟩
    c.Shaped ∧ c.glue = text "http://user:80@h/" ∧ c.portNumber ≤ 65535 ∧
      create c.glue = .ok (some ⟨text "http",text "80",text "h",text "/",[],[],0⟩) ∧ c.fields.userinfo = text "user:80" := by
  intro c
  have hshape : c.Shaped := by
    refine ⟨by decide +kernel,?_,.name (by decide +kernel) (by decide +kernel),by decide +kernel,?_⟩
    · decide +kernel
    · exact ⟨.inr ⟨[],by decide +kernel⟩,by decide +kernel,by decide +kernel⟩
  exact ⟨hshape,by decide +kernel,by decide +kernel,by decide +kernel,by decide +kernel⟩

end Radixun.Http.Uri
