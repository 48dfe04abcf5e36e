import Radixun.Http.UriContexts

/-! What `create` makes of a printed URI. -/
namespace Radixun.Http.Uri
open Radixun.Foundation CString TextFrame UriMachine ActionMachine

variable {s pre a c w rest : Text} {b : UInt8} {cs t : Nat} {x y : Scan} {u v : Uri}

section Printing

def ifFilled (a : Text) : Option Text := if a = [] then none else some a

/-- The parts of the printed form. -/
def printed (u : Uri) : Components where
  scheme := u.scheme
  userinfo := ifFilled u.userinfo
  host := u.host
  port := if u.isDefaultPort then none else some (printInt u.port)
  path := u.getPath
  query := ifFilled u.query
  fragment := ifFilled u.fragment

theorem toText_eq_glue (u : Uri) : u.toText = (printed u).glue := by
  have hled : ∀ d a, led d (ifFilled a) = (if a = [] then [] else [d]) ++ a := by
    intro d a
    rw [ifFilled]
    split
    · next h => simp [led, h]
    · rfl
  have huserinfo : trailed 64 (ifFilled u.userinfo) = u.userinfo ++ (if u.userinfo = [] then [] else [64]) := by
    rw [ifFilled]
    split
    · next h => simp [trailed, h]
    · rfl
  have hport : led 58 (if u.isDefaultPort then none else some (printInt u.port)) =
      if u.isDefaultPort then [] else 58 :: printInt u.port := by
    split <;> rfl
  have htext : text "@" = [64] ∧ text ":" = [58] ∧ text "?" = [63] ∧ text "#" = [35] := by decide
  rw [Components.glue, Components.authority, toText]
  simp only [printed, hled, huserinfo, hport, htext, List.append_assoc, List.singleton_append]

def SameGetters (u v : Uri) : Prop :=
  u.scheme = v.scheme ∧ u.userinfo = v.userinfo ∧ u.host = v.host ∧ u.getPort = v.getPort ∧ u.getPath = v.getPath ∧
    u.query = v.query ∧ u.fragment = v.fragment

/-- Printed and read again, the fields are the same. -/
def Stable (u : Uri) : Prop := ∃ v, create u.toText = .ok (some v) ∧ SameGetters u v

/-- The parts of the printed form are what the machine asks of them, the number of the port apart. -/
structure Printable (u : Uri) : Prop where
  scheme_free : Free [35,47,58,63] u.scheme
  scheme : uriMachine.Leads start u.scheme 508
  userinfo_free : Free [35,47,63,64] u.userinfo
  userinfo : UserinfoOk u.userinfo
  host_shape : HostShape u.host
  host : AcceptedFrom 511 u.host
  host_behind : u.userinfo ≠ [] → AcceptedFrom 522 u.host
  port : u.port < 2^31
  tail_shape : TailShape u.path (some u.query)
  tail : TailOk u.path (some u.query) (some u.fragment)

theorem printInt_free (n : Int) : Free [35,47,63,64] (printInt n) := by
  have hdecimal : Free [35,47,63,64] (decimal n.natAbs) := by
    intro b hb
    have hdigit := isDigit_of_mem_decimal hb
    simp only [isDigit, Bool.and_eq_true, decide_eq_true_eq] at hdigit
    simp only [List.mem_cons, List.not_mem_nil, or_false]
    omega
  rw [printInt]
  split
  · exact free_append.mpr ⟨by decide,hdecimal⟩
  · exact hdecimal

theorem portOk_printInt (n : Int) : PortOk (some (printInt n)) ↔ 0 ≤ n := by
  rw [printInt]
  constructor
  · intro h
    by_contra hneg
    rw [if_pos (by omega)] at h
    have hdigit := (h _ rfl).2 45 (List.mem_append_left _ (by decide))
    cases hdigit
  · intro h
    rw [if_neg (by omega)]
    rintro d hd
    obtain rfl : decimal n.natAbs = d := by simpa using hd
    exact ⟨decimal_ne_nil _,fun b hb => isDigit_of_mem_decimal hb⟩

theorem atoi_printInt {n : Int} (hlow : 0 ≤ n) (hhigh : n < 2^31) : atoi (printInt n) = n := by
  have hnumber : strtol 10 (decimal n.natAbs ++ []) = _ :=
    strtol_number (fun b hb => isDigit_of_mem_decimal hb) (decimal_ne_nil _) (by simp)
  rw [List.append_nil, digits_decimal] at hnumber
  rw [printInt, if_neg (by omega), atoi, hnumber, toInt, Int.bmod_def]
  omega

theorem ifFilled_getD (a : Text) : (ifFilled a).getD [] = a := by
  rw [ifFilled]
  split
  · next h => exact h.symm
  · rfl

theorem mem_ifFilled (h : c ∈ ifFilled a) : c = a ∧ a ≠ [] := by
  rw [ifFilled] at h
  split at h
  · cases h
  · next hne => exact ⟨by simpa [eq_comm] using h,hne⟩

theorem printed_shaped (h : Printable u) : (printed u).Shaped where
  scheme := h.scheme_free
  userinfo := by
    intro w hw
    rw [(mem_ifFilled hw).1]
    exact h.userinfo_free
  host := h.host_shape
  port := by
    intro d hd
    obtain ⟨_,rfl⟩ : u.isDefaultPort = false ∧ printInt u.port = d := by simpa [printed] using hd
    exact printInt_free u.port
  tail := by
    refine ⟨?_,?_,?_⟩
    · rcases h.tail_shape.rooted with hpath | ⟨r,hpath⟩
      · exact .inr ⟨[],by rw [printed, getPath, if_pos hpath]; rfl⟩
      · have hget : u.getPath = u.path := by rw [getPath, if_neg (by simp [hpath])]
        exact .inr ⟨r,hget.trans hpath⟩
    · show Free [35,63] u.getPath
      rw [getPath]
      split
      · decide
      · exact h.tail_shape.path_free
    · intro q hq
      rw [(mem_ifFilled hq).1]
      exact h.tail_shape.query_free _ rfl

theorem defaultPort_nonneg (h : u.isDefaultPort = true) : 0 ≤ u.port := by
  rw [isDefaultPort] at h
  split at h
  · omega
  · split at h
    · have := of_decide_eq_true h
      omega
    · split at h
      · have := of_decide_eq_true h
        omega
      · cases h

theorem printed_valid (h : Printable u) : (printed u).Valid ↔ 0 ≤ u.port := by
  constructor
  · intro hvalid
    cases hdefault : u.isDefaultPort with
    | true => exact defaultPort_nonneg hdefault
    | false =>
      have hport := hvalid.port
      simp only [printed, hdefault] at hport
      exact (portOk_printInt u.port).mp hport
  · intro hnonneg
    refine ⟨h.scheme,?_,?_,?_,?_,?_⟩
    · intro w hw
      rw [(mem_ifFilled hw).1]
      exact h.userinfo
    · show AcceptedFrom (if (ifFilled u.userinfo).isSome then 522 else 511) u.host
      rw [ifFilled]
      split
      · exact h.host
      · next hne => exact h.host_behind hne
    · show PortOk (if u.isDefaultPort then none else some (printInt u.port))
      split
      · simp [PortOk]
      · exact (portOk_printInt u.port).mpr hnonneg
    · show PathOk u.getPath
      rw [getPath]
      split
      · intro r hr
        obtain rfl : [] = r := by simpa using List.tail_eq_of_cons_eq hr
        exact ⟨513,leads_nil.mpr rfl,by decide⟩
      · exact h.tail.1
    · obtain ⟨hquery,hfragment⟩ := h.tail.2
      refine ⟨?_,?_⟩
      · intro q hq
        rw [(mem_ifFilled hq).1]
        exact hquery _ rfl
      · intro f hf
        rw [(mem_ifFilled hf).1]
        exact hfragment _ rfl

/-- A hidden port is the one of the scheme, and any other comes back. -/
theorem getPort_printed (hlow : 0 ≤ u.port) (hhigh : u.port < 2^31) : (printed u).stored.getPort = u.getPort := by
  have hscheme : (printed u).stored.scheme = u.scheme := rfl
  cases hdefault : u.isDefaultPort with
  | true =>
    have hport : (printed u).stored.port = 0 := by
      rw [Components.stored, printed, hdefault]
      rfl
    rw [getPort, getPort, hport, hscheme, if_neg (by decide)]
    rw [isDefaultPort] at hdefault
    split at hdefault
    · next h0 => simp [h0]
    · next hne =>
      rw [if_pos hne]
      split at hdefault
      · next hhttp => rw [if_pos hhttp, of_decide_eq_true hdefault]
      · next hhttp =>
        rw [if_neg hhttp]
        split at hdefault
        · next hhttps => rw [if_pos hhttps, of_decide_eq_true hdefault]
        · cases hdefault
  | false =>
    have hport : (printed u).stored.port = u.port := by
      rw [Components.stored, printed, hdefault]
      exact atoi_printInt hlow hhigh
    rw [getPort, getPort, hport, hscheme]

theorem stable_iff (h : Printable u) : Stable u ↔ colonDigit u.userinfo = false ∧ 0 ≤ u.port := by
  have huserinfo : (printed u).stored.userinfo = keptUserinfo u.userinfo := by
    show ((ifFilled u.userinfo).map keptUserinfo).getD [] = _
    rw [ifFilled]
    split
    · next hempty => rw [hempty]; rfl
    · rfl
  have hpath : (printed u).stored.getPath = u.getPath := by
    show (if u.getPath = [] then text "/" else u.getPath) = u.getPath
    rw [if_neg]
    rw [getPath]
    split
    · decide
    · assumption
  have hcreate : ∀ v, create u.toText = .ok (some v) ↔ 0 ≤ u.port ∧ v = (printed u).stored := by
    intro v
    rw [toText_eq_glue, Components.create_glue_iff (printed_shaped h), printed_valid h]
  rw [← kept_iff]
  constructor
  · rintro ⟨v,hv,_,hsame,_⟩
    obtain ⟨hnonneg,rfl⟩ := (hcreate v).mp hv
    exact ⟨huserinfo.symm.trans hsame.symm,hnonneg⟩
  · rintro ⟨hkept,hnonneg⟩
    refine ⟨(printed u).stored,(hcreate _).mpr ⟨hnonneg,rfl⟩,rfl,?_,rfl,?_,hpath.symm,?_,?_⟩
    · rw [huserinfo, hkept]
    · exact (getPort_printed hnonneg h.port).symm
    · exact (ifFilled_getD u.query).symm
    · exact (ifFilled_getD u.fragment).symm

end Printing
section Stored
variable {c : Components}

theorem keptUserinfo_free {ds : List Nat} (hw : Free ds w) : Free ds (keptUserinfo w) := by
  rw [keptUserinfo]
  split
  · intro b hb
    exact hw b ((List.dropWhile_suffix _).subset (List.mem_of_mem_drop hb))
  · exact hw

theorem colonDigit_kept (w : Text) : colonDigit (keptUserinfo w) = (colonDigit w && colonDigit (afterColon w)) := by
  cases hdigit : colonDigit w with
  | true => rw [keptUserinfo, if_pos hdigit, Bool.true_and]
  | false => rw [kept_iff.mpr hdigit, hdigit, Bool.false_and]

theorem atoi_lt (d : Text) : atoi d < 2^31 := by
  rw [atoi, toInt, Int.bmod_def]
  omega

/-- Of a number beyond 64 bits the largest one stays, and of that the lower 32 bits with their sign. -/
theorem atoi_nonneg {d : Text} (hne : d ≠ []) (hd : ∀ b ∈ d, isDigit b = true) :
    0 ≤ atoi d ↔ min (2^63 - 1) (digits 10 d 0) % 2^32 < 2^31 := by
  have hnumber : strtol 10 (d ++ []) = _ := strtol_number hd hne (by simp)
  rw [List.append_nil] at hnumber
  rw [atoi, hnumber, toInt, Int.bmod_def]
  omega

theorem stored_printable (hshape : c.Shaped) (hvalid : c.Valid) : Printable c.stored := by
  obtain ⟨scheme,userinfo,host,port,path,query,fragment⟩ := c
  have hnone : UserinfoOk [] := ⟨511,leads_nil.mpr rfl,by decide +kernel⟩
  have hquery : Free [35] (query.getD []) ∧ AcceptedFrom 456 (query.getD []) := by
    cases query with
    | none => exact ⟨by decide,456,leads_nil.mpr rfl,by decide⟩
    | some q => exact ⟨hshape.tail.query_free q rfl,hvalid.tail.2.1 q rfl⟩
  have hfragment : AcceptedFrom 453 (fragment.getD []) := by
    cases fragment with
    | none => exact ⟨453,leads_nil.mpr rfl,by decide⟩
    | some f => exact hvalid.tail.2.2 f rfl
  have hport : (port.map atoi).getD 0 < 2^31 := by
    cases port with
    | none => decide
    | some d => exact atoi_lt d
  have htail : TailShape path (some (query.getD [])) := ⟨hshape.tail.rooted,hshape.tail.path_free,by simpa using hquery.1⟩
  have htailok : TailOk path (some (query.getD [])) (some (fragment.getD [])) :=
    ⟨hvalid.tail.1,by simpa using hquery.2,by simpa using hfragment⟩
  cases userinfo with
  | none =>
    have hhost : AcceptedFrom 511 host := hvalid.host
    have hempty : Free [35,47,63,64] [] := by decide
    exact ⟨hshape.scheme,hvalid.scheme,hempty,hnone,hshape.host,hhost,fun h => absurd rfl h,hport,htail,htailok⟩
  | some w =>
    have hhost : AcceptedFrom 522 host := hvalid.host
    have hfree := hshape.userinfo w rfl
    exact ⟨hshape.scheme,hvalid.scheme,keptUserinfo_free hfree,keptUserinfo_ok hfree (hvalid.userinfo w rfl),hshape.host,
      host_bare hshape.host hhost,fun _ => hhost,hport,htail,htailok⟩

theorem stored_stable_iff (hshape : c.Shaped) (hvalid : c.Valid) : Stable c.stored ↔
    (∀ w ∈ c.userinfo, ¬(colonDigit w = true ∧ colonDigit (afterColon w) = true)) ∧
      min (2^63 - 1) c.portNumber % 2^32 < 2^31 := by
  have hprintable := stored_printable hshape hvalid
  obtain ⟨scheme,userinfo,host,port,path,query,fragment⟩ := c
  rw [stable_iff hprintable]
  have huserinfo : colonDigit ((userinfo.map keptUserinfo).getD []) = false ↔
      ∀ w ∈ userinfo, ¬(colonDigit w = true ∧ colonDigit (afterColon w) = true) := by
    cases userinfo with
    | none => simp [colonDigit, afterColon, fieldValue]
    | some w => simp [colonDigit_kept]
  have hport : 0 ≤ (port.map atoi).getD 0 ↔ min (2^63 - 1) (digits 10 (port.getD []) 0) % 2^32 < 2^31 := by
    cases port with
    | none => simp [digits]
    | some d => exact atoi_nonneg (hvalid.port d rfl).1 (hvalid.port d rfl).2
  exact and_congr huserinfo hport

end Stored
section Schemes

/-- Behind a scheme, with no authority. -/
def inOpaque : Nat → Bool := within [(5,6),(455,455)]

/-- The moves of the machine within a path behind a scheme that has no slashes behind it. -/
structure OpaqueMoves : Prop where
  first : uriMachine.holdsOn (fun t => t == 509 || t == 510) (ByteClass.without 0 [35,47,63])
    (fun _ acts t => inOpaque t && acts.isEmpty) = true
  quiet : uriMachine.holdsOn inOpaque (ByteClass.without 0 [35,63]) (fun _ acts t => inOpaque t && acts.isEmpty) = true

theorem opaque_moves : OpaqueMoves := by constructor <;> decide +kernel

/-- Where no authority follows the scheme, only a query and a fragment are stored. -/
theorem reads_opaque_end {query fragment : Option Text} (hcs : cs = 509 ∨ cs = 510 ∨ inOpaque cs = true)
    (hq : ∀ q ∈ query, Free [35] q) (h : Reads pre cs (ending query fragment) x u) :
    EndingOk query fragment ∧ u = ended query fragment x.uri := by
  have hbounds : 1 ≤ cs ∧ cs ≤ 560 ∧ within [(453,454),(456,457)] cs = false ∧ (firstFinal ≤ cs → cs = 455 ∨ cs = 509 ∨ cs = 510) := by
    rw [← Bool.not_eq_true, firstFinal]
    simp only [inOpaque, within_cons, within_nil, or_false] at hcs ⊢
    omega
  obtain ⟨hlow,hhigh,hrange,hends⟩ := hbounds
  obtain ⟨hfinal,hok,y,hy,hu⟩ := (reads_ending hlow hhigh hrange hq).mp h
  have hnone : eofActions cs = [] := by
    rcases hends hfinal with rfl | rfl | rfl <;> decide
  rw [hnone, List.map_nil, perform, Except.ok.injEq] at hy
  subst hy
  exact ⟨hok,hu⟩

theorem reads_opaque_segment {query fragment : Option Text} (hcs : cs = 509 ∨ cs = 510) (hb : b.toNat ∉ [35,47,63])
    (ha : Free [35,63] a) (hq : ∀ q ∈ query, Free [35] q) (h : Reads pre cs (b :: a ++ ending query fragment) x u) :
    EndingOk query fragment ∧ u = ended query fragment x.uri := by
  rw [List.cons_append, reads_cons] at h
  obtain ⟨acts,t,y,hmove,hy,hread⟩ := h
  have hsrc : (cs == 509 || cs == 510) = true := by rcases hcs with rfl | rfl <;> decide
  have hedge := holdsOn_move opaque_moves.first hsrc (ByteClass.has_without (Nat.zero_le _) hb) hmove
  rw [Bool.and_eq_true, List.isEmpty_iff] at hedge
  obtain ⟨hin,rfl⟩ := hedge
  rw [List.map_nil, perform, Except.ok.injEq] at hy
  subst hy
  obtain ⟨t',_,hin',hread⟩ := (reads_quiet opaque_moves.quiet ha.without hin).mp hread
  exact reads_opaque_end (.inr (.inr hin')) hq hread

theorem reads_no_authority (hrest : ¬∃ r, rest = 47 :: 47 :: r) (h : Reads pre 509 rest x u) :
    ∃ query fragment, (∀ q ∈ query, Free [35] q) ∧ EndingOk query fragment ∧ u = ended query fragment x.uri := by
  obtain ⟨p,r,rfl,hp,hr⟩ := split_at [35,63] rest
  obtain ⟨query,fragment,rfl,hquery⟩ := ending_split hr
  refine ⟨query,fragment,hquery,?_⟩
  cases p with
  | nil => exact reads_opaque_end (.inl rfl) hquery h
  | cons b p =>
    obtain ⟨hb,hrestfree⟩ := free_cons.mp hp
    by_cases hslash : b = 47
    · subst hslash
      rw [List.cons_append, reads_slashes (.inl ⟨rfl,rfl⟩)] at h
      cases p with
      | nil => exact reads_opaque_end (.inr (.inl rfl)) hquery h
      | cons b' p =>
        obtain ⟨hb',hpfree⟩ := free_cons.mp hrestfree
        have hne : b'.toNat ≠ 47 := by
          intro h47
          apply hrest
          rw [byte_eq h47]
          exact ⟨_,rfl⟩
        have hfree : b'.toNat ∉ [35,47,63] := by
          simp only [List.mem_cons, List.not_mem_nil, or_false] at hb' ⊢
          omega
        exact reads_opaque_segment (.inr rfl) hfree hpfree hquery h
    · have hne : b.toNat ≠ 47 := fun h47 => hslash (byte_eq h47)
      have hfree : b.toNat ∉ [35,47,63] := by
        simp only [List.mem_cons, List.not_mem_nil, or_false] at hb ⊢
        omega
      exact reads_opaque_segment (.inl rfl) hfree hrestfree hquery h

/-- A URI without an authority is printed with an empty one and the path `/`. -/
theorem no_authority_stable {scheme : Text} {query fragment : Option Text} (hfree : Free [35,47,58,63] scheme)
    (hscheme : uriMachine.Leads start scheme 508) (hq : ∀ q ∈ query, Free [35] q) (hok : EndingOk query fragment) :
    Stable (ended query fragment { init with scheme := scheme }) := by
  have hhost : HostShape [] := .name (by decide) (by decide)
  have hpath : PathOk [] := fun r hr => by cases hr
  have hshape : (⟨scheme,none,[],none,[],query,fragment⟩ : Components).Shaped :=
    ⟨hfree,by simp,hhost,by simp,.inl rfl,show Free [35,63] [] by decide,hq⟩
  have hvalid : (⟨scheme,none,[],none,[],query,fragment⟩ : Components).Valid :=
    ⟨hscheme,by simp,⟨511,leads_nil.mpr rfl,by decide⟩,by simp [PortOk],hpath,hok⟩
  exact (stable_iff (stored_printable hshape hvalid)).mpr ⟨rfl,Int.le_refl 0⟩

/-- A scheme is stored on the way out of a state that no other way leads to. -/
def pastScheme (cs : Nat) : Bool := cs ≠ 451 && cs ≠ 508

/-- Where the machine saves a scheme and where it does not. -/
structure SchemeSaves : Prop where
  past : uriMachine.holdsOn pastScheme [(0,255)] (fun _ acts t => pastScheme t && !acts.contains .saveScheme) = true
  colon : uriMachine.holdsOn (fun _ => true) (ByteClass.without 0 [58])
    (fun _ acts _ => !acts.contains .saveScheme) = true
  delimiter : uriMachine.holdsOn (fun _ => true) [(35,35),(47,47),(63,63)] (fun _ _ t => pastScheme t) = true

theorem scheme_saves : SchemeSaves := by constructor <;> decide +kernel

theorem eof_scheme : .saveScheme ∉ eofActions t := by
  rw [eofActions]
  cases hfind : eofTable.find? fun r => r.1.any fun s => s.1 ≤ t && t ≤ s.2 with
  | none => simp
  | some r =>
    have hall : ∀ r ∈ eofTable, .saveScheme ∉ r.2 := by decide
    exact hall r (List.mem_of_find?_eq_some hfind)

theorem act_scheme {p : Nat} {a : Action} (ha : a ≠ .saveScheme) (h : act s x p a = .ok y) : y.uri.scheme = x.uri.scheme := by
  have hmarked : ∀ {f : Text → Scan}, (marked s x.mark p).map f = .ok y → (∀ v, (f v).uri.scheme = x.uri.scheme) →
      y.uri.scheme = x.uri.scheme := by
    intro f h hf
    cases hm : marked s x.mark p with
    | error e => rw [hm] at h; cases h
    | ok v =>
      rw [hm] at h
      obtain rfl : f v = y := Except.ok.inj h
      exact hf v
  cases a with
  | saveScheme => exact absurd rfl ha
  | mark =>
    obtain rfl : ⟨some p,x.uri⟩ = y := Except.ok.inj h
    rfl
  | savePort =>
    rw [act] at h
    split at h
    · cases h
    · rw [← Except.ok.inj h]
      split <;> rfl
  | saveUserinfo =>
    rw [act] at h
    split at h
    · exact hmarked h fun _ => rfl
    · rw [← Except.ok.inj h]
  | saveHost =>
    rw [act] at h
    split at h
    · exact hmarked h fun _ => rfl
    · rw [← Except.ok.inj h]
  | savePath =>
    rw [act] at h
    exact hmarked h fun _ => rfl
  | saveQuery =>
    rw [act] at h
    exact hmarked h fun _ => rfl
  | saveFragment =>
    rw [act] at h
    exact hmarked h fun _ => rfl

theorem perform_scheme {p : Nat} {acts : List Action} (hacts : .saveScheme ∉ acts)
    (h : perform s (acts.map fun e => (p,e)) x = .ok y) : y.uri.scheme = x.uri.scheme := by
  induction acts generalizing x with
  | nil =>
    rw [List.map_nil, perform, Except.ok.injEq] at h
    rw [h]
  | cons a acts ih =>
    obtain ⟨z,hz,h⟩ := perform_cons.mp h
    have hne : a ≠ .saveScheme := fun ha => hacts (ha ▸ List.mem_cons_self)
    rw [ih (fun hmem => hacts (List.mem_cons_of_mem _ hmem)) h, act_scheme hne hz]

/-- A text with a colon in front of all of `/`, `?` and `#`. -/
def HasScheme (s : Text) : Prop := ∃ scheme rest, s = scheme ++ 58 :: rest ∧ Free [35,47,58,63] scheme

theorem reads_without_scheme (hs : pastScheme cs = true ∨ ¬HasScheme s) (h : Reads pre cs s x u) :
    u.scheme = x.uri.scheme := by
  induction s generalizing pre cs x with
  | nil =>
    obtain ⟨_,y,hy,rfl⟩ := reads_nil.mp h
    exact perform_scheme eof_scheme hy
  | cons b s ih =>
    obtain ⟨acts,t,y,hmove,hy,hread⟩ := reads_cons.mp h
    have hall : ByteClass.has [(0,255)] b = true := forall_byte (P := fun b => ByteClass.has [(0,255)] b = true) fragment_moves.any b
    rcases hs with hpast | hnone
    · have hedge := holdsOn_move scheme_saves.past hpast hall hmove
      simp only [Bool.and_eq_true, Bool.not_eq_true', List.contains_eq_mem, decide_eq_false_iff_not] at hedge
      rw [ih (.inl hedge.1) hread, perform_scheme hedge.2 hy]
    · have hcolon : b.toNat ≠ 58 := by
        intro h58
        apply hnone
        rw [byte_eq h58]
        exact ⟨[],s,rfl,by decide⟩
      have hclass : (ByteClass.without 0 [58]).has b = true := ByteClass.has_without (Nat.zero_le _) (by simpa using hcolon)
      have hedge := holdsOn_move scheme_saves.colon rfl hclass hmove
      simp only [Bool.not_eq_true', List.contains_eq_mem, decide_eq_false_iff_not] at hedge
      rw [ih _ hread, perform_scheme hedge hy]
      by_cases hdelimiter : b.toNat ∈ [35,47,63]
      · left
        apply holdsOn_move scheme_saves.delimiter rfl _ hmove
        simp only [List.mem_cons, List.not_mem_nil, or_false] at hdelimiter
        rcases hdelimiter with hb | hb | hb <;> rw [byte_eq hb] <;> decide
      · right
        rintro ⟨scheme,rest,rfl,hfree⟩
        apply hnone
        refine ⟨b :: scheme,rest,rfl,free_cons.mpr ⟨?_,hfree⟩⟩
        simp only [List.mem_cons, List.not_mem_nil, or_false] at hdelimiter ⊢
        omega

theorem glue_colon (c : Components) : ∃ r, c.glue = c.scheme ++ 58 :: 47 :: 47 :: r := by
  have hslashes : text "://" = [58,47,47] := by decide
  refine ⟨c.authority ++ c.path ++ led 63 c.query ++ led 35 c.fragment,?_⟩
  simp [Components.glue, hslashes]

theorem not_mem_colon (h : Free [35,47,58,63] a) : 58 ∉ a := fun hmem => h 58 hmem (by decide)

/-- Without a scheme the printed form begins with a colon. -/
theorem not_stable_without_scheme (h : u.scheme = []) : ¬Stable u := by
  rintro ⟨v,hv,_⟩
  have htext : ∃ r, u.toText = 58 :: r := by
    have hslashes : text "://" = 58 :: [47,47] := by decide
    rw [toText, h, hslashes]
    exact ⟨_,rfl⟩
  obtain ⟨r,hr⟩ := htext
  have hstuck := scheme_moves.start_colon
  rw [hr, create_eq_some] at hv
  exact not_reads_stuck hstuck hv

/-- A URI is read again as it was exactly when it has a scheme, not both of the first two colons of its
userinfo are followed by a digit, and its port does not become negative as an `int`. -/
theorem create_stable_iff (h : create s = .ok (some u)) : Stable u ↔ HasScheme s ∧
    ∀ c : Components, c.Shaped → c.glue = s →
      (∀ w ∈ c.userinfo, ¬(colonDigit w = true ∧ colonDigit (afterColon w) = true)) ∧
        min (2^63 - 1) c.portNumber % 2^32 < 2^31 := by
  have hparts : ∀ c : Components, c.Shaped → c.glue = s → (Stable u ↔
      (∀ w ∈ c.userinfo, ¬(colonDigit w = true ∧ colonDigit (afterColon w) = true)) ∧
        min (2^63 - 1) c.portNumber % 2^32 < 2^31) := by
    rintro c hshape rfl
    obtain ⟨hvalid,rfl⟩ := (Components.create_glue_iff hshape).mp h
    exact stored_stable_iff hshape hvalid
  by_cases hscheme : HasScheme s
  · obtain ⟨scheme,rest,hs,hfree⟩ := hscheme
    have hread := create_eq_some.mp h
    rw [hs, reads_scheme hfree] at hread
    by_cases hauthority : ∃ r, rest = 47 :: 47 :: r
    · obtain ⟨r,hr⟩ := hauthority
      have hslashes : text "://" = [58,47,47] := by decide
      have hsplit : s = scheme ++ text "://" ++ r := by simp [hs, hr, hslashes]
      obtain ⟨c,hshape,hglue⟩ := exists_components h hsplit hfree
      constructor
      · intro hstable
        exact ⟨⟨scheme,rest,hs,hfree⟩,fun c hshape hglue => (hparts c hshape hglue).mp hstable⟩
      · rintro ⟨_,hall⟩
        exact (hparts c hshape hglue).mpr (hall c hshape hglue)
    · obtain ⟨query,fragment,hquery,hok,hu⟩ := reads_no_authority hauthority hread.2
      have hstable : Stable u := by
        rw [hu]
        exact no_authority_stable hfree hread.1 hquery hok
      have hnone : ∀ c : Components, c.Shaped → c.glue ≠ s := by
        intro c hshape hglue
        obtain ⟨r,hr⟩ := glue_colon c
        have hbehind := congrArg afterColon (hr.symm.trans (hglue.trans hs))
        rw [afterColon_append (not_mem_colon hshape.scheme), afterColon_append (not_mem_colon hfree)] at hbehind
        exact hauthority ⟨r,hbehind.symm⟩
      simp only [hstable, true_iff]
      exact ⟨⟨scheme,rest,hs,hfree⟩,fun c hshape hglue => absurd hglue (hnone c hshape)⟩
  · have hempty : u.scheme = [] := reads_without_scheme (.inr hscheme) (create_eq_some.mp h)
    simp only [not_stable_without_scheme hempty, hscheme, false_and]

/-- A port that is hidden, an empty query, and digits behind one colon of the userinfo. -/
theorem create_stable_example :
    let u : Uri := ⟨text "http",text "7",text "h",[],[],[],80⟩
    create (text "http://a:7@h:80?") = .ok (some u) ∧ (Stable u ↔ HasScheme (text "http://a:7@h:80?") ∧
      ∀ c : Components, c.Shaped → c.glue = text "http://a:7@h:80?" →
        (∀ w ∈ c.userinfo, ¬(colonDigit w = true ∧ colonDigit (afterColon w) = true)) ∧
          min (2^63 - 1) c.portNumber % 2^32 < 2^31) := by
  intro u
  have hcreate : create (text "http://a:7@h:80?") = .ok (some u) := by decide +kernel
  exact ⟨hcreate,create_stable_iff hcreate⟩

/-- A relative reference, and a port of 2^32 - 1: both are accepted, and what they print is not. -/
theorem printed_rejected :
    (∃ u : Uri, create (text "/a") = .ok (some u) ∧ u.toText = text ":///" ∧ create u.toText = .ok none) ∧
      ∃ u : Uri, create (text "http://h:4294967295/") = .ok (some u) ∧ u.toText = text "http://h:-1/" ∧
        create u.toText = .ok none := by
  constructor
  · exact ⟨init,by decide +kernel,by decide +kernel,by decide +kernel⟩
  · exact ⟨⟨text "http",[],text "h",text "/",[],[],-1⟩,by decide +kernel,by decide +kernel,by decide +kernel⟩

end Schemes
end Radixun.Http.Uri
