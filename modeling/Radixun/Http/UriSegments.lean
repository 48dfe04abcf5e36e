import Radixun.Http.Uri

/-! What is left of a text, read from a state of the machine: rules for a byte, for a stretch without
actions and for a marked stretch, and from them the ends of a URI from the fragment back to the path. -/
namespace Radixun.Http.Uri
open Radixun.Foundation CString TextFrame UriMachine ActionMachine

variable {s pre a rest : Text} {b : UInt8} {cs t : Nat} {x y z : Scan} {u : Uri}

/-- States by inclusive ranges. -/
def within (rs : List (Nat × Nat)) (cs : Nat) : Bool := rs.any fun r => r.1 ≤ cs && cs ≤ r.2

@[simp] theorem within_nil : within [] cs = true ↔ False := by simp [within]

@[simp] theorem within_cons {low high : Nat} {rs : List (Nat × Nat)} :
    within ((low,high) :: rs) cs = true ↔ low ≤ cs ∧ cs ≤ high ∨ within rs cs = true := by
  simp [within]

theorem uri_goes_on (a : Action) : uriMachine.breaks a = false := rfl

theorem uri_rows : uriMachine.rows.map (·.1) = List.range' 1 560 := by decide +kernel

theorem move_of_onByte {src : Nat → Bool} {f : Nat → Option (List Action × Nat) → Bool}
    (hf : uriMachine.onByte src b f = true) (hlow : 1 ≤ cs) (hhigh : cs ≤ 560) (hcs : src cs = true) :
    f cs (uriMachine.move cs b) = true := by
  apply onByte_move hf _ hcs
  rw [uri_rows, List.mem_range'_1]
  omega

theorem perform_cons {p : Nat} {a : Action} {es : List (Nat × Action)} :
    perform s ((p,a) :: es) x = .ok z ↔ ∃ y, act s x p a = .ok y ∧ perform s es y = .ok z := by
  rw [perform]
  cases act s x p a <;> simp

theorem perform_append {es fs : List (Nat × Action)} :
    perform s (es ++ fs) x = .ok z ↔ ∃ y, perform s es x = .ok y ∧ perform s fs y = .ok z := by
  induction es generalizing x with
  | nil => simp [perform]
  | cons e es ih =>
    rw [List.cons_append, perform_cons]
    constructor
    · rintro ⟨y,hy,h⟩
      obtain ⟨w,hw,hz⟩ := ih.mp h
      exact ⟨w,perform_cons.mpr ⟨y,hy,hw⟩,hz⟩
    · rintro ⟨w,hw,hz⟩
      obtain ⟨y,hy,h⟩ := perform_cons.mp hw
      exact ⟨y,hy,ih.mpr ⟨w,h,hz⟩⟩

/-- With `pre` behind it, the rest of the text takes the machine from a state and a scan to its end and
leaves the fields `u`. -/
def Reads (pre : Text) (cs : Nat) (rest : Text) (x : Scan) (u : Uri) : Prop :=
  ∃ t y, uriMachine.Leads cs rest t ∧ firstFinal ≤ t ∧
    perform (pre ++ rest) (uriMachine.events cs pre.length rest ++
      (eofActions t).map fun a => (pre.length + rest.length,a)) x = .ok y ∧ y.uri = u

theorem create_eq_some : create s = .ok (some u) ↔ Reads [] start s ⟨none,init⟩ u := by
  have htrace : ∀ {t}, uriMachine.Leads start s t → trace start 0 s =
      uriMachine.events start 0 s ++ (eofActions t).map fun a => (0 + s.length,a) := by
    intro t ht
    rw [trace, ht]
  have haccepts : ∀ {t}, uriMachine.Leads start s t → accepts s = decide (firstFinal ≤ t) := by
    intro t ht
    rw [accepts, ht]
  have hmap : create s = .ok (some u) ↔
      ∃ y, perform s (trace start 0 s) ⟨none,init⟩ = .ok y ∧ accepts s = true ∧ y.uri = u := by
    rw [create]
    cases perform s (trace start 0 s) ⟨none,init⟩ <;> simp [Except.map]
  rw [hmap]
  constructor
  · rintro ⟨y,hy,hfinal,hu⟩
    cases hstop : (uriMachine.walk start 0 s).stop with
    | more t =>
      rw [htrace hstop] at hy
      rw [haccepts hstop] at hfinal
      exact ⟨t,y,hstop,of_decide_eq_true hfinal,hy,hu⟩
    | broke t p => rw [accepts, hstop] at hfinal; cases hfinal
    | failed p => rw [accepts, hstop] at hfinal; cases hfinal
  · rintro ⟨t,y,ht,hfinal,hy,hu⟩
    refine ⟨y,?_,?_,hu⟩
    · rw [htrace ht]
      exact hy
    · rw [haccepts ht]
      exact decide_eq_true hfinal

theorem reads_nil : Reads pre cs [] x u ↔ firstFinal ≤ cs ∧
    ∃ y, perform pre ((eofActions cs).map fun a => (pre.length,a)) x = .ok y ∧ y.uri = u := by
  simp [Reads, leads_nil, events]

theorem reads_append : Reads pre cs (a ++ rest) x u ↔ ∃ t y, uriMachine.Leads cs a t ∧
    perform (pre ++ (a ++ rest)) (uriMachine.events cs pre.length a) x = .ok y ∧ Reads (pre ++ a) t rest y u := by
  constructor
  · rintro ⟨t,z,ht,hfinal,hz,hu⟩
    obtain ⟨t',hleads,ht'⟩ := leads_append.mp ht
    rw [events_append hleads, List.append_assoc, perform_append] at hz
    obtain ⟨y,hy,hz⟩ := hz
    refine ⟨t',y,hleads,hy,t,z,ht',hfinal,?_,hu⟩
    simpa [Nat.add_assoc] using hz
  · rintro ⟨t',y,hleads,hy,t,z,ht',hfinal,hz,hu⟩
    refine ⟨t,z,leads_append.mpr ⟨t',hleads,ht'⟩,hfinal,?_,hu⟩
    rw [events_append hleads, List.append_assoc, perform_append]
    exact ⟨y,hy,by simpa [Nat.add_assoc] using hz⟩

theorem reads_cons : Reads pre cs (b :: rest) x u ↔ ∃ acts t y, uriMachine.move cs b = some (acts,t) ∧
    perform (pre ++ b :: rest) (acts.map fun a => (pre.length,a)) x = .ok y ∧ Reads (pre ++ [b]) t rest y u := by
  have hone : ∀ {acts t}, uriMachine.move cs b = some (acts,t) →
      uriMachine.events cs pre.length [b] = acts.map fun a => (pre.length,a) := by
    intro acts t hmove
    rw [events_cons uri_goes_on hmove]
    exact List.append_nil _
  rw [← List.singleton_append, reads_append]
  constructor
  · rintro ⟨t,y,ht,hy,hrest⟩
    obtain ⟨acts,t',hmove,hnil⟩ := (leads_cons uri_goes_on).mp ht
    obtain rfl := leads_nil.mp hnil
    rw [hone hmove] at hy
    exact ⟨acts,t,y,hmove,hy,hrest⟩
  · rintro ⟨acts,t,y,hmove,hy,hrest⟩
    refine ⟨t,y,(leads_cons uri_goes_on).mpr ⟨acts,t,hmove,leads_nil.mpr rfl⟩,?_,hrest⟩
    rw [hone hmove]
    exact hy

/-- A byte with a known move. -/
theorem reads_move {acts : List Action} (hmove : uriMachine.move cs b = some (acts,t)) :
    Reads pre cs (b :: rest) x u ↔
      ∃ y, perform (pre ++ b :: rest) (acts.map fun a => (pre.length,a)) x = .ok y ∧ Reads (pre ++ [b]) t rest y u := by
  rw [reads_cons]
  constructor
  · rintro ⟨acts',t',y,hmove',h⟩
    obtain ⟨rfl,rfl⟩ : acts = acts' ∧ t = t' := by simpa using hmove.symm.trans hmove'
    exact ⟨y,h⟩
  · rintro ⟨y,h⟩
    exact ⟨acts,t,y,hmove,h⟩

theorem not_reads_stuck (hmove : uriMachine.move cs b = none) : ¬Reads pre cs (b :: rest) x u := by
  rw [reads_cons]
  rintro ⟨acts,t,y,h,_⟩
  rw [hmove] at h
  cases h

/-- No byte of a text is one of the given ones. -/
def Free (ds : List Nat) (a : Text) : Prop := ∀ b ∈ a, b.toNat ∉ ds

instance (ds : List Nat) (a : Text) : Decidable (Free ds a) := List.decidableBAll _ a

theorem free_cons {ds : List Nat} : Free ds (b :: a) ↔ b.toNat ∉ ds ∧ Free ds a := List.forall_mem_cons

theorem Free.without {ds : List Nat} (h : Free ds a) : ∀ b ∈ a, (ByteClass.without 0 ds).has b = true :=
  fun b hb => ByteClass.has_without (Nat.zero_le _) (h b hb)

/-- A stretch on which nothing happens. -/
theorem reads_quiet {inside : Nat → Bool} {c : ByteClass}
    (hf : uriMachine.holdsOn inside c (fun _ acts t => inside t && acts.isEmpty) = true) (ha : ∀ b ∈ a, c.has b = true)
    (hcs : inside cs = true) :
    Reads pre cs (a ++ rest) x u ↔ ∃ t, uriMachine.Leads cs a t ∧ inside t = true ∧ Reads (pre ++ a) t rest x u := by
  rw [reads_append]
  constructor
  · rintro ⟨t,y,ht,hy,hrest⟩
    obtain ⟨hin,hnone⟩ := leads_quiet uri_goes_on hf ha hcs ht
    rw [hnone, perform, Except.ok.injEq] at hy
    subst hy
    exact ⟨t,ht,hin,hrest⟩
  · rintro ⟨t,ht,hin,hrest⟩
    refine ⟨t,x,ht,?_,hrest⟩
    rw [(leads_quiet uri_goes_on hf ha hcs ht).2]
    rfl

/-- The first byte of a stretch sets the mark. -/
theorem segment_move {inside : Nat → Bool} {first : ByteClass} {acts : List Action}
    (hfirst : uriMachine.holdsOn (· == cs) first (fun _ acts t => inside t && acts == [.mark]) = true)
    (hb : first.has b = true) (hmove : uriMachine.move cs b = some (acts,t)) : inside t = true ∧ acts = [.mark] := by
  have hedge := holdsOn_move hfirst (beq_self_eq_true cs) hb hmove
  rwa [Bool.and_eq_true, beq_iff_eq] at hedge

section Segment
variable {inside : Nat → Bool} {first c : ByteClass}
  (hfirst : uriMachine.holdsOn (· == cs) first (fun _ acts t => inside t && acts == [.mark]) = true)
  (hf : uriMachine.holdsOn inside c (fun _ acts t => inside t && acts.isEmpty) = true)
  (hb : first.has b = true) (ha : ∀ b ∈ a, c.has b = true)
include hfirst hf hb ha

/-- Where a stretch leads whose first byte sets the mark. -/
theorem leads_segment (h : uriMachine.Leads cs (b :: a) t) : inside t = true := by
  obtain ⟨acts,t',hmove,ht'⟩ := (leads_cons uri_goes_on).mp h
  exact (leads_quiet uri_goes_on hf ha (segment_move hfirst hb hmove).1 ht').1

theorem events_segment (h : uriMachine.Leads cs (b :: a) t) (p : Nat) : uriMachine.events cs p (b :: a) = [(p,.mark)] := by
  obtain ⟨acts,t',hmove,ht'⟩ := (leads_cons uri_goes_on).mp h
  obtain ⟨hin,hacts⟩ := segment_move hfirst hb hmove
  rw [events_cons uri_goes_on hmove, hacts, (leads_quiet uri_goes_on hf ha hin ht').2]
  rfl

theorem reads_segment : Reads pre cs (b :: a ++ rest) x u ↔
    ∃ t, uriMachine.Leads cs (b :: a) t ∧ inside t = true ∧ Reads (pre ++ b :: a) t rest ⟨some pre.length,x.uri⟩ u := by
  have hpre : pre ++ [b] ++ a = pre ++ b :: a := (List.append_cons pre b a).symm
  rw [List.cons_append, reads_cons]
  constructor
  · rintro ⟨acts,t,y,hmove,hy,hrest⟩
    obtain ⟨hin,rfl⟩ := segment_move hfirst hb hmove
    obtain rfl : ⟨some pre.length,x.uri⟩ = y := by simpa [perform, act] using hy
    obtain ⟨t',ht',hin',hrest'⟩ := (reads_quiet hf ha hin).mp hrest
    rw [hpre] at hrest'
    exact ⟨t',(leads_cons uri_goes_on).mpr ⟨_,t,hmove,ht'⟩,hin',hrest'⟩
  · rintro ⟨t',hleads,hin',hrest'⟩
    obtain ⟨acts,t,hmove,ht'⟩ := (leads_cons uri_goes_on).mp hleads
    obtain ⟨hin,rfl⟩ := segment_move hfirst hb hmove
    refine ⟨_,t,⟨some pre.length,x.uri⟩,hmove,by simp [perform, act],?_⟩
    apply (reads_quiet hf ha hin).mpr
    rw [hpre]
    exact ⟨t',ht',hin',hrest'⟩

end Segment

theorem marked_span : marked (pre ++ a ++ rest) (some pre.length) (pre ++ a).length = .ok a := by
  rw [marked, List.length_append, Nat.add_sub_cancel_left, List.append_assoc, List.drop_left, List.take_left]

/-- A text the machine takes from a state to a final one. -/
def AcceptedFrom (cs : Nat) (a : Text) : Prop := ∃ t, uriMachine.Leads cs a t ∧ firstFinal ≤ t

/-- An optional component behind its delimiter. -/
def led (d : UInt8) : Option Text → Text
  | none => []
  | some a => d :: a

section Saved
variable {inside : Nat → Bool} {c : ByteClass} {action : Action}

/-- A component that begins at its first byte, or at its end where it is empty, and is stored at its end. -/
theorem reads_saved {K : Prop} (save : Text → Uri → Uri) (f : Uri → Uri)
    (hact : ∀ s x p, act s x p action = (marked s x.mark p).map fun v => ⟨none,save v x.uri⟩)
    (hfirst : uriMachine.holdsOn (· == cs) c (fun _ acts t => inside t && acts == [.mark]) = true)
    (hf : uriMachine.holdsOn inside c (fun _ acts t => inside t && acts.isEmpty) = true)
    (hempty : eofActions cs = [.mark,action]) (hfinal : firstFinal ≤ cs)
    (hend : ∀ t, inside t = true → firstFinal ≤ t → eofActions t = [action])
    (hrest : ∀ t x, t = cs ∨ inside t = true → (Reads (pre ++ a) t rest x u ↔ firstFinal ≤ t ∧ K ∧
      ∃ y, perform (pre ++ a ++ rest) ((eofActions t).map fun e => ((pre ++ a).length,e)) x = .ok y ∧ u = f y.uri))
    (ha : ∀ b ∈ a, c.has b = true) :
    Reads pre cs (a ++ rest) x u ↔ AcceptedFrom cs a ∧ K ∧ u = f (save a x.uri) := by
  cases a with
  | nil =>
    have hzero : marked (pre ++ rest) (some pre.length) pre.length = .ok [] := by simp [marked]
    have hclose : perform (pre ++ [] ++ rest) ((eofActions cs).map fun e => ((pre ++ []).length,e)) x =
        .ok ⟨none,save [] x.uri⟩ := by
      rw [hempty, List.append_nil, List.map_cons, List.map_singleton, perform, act]
      simp only [perform, hact, hzero, Except.map]
    have hnil := hrest cs x (.inl rfl)
    rw [hclose, List.append_nil] at hnil
    rw [List.nil_append, hnil]
    simp [AcceptedFrom, leads_nil, hfinal]
  | cons b a =>
    obtain ⟨hb,ha⟩ := List.forall_mem_cons.mp ha
    have hclose : ∀ t, inside t = true → firstFinal ≤ t →
        perform (pre ++ b :: a ++ rest) ((eofActions t).map fun e => ((pre ++ b :: a).length,e)) ⟨some pre.length,x.uri⟩ =
          .ok ⟨none,save (b :: a) x.uri⟩ := by
      intro t hin hfinal
      rw [hend t hin hfinal, List.map_singleton, perform, hact, marked_span]
      rfl
    rw [reads_segment hfirst hf hb ha]
    constructor
    · rintro ⟨t,hleads,hin,hread⟩
      obtain ⟨hfinal,hK,y,hy,hu⟩ := (hrest t _ (.inr hin)).mp hread
      rw [hclose t hin hfinal, Except.ok.injEq] at hy
      subst hy
      exact ⟨⟨t,hleads,hfinal⟩,hK,hu⟩
    · rintro ⟨⟨t,hleads,hfinal⟩,hK,hu⟩
      have hin := leads_segment hfirst hf hb ha hleads
      exact ⟨t,hleads,hin,(hrest t _ (.inr hin)).mpr ⟨hfinal,hK,_,hclose t hin hfinal,hu⟩⟩

end Saved

section Fragment
variable {fragment : Option Text}

def inFragment : Nat → Bool := within [(1,2),(454,454)]

/-- The moves of the machine around a fragment. -/
structure FragmentMoves : Prop where
  first : uriMachine.holdsOn (· == 453) [(0,255)] (fun _ acts t => inFragment t && acts == [.mark]) = true
  quiet : uriMachine.holdsOn inFragment [(0,255)] (fun _ acts t => inFragment t && acts.isEmpty) = true
  hash : uriMachine.onByte (fun t => t ≠ 453 && t ≠ 454) 35
    (fun t o => o = if firstFinal ≤ t then some (eofActions t,453) else none) = true
  any : ∀ n, n < 256 → ByteClass.has [(0,255)] (UInt8.ofNat n) = true

theorem fragment_moves : FragmentMoves := by constructor <;> decide +kernel

theorem fragment_end (hin : inFragment t = true) (hfinal : firstFinal ≤ t) : eofActions t = [.saveFragment] := by
  obtain rfl : t = 454 := by
    simp only [inFragment, within_cons, within_nil, or_false] at hin
    rw [firstFinal] at hfinal
    omega
  decide

theorem move_hash (hlow : 1 ≤ cs) (hhigh : cs ≤ 560) (h453 : cs ≠ 453) (h454 : cs ≠ 454) :
    uriMachine.move cs 35 = if firstFinal ≤ cs then some (eofActions cs,453) else none := by
  simpa using move_of_onByte fragment_moves.hash hlow hhigh (by simp [h453, h454])

theorem reads_453 : Reads pre 453 a x u ↔ AcceptedFrom 453 a ∧ u = { x.uri with fragment := a } := by
  have hall : ∀ b : UInt8, ByteClass.has [(0,255)] b = true := forall_byte fragment_moves.any
  have hsaved : Reads pre 453 (a ++ []) x u ↔ AcceptedFrom 453 a ∧ True ∧ u = { x.uri with fragment := a } := by
    apply reads_saved (fun v uri => { uri with fragment := v }) id (fun _ _ _ => rfl) fragment_moves.first fragment_moves.quiet
      (by decide) (by decide) (fun t => fragment_end) _ fun b _ => hall b
    intro t x _
    simp only [reads_nil, List.append_nil, true_and, id_eq, @eq_comm Uri u]
  simpa using hsaved

/-- The end of a text, with the fragment there may be. -/
theorem reads_fragment (hlow : 1 ≤ cs) (hhigh : cs ≤ 560) (h453 : cs ≠ 453) (h454 : cs ≠ 454) :
    Reads pre cs (led 35 fragment) x u ↔ firstFinal ≤ cs ∧ (∀ f ∈ fragment, AcceptedFrom 453 f) ∧
      ∃ y, perform (pre ++ led 35 fragment) ((eofActions cs).map fun e => (pre.length,e)) x = .ok y ∧
        u = { y.uri with fragment := fragment.getD y.uri.fragment } := by
  have hmove := move_hash hlow hhigh h453 h454
  cases fragment with
  | none => simp [led, reads_nil, eq_comm]
  | some f =>
    by_cases hfinal : firstFinal ≤ cs
    · rw [if_pos hfinal] at hmove
      rw [led, reads_move hmove]
      simp only [reads_453, Option.mem_def, Option.some.injEq, forall_eq', Option.getD_some, hfinal, true_and]
      constructor
      · rintro ⟨y,hy,hf,hu⟩
        exact ⟨hf,y,hy,hu⟩
      · rintro ⟨hf,y,hy,hu⟩
        exact ⟨y,hy,hf,hu⟩
    · rw [if_neg hfinal] at hmove
      simp only [led, hfinal, false_and, iff_false]
      exact not_reads_stuck hmove

end Fragment

section Query
variable {query fragment : Option Text}

def inQuery : Nat → Bool := within [(7,8),(457,457)]

/-- The moves of the machine around a query. -/
structure QueryMoves : Prop where
  first : uriMachine.holdsOn (· == 456) (ByteClass.without 0 [35]) (fun _ acts t => inQuery t && acts == [.mark]) = true
  quiet : uriMachine.holdsOn inQuery (ByteClass.without 0 [35]) (fun _ acts t => inQuery t && acts.isEmpty) = true
  question : uriMachine.onByte (fun t => t ≠ 453 && t ≠ 454 && t ≠ 456 && t ≠ 457) 63
    (fun t o => o = if firstFinal ≤ t then some (eofActions t,456) else none) = true

theorem query_moves : QueryMoves := by constructor <;> decide +kernel

theorem query_end (hin : inQuery t = true) (hfinal : firstFinal ≤ t) : eofActions t = [.saveQuery] := by
  obtain rfl : t = 457 := by
    simp only [inQuery, within_cons, within_nil, or_false] at hin
    rw [firstFinal] at hfinal
    omega
  decide

theorem move_question (hlow : 1 ≤ cs) (hhigh : cs ≤ 560) (hcs : within [(453,454),(456,457)] cs = false) :
    uriMachine.move cs 63 = if firstFinal ≤ cs then some (eofActions cs,456) else none := by
  have hne : cs ≠ 453 ∧ cs ≠ 454 ∧ cs ≠ 456 ∧ cs ≠ 457 := by
    rw [← Bool.not_eq_true] at hcs
    simp only [within_cons, within_nil, or_false] at hcs
    omega
  simpa using move_of_onByte query_moves.question hlow hhigh (by simp [hne])

/-- What follows the path. -/
def ending (query fragment : Option Text) : Text := led 63 query ++ led 35 fragment

def EndingOk (query fragment : Option Text) : Prop :=
  (∀ q ∈ query, AcceptedFrom 456 q) ∧ ∀ f ∈ fragment, AcceptedFrom 453 f

def ended (query fragment : Option Text) (v : Uri) : Uri :=
  { v with query := query.getD v.query, fragment := fragment.getD v.fragment }

theorem reads_456 (ha : Free [35] a) : Reads pre 456 (a ++ led 35 fragment) x u ↔
    AcceptedFrom 456 a ∧ (∀ f ∈ fragment, AcceptedFrom 453 f) ∧
      u = { x.uri with query := a, fragment := fragment.getD x.uri.fragment } := by
  apply reads_saved (fun v uri => { uri with query := v }) (fun v => { v with fragment := fragment.getD v.fragment })
    (fun _ _ _ => rfl) query_moves.first query_moves.quiet (by decide) (by decide) (fun t => query_end) _ ha.without
  intro t x ht
  have hbounds : 1 ≤ t ∧ t ≤ 560 ∧ t ≠ 453 ∧ t ≠ 454 := by
    simp only [inQuery, within_cons, within_nil, or_false] at ht
    omega
  rw [reads_fragment hbounds.1 hbounds.2.1 hbounds.2.2.1 hbounds.2.2.2, List.append_assoc]

/-- The end of a text, with the query and the fragment there may be. -/
theorem reads_ending (hlow : 1 ≤ cs) (hhigh : cs ≤ 560) (hcs : within [(453,454),(456,457)] cs = false)
    (hq : ∀ q ∈ query, Free [35] q) :
    Reads pre cs (ending query fragment) x u ↔ firstFinal ≤ cs ∧ EndingOk query fragment ∧
      ∃ y, perform (pre ++ ending query fragment) ((eofActions cs).map fun e => (pre.length,e)) x = .ok y ∧
        u = ended query fragment y.uri := by
  have hne : cs ≠ 453 ∧ cs ≠ 454 := by
    rw [← Bool.not_eq_true] at hcs
    simp only [within_cons, within_nil, or_false] at hcs
    omega
  have hmove := move_question hlow hhigh hcs
  cases query with
  | none =>
    rw [show ending none fragment = led 35 fragment from rfl, reads_fragment hlow hhigh hne.1 hne.2]
    simp [EndingOk, ended]
  | some q =>
    rw [show ending (some q) fragment = 63 :: (q ++ led 35 fragment) from rfl]
    by_cases hfinal : firstFinal ≤ cs
    · rw [if_pos hfinal] at hmove
      simp only [reads_move hmove, reads_456 (hq q rfl), EndingOk, ended, Option.mem_def, Option.some.injEq, forall_eq',
        Option.getD_some, hfinal, true_and]
      constructor
      · rintro ⟨y,hy,hqok,hfok,hu⟩
        exact ⟨⟨hqok,hfok⟩,y,hy,hu⟩
      · rintro ⟨⟨hqok,hfok⟩,y,hy,hu⟩
        exact ⟨y,hy,hqok,hfok,hu⟩
    · rw [if_neg hfinal] at hmove
      simp only [hfinal, false_and, iff_false]
      exact not_reads_stuck hmove

end Query

section Path
variable {path : Text} {query fragment : Option Text}

/-- The states in which an authority may be. -/
def inAuthority : Nat → Bool := within [(229,242),(245,450),(511,512),(514,560)]
def inPath : Nat → Bool := within [(243,244),(513,513)]

/-- The moves of the machine around a path behind an authority. -/
structure PathMoves : Prop where
  quiet : uriMachine.holdsOn inPath (ByteClass.without 0 [35,63]) (fun _ acts t => inPath t && acts.isEmpty) = true
  slash : uriMachine.onByte inAuthority 47
    (fun t o => o = if firstFinal ≤ t then some ((eofActions t).dropLast,513) else none) = true
  ends : ∀ t ∈ List.range' 511 50, t ≠ 513 → eofActions t = (eofActions t).dropLast ++ [.savePath]

theorem path_moves : PathMoves := by constructor <;> decide +kernel

theorem inAuthority_bounds (h : inAuthority cs = true) :
    1 ≤ cs ∧ cs ≤ 560 ∧ within [(453,454),(456,457)] cs = false := by
  rw [← Bool.not_eq_true]
  simp only [inAuthority, within_cons, within_nil, or_false] at h ⊢
  omega

theorem move_slash (h : inAuthority cs = true) :
    uriMachine.move cs 47 = if firstFinal ≤ cs then some ((eofActions cs).dropLast,513) else none := by
  obtain ⟨hlow,hhigh,_⟩ := inAuthority_bounds h
  simpa using move_of_onByte path_moves.slash hlow hhigh h

theorem authority_end (h : inAuthority cs = true) (hfinal : firstFinal ≤ cs) :
    eofActions cs = (eofActions cs).dropLast ++ [.savePath] := by
  simp only [inAuthority, within_cons, within_nil, or_false] at h
  rw [firstFinal] at hfinal
  apply path_moves.ends cs
  · rw [List.mem_range'_1]
    omega
  · omega

theorem path_end (hin : inPath t = true) (hfinal : firstFinal ≤ t) : eofActions t = [.savePath] := by
  obtain rfl : t = 513 := by
    simp only [inPath, within_cons, within_nil, or_false] at hin
    rw [firstFinal] at hfinal
    omega
  decide

theorem reads_inPath (hin : inPath t = true) (hq : ∀ q ∈ query, Free [35] q) :
    Reads pre t (ending query fragment) x u ↔ firstFinal ≤ t ∧ EndingOk query fragment ∧
      ∃ y, perform (pre ++ ending query fragment) ((eofActions t).map fun e => (pre.length,e)) x = .ok y ∧
        u = ended query fragment y.uri := by
  have hbounds : 1 ≤ t ∧ t ≤ 560 ∧ within [(453,454),(456,457)] t = false := by
    rw [← Bool.not_eq_true]
    simp only [inPath, within_cons, within_nil, or_false] at hin ⊢
    omega
  exact reads_ending hbounds.1 hbounds.2.1 hbounds.2.2 hq

theorem perform_savePath {p : Nat} :
    perform s [(p,.savePath)] y = .ok z ↔ ∃ w, marked s y.mark p = .ok w ∧ z = ⟨none,{ y.uri with path := w }⟩ := by
  simp only [perform, act]
  cases marked s y.mark p <;> simp [Except.map, eq_comm]

def PathOk (path : Text) : Prop := ∀ r, path = 47 :: r → AcceptedFrom 513 r

/-- The end of a text behind an authority: its last actions, then the path from where they leave the mark. -/
theorem reads_path (h : inAuthority cs = true) (hshape : path = [] ∨ ∃ r, path = 47 :: r) (hpath : Free [35,63] path)
    (hq : ∀ q ∈ query, Free [35] q) :
    Reads pre cs (path ++ ending query fragment) x u ↔ firstFinal ≤ cs ∧ PathOk path ∧ EndingOk query fragment ∧
      ∃ y w, perform (pre ++ (path ++ ending query fragment)) ((eofActions cs).dropLast.map fun e => (pre.length,e)) x =
          .ok y ∧
        marked (pre ++ (path ++ ending query fragment)) y.mark (pre ++ path).length = .ok w ∧
        u = ended query fragment { y.uri with path := w } := by
  obtain ⟨hlow,hhigh,hcs⟩ := inAuthority_bounds h
  obtain rfl | ⟨r,rfl⟩ := hshape
  · rw [List.nil_append, reads_ending hlow hhigh hcs hq]
    have hok : PathOk [] := fun r hr => by cases hr
    simp only [hok, true_and, List.append_nil]
    apply and_congr_right
    intro hfinal
    rw [authority_end h hfinal, List.map_append, List.dropLast_concat]
    simp only [perform_append, List.map_singleton, perform_savePath]
    constructor
    · rintro ⟨hending,_,⟨y,hy,w,hw,rfl⟩,hu⟩
      exact ⟨hending,y,w,hy,hw,hu⟩
    · rintro ⟨hending,y,w,hy,hw,hu⟩
      exact ⟨hending,_,⟨y,hy,w,hw,rfl⟩,hu⟩
  · have hr : ∀ b ∈ r, (ByteClass.without 0 [35,63]).has b = true := fun b hb => hpath.without b (List.mem_cons_of_mem _ hb)
    have hpre : pre ++ [47] ++ r = pre ++ 47 :: r := (List.append_cons pre 47 r).symm
    have hmove := move_slash h
    by_cases hfinal : firstFinal ≤ cs
    · rw [if_pos hfinal] at hmove
      rw [List.cons_append, reads_move hmove]
      simp only [hfinal, true_and]
      constructor
      · rintro ⟨y,hy,hread⟩
        obtain ⟨t,hleads,hin,hread⟩ := (reads_quiet path_moves.quiet hr (by decide)).mp hread
        obtain ⟨htfinal,hending,z,hz,hu⟩ := (reads_inPath hin hq).mp hread
        rw [path_end hin htfinal, hpre, List.map_singleton, perform_savePath] at hz
        obtain ⟨w,hw,rfl⟩ := hz
        refine ⟨?_,hending,y,w,hy,by simpa using hw,hu⟩
        rintro r' hr'
        obtain rfl := List.tail_eq_of_cons_eq hr'
        exact ⟨t,hleads,htfinal⟩
      · rintro ⟨hok,hending,y,w,hy,hw,hu⟩
        obtain ⟨t,hleads,htfinal⟩ := hok r rfl
        have hin := (leads_quiet uri_goes_on path_moves.quiet hr (by decide) hleads).1
        refine ⟨y,hy,(reads_quiet path_moves.quiet hr (by decide)).mpr ⟨t,hleads,hin,?_⟩⟩
        apply (reads_inPath hin hq).mpr
        refine ⟨htfinal,hending,⟨none,{ y.uri with path := w }⟩,?_,hu⟩
        rw [path_end hin htfinal, hpre, List.map_singleton, perform_savePath]
        exact ⟨w,by simpa using hw,rfl⟩
    · rw [if_neg hfinal] at hmove
      simp only [hfinal, false_and, iff_false]
      exact not_reads_stuck hmove

end Path
end Radixun.Http.Uri
