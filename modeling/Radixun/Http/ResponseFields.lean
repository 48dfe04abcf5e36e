import Radixun.Http.ResponseReading

/-! The header lines of a response. The machine follows three names letter by letter; every other name, and
every value, takes it through the same states. -/
namespace Radixun.Http
open Radixun.Foundation CString TextFrame Common.Stream ResponseMachine

/-- What a name has been so far, in lower case, when the machine is in one of the states that follow a name. -/
def spelledIn (cs : Nat) : Option Text :=
  if 25 ≤ cs ∧ cs ≤ 34 then some ((text "connection").take (cs - 24))
  else if 44 ≤ cs ∧ cs ≤ 60 then some ((text "transfer-encoding").take (cs - 43))
  else if 101 ≤ cs ∧ cs ≤ 111 then some ((text "content-length").take (cs - 97))
  else none

/-- The states inside a name. -/
def inName (cs : Nat) : Bool := cs == 21 || (spelledIn cs).isSome

/-- The state behind the colon. -/
def behindColon (cs : Nat) : Nat := if cs = 34 then 35 else if cs = 60 then 61 else if cs = 111 then 112 else 22

/-- The bytes that go on with a letter of a name, in both cases. -/
def keyClass (c : UInt8) : ByteClass := if c = 45 then .one 45 else .letter (c.toNat - 32)

/-- An edge between states of a name goes on with what has been spelled, if the machine still follows it. -/
def spells (cs : Nat) (e : Edge Action) : Bool :=
  match spelledIn e.target with
  | none => true
  | some w => match w.getLast? with
    | none => false
    | some c => spelledIn cs == some w.dropLast && e.on == keyClass c && (c = 45 || (97 ≤ c.toNat && c.toNat ≤ 122))

/-- What the machine does inside of names. -/
structure NameMoves : Prop where
  edges : responseMachine.check (fun cs e => !inName cs || e.on == .one 58 || (e.acts.isEmpty && inName e.target && spells cs e)) = true
  goes : ∀ cs, cs < 112 → inName cs = true → (responseMachine.row cs).any (fun e => token.inside e.on) = true
  colon : ∀ cs, cs < 112 → inName cs = true → responseMachine.move cs 58 = some ([.writeField],behindColon cs)
  start : ∀ cs ∈ [20,43], (responseMachine.row cs).any (fun e => token.inside e.on) = true ∧
    (responseMachine.row cs).all (fun e => !e.on.meets token ||
      ((e.acts == [.startField] || e.acts == [.writeConnectionClose,.startField]) && inName e.target &&
        match spelledIn e.target with
        | none => true
        | some w => match w with
          | [c] => e.on == keyClass c && (97 ≤ c.toNat && c.toNat ≤ 122)
          | _ => false)) = true

theorem name_moves : NameMoves := by
  constructor <;> decide +kernel

theorem inName_lt {cs : Nat} (h : inName cs = true) : cs < 112 := by
  unfold inName spelledIn at h
  split_ifs at h with h1 h2 h3
  all_goals simp at h; omega

theorem keyClass_lower {c b : UInt8} (hc : c = 45 ∨ 97 ≤ c.toNat ∧ c.toNat ≤ 122) (h : (keyClass c).has b = true) : tolower b = c := by
  unfold keyClass at h
  split at h
  · rename_i h45
    have hb : b.toNat = 45 := by
      simp only [ByteClass.has, ByteClass.one, List.any_cons, List.any_nil, Bool.or_false, Bool.and_eq_true, decide_eq_true_eq] at h
      omega
    obtain rfl : b = 45 := UInt8.toNat_inj.mp hb
    rw [h45]
    rfl
  · rename_i h45
    have hletter := hc.resolve_left h45
    have hb : b.toNat = c.toNat - 32 ∨ b.toNat = c.toNat := by
      simp only [ByteClass.has, ByteClass.letter, List.any_cons, List.any_nil, Bool.or_false, Bool.or_eq_true, Bool.and_eq_true,
        decide_eq_true_eq] at h
      omega
    unfold tolower
    apply UInt8.toNat_inj.mp
    split
    · rw [UInt8.toNat_add]
      have h32 : (32 : UInt8).toNat = 32 := rfl
      omega
    · omega

/-- The moves on the bytes of a name. -/
theorem edge_of_goes {cs : Nat} {b : UInt8} (h : (responseMachine.row cs).any (fun e => token.inside e.on) = true)
    (hb : token.has b = true) : ∃ e, responseMachine.edge cs b = some e := by
  obtain ⟨e,he,hinside⟩ := List.any_eq_true.mp h
  rw [← Option.isSome_iff_exists, ActionMachine.edge, List.find?_isSome]
  exact ⟨e,he,ByteClass.has_of_inside hinside hb⟩

private theorem token_colon {b : UInt8} (hb : token.has b = true) : (ByteClass.one 58).has b = false :=
  forall_byte (P := fun b => token.has b = true → (ByteClass.one 58).has b = false) (by decide +kernel) b hb

/-- A further byte of a name. -/
theorem name_step {cs : Nat} {b : UInt8} (hcs : inName cs = true) (hb : token.has b = true) :
    ∃ t, responseMachine.move cs b = some ([],t) ∧ inName t = true ∧
      ∀ w, spelledIn t = some w → ∃ v, spelledIn cs = some v ∧ w = v ++ [tolower b] := by
  obtain ⟨e,he⟩ := edge_of_goes (name_moves.goes cs (inName_lt hcs) hcs) hb
  have hon := (ActionMachine.edge_mem he).2
  have hcheck := ActionMachine.check_edge name_moves.edges he
  have hcolon : (e.on == ByteClass.one 58) = false := by
    by_contra h
    rw [Bool.not_eq_false] at h
    rw [eq_of_beq h, token_colon hb] at hon
    cases hon
  simp only [hcs, hcolon, Bool.not_true, Bool.or_false, Bool.false_or, Bool.and_eq_true, List.isEmpty_iff] at hcheck
  obtain ⟨⟨hacts,hname⟩,hspells⟩ := hcheck
  refine ⟨e.target,?_,hname,?_⟩
  · rw [ActionMachine.move, he, Option.map_some, hacts]
  · intro w hw
    rw [spells, hw] at hspells
    dsimp only at hspells
    cases hlast : w.getLast? with
    | none =>
      rw [hlast] at hspells
      cases hspells
    | some c =>
      rw [hlast] at hspells
      simp only [Bool.and_eq_true, Bool.or_eq_true, beq_iff_eq, decide_eq_true_eq] at hspells
      obtain ⟨⟨hspelled,hkey⟩,hc⟩ := hspells
      refine ⟨_,hspelled,?_⟩
      rw [hkey] at hon
      rw [keyClass_lower hc hon]
      exact (List.dropLast_append_getLast? c hlast).symm

/-- The first byte of a name. -/
theorem name_start {cs : Nat} {b : UInt8} (hcs : cs ∈ [20,43]) (hb : token.has b = true) :
    ∃ acts t, responseMachine.move cs b = some (acts,t) ∧ (acts = [.startField] ∨ acts = [.writeConnectionClose,.startField]) ∧
      inName t = true ∧ ∀ w, spelledIn t = some w → w = [tolower b] := by
  obtain ⟨hgoes,hall⟩ := name_moves.start cs hcs
  obtain ⟨e,he⟩ := edge_of_goes hgoes hb
  obtain ⟨hmem,hon⟩ := ActionMachine.edge_mem he
  have hedge := List.all_eq_true.mp hall e hmem
  simp only [ByteClass.meets_of_has hon hb, Bool.not_true, Bool.false_or, Bool.and_eq_true, Bool.or_eq_true, beq_iff_eq] at hedge
  obtain ⟨⟨hacts,hname⟩,hspelled⟩ := hedge
  refine ⟨e.acts,e.target,?_,hacts,hname,?_⟩
  · rw [ActionMachine.move, he]
    rfl
  · intro w hw
    rw [hw] at hspelled
    cases w with
    | nil => cases hspelled
    | cons c w =>
      cases w with
      | nil =>
        simp only [Bool.and_eq_true, beq_iff_eq, decide_eq_true_eq] at hspelled
        rw [hspelled.1] at hon
        rw [keyClass_lower (.inr hspelled.2) hon]
      | cons => cases hspelled

section Fields
variable {status : Int} {pre : Text} {cs m f l : Nat} {d : HttpResponse}

/-- A header name without separators. -/
structure TokenName (name : Text) : Prop where
  nonempty : name ≠ []
  chars : ∀ b ∈ name, token.has b = true

/-- The blanks the machine skips in front of a value. -/
def isWhite (b : UInt8) : Bool := b = 32 || b = 9 || b = 11 || b = 12

def trimWhite (value : Text) : Text := value.dropWhile isWhite

/-- The rest of a name, with what the machine knows of the part before it. -/
theorem ResponseReached.spelling {start name : Text} (hname : ∀ b ∈ name, token.has b = true) (hin : inName cs = true)
    (hspelled : ∀ w, spelledIn cs = some w → start.map tolower = w) (h : ResponseReached status (pre ++ start) cs m f l d) :
    ∃ t, inName t = true ∧ (∀ w, spelledIn t = some w → (start ++ name).map tolower = w) ∧
      ResponseReached status (pre ++ (start ++ name)) t m f l d := by
  induction name generalizing start cs with
  | nil =>
    rw [List.append_nil]
    exact ⟨cs,hin,hspelled,h⟩
  | cons b name ih =>
    obtain ⟨hb,hname⟩ := List.forall_mem_cons.mp hname
    obtain ⟨t,hmove,ht,hword⟩ := name_step hin hb
    have hnext := h.quiet hmove
    rw [List.append_assoc] at hnext
    have hspelled' : ∀ w, spelledIn t = some w → (start ++ [b]).map tolower = w := by
      intro w hw
      obtain ⟨v,hv,rfl⟩ := hword w hw
      rw [List.map_append, hspelled v hv]
      rfl
    have hrest := ih hname ht hspelled' hnext
    rwa [List.append_assoc, List.singleton_append] at hrest

/-- Inside a name the machine knows what has been spelled, and where the name began. -/
theorem ResponseReached.inside {name : Text} (hname : TokenName name) (hcs : cs ∈ [20,43]) (h : ResponseReached status pre cs m f l d) :
    ∃ t, inName t = true ∧ (∀ w, spelledIn t = some w → name.map tolower = w) ∧
      ResponseReached status (pre ++ name) t m pre.length l d := by
  obtain ⟨hne,hchars⟩ := hname
  obtain ⟨b,name,rfl⟩ := List.exists_cons_of_ne_nil hne
  obtain ⟨hb,hchars⟩ := List.forall_mem_cons.mp hchars
  obtain ⟨acts,t,hmove,hacts,hin,hspelled⟩ := name_start hcs hb
  have hfirst : ResponseReached status (pre ++ [b]) t m pre.length l d := by
    rcases hacts with rfl | rfl
    · apply h.go (ActionMachine.walk_one hmove rfl _)
      intro more σ _ hσ
      have hstart : ParserAt (σ.perform (pre ++ [b] ++ more) (pre.length,.startField)) m pre.length l d := hσ.startField
      exact hstart
    · apply h.go (ActionMachine.walk_one hmove rfl _)
      intro more σ _ hσ
      have hclose : ParserAt (σ.perform (pre ++ [b] ++ more) (pre.length,.writeConnectionClose)) m f l d := hσ.idle (.inl rfl)
      have hstart : ParserAt ((σ.perform (pre ++ [b] ++ more) (pre.length,.writeConnectionClose)).perform
        (pre ++ [b] ++ more) (pre.length,.startField)) m pre.length l d := hclose.startField
      exact hstart
  have hword : ∀ w, spelledIn t = some w → [b].map tolower = w := fun w hw => (hspelled w hw).symm
  have hend := hfirst.spelling hchars hin hword
  rwa [List.singleton_append] at hend

/-- Behind the colon of a name that is not one of the two the machine treats apart. -/
theorem ResponseReached.colon {name : Text} (hname : TokenName name) (hconn : name.map tolower ≠ text "connection")
    (htransfer : name.map tolower ≠ text "transfer-encoding") (hcs : cs ∈ [20,43]) (h : ResponseReached status pre cs m f l d) :
    ∃ t ∈ [22,112], (t = 112 → name.map tolower = text "content-length") ∧
      ResponseReached status (pre ++ name ++ [58]) t m pre.length (len pre.length (pre ++ name).length) d := by
  obtain ⟨t,hin,hspelled,hread⟩ := h.inside hname hcs
  have hmove := name_moves.colon t (inName_lt hin) hin
  have h34 : t ≠ 34 := by
    rintro rfl
    exact hconn (hspelled (text "connection") (by decide +kernel))
  have h60 : t ≠ 60 := by
    rintro rfl
    exact htransfer (hspelled (text "transfer-encoding") (by decide +kernel))
  have hbehind : behindColon t = if t = 111 then 112 else 22 := by
    rw [behindColon, if_neg h34, if_neg h60]
  refine ⟨behindColon t,?_,?_,?_⟩
  · rw [hbehind]
    split <;> simp
  · intro heq
    rw [hbehind] at heq
    have h111 : t = 111 := by
      by_contra hne
      rw [if_neg hne] at heq
      cases heq
    subst h111
    exact hspelled (text "content-length") (by decide +kernel)
  · apply hread.go (ActionMachine.walk_one hmove rfl _)
    intro more σ _ hσ
    have hfield : ParserAt (σ.perform (pre ++ name ++ [58] ++ more) ((pre ++ name).length,.writeField)) m pre.length
      (len pre.length (pre ++ name).length) d := hσ.writeField
    exact hfield

private def plain : ByteClass := [(0,8),(14,31),(33,47),(58,255)]

private def nondigit : ByteClass := [(0,9),(11,12),(14,47),(58,255)]

/-- The moves over a value. -/
structure ValueMoves : Prop where
  blank : ∀ cs ∈ [22,112], responseMachine.onClass cs blank = some ([.mark],cs)
  first : ∀ cs ∈ [22,112], responseMachine.onClass cs plain = some ([.mark],23) ∧
    ∃ t ∈ [23,119], responseMachine.onClass cs digit = some ([.mark],t)
  next : ∀ cs ∈ [23,119], responseMachine.onClass cs nondigit = some ([],23) ∧ responseMachine.onClass cs digit = some ([],cs)
  finish : responseMachine.move 23 13 = some ([.writeValue],24) ∧ responseMachine.move 119 13 = some ([.writeContentLen,.writeValue],24)
  empty : responseMachine.move 22 13 = some ([.mark,.writeValue],24)

theorem value_moves : ValueMoves :=
  ⟨by decide +kernel,by decide +kernel,by decide +kernel,⟨rfl,rfl⟩,rfl⟩

private theorem value_classes (b : UInt8) : (isWhite b = true → blank.has b = true) ∧
    (lineChar.has b = true → isWhite b = false → plain.has b = true ∨ digit.has b = true) ∧
    (lineChar.has b = true → nondigit.has b = true ∨ digit.has b = true) :=
  forall_byte (P := fun b => (isWhite b = true → blank.has b = true) ∧
    (lineChar.has b = true → isWhite b = false → plain.has b = true ∨ digit.has b = true) ∧
    (lineChar.has b = true → nondigit.has b = true ∨ digit.has b = true)) (by decide +kernel) b

theorem value_first {b : UInt8} (hcs : cs ∈ [22,112]) (hb : lineChar.has b = true) (hwhite : isWhite b = false) :
    ∃ t ∈ [23,119], responseMachine.move cs b = some ([.mark],t) := by
  obtain ⟨hplain,t,ht,hdigit⟩ := value_moves.first cs hcs
  rcases (value_classes b).2.1 hb hwhite with h | h
  · exact ⟨23,by simp,ActionMachine.move_of_onClass hplain h⟩
  · exact ⟨t,ht,ActionMachine.move_of_onClass hdigit h⟩

theorem value_next {b : UInt8} (hcs : cs ∈ [23,119]) (hb : lineChar.has b = true) :
    ∃ t, responseMachine.move cs b = some ([],t) ∧ t ∈ [23,119] := by
  obtain ⟨hplain,hdigit⟩ := value_moves.next cs hcs
  rcases (value_classes b).2.2 hb with h | h
  · exact ⟨23,ActionMachine.move_of_onClass hplain h,by simp⟩
  · exact ⟨cs,ActionMachine.move_of_onClass hdigit h,hcs⟩

theorem ResponseReached.whites {bs : Text} (hbs : ∀ b ∈ bs, isWhite b = true) (hcs : cs ∈ [22,112])
    (h : ResponseReached status pre cs m f l d) : ∃ m', ResponseReached status (pre ++ bs) cs m' f l d := by
  induction bs generalizing pre m with
  | nil =>
    rw [List.append_nil]
    exact ⟨m,h⟩
  | cons b bs ih =>
    obtain ⟨hb,hbs⟩ := List.forall_mem_cons.mp hbs
    rw [← List.singleton_append, ← List.append_assoc]
    exact ih hbs (h.marked (ActionMachine.move_of_onClass (value_moves.blank cs hcs) ((value_classes b).1 hb)))

/-- A header line, other than the two whose values steer the machine. -/
theorem ResponseReached.field {name value : Text} (hname : TokenName name) (hvalue : LineText value)
    (hconn : name.map tolower ≠ text "connection") (htransfer : name.map tolower ≠ text "transfer-encoding")
    (hlength : name.map tolower = text "content-length" → trimWhite value ≠ []) (hcs : cs ∈ [20,43])
    (h : ResponseReached status pre cs m f l d) : ∃ m' f' l',
      ResponseReached status (pre ++ (name ++ 58 :: value ++ TextFrame.crlf)) 20 m' f' l'
      { d with headers := d.headers.put name (trimWhite value) } := by
  obtain ⟨t,ht,hword,hcolon⟩ := h.colon hname hconn htransfer hcs
  have hsplit : value = value.takeWhile isWhite ++ trimWhite value := List.takeWhile_append_dropWhile.symm
  have hblanks : ∀ b ∈ value.takeWhile isWhite, isWhite b = true := fun b hb => List.mem_takeWhile_imp hb
  have hbody : ∀ b ∈ trimWhite value, lineChar.has b = true :=
    fun b hb => lineText_chars hvalue b (List.dropWhile_subset isWhite hb)
  have hhead : ∀ b s, trimWhite value = b :: s → isWhite b = false := by
    intro b s heq
    have hnot := List.head?_dropWhile_not isWhite value
    rw [← trimWhite, heq] at hnot
    simpa using hnot
  generalize value.takeWhile isWhite = blanks at hsplit hblanks
  generalize trimWhite value = body at hsplit hbody hhead hlength
  subst hsplit
  obtain ⟨m1,hread⟩ := hcolon.whites hblanks ht
  rw [List.append_assoc (pre ++ name), List.singleton_append] at hread
  have hline : pre ++ (name ++ 58 :: (blanks ++ body) ++ TextFrame.crlf) = pre ++ name ++ (58 :: blanks) ++ body ++ [13] ++ [10] := by
    simp [TextFrame.crlf]
  rw [hline]
  -- the value, from the parser as it stands at its first byte
  have hmade (more : Text) (σ : HttpResponseParser) (hlen : (pre ++ name ++ (58 :: blanks) ++ body ++ [13] ++ more).length ≤ recvMax)
      (hσ : ParserAt σ (pre ++ name ++ (58 :: blanks)).length pre.length (len pre.length (pre ++ name).length) d) :
      ParserAt (σ.perform (pre ++ name ++ (58 :: blanks) ++ body ++ [13] ++ more)
          ((pre ++ name ++ (58 :: blanks) ++ body).length,.writeValue))
        (pre ++ name ++ (58 :: blanks)).length pre.length name.length { d with headers := d.headers.put name body } := by
    rw [List.append_assoc _ [13]] at hlen ⊢
    have hname' : len pre.length (pre ++ name).length = name.length := by
      have hsame : pre ++ name ++ (58 :: blanks) ++ body ++ ([13] ++ more) = pre ++ name ++
        ((58 :: blanks) ++ body ++ ([13] ++ more)) := by
        simp
      rw [hsame] at hlen
      exact len_middle hlen
    rw [hname'] at hσ
    exact hσ.field hname.nonempty hlen
  cases body with
  | nil =>
    have h22 : t = 22 := by
      rcases List.mem_cons.mp ht with rfl | ht
      · rfl
      · exact absurd rfl (hlength (hword (List.mem_singleton.mp ht)))
    subst h22
    rw [List.append_nil] at hmade ⊢
    have hend : ResponseReached status (pre ++ name ++ (58 :: blanks) ++ [13]) 24 (pre ++ name ++ (58 :: blanks)).length
        pre.length name.length { d with headers := d.headers.put name [] } := by
      apply hread.go (ActionMachine.walk_one value_moves.empty rfl _)
      intro more σ hlen hσ
      exact hmade more _ hlen hσ.setMark
    exact ⟨_,_,_,hend.quiet status_moves.feed⟩
  | cons b s =>
    obtain ⟨hb,hs⟩ := List.forall_mem_cons.mp hbody
    obtain ⟨t1,ht1,hfirst⟩ := value_first ht hb (hhead b s rfl)
    obtain ⟨t2,ht2,hall⟩ := (hread.marked hfirst).run (P := (· ∈ [23,119])) (fun cs b hcs hb => value_next hcs hb) hs ht1
    rw [List.append_assoc _ [b], List.singleton_append] at hall
    have hend : ResponseReached status (pre ++ name ++ (58 :: blanks) ++ (b :: s) ++ [13]) 24 (pre ++ name ++ (58 :: blanks)).length
        pre.length name.length { d with headers := d.headers.put name (b :: s) } := by
      rcases List.mem_cons.mp ht2 with rfl | ht2
      · exact hall.go (ActionMachine.walk_one value_moves.finish.1 rfl _) hmade
      · obtain rfl := List.mem_singleton.mp ht2
        apply hall.go (ActionMachine.walk_one value_moves.finish.2 rfl _)
        intro more σ hlen hσ
        exact hmade more _ hlen (hσ.idle (.inr rfl))
    exact ⟨_,_,_,hend.quiet status_moves.feed⟩

end Fields
end Radixun.Http
