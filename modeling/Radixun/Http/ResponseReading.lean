import Radixun.Http.Connection
import Radixun.Http.RequestRoundTrip

/-! The parser of responses along a text, part by part: its registers and what it has made of the response,
whatever follows the text. -/
namespace Radixun.Http
open Radixun.Foundation CString TextFrame Common.Stream ResponseMachine

/-- A parser without an error in it, and without the mark of a chunked body. -/
structure ParserAt (σ : HttpResponseParser) (mark fieldStart fieldLen : Nat) (data : HttpResponse) : Prop where
  thrown : σ.thrown = none
  error : σ.error = 0
  chunked : σ.parser.chunked = false
  mark : σ.parser.mark = mark
  fieldStart : σ.parser.fieldStart = fieldStart
  fieldLen : σ.parser.fieldLen = fieldLen
  data : σ.data = data

/-- Behind `pre` the machine is in the state `cs`, and the parser is as described. -/
def ResponseReached (status : Int) (pre : Text) (cs mark fieldStart fieldLen : Nat) (data : HttpResponse) : Prop :=
  ∃ es, responseMachine.walk 1 0 pre = ⟨es,.more cs⟩ ∧ ∀ more, (pre ++ more).length ≤ recvMax →
    ParserAt (es.foldl (HttpResponseParser.perform (pre ++ more)) (.init status)) mark fieldStart fieldLen data

theorem len_middle {a x y : Text} (h : (a ++ x ++ y).length ≤ recvMax) : len a.length (a ++ x).length = x.length := by
  have hlen : ((a ++ x).length : Int) - a.length = x.length := by
    rw [List.length_append]
    omega
  rw [len, hlen]
  apply sizeT_nat
  rw [List.length_append, List.length_append] at h
  unfold recvMax at h
  omega

theorem chars_middle {a x y : Text} (h : (a ++ x ++ y).length ≤ recvMax) : chars (a ++ x ++ y) a.length x.length = .ok x := by
  have hmax : ¬maxSize < x.length := by
    rw [List.length_append, List.length_append] at h
    unfold recvMax at h
    unfold maxSize
    omega
  have hin : ¬(a ++ x ++ y).length < a.length + x.length := by
    rw [List.length_append, List.length_append]
    omega
  rw [chars, if_neg hmax, if_neg hin, List.append_assoc, List.drop_left, List.take_left]

section Actions
variable {σ : HttpResponseParser} {m f l p : Nat} {d : HttpResponse} {buffer : Text}

theorem ParserAt.perform_eq (h : ParserAt σ m f l d) (event : Nat × Action) :
    σ.perform buffer event = HttpResponseParser.perform buffer { σ with thrown := none } event := by
  have heq : { σ with thrown := none } = σ := by rw [← h.thrown]
  rw [heq]

theorem ParserAt.setMark (h : ParserAt σ m f l d) : ParserAt (σ.perform buffer (p,.mark)) p f l d := by
  rw [h.perform_eq]
  exact ⟨rfl,h.error,h.chunked,rfl,h.fieldStart,h.fieldLen,h.data⟩

theorem ParserAt.startField (h : ParserAt σ m f l d) : ParserAt (σ.perform buffer (p,.startField)) m p l d := by
  rw [h.perform_eq]
  exact ⟨rfl,h.error,h.chunked,h.mark,rfl,h.fieldLen,h.data⟩

theorem ParserAt.writeField (h : ParserAt σ m f l d) : ParserAt (σ.perform buffer (p,.writeField)) m f (len f p) d := by
  rw [h.perform_eq]
  exact ⟨rfl,h.error,h.chunked,h.mark,h.fieldStart,congrArg (len · p) h.fieldStart,h.data⟩

/-- Actions that only set registers nothing here depends on. -/
theorem ParserAt.idle {a : Action} (ha : a = .writeConnectionClose ∨ a = .writeContentLen) (h : ParserAt σ m f l d) :
    ParserAt (σ.perform buffer (p,a)) m f l d := by
  rw [h.perform_eq]
  rcases ha with rfl | rfl
  · exact ⟨rfl,h.error,h.chunked,h.mark,h.fieldStart,h.fieldLen,h.data⟩
  · exact ⟨rfl,h.error,h.chunked,h.mark,h.fieldStart,h.fieldLen,h.data⟩

variable {a x y name value : Text}

theorem ParserAt.version {v : UInt8} (hv : versionOf x x.length = some v) (hlen : (a ++ x ++ y).length ≤ recvMax)
    (h : ParserAt σ a.length f l d) :
    ParserAt (σ.perform (a ++ x ++ y) ((a ++ x).length,.httpVersion)) a.length f l { d with version := v } := by
  have hof : versionOf ((a ++ x ++ y).drop σ.parser.mark) (len σ.parser.mark (a ++ x).length) = some v := by
    rw [h.mark, len_middle hlen, List.append_assoc, List.drop_left, ← versionOf_take, List.take_left, hv]
  rw [h.perform_eq]
  simp only [HttpResponseParser.perform, Option.isSome_none, Bool.false_eq_true, if_false, HttpResponseParser.onResponseVersion, hof]
  exact ⟨rfl,h.error,h.chunked,h.mark,h.fieldStart,h.fieldLen,by rw [← h.data]⟩

theorem ParserAt.reason (hlen : (a ++ x ++ y).length ≤ recvMax) (h : ParserAt σ a.length f l d) :
    ParserAt (σ.perform (a ++ x ++ y) ((a ++ x).length,.reasonPhrase)) a.length f l { d with reason := x } := by
  have hchars : chars (a ++ x ++ y) σ.parser.mark (len σ.parser.mark (a ++ x).length) = .ok x := by
    rw [h.mark, len_middle hlen, chars_middle hlen]
  rw [h.perform_eq]
  simp only [HttpResponseParser.perform, Option.isSome_none, Bool.false_eq_true, if_false, HttpResponseParser.onResponseReason,
    HttpResponseParser.withChars, hchars]
  exact ⟨rfl,h.error,h.chunked,h.mark,h.fieldStart,h.fieldLen,by rw [← h.data]⟩

/-- The digits of a status that fits an `int`, with a byte behind them that is none. -/
theorem ParserAt.status {n : Nat} (hn : n < 2^31) (hy : ∀ b ∈ y.head?, isDigit b = false) (h : ParserAt σ a.length f l d) :
    ParserAt (σ.perform (a ++ decimal n ++ y) (p,.statusCode)) a.length f l { d with status := n } := by
  have hnumber : atoi ((a ++ decimal n ++ y).drop a.length) = n := by
    rw [List.append_assoc, List.drop_left, atoi, strtol_number (fun b => isDigit_of_mem_decimal) (decimal_ne_nil n) hy,
      digits_decimal, toInt, min_eq_right (by omega)]
    exact Int.bmod_eq_of_le (by omega) (by omega)
  rw [h.perform_eq]
  simp only [HttpResponseParser.perform, Option.isSome_none, Bool.false_eq_true, if_false, HttpResponseParser.onResponseStatus, h.mark,
    hnumber]
  exact ⟨rfl,h.error,h.chunked,rfl,h.fieldStart,h.fieldLen,by rw [← h.data]⟩

theorem ParserAt.field (hname : name ≠ []) (hlen : (a ++ name ++ x ++ value ++ y).length ≤ recvMax)
    (h : ParserAt σ (a ++ name ++ x).length a.length name.length d) :
    ParserAt (σ.perform (a ++ name ++ x ++ value ++ y) ((a ++ name ++ x ++ value).length,.writeValue))
      (a ++ name ++ x).length a.length name.length { d with headers := d.headers.put name value } := by
  have hvalue : chars (a ++ name ++ x ++ value ++ y) σ.parser.mark (len σ.parser.mark (a ++ name ++ x ++ value).length) = .ok value := by
    rw [h.mark, len_middle hlen, chars_middle hlen]
  have hkey : chars (a ++ name ++ x ++ value ++ y) σ.parser.fieldStart σ.parser.fieldLen = .ok name := by
    have hsame : a ++ name ++ x ++ value ++ y = a ++ name ++ (x ++ value ++ y) := by simp
    rw [hsame] at hlen ⊢
    rw [h.fieldStart, h.fieldLen, chars_middle hlen]
  have hflen : ¬σ.parser.fieldLen = 0 := by
    rw [h.fieldLen, List.length_eq_zero_iff]
    exact hname
  rw [h.perform_eq]
  simp only [HttpResponseParser.perform, Option.isSome_none, Bool.false_eq_true, if_false, HttpResponseParser.onResponseHttpField,
    if_neg hflen, HttpResponseParser.withChars, hkey,
    hvalue]
  exact ⟨rfl,h.error,h.chunked,h.mark,h.fieldStart,h.fieldLen,by rw [← h.data]⟩

end Actions

section Steps
variable {status : Int} {pre xs : Text} {cs cs' m f l m' f' l' : Nat} {d d' : HttpResponse} {acts : List Action} {b : UInt8}

theorem responseReached_start (status : Int) : ResponseReached status [] 1 0 0 0 .init :=
  ⟨[],rfl,fun _ _ => ⟨rfl,rfl,rfl,rfl,rfl,rfl,rfl⟩⟩

/-- Goes on over a text with the actions taken there. -/
theorem ResponseReached.go {es : List (Nat × Action)} (h : ResponseReached status pre cs m f l d)
    (hwalk : responseMachine.walk cs pre.length xs = ⟨es,.more cs'⟩)
    (hr : ∀ more σ, (pre ++ xs ++ more).length ≤ recvMax → ParserAt σ m f l d →
      ParserAt (es.foldl (HttpResponseParser.perform (pre ++ xs ++ more)) σ) m' f' l' d') :
    ResponseReached status (pre ++ xs) cs' m' f' l' d' := by
  obtain ⟨es',hpre,hat⟩ := h
  refine ⟨es' ++ es,?_,?_⟩
  · rw [ActionMachine.walk_append (by rw [hpre]), Nat.zero_add, hwalk, hpre]
    rfl
  · intro more hlen
    rw [List.foldl_append]
    apply hr more _ hlen
    rw [List.append_assoc] at hlen ⊢
    exact hat (xs ++ more) hlen

theorem ResponseReached.quiet (h : ResponseReached status pre cs m f l d) (hmove : responseMachine.move cs b = some ([],cs')) :
    ResponseReached status (pre ++ [b]) cs' m f l d :=
  h.go (ActionMachine.walk_one hmove rfl _) fun _ _ _ hσ => hσ

theorem ResponseReached.marked (h : ResponseReached status pre cs m f l d) (hmove : responseMachine.move cs b = some ([.mark],cs')) :
    ResponseReached status (pre ++ [b]) cs' pre.length f l d := by
  apply h.go (ActionMachine.walk_one hmove rfl _)
  intro more σ _ hσ
  have hmark : ParserAt (σ.perform (pre ++ [b] ++ more) (pre.length,.mark)) pre.length f l d := hσ.setMark
  exact hmark

/-- A run of bytes the machine moves on within some of its states. -/
theorem ResponseReached.run {P : Nat → Prop} {c : ByteClass}
    (hc : ∀ cs b, P cs → c.has b = true → ∃ cs', responseMachine.move cs b = some ([],cs') ∧ P cs')
    (hxs : ∀ b ∈ xs, c.has b = true) (hcs : P cs) (h : ResponseReached status pre cs m f l d) :
    ∃ cs', P cs' ∧ ResponseReached status (pre ++ xs) cs' m f l d := by
  induction xs generalizing pre cs with
  | nil =>
    rw [List.append_nil]
    exact ⟨cs,hcs,h⟩
  | cons b xs ih =>
    obtain ⟨hb,hxs⟩ := List.forall_mem_cons.mp hxs
    obtain ⟨cs1,hmove,hcs1⟩ := hc cs b hcs hb
    rw [← List.singleton_append, ← List.append_assoc]
    exact ih hxs hcs1 (h.quiet hmove)

end Steps

/-- A byte that does not break a line. -/
def lineChar : ByteClass := [(0,9),(11,12),(14,255)]

theorem lineText_chars {s : Text} (h : LineText s) : ∀ b ∈ s, lineChar.has b = true := by
  intro b hb
  exact forall_byte (P := fun b => b ≠ 13 ∧ b ≠ 10 → lineChar.has b = true) (by decide +kernel) b (h b hb)

/-- The moves over a status line. -/
structure StatusMoves : Prop where
  version : ∀ v ∈ [text "HTTP/1.0",text "HTTP/1.1"], (responseMachine.walk 1 0 (v ++ [32])).events = [(0,.mark),(8,.httpVersion)] ∧
    (responseMachine.walk 1 0 (v ++ [32])).stop = .more 16
  first : responseMachine.onClass 16 digit = some ([.mark],17)
  digits : responseMachine.onClass 17 digit = some ([],17)
  blank : responseMachine.move 17 32 = some ([.statusCode],18)
  reason_first : responseMachine.onClass 18 lineChar = some ([.mark],19)
  reason : responseMachine.onClass 19 lineChar = some ([],19)
  finish : responseMachine.move 19 13 = some ([.reasonPhrase],24)
  feed : responseMachine.move 24 10 = some ([],20)

theorem status_moves : StatusMoves :=
  ⟨by decide +kernel,rfl,rfl,rfl,rfl,rfl,rfl,rfl⟩

section Line
variable {status : Int} {pre : Text} {cs m f l : Nat} {d : HttpResponse}

theorem responseReached_version {v : UInt8} (hv : knownVersion v) :
    ResponseReached status (text "HTTP/" ++ printVersion v ++ [32]) 16 0 0 0 { HttpResponse.init with version := v } := by
  obtain ⟨hmem,hof⟩ := printVersion_known hv
  generalize text "HTTP/" ++ printVersion v = word at hmem hof ⊢
  obtain ⟨hevents,hstop⟩ := status_moves.version word hmem
  have hlen : word.length = 8 := by
    have hall : ∀ w ∈ [text "HTTP/1.0",text "HTTP/1.1"], w.length = 8 := by decide
    exact hall word hmem
  have hwalk : responseMachine.walk 1 ([] : Text).length (word ++ [32]) = ⟨[(0,.mark),(word.length,.httpVersion)],.more 16⟩ := by
    rw [hlen, ← hevents, ← hstop]
    rfl
  apply (responseReached_start status).go hwalk
  intro more σ hmore hσ
  have hcat : [] ++ (word ++ [32]) ++ more = [] ++ word ++ ([32] ++ more) := by simp
  rw [hcat] at hmore ⊢
  have hmark : ParserAt (σ.perform ([] ++ word ++ ([32] ++ more)) (0,.mark)) ([] : Text).length 0 0 .init := hσ.setMark
  exact hmark.version hof hmore

/-- The digits of a status with the blank behind them. -/
theorem ResponseReached.statusCode {n : Nat} (hn : n < 2^31) (h : ResponseReached status pre 16 m f l d) :
    ∃ m', ResponseReached status (pre ++ decimal n ++ [32]) 18 m' f l { d with status := n } := by
  have hdigit : ∀ b, isDigit b = true → digit.has b = true := forall_byte (by decide +kernel)
  obtain ⟨b,ds,hds⟩ := List.exists_cons_of_ne_nil (decimal_ne_nil n)
  have hall : ∀ c ∈ b :: ds, digit.has c = true := fun c hc => hdigit c (isDigit_of_mem_decimal (hds ▸ hc))
  obtain ⟨hb,hrest⟩ := List.forall_mem_cons.mp hall
  have hfirst := h.marked (ActionMachine.move_of_onClass status_moves.first hb)
  obtain ⟨cs',rfl,hread⟩ := hfirst.run (P := (· = 17)) (c := digit) (by
    rintro cs c rfl hc
    exact ⟨17,ActionMachine.move_of_onClass status_moves.digits hc,rfl⟩) hrest rfl
  rw [List.append_assoc pre, List.singleton_append, ← hds] at hread
  refine ⟨pre.length,hread.go (ActionMachine.walk_one status_moves.blank rfl _) fun more σ _ hσ => ?_⟩
  rw [List.append_assoc (pre ++ decimal n)]
  have hcode : ParserAt (σ.perform (pre ++ decimal n ++ ([32] ++ more)) ((pre ++ decimal n).length,.statusCode)) pre.length f l
      { d with status := n } := hσ.status hn (by simp [isDigit])
  exact hcode

/-- The reason phrase up to the end of the line. -/
theorem ResponseReached.reason {reason : Text} (hne : reason ≠ []) (hreason : LineText reason)
    (h : ResponseReached status pre 18 m f l d) :
    ∃ m', ResponseReached status (pre ++ reason ++ TextFrame.crlf) 20 m' f l { d with reason := reason } := by
  obtain ⟨b,s,rfl⟩ := List.exists_cons_of_ne_nil hne
  obtain ⟨hb,hs⟩ := List.forall_mem_cons.mp (lineText_chars hreason)
  have hfirst := h.marked (ActionMachine.move_of_onClass status_moves.reason_first hb)
  obtain ⟨cs',rfl,hread⟩ := hfirst.run (P := (· = 19)) (c := lineChar) (by
    rintro cs c rfl hc
    exact ⟨19,ActionMachine.move_of_onClass status_moves.reason hc,rfl⟩) hs rfl
  rw [List.append_assoc pre, List.singleton_append] at hread
  have hend : ResponseReached status (pre ++ (b :: s) ++ [13]) 24 pre.length f l { d with reason := b :: s } := by
    apply hread.go (ActionMachine.walk_one status_moves.finish rfl _)
    intro more σ hmore hσ
    rw [List.append_assoc (pre ++ _)] at hmore ⊢
    exact hσ.reason hmore
  have hline := hend.quiet status_moves.feed
  rw [List.append_assoc (pre ++ _)] at hline
  exact ⟨_,hline⟩

end Line
end Radixun.Http
