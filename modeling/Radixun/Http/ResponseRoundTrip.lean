import Radixun.Http.ContentLengthBody
import Radixun.Http.ResponseFields

/-! Responses from `HttpSession::sendResponse` to `HttpConnection::recvResponse`: what `dump` prints of a
response and what the client's parser makes of it again. -/
namespace Radixun.Http
open Radixun.Foundation CString TextFrame Common.Stream ResponseMachine

/-- The moves over the line on the connection and over the end of a head. -/
structure CloseMoves : Prop where
  close : (responseMachine.walk 20 0 (text "connection: close\r\n")).events =
      [(0,.startField),(10,.writeField),(11,.mark),(12,.mark),(17,.writeValue)] ∧
    (responseMachine.walk 20 0 (text "connection: close\r\n")).stop = .more 43
  keep : (responseMachine.walk 20 0 (text "connection: keep-alive\r\n")).events =
      [(0,.startField),(10,.writeField),(11,.mark),(12,.mark),(22,.writeValue)] ∧
    (responseMachine.walk 20 0 (text "connection: keep-alive\r\n")).stop = .more 20
  stop : responseMachine.move 20 13 = some ([],3) ∧ responseMachine.move 43 13 = some ([.writeConnectionClose],3)
  done : responseMachine.move 3 10 = some ([.done],120)

theorem close_moves : CloseMoves :=
  ⟨by decide +kernel,by decide +kernel,⟨rfl,rfl⟩,rfl⟩

section
variable {status : Int} {pre : Text} {cs m f l : Nat} {d : HttpResponse}

/-- The word for `m_close`. -/
def closeWord (close : Bool) : Text := if close then text "close" else text "keep-alive"

/-- The line on the connection is a header as well; behind `close` the machine stands in a state of its own. -/
theorem ResponseReached.connection (close : Bool) (h : ResponseReached status pre 20 m f l d) :
    ∃ cs' ∈ [20,43], ∃ m' f' l', ResponseReached status (pre ++ (printClose close ++ TextFrame.crlf)) cs' m' f' l'
      { d with headers := d.headers.put (text "connection") (closeWord close) } := by
  have hline : printClose close ++ TextFrame.crlf = text "connection" ++ text ": " ++ closeWord close ++ TextFrame.crlf := by
    cases close <;> decide
  obtain ⟨cs',hcs,hwalk⟩ : ∃ cs' ∈ [20,43], responseMachine.walk 20 pre.length (printClose close ++ TextFrame.crlf) =
      ⟨[(pre.length,.startField),((pre ++ text "connection").length,.writeField),(11 + pre.length,.mark),
        ((pre ++ text "connection" ++ text ": ").length,.mark),
        ((pre ++ text "connection" ++ text ": " ++ closeWord close).length,.writeValue)],.more cs'⟩ := by
    cases close with
    | true =>
      refine ⟨43,by simp,?_⟩
      rw [show printClose true ++ TextFrame.crlf = text "connection: close\r\n" by decide,
        ActionMachine.walk_literal close_moves.close.1 close_moves.close.2]
      simp [text, closeWord, Nat.add_comm pre.length]
    | false =>
      refine ⟨20,by simp,?_⟩
      rw [show printClose false ++ TextFrame.crlf = text "connection: keep-alive\r\n" by decide,
        ActionMachine.walk_literal close_moves.keep.1 close_moves.keep.2]
      simp [text, closeWord, Nat.add_comm pre.length]
  have hend : ResponseReached status (pre ++ (printClose close ++ TextFrame.crlf)) cs'
    (pre ++ text "connection" ++ text ": ").length pre.length
      (text "connection").length { d with headers := d.headers.put (text "connection") (closeWord close) } := by
    apply h.go hwalk
    intro more σ hlen hσ
    have hsame : pre ++ (printClose close ++ TextFrame.crlf) ++ more =
        pre ++ text "connection" ++ text ": " ++ closeWord close ++ (TextFrame.crlf ++ more) := by
      rw [hline]
      simp
    rw [hsame] at hlen ⊢
    have hname : len pre.length (pre ++ text "connection").length = (text "connection").length := by
      have hcat : pre ++ text "connection" ++ text ": " ++ closeWord close ++ (TextFrame.crlf ++ more) =
          pre ++ text "connection" ++ (text ": " ++ closeWord close ++ (TextFrame.crlf ++ more)) := by simp
      rw [hcat] at hlen
      exact len_middle hlen
    have hstart (buffer : Text) : ParserAt ((σ.perform buffer (pre.length,.startField)).perform buffer
        ((pre ++ text "connection").length,.writeField)) m pre.length (text "connection").length d := by
      have hfirst : ParserAt (σ.perform buffer (pre.length,.startField)) m pre.length l d := hσ.startField
      rw [← hname]
      exact hfirst.writeField
    exact ParserAt.field (List.cons_ne_nil _ _) hlen (hstart _).setMark.setMark
  exact ⟨cs',hcs,_,_,_,hend⟩

/-- An empty line ends the head, whatever the buffer holds behind it. -/
theorem ResponseReached.finish (hcs : cs ∈ [20,43]) (h : ResponseReached status pre cs m f l d) {more : Text}
    (hlen : (pre ++ TextFrame.crlf ++ more).length ≤ recvMax) :
    ∃ σ, Finishes (responseCalls false) (.init status) (pre ++ TextFrame.crlf ++ more) σ more ∧ σ.data = d ∧ σ.parser.chunked = false := by
  obtain ⟨es,hwalk,hat⟩ : ResponseReached status (pre ++ [13]) 3 m f l d := by
    rcases List.mem_cons.mp hcs with rfl | hcs
    · exact h.quiet close_moves.stop.1
    · obtain rfl := List.mem_singleton.mp hcs
      apply h.go (ActionMachine.walk_one close_moves.stop.2 rfl _)
      intro more σ _ hσ
      have hclose : ParserAt (σ.perform (pre ++ [13] ++ more) (pre.length,.writeConnectionClose)) m f l d := hσ.idle (.inl rfl)
      exact hclose
  obtain ⟨e,hedge,heq⟩ := Option.map_eq_some_iff.mp close_moves.done
  obtain ⟨hacts,htarget⟩ := Prod.mk.inj heq
  have hcat : pre ++ TextFrame.crlf ++ more = pre ++ [13] ++ (10 :: more) := by simp [TextFrame.crlf]
  have hhead : responseMachine.walk 1 0 (pre ++ TextFrame.crlf ++ more) =
      ⟨es ++ [((pre ++ [13]).length,.done)],.broke 120 (pre ++ TextFrame.crlf).length⟩ := by
    rw [hcat, ActionMachine.walk_append (by rw [hwalk]), ActionMachine.walk_cons_break hedge (by rw [hacts]; rfl), hwalk, hacts, htarget]
    simp [Walk.after, TextFrame.crlf]
  have hσ := hat (10 :: more) (hcat ▸ hlen)
  rw [← hcat] at hσ
  generalize hσ' : es.foldl (HttpResponseParser.perform (pre ++ TextFrame.crlf ++ more)) (.init status) = σ at hσ
  have hran : (HttpResponseParser.init status).execute (pre ++ TextFrame.crlf ++ more) false =
      ((σ.perform (pre ++ TextFrame.crlf ++ more) ((pre ++ [13]).length,.done)).land (pre ++ TextFrame.crlf ++ more)
        (.broke 120 (pre ++ TextFrame.crlf).length),more) := by
    have hreset : (HttpResponseParser.init status).reset = .init status := rfl
    have hwalk' : (HttpResponseParser.init status).walk (pre ++ TextFrame.crlf ++ more) = _ := hhead
    have hdrop : (pre ++ TextFrame.crlf ++ more).drop (pre ++ TextFrame.crlf).length = more := List.drop_left
    simp only [HttpResponseParser.execute, Bool.false_eq_true, if_false, HttpResponseParser.httpclientParserExecute, hwalk', hreset,
      List.foldl_append, List.foldl_cons, List.foldl_nil, hσ', HttpResponseParser.land, hdrop]
  rw [hσ.perform_eq] at hran
  refine ⟨_,⟨hran,rfl,?_,?_⟩,hσ.data,hσ.chunked⟩
  · simp [responseCalls, HttpResponseParser.hasError, HttpResponseParser.perform, HttpResponseParser.land, hσ.error]
  · simp [responseCalls, HttpResponseParser.isFinished, HttpResponseParser.land]

end
/-- What goes out as the reason. -/
def HttpResponse.printedReason (r : HttpResponse) : Text := if r.reason = [] then httpStatusToString r.status else r.reason

/-- All of a dump up to the body. -/
def HttpResponse.head (r : HttpResponse) : Text := r.startLine ++ TextFrame.crlf ++ printLines r.lines ++ TextFrame.crlf

def trimmedWhite (fields : List (Text × Text)) : List (Text × Text) := fields.map fun e => (e.1,trimWhite e.2)

/-- What arrives of a response: nothing sets `m_close`, whose value has become one of the headers. -/
def HttpResponse.received (r : HttpResponse) : HttpResponse :=
  let headers : MapType := (OrderedMap.empty.putAll (trimmedWhite (kept r.headers)) : MapType).put (text "connection") (closeWord r.close)
  { r with
    close := true
    reason := r.printedReason
    headers := if r.body = [] then headers else headers.put (text "content-length") (decimal r.body.length) }

/-- A response whose dump the parser takes apart: a status that is not negative, a reason and headers that stay
within their lines, and no word on a chunked body or on the length of a body that is not there. -/
structure HttpResponse.Sendable (env : Surroundings) (r : HttpResponse) : Prop where
  status : 0 ≤ r.status ∧ r.status < 2^31
  version : knownVersion r.version
  reason : LineText r.reason
  headers : ∀ e ∈ kept r.headers, TokenName e.1 ∧ LineText e.2
  unchunked : ∀ e ∈ kept r.headers, e.1.map tolower ≠ text "transfer-encoding"
  counted : ∀ e ∈ kept r.headers, e.1.map tolower = text "content-length" → trimWhite e.2 ≠ []
  body : r.body.length < 2^31
  length : r.body = [] → ∀ e, r.headers.find (text "content-length") = some e → (env.lexicalCast (trimWhite e.2)).getD 0 = 0

section
variable {env : Surroundings} {r : HttpResponse} {status : Int}

theorem TokenName.nonzero {name : Text} (h : TokenName name) : 0 ∉ name := by
  intro hzero
  exact absurd (h.chars 0 hzero) (by decide)

/-- A name that is printed is not the one of the line on the connection. -/
theorem kept_not_connection {headers : MapType} {e : Text × Text} (he : e ∈ kept headers) (hname : TokenName e.1) :
    e.1.map tolower ≠ text "connection" := by
  have hne := (List.mem_filter.mp he).2
  rw [decide_eq_true_eq] at hne
  intro hsame
  apply hne
  rw [strcasecmp_connection, cstr_of_nonzero hname.nonzero, hsame]

/-- A list of header lines from the map. -/
theorem ResponseReached.fields {fields : List (Text × Text)} {pre : Text} {m f l : Nat} {d : HttpResponse}
    (hnames : ∀ e ∈ fields, TokenName e.1 ∧ LineText e.2) (hconn : ∀ e ∈ fields, e.1.map tolower ≠ text "connection")
    (hplain : ∀ e ∈ fields, e.1.map tolower ≠ text "transfer-encoding")
    (hcounted : ∀ e ∈ fields, e.1.map tolower = text "content-length" → trimWhite e.2 ≠ [])
    (h : ResponseReached status pre 20 m f l d) :
    ∃ m' f' l', ResponseReached status (pre ++ printLines (fields.map (headerText (text ": ")))) 20 m' f' l'
      { d with headers := d.headers.putAll (trimmedWhite fields) } := by
  induction fields generalizing pre m f l d with
  | nil =>
    refine ⟨m,f,l,?_⟩
    rw [show printLines (List.map (headerText (text ": ")) []) = [] from rfl, List.append_nil]
    exact h
  | cons e fields ih =>
    obtain ⟨⟨hname,hvalue⟩,hnames⟩ := List.forall_mem_cons.mp hnames
    obtain ⟨hec,hconn⟩ := List.forall_mem_cons.mp hconn
    obtain ⟨het,hplain⟩ := List.forall_mem_cons.mp hplain
    obtain ⟨hel,hcounted⟩ := List.forall_mem_cons.mp hcounted
    have htrim : trimWhite (32 :: e.2) = trimWhite e.2 := List.dropWhile_cons_of_pos (by decide)
    have hblank : LineText (32 :: e.2) := List.forall_mem_cons.mpr ⟨by decide,hvalue⟩
    obtain ⟨m1,f1,l1,hline⟩ := h.field hname hblank hec het (by rw [htrim]; exact hel) (by simp)
    rw [htrim] at hline
    obtain ⟨m2,f2,l2,hrest⟩ := ih hnames hconn hplain hcounted hline
    refine ⟨m2,f2,l2,?_⟩
    have hcat : printLines ((e :: fields).map (headerText (text ": "))) =
        (e.1 ++ 58 :: (32 :: e.2) ++ TextFrame.crlf) ++ printLines (fields.map (headerText (text ": "))) := by
      simp [printLines, headerText, text]
    rw [hcat, ← List.append_assoc]
    exact hrest

theorem HttpResponse.printedReason_line (h : LineText r.reason) : r.printedReason ≠ [] ∧ LineText r.printedReason := by
  have hknown : ∀ e ∈ statusMap, e.2 ≠ [] := by decide +kernel
  unfold printedReason
  split
  · refine ⟨?_,lineText_status _⟩
    unfold httpStatusToString
    cases hfind : statusMap.find? (·.1 = r.status) with
    | none => decide
    | some e => exact hknown e (List.mem_of_find?_eq_some hfind)
  · rename_i hne
    exact ⟨hne,h⟩

theorem trimWhite_decimal (n : Nat) : trimWhite (32 :: decimal n) = decimal n := by
  have hdigit : ∀ b, isDigit b = true → isWhite b = false := forall_byte (by decide +kernel)
  rw [trimWhite, List.dropWhile_cons_of_pos (by decide)]
  cases h : decimal n with
  | nil => rfl
  | cons b bs =>
    have hb : b ∈ decimal n := h ▸ List.mem_cons_self
    rw [List.dropWhile_cons_of_neg (by simp [hdigit b (isDigit_of_mem_decimal hb)])]

/-- The line with the length of a body. -/
theorem ResponseReached.length {pre : Text} {cs m f l : Nat} {d : HttpResponse} (body : Text) (hcs : cs ∈ [20,43])
    (h : ResponseReached status pre cs m f l d) :
    ∃ cs' ∈ [20,43], ∃ m' f' l', ResponseReached status (pre ++ printLines (lengthLines body)) cs' m' f' l'
      { d with headers := if body = [] then d.headers else d.headers.put (text "content-length") (decimal body.length) } := by
  unfold lengthLines
  by_cases hbody : body = []
  · rw [if_neg (not_not.mpr hbody), if_pos hbody, show printLines [] = [] from rfl, List.append_nil]
    exact ⟨cs,hcs,m,f,l,h⟩
  · have hname : TokenName (text "content-length") := ⟨by decide +kernel,by decide +kernel⟩
    have hvalue : LineText (32 :: decimal body.length) := List.forall_mem_cons.mpr ⟨by decide +kernel,lineText_decimal _⟩
    obtain ⟨m1,f1,l1,hline⟩ := h.field hname hvalue (by decide +kernel) (by decide +kernel)
      (fun _ => by rw [trimWhite_decimal]; exact decimal_ne_nil _) hcs
    rw [trimWhite_decimal] at hline
    have hcat : printLines [text "content-length: " ++ decimal body.length] =
        text "content-length" ++ 58 :: (32 :: decimal body.length) ++ TextFrame.crlf := by
      rw [length_split]
      simp [printLines]
    rw [if_pos hbody, if_neg hbody, hcat]
    exact ⟨20,by simp,m1,f1,l1,hline⟩

/-- The parser behind the head of a dump, whatever the buffer holds behind it. -/
theorem HttpResponse.Sendable.head_parsed (h : r.Sendable env) (status : Int) {more : Text} (hlen : (r.head ++ more).length ≤ recvMax) :
    ∃ σ, Finishes (responseCalls false) (.init status) (r.head ++ more) σ more ∧ σ.data = { r.received with body := [] } ∧
      σ.parser.chunked = false := by
  obtain ⟨hpos,hsmall⟩ := h.status
  obtain ⟨hne,hreason⟩ := HttpResponse.printedReason_line h.reason
  have hprinted : (r.status % 2^32).toNat = r.status.toNat := by omega
  have hvalue : (r.status.toNat : Int) = r.status := Int.toNat_of_nonneg hpos
  have hversion : ResponseReached status _ 16 0 0 0 _ := responseReached_version h.version
  obtain ⟨m1,hstatus⟩ := hversion.statusCode (n := r.status.toNat) (by omega)
  obtain ⟨m2,hline⟩ := hstatus.reason hne hreason
  obtain ⟨m3,f3,l3,hfields⟩ := hline.fields h.headers (fun e he => kept_not_connection he (h.headers e he).1) h.unchunked h.counted
  obtain ⟨cs4,hcs4,m4,f4,l4,hconn⟩ := hfields.connection r.close
  obtain ⟨cs5,hcs5,m5,f5,l5,hall⟩ := hconn.length r.body hcs4
  have hhead : text "HTTP/" ++ printVersion r.version ++ [32] ++ decimal r.status.toNat ++ [32] ++ r.printedReason ++ TextFrame.crlf ++
      printLines ((kept r.headers).map (headerText (text ": "))) ++ (printClose r.close ++ TextFrame.crlf) ++
        printLines (lengthLines r.body) ++
      TextFrame.crlf = r.head := by
    rw [HttpResponse.head, HttpResponse.startLine, hprinted, HttpResponse.lines, printLines_append, printLines_append,
      ← HttpResponse.printedReason, show text " " = [32] from rfl, show printLines [printClose r.close] = printClose r.close ++
        TextFrame.crlf by
        simp [printLines]]
    simp
  rw [← hhead] at hlen ⊢
  obtain ⟨σ,hfinish,hdata,hchunked⟩ := hall.finish hcs5 hlen
  refine ⟨σ,hfinish,?_,hchunked⟩
  rw [hdata, HttpResponse.received, hvalue]
  rfl

/-- The header a lookup finds behind the trip: the same one, without the blanks in front of its value. -/
theorem HttpResponse.received_find (r : HttpResponse) {k : Text}
    (hconn : OrderedMap.same caseInsensitiveLess k (text "connection") = false)
    (hlength : OrderedMap.same caseInsensitiveLess k (text "content-length") = false ∨ r.body = []) :
    r.received.headers.find k = (r.headers.find k).map fun e => (e.1,trimWhite e.2) := by
  have hapart : (trimmedWhite (kept r.headers)).Pairwise fun a b => OrderedMap.same caseInsensitiveLess a.1 b.1 = false := by
    rw [trimmedWhite, List.pairwise_map]
    apply (r.headers.sorted.sublist List.filter_sublist).imp
    intro a b hless
    rw [OrderedMap.same, hless]
    rfl
  have hmap : OrderedMap.findEntry caseInsensitiveLess k (trimmedWhite (kept r.headers)) =
      (r.headers.find k).map fun e => (e.1,trimWhite e.2) := by
    rw [OrderedMap.findEntry, trimmedWhite, List.find?_map, ← find_kept_entries r.headers hconn]
    rfl
  have hempty (e : Text) : (OrderedMap.empty : MapType).find e = none := rfl
  have hplain : ((OrderedMap.empty.putAll (trimmedWhite (kept r.headers)) : MapType).put (text "connection") (closeWord r.close)).find k =
      (r.headers.find k).map fun e => (e.1,trimWhite e.2) := by
    rw [OrderedMap.find_put, hconn, if_neg Bool.false_ne_true, OrderedMap.find_putAll_apart hapart, hmap]
    simp only [hempty, Option.map_none, Option.getD_none]
    cases r.headers.find k with
    | none => rfl
    | some e => rfl
  rw [HttpResponse.received]
  dsimp only
  split
  · exact hplain
  · rename_i hbody
    rw [OrderedMap.find_put, hlength.resolve_right hbody]
    exact hplain

/-- The length that arrives is that of the body. -/
theorem HttpResponse.Sendable.announced (h : r.Sendable env) (hcast : ReadsDecimals env.lexicalCast) :
    (getAs env.lexicalCast r.received.headers (text "content-length") 0).toNat = r.body.length := by
  have hsmall := h.body
  have hbound : r.body.length < 2^64 := by omega
  by_cases hbody : r.body = []
  · have hfind := r.received_find (k := text "content-length") (by decide +kernel) (.inr hbody)
    rw [getAs, hfind, hbody]
    cases hlen : r.headers.find (text "content-length") with
    | none => rfl
    | some e =>
      rw [Option.map_some]
      dsimp only
      rw [h.length hbody e hlen]
      rfl
  · rw [HttpResponse.received]
    dsimp only
    rw [if_neg hbody, getAs, OrderedMap.find_put, if_pos (OrderedMap.same_refl _)]
    dsimp only
    rw [hcast _ hbound, Option.getD_some, UInt64.toNat_ofNat']
    exact Nat.mod_eq_of_lt hbound

/-- The call behind the loop over the head. -/
theorem HttpResponse.Sendable.outcome (h : r.Sendable env) (hcast : ReadsDecimals env.lexicalCast) (d : Delivery env.bufferSize)
    (hhead : d.head = r.head) (hbody : r.body <+: d.stream) (hfull : isFull env.bufferSize d.leftover.length = false) :
    (recvResponse env status d.arrivals).outcome = .returned r.received := by
  have hsmall := h.body
  have hlen : (r.head ++ d.leftover).length ≤ recvMax := hhead ▸ Nat.le_trans d.fits (Nat.min_le_right ..)
  obtain ⟨σ,hfinish,hdata,hchunked⟩ := h.head_parsed status hlen
  rw [← hhead] at hfinish
  have hne : d.head ≠ [] := by
    rw [hhead, HttpResponse.head]
    exact List.append_ne_nil_of_right_ne_nil _ (List.cons_ne_nil _ _)
  have hlength : int64 (σ.getContentLength env.lexicalCast) = r.body.length := by
    have hannounced := h.announced hcast
    rw [HttpResponseParser.getContentLength, hdata]
    rw [int64_nat (by rw [hannounced]; omega), hannounced]
  unfold recvResponse
  rw [parseLoop_first d hfinish hne, hfull]
  dsimp only
  rw [if_neg Bool.false_ne_true]
  dsimp only
  rw [hchunked, hlength, if_neg Bool.false_ne_true, hdata]
  by_cases hempty : r.body = []
  · rw [if_neg (by simp [hempty])]
    have hsame : { r.received with body := [] } = r.received := by
      rw [HttpResponse.received, hempty]
    rw [hsame]
  · have hpos := List.length_pos_iff.mpr hempty
    have hstream : d.stream.length = d.leftover.length + d.later.flatten.length := List.length_append
    have hle := hbody.length_le
    have htake : d.stream.take r.body.length = r.body := (List.prefix_iff_eq_take.mp hbody).symm
    rw [if_pos (by omega), recvBody_pieces (by unfold maxSize; omega) _ d.pieces]
    by_cases hfit : r.body.length ≤ d.leftover.length
    · have hbytes : d.leftover.take r.body.length = r.body := by
        rw [← List.take_append_of_le_length hfit]
        exact htake
      rw [if_pos hfit, hbytes]
      rfl
    · have hint : 0 < int (r.body.length - d.leftover.length) := by
        rw [int_small (by omega)]
        omega
      have hbytes : (d.leftover ++ d.later.flatten).take r.body.length = r.body := htake
      rw [if_neg hfit, if_pos (by omega), if_pos hint, hbytes]
      rfl

/-- A read that looks like one that filled the buffer closes the connection. -/
theorem HttpResponse.Sendable.closed (h : r.Sendable env) (d : Delivery env.bufferSize) (hhead : d.head = r.head)
    (hfull : isFull env.bufferSize d.leftover.length = true) : (recvResponse env status d.arrivals).outcome = .closed := by
  have hlen : (r.head ++ d.leftover).length ≤ recvMax := hhead ▸ Nat.le_trans d.fits (Nat.min_le_right ..)
  obtain ⟨σ,hfinish,-,-⟩ := h.head_parsed status hlen
  rw [← hhead] at hfinish
  have hne : d.head ≠ [] := by
    rw [hhead, HttpResponse.head]
    exact List.append_ne_nil_of_right_ne_nil _ (List.cons_ne_nil _ _)
  unfold recvResponse
  rw [parseLoop_first d hfinish hne, hfull]
  rfl

end

/-- A response printed by the server arrives as it was exactly when the read that brings its head does not look
like one that filled the buffer: the status line, the body, and under every name but those of the lines `dump`
writes itself the header of what was sent. -/
theorem response_received_iff {env : Surroundings} (hcast : ReadsDecimals env.lexicalCast) (status : Int) {r : HttpResponse}
    (h : r.Sendable env) (d : Delivery env.bufferSize) (hhead : d.head = r.head) (hbody : r.body <+: d.stream) :
    ((recvResponse env status d.arrivals).outcome = .returned r.received ↔ isFull env.bufferSize d.leftover.length = false) ∧
    ∀ k, strcasecmp k (text "connection") ≠ 0 → strcasecmp k (text "content-length") ≠ 0 →
      r.received.headers.find k = (r.headers.find k).map fun e => (e.1,trimWhite e.2) := by
  constructor
  · constructor
    · intro hreturned
      by_contra hfull
      rw [Bool.not_eq_false] at hfull
      rw [h.closed d hhead hfull] at hreturned
      cases hreturned
    · intro hfull
      exact h.outcome hcast d hhead hbody hfull
  · intro k hconn hlength
    apply r.received_find
    · rw [← Bool.not_eq_true, same_iff_strcasecmp]
      exact hconn
    · rw [← Bool.not_eq_true, same_iff_strcasecmp]
      exact .inl hlength

private def responseEnv : Surroundings := ⟨4096,readDecimal,⟨0,false⟩⟩

private def hello : HttpResponse :=
  { HttpResponse.init with
    close := false
    headers := (HttpResponse.init.headers.put (text "Content-Type") (text "text/html")).put (text "Server") (text "\tradixun/1.0.0")
    body := text "hello" }

private theorem hello_sendable : hello.Sendable responseEnv := by
  have hkept : kept hello.headers = [(text "Content-Type",text "text/html"),(text "Server",text "\tradixun/1.0.0")] := by decide +kernel
  have htype : TokenName (text "Content-Type") := ⟨by decide +kernel,by decide +kernel⟩
  have hserver : TokenName (text "Server") := ⟨by decide +kernel,by decide +kernel⟩
  refine ⟨by decide +kernel,.inr rfl,by decide +kernel,?_,?_,?_,by decide +kernel,?_⟩
  · rw [hkept]
    exact List.forall_mem_cons.mpr ⟨⟨htype,by decide +kernel⟩,List.forall_mem_singleton.mpr ⟨hserver,by decide +kernel⟩⟩
  · rw [hkept]
    decide +kernel
  · rw [hkept]
    decide +kernel
  · intro hbody
    cases hbody

private def helloInPieces : Delivery 4096 :=
  ⟨hello.head,text "he",[text "l",text "lo and more"],by decide +kernel,by unfold Pieces; decide +kernel⟩

/-- A response whose body comes in three pieces, with bytes behind it. -/
theorem hello_received : (recvResponse responseEnv 0 helloInPieces.arrivals).outcome = .returned hello.received :=
  (response_received_iff readDecimal_reads 0 hello_sendable helloInPieces rfl ⟨text " and more",by decide +kernel⟩).1.mpr
    (by decide +kernel)

end Radixun.Http
