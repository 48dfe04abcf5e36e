import Radixun.Http.MethodTokens
import Radixun.Http.RequestReading

/-! Requests from `HttpConnection::sendRequest` to `HttpSession::recvRequest`: what `dump` prints of a
request and what the server's parser makes of it again. -/
namespace Radixun.Http
open Radixun.Foundation CString TextFrame Common.Stream RequestMachine

/-- `boost::lexical_cast<uint64_t>` reads what a stream prints. -/
def ReadsDecimals (cast : Text → Option UInt64) : Prop := ∀ n, n < 2^64 → cast (decimal n) = some (UInt64.ofNat n)

/-- The header lines of a request by names and values. -/
def HttpRequest.printedFields (r : HttpRequest) : List (Text × Text) :=
  [(text "connection",if r.close then text " close" else text " keep-alive")] ++ kept r.headers ++
    (if r.body ≠ [] then [(text "content-length",32 :: decimal r.body.length)] else [])

/-- All of a dump up to the body. -/
def HttpRequest.head (r : HttpRequest) : Text := r.startLine ++ TextFrame.crlf ++ printLines r.lines ++ TextFrame.crlf

def HttpRequest.sent (r : HttpRequest) : Request := ⟨r.head,r.body⟩

def trimmed (fields : List (Text × Text)) : List (Text × Text) := fields.map fun e => (e.1,trimBlanks e.2)

/-- What arrives of a request: nothing sets `m_close`, whose value has become one of the headers, nor the
parameters and cookies. -/
def HttpRequest.received (r : HttpRequest) : HttpRequest :=
  { r with close := true, headers := .putAll .empty (trimmed r.printedFields), params := .empty, cookies := .empty }

/-- A request whose dump the parser takes apart: a method with a name it can read, a path that begins with one
slash, characters the grammar allows, and no announcement of a body that is not there. -/
structure HttpRequest.Sendable (env : Surroundings) (r : HttpRequest) : Prop where
  method : r.method ≠ .MSEARCH ∧ r.method ≠ .INVALID_METHOD
  version : knownVersion r.version
  path : PathText r.path
  query : Spelled queryChar r.query
  fragment : Spelled queryChar r.fragment
  headers : ∀ e ∈ kept r.headers, FieldName e.1 ∧ FieldValue e.2
  body : r.body.length ≤ maxSize
  length : r.body = [] → ∀ e, r.headers.find (text "content-length") = some e →
    (env.lexicalCast (trimBlanks e.2)).getD 0 = 0

section
variable {env : Surroundings} {r : HttpRequest} {u : Uninitialised}

theorem HttpRequest.printedFields_lines (r : HttpRequest) : r.printedFields.map (headerText (text ":")) = r.lines := by
  have hcolon : text ":" = [58] := rfl
  have hconn : text "connection: " = text "connection" ++ [58,32] := by decide
  unfold printedFields lines printClose lengthLines
  rw [List.map_append, List.map_append]
  congr 1
  · cases r.close <;> simp [headerText, hcolon, hconn, show text " close" = 32 :: text "close" by decide,
      show text " keep-alive" = 32 :: text "keep-alive" by decide]
  · split
    · simp [headerText, hcolon, length_split]
    · rfl

theorem HttpRequest.sent_wire (r : HttpRequest) : r.sent.wire = r.dump := by
  rw [dump_lines]
  simp [sent, Request.wire, head]

private theorem values_allowed :
    (FieldName (text "connection") ∧ FieldValue (text " close") ∧ FieldValue (text " keep-alive")) ∧
      FieldName (text "content-length") :=
  ⟨⟨⟨by decide +kernel,by decide +kernel,by decide +kernel⟩,by decide +kernel,by decide +kernel⟩,
    ⟨by decide +kernel,by decide +kernel,by decide +kernel⟩⟩

private theorem digits_allowed (n : Nat) : FieldValue (32 :: decimal n) := by
  have hdigit : ∀ b, isDigit b = true → valueChar.has b = true := forall_byte (by decide +kernel)
  refine List.forall_mem_cons.mpr ⟨by decide +kernel,fun b hb => ?_⟩
  exact hdigit b (isDigit_of_mem_decimal hb)

theorem HttpRequest.Sendable.fields (h : r.Sendable env) : ∀ e ∈ r.printedFields, FieldName e.1 ∧ FieldValue e.2 := by
  obtain ⟨⟨hconn,hclose,hkeep⟩,hlength⟩ := values_allowed
  intro e he
  rcases List.mem_append.mp he with he | he
  · rcases List.mem_append.mp he with he | he
    · rw [List.mem_singleton.mp he]
      refine ⟨hconn,?_⟩
      dsimp only
      split
      · exact hclose
      · exact hkeep
    · exact h.headers e he
  · split at he
    · rw [List.mem_singleton.mp he]
      exact ⟨hlength,digits_allowed _⟩
    · cases he

/-- The name of a method, with what follows it, is read as that method. -/
theorem method_read {m : HttpMethod} (hm : m ≠ .INVALID_METHOD) (rest : Text) :
    (m,httpMethodToString m) ∈ methodMap ∧ charsToHttpMethod (httpMethodToString m ++ rest) = m := by
  have hmem : (m,httpMethodToString m) ∈ methodMap := by
    revert hm
    cases m <;> decide
  exact ⟨hmem,((chars_to_method _ m).mpr ⟨_,hmem,List.prefix_append ..⟩).1⟩

theorem reached_method {relaxed : Bool} (h : r.method ≠ .MSEARCH ∧ r.method ≠ .INVALID_METHOD) :
    ∃ t, Reached relaxed (httpMethodToString r.method ++ text " ") 3 t { HttpRequest.init with method := r.method } := by
  obtain ⟨hmem,-⟩ := method_read h.2 []
  obtain ⟨hevents,hstop⟩ := (line_moves relaxed).method _ hmem h.1
  have hwalk : (requestMachine relaxed).walk 1 ([] : Text).length (httpMethodToString r.method ++ text " ") =
      ⟨[(0,.mark),((httpMethodToString r.method).length,.requestMethod)],.more 3⟩ := by
    rw [show text " " = [32] from rfl, ← hevents, ← hstop]
    rfl
  refine ⟨_,(reached_start relaxed).go hwalk fun more => ?_⟩
  have hread := (method_read h.2 (text " " ++ more)).2
  rw [← List.append_assoc] at hread
  exact makes_method hread h.2

/-- The target of a request, with the blank behind it. -/
theorem Reached.target {relaxed : Bool} {pre path query fragment : Text} {t : Tracker} {r : HttpRequest}
    (h : Reached relaxed pre 3 t r) (hr : r.query = [] ∧ r.fragment = []) (hpath : PathText path)
    (hquery : Spelled queryChar query) (hfragment : Spelled queryChar fragment) :
    ∃ t', Reached relaxed (pre ++ (path ++ (if query = [] then [] else text "?") ++ query ++
        (if fragment = [] then [] else text "#") ++ fragment ++ [32])) 4 t'
      { r with path := path, query := query, fragment := fragment } := by
  have hq : text "?" = [63] := rfl
  have hf : text "#" = [35] := rfl
  cases r
  obtain ⟨rfl,rfl⟩ : _ = [] ∧ _ = [] := hr
  by_cases hqe : query = []
  · by_cases hfe : fragment = []
    · obtain ⟨t',hend⟩ := h.path_end hpath (.inl ⟨rfl,rfl⟩)
      refine ⟨t',?_⟩
      simpa [hqe, hfe] using hend
    · obtain ⟨t1,hhash⟩ := h.path_end hpath (.inr (.inl ⟨rfl,rfl⟩))
      obtain ⟨t',hend⟩ := hhash.fragment_end hfragment hfe
      refine ⟨t',?_⟩
      simpa [hqe, hfe, hf] using hend
  · obtain ⟨t1,hmark⟩ := h.path_end hpath (.inr (.inr ⟨rfl,rfl⟩))
    by_cases hfe : fragment = []
    · obtain ⟨t',hend⟩ := hmark.query_end hquery hqe (.inl ⟨rfl,rfl⟩)
      refine ⟨t',?_⟩
      simpa [hqe, hfe, hq] using hend
    · obtain ⟨t2,hhash⟩ := hmark.query_end hquery hqe (.inr ⟨rfl,rfl⟩)
      obtain ⟨t',hend⟩ := hhash.fragment_end hfragment hfe
      refine ⟨t',?_⟩
      simpa [hqe, hfe, hq, hf] using hend

/-- The parser behind the head of a dump: the head is whole, and the request is the one that was printed. -/
theorem HttpRequest.Sendable.head_parsed (h : r.Sendable env) :
    (headWalk u r.head).stop = .broke 348 r.head.length ∧
      headParsed u [r.head] = ⟨{ r.received with body := [] },0,none⟩ := by
  obtain ⟨t1,hmethod⟩ : ∃ t, Reached u.uriRelaxed _ 3 t _ := reached_method h.method
  obtain ⟨t2,htarget⟩ := hmethod.target ⟨rfl,rfl⟩ h.path h.query h.fragment
  obtain ⟨t3,hversion⟩ := htarget.version h.version
  obtain ⟨t4,hfields⟩ := hversion.fields h.fields
  obtain ⟨hstop,hparsed⟩ := hfields.finish
  have hword : text " HTTP/" = 32 :: text "HTTP/" := by decide
  have hhead : httpMethodToString r.method ++ text " " ++ (r.path ++ (if r.query = [] then [] else text "?") ++ r.query ++
      (if r.fragment = [] then [] else text "#") ++ r.fragment ++ [32]) ++ (text "HTTP/" ++ printVersion r.version) ++ TextFrame.crlf ++
      printLines (r.printedFields.map (headerText (text ":"))) ++ TextFrame.crlf = r.head := by
    rw [HttpRequest.head, HttpRequest.startLine, HttpRequest.printedFields_lines, hword]
    simp
  rw [hhead] at hstop hparsed
  exact ⟨hstop,hparsed⟩

theorem same_iff_strcasecmp {a b : Text} : OrderedMap.same caseInsensitiveLess a b = true ↔ strcasecmp a b = 0 := by
  have hinj : Function.Injective UInt8.toNat := fun _ _ h => UInt8.toNat_inj.mp h
  have hkey (s : Text) : foldKey s = ((cstr s).map tolower).map UInt8.toNat := by
    rw [foldKey, List.map_map]
    rfl
  rw [OrderedMap.same_iff, not_less_iff_of_key foldKey fun a b => by simp [caseInsensitiveLess, strcasecmp_neg],
    strcasecmp_eq_zero_iff, hkey, hkey]
  exact (List.map_injective_iff.mpr hinj).eq_iff

/-- The names printed from the map differ from one another and from `connection`. -/
theorem kept_apart (headers : MapType) (word : Text) :
    (trimmed ((text "connection",word) :: kept headers)).Pairwise fun a b => OrderedMap.same caseInsensitiveLess a.1 b.1 = false := by
  rw [trimmed, List.pairwise_map, List.pairwise_cons]
  constructor
  · intro e he
    have hne := (List.mem_filter.mp he).2
    rw [decide_eq_true_eq] at hne
    rw [← Bool.not_eq_true, same_iff_strcasecmp]
    intro hzero
    exact hne (strcasecmp_eq_zero_iff.mpr (strcasecmp_eq_zero_iff.mp hzero).symm)
  · apply (headers.sorted.sublist List.filter_sublist).imp
    intro a b hless
    rw [OrderedMap.same, hless]
    rfl

/-- The names printed from the map are found as in the map. -/
theorem find_kept_entries (headers : MapType) {k : Text} (hconn : OrderedMap.same caseInsensitiveLess k (text "connection") = false) :
    (kept headers).find? (fun e => OrderedMap.same caseInsensitiveLess k e.1) = headers.find k := by
  have hkeep : ∀ e : Text × Text, OrderedMap.same caseInsensitiveLess k e.1 = true → strcasecmp e.1 (text "connection") ≠ 0 := by
    intro e hk hzero
    rw [OrderedMap.same_trans hk (same_iff_strcasecmp.mpr hzero)] at hconn
    cases hconn
  rw [kept, List.find?_filter, OrderedMap.find, OrderedMap.findEntry]
  congr 1
  funext e
  cases hk : OrderedMap.same caseInsensitiveLess k e.1 with
  | false => simp
  | true => simp [hkeep e hk]

/-- What the map is found to hold when all names but `connection` were printed. -/
theorem find_kept (headers : MapType) (word : Text) {k : Text}
    (hconn : OrderedMap.same caseInsensitiveLess k (text "connection") = false) :
    (OrderedMap.empty.putAll (trimmed ((text "connection",word) :: kept headers)) : MapType).find k =
      (headers.find k).map fun e => (e.1,trimBlanks e.2) := by
  have hmap : OrderedMap.findEntry caseInsensitiveLess k (trimmed ((text "connection",word) :: kept headers)) =
      (headers.find k).map fun e => (e.1,trimBlanks e.2) := by
    rw [OrderedMap.findEntry, trimmed, List.map_cons, List.find?_cons, hconn, List.find?_map, ← find_kept_entries headers hconn]
    rfl
  have hempty (e : Text × Text) : (OrderedMap.empty : MapType).find e.1 = none := rfl
  rw [OrderedMap.find_putAll_apart (kept_apart headers word), hmap]
  simp only [hempty, Option.map_none, Option.getD_none]
  cases headers.find k with
  | none => rfl
  | some e => rfl

theorem trim_decimal (n : Nat) : trimBlanks (32 :: decimal n) = decimal n := by
  have hdigit : ∀ b, isDigit b = true → isBlank b = false := forall_byte (by decide +kernel)
  rw [trimBlanks, List.dropWhile_cons_of_pos (by decide)]
  cases h : decimal n with
  | nil => rfl
  | cons b bs =>
    have hb : b ∈ decimal n := h ▸ List.mem_cons_self
    rw [List.dropWhile_cons_of_neg (by simp [hdigit b (isDigit_of_mem_decimal hb)])]

/-- The headers that arrive: the word on the connection, what the map holds, and the length of a body. -/
theorem HttpRequest.received_headers (r : HttpRequest) : ∃ word, r.received.headers =
    if r.body = [] then .putAll .empty (trimmed ((text "connection",word) :: kept r.headers))
    else (OrderedMap.empty.putAll (trimmed ((text "connection",word) :: kept r.headers)) : MapType).put (text "content-length")
      (decimal r.body.length) := by
  refine ⟨if r.close then text " close" else text " keep-alive",?_⟩
  by_cases hbody : r.body = []
  · rw [if_pos hbody]
    simp [received, printedFields, hbody]
  · rw [if_neg hbody]
    simp [received, printedFields, hbody, trimmed, OrderedMap.putAll, trim_decimal]

/-- The header a lookup finds behind the trip: the same one, without the blanks in front of its value. -/
theorem HttpRequest.received_find (r : HttpRequest) {k : Text} (hconn : OrderedMap.same caseInsensitiveLess k (text "connection") = false)
    (hlength : OrderedMap.same caseInsensitiveLess k (text "content-length") = false ∨ r.body = []) :
    r.received.headers.find k = (r.headers.find k).map fun e => (e.1,trimBlanks e.2) := by
  obtain ⟨word,hword⟩ := r.received_headers
  rw [hword, ← find_kept r.headers word hconn]
  split
  · rfl
  · rename_i hbody
    rw [OrderedMap.find_put, hlength.resolve_right hbody]
    rfl

/-- The length that arrives is that of the body. -/
theorem HttpRequest.Sendable.announced (h : r.Sendable env) (hcast : ReadsDecimals env.lexicalCast) :
    (getAs env.lexicalCast r.received.headers (text "content-length") 0).toNat = r.body.length := by
  have hbound : r.body.length < 2^64 := Nat.lt_of_le_of_lt h.body (by decide)
  by_cases hbody : r.body = []
  · have hfind := r.received_find (k := text "content-length") (by decide +kernel) (.inr hbody)
    rw [getAs, hfind, hbody]
    cases hlen : r.headers.find (text "content-length") with
    | none => rfl
    | some e =>
      rw [Option.map_some]
      dsimp only
      rw [h.length hbody e hlen]
      rfl
  · obtain ⟨word,hword⟩ := r.received_headers
    rw [hword, if_neg hbody, getAs, OrderedMap.find_put, if_pos (OrderedMap.same_refl _)]
    dsimp only
    rw [hcast _ hbound, Option.getD_some, UInt64.toNat_ofNat']
    exact Nat.mod_eq_of_lt hbound

theorem HttpRequest.Sendable.sent_wellFormed (h : r.Sendable env) (hcast : ReadsDecimals env.lexicalCast) :
    r.sent.WellFormed env := by
  obtain ⟨hstop,hparsed⟩ := h.head_parsed (u := env.uninitialised)
  have hannounced := h.announced hcast
  exact ⟨⟨348,hstop⟩,congrArg Parsed.thrown hparsed,congrArg Parsed.error hparsed,by rw [HttpRequest.sent, hparsed]; exact hannounced⟩

theorem HttpRequest.Sendable.sent_message (h : r.Sendable env) : r.sent.message u = r.received := by
  rw [Request.message, HttpRequest.sent, h.head_parsed.2]
  rfl

end

/-- Successive calls return the requests that were sent, in order, and none takes bytes of a later one off the
connection. -/
def Receives (env : Surroundings) : List Arrival → List HttpRequest → Prop
  | _, [] => True
  | as, r :: rs =>
    (recvRequest env as).outcome = .returned r.received ∧
    unread (recvRequest env as).rest = (rs.map HttpRequest.dump).flatten ∧ Receives env (recvRequest env as).rest rs

theorem Receives.step_iff {env : Surroundings} (hcast : ReadsDecimals env.lexicalCast) {segs : List Text} {r : HttpRequest}
    {later : Text} (hreads : Reads env.bufferSize segs) (hstream : segs.flatten = r.dump ++ later) (hr : r.Sendable env)
    (hwhole : r.head.length ≤ (segs.headD []).length) :
    let c := recvRequest env (segs.map .bytes)
    (c.outcome = .returned r.received ∧ unread c.rest = later ↔ ReadsNoFurther env segs [r.sent]) ∧
    (c.outcome = .returned r.received → unread c.rest = later → c.rest = (dropBytes r.sent.wire.length segs).map .bytes) := by
  have hwf := hr.sent_wellFormed hcast
  have hflat : segs.flatten = r.sent.wire ++ later := by rw [hstream, r.sent_wire]
  cases segs with
  | nil =>
    obtain ⟨cs,hends⟩ := hwf.ends
    have hpos : 0 < r.head.length := (ActionMachine.broke_bounds hends).1
    rw [List.headD_nil, List.length_nil] at hwhole
    omega
  | cons s ss =>
    obtain ⟨hcall,hrest⟩ := call_iff hreads hflat hwf hwhole
    rw [hr.sent_message] at hcall hrest
    refine ⟨hcall.trans ?_,hrest⟩
    rw [ReadsNoFurther, ReadsNoFurther, and_true]
    rfl

theorem receives_iff {env : Surroundings} (hcast : ReadsDecimals env.lexicalCast) {segs : List Text}
    {rs : List HttpRequest} (hreads : Reads env.bufferSize segs) (hstream : segs.flatten = (rs.map HttpRequest.dump).flatten)
    (hsend : ∀ r ∈ rs, r.Sendable env) (hwhole : HeadsWhole segs (rs.map HttpRequest.sent)) :
    Receives env (segs.map .bytes) rs ↔ ReadsNoFurther env segs (rs.map HttpRequest.sent) := by
  induction rs generalizing segs with
  | nil => exact Iff.rfl
  | cons r rs ih =>
    obtain ⟨hr,hrs⟩ := List.forall_mem_cons.mp hsend
    obtain ⟨hfirst,hlater⟩ := hwhole
    rw [List.map_cons, List.flatten_cons] at hstream
    obtain ⟨hcall,hrest⟩ := Receives.step_iff hcast hreads hstream hr hfirst
    have hdrop : (dropBytes r.sent.wire.length segs).flatten = (rs.map HttpRequest.dump).flatten := by
      rw [dropBytes_flatten, hstream, ← r.sent_wire, List.drop_left]
    have hih := ih (dropBytes_short _ hreads) hdrop hrs hlater
    rw [List.map_cons, Receives, ReadsNoFurther, ← hih, ← and_assoc]
    rw [ReadsNoFurther, ReadsNoFurther, and_true] at hcall
    constructor
    · rintro ⟨hc,hreceives⟩
      rw [hrest hc.1 hc.2] at hreceives
      exact ⟨hcall.mp hc,hreceives⟩
    · rintro ⟨hc,hreceives⟩
      have hc := hcall.mpr hc
      exact ⟨hc,(hrest hc.1 hc.2).symm ▸ hreceives⟩

/-- Requests printed by clients arrive as they were, one call of the server for each, exactly when no read
brings bytes behind the request it completes. What arrives has the start line, the body and, under every
name but those of the lines `dump` writes itself, the header of what was sent. -/
theorem requests_received_iff {env : Surroundings} (hcast : ReadsDecimals env.lexicalCast) {segs : List Text}
    {rs : List HttpRequest} (hreads : Reads env.bufferSize segs) (hstream : segs.flatten = (rs.map HttpRequest.dump).flatten)
    (hsend : ∀ r ∈ rs, r.Sendable env) (hwhole : HeadsWhole segs (rs.map HttpRequest.sent)) :
    (Receives env (segs.map .bytes) rs ↔ ReadsNoFurther env segs (rs.map HttpRequest.sent)) ∧
    ∀ r ∈ rs, ∀ k, strcasecmp k (text "connection") ≠ 0 → strcasecmp k (text "content-length") ≠ 0 →
      r.received.headers.find k = (r.headers.find k).map fun e => (e.1,trimBlanks e.2) := by
  constructor
  · exact receives_iff hcast hreads hstream hsend hwhole
  · intro r _ k hconn hlength
    apply r.received_find
    · rw [← Bool.not_eq_true, same_iff_strcasecmp]
      exact hconn
    · rw [← Bool.not_eq_true, same_iff_strcasecmp]
      exact .inl hlength

theorem readDecimal_reads : ReadsDecimals readDecimal := by
  intro n hn
  have hall : (decimal n).all isDigit = true := List.all_eq_true.mpr fun b => isDigit_of_mem_decimal
  rw [readDecimal, digits_decimal, if_pos ⟨decimal_ne_nil n,hall,hn⟩]

private def decimals : Surroundings := ⟨4096,readDecimal,⟨0,false⟩⟩

private def getRequest : HttpRequest :=
  { HttpRequest.init with
    path := text "/a%20b"
    query := text "x=1"
    fragment := text "top"
    headers := HttpRequest.init.headers.put (text "Host") (text "  a.example") }

private def postRequest : HttpRequest := { HttpRequest.init with method := .POST, close := false, body := text "hi" }

private theorem getRequest_sendable : getRequest.Sendable decimals := by
  have hname : FieldName (text "Host") := ⟨by decide +kernel,by decide +kernel,by decide +kernel⟩
  have hkept : kept getRequest.headers = [(text "Host",text "  a.example")] := by decide +kernel
  have htail : getRequest.path.tail = 97 :: 37 :: 50 :: 48 :: 98 :: [] := by decide +kernel
  refine ⟨by decide +kernel,.inr rfl,⟨by decide +kernel,by decide +kernel,?_⟩,spelled_of_all (by decide +kernel),
    spelled_of_all (by decide +kernel),?_,by decide +kernel,?_⟩
  · rw [htail]
    exact .char (by decide +kernel) (.escape (by decide +kernel) (by decide +kernel) (.char (by decide +kernel) .nil))
  · intro e he
    rw [hkept] at he
    rw [List.mem_singleton.mp he]
    exact ⟨hname,by decide +kernel⟩
  · intro _ e he
    have hnone : getRequest.headers.find (text "content-length") = none := by decide +kernel
    rw [hnone] at he
    cases he

private theorem postRequest_sendable : postRequest.Sendable decimals := by
  refine ⟨by decide +kernel,.inr rfl,⟨by decide +kernel,by decide +kernel,spelled_of_all (by decide +kernel)⟩,
    .nil,.nil,?_,by decide +kernel,?_⟩
  · intro e he
    cases he
  · intro hbody
    cases hbody

/-- A request with all parts of a target and one with a body, each in a read of its own. -/
theorem two_requests_received :
    Receives decimals ([getRequest.dump,postRequest.dump].map .bytes) [getRequest,postRequest] := by
  refine (requests_received_iff readDecimal_reads ?_ ?_ ?_ ?_).1.mpr ?_
  · unfold Reads
    decide +kernel
  · rfl
  · intro r hr
    rcases List.mem_cons.mp hr with rfl | hr
    · exact getRequest_sendable
    · exact List.mem_singleton.mp hr ▸ postRequest_sendable
  · exact ⟨by decide +kernel,by decide +kernel,trivial⟩
  · exact ⟨by decide +kernel,by decide +kernel,trivial⟩

end Radixun.Http
