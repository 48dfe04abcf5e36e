import Radixun.Foundation.TextFrame
import Radixun.Http.HttpMessage

/-! What `HttpRequest::dump` and `HttpResponse::dump` print, and how a peer can take it apart again. -/
namespace Radixun.Http
open Radixun.Foundation CString TextFrame

/-- The name at the place of the method in `s_method_string`. -/
def httpMethodToString (m : HttpMethod) : Text := ((methodMap.find? (·.1 = m)).map (·.2)).getD (text "<unknown>")

/-- `HTTP_STATUS_MAP`. -/
def statusMap : List (Int × Text) := [
  (100,text "Continue"), (101,text "Switching Protocols"), (102,text "Processing"), (200,text "OK"),
  (201,text "Created"), (202,text "Accepted"), (203,text "Non-Authoritative Information"),
  (204,text "No Content"), (205,text "Reset Content"), (206,text "Partial Content"),
  (207,text "Multi-Status"), (208,text "Already Reported"), (226,text "IM Used"),
  (300,text "Multiple Choices"), (301,text "Moved Permanently"), (302,text "Found"), (303,text "See Other"),
  (304,text "Not Modified"), (305,text "Use Proxy"), (307,text "Temporary Redirect"),
  (308,text "Permanent Redirect"), (400,text "Bad Request"), (401,text "Unauthorized"),
  (402,text "Payment Required"), (403,text "Forbidden"), (404,text "Not Found"),
  (405,text "Method Not Allowed"), (406,text "Not Acceptable"), (407,text "Proxy Authentication Required"),
  (408,text "Request Timeout"), (409,text "Conflict"), (410,text "Gone"), (411,text "Length Required"),
  (412,text "Precondition Failed"), (413,text "Payload Too Large"), (414,text "URI Too Long"),
  (415,text "Unsupported Media Type"), (416,text "Range Not Satisfiable"), (417,text "Expectation Failed"),
  (421,text "Misdirected Request"), (422,text "Unprocessable Entity"), (423,text "Locked"),
  (424,text "Failed Dependency"), (426,text "Upgrade Required"), (428,text "Precondition Required"),
  (429,text "Too Many Requests"), (431,text "Request Header Fields Too Large"),
  (451,text "Unavailable For Legal Reasons"), (500,text "Internal Server Error"),
  (501,text "Not Implemented"), (502,text "Bad Gateway"), (503,text "Service Unavailable"),
  (504,text "Gateway Timeout"), (505,text "HTTP Version Not Supported"),
  (506,text "Variant Also Negotiates"), (507,text "Insufficient Storage"), (508,text "Loop Detected"),
  (510,text "Not Extended"), (511,text "Network Authentication Required")]

def httpStatusToString (s : Int) : Text := ((statusMap.find? (·.1 = s)).map (·.2)).getD (text "<unknown>")

/-- `(uint32_t)(m_version >> 4)`, a dot and `(uint32_t)(m_version & 0x0F)`. -/
def printVersion (version : UInt8) : Text := decimal (version >>> 4).toNat ++ text "." ++ decimal (version &&& 0x0F).toNat

def printClose (close : Bool) : Text := text "connection: " ++ (if close then text "close" else text "keep-alive")

/-- The loop over the header map, with what is printed between a name and its value. -/
def printHeaders (sep : Text) (headers : MapType) : Text :=
  headers.entries.flatMap fun i => if strcasecmp i.1 (text "connection") = 0 then [] else i.1 ++ sep ++ i.2 ++ crlf

def printBody (body : Text) : Text :=
  if body ≠ [] then text "content-length: " ++ decimal body.length ++ crlf ++ crlf ++ body else crlf

def HttpRequest.startLine (r : HttpRequest) : Text :=
  httpMethodToString r.method ++ text " " ++ r.path ++ (if r.query = [] then [] else text "?") ++ r.query ++
    (if r.fragment = [] then [] else text "#") ++ r.fragment ++ text " HTTP/" ++ printVersion r.version

def HttpRequest.dump (r : HttpRequest) : Text :=
  r.startLine ++ crlf ++ printClose r.close ++ crlf ++ printHeaders (text ":") r.headers ++ printBody r.body

/-- The status goes out as a `uint32_t`. -/
def HttpResponse.startLine (r : HttpResponse) : Text :=
  text "HTTP/" ++ printVersion r.version ++ text " " ++ decimal (r.status % 2^32).toNat ++ text " " ++
    (if r.reason = [] then httpStatusToString r.status else r.reason)

def HttpResponse.dump (r : HttpResponse) : Text :=
  r.startLine ++ crlf ++ printHeaders (text ": ") r.headers ++ printClose r.close ++ crlf ++ printBody r.body

/-- A header line of the output: a line with a colon. -/
def HeaderLine (l : Text) : Prop := LineText l ∧ 58 ∈ l

/-- The lines give one length at most, always with a body, and it is that of the body. -/
structure Sized (lines : List Text) (body : Text) : Prop where
  once : lines.countP (named (text "content-length")) ≤ 1
  present : body ≠ [] → ∃ l ∈ lines, named (text "content-length") l = true
  value : ∀ l ∈ lines, named (text "content-length") l = true → number (fieldValue l) = some body.length

/-- The output is the start line, header lines, an empty line and the body, with a consistent length and
one word on the connection. -/
def Framed (out startLine body : Text) : Prop :=
  LineText startLine ∧ ∃ lines, out = startLine ++ crlf ++ (printLines lines ++ crlf ++ body) ∧
    (∀ l ∈ lines, HeaderLine l) ∧ Sized lines body ∧ lines.countP (named (text "connection")) = 1

/-- Names and values without line breaks. -/
def CleanHeaders (headers : MapType) : Prop := ∀ e ∈ headers.entries, LineText e.1 ∧ LineText e.2

structure HttpRequest.Clean (r : HttpRequest) : Prop where
  headers : CleanHeaders r.headers
  path : LineText r.path
  query : LineText r.query

structure HttpResponse.Clean (r : HttpResponse) : Prop where
  headers : CleanHeaders r.headers
  reason : LineText r.reason

/-- No name goes on behind `connection:`, and a length in the map is the number 0 of an empty body. -/
def Consistent (headers : MapType) (body : Text) : Prop :=
  ∀ e ∈ headers.entries, (named (text "connection") e.1 = true → 58 ∉ e.1) ∧
    (named (text "content-length") e.1 = true → body = [] ∧ 58 ∉ e.1 ∧ number e.2 = some 0)

/-- A header as a line. -/
def headerText (sep : Text) (e : Text × Text) : Text := e.1 ++ sep ++ e.2

/-- The entries the loop over the header map does not skip. -/
def kept (headers : MapType) : List (Text × Text) :=
  headers.entries.filter fun e => strcasecmp e.1 (text "connection") ≠ 0

def lengthLines (body : Text) : List Text :=
  if body ≠ [] then [text "content-length: " ++ decimal body.length] else []

theorem length_split (n : Nat) : text "content-length: " ++ decimal n = text "content-length" ++ 58 :: 32 :: decimal n := by
  have hname : text "content-length: " = text "content-length" ++ [58,32] := by decide
  rw [hname, List.append_assoc]
  rfl

theorem printHeaders_lines (sep : Text) (headers : MapType) :
    printHeaders sep headers = printLines ((kept headers).map (headerText sep)) := by
  unfold printHeaders kept
  induction headers.entries with
  | nil => rfl
  | cons e es ih =>
    rw [List.flatMap_cons, ih]
    by_cases he : strcasecmp e.1 (text "connection") = 0
    · rw [if_pos he, List.filter_cons_of_neg (by simpa using he), List.nil_append]
    · rw [if_neg he, List.filter_cons_of_pos (by simpa using he)]
      rfl

theorem printBody_lines (body : Text) : printBody body = printLines (lengthLines body) ++ crlf ++ body := by
  unfold printBody lengthLines
  by_cases h : body ≠ []
  · rw [if_pos h, if_pos h]
    simp [printLines]
  · rw [if_neg h, if_neg h]
    simp [printLines, not_not.mp h]

theorem printLines_append (ls ls' : List Text) : printLines (ls ++ ls') = printLines ls ++ printLines ls' := by
  simp [printLines]

/-- The lines of a request, and those of a response. -/
def HttpRequest.lines (r : HttpRequest) : List Text :=
  [printClose r.close] ++ (kept r.headers).map (headerText (text ":")) ++ lengthLines r.body

def HttpResponse.lines (r : HttpResponse) : List Text :=
  (kept r.headers).map (headerText (text ": ")) ++ [printClose r.close] ++ lengthLines r.body

theorem HttpRequest.dump_lines (r : HttpRequest) :
    r.dump = r.startLine ++ crlf ++ (printLines r.lines ++ crlf ++ r.body) := by
  have hclose : printLines [printClose r.close] = printClose r.close ++ crlf := by simp [printLines]
  simp only [HttpRequest.dump, HttpRequest.lines, printLines_append, printHeaders_lines, printBody_lines, hclose,
    List.append_assoc]

theorem HttpResponse.dump_lines (r : HttpResponse) :
    r.dump = r.startLine ++ crlf ++ (printLines r.lines ++ crlf ++ r.body) := by
  have hclose : printLines [printClose r.close] = printClose r.close ++ crlf := by simp [printLines]
  simp only [HttpResponse.dump, HttpResponse.lines, printLines_append, printHeaders_lines, printBody_lines, hclose,
    List.append_assoc]

/-- The lines can only be those that were printed. -/
theorem framed_lines {out startLine body : Text} {lines : List Text}
    (hout : out = startLine ++ crlf ++ (printLines lines ++ crlf ++ body)) (hlines : ∀ l ∈ lines, HeaderLine l) :
    Framed out startLine body ↔
      LineText startLine ∧ Sized lines body ∧ lines.countP (named (text "connection")) = 1 := by
  have hline {ls : List Text} (h : ∀ l ∈ ls, HeaderLine l) : ∀ l ∈ ls, LineText l ∧ l ≠ [] := by
    intro l hl
    obtain ⟨htext,hcolon⟩ := h l hl
    exact ⟨htext,List.ne_nil_of_mem hcolon⟩
  constructor
  · rintro ⟨hstart,ls,hls,hheader,hsized,hconn⟩
    obtain ⟨-,hrest⟩ := line_unique hstart hstart (hls.symm.trans hout)
    obtain ⟨rfl,-⟩ := frame_unique (hline hheader) (hline hlines) hrest
    exact ⟨hstart,hsized,hconn⟩
  · rintro ⟨hstart,hsized,hconn⟩
    exact ⟨hstart,lines,hout,hlines,hsized,hconn⟩

theorem strcasecmp_eq_zero_iff {a b : Text} : strcasecmp a b = 0 ↔ (cstr a).map tolower = (cstr b).map tolower :=
  compareBytes_eq_zero (fun _ h => tolower_ne_zero (cstr_ne_zero h)) fun _ h => tolower_ne_zero (cstr_ne_zero h)

/-- What `strcasecmp` sees of a name: all of it, the colon with what follows included. -/
theorem cstr_of_named {name k : Text} (hzero : 0 ∉ name) (h : named name k = true) :
    58 ∉ k ∧ (cstr k).map tolower = name ∨ 58 ∈ k ∧ ∃ rest, (cstr k).map tolower = name ++ 58 :: rest := by
  have hname : (fieldName k).map tolower = name := of_decide_eq_true h
  have hall : ∀ b ∈ fieldName k, decide (b ≠ 0) = true := by
    intro b hb
    simp only [ne_eq, decide_eq_true_eq]
    rintro rfl
    have hmem : tolower 0 ∈ (fieldName k).map tolower := List.mem_map_of_mem hb
    rw [hname] at hmem
    exact hzero hmem
  by_cases hcolon : 58 ∈ k
  · obtain ⟨pre,post,rfl,hpre⟩ := List.eq_append_cons_of_mem hcolon
    rw [fieldName_append, fieldName_self hpre] at hname hall
    refine .inr ⟨hcolon,(cstr post).map tolower,?_⟩
    rw [cstr, List.takeWhile_append_of_pos hall, List.map_append, hname]
    rfl
  · rw [fieldName_self hcolon] at hname hall
    refine .inl ⟨hcolon,?_⟩
    rw [cstr, List.takeWhile_eq_self_iff.mpr hall, hname]

theorem strcasecmp_connection {k : Text} :
    strcasecmp k (text "connection") = 0 ↔ (cstr k).map tolower = text "connection" := by
  rw [strcasecmp_eq_zero_iff]
  exact Iff.rfl

/-- The loop skips what is named `connection`, unless the name goes on behind a colon. -/
theorem mem_kept_connection {headers : MapType} {e : Text × Text} (he : e ∈ headers.entries)
    (h : named (text "connection") e.1 = true) : e ∈ kept headers ↔ 58 ∈ e.1 := by
  have hmem : e ∈ kept headers ↔ ¬(cstr e.1).map tolower = text "connection" := by
    rw [← strcasecmp_connection, kept, List.mem_filter]
    simp [he]
  rw [hmem]
  rcases cstr_of_named (by decide) h with ⟨hcolon,heq⟩ | ⟨hcolon,rest,heq⟩
  · exact ⟨fun hne => absurd heq hne,fun hc => absurd hc hcolon⟩
  · refine ⟨fun _ => hcolon,fun _ hsame => ?_⟩
    have hlen := congrArg List.length (heq.symm.trans hsame)
    rw [List.length_append, List.length_cons] at hlen
    omega

theorem mem_kept_length {headers : MapType} {e : Text × Text} (he : e ∈ headers.entries)
    (h : named (text "content-length") e.1 = true) : e ∈ kept headers := by
  rw [kept, List.mem_filter]
  refine ⟨he,?_⟩
  have hne : ¬(cstr e.1).map tolower = text "connection" := by
    intro hsame
    have hlen := congrArg List.length hsame
    rcases cstr_of_named (by decide) h with ⟨-,heq⟩ | ⟨-,rest,heq⟩
    · rw [heq] at hlen
      cases hlen
    · rw [heq, List.length_append] at hlen
      have h14 : (text "content-length").length = 14 := rfl
      have h10 : (text "connection").length = 10 := rfl
      omega
  simpa [strcasecmp_connection] using hne

/-- At most one element has a property that excludes being in order. -/
theorem countP_le_one {α : Type} {R : α → α → Prop} {l : List α} {p : α → Bool} (h : l.Pairwise R)
    (hp : ∀ a ∈ l, ∀ b ∈ l, p a = true → p b = true → ¬R a b) : l.countP p ≤ 1 := by
  induction l with
  | nil => exact Nat.zero_le 1
  | cons a l ih =>
    obtain ⟨ha,hl⟩ := List.pairwise_cons.mp h
    by_cases hpa : p a = true
    · have hzero : l.countP p = 0 := by
        rw [List.countP_eq_zero]
        intro b hb hpb
        exact hp a List.mem_cons_self b (List.mem_cons_of_mem a hb) hpa hpb (ha b hb)
      rw [List.countP_cons_of_pos hpa, hzero]
    · rw [List.countP_cons_of_neg hpa]
      apply ih hl
      intro b hb c hc
      exact hp b (List.mem_cons_of_mem a hb) c (List.mem_cons_of_mem a hc)

section
variable {headers : MapType} {body blanks : Text} {lines : List Text} {close : Bool}

theorem named_header (name : Text) (e : Text × Text) : named name (headerText (58 :: blanks) e) = named name e.1 := by
  rw [headerText, List.append_assoc, List.cons_append, named_append]

theorem countP_headers (name : Text) (es : List (Text × Text)) :
    (es.map (headerText (58 :: blanks))).countP (named name) = es.countP fun e => named name e.1 := by
  rw [List.countP_map]
  apply List.countP_congr
  intro e _
  rw [Function.comp_apply, named_header]

theorem number_header (hblanks : blanks = [] ∨ blanks = [32]) {e : Text × Text} (h : 58 ∉ e.1) :
    number (fieldValue (headerText (58 :: blanks) e)) = number e.2 := by
  rw [headerText, List.append_assoc, List.cons_append, fieldValue_append h]
  rcases hblanks with rfl | rfl
  · rfl
  · exact number_blank rfl e.2

theorem number_header_colon {e : Text × Text} (h : 58 ∈ e.1) :
    number (fieldValue (headerText (58 :: blanks) e)) = none := by
  rw [headerText, List.append_assoc, List.cons_append, number_colon h]

theorem connection_once
    (hperm : lines.Perm (printClose close :: ((kept headers).map (headerText (58 :: blanks)) ++ lengthLines body))) :
    lines.countP (named (text "connection")) = 1 ↔
      ∀ e ∈ headers.entries, named (text "connection") e.1 = true → 58 ∉ e.1 := by
  have hclose : named (text "connection") (printClose close) = true := by cases close <;> decide
  have hlength : (lengthLines body).countP (named (text "connection")) = 0 := by
    rw [List.countP_eq_zero]
    intro l hl
    unfold lengthLines at hl
    split at hl
    · rw [List.mem_singleton.mp hl]
      rw [length_split, named_append]
      decide
    · cases hl
  rw [hperm.countP_eq, List.countP_cons_of_pos hclose, List.countP_append, countP_headers, hlength, Nat.add_zero,
    Nat.add_eq_right, List.countP_eq_zero]
  constructor
  · intro h e he hn hcolon
    exact h e ((mem_kept_connection he hn).mpr hcolon) hn
  · intro h e hk hn
    have he := (List.mem_filter.mp hk).1
    exact h e he hn ((mem_kept_connection he hn).mp hk)

/-- The computed length line is named so, and its value is the size of the body. -/
theorem length_line (n : Nat) : named (text "content-length") (text "content-length: " ++ decimal n) = true ∧
    number (fieldValue (text "content-length: " ++ decimal n)) = some n := by
  rw [length_split, named_append, fieldValue_append (by decide), number_blank rfl, number_decimal]
  exact ⟨by decide,rfl⟩

/-- The map holds one name at most that is all of `content-length`. -/
theorem length_entries (h : ∀ e ∈ headers.entries, named (text "content-length") e.1 = true → 58 ∉ e.1) :
    (kept headers).countP (fun e => named (text "content-length") e.1) ≤ 1 := by
  apply countP_le_one (headers.sorted.sublist List.filter_sublist)
  intro a ha b hb hna hnb hless
  have hsame {e : Text × Text} (he : e ∈ kept headers) (hn : named (text "content-length") e.1 = true) :
      (cstr e.1).map tolower = text "content-length" := by
    have hcolon := h e (List.mem_filter.mp he).1 hn
    rcases cstr_of_named (by decide) hn with ⟨-,heq⟩ | ⟨hc,-⟩
    · exact heq
    · exact absurd hc hcolon
  have hzero := strcasecmp_eq_zero_iff.mpr ((hsame ha hna).trans (hsame hb hnb).symm)
  rw [caseInsensitiveLess, hzero] at hless
  cases hless

theorem sized_iff (hblanks : blanks = [] ∨ blanks = [32])
    (hperm : lines.Perm (printClose close :: ((kept headers).map (headerText (58 :: blanks)) ++ lengthLines body))) :
    Sized lines body ↔ ∀ e ∈ headers.entries, named (text "content-length") e.1 = true →
      body = [] ∧ 58 ∉ e.1 ∧ number e.2 = some 0 := by
  have hclose : ¬named (text "content-length") (printClose close) = true := by cases close <;> decide
  have hcount : lines.countP (named (text "content-length")) =
      (kept headers).countP (fun e => named (text "content-length") e.1) +
        (lengthLines body).countP (named (text "content-length")) := by
    rw [hperm.countP_eq, List.countP_cons_of_neg hclose, List.countP_append, countP_headers]
  have hlong (hbody : body ≠ []) : lengthLines body = [text "content-length: " ++ decimal body.length] := if_pos hbody
  constructor
  · intro hsized e he hn
    have hkept := mem_kept_length he hn
    have hmem : headerText (58 :: blanks) e ∈ lines :=
      hperm.mem_iff.mpr (List.mem_cons_of_mem _ (List.mem_append_left _ (List.mem_map_of_mem hkept)))
    have hvalue := hsized.value _ hmem (by rw [named_header, hn])
    have hcolon : 58 ∉ e.1 := by
      intro hc
      rw [number_header_colon hc] at hvalue
      cases hvalue
    have hbody : body = [] := by
      by_contra hbody
      have hpos : 0 < (kept headers).countP fun e => named (text "content-length") e.1 :=
        List.countP_pos_iff.mpr ⟨e,hkept,hn⟩
      have honce := hsized.once
      rw [hcount, hlong hbody, List.countP_cons_of_pos (length_line body.length).1] at honce
      omega
    rw [number_header hblanks hcolon, hbody] at hvalue
    exact ⟨hbody,hcolon,hvalue⟩
  · intro h
    by_cases hbody : body = []
    · -- only what the map holds
      have hnone : lengthLines body = [] := if_neg (not_not.mpr hbody)
      refine ⟨?_,fun hne => absurd hbody hne,?_⟩
      · rw [hcount, hnone]
        exact length_entries fun e he hn => (h e he hn).2.1
      · intro l hl hn
        rcases List.mem_cons.mp (hperm.mem_iff.mp hl) with rfl | hl
        · exact absurd hn hclose
        · rw [hnone, List.append_nil] at hl
          obtain ⟨e,he,rfl⟩ := List.mem_map.mp hl
          rw [named_header] at hn
          obtain ⟨-,hcolon,hzero⟩ := h e (List.mem_filter.mp he).1 hn
          rw [number_header hblanks hcolon, hzero, hbody]
          rfl
    · -- only the computed line
      have hfree : ∀ e ∈ kept headers, ¬named (text "content-length") e.1 = true :=
        fun e he hn => hbody (h e (List.mem_filter.mp he).1 hn).1
      obtain ⟨hname,hnumber⟩ := length_line body.length
      refine ⟨?_,fun _ => ⟨_,?_,hname⟩,?_⟩
      · rw [hcount, hlong hbody, List.countP_eq_zero.mpr hfree, List.countP_cons_of_pos hname]
        exact Nat.le_refl 1
      · rw [hperm.mem_iff, hlong hbody]
        exact List.mem_cons_of_mem _ (List.mem_append_right _ (List.mem_singleton_self _))
      · intro l hl hn
        rcases List.mem_cons.mp (hperm.mem_iff.mp hl) with rfl | hl
        · exact absurd hn hclose
        · rcases List.mem_append.mp hl with hl | hl
          · obtain ⟨e,he,rfl⟩ := List.mem_map.mp hl
            rw [named_header] at hn
            exact absurd hn (hfree e he)
          · rw [hlong hbody] at hl
            rw [List.mem_singleton.mp hl, hnumber]

theorem lines_header (hblanks : blanks = [] ∨ blanks = [32]) (hclean : CleanHeaders headers)
    (hperm : lines.Perm (printClose close :: ((kept headers).map (headerText (58 :: blanks)) ++ lengthLines body))) :
    ∀ l ∈ lines, HeaderLine l := by
  intro l hl
  rcases List.mem_cons.mp (hperm.mem_iff.mp hl) with rfl | hl
  · unfold HeaderLine
    cases close <;> decide
  · rcases List.mem_append.mp hl with hl | hl
    · obtain ⟨e,he,rfl⟩ := List.mem_map.mp hl
      obtain ⟨hname,hvalue⟩ := hclean e (List.mem_filter.mp he).1
      have hsep : LineText (58 :: blanks) := by
        rcases hblanks with rfl | rfl <;> decide
      exact ⟨lineText_append.mpr ⟨lineText_append.mpr ⟨hname,hsep⟩,hvalue⟩,
        List.mem_append_left _ (List.mem_append_right _ List.mem_cons_self)⟩
    · unfold lengthLines at hl
      split at hl
      · rw [List.mem_singleton.mp hl]
        exact ⟨lineText_append.mpr ⟨by decide,lineText_decimal _⟩,List.mem_append_left _ (by decide)⟩
      · cases hl

/-- What is printed behind the start line is framed exactly if the header map is consistent. -/
theorem framed_iff {out startLine : Text} (hblanks : blanks = [] ∨ blanks = [32]) (hclean : CleanHeaders headers)
    (hperm : lines.Perm (printClose close :: ((kept headers).map (headerText (58 :: blanks)) ++ lengthLines body)))
    (hout : out = startLine ++ crlf ++ (printLines lines ++ crlf ++ body)) :
    Framed out startLine body ↔ LineText startLine ∧ Consistent headers body := by
  rw [framed_lines hout (lines_header hblanks hclean hperm), sized_iff hblanks hperm, connection_once hperm]
  refine and_congr_right fun _ => ?_
  constructor
  · intro h e he
    exact ⟨h.2 e he,h.1 e he⟩
  · intro h
    exact ⟨fun e he => (h e he).2,fun e he => (h e he).1⟩

end

theorem lineText_method (m : HttpMethod) : LineText (httpMethodToString m) := by
  cases m <;> decide

theorem lineText_status (s : Int) : LineText (httpStatusToString s) := by
  unfold httpStatusToString
  cases hf : statusMap.find? (·.1 = s) with
  | none => decide
  | some e =>
    have hall : ∀ e ∈ statusMap, LineText e.2 := by decide +kernel
    exact hall e (List.mem_of_find?_eq_some hf)

theorem lineText_version (v : UInt8) : LineText (printVersion v) :=
  lineText_append.mpr ⟨lineText_append.mpr ⟨lineText_decimal _,by decide⟩,lineText_decimal _⟩

theorem HttpRequest.lineText_startLine {r : HttpRequest} (h : r.Clean) : LineText r.startLine ↔ LineText r.fragment := by
  have hsep {c : Prop} [Decidable c] {s : Text} (hs : LineText s) : LineText (if c then [] else s) := by
    split
    · intro b hb
      cases hb
    · exact hs
  simp only [startLine, lineText_append, lineText_method, lineText_version, h.path, h.query,
    hsep (by decide : LineText (text "?")), hsep (by decide : LineText (text "#")), (by decide : LineText (text " ")),
    (by decide : LineText (text " HTTP/")), true_and, and_true]

theorem HttpResponse.lineText_startLine {r : HttpResponse} (h : r.Clean) : LineText r.startLine := by
  refine lineText_append.mpr ⟨?_,?_⟩
  · simp only [lineText_append, lineText_version, lineText_decimal, (by decide : LineText (text "HTTP/")),
      (by decide : LineText (text " ")), and_self]
  · split
    · exact lineText_status r.status
    · exact h.reason

theorem HttpRequest.framed_iff {r : HttpRequest} (h : r.Clean) :
    Framed r.dump r.startLine r.body ↔ LineText r.fragment ∧ Consistent r.headers r.body := by
  rw [Http.framed_iff (.inl rfl) h.headers (.refl _) r.dump_lines, lineText_startLine h]

theorem HttpResponse.framed_iff {r : HttpResponse} (h : r.Clean) :
    Framed r.dump r.startLine r.body ↔ Consistent r.headers r.body := by
  have hperm : r.lines.Perm
      (printClose r.close :: ((kept r.headers).map (headerText (58 :: [32])) ++ lengthLines r.body)) := by
    rw [lines, List.append_assoc]
    exact List.perm_middle
  rw [Http.framed_iff (.inr rfl) h.headers hperm r.dump_lines, and_iff_right (lineText_startLine h)]

/-- A clean message is framed unambiguously exactly if its fragment, for a request, stays within the line
and its header map is consistent. -/
theorem dump_framed_iff (req : HttpRequest) (rsp : HttpResponse) :
    (req.Clean → (Framed req.dump req.startLine req.body ↔ LineText req.fragment ∧ Consistent req.headers req.body)) ∧
    (rsp.Clean → (Framed rsp.dump rsp.startLine rsp.body ↔ Consistent rsp.headers rsp.body)) := by
  constructor
  · intro h
    exact HttpRequest.framed_iff h
  · intro h
    exact HttpResponse.framed_iff h

private def withLength : MapType := OrderedMap.empty.put (text "Content-Length") (text "3")

/-- A request as it was parsed from one with a body, printed again: two length lines. -/
theorem dump_two_lengths :
    let r : HttpRequest := { HttpRequest.init with headers := withLength, body := text "abc" }
    r.Clean ∧ r.lines.countP (named (text "content-length")) = 2 ∧ ¬Framed r.dump r.startLine r.body := by
  have hclean : CleanHeaders withLength := by
    unfold CleanHeaders
    decide
  have hr : HttpRequest.Clean { HttpRequest.init with headers := withLength, body := text "abc" } :=
    ⟨hclean,by decide,by decide⟩
  refine ⟨hr,by decide,?_⟩
  rw [HttpRequest.framed_iff hr]
  intro h
  have hlength := (h.2 (text "Content-Length",text "3") (by decide)).2 (by decide)
  exact absurd hlength.1 (by decide)

end Radixun.Http
