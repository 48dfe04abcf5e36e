import Radixun.Common.StreamFixSize
import Radixun.Http.HttpMessage
import Radixun.Http.RequestMachine

/-! `HttpRequestParser`: the registers of `http_parser`, what the actions of the machine do to them and
to the request, and the execution over one buffer. -/
namespace Radixun.Http
open Radixun.Foundation CString Common.Stream

/-- `std::string::max_size()`. -/
def maxSize : Nat := 2^62 - 1

inductive Fault where
  | lengthError
  | overrun
  deriving DecidableEq, Repr

/-- `std::string(at, length)` over what is in the buffer. -/
def chars (buffer : Text) (start length : Nat) : Except Fault Text :=
  if maxSize < length then .error .lengthError
  else if buffer.length < start + length then .error .overrun
  else .ok ((buffer.drop start).take length)

inductive Callback where
  | requestMethod | requestUri | fragment | requestPath | queryString | httpVersion | headerDone | httpField
  deriving DecidableEq, Repr

/-- A pointer and length handed to a callback, the pointer as an offset into a buffer of `size` bytes. -/
structure Report where
  callback : Callback
  start : Nat
  length : Nat
  size : Nat
  deriving DecidableEq, Repr

def Report.Inside (r : Report) : Prop := r.start + r.length ≤ r.size

instance (r : Report) : Decidable r.Inside := inferInstanceAs (Decidable (_ ≤ _))

/-- `struct http_parser` without its callbacks. -/
structure HttpParser where
  cs : Nat
  bodyStart : Nat
  contentLen : Nat
  nread : Nat
  mark : Nat
  fieldStart : Nat
  fieldLen : Nat
  queryStart : Nat
  xmlSent : Bool
  jsonSent : Bool
  uriRelaxed : Bool
  deriving DecidableEq

/-- The members `http_parser_init` leaves as it finds them. -/
structure Uninitialised where
  queryStart : Nat
  uriRelaxed : Bool

/-- `thrown` is the exception on its way out, `reports` what the callbacks were handed so far. -/
structure HttpRequestParser where
  parser : HttpParser
  data : HttpRequest
  error : Nat
  thrown : Option Fault
  reports : List Report
  deriving DecidableEq

def httpParserInit (u : Uninitialised) : HttpParser := ⟨1,0,0,0,0,0,0,u.queryStart,false,false,u.uriRelaxed⟩

/-- `LEN(AT,FPC)`. -/
def len (mark fpc : Nat) : Nat := sizeT ((fpc : Int) - mark)

/-- What `on_request_version` makes of the version. -/
def versionOf (s : Text) (length : Nat) : Option UInt8 :=
  if strncmp s (text "HTTP/1.1") length = 0 then some 0x11
  else if strncmp s (text "HTTP/1.0") length = 0 then some 0x10
  else none

namespace HttpRequestParser

def init (u : Uninitialised) : HttpRequestParser := ⟨httpParserInit u,HttpRequest.init,0,none,[]⟩

def report (s : HttpRequestParser) (c : Callback) (buffer : Text) (start length : Nat) : HttpRequestParser :=
  { s with reports := s.reports ++ [⟨c,start,length,buffer.length⟩] }

/-- Goes on with the characters, or with the exception their string throws. -/
def withChars (s : HttpRequestParser) (buffer : Text) (start length : Nat) (f : Text → HttpRequestParser) :
    HttpRequestParser :=
  match chars buffer start length with
  | .error e => { s with thrown := some e }
  | .ok t => f t

def onRequestMethod (s : HttpRequestParser) (buffer : Text) (start length : Nat) : HttpRequestParser :=
  let s := s.report .requestMethod buffer start length
  let m := charsToHttpMethod (buffer.drop start)
  if m = .INVALID_METHOD then { s with error := 1000 } else { s with data := { s.data with method := m } }

def onRequestUri (s : HttpRequestParser) (buffer : Text) (start length : Nat) : HttpRequestParser :=
  s.report .requestUri buffer start length

def onRequestFragment (s : HttpRequestParser) (buffer : Text) (start length : Nat) : HttpRequestParser :=
  let s := s.report .fragment buffer start length
  s.withChars buffer start length fun t => { s with data := { s.data with fragment := t } }

def onRequestPath (s : HttpRequestParser) (buffer : Text) (start length : Nat) : HttpRequestParser :=
  let s := s.report .requestPath buffer start length
  s.withChars buffer start length fun t => { s with data := { s.data with path := t } }

def onRequestQuery (s : HttpRequestParser) (buffer : Text) (start length : Nat) : HttpRequestParser :=
  let s := s.report .queryString buffer start length
  s.withChars buffer start length fun t => { s with data := { s.data with query := t } }

def onRequestVersion (s : HttpRequestParser) (buffer : Text) (start length : Nat) : HttpRequestParser :=
  let s := s.report .httpVersion buffer start length
  match versionOf (buffer.drop start) length with
  | some v => { s with data := { s.data with version := v } }
  | none => { s with error := 1001 }

def onRequestHeaderDone (s : HttpRequestParser) (buffer : Text) (start length : Nat) : HttpRequestParser :=
  s.report .headerDone buffer start length

def onRequestHttpField (s : HttpRequestParser) (buffer : Text) (field flen value vlen : Nat) : HttpRequestParser :=
  let s := (s.report .httpField buffer field flen).report .httpField buffer value vlen
  if flen = 0 then s
  else s.withChars buffer field flen fun key => s.withChars buffer value vlen fun val =>
    { s with data := { s.data with headers := s.data.headers.put key val } }

open RequestMachine in
/-- One action of `http11_parser.rl` with `fpc` at the offset `p`. -/
def act (buffer : Text) (s : HttpRequestParser) (p : Nat) : Action → HttpRequestParser
  | .mark => { s with parser := { s.parser with mark := p } }
  | .startField => { s with parser := { s.parser with fieldStart := p } }
  | .writeField => { s with parser := { s.parser with fieldLen := len s.parser.fieldStart p } }
  | .writeValue =>
    s.onRequestHttpField buffer s.parser.fieldStart s.parser.fieldLen s.parser.mark (len s.parser.mark p)
  | .requestMethod => s.onRequestMethod buffer s.parser.mark (len s.parser.mark p)
  | .requestUri => s.onRequestUri buffer s.parser.mark (len s.parser.mark p)
  | .fragment => s.onRequestFragment buffer s.parser.mark (len s.parser.mark p)
  | .startQuery => { s with parser := { s.parser with queryStart := p } }
  | .queryString => s.onRequestQuery buffer s.parser.queryStart (len s.parser.queryStart p)
  | .httpVersion => s.onRequestVersion buffer s.parser.mark (len s.parser.mark p)
  | .requestPath => s.onRequestPath buffer s.parser.mark (len s.parser.mark p)
  | .xml => { s with parser := { s.parser with xmlSent := true } }
  | .json => { s with parser := { s.parser with jsonSent := true } }
  | .done =>
    if s.parser.xmlSent || s.parser.jsonSent then
      { s with parser := { s.parser with bodyStart := s.parser.mark, contentLen := p - s.parser.mark + 1 } }
    else
      ({ s with parser := { s.parser with bodyStart := p + 1 } } : HttpRequestParser).onRequestHeaderDone buffer (p + 1)
        (buffer.length - p - 1)

/-- The action of an event; an exception leaves the loop. -/
def perform (buffer : Text) (s : HttpRequestParser) (event : Nat × RequestMachine.Action) : HttpRequestParser :=
  if s.thrown.isSome then s else s.act buffer event.1 event.2

/-- The registers `http_parser_execute` resets; `query_start` is not among them. -/
def reset (s : HttpRequestParser) : HttpRequestParser :=
  { s with parser := { s.parser with nread := 0, mark := 0, fieldLen := 0, fieldStart := 0 } }

def walk (s : HttpRequestParser) (data : Text) : Walk RequestMachine.Action :=
  (requestMachine s.parser.uriRelaxed).walk s.parser.cs 0 data

/-- `cs` and `nread` from where the walk over the buffer ends. -/
def land (s : HttpRequestParser) (data : Text) : Stop → HttpRequestParser
  | .more cs => { s with parser := { s.parser with cs := cs, nread := data.length } }
  | .broke cs p => { s with parser := { s.parser with cs := cs, nread := p } }
  | .failed p => { s with parser := { s.parser with cs := 0, nread := p } }

/-- `http_parser_execute`, with the number of bytes parsed. -/
def httpParserExecute (s : HttpRequestParser) (data : Text) : HttpRequestParser × Nat :=
  if data.length = 0 then (s,0)
  else
    let s := ((s.walk data).events.foldl (perform data) s.reset).land data (s.walk data).stop
    (s,s.parser.nread)

/-- The parser after a buffer and what `memmove` leaves at the front of the buffer. -/
def execute (s : HttpRequestParser) (data : Text) : HttpRequestParser × Text :=
  let (s,offset) := s.httpParserExecute data
  (s,data.drop offset)

def isFinished (s : HttpRequestParser) : Int := if s.parser.cs = 0 then -1 else if 348 ≤ s.parser.cs then 1 else 0
def hasError (s : HttpRequestParser) : Bool := s.error ≠ 0 || s.parser.cs = 0

/-- The announced length of the body, by the `lexical_cast` to `uint64_t`. -/
def getContentLength (s : HttpRequestParser) (cast : Text → Option UInt64) : UInt64 :=
  getAs cast s.data.headers (text "content-length") 0

end HttpRequestParser
end Radixun.Http
