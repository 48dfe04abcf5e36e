import Radixun.Http.RequestParser
import Radixun.Http.ResponseMachine

/-! `HttpResponseParser`: the registers of `httpclient_parser`, what the actions of the machine do to
them and to the response, and the execution over one buffer. -/
namespace Radixun.Http
open Radixun.Foundation CString

/-- `struct httpclient_parser` without its callbacks. -/
structure HttpclientParser where
  cs : Nat
  bodyStart : Nat
  contentLen : Int
  status : Int
  chunked : Bool
  chunksDone : Bool
  close : Bool
  nread : Nat
  mark : Nat
  fieldStart : Nat
  fieldLen : Nat
  deriving DecidableEq

/-- `httpclient_parser_init`; the status stays as it is. -/
def httpclientParserInit (status : Int) : HttpclientParser := ⟨1,0,-1,status,false,false,false,0,0,0,0⟩

structure HttpResponseParser where
  parser : HttpclientParser
  data : HttpResponse
  error : Nat
  thrown : Option Fault
  deriving DecidableEq

namespace HttpResponseParser

def init (status : Int) : HttpResponseParser := ⟨httpclientParserInit status,HttpResponse.init,0,none⟩

def withChars (s : HttpResponseParser) (buffer : Text) (start length : Nat) (f : Text → HttpResponseParser) :
    HttpResponseParser :=
  match chars buffer start length with
  | .error e => { s with thrown := some e }
  | .ok t => f t

def onResponseReason (s : HttpResponseParser) (buffer : Text) (start length : Nat) : HttpResponseParser :=
  s.withChars buffer start length fun t => { s with data := { s.data with reason := t } }

def onResponseStatus (s : HttpResponseParser) (buffer : Text) (start : Nat) : HttpResponseParser :=
  { s with data := { s.data with status := atoi (buffer.drop start) } }

def onResponseVersion (s : HttpResponseParser) (buffer : Text) (start length : Nat) : HttpResponseParser :=
  match versionOf (buffer.drop start) length with
  | some v => { s with data := { s.data with version := v } }
  | none => { s with error := 1001 }

def onResponseHttpField (s : HttpResponseParser) (buffer : Text) (field flen value vlen : Nat) : HttpResponseParser :=
  if flen = 0 then s
  else s.withChars buffer field flen fun key => s.withChars buffer value vlen fun val =>
    { s with data := { s.data with headers := s.data.headers.put key val } }

open ResponseMachine in
/-- One action of `httpclient_parser.rl` with `fpc` at the offset of the event. The callbacks for a chunk
size, the last chunk and the end of the headers do nothing. -/
def perform (buffer : Text) (s : HttpResponseParser) (event : Nat × Action) : HttpResponseParser :=
  if s.thrown.isSome then s
  else
    let p := event.1
    let r := s.parser
    match event.2 with
    | .mark => { s with parser := { r with mark := p } }
    | .startField => { s with parser := { r with fieldStart := p } }
    | .writeField => { s with parser := { r with fieldLen := len r.fieldStart p } }
    | .writeContentLen => { s with parser := { r with contentLen := toInt (strtol 10 (buffer.drop r.mark)) } }
    | .writeConnectionClose => { s with parser := { r with close := true } }
    | .writeValue => s.onResponseHttpField buffer r.fieldStart r.fieldLen r.mark (len r.mark p)
    | .reasonPhrase => s.onResponseReason buffer r.mark (len r.mark p)
    | .statusCode =>
      ({ s with parser := { r with status := toInt (strtol 10 (buffer.drop r.mark)) } } : HttpResponseParser).onResponseStatus
        buffer r.mark
    | .httpVersion => s.onResponseVersion buffer r.mark (len r.mark p)
    | .chunkSize =>
      let contentLen := toInt (strtol 16 (buffer.drop r.mark))
      { s with parser := { r with chunked := true, contentLen := contentLen, chunksDone := contentLen ≤ 0 } }
    | .transChunked => { s with parser := { r with chunked := true } }
    | .done => { s with parser := { r with bodyStart := p + 1 } }

def reset (s : HttpResponseParser) : HttpResponseParser :=
  { s with parser := { s.parser with nread := 0, mark := 0, fieldLen := 0, fieldStart := 0 } }

def walk (s : HttpResponseParser) (data : Text) : Walk ResponseMachine.Action :=
  responseMachine.walk s.parser.cs 0 data

def land (s : HttpResponseParser) (data : Text) : Stop → HttpResponseParser
  | .more cs => { s with parser := { s.parser with cs := cs, nread := data.length } }
  | .broke cs p => { s with parser := { s.parser with cs := cs, nread := p } }
  | .failed p => { s with parser := { s.parser with cs := 0, nread := p } }

/-- `httpclient_parser_execute`. -/
def httpclientParserExecute (s : HttpResponseParser) (data : Text) : HttpResponseParser :=
  ((s.walk data).events.foldl (perform data) s.reset).land data (s.walk data).stop

def execute (s : HttpResponseParser) (data : Text) (chunk : Bool) : HttpResponseParser × Text :=
  let s := if chunk then { s with parser := httpclientParserInit s.parser.status } else s
  let s := s.httpclientParserExecute data
  (s,data.drop s.parser.nread)

def isFinished (s : HttpResponseParser) : Int := if s.parser.cs = 0 then -1 else if s.parser.cs = 120 then 1 else 0
def hasError (s : HttpResponseParser) : Bool := s.error ≠ 0 || s.parser.cs = 0

def getContentLength (s : HttpResponseParser) (cast : Text → Option UInt64) : UInt64 :=
  getAs cast s.data.headers (text "content-length") 0

end HttpResponseParser
end Radixun.Http
