import Radixun.Foundation.CString

/-! The messages of `http.h`: methods, header maps, requests and responses. -/
namespace Radixun.Http
open Radixun.Foundation CString

abbrev Text := List UInt8

def text (s : String) : Text := s.toList.map fun c => UInt8.ofNat c.toNat

inductive HttpMethod where
  | DELETE | GET | HEAD | POST | PUT
  | CONNECT | OPTIONS | TRACE
  | COPY | LOCK | MKCOL | MOVE | PROPFIND | PROPPATCH | SEARCH | UNLOCK | BIND | REBIND | UNBIND | ACL
  | REPORT | MKACTIVITY | CHECKOUT | MERGE
  | MSEARCH | NOTIFY | SUBSCRIBE | UNSUBSCRIBE
  | PATCH | PURGE
  | MKCALENDAR
  | LINK | UNLINK
  | SOURCE
  | INVALID_METHOD
  deriving DecidableEq, Repr

/-- `HTTP_METHOD_MAP`. -/
def methodMap : List (HttpMethod × Text) := [
  (.DELETE,text "DELETE"), (.GET,text "GET"), (.HEAD,text "HEAD"), (.POST,text "POST"), (.PUT,text "PUT"),
  (.CONNECT,text "CONNECT"), (.OPTIONS,text "OPTIONS"), (.TRACE,text "TRACE"),
  (.COPY,text "COPY"), (.LOCK,text "LOCK"), (.MKCOL,text "MKCOL"), (.MOVE,text "MOVE"),
  (.PROPFIND,text "PROPFIND"), (.PROPPATCH,text "PROPPATCH"), (.SEARCH,text "SEARCH"), (.UNLOCK,text "UNLOCK"),
  (.BIND,text "BIND"), (.REBIND,text "REBIND"), (.UNBIND,text "UNBIND"), (.ACL,text "ACL"),
  (.REPORT,text "REPORT"), (.MKACTIVITY,text "MKACTIVITY"), (.CHECKOUT,text "CHECKOUT"), (.MERGE,text "MERGE"),
  (.MSEARCH,text "M-SEARCH"), (.NOTIFY,text "NOTIFY"), (.SUBSCRIBE,text "SUBSCRIBE"),
  (.UNSUBSCRIBE,text "UNSUBSCRIBE"), (.PATCH,text "PATCH"), (.PURGE,text "PURGE"),
  (.MKCALENDAR,text "MKCALENDAR"), (.LINK,text "LINK"), (.UNLINK,text "UNLINK"), (.SOURCE,text "SOURCE")]

/-- Tries the names in the order of the map, each over its own length only. -/
def charsToHttpMethod (m : Text) : HttpMethod :=
  ((methodMap.find? fun x => strncmp x.2 m x.2.length = 0).map (·.1)).getD .INVALID_METHOD

/-- `CaseInsensitiveLess`. -/
def caseInsensitiveLess (lhs rhs : Text) : Bool := strcasecmp lhs rhs < 0

instance : StrictWeakOrder caseInsensitiveLess :=
  .of_key foldKey fun a b => by simp [caseInsensitiveLess, strcasecmp_neg]

abbrev MapType := OrderedMap Text Text caseInsensitiveLess

/-- `getAs`, with the `lexical_cast` to the wanted type. -/
def getAs {T : Type} (cast : Text → Option T) (m : MapType) (key : Text) (default : T) : T :=
  match m.find key with
  | none => default
  | some it => (cast it.2).getD default

structure HttpRequest where
  method : HttpMethod
  version : UInt8
  close : Bool
  path : Text
  query : Text
  fragment : Text
  body : Text
  headers : MapType
  params : MapType
  cookies : MapType
  deriving DecidableEq

/-- The constructor with its default arguments. -/
def HttpRequest.init : HttpRequest := ⟨.GET,0x11,true,text "/",[],[],[],.empty,.empty,.empty⟩

/-- The status is the number behind `HttpStatus`. -/
structure HttpResponse where
  status : Int
  version : UInt8
  close : Bool
  body : Text
  reason : Text
  headers : MapType
  deriving DecidableEq

def HttpResponse.init : HttpResponse := ⟨200,0x11,true,[],[],.empty⟩

end Radixun.Http
