import Radixun.Common.StreamFixSize
import Radixun.Http.Connection
import Radixun.Http.ConnectionPool
import Radixun.Http.MessageDump
import Radixun.Http.QueryParameters
import Radixun.Http.Uri

/-! `HttpConnection::DoRequest` and `HttpConnectionPool::doRequest`: the request they build, and what they make
of the calls below them. -/
namespace Radixun.Http
open Radixun.Foundation CString Common.Stream TextFrame
open Query (Parameters)

inductive HttpResult.Error where
  | OK | INVALID_URL | INVALID_HOST | CONNECT_FAIL | SEND_CLOSE_BY_PEER | SEND_SOCKET_ERROR | TIMEOUT
  | CREATE_SOCKET_ERROR | POOL_GET_CONNECTION | POOL_INVALID_CONNECTION
  deriving DecidableEq, Repr

structure HttpResult where
  result : HttpResult.Error
  response : Option HttpResponse
  error : Text
  deriving DecidableEq

/-- What the calls below the client find: the address of a host with a port, in its printed form, whether there is
a socket and whether it connects, what the calls of `write` return, what arrives afterwards, and `errno` with its
text. -/
structure Network where
  lookup : Text → Int → Option Text
  created : Bool
  connected : Bool
  writes : List Int
  arrivals : List Arrival
  errno : Int
  errstr : Text

/-- The request of a loop over the headers, with `has_host`. -/
structure Addressed where
  req : HttpRequest
  hasHost : Bool

/-- A turn of the loop over the headers. -/
def Addressed.header (s : Addressed) (i : Text × Text) : Addressed :=
  if strcasecmp i.1 (text "connection") = 0 then
    if strcasecmp i.2 (text "keep-alive") = 0 then { s with req := { s.req with close := false } } else s
  else
    ⟨{ s.req with headers := s.req.headers.put i.1 i.2 },
      if !s.hasHost && strcasecmp i.1 (text "host") = 0 then i.2 ≠ [] else s.hasHost⟩

/-- The loop over the headers and what follows it, in front of the second `DoRequest`. -/
def HttpRequest.addressed (req : HttpRequest) (headers : Parameters) (host body : Text) : HttpRequest :=
  let s := headers.entries.foldl Addressed.header ⟨req,false⟩
  { s.req with
    headers := if s.hasHost then s.req.headers else s.req.headers.put (text "Host") host
    body := body }

/-- `errno=` and `errstr=` behind a text. -/
def Network.errors (net : Network) (s : Text) : Text :=
  s ++ text " errno=" ++ Uri.printInt net.errno ++ text " errstr=" ++ net.errstr

/-- `sendRequest`, which waits while `write` does. -/
def sendRequest (req : HttpRequest) (writes : List Int) : Option Int := (writeFixSize req.dump.length writes).returned

/-- From `sendRequest` on, with the address of the peer; the same in `DoRequest` and in `doRequest`. -/
def Network.request (net : Network) (env : Surroundings) (status : Int) (addr : Text) (timeoutMs : UInt64)
    (req : HttpRequest) : Outcome HttpResult :=
  match sendRequest req net.writes with
  | none => .waiting
  | some rt =>
    if rt = 0 then .returned ⟨.SEND_CLOSE_BY_PEER,none,text "send request closed by peer: " ++ addr⟩
    else if rt < 0 then .returned ⟨.SEND_SOCKET_ERROR,none,net.errors (text "send request socket error")⟩
    else match (recvResponse env status net.arrivals).outcome with
      | .returned rsp => .returned ⟨.OK,some rsp,text "ok"⟩
      | .closed => .returned ⟨.TIMEOUT,none,text "recv response timeout: " ++ addr ++ text " timeout_ms:" ++ decimal timeoutMs.toNat⟩
      | .thrown f => .thrown f
      | .waiting => .waiting

namespace HttpConnection
variable (net : Network) (env : Surroundings) (status : Int)

/-- `DoRequest` with a request. -/
def doRequest (req : HttpRequest) (uri : Uri) (timeoutMs : UInt64) : Outcome HttpResult :=
  match net.lookup uri.host uri.getPort with
  | none => .returned ⟨.INVALID_HOST,none,text "invalid host: " ++ uri.host⟩
  | some addr =>
    if !net.created then .returned ⟨.CREATE_SOCKET_ERROR,none,net.errors (text "create socket fail: " ++ addr)⟩
    else if !net.connected then .returned ⟨.CONNECT_FAIL,none,text "connect fail: " ++ addr⟩
    else net.request env status addr timeoutMs req

/-- The request `DoRequest` builds from its other arguments. -/
def newRequest (method : HttpMethod) (uri : Uri) (headers : Parameters) (body : Text) : HttpRequest :=
  HttpRequest.addressed
    { HttpRequest.init with path := uri.getPath, query := uri.query, fragment := uri.fragment, method := method }
    headers uri.host body

/-- `DoRequest` with a parsed URL. -/
def doRequestUri (method : HttpMethod) (uri : Uri) (timeoutMs : UInt64) (headers : Parameters) (body : Text) :
    Outcome HttpResult :=
  doRequest net env status (newRequest method uri headers body) uri timeoutMs

/-- `DoRequest` with a URL. -/
def doRequestUrl (method : HttpMethod) (url : Text) (timeoutMs : UInt64) (headers : Parameters) (body : Text) :
    Except Uri.Fault (Outcome HttpResult) :=
  (Uri.create url).map fun
    | none => .returned ⟨.INVALID_URL,none,text "invalid url: " ++ url⟩
    | some uri => doRequestUri net env status method uri timeoutMs headers body

def doGet (url : Text) (timeoutMs : UInt64) (headers : Parameters) (body : Text) : Except Uri.Fault (Outcome HttpResult) :=
  doRequestUrl net env status .GET url timeoutMs headers body

def doPost (url : Text) (timeoutMs : UInt64) (headers : Parameters) (body : Text) : Except Uri.Fault (Outcome HttpResult) :=
  doRequestUrl net env status .POST url timeoutMs headers body

end HttpConnection

namespace HttpConnectionPool

/-- The members of a pool that say where its connections lead. -/
structure Target where
  host : Text
  vhost : Text
  port : UInt32

/-- The request `doRequest` builds: all of the URL is its path. -/
def newRequest (pool : Target) (method : HttpMethod) (url : Text) (headers : Parameters) (body : Text) : HttpRequest :=
  HttpRequest.addressed { HttpRequest.init with path := url, method := method, close := false } headers
    (if pool.vhost = [] then pool.host else pool.vhost) body

/-- The text `doRequest` makes of a parsed URL. -/
def target (uri : Uri) : Text :=
  uri.getPath ++ (if uri.query = [] then [] else text "?") ++ uri.query ++ (if uri.fragment = [] then [] else text "#") ++
    uri.fragment

/-- How `getConnection` ends for `doRequest`: without a connection, with one that has no socket, or with the
printed address of the peer. -/
inductive Connected where
  | none
  | socketless
  | peer (addr : Text)

/-- `doRequest` with a request. -/
def doRequest (pool : Target) (conn : Connected) (net : Network) (env : Surroundings) (status : Int) (req : HttpRequest)
    (timeoutMs : UInt64) : Outcome HttpResult :=
  match conn with
  | .none => .returned ⟨.POOL_GET_CONNECTION,Option.none,text "pool host:" ++ pool.host ++ text " port:" ++ decimal pool.port.toNat⟩
  | .socketless =>
    .returned ⟨.POOL_INVALID_CONNECTION,Option.none,text "pool host:" ++ pool.host ++ text " port:" ++ decimal pool.port.toNat⟩
  | .peer addr => net.request env status addr timeoutMs req

end HttpConnectionPool

/-- The bytes the calls of a transfer have put on the connection. -/
def onWire (data : Text) (calls : List Common.Stream.Call) (writes : List Int) : Text :=
  (calls.zip writes).flatMap fun x => (data.drop x.1.offset).take x.2.toNat

/-- The calls of `write` take all of a text between them, and none fails. -/
structure WritesAll (data : Text) (writes : List Int) : Prop where
  counts : ∀ x ∈ writes, 0 < x
  sum : writes.sum = data.length
  small : data.length < 2^31

/-- What is written is the text, and its length is returned. -/
theorem WritesAll.sent {data : Text} {writes : List Int} (h : WritesAll data writes) :
    (writeFixSize data.length writes).returned = some (data.length : Int) ∧
      onWire data (writeFixSize data.length writes).calls writes = data := by
  have hsmall := h.small
  have hloop : ∀ (rts : List Int) (offset left : Nat), (∀ x ∈ rts, 0 < x) → rts.sum = left → offset + left = data.length →
      (fixSize addOffset data.length rts offset left).returned = some (data.length : Int) ∧
        onWire data (fixSize addOffset data.length rts offset left).calls rts = data.drop offset := by
    intro rts
    induction rts with
    | nil =>
      intro offset left _ hsum hall
      obtain rfl : left = 0 := by
        rw [List.sum_nil] at hsum
        omega
      refine ⟨congrArg some (int_eq_iff.mpr hsmall),?_⟩
      rw [List.drop_eq_nil_of_le (by omega)]
      rfl
    | cons rt rts ih =>
      intro offset left hpos hsum hall
      obtain ⟨hrt,hpos⟩ := List.forall_mem_cons.mp hpos
      have hrest := length_le_sum hpos
      rw [List.sum_cons] at hsum
      obtain ⟨left,rfl⟩ : ∃ n, left = n + 1 := ⟨left - 1,by omega⟩
      rw [fixSize_count (addOffset_advances (by omega)) (by omega) hrt (by omega) (by omega)]
      obtain ⟨hreturned,hwire⟩ := ih (offset + rt.toNat) (left + 1 - rt.toNat) hpos (by omega) (by omega)
      refine ⟨hreturned,?_⟩
      rw [onWire, List.zip_cons_cons, List.flatMap_cons, ← onWire, hwire, ← List.drop_drop]
      exact List.take_append_drop rt.toNat (data.drop offset)
  exact hloop writes 0 data.length h.counts h.sum (by omega)

end Radixun.Http
