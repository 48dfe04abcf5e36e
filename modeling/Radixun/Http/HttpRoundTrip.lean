import Radixun.Http.HttpExchange
import Radixun.Http.UriTargets

/-! From the arguments of `DoRequest` to the servlet and back. -/
namespace Radixun.Http
open Radixun.Foundation CString Common.Stream TextFrame
open Query (Parameters)

/-- The headers that go into the request. -/
def forwarded (es : List (Text × Text)) : List (Text × Text) := es.filter fun e => strcasecmp e.1 (text "connection") ≠ 0

/-- A `Host` header that is not empty. -/
def namesHost (e : Text × Text) : Bool := strcasecmp e.1 (text "host") = 0 && e.2 ≠ []

def keepsAlive (e : Text × Text) : Bool := strcasecmp e.1 (text "connection") = 0 && strcasecmp e.2 (text "keep-alive") = 0

/-- The headers of the request, in the order they are set. -/
def headersSet (headers : Parameters) (host : Text) : List (Text × Text) :=
  forwarded headers.entries ++ if headers.entries.any namesHost then [] else [(text "Host",host)]

theorem not_host_of_connection {name : Text} (h : strcasecmp name (text "connection") = 0) : strcasecmp name (text "host") ≠ 0 := by
  intro hhost
  have heq := (strcasecmp_eq_zero_iff.mp h).symm.trans (strcasecmp_eq_zero_iff.mp hhost)
  exact absurd heq (by decide)

/-- A turn of the loop over the headers. -/
theorem addressed_header (e : Text × Text) (s : Addressed) : s.header e =
    ⟨{ s.req with headers := s.req.headers.putAll (forwarded [e]), close := s.req.close && !keepsAlive e },
      s.hasHost || namesHost e⟩ := by
  rw [Addressed.header, forwarded, List.filter_singleton, namesHost, keepsAlive]
  by_cases hconn : strcasecmp e.1 (text "connection") = 0
  · have hhost := not_host_of_connection hconn
    by_cases hkeep : strcasecmp e.2 (text "keep-alive") = 0
    · simp [hconn, hkeep, hhost, OrderedMap.putAll]
    · simp [hconn, hkeep, hhost, OrderedMap.putAll]
  · cases hasHost : s.hasHost with
    | true => simp [hconn, OrderedMap.putAll]
    | false =>
      by_cases hhost : strcasecmp e.1 (text "host") = 0
      · simp [hconn, hhost, OrderedMap.putAll]
      · simp [hconn, hhost, OrderedMap.putAll]

/-- The loop over the headers. -/
theorem addressed_fold (es : List (Text × Text)) (s : Addressed) : es.foldl Addressed.header s =
    ⟨{ s.req with headers := s.req.headers.putAll (forwarded es), close := s.req.close && !es.any keepsAlive },
      s.hasHost || es.any namesHost⟩ := by
  induction es generalizing s with
  | nil => simp [forwarded, OrderedMap.putAll]
  | cons e es ih =>
    have hfilter : forwarded (e :: es) = forwarded [e] ++ forwarded es := List.filter_append [e] es
    rw [List.foldl_cons, ih, addressed_header, hfilter]
    simp only [OrderedMap.putAll, List.foldl_append, List.any_cons, Bool.or_assoc, Bool.and_assoc, Bool.not_or]

theorem addressed_eq (req : HttpRequest) (hempty : req.headers = .empty) (headers : Parameters) (host body : Text) :
    req.addressed headers host body =
      { req with
        headers := .putAll .empty (headersSet headers host)
        close := req.close && !headers.entries.any keepsAlive
        body := body } := by
  rw [HttpRequest.addressed, addressed_fold, headersSet, hempty]
  cases headers.entries.any namesHost with
  | true => simp
  | false => simp [OrderedMap.putAll]

/-- An entry of a map made of a list has the name and the value of some of the list. -/
theorem mem_putAll {l : List (Text × Text)} {e : Text × Text} (he : e ∈ (OrderedMap.empty.putAll l : MapType).entries) :
    (∃ a ∈ l, a.1 = e.1) ∧ ∃ a ∈ l, a.2 = e.2 ∧ strcasecmp a.1 e.1 = 0 := by
  have hfind := OrderedMap.find_of_mem he (OrderedMap.same_refl e.1)
  rw [OrderedMap.find_putAll, Option.bind_eq_some_iff] at hfind
  obtain ⟨k,hk,hv⟩ := hfind
  obtain ⟨v,hv,hpair⟩ := Option.map_eq_some_iff.mp hv
  subst hpair
  obtain ⟨a,ha,rfl⟩ := Option.map_eq_some_iff.mp hk
  obtain ⟨a',ha',rfl⟩ := Option.map_eq_some_iff.mp hv
  have hmem := List.mem_reverse.mp (List.mem_of_find?_eq_some ha')
  have hsame : OrderedMap.same caseInsensitiveLess a.1 a'.1 = true :=
    List.find?_some (p := fun e : Text × Text => OrderedMap.same caseInsensitiveLess a.1 e.1) ha'
  exact ⟨⟨a,List.mem_of_find?_eq_some ha,rfl⟩,a',hmem,rfl,same_iff_strcasecmp.mp (OrderedMap.same_symm hsame)⟩

/-- Headers that a request can carry: names and values the grammar allows, and no word on the length of a body that
is not there. -/
structure Carried (env : Surroundings) (headers : Parameters) (body : Text) : Prop where
  allowed : ∀ e ∈ headers.entries, strcasecmp e.1 (text "connection") ≠ 0 → FieldName e.1 ∧ FieldValue e.2
  length : body = [] → ∀ e ∈ headers.entries, strcasecmp e.1 (text "content-length") = 0 →
    (env.lexicalCast (trimBlanks e.2)).getD 0 = 0

section
variable {env : Surroundings} {headers : Parameters} {host body : Text}

theorem Carried.set (h : Carried env headers body) (hhost : FieldValue host) :
    (∀ e ∈ headersSet headers host, FieldName e.1 ∧ FieldValue e.2) ∧
      (body = [] → ∀ e ∈ headersSet headers host, strcasecmp e.1 (text "content-length") = 0 →
        (env.lexicalCast (trimBlanks e.2)).getD 0 = 0) := by
  have hname : FieldName (text "Host") := ⟨by decide +kernel,by decide +kernel,by decide +kernel⟩
  have hcases : ∀ e ∈ headersSet headers host, (e ∈ headers.entries ∧ strcasecmp e.1 (text "connection") ≠ 0) ∨
    e = (text "Host",host) := by
    intro e he
    rcases List.mem_append.mp he with he | he
    · obtain ⟨hmem,hconn⟩ := List.mem_filter.mp he
      exact .inl ⟨hmem,of_decide_eq_true hconn⟩
    · split at he
      · cases he
      · exact .inr (List.mem_singleton.mp he)
  constructor
  · intro e he
    rcases hcases e he with ⟨hmem,hconn⟩ | rfl
    · exact h.allowed e hmem hconn
    · exact ⟨hname,hhost⟩
  · intro hbody e he hlength
    rcases hcases e he with ⟨hmem,-⟩ | rfl
    · exact h.length hbody e hmem hlength
    · have hother : strcasecmp (text "Host") (text "content-length") ≠ 0 := by decide +kernel
      exact absurd hlength hother

/-- A request with such headers can be sent. -/
theorem addressed_sendable {req : HttpRequest} (hempty : req.headers = .empty)
    (hmethod : req.method ≠ .MSEARCH ∧ req.method ≠ .INVALID_METHOD) (hversion : knownVersion req.version) (hpath : PathText req.path)
    (hquery : Spelled RequestMachine.queryChar req.query) (hfragment : Spelled RequestMachine.queryChar req.fragment)
    (hheaders : Carried env headers body) (hhost : FieldValue host) (hbody : body.length ≤ maxSize) :
    (req.addressed headers host body).Sendable env := by
  obtain ⟨hallowed,hlength⟩ := hheaders.set hhost
  rw [addressed_eq _ hempty]
  refine ⟨hmethod,hversion,hpath,hquery,hfragment,?_,hbody,?_⟩
  · intro e he
    obtain ⟨⟨a,ha,hname⟩,b,hb,hvalue,-⟩ := mem_putAll (List.mem_filter.mp he).1
    exact ⟨hname ▸ (hallowed a ha).1,hvalue ▸ (hallowed b hb).2⟩
  · intro hnone e he
    obtain ⟨hmem,hsame⟩ := OrderedMap.find_eq_some_iff.mp he
    obtain ⟨-,b,hb,hvalue,hkey⟩ := mem_putAll hmem
    rw [← hvalue]
    apply hlength hnone b hb
    have hname := strcasecmp_eq_zero_iff.mp (same_iff_strcasecmp.mp hsame)
    exact strcasecmp_eq_zero_iff.mpr ((strcasecmp_eq_zero_iff.mp hkey).trans hname.symm)

end

section
variable {cenv senv : Surroundings}

/-- One request on a connection, and what the network makes of it and of the response: all of the request is written,
and each side gets what the other wrote, in pieces of which the first has the whole head. -/
structure Exchange (cenv senv : Surroundings) (net : Network) (req : HttpRequest) (rsp : HttpResponse) where
  written : WritesAll req.dump net.writes
  pieces : List Text
  cut : pieces.flatten = onWire req.dump (writeFixSize req.dump.length net.writes).calls net.writes
  reads : Reads senv.bufferSize pieces
  head : req.head.length ≤ (pieces.headD []).length
  delivery : Delivery cenv.bufferSize
  arrives : net.arrivals = delivery.arrivals
  responseHead : delivery.head = rsp.head
  responseBody : rsp.body <+: delivery.stream

namespace Exchange
variable {net : Network} {req : HttpRequest} {rsp : HttpResponse}

def sending (x : Exchange cenv senv net req rsp) (h : req.Sendable senv) : Sending senv where
  request := req
  pieces := x.pieces
  sendable := h
  reads := x.reads
  whole := x.cut.trans x.written.sent.2
  head := x.head

/-- The server's side. -/
theorem served_iff (x : Exchange cenv senv net req rsp) (hcast : ReadsDecimals senv.lexicalCast) (h : req.Sendable senv)
    (fnmatch : Text → Text → Int) (server : HttpServer) :
    (server.handleClient fnmatch senv [] [x.pieces.map .bytes]).responses = [(server.answer fnmatch req.received).2] ↔
      (x.sending h).Fits := by
  constructor
  · intro hresponses
    by_contra hfits
    obtain ⟨-,hreturned⟩ := (x.sending h).call hcast
    have hserved : (server.handleClient fnmatch senv [] [(x.sending h).arrivals]).responses = [] := by
      rw [HttpServer.handleClient, List.nil_append]
      cases hout : (recvRequest senv (x.sending h).arrivals).outcome with
      | returned m => exact absurd (hreturned m hout) hfits
      | closed | thrown f | waiting => rfl
    have hnone := hserved.symm.trans hresponses
    cases hnone
  · intro hfits
    have hfit : Sending.AllFit fnmatch server [x.sending h] := ⟨hfits,fun _ => trivial⟩
    have hserved := congrArg Served.responses ((handleClient_refines_iff hcast fnmatch server [x.sending h]).mpr hfit)
    refine hserved.trans ?_
    rw [List.map_singleton, HttpServer.session]
    split
    · rfl
    · rfl

/-- The client's side, in `DoRequest` and in the pool. -/
theorem received (x : Exchange cenv senv net req rsp) (hcast : ReadsDecimals cenv.lexicalCast) (hrsp : rsp.Sendable cenv)
    (status : Int) (addr : Text) (timeoutMs : UInt64) :
    net.request cenv status addr timeoutMs req =
      if isFull cenv.bufferSize x.delivery.leftover.length then
        .returned ⟨.TIMEOUT,none,text "recv response timeout: " ++ addr ++ text " timeout_ms:" ++ decimal timeoutMs.toNat⟩
      else .returned ⟨.OK,some rsp.received,text "ok"⟩ := by
  have hpos : 0 < req.dump.length := by
    rw [← req.sent_wire, Request.wire, List.length_append]
    have hhead : 0 < req.head.length := by
      rw [HttpRequest.head, List.length_append, TextFrame.crlf]
      exact Nat.succ_pos _
    exact Nat.lt_of_lt_of_le hhead (Nat.le_add_right ..)
  rw [Network.request, sendRequest, x.written.sent.1]
  dsimp only
  rw [if_neg (by omega), if_neg (by omega), x.arrives]
  cases hfull : isFull cenv.bufferSize x.delivery.leftover.length with
  | true => rw [hrsp.closed x.delivery x.responseHead hfull]; rfl
  | false => rw [hrsp.outcome hcast x.delivery x.responseHead x.responseBody hfull]; rfl

theorem returned_iff (x : Exchange cenv senv net req rsp) (hcast : ReadsDecimals cenv.lexicalCast) (hrsp : rsp.Sendable cenv)
    (status : Int) (addr : Text) (timeoutMs : UInt64) :
    net.request cenv status addr timeoutMs req = .returned ⟨.OK,some rsp.received,text "ok"⟩ ↔
      isFull cenv.bufferSize x.delivery.leftover.length = false := by
  rw [x.received hcast hrsp]
  cases isFull cenv.bufferSize x.delivery.leftover.length with
  | true => simp
  | false => simp

end Exchange

theorem doRequest_connected {net : Network} {uri : Uri} {addr : Text} (haddr : net.lookup uri.host uri.getPort = some addr)
    (hsocket : net.created = true ∧ net.connected = true) (env : Surroundings) (status : Int) (req : HttpRequest)
    (timeoutMs : UInt64) :
    HttpConnection.doRequest net env status req uri timeoutMs = net.request env status addr timeoutMs req := by
  rw [HttpConnection.doRequest, haddr, hsocket.1, hsocket.2]
  dsimp only
  rw [Bool.not_true, if_neg Bool.false_ne_true, if_neg Bool.false_ne_true]

/-- For a URL that is accepted, and a peer that is found and connects, `DoGet` and `DoPost` exchange the request that is
built of the URL. -/
theorem doGet_connected {net : Network} {url : Text} {uri : Uri} {addr : Text} (hurl : Uri.create url = .ok (some uri))
    (haddr : net.lookup uri.host uri.getPort = some addr) (hsocket : net.created = true ∧ net.connected = true) (env : Surroundings)
    (status : Int) (timeoutMs : UInt64) (headers : Parameters) (body : Text) :
    HttpConnection.doGet net env status url timeoutMs headers body =
        .ok (net.request env status addr timeoutMs (HttpConnection.newRequest .GET uri headers body)) ∧
      HttpConnection.doPost net env status url timeoutMs headers body =
        .ok (net.request env status addr timeoutMs (HttpConnection.newRequest .POST uri headers body)) := by
  have hrequest (method : HttpMethod) : HttpConnection.doRequestUrl net env status method url timeoutMs headers body =
      .ok (net.request env status addr timeoutMs (HttpConnection.newRequest method uri headers body)) := by
    rw [HttpConnection.doRequestUrl, hurl]
    exact congrArg Except.ok (doRequest_connected haddr hsocket env status _ timeoutMs)
  exact ⟨hrequest .GET,hrequest .POST⟩

/-- One request over the network: the server hands it to its servlet and sends the answer exactly when the request
fits, and both clients return that answer exactly when the read that brings its head does not look like one that
filled the buffer. -/
theorem exchange_answered_iff (hclient : ReadsDecimals cenv.lexicalCast) (hserver : ReadsDecimals senv.lexicalCast) {net : Network}
    {req : HttpRequest} (hreq : req.Sendable senv) (fnmatch : Text → Text → Int) (server : HttpServer) {answer : HttpResponse}
    (hanswer : (server.answer fnmatch req.received).2 = answer) (hrsp : answer.Sendable cenv)
    (x : Exchange cenv senv net req answer) (status : Int) (uri : Uri) {addr : Text}
    (haddr : net.lookup uri.host uri.getPort = some addr) (hsocket : net.created = true ∧ net.connected = true)
    (pool : HttpConnectionPool.Target) (timeoutMs : UInt64) :
    ((server.handleClient fnmatch senv [] [x.pieces.map .bytes]).responses = [answer] ↔ (x.sending hreq).Fits) ∧
      (HttpConnection.doRequest net cenv status req uri timeoutMs = .returned ⟨.OK,some answer.received,text "ok"⟩ ↔
        isFull cenv.bufferSize x.delivery.leftover.length = false) ∧
      (HttpConnectionPool.doRequest pool (.peer addr) net cenv status req timeoutMs =
          .returned ⟨.OK,some answer.received,text "ok"⟩ ↔ isFull cenv.bufferSize x.delivery.leftover.length = false) := by
  have hreturned := x.returned_iff hclient hrsp status addr timeoutMs
  refine ⟨?_,?_,hreturned⟩
  · subst hanswer
    exact x.served_iff hserver hreq fnmatch server
  · rw [doRequest_connected haddr hsocket]
    exact hreturned

end

private def exchangeEnv : Surroundings := ⟨4096,readDecimal,⟨0,false⟩⟩
private def rootRequest : HttpRequest := HttpRequest.init
private def missing : HttpServer := ⟨false,text "radixun/1.0.0",.init notFoundServlet⟩
private def notFound : HttpResponse := (missing.answer (fun _ _ => 1) rootRequest.received).2

private theorem messages_sendable : rootRequest.Sendable exchangeEnv ∧ notFound.Sendable exchangeEnv := by
  have hkept : kept notFound.headers = [(text "Content-Type",text "text/html"),(text "Server",text "radixun/1.0.0")] := by decide +kernel
  have htype : TokenName (text "Content-Type") := ⟨by decide +kernel,by decide +kernel⟩
  have hserver : TokenName (text "Server") := ⟨by decide +kernel,by decide +kernel⟩
  constructor
  · refine ⟨by decide +kernel,.inr rfl,⟨by decide +kernel,by decide +kernel,.nil⟩,.nil,.nil,?_,by decide +kernel,?_⟩
    · intro e he
      cases he
    · intro _ e he
      cases he
  · refine ⟨by decide +kernel,.inr (by decide +kernel),by decide +kernel,?_,?_,?_,by decide +kernel,?_⟩
    · rw [hkept]
      exact List.forall_mem_cons.mpr ⟨⟨htype,by decide +kernel⟩,List.forall_mem_singleton.mpr ⟨hserver,by decide +kernel⟩⟩
    · rw [hkept]
      decide
    · rw [hkept]
      decide
    · intro hbody
      exact absurd hbody (by decide +kernel)

private def network : Network := ⟨fun _ _ => some (text "127.0.0.1:80"),true,true,[10,27],[.bytes notFound.dump],0,[]⟩

private theorem transfers : WritesAll rootRequest.dump network.writes ∧ Reads 4096 [rootRequest.dump] ∧
    rootRequest.head.length ≤ rootRequest.dump.length ∧ (notFound.head ++ notFound.body).length ≤ min 4096 recvMax ∧
    network.arrivals = [.bytes (notFound.head ++ notFound.body)] := by
  refine ⟨⟨by decide,by decide +kernel,by decide +kernel⟩,?_,by decide +kernel,by decide +kernel,by decide +kernel⟩
  unfold Reads
  decide +kernel

private theorem network_writes : WritesAll rootRequest.dump network.writes := transfers.1

private theorem request_cut :
    [rootRequest.dump].flatten = onWire rootRequest.dump (writeFixSize rootRequest.dump.length network.writes).calls network.writes := by
  rw [network_writes.sent.2, List.flatten_singleton]

private theorem request_read : Reads 4096 [rootRequest.dump] := transfers.2.1

private theorem request_head : rootRequest.head.length ≤ rootRequest.dump.length := transfers.2.2.1

private theorem page_fits : (notFound.head ++ notFound.body).length ≤ min 4096 recvMax := transfers.2.2.2.1

private theorem page_arrives : network.arrivals = [.bytes (notFound.head ++ notFound.body)] := transfers.2.2.2.2

private theorem page_body : notFound.body <+: notFound.body ++ [].flatten := List.prefix_append _ _

private def exchange : Exchange exchangeEnv exchangeEnv network rootRequest notFound where
  written := network_writes
  pieces := [rootRequest.dump]
  cut := request_cut
  reads := request_read
  head := request_head
  delivery := ⟨notFound.head,notFound.body,[],page_fits,List.forall_mem_nil _⟩
  arrives := page_arrives
  responseHead := rfl
  responseBody := page_body

/-- A request that is written in two calls, and the page of a server that knows no servlet. -/
theorem exchange_not_found :
    (missing.handleClient (fun _ _ => 1) exchangeEnv [] [[.bytes rootRequest.dump]]).responses = [notFound] ∧
      HttpConnection.doRequest network exchangeEnv 0 rootRequest .init 1000 =
        .returned ⟨.OK,some notFound.received,text "ok"⟩ := by
  obtain ⟨hserved,hclient,-⟩ := exchange_answered_iff readDecimal_reads readDecimal_reads messages_sendable.1 (fun _ _ => 1) missing
    rfl messages_sendable.2 exchange 0 .init rfl ⟨rfl,rfl⟩ ⟨text "h",[],80⟩ 1000
  exact ⟨hserved.mpr ⟨by decide +kernel,by decide +kernel⟩,hclient.mpr (by decide +kernel)⟩

/-- A dump is that of a request for a URL: it can be sent, and the servlet is handed the method, the path, the query,
the fragment and the body, and under every name but those of the lines `dump` writes itself the last of the headers
with that name. -/
structure Carries (env : Surroundings) (dump : Text) (method : HttpMethod) (u : Uri) (headers : Parameters) (host body : Text)
    (r : HttpRequest) : Prop where
  sendable : r.Sendable env
  dumped : r.dump = dump
  line : r.received.method = method ∧ r.received.path = u.getPath ∧ r.received.query = u.query ∧ r.received.fragment = u.fragment
  contents : r.received.body = body
  fields : ∀ k, strcasecmp k (text "connection") ≠ 0 → strcasecmp k (text "content-length") ≠ 0 →
    (r.received.headers.find k).map (·.2) =
      (OrderedMap.lastValue caseInsensitiveLess k (headersSet headers host)).map trimBlanks

section
variable {env : Surroundings} {s scheme rest : Text} {u : Uri} {method : HttpMethod} {headers : Parameters} {body : Text}

/-- The request for a URL before the headers. -/
def urlRequest (method : HttpMethod) (u : Uri) (close : Bool) : HttpRequest :=
  { HttpRequest.init with path := u.getPath, query := u.query, fragment := u.fragment, method := method, close := close }

theorem urlRequest_carries (hurl : Uri.create s = .ok (some u)) (hs : s = scheme ++ text "://" ++ rest)
    (hscheme : Uri.Free [35,47,58,63] scheme) (hsingle : u.path.tail.head? ≠ some 47)
    (hmethod : method ≠ .MSEARCH ∧ method ≠ .INVALID_METHOD) (hheaders : Carried env headers body) (hbody : body.length ≤ maxSize)
    (close : Bool) {host : Text} (hhost : FieldValue host) :
    Carries env ((urlRequest method u close).addressed headers host body).dump method u headers host body
      ((urlRequest method u close).addressed headers host body) := by
  obtain ⟨hpath,hquery,hfragment,-⟩ := Uri.create_target hurl hs hscheme
  have hsend : ((urlRequest method u close).addressed headers host body).Sendable env :=
    addressed_sendable rfl hmethod (.inr rfl) (hpath hsingle) hquery hfragment hheaders hhost hbody
  have heq := addressed_eq (urlRequest method u close) rfl headers host body
  refine ⟨hsend,rfl,?_,?_,?_⟩
  · rw [heq]
    exact ⟨rfl,rfl,rfl,rfl⟩
  · rw [heq]
    rfl
  · intro k hconn hlength
    have hfind := ((urlRequest method u close).addressed headers host body).received_find (k := k)
      (by rw [← Bool.not_eq_true, same_iff_strcasecmp]; exact hconn)
      (.inl (by rw [← Bool.not_eq_true, same_iff_strcasecmp]; exact hlength))
    rw [hfind, heq, ← OrderedMap.find_putAll_value, Option.map_map, Option.map_map]
    rfl

/-- The pool prints the whole target as a path, and the same text comes out. -/
theorem pool_dump (pool : HttpConnectionPool.Target) (method : HttpMethod) (u : Uri) (headers : Parameters) (body : Text) :
    (HttpConnectionPool.newRequest pool method (HttpConnectionPool.target u) headers body).dump =
      ((urlRequest method u false).addressed headers (if pool.vhost = [] then pool.host else pool.vhost) body).dump := by
  rw [HttpConnectionPool.newRequest, addressed_eq _ rfl, addressed_eq _ rfl]
  simp only [HttpRequest.dump, HttpRequest.startLine, HttpConnectionPool.target, urlRequest, HttpRequest.init, List.append_assoc,
    List.nil_append, if_true, Bool.false_and]
  rfl

/-- What `DoRequest` and the pool's `doRequest` send for a URL is a request for its path, its query and its fragment. -/
theorem url_carried (hurl : Uri.create s = .ok (some u)) (hs : s = scheme ++ text "://" ++ rest)
    (hscheme : Uri.Free [35,47,58,63] scheme) (hsingle : u.path.tail.head? ≠ some 47)
    (hmethod : method ≠ .MSEARCH ∧ method ≠ .INVALID_METHOD) (hheaders : Carried env headers body) (hbody : body.length ≤ maxSize)
    (pool : HttpConnectionPool.Target) (hpool : FieldValue pool.host ∧ FieldValue pool.vhost) :
    (∃ r, Carries env (HttpConnection.newRequest method u headers body).dump method u headers u.host body r) ∧
      ∃ r, Carries env (HttpConnectionPool.newRequest pool method (HttpConnectionPool.target u) headers body).dump method u headers
        (if pool.vhost = [] then pool.host else pool.vhost) body r := by
  obtain ⟨-,-,-,hhost⟩ := Uri.create_target hurl hs hscheme
  refine ⟨⟨_,urlRequest_carries hurl hs hscheme hsingle hmethod hheaders hbody true hhost⟩,?_⟩
  rw [pool_dump]
  refine ⟨_,urlRequest_carries hurl hs hscheme hsingle hmethod hheaders hbody false ?_⟩
  split
  · exact hpool.1
  · exact hpool.2

end

private def pageUrl : Uri := ⟨text "http",[],text "h",text "/p",text "q=1",[],0⟩
private def pageHeaders : Parameters := OrderedMap.put .empty (text "Accept") (text "text/html")
private def localEnv : Surroundings := ⟨4096,readDecimal,⟨0,false⟩⟩

private theorem pageHeaders_carried : Carried localEnv pageHeaders [] := by
  have hentries : pageHeaders.entries = [(text "Accept",text "text/html")] := by decide +kernel
  have hname : FieldName (text "Accept") := ⟨by decide +kernel,by decide +kernel,by decide +kernel⟩
  have hother : strcasecmp (text "Accept") (text "content-length") ≠ 0 := by decide +kernel
  constructor
  · rw [hentries]
    exact List.forall_mem_singleton.mpr fun _ => ⟨hname,by decide +kernel⟩
  · rw [hentries]
    exact fun _ => List.forall_mem_singleton.mpr fun h => absurd h hother

/-- A URL with a query, by the pool and without it. -/
theorem page_carried :
    (∃ r, Carries localEnv (HttpConnection.newRequest .GET pageUrl pageHeaders []).dump .GET pageUrl pageHeaders (text "h") [] r) ∧
      ∃ r, Carries localEnv (HttpConnectionPool.newRequest ⟨text "h",[],80⟩ .GET (HttpConnectionPool.target pageUrl) pageHeaders
        []).dump .GET pageUrl pageHeaders (text "h") [] r := by
  have hurl : Uri.create (text "http://h/p?q=1") = .ok (some pageUrl) := by decide +kernel
  have hsplit : text "http://h/p?q=1" = text "http" ++ text "://" ++ text "h/p?q=1" := by decide +kernel
  exact url_carried hurl hsplit (by decide +kernel) (by decide +kernel) (by decide +kernel) pageHeaders_carried
    (by decide +kernel) ⟨text "h",[],80⟩
    ⟨by decide +kernel,by decide +kernel⟩

end Radixun.Http
