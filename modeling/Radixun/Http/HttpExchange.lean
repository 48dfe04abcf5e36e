import Radixun.Http.HttpClient
import Radixun.Http.HttpServer
import Radixun.Http.RequestRoundTrip
import Radixun.Http.ResponseRoundTrip

/-! Requests and responses between `HttpConnection` and `HttpServer`: what the two sides do with bytes against
what they do with messages. -/
namespace Radixun.Http
open Radixun.Foundation CString Common.Stream RequestMachine

/-- The response the server sends to a request, with the request as the servlet leaves it. -/
def HttpServer.answer (fnmatch : Text → Text → Int) (server : HttpServer) (req : HttpRequest) : HttpRequest × HttpResponse :=
  server.dispatch.handle fnmatch req (server.newResponse req)

/-- Whether the server closes the connection behind the response to a request. -/
def HttpServer.closesBehind (fnmatch : Text → Text → Int) (server : HttpServer) (req : HttpRequest) : Bool :=
  !server.isKeepalive || (server.answer fnmatch req).1.close

/-- A connection on which the requests come as messages. -/
def HttpServer.session (fnmatch : Text → Text → Int) (server : HttpServer) : List HttpRequest → Served
  | [] => ⟨[],.waiting []⟩
  | req :: reqs =>
    if server.closesBehind fnmatch req then ⟨[(server.answer fnmatch req).2],.closed⟩
    else
      let more := session fnmatch server reqs
      ⟨(server.answer fnmatch req).2 :: more.responses,more.ending⟩

/-- The requests that are answered: those up to the first behind which the server closes the connection. -/
def HttpServer.answered (fnmatch : Text → Text → Int) (server : HttpServer) : List HttpRequest → List HttpRequest
  | [] => []
  | req :: reqs => if server.closesBehind fnmatch req then [req] else req :: answered fnmatch server reqs

/-- A request on its way, with the pieces the server reads it in: the first has all of the head. -/
structure Sending (env : Surroundings) where
  request : HttpRequest
  pieces : List Text
  sendable : request.Sendable env
  reads : Reads env.bufferSize pieces
  whole : pieces.flatten = request.dump
  head : request.head.length ≤ (pieces.headD []).length

namespace Sending
variable {env : Surroundings}

def arrivals (t : Sending env) : List Arrival := t.pieces.map .bytes

/-- The read that brings the end of the head does not look like one that filled the buffer in vain, and
`readFixSize` can return the length of what is missing. -/
def Fits (t : Sending env) : Prop :=
  let o := (t.pieces.headD []).length - t.request.head.length
  isFull env.bufferSize o = false ∧ (o = t.request.body.length ∨ 0 < int (t.request.body.length - o))

/-- Every request up to the one behind which the server closes the connection fits. -/
def AllFit (fnmatch : Text → Text → Int) (server : HttpServer) : List (Sending env) → Prop
  | [] => True
  | t :: ts => t.Fits ∧ (server.closesBehind fnmatch t.request.received = false → AllFit fnmatch server ts)

end Sending

section
variable {env : Surroundings} {segs : List Text} {r : Request}

/-- A call that returns anything for the bytes of one request returns that request, and leaves nothing. -/
theorem returned_alone (hreads : Reads env.bufferSize segs) (hflat : segs.flatten = r.wire) (hwf : r.WellFormed env)
    (hmax : r.body.length ≤ maxSize) (hwhole : r.head.length ≤ (segs.headD []).length) {m : HttpRequest}
    (h : (recvRequest env (segs.map .bytes)).outcome = .returned m) :
    m = r.message env.uninitialised ∧ unread (recvRequest env (segs.map .bytes)).rest = [] := by
  obtain ⟨n,hn⟩ := recvRequest_head hreads h
  cases segs with
  | nil =>
    obtain ⟨cs,hends⟩ := hwf.ends
    have hpos : 0 < r.head.length := (ActionMachine.broke_bounds hends).1
    rw [List.headD_nil, List.length_nil] at hwhole
    omega
  | cons s ss =>
    have hwhole : r.head.length ≤ s.length := hwhole
    have hlater : (s :: ss).flatten = r.wire ++ [] := by rw [hflat, List.append_nil]
    obtain ⟨hparsed,hcomplete⟩ := head_complete hreads hlater hwf hwhole
    obtain ⟨rfl,-⟩ := (hcomplete n).mp hn
    obtain ⟨-,hcall⟩ := recvRequest_complete hreads hn
    have hbehind : behind (s :: ss) r.head.length = (s.drop r.head.length,ss) := by
      rw [behind]
      exact if_pos hwhole
    have hdrop : (s :: ss).flatten.drop r.head.length = r.body := by rw [hflat, Request.wire, List.drop_left]
    have hlength : (s :: ss).flatten.length - r.head.length = r.body.length := by rw [← List.length_drop, hdrop]
    have hlen : bodyLength env (headParsed env.uninitialised [r.head]).data = r.body.length := by
      rw [bodyLength, int64_small (hwf.announced ▸ hmax), hwf.announced]
    have hbody : s.drop r.head.length ++ ss.flatten = r.body := by
      rw [← hdrop, List.flatten_cons, List.drop_append_of_le_length hwhole]
    rw [hparsed, hdrop, hlength, hbehind, hlen, if_neg (Nat.not_lt.mpr hmax), if_neg (Nat.lt_irrefl _), List.take_length] at hcall
    obtain ⟨hout,hrest⟩ := Prod.mk.inj hcall
    rw [h] at hout
    rw [hrest, unread_bytes, dropBytes_flatten]
    split at hout
    · refine ⟨Outcome.returned.inj hout,List.drop_eq_nil_of_le ?_⟩
      rw [← hbody, List.length_append]
      dsimp only
      omega
    · cases hout

end

section
variable {env : Surroundings} {t : Sending env}

/-- A call of the server for a request on its way: it takes the request when that fits, and otherwise gives up the
connection or waits. -/
theorem Sending.call (t : Sending env) (hcast : ReadsDecimals env.lexicalCast) :
    (t.Fits → (recvRequest env t.arrivals).outcome = .returned t.request.received ∧ (recvRequest env t.arrivals).rest = []) ∧
      ∀ m, (recvRequest env t.arrivals).outcome = .returned m → t.Fits := by
  have hwf := t.sendable.sent_wellFormed hcast
  have hstream : t.pieces.flatten = t.request.dump ++ [] := by rw [t.whole, List.append_nil]
  have hflat : t.pieces.flatten = t.request.sent.wire := by rw [t.whole, t.request.sent_wire]
  have hempty : dropBytes t.request.sent.wire.length t.pieces = [] := by
    have hdrop := dropBytes_flatten t.request.sent.wire.length t.pieces
    rw [hflat, List.drop_length] at hdrop
    by_contra hne
    obtain ⟨s,ss,hcons⟩ := List.exists_cons_of_ne_nil hne
    have hs := (dropBytes_short t.request.sent.wire.length t.reads s (hcons ▸ List.mem_cons_self)).1
    rw [hcons, List.flatten_cons] at hdrop
    exact hs (List.append_eq_nil_iff.mp hdrop).1
  have hfits : ReadsNoFurther env t.pieces [t.request.sent] ↔ t.Fits := by
    have hle : (t.pieces.headD []).length - t.request.head.length ≤ t.request.body.length := by
      have hhead : (t.pieces.headD []).length ≤ t.pieces.flatten.length := by
        cases t.pieces with
        | nil => exact Nat.le_refl 0
        | cons s ss => simp
      rw [hflat, Request.wire, List.length_append] at hhead
      exact Nat.sub_le_iff_le_add'.mpr hhead
    rw [ReadsNoFurther, ReadsNoFurther, and_true, Fits]
    exact ⟨fun h => ⟨h.2.1,h.2.2.2⟩,fun h => ⟨hle,h.1,t.sendable.body,h.2⟩⟩
  obtain ⟨hstep,hrest⟩ := Receives.step_iff hcast t.reads hstream t.sendable t.head
  constructor
  · intro h
    obtain ⟨hout,hunread⟩ := hstep.mpr (hfits.mpr h)
    refine ⟨hout,(hrest hout hunread).trans ?_⟩
    rw [hempty]
    rfl
  · intro m hm
    obtain ⟨rfl,hunread⟩ := returned_alone t.reads hflat hwf t.sendable.body t.head hm
    rw [t.sendable.sent_message] at hm
    exact hfits.mp (hstep.mp ⟨hm,hunread⟩)

end

section
variable (fnmatch : Text → Text → Int) (server : HttpServer)

/-- Each answered request has its response, and the connection is closed behind one of them or waits for the next. -/
theorem session_eq (reqs : List HttpRequest) : server.session fnmatch reqs =
    ⟨(server.answered fnmatch reqs).map fun req => (server.answer fnmatch req).2,
      if reqs.any (server.closesBehind fnmatch) then .closed else .waiting []⟩ := by
  induction reqs with
  | nil => rfl
  | cons req reqs ih =>
    rw [HttpServer.session, HttpServer.answered, List.any_cons]
    cases server.closesBehind fnmatch req with
    | true => rfl
    | false =>
      rw [ih]
      rfl

theorem session_answered (req : HttpRequest) (reqs : List HttpRequest) : (server.session fnmatch (req :: reqs)).responses ≠ [] := by
  rw [HttpServer.session]
  split
  · exact List.cons_ne_nil _ _
  · exact List.cons_ne_nil _ _

end

theorem handleClient_refines_iff {env : Surroundings} (hcast : ReadsDecimals env.lexicalCast) (fnmatch : Text → Text → Int)
    (server : HttpServer) (ts : List (Sending env)) :
    server.handleClient fnmatch env [] (ts.map Sending.arrivals) = server.session fnmatch (ts.map (·.request.received)) ↔
      Sending.AllFit fnmatch server ts := by
  induction ts with
  | nil => exact ⟨fun _ => trivial,fun _ => rfl⟩
  | cons t ts ih =>
    obtain ⟨htakes,hreturned⟩ := t.call hcast
    rw [List.map_cons, List.map_cons, HttpServer.handleClient, HttpServer.session, Sending.AllFit, List.nil_append]
    by_cases hfits : t.Fits
    · obtain ⟨hout,hrest⟩ := htakes hfits
      rw [hout, hrest]
      dsimp only
      rw [← HttpServer.answer, ← HttpServer.closesBehind]
      cases server.closesBehind fnmatch t.request.received with
      | true =>
        rw [if_pos rfl, if_pos rfl]
        exact ⟨fun _ => ⟨hfits,fun h => by cases h⟩,fun _ => rfl⟩
      | false =>
        rw [if_neg Bool.false_ne_true, if_neg Bool.false_ne_true, ← ih]
        constructor
        · intro h
          obtain ⟨hresponses,hending⟩ := Served.mk.inj h
          exact ⟨hfits,fun _ => congrArg₂ Served.mk (List.cons.inj hresponses).2 hending⟩
        · rintro ⟨-,h⟩
          rw [h rfl]
    · constructor
      · intro h
        exfalso
        have hresponses := congrArg Served.responses h
        have hanswered := session_answered fnmatch server t.request.received (ts.map (·.request.received))
        rw [HttpServer.session, ← hresponses] at hanswered
        cases hout : (recvRequest env t.arrivals).outcome with
        | returned m => exact hfits (hreturned m hout)
        | closed | thrown | waiting =>
          rw [hout] at hanswered
          exact hanswered rfl
      · intro h
        exact absurd h.1 hfits

/-- Over every sequence of requests on their way the server answers each as its servlets answer the request that was
sent, up to the first behind which it closes the connection, exactly when every request it gets to fits. -/
theorem requests_answered_iff {env : Surroundings} (hcast : ReadsDecimals env.lexicalCast) (fnmatch : Text → Text → Int)
    (server : HttpServer) (ts : List (Sending env)) :
    let reqs := ts.map (·.request.received)
    server.handleClient fnmatch env [] (ts.map Sending.arrivals) =
        ⟨(server.answered fnmatch reqs).map fun req => (server.answer fnmatch req).2,
          if reqs.any (server.closesBehind fnmatch) then .closed else .waiting []⟩ ↔
      Sending.AllFit fnmatch server ts := by
  intro reqs
  rw [← session_eq]
  exact handleClient_refines_iff hcast fnmatch server ts

private def patient : Surroundings := ⟨4096,readDecimal,⟨0,false⟩⟩
private def plainRequest : HttpRequest := HttpRequest.init

private theorem plainRequest_sendable : plainRequest.Sendable patient := by
  refine ⟨by decide +kernel,.inr rfl,⟨by decide +kernel,by decide +kernel,.nil⟩,.nil,.nil,?_,by decide +kernel,?_⟩
  · intro e he
    cases he
  · intro _ e he
    cases he

private def plainSending : Sending patient :=
  ⟨plainRequest,[plainRequest.dump],plainRequest_sendable,by unfold Reads; decide +kernel,by simp,by decide +kernel⟩

/-- A servlet that keeps the connection. -/
private def keeping : Servlet := fun request response => ({ request with close := false },{ response with close := false })

/-- Two requests to a server whose servlet keeps the connection. -/
theorem two_requests_answered :
    let server : HttpServer := ⟨true,text "radixun/1.0.0",.init keeping⟩
    (server.handleClient (fun _ _ => 1) patient [] [plainSending.arrivals,plainSending.arrivals]).ending = .waiting [] := by
  intro server
  have hfits : plainSending.Fits := ⟨by decide +kernel,by decide +kernel⟩
  have hserved := (requests_answered_iff readDecimal_reads (fun _ _ => 1) server [plainSending,plainSending]).mpr
    ⟨hfits,fun _ => ⟨hfits,fun _ => trivial⟩⟩
  rw [List.map_cons, List.map_singleton] at hserved
  rw [hserved]
  rfl

end Radixun.Http
