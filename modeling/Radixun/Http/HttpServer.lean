import Radixun.Http.MessageDump
import Radixun.Http.RequestPipeline
import Radixun.Http.ServletDispatch

/-! `HttpServer::handleClient` against a client that sends each request after the response to the one
before. -/
namespace Radixun.Http
open Radixun.Foundation CString Common.Stream RequestMachine

/-- What a servlet makes of a request and its response; both objects are its own to change. -/
abbrev Servlet := HttpRequest → HttpResponse → HttpRequest × HttpResponse

/-- `NotFoundServlet::handle`. -/
def notFoundServlet : Servlet := fun request response =>
  (request,{ response with
    status := 404
    headers := (response.headers.put (text "Server") (text "radixun/1.0.0")).put (text "Content-Type") (text "text/html")
    body := text "<html><head><title>404 Not Found" ++
      text "</title></head><body><center><h1>404 Not Found</h1></center>" ++
      text "<hr><center>radixun/1.0.0</center></body></html>" })

/-- `ServletDispatch::handle`. -/
def ServletDispatch.handle (fnmatch : Text → Text → Int) (d : ServletDispatch Servlet) : Servlet := fun request response =>
  match d.getMatchedServlet fnmatch request.path with
  | some slt => slt request response
  | none => (request,response)

structure HttpServer where
  isKeepalive : Bool
  name : Text
  dispatch : ServletDispatch Servlet

/-- How far the loop has come: the connection is closed behind the last response, or because `recvRequest`
failed, an exception is on its way, or the server waits in `recvRequest`, with what it has not read. -/
inductive Ending where
  | closed
  | failed
  | thrown (f : Fault)
  | waiting (unread : List Arrival)
  deriving DecidableEq

/-- The responses sent on a connection, and where the loop stands behind them. -/
structure Served where
  responses : List HttpResponse
  ending : Ending
  deriving DecidableEq

/-- The response as the server creates it. -/
def HttpServer.newResponse (server : HttpServer) (req : HttpRequest) : HttpResponse :=
  { HttpResponse.init with
    version := req.version
    close := req.close || !server.isKeepalive
    headers := HttpResponse.init.headers.put (text "Server") server.name }

/-- The loop, over what arrives while the server waits for each request. -/
def HttpServer.handleClient (fnmatch : Text → Text → Int) (env : Surroundings) (server : HttpServer) :
    List Arrival → List (List Arrival) → Served
  | unread, [] => ⟨[],.waiting unread⟩
  | unread, turn :: turns =>
    let received := recvRequest env (unread ++ turn)
    match received.outcome with
    | .waiting => ⟨[],.waiting received.rest⟩
    | .closed => ⟨[],.failed⟩
    | .thrown f => ⟨[],.thrown f⟩
    | .returned req =>
      let (req,rsp) := server.dispatch.handle fnmatch req (server.newResponse req)
      if !server.isKeepalive || req.close then ⟨[rsp],.closed⟩
      else
        let more := handleClient fnmatch env server received.rest turns
        ⟨rsp :: more.responses,more.ending⟩

/-- A well-formed request with the pieces it arrives in. -/
structure Turn (env : Surroundings) where
  request : Request
  pieces : List Text
  wellFormed : request.WellFormed env
  whole : pieces.flatten = request.wire

/-- The request carries `Connection: close`. -/
def HttpRequest.asksClose (r : HttpRequest) : Bool :=
  match r.headers.find (text "connection") with
  | some e => strcasecmp e.2 (text "close") = 0
  | none => false

def Turn.asksClose {env : Surroundings} (t : Turn env) : Bool := (t.request.message env.uninitialised).asksClose

def Turn.arrivals {env : Surroundings} (t : Turn env) : List Arrival := t.pieces.map .bytes

/-- The connection line of the response. -/
def HttpResponse.saysClose (r : HttpResponse) : Bool := printClose r.close = text "connection: close"

/-- The requests up to the first that carries `Connection: close`. -/
def untilClose {env : Surroundings} : List (Turn env) → List (Turn env)
  | [] => []
  | t :: ts => if t.asksClose then [t] else t :: untilClose ts

/-- The connection ends with the first request that asks for it; the responses up to there say so. -/
structure Honoured {env : Surroundings} (turns : List (Turn env)) (s : Served) : Prop where
  answered : s.responses.map (·.saysClose) = (untilClose turns).map (·.asksClose)
  ending : s.ending = if turns.any (·.asksClose) then .closed else .waiting []

/-- The flags of the request and the response behind the servlet the request is dispatched to, when it gets
them both switched on. -/
def HttpServer.flags (fnmatch : Text → Text → Int) (server : HttpServer) (req : HttpRequest) : Bool × Bool :=
  let out := server.dispatch.handle fnmatch { req with close := true } { server.newResponse req with close := true }
  (out.1.close,out.2.close)

/-- The servlets switch both flags off for every request before the first with `Connection: close`, and
leave both on for that one. -/
inductive Kept (fnmatch : Text → Text → Int) {env : Surroundings} (server : HttpServer) :
    List Arrival → List (Turn env) → Prop where
  | all : Kept fnmatch server [] []
  | last {unread : List Arrival} {t : Turn env} {ts : List (Turn env)} {req : HttpRequest} :
    (recvRequest env (unread ++ t.arrivals)).outcome = .returned req → t.asksClose = true →
    server.flags fnmatch req = (true,true) → Kept fnmatch server unread (t :: ts)
  | next {unread : List Arrival} {t : Turn env} {ts : List (Turn env)} {req : HttpRequest} :
    (recvRequest env (unread ++ t.arrivals)).outcome = .returned req → t.asksClose = false →
    server.flags fnmatch req = (false,false) → Kept fnmatch server (recvRequest env (unread ++ t.arrivals)).rest ts →
    Kept fnmatch server unread (t :: ts)

/-- The servlets leave the flags as they find them. -/
def HttpServer.FlagsKept (fnmatch : Text → Text → Int) (server : HttpServer) : Prop :=
  ∀ req rsp, (server.dispatch.handle fnmatch req rsp).1.close = req.close ∧
    (server.dispatch.handle fnmatch req rsp).2.close = rsp.close

namespace HttpRequestParser
variable {s : HttpRequestParser} {buffer : Text}

theorem withChars_close {start length : Nat} {f : Text → HttpRequestParser} (h : ∀ t, (f t).data.close = s.data.close) :
    (s.withChars buffer start length f).data.close = s.data.close := by
  unfold withChars
  cases chars buffer start length with
  | error e => rfl
  | ok t => exact h t

theorem onRequestMethod_close {start length : Nat} : (s.onRequestMethod buffer start length).data.close = s.data.close := by
  unfold onRequestMethod
  dsimp only
  split <;> rfl

theorem onRequestVersion_close {start length : Nat} : (s.onRequestVersion buffer start length).data.close = s.data.close := by
  unfold onRequestVersion
  dsimp only
  split <;> rfl

theorem onRequestHttpField_close {field flen value vlen : Nat} :
    (s.onRequestHttpField buffer field flen value vlen).data.close = s.data.close := by
  unfold onRequestHttpField
  dsimp only
  split
  · rfl
  · exact withChars_close fun key => withChars_close fun val => rfl

/-- No action of the parser touches the flag of the request. -/
theorem act_close (p : Nat) (a : Action) : (s.act buffer p a).data.close = s.data.close := by
  cases a with
  | mark | startField | writeField | startQuery | xml | json | requestUri => rfl
  | writeValue => exact onRequestHttpField_close
  | requestMethod => exact onRequestMethod_close
  | httpVersion => exact onRequestVersion_close
  | fragment | queryString | requestPath => exact withChars_close fun _ => rfl
  | done =>
    rw [act]
    split <;> rfl

theorem perform_close (events : List (Nat × Action)) : (events.foldl (perform buffer) s).data.close = s.data.close := by
  induction events generalizing s with
  | nil => rfl
  | cons e events ih =>
    rw [List.foldl_cons, ih, perform]
    split
    · rfl
    · exact act_close e.1 e.2

theorem execute_close (data : Text) : (s.execute data).1.data.close = s.data.close := by
  have hland (σ : HttpRequestParser) (stop : Stop) : (σ.land data stop).data.close = σ.data.close := by
    cases stop <;> rfl
  unfold execute httpParserExecute
  by_cases hdata : data.length = 0
  · rw [if_pos hdata]
  · rw [if_neg hdata]
    exact (hland _ _).trans (perform_close _)

end HttpRequestParser

/-- A turn of the loop over the head leaves the parser and the buffer as `execute` does. -/
theorem recvHead_next {buffSize : Nat} {s : HttpRequestParser × Text} {t : Text} :
    (∀ s', (recvHead buffSize).next s t = .inl s' → s' = s.1.execute (s.2 ++ t)) ∧
    ∀ r, (recvHead buffSize).next s t = .inr r → r.2 = s.1.execute (s.2 ++ t) := by
  unfold recvHead parseLoop
  dsimp only
  generalize s.1.execute (s.2 ++ t) = out
  constructor
  · intro s' h
    split at h
    · cases h
    · split_ifs at h
      exact (Sum.inl.inj h).symm
  · intro r h
    split at h
    · cases h
      rfl
    · split_ifs at h <;> cases h <;> rfl

/-- Every request the session hands out has the flag the constructor gave it, whatever its headers say. -/
theorem recvRequest_close {env : Surroundings} {as : List Arrival} {req : HttpRequest}
    (h : (recvRequest env as).outcome = .returned req) : req.close = true := by
  have hkeeps {e : HeadEnd} {σ : HttpRequestParser} {data : Text} {rest : List Arrival}
      (hrun : (recvHead env.bufferSize).run (.init env.uninitialised,[]) as = .stopped (e,σ,data) rest) :
      σ.data.close = true := by
    refine ReadLoop.run_keeps (I := fun s => s.1.data.close = true) (Q := fun r => r.2.1.data.close = true) ?_ ?_ ?_ rfl hrun
    · intro s hs
      exact hs
    · intro s t s' hs hnext
      rw [recvHead_next.1 s' hnext]
      exact (HttpRequestParser.execute_close _).trans hs
    · intro s t r hs hnext
      rw [recvHead_next.2 r hnext]
      exact (HttpRequestParser.execute_close _).trans hs
  unfold recvRequest at h
  cases hrun : (recvHead env.bufferSize).run (.init env.uninitialised,[]) as with
  | waiting s => rw [hrun] at h; cases h
  | stopped r rest =>
    obtain ⟨e,σ,data⟩ := r
    have hclose := hkeeps hrun
    rw [hrun] at h
    cases e with
    | closed => cases h
    | thrown f => cases h
    | complete =>
      dsimp only at h
      split at h
      · dsimp only at h
        cases hbody : (recvBody (int64 (σ.getContentLength env.lexicalCast)) data rest).1 with
        | returned body =>
          rw [hbody] at h
          cases h
          exact hclose
        | closed => rw [hbody] at h; cases h
        | thrown f => rw [hbody] at h; cases h
        | waiting => rw [hbody] at h; cases h
      · cases h
        exact hclose

theorem saysClose_eq (r : HttpResponse) : r.saysClose = r.close := by
  rw [HttpResponse.saysClose]
  cases r.close <;> decide

section
variable {fnmatch : Text → Text → Int} {env : Surroundings} {server : HttpServer} {unread : List Arrival} {t : Turn env}
  {ts : List (Turn env)}

theorem untilClose_stop (h : t.asksClose = true) : untilClose (t :: ts) = [t] := if_pos h

theorem untilClose_go (h : t.asksClose = false) : untilClose (t :: ts) = t :: untilClose ts := if_neg (by simp [h])

theorem honoured_nil : Honoured ([] : List (Turn env)) ⟨[],.waiting unread⟩ ↔ unread = [] :=
  ⟨fun h => Ending.waiting.inj h.ending,fun h => ⟨rfl,congrArg _ h⟩⟩

/-- No request is answered by fewer than one response. -/
theorem not_honoured_unanswered {e : Ending} : ¬Honoured (t :: ts) ⟨[],e⟩ := by
  intro h
  have hlen := congrArg List.length h.answered
  rw [untilClose] at hlen
  split at hlen <;> cases hlen

/-- The connection closed behind one response. -/
theorem honoured_closed {rsp : HttpResponse} : Honoured (t :: ts) ⟨[rsp],.closed⟩ ↔ t.asksClose = true ∧ rsp.close = true := by
  constructor
  · intro h
    have hanswer := h.answered
    cases hask : t.asksClose with
    | true =>
      rw [untilClose_stop hask] at hanswer
      have hword : rsp.saysClose = t.asksClose := (List.cons.inj hanswer).1
      rw [saysClose_eq, hask] at hword
      exact ⟨rfl,hword⟩
    | false =>
      -- one response for one request that does not ask, and the connection should be open
      rw [untilClose_go hask] at hanswer
      have hrest : [] = (untilClose ts).map (·.asksClose) := (List.cons.inj hanswer).2
      have hend := h.ending
      cases ts with
      | nil => simp [hask] at hend
      | cons t' ts =>
        rw [untilClose] at hrest
        split at hrest <;> cases hrest
  · rintro ⟨hask,hclose⟩
    refine ⟨?_,?_⟩
    · rw [untilClose_stop hask, List.map_singleton, List.map_singleton, saysClose_eq, hask, hclose]
    · rw [List.any_cons, hask]
      rfl

/-- The connection kept behind a response: what follows does not begin with closing it. -/
theorem honoured_more {rsp : HttpResponse} {s : Served} (hgoes : s.responses = [] → s.ending ≠ .closed) :
    Honoured (t :: ts) ⟨rsp :: s.responses,s.ending⟩ ↔ t.asksClose = false ∧ rsp.close = false ∧ Honoured ts s := by
  cases hask : t.asksClose with
  | false =>
    have hany : (t :: ts).any (·.asksClose) = ts.any (·.asksClose) := by rw [List.any_cons, hask, Bool.false_or]
    constructor
    · intro h
      have hanswer := h.answered
      rw [untilClose_go hask, List.map_cons, List.map_cons, saysClose_eq, hask] at hanswer
      obtain ⟨hword,hrest⟩ := List.cons.inj hanswer
      exact ⟨rfl,hword,⟨hrest,hany ▸ h.ending⟩⟩
    · rintro ⟨-,hword,hrest⟩
      refine ⟨?_,hany.symm ▸ hrest.ending⟩
      rw [untilClose_go hask, List.map_cons, List.map_cons, saysClose_eq, hask, hword, hrest.answered]
  | true =>
    constructor
    · intro h
      have hanswer := h.answered
      rw [untilClose_stop hask, List.map_cons, List.map_cons, saysClose_eq, hask] at hanswer
      obtain ⟨hword,hrest⟩ := List.cons.inj hanswer
      have hend := h.ending
      rw [List.any_cons, hask] at hend
      exact absurd hend (hgoes (List.map_eq_nil_iff.mp hrest))
    · intro h
      cases h.1

/-- The loop sends a response before it closes a connection for itself. -/
theorem closed_answered (turns : List (List Arrival)) :
    (server.handleClient fnmatch env unread turns).responses = [] →
      (server.handleClient fnmatch env unread turns).ending ≠ .closed := by
  cases turns with
  | nil =>
    intro _ h
    cases h
  | cons turn turns =>
    rw [HttpServer.handleClient]
    cases (recvRequest env (unread ++ turn)).outcome with
    | waiting | closed | thrown f =>
      intro _ h
      cases h
    | returned req =>
      dsimp only
      split
      · intro h
        cases h
      · intro h
        cases h

end

section
variable (fnmatch : Text → Text → Int) {env : Surroundings} (name : Text) (dispatch : ServletDispatch Servlet)

theorem flags_received {req : HttpRequest} (h : req.close = true) :
    HttpServer.flags fnmatch ⟨true,name,dispatch⟩ req =
      ((dispatch.handle fnmatch req (HttpServer.newResponse ⟨true,name,dispatch⟩ req)).1.close,
        (dispatch.handle fnmatch req (HttpServer.newResponse ⟨true,name,dispatch⟩ req)).2.close) := by
  have hreq : { req with close := true } = req := by rw [← h]
  have hrsp : { HttpServer.newResponse ⟨true,name,dispatch⟩ req with close := true } =
      HttpServer.newResponse ⟨true,name,dispatch⟩ req := by
    simp only [HttpServer.newResponse, h, Bool.true_or]
  rw [HttpServer.flags, hreq, hrsp]

/-- With keep-alive on, the connections are kept as the requests ask exactly where the servlets see to it:
both flags reach them switched on, whatever the request says. -/
theorem honoured_iff_kept (unread : List Arrival) (turns : List (Turn env)) :
    Honoured turns (HttpServer.handleClient fnmatch env ⟨true,name,dispatch⟩ unread (turns.map (·.arrivals))) ↔
      Kept fnmatch ⟨true,name,dispatch⟩ unread turns := by
  induction turns generalizing unread with
  | nil =>
    rw [List.map_nil, HttpServer.handleClient, honoured_nil]
    constructor
    · rintro rfl
      exact .all
    · intro h
      cases h
      rfl
  | cons t ts ih =>
    have hkept (h : Kept fnmatch ⟨true,name,dispatch⟩ unread (t :: ts)) :
        ∃ req, (recvRequest env (unread ++ t.arrivals)).outcome = .returned req := by
      cases h with
      | last hreq => exact ⟨_,hreq⟩
      | next hreq => exact ⟨_,hreq⟩
    rw [List.map_cons, HttpServer.handleClient]
    cases hreq : (recvRequest env (unread ++ t.arrivals)).outcome with
    | waiting | closed | thrown f =>
      refine ⟨fun h => absurd h not_honoured_unanswered,fun h => ?_⟩
      obtain ⟨req,hret⟩ := hkept h
      rw [hreq] at hret
      cases hret
    | returned req =>
      have hflags := flags_received fnmatch name dispatch (recvRequest_close hreq)
      simp only [Bool.not_true, Bool.false_or]
      cases hflag : (dispatch.handle fnmatch req (HttpServer.newResponse ⟨true,name,dispatch⟩ req)).1.close with
      | true =>
        rw [if_pos rfl, honoured_closed]
        rw [hflag] at hflags
        constructor
        · rintro ⟨hask,hclose⟩
          exact .last hreq hask (by rw [hflags, hclose])
        · intro h
          cases h with
          | last hreq' hask hon =>
            cases hreq.symm.trans hreq'
            exact ⟨hask,(Prod.mk.inj (hflags.symm.trans hon)).2⟩
          | next hreq' _ hoff =>
            cases hreq.symm.trans hreq'
            cases (Prod.mk.inj (hflags.symm.trans hoff)).1
      | false =>
        rw [if_neg Bool.false_ne_true, honoured_more (closed_answered _), ih]
        rw [hflag] at hflags
        constructor
        · rintro ⟨hask,hclose,hrest⟩
          exact .next hreq hask (by rw [hflags, hclose]) hrest
        · intro h
          cases h with
          | last hreq' _ hon =>
            cases hreq.symm.trans hreq'
            cases (Prod.mk.inj (hflags.symm.trans hon)).1
          | next hreq' hask hoff hrest =>
            cases hreq.symm.trans hreq'
            exact ⟨hask,(Prod.mk.inj (hflags.symm.trans hoff)).2,hrest⟩

/-- A server to which no servlet was added is one of these. -/
theorem flagsKept_init : HttpServer.FlagsKept fnmatch ⟨true,name,.init notFoundServlet⟩ := by
  intro req rsp
  have hmatched : (ServletDispatch.init notFoundServlet).getMatchedServlet fnmatch req.path = some notFoundServlet := by
    rw [ServletDispatch.getMatchedServlet, ServletDispatch.init, Finmap.lookup_empty]
    rfl
  rw [ServletDispatch.handle, hmatched]
  exact ⟨rfl,rfl⟩

/-- With servlets that keep out of it only the first request of a connection can be one that ends it. -/
theorem kept_plain_iff (h : HttpServer.FlagsKept fnmatch ⟨true,name,dispatch⟩) (turns : List (Turn env)) :
    Kept fnmatch ⟨true,name,dispatch⟩ [] turns ↔ turns = [] ∨
      ∃ t ts, turns = t :: ts ∧ t.asksClose = true ∧ ∃ req, (recvRequest env t.arrivals).outcome = .returned req := by
  have hflags (req : HttpRequest) : HttpServer.flags fnmatch ⟨true,name,dispatch⟩ req = (true,true) :=
    Prod.ext (h _ _).1 (h _ _).2
  constructor
  · intro hk
    cases hk with
    | all => exact .inl rfl
    | last hreq hask _ => exact .inr ⟨_,_,rfl,hask,_,hreq⟩
    | next _ _ hoff =>
      rw [hflags] at hoff
      cases hoff
  · rintro (rfl | ⟨t,ts,rfl,hask,req,hreq⟩)
    · exact .all
    · exact .last hreq hask (hflags req)

end

/-- Keep-alive is honoured exactly where the servlets switch the flags as the requests ask. With servlets
that leave the flags alone that is: for no request at all, or when the first one carries `Connection: close`
and reaches the server. -/
theorem keepalive_honoured_iff (fnmatch : Text → Text → Int) (env : Surroundings) (name : Text)
    (dispatch : ServletDispatch Servlet) (turns : List (Turn env)) :
    let server : HttpServer := ⟨true,name,dispatch⟩
    let served := server.handleClient fnmatch env [] (turns.map (·.arrivals))
    (Honoured turns served ↔ Kept fnmatch server [] turns) ∧
    (server.FlagsKept fnmatch → (Honoured turns served ↔ turns = [] ∨
      ∃ t ts, turns = t :: ts ∧ t.asksClose = true ∧ ∃ req, (recvRequest env t.arrivals).outcome = .returned req)) := by
  have hkept := honoured_iff_kept fnmatch name dispatch [] turns
  exact ⟨hkept,fun h => hkept.trans (kept_plain_iff fnmatch name dispatch h turns)⟩

private def ordinary : Surroundings := ⟨4096,fun _ => none,⟨0,false⟩⟩
private def keepRequest : Request := ⟨text "GET / HTTP/1.1\r\nConnection: keep-alive\r\n\r\n",[]⟩

private theorem keepRequest_wellFormed : keepRequest.WellFormed ordinary :=
  ⟨⟨348,by decide +kernel⟩,by decide +kernel,by decide +kernel,by decide +kernel⟩

/-- A client that asks to keep the connection is told that it will be closed, and it is. -/
theorem keepalive_refused :
    let server : HttpServer := ⟨true,text "radixun/1.0.0",.init notFoundServlet⟩
    let turn : Turn ordinary := ⟨keepRequest,[keepRequest.wire],keepRequest_wellFormed,rfl⟩
    let served := server.handleClient (fun _ _ => 1) ordinary [] [turn.arrivals]
    turn.asksClose = false ∧ served.responses.map (·.saysClose) = [true] ∧ served.ending = .closed ∧
      ¬Honoured [turn] served := by
  intro server turn served
  have hask : turn.asksClose = false := by decide +kernel
  have hend : served.ending = .closed := by decide +kernel
  refine ⟨hask,by decide +kernel,hend,?_⟩
  intro h
  have hopen := h.ending
  rw [hend, List.any_cons, hask] at hopen
  cases hopen

end Radixun.Http
