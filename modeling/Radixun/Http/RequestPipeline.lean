import Radixun.Http.RequestStream

/-! Requests that follow one another on a connection. A call of `recvRequest` has a buffer of its own,
and what the buffer holds behind the request is gone when the call returns. -/
namespace Radixun.Http
open Radixun.Foundation CString Common.Stream RequestMachine

/-- A request as it is sent. -/
structure Request where
  head : Text
  body : Text

def Request.wire (r : Request) : Text := r.head ++ r.body

def Request.message (u : Uninitialised) (r : Request) : HttpRequest :=
  { (headParsed u [r.head]).data with body := r.body }

/-- The head is one the parser accepts, and announces the length of the body. -/
structure Request.WellFormed (env : Surroundings) (r : Request) : Prop where
  ends : ∃ cs, (headWalk env.uninitialised r.head).stop = .broke cs r.head.length
  unthrown : (headParsed env.uninitialised [r.head]).thrown = none
  fine : (headParsed env.uninitialised [r.head]).error = 0
  announced : (getAs env.lexicalCast (headParsed env.uninitialised [r.head]).data.headers (text "content-length") 0).toNat =
    r.body.length

/-- Each head lies within one read: the reads behind the requests before it begin with all of it. -/
def HeadsWhole : List Text → List Request → Prop
  | _, [] => True
  | segs, r :: rs => r.head.length ≤ (segs.headD []).length ∧ HeadsWhole (dropBytes r.wire.length segs) rs

/-- The bytes a connection still has to deliver. -/
def unread : List Arrival → Text
  | [] => []
  | .bytes s :: as => s ++ unread as
  | .error :: as => unread as

/-- Successive calls return the requests in order, and none takes bytes of a later one off the connection. -/
def Serves (env : Surroundings) : List Arrival → List Request → Prop
  | _, [] => True
  | as, r :: rs =>
    (recvRequest env as).outcome = .returned (r.message env.uninitialised) ∧
    unread (recvRequest env as).rest = (rs.map Request.wire).flatten ∧ Serves env (recvRequest env as).rest rs

/-- The read that brings the end of a head brings nothing behind the body, nor does it look like one that
filled the buffer in vain, and `readFixSize` can return the length of what is missing. -/
def ReadsNoFurther (env : Surroundings) : List Text → List Request → Prop
  | _, [] => True
  | segs, r :: rs =>
    (let o := (segs.headD []).length - r.head.length
     o ≤ r.body.length ∧ isFull env.bufferSize o = false ∧ r.body.length ≤ maxSize ∧
       (o = r.body.length ∨ 0 < int (r.body.length - o))) ∧
    ReadsNoFurther env (dropBytes r.wire.length segs) rs

theorem unread_bytes (segs : List Text) : unread (segs.map .bytes) = segs.flatten := by
  induction segs with
  | nil => rfl
  | cons s ss ih => rw [List.map_cons, unread, ih, List.flatten_cons]

section
variable {env : Surroundings} {s : Text} {ss : List Text} {r : Request} {later : Text}

/-- A well-formed request completes unless its read looks like one that filled the buffer in vain. -/
theorem head_complete (hreads : Reads env.bufferSize (s :: ss)) (hflat : (s :: ss).flatten = r.wire ++ later)
    (hwf : r.WellFormed env) (hwhole : r.head.length ≤ s.length) :
    headParsed env.uninitialised (s :: ss) = headParsed env.uninitialised [r.head] ∧
    ∀ n, HeadComplete env (s :: ss) n ↔ n = r.head.length ∧ isFull env.bufferSize (s.length - r.head.length) = false := by
  obtain ⟨cs,hends⟩ := hwf.ends
  have hlen := (hreads s (List.mem_cons_self ..)).2
  have hcat : (s :: ss).flatten = r.head ++ (r.body ++ later) := by rw [hflat, Request.wire, List.append_assoc]
  obtain ⟨hstop,hparsed⟩ := headParsed_whole hcat
    (fun p hp => by rw [begins, if_pos (Nat.lt_of_lt_of_le hp hwhole)]) (by omega) hends
  have hroom : Room env.bufferSize (s :: ss) r.head.length ↔ isFull env.bufferSize (s.length - r.head.length) = false := by
    rw [Room, if_pos hwhole]
  refine ⟨hparsed,fun n => ⟨fun h => ?_,?_⟩⟩
  · obtain ⟨cs',hcs⟩ := h.ends
    obtain ⟨-,rfl⟩ := Stop.broke.inj (hcs.symm.trans hstop)
    exact ⟨rfl,hroom.mp h.room⟩
  · rintro ⟨rfl,hfull⟩
    exact ⟨⟨cs,hstop⟩,hparsed ▸ hwf.unthrown,hparsed ▸ hwf.fine,hroom.mpr hfull⟩

theorem int64_small {n : UInt64} (h : n.toNat ≤ maxSize) : (int64 n).toNat = n.toNat := by
  unfold maxSize at h
  rw [int64_nat (by omega), Int.toNat_natCast]

private theorem drop_iff {x y body : Text} (h : x ++ y = body ++ later) :
    y.drop (body.length - x.length) = later ↔ x.length ≤ body.length := by
  have hlen := congrArg List.length h
  simp only [List.length_append] at hlen
  constructor
  · intro heq
    have := congrArg List.length heq
    rw [List.length_drop] at this
    omega
  · intro hle
    have := congrArg (List.drop body.length) h
    rwa [List.drop_left, List.drop_append, List.drop_eq_nil_of_le hle, List.nil_append] at this

/-- One call: it returns the request and takes nothing of the later ones exactly when its reads allow. -/
theorem call_iff (hreads : Reads env.bufferSize (s :: ss)) (hflat : (s :: ss).flatten = r.wire ++ later)
    (hwf : r.WellFormed env) (hwhole : r.head.length ≤ s.length) :
    let c := recvRequest env ((s :: ss).map .bytes)
    let o := s.length - r.head.length
    (c.outcome = .returned (r.message env.uninitialised) ∧ unread c.rest = later ↔
      o ≤ r.body.length ∧ isFull env.bufferSize o = false ∧ r.body.length ≤ maxSize ∧
        (o = r.body.length ∨ 0 < int (r.body.length - o))) ∧
    (c.outcome = .returned (r.message env.uninitialised) → unread c.rest = later →
      c.rest = (dropBytes r.wire.length (s :: ss)).map .bytes) := by
  obtain ⟨hparsed,hcomplete⟩ := head_complete hreads hflat hwf hwhole
  dsimp only
  by_cases hfull : isFull env.bufferSize (s.length - r.head.length) = false
  swap
  · have hnot : (recvRequest env ((s :: ss).map .bytes)).outcome ≠ .returned (r.message env.uninitialised) := fun h => by
      obtain ⟨n,hn⟩ := recvRequest_head hreads h
      exact hfull ((hcomplete n).mp hn).2
    exact ⟨⟨fun h => absurd h.1 hnot,fun h => absurd h.2.1 hfull⟩,fun h => absurd h hnot⟩
  have hn := (hcomplete _).mpr ⟨rfl,hfull⟩
  obtain ⟨-,hcall⟩ := recvRequest_complete hreads hn
  have hbehind : behind (s :: ss) r.head.length = (s.drop r.head.length,ss) := by rw [behind, if_pos hwhole]
  have hdrop : (s :: ss).flatten.drop r.head.length = r.body ++ later := by
    rw [hflat, Request.wire, List.append_assoc, List.drop_left]
  have hlength : (s :: ss).flatten.length - r.head.length = r.body.length + later.length := by
    rw [← List.length_drop, hdrop, List.length_append]
  rw [hparsed, hdrop, hlength, hbehind, List.length_drop] at hcall
  by_cases hmax : r.body.length ≤ maxSize
  swap
  · have hnot : (recvRequest env ((s :: ss).map .bytes)).outcome ≠ .returned (r.message env.uninitialised) :=
      fun h => hmax (returned_body hreads h)
    exact ⟨⟨fun h => absurd h.1 hnot,fun h => absurd h.2.2.1 hmax⟩,fun h => absurd h hnot⟩
  have hlen : bodyLength env (headParsed env.uninitialised [r.head]).data = r.body.length := by
    rw [bodyLength, int64_small (hwf.announced ▸ hmax), hwf.announced]
  rw [hlen, if_neg (Nat.not_lt.mpr hmax), if_neg (by omega), List.take_left] at hcall
  obtain ⟨hout,hrest⟩ := Prod.mk.inj hcall
  have hcat : s.drop r.head.length ++ ss.flatten = r.body ++ later := by
    rw [← hdrop, List.flatten_cons, List.drop_append_of_le_length hwhole]
  have hunread : unread (recvRequest env ((s :: ss).map .bytes)).rest = later ↔ s.length - r.head.length ≤ r.body.length := by
    have := drop_iff hcat
    rwa [List.length_drop, ← dropBytes_flatten, ← unread_bytes, ← hrest] at this
  refine ⟨?_,fun _ h => ?_⟩
  · rw [hunread, hout]
    by_cases hint : r.body.length - (s.length - r.head.length) = 0 ∨ 0 < int (r.body.length - (s.length - r.head.length))
    · rw [if_pos hint]
      exact ⟨fun h => ⟨h.2,hfull,hmax,hint.imp_left fun h0 => by omega⟩,fun h => ⟨rfl,h.1⟩⟩
    · rw [if_neg hint]
      exact ⟨fun h => (by cases h.1),fun h => absurd (h.2.2.2.imp_left fun h0 => by omega) hint⟩
  · rw [hrest]
    have hle : (behind (s :: ss) r.head.length).1.length ≤ r.body.length := by
      rw [hbehind, List.length_drop]
      exact hunread.mp h
    have := behind_drop hle
    rw [hbehind, List.length_drop] at this
    rw [this, Request.wire, List.length_append]

end
/-- Over every sequence of well-formed requests and every segmentation that leaves the heads whole, the
calls return the requests and lose nothing exactly when no read goes further than its request. -/
theorem pipeline_iff {env : Surroundings} {segs : List Text} {rs : List Request} (hreads : Reads env.bufferSize segs)
    (hstream : segs.flatten = (rs.map Request.wire).flatten) (hwf : ∀ r ∈ rs, r.WellFormed env) (hwhole : HeadsWhole segs rs) :
    Serves env (segs.map .bytes) rs ↔ ReadsNoFurther env segs rs := by
  induction rs generalizing segs with
  | nil => exact Iff.rfl
  | cons r rs ih =>
    obtain ⟨hr,hrs⟩ := List.forall_mem_cons.mp hwf
    obtain ⟨hfirst,hlater⟩ := hwhole
    rw [List.map_cons, List.flatten_cons] at hstream
    obtain ⟨s,ss,rfl⟩ : ∃ s ss, segs = s :: ss := by
      cases segs with
      | nil =>
        obtain ⟨cs,h⟩ := hr.ends
        have := (ActionMachine.broke_bounds h).1
        rw [List.headD_nil, List.length_nil] at hfirst
        omega
      | cons s ss => exact ⟨s,ss,rfl⟩
    obtain ⟨hcall,hrest⟩ := call_iff hreads hstream hr hfirst
    have hih := ih (dropBytes_short _ hreads) (by rw [dropBytes_flatten, hstream, List.drop_left]) hrs hlater
    rw [Serves, ReadsNoFurther, ← hih, ← and_assoc]
    constructor
    · rintro ⟨hc,hserves⟩
      rw [hrest hc.1 hc.2] at hserves
      exact ⟨hcall.mp hc,hserves⟩
    · rintro ⟨hc,hserves⟩
      have hc := hcall.mpr hc
      exact ⟨hc,(hrest hc.1 hc.2).symm ▸ hserves⟩

private def bodiless : Surroundings := ⟨4096,fun _ => none,⟨0,false⟩⟩
private def requestA : Request := ⟨text "GET /a HTTP/1.1\r\n\r\n",[]⟩
private def requestB : Request := ⟨text "GET /b HTTP/1.1\r\n\r\n",[]⟩

private theorem requestA_wellFormed : requestA.WellFormed bodiless :=
  ⟨⟨348,by decide +kernel⟩,by decide +kernel,by decide +kernel,by decide +kernel⟩

private theorem requestB_wellFormed : requestB.WellFormed bodiless :=
  ⟨⟨348,by decide +kernel⟩,by decide +kernel,by decide +kernel,by decide +kernel⟩

/-- Two requests without bodies in one read: the second call has nothing to read. -/
theorem second_request_lost :
    let c := recvRequest bodiless [.bytes (requestA.wire ++ requestB.wire)]
    requestA.WellFormed bodiless ∧ requestB.WellFormed bodiless ∧
    HeadsWhole [requestA.wire ++ requestB.wire] [requestA,requestB] ∧
    c.outcome = .returned (requestA.message bodiless.uninitialised) ∧ (recvRequest bodiless c.rest).outcome = .waiting ∧
    ¬Serves bodiless [.bytes (requestA.wire ++ requestB.wire)] [requestA,requestB] := by
  have hlost : (recvRequest bodiless (recvRequest bodiless [.bytes (requestA.wire ++ requestB.wire)]).rest).outcome = .waiting := by
    decide +kernel
  refine ⟨requestA_wellFormed,requestB_wellFormed,⟨by decide,by decide,trivial⟩,by decide +kernel,hlost,fun h => ?_⟩
  exact absurd (hlost.symm.trans h.2.2.1) nofun

theorem pipeline_of_two :
    Serves bodiless ([requestA.wire,requestB.wire].map .bytes) [requestA,requestB] ↔
      ReadsNoFurther bodiless [requestA.wire,requestB.wire] [requestA,requestB] := by
  refine pipeline_iff (by unfold Reads; decide) (by decide) (fun r hr => ?_) ⟨by decide,by decide,trivial⟩
  rcases List.mem_cons.mp hr with rfl | hr
  · exact requestA_wellFormed
  · exact List.mem_singleton.mp hr ▸ requestB_wellFormed

end Radixun.Http
