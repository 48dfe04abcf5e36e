import Radixun.Http.RequestStream
import Radixun.Http.ResponseHead

/-! Bodies of the announced length, in `recvRequest` and in the branch of `recvResponse` for bodies that are
not chunked: the part of the body that came with the head, and the rest in whatever pieces it comes. -/
namespace Radixun.Http
open Radixun.Foundation CString Common.Stream

/-- What `recvRequest` asks of its parser. -/
def requestCalls : ParserCalls HttpRequestParser :=
  ⟨HttpRequestParser.execute,(·.thrown),HttpRequestParser.hasError,HttpRequestParser.isFinished⟩

/-- A parser that gets `data` finishes in `σ`, with `rest` behind the head. -/
structure Finishes {P : Type} (calls : ParserCalls P) (start : P) (data : Text) (σ : P) (rest : Text) : Prop where
  ran : calls.execute start data = (σ,rest)
  unthrown : calls.thrown σ = none
  fine : calls.hasError σ = false
  finished : calls.isFinished σ ≠ 0

/-- A whole head of a request that announces a body of `n` bytes. -/
def RequestHead (env : Surroundings) (head : Text) (n : Nat) : Prop :=
  ∃ σ, Finishes requestCalls (.init env.uninitialised) head σ [] ∧ (σ.getContentLength env.lexicalCast).toNat = n

/-- A whole head of a response that is not chunked and announces a body of `n` bytes. -/
def ResponseHead (env : Surroundings) (status : Int) (head : Text) (n : Nat) : Prop :=
  ∃ σ, Finishes (responseCalls false) (.init status) head σ [] ∧ σ.parser.chunked = false ∧
    (σ.getContentLength env.lexicalCast).toNat = n

/-- What arrives: a first read that brings a head with some bytes behind it, and what later reads take from. -/
structure Delivery (buffSize : Nat) where
  head : Text
  leftover : Text
  later : List Text
  fits : (head ++ leftover).length ≤ min buffSize recvMax
  pieces : Pieces later

namespace Delivery
variable {buffSize : Nat}

def arrivals (d : Delivery buffSize) : List Arrival := .bytes (d.head ++ d.leftover) :: d.later.map .bytes

/-- The stream behind the head. -/
def stream (d : Delivery buffSize) : Text := d.leftover ++ d.later.flatten

end Delivery

/-- The bytes that `memcpy` puts into a body of `length` bytes from the `offset` bytes behind the head. -/
def copied (length offset : Nat) : Nat := if length ≥ offset then offset else length

/-- The calls of `read` behind the copy, by their places in the body. -/
def bodyReads (length : Nat) (data : Text) (as : List Arrival) : List Call :=
  (Common.Stream.readFixSize (length - data.length) (readResults (length - data.length) as)).calls.map
    fun c => ⟨copied length data.length + c.offset,c.size⟩

/-- The copy stays inside the body and inside what the buffer holds, and each read inside the body. -/
structure InBounds (buffSize length : Nat) (data : Text) (as : List Arrival) : Prop where
  target : copied length data.length ≤ length
  source : copied length data.length ≤ data.length
  held : data.length ≤ buffSize
  reads : ∀ c ∈ bodyReads length data as, c.offset + c.size ≤ length

/-- A call gives its message the `n` bytes behind the head as the body, as soon as all of them have arrived. -/
structure Assembles {M : Type} {buffSize : Nat} (body : M → Text) (n : Nat) (d : Delivery buffSize) (r : Received M) : Prop where
  returns : n ≤ d.stream.length → ∃ m, r.outcome = .returned m ∧ body m = d.stream.take n
  waits : d.stream.length < n → r.outcome = .waiting
  resized : r.resized = [n]
  inside : InBounds buffSize n d.leftover (d.later.map .bytes)

section
variable {env : Surroundings} {head : Text} {status : Int} {buffSize n : Nat}

/-- The parser of requests comes to the same behind a head, whatever the buffer holds behind it. -/
private theorem request_behind {u : Uninitialised} {σ : HttpRequestParser} (h : Finishes requestCalls (.init u) head σ [])
    (more : Text) (hlen : (head ++ more).length ≤ recvMax) :
    ∃ τ, Finishes requestCalls (.init u) (head ++ more) τ more ∧ τ.data = σ.data := by
  obtain ⟨hran,hunthrown,hfine,hfinished⟩ := h
  obtain rfl : ((HttpRequestParser.init u).execute head).1 = σ := congrArg Prod.fst hran
  have hrest : ((HttpRequestParser.init u).execute head).2 = [] := congrArg Prod.snd hran
  have hne : head ≠ [] := by
    rintro rfl
    exact hfinished rfl
  have hne' : head ++ more ≠ [] := List.append_ne_nil_of_left_ne_nil hne more
  have hhead : head.length ≤ recvMax := by
    rw [List.length_append] at hlen
    omega
  obtain ⟨h1,h2⟩ := execute_eq hne (.init u)
  obtain ⟨h1',h2'⟩ := execute_eq hne' (.init u)
  rw [h2] at hrest
  have hstates := stop_states (r := u.uriRelaxed) (p := 0) head (show 1 ≠ 0 ∧ 1 < 348 by decide)
  rw [show onward (.init u) 0 head = headWalk u head from rfl] at h1 hrest
  cases hstop : (headWalk u head).stop with
  | more cs =>
    rw [show (requestMachine u.uriRelaxed).walk 1 0 head = headWalk u head from rfl, hstop] at hstates
    have hcs : ((HttpRequestParser.init u).execute head).1.parser.cs = cs := by rw [h1, hstop]; rfl
    have hno : ((HttpRequestParser.init u).execute head).1.isFinished = 0 := by
      simp only [HttpRequestParser.isFinished, hcs, if_neg hstates.1, if_neg (Nat.not_le.mpr hstates.2)]
    exact absurd hno hfinished
  | failed p =>
    have hcs : ((HttpRequestParser.init u).execute head).1.parser.cs = 0 := by rw [h1, hstop]; rfl
    have herror : ((HttpRequestParser.init u).execute head).1.hasError = true := by simp [HttpRequestParser.hasError, hcs]
    exact absurd (herror.symm.trans hfine) fun he => by cases he
  | broke cs p =>
    have hcs : ((HttpRequestParser.init u).execute head).1.parser.cs = cs := by rw [h1, hstop]; rfl
    have hp : p = head.length := by
      rw [hstop] at hrest
      have hle := List.drop_eq_nil_iff.mp hrest
      have hge := (ActionMachine.broke_bounds hstop).2
      have : p ≤ head.length := by omega
      exact Nat.le_antisymm this hle
    have hwhole : ∀ q, q < head.length → begins [head ++ more] q = 0 :=
      fun q hq => by rw [begins, if_pos (by rw [List.length_append]; omega)]
    obtain ⟨hstop',hparsed⟩ := headParsed_whole (List.flatten_singleton ..) hwhole hhead hstop
    rw [List.flatten_singleton, hp] at hstop'
    rw [show onward (.init u) 0 (head ++ more) = headWalk u (head ++ more) from rfl, hstop'] at h1' h2'
    have hsame : ((HttpRequestParser.init u).execute (head ++ more)).1.parsed = ((HttpRequestParser.init u).execute head).1.parsed := by
      rw [execute_parsed hne', execute_parsed hne, acted_head u hlen, acted_head u hhead, hparsed]
    have hcs' : ((HttpRequestParser.init u).execute (head ++ more)).1.parser.cs = cs := by rw [h1']; rfl
    have herror := congrArg Parsed.error hsame
    refine ⟨_,⟨Prod.ext rfl (h2'.trans List.drop_left),(congrArg Parsed.thrown hsame).trans hunthrown,?_,?_⟩,congrArg Parsed.data hsame⟩
    · rw [← hfine]
      simp only [requestCalls, HttpRequestParser.hasError, hcs, hcs']
      rw [show ((HttpRequestParser.init u).execute (head ++ more)).1.error = _ from herror]
      rfl
    · refine ne_of_eq_of_ne ?_ hfinished
      simp only [requestCalls, HttpRequestParser.isFinished, hcs, hcs']

/-- Only the end of the head brings the machine of responses to its final state. -/
private theorem more_unfinished {cs cs' p : Nat} {bytes : Text} (hcs : cs ≠ 120)
    (h : (responseMachine.walk cs p bytes).stop = .more cs') : cs' ≠ 120 := by
  have hcheck : responseMachine.check (fun _ e => e.acts.any responseMachine.breaks || e.target != 120) = true := by decide +kernel
  induction bytes generalizing cs p with
  | nil =>
    cases h
    exact hcs
  | cons b bs ih =>
    obtain ⟨_,hw⟩ | ⟨e,he,hb,hw⟩ | ⟨e,he,hb,hw⟩ := responseMachine.walk_cases cs p b bs
    · rw [hw] at h
      cases h
    · rw [hw] at h
      cases h
    · rw [hw] at h
      have hedge := ActionMachine.check_edge hcheck he
      rw [hb, Bool.false_or, bne_iff_ne] at hedge
      exact ih hedge h

/-- The parser of responses likewise. -/
private theorem response_behind {σ : HttpResponseParser} (h : Finishes (responseCalls false) (.init status) head σ [])
    (more : Text) (hlen : (head ++ more).length ≤ recvMax) :
    ∃ τ, Finishes (responseCalls false) (.init status) (head ++ more) τ more ∧ τ.parser.chunked = σ.parser.chunked ∧
      τ.data.headers = σ.data.headers := by
  obtain ⟨hran,hunthrown,hfine,hfinished⟩ := h
  have hhead : head.length ≤ recvMax := by
    rw [List.length_append] at hlen
    omega
  have hends : (responseMachine.walk 1 0 head).stop = .broke 120 head.length := by
    obtain rfl : ((HttpResponseParser.init status).execute head false).1 = σ := congrArg Prod.fst hran
    have hrest : ((HttpResponseParser.init status).execute head false).2 = [] := congrArg Prod.snd hran
    have hcs : ((HttpResponseParser.init status).execute head false).1.parser.cs = 120 := by
      by_contra hne
      simp only [responseCalls, HttpResponseParser.isFinished, HttpResponseParser.hasError, Bool.or_eq_false_iff,
        decide_eq_false_iff_not] at hfinished hfine
      exact hfinished (by rw [if_neg hfine.2, if_neg hne])
    have hwalk : HttpResponseParser.walk (.init status) head = responseMachine.walk 1 0 head := rfl
    simp only [HttpResponseParser.execute, Bool.false_eq_true, if_false, HttpResponseParser.httpclientParserExecute, hwalk] at hcs hrest
    cases hstop : (responseMachine.walk 1 0 head).stop with
    | more cs =>
      rw [hstop] at hcs
      exact absurd hcs (more_unfinished (by decide) hstop)
    | failed p =>
      rw [hstop] at hcs
      exact absurd hcs (by simp [HttpResponseParser.land])
    | broke cs p =>
      rw [hstop] at hcs hrest
      obtain rfl : cs = 120 := hcs
      have hle := List.drop_eq_nil_iff.mp hrest
      have hge := (ActionMachine.broke_bounds hstop).2
      have hp : p ≤ head.length := by omega
      rw [Nat.le_antisymm hp hle]
  have hσ : ((HttpResponseParser.init status).execute head false).1 = σ := congrArg Prod.fst hran
  obtain ⟨τ,q,hrun,halike,hcs⟩ := execute_alike hends (hσ ▸ hunthrown) hhead more
  rw [hσ] at halike
  have herror : σ.error = 0 := by
    simp only [responseCalls, HttpResponseParser.hasError, Bool.or_eq_false_iff, decide_eq_false_iff_not, not_not] at hfine
    exact hfine.1
  refine ⟨τ,⟨hrun,halike.thrown.trans hunthrown,?_,?_⟩,halike.chunked,halike.headers⟩
  · simp [responseCalls, HttpResponseParser.hasError, halike.error, herror, hcs]
  · simp [responseCalls, HttpResponseParser.isFinished, hcs]

/-- The loop over the head ends with its first read. -/
theorem parseLoop_first {P : Type} {calls : ParserCalls P} {start σ : P} (d : Delivery buffSize)
    (h : Finishes calls start (d.head ++ d.leftover) σ d.leftover) (hne : d.head ≠ []) :
    (parseLoop calls buffSize).run (start,[]) d.arrivals =
      .stopped (if isFull buffSize d.leftover.length then .closed else .complete,σ,d.leftover) (d.later.map .bytes) := by
  have hread : read ((parseLoop calls buffSize).asked (start,[])) d.arrivals = .got (d.head ++ d.leftover) (d.later.map .bytes) :=
    read_whole d.fits
  refine ReadLoop.run_stop hread (List.append_ne_nil_of_left_ne_nil hne _) ?_
  simp only [parseLoop, List.nil_append, h.ran, h.unthrown, h.fine, Bool.false_or]
  by_cases hfull : isFull buffSize d.leftover.length = true
  · rw [if_pos hfull, if_pos hfull]
  · rw [if_neg hfull, if_neg hfull, if_pos h.finished]

/-- Each read of the loop asks for all of the bytes that are missing. -/
private theorem calls_end {length offset left : Nat} {segs : List Text} (hsegs : Pieces segs) (hlen : length < 2^64)
    (hsum : offset + left ≤ length) :
    ∀ c ∈ (fixSize addOffset length (readResults left (segs.map .bytes)) offset left).calls, c.offset + c.size = offset + left := by
  induction left using Nat.strong_induction_on generalizing offset segs with
  | _ left ih =>
    cases left with
    | zero =>
      intro c hc
      rw [show (fixSize addOffset length (readResults 0 (segs.map .bytes)) offset 0).calls = [] by
        cases readResults 0 (segs.map .bytes) <;> rfl] at hc
      exact absurd hc List.not_mem_nil
    | succ left =>
      by_cases hne : segs = []
      · subst hne
        rw [List.map_nil, readResults_waiting rfl]
        intro c hc
        rw [List.mem_singleton.mp hc]
      · obtain ⟨t,hread,hpos,hle,-⟩ := read_front hsegs (Nat.succ_pos left) hne
        have ht : t ≠ [] := List.ne_nil_of_length_pos hpos
        have hsize : sizeT t.length = t.length := sizeT_nat (by omega)
        have hleft : sizeT (((left + 1 : Nat) : Int) - sizeT t.length) = left + 1 - t.length := by
          rw [hsize, show ((left + 1 : Nat) : Int) - t.length = ((left + 1 - t.length : Nat) : Int) by omega]
          exact sizeT_nat (by omega)
        rw [readResults_got (Nat.succ_ne_zero left) hread ht, hleft,
          fixSize_count (addOffset_advances hlen) hlen (by omega) (by omega) hsum, Int.toNat_natCast]
        intro c hc
        rcases List.mem_cons.mp hc with rfl | hc
        · rfl
        · have hrest := ih (left + 1 - t.length) (by omega) (dropBytes_short _ hsegs) (by omega) c hc
          omega

private theorem inBounds (d : Delivery buffSize) (hn : n < 2^31) : InBounds buffSize n d.leftover (d.later.map .bytes) := by
  have hfits := d.fits
  rw [List.length_append] at hfits
  refine ⟨?_,?_,by omega,fun c hc => ?_⟩
  · unfold copied
    split <;> omega
  · unfold copied
    split <;> omega
  · obtain ⟨c,hcall,rfl⟩ := List.mem_map.mp hc
    have hend := calls_end d.pieces (by omega) (by omega) c hcall
    dsimp only
    unfold copied
    split
    · omega
    · -- the body needs less than the buffer holds, so that nothing is read
      rename_i hlt
      rw [show n - d.leftover.length = 0 by omega] at hcall
      rw [show (Common.Stream.readFixSize 0 (readResults 0 (d.later.map .bytes))).calls = [] by
        unfold Common.Stream.readFixSize
        cases readResults 0 (d.later.map .bytes) <;> rfl] at hcall
      exact absurd hcall List.not_mem_nil

/-- What the part behind the head makes of a delivery. -/
private theorem assembled {M : Type} {f : Text → M} {body : M → Text} (hf : ∀ b, body (f b) = b) (d : Delivery buffSize)
    (hn : n < 2^31) {r : Received M} (ho : r.outcome = (recvBody n d.leftover (d.later.map .bytes)).1.map f)
    (hr : r.resized = [n]) : Assembles body n d r := by
  have hstream : d.stream.length = d.leftover.length + d.later.flatten.length := List.length_append
  rw [recvBody_pieces (by unfold maxSize; omega) _ d.pieces] at ho
  refine ⟨fun hall => ?_,fun hshort => ?_,hr,inBounds d hn⟩
  · by_cases hfit : n ≤ d.leftover.length
    · rw [if_pos hfit] at ho
      exact ⟨_,ho,by rw [hf, Delivery.stream, List.take_append_of_le_length hfit]⟩
    · have hint : 0 < int (n - d.leftover.length) := by
        rw [int_small (by omega)]
        omega
      rw [if_neg hfit, if_pos (by omega), if_pos hint] at ho
      exact ⟨_,ho,hf _⟩
  · rw [if_neg (by omega), if_neg (by omega)] at ho
    exact ho

private theorem announced_length {length : UInt64} (hn : n < 2^31) (h : length.toNat = n) : int64 length = n := by
  rw [int64_nat (by omega), h]

private theorem isFull_iff {offset : Nat} : isFull buffSize offset = true ↔ (offset : Int) = int buffSize := decide_eq_true_iff

private theorem request_assembled (d : Delivery env.bufferSize) (hpos : 0 < n) (hn : n < 2^31) (h : RequestHead env d.head n) :
    Assembles HttpRequest.body n d (recvRequest env d.arrivals) ↔ (d.leftover.length : Int) ≠ int env.bufferSize := by
  obtain ⟨σ,hσ,hlength⟩ := h
  obtain ⟨τ,hτ,hdata⟩ := request_behind hσ d.leftover (Nat.le_trans d.fits (Nat.min_le_right ..))
  have hne : d.head ≠ [] := by
    intro hnil
    rw [hnil] at hσ
    obtain rfl : _ = σ := congrArg Prod.fst hσ.ran
    exact hσ.finished rfl
  have hrun := parseLoop_first d hτ hne
  have hint : int64 (τ.getContentLength env.lexicalCast) = n := by
    rw [HttpRequestParser.getContentLength, hdata]
    exact announced_length hn hlength
  unfold recvRequest
  rw [show (recvHead env.bufferSize).run (.init env.uninitialised,[]) d.arrivals = _ from hrun]
  by_cases hfull : isFull env.bufferSize d.leftover.length = true
  · rw [if_pos hfull]
    exact ⟨fun h => absurd h.resized (fun he => by cases he),fun h => absurd (isFull_iff.mp hfull) h⟩
  · rw [if_neg hfull]
    dsimp only
    rw [hint, if_pos (by omega)]
    exact ⟨fun _ => mt isFull_iff.mpr hfull,fun _ => assembled (fun _ => rfl) d hn rfl rfl⟩

private theorem response_assembled (d : Delivery env.bufferSize) (hpos : 0 < n) (hn : n < 2^31) (h : ResponseHead env status d.head n) :
    Assembles HttpResponse.body n d (recvResponse env status d.arrivals) ↔ (d.leftover.length : Int) ≠ int env.bufferSize := by
  obtain ⟨σ,hσ,hplain,hlength⟩ := h
  obtain ⟨τ,hτ,hchunked,hheaders⟩ := response_behind hσ d.leftover (Nat.le_trans d.fits (Nat.min_le_right ..))
  have hne : d.head ≠ [] := by
    intro hnil
    rw [hnil] at hσ
    obtain rfl : _ = σ := congrArg Prod.fst hσ.ran
    exact hσ.finished rfl
  have hrun := parseLoop_first d hτ hne
  have hint : int64 (τ.getContentLength env.lexicalCast) = n := by
    rw [HttpResponseParser.getContentLength, hheaders]
    exact announced_length hn hlength
  unfold recvResponse
  rw [hrun]
  by_cases hfull : isFull env.bufferSize d.leftover.length = true
  · rw [if_pos hfull]
    exact ⟨fun h => absurd h.resized (fun he => by cases he),fun h => absurd (isFull_iff.mp hfull) h⟩
  · rw [if_neg hfull]
    dsimp only
    rw [hchunked, hplain, hint, if_neg (fun he => by cases he), if_pos (by omega)]
    exact ⟨fun _ => mt isFull_iff.mpr hfull,fun _ => assembled (fun _ => rfl) d hn rfl rfl⟩

end
/-- Over every head, every part of the body that comes with it and every sequence of later reads, both functions
assemble the body exactly when the number of bytes behind the head is not the size of the buffer as an `int`. -/
theorem body_assembled_iff {env : Surroundings} {status : Int} {n : Nat} (d : Delivery env.bufferSize) (hpos : 0 < n) (hn : n < 2^31) :
    (RequestHead env d.head n →
      (Assembles HttpRequest.body n d (recvRequest env d.arrivals) ↔ (d.leftover.length : Int) ≠ int env.bufferSize)) ∧
    (ResponseHead env status d.head n →
      (Assembles HttpResponse.body n d (recvResponse env status d.arrivals) ↔ (d.leftover.length : Int) ≠ int env.bufferSize)) :=
  ⟨request_assembled d hpos hn,response_assembled d hpos hn⟩

private theorem finishes {P : Type} {calls : ParserCalls P} {start : P} {head : Text}
    (h : (calls.execute start head).2 = [] ∧ calls.thrown (calls.execute start head).1 = none ∧
      calls.hasError (calls.execute start head).1 = false ∧ calls.isFinished (calls.execute start head).1 ≠ 0) :
    Finishes calls start head (calls.execute start head).1 [] :=
  ⟨Prod.ext rfl h.1,h.2.1,h.2.2.1,h.2.2.2⟩

private def five : Text → Option UInt64 := fun t => if t = text "5" then some 5 else none
private def postHead : Text := text "POST / HTTP/1.1\r\ncontent-length: 5\r\n\r\n"
private def okHead : Text := text "HTTP/1.1 200 OK\r\ncontent-length: 5\r\n\r\n"

private theorem postHead_announces (buffSize : Nat) : RequestHead ⟨buffSize,five,⟨0,false⟩⟩ postHead 5 := by
  have hfinishes : Finishes requestCalls (.init ⟨0,false⟩) postHead _ [] := finishes (by decide +kernel)
  have hlength : ((requestCalls.execute (.init ⟨0,false⟩) postHead).1.getContentLength five).toNat = 5 := by decide +kernel
  exact ⟨_,hfinishes,hlength⟩

private theorem okHead_announces (buffSize : Nat) : ResponseHead ⟨buffSize,five,⟨0,false⟩⟩ 0 okHead 5 := by
  have hfinishes : Finishes (responseCalls false) (.init 0) okHead _ [] := finishes (by decide +kernel)
  have hplain : ((responseCalls false).execute (.init 0) okHead).1.parser.chunked = false := by decide +kernel
  have hlength : (((responseCalls false).execute (.init 0) okHead).1.getContentLength five).toNat = 5 := by decide +kernel
  exact ⟨_,hfinishes,hplain,hlength⟩

private def inPieces : Delivery 4096 := ⟨postHead,text "he",[text "l",text "lo"],by decide,by unfold Pieces; decide⟩
private def inOne : Delivery 4096 := ⟨okHead,text "hello!",[],by decide,by unfold Pieces; decide⟩

/-- A head with two bytes of its body and one with more than its body, in a buffer of the default size. -/
theorem body_of_five :
    Assembles HttpRequest.body 5 inPieces (recvRequest ⟨4096,five,⟨0,false⟩⟩ inPieces.arrivals) ∧
    Assembles HttpResponse.body 5 inOne (recvResponse ⟨4096,five,⟨0,false⟩⟩ 0 inOne.arrivals) :=
  ⟨((@body_assembled_iff ⟨4096,five,⟨0,false⟩⟩ 0 5 inPieces (by decide) (by decide)).1 (postHead_announces 4096)).mpr
      (by decide),
    ((@body_assembled_iff ⟨4096,five,⟨0,false⟩⟩ 0 5 inOne (by decide) (by decide)).2 (okHead_announces 4096)).mpr
      (by decide)⟩

/-- With a buffer of 4 GiB a head that comes alone looks like one that filled the buffer. -/
theorem large_buffer_closes :
    ∃ (env : Surroundings) (d : Delivery env.bufferSize), RequestHead env d.head 5 ∧
      d.stream.length = 5 ∧ (recvRequest env d.arrivals).outcome = .closed ∧
      ¬Assembles HttpRequest.body 5 d (recvRequest env d.arrivals) := by
  have hclosed : (recvRequest ⟨2^32,five,⟨0,false⟩⟩ [.bytes postHead,.bytes (text "hello")]).outcome = .closed := by decide +kernel
  refine ⟨⟨2^32,five,⟨0,false⟩⟩,⟨postHead,[],[text "hello"],by decide,by unfold Pieces; decide⟩,
    postHead_announces _,rfl,hclosed,fun h => ?_⟩
  obtain ⟨m,hm,-⟩ := h.returns (Nat.le_refl 5)
  exact absurd (hclosed.symm.trans hm) fun he => by cases he

end Radixun.Http
