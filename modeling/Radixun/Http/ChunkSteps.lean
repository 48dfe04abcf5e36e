import Radixun.Http.ChunkLine

/-! The loop over the chunks, step by step: a size line with what the buffer holds behind it, the part of a
payload that is still to come, and what the body looks like from there on. -/
namespace Radixun.Http
open Radixun.Foundation CString Common.Stream

/-- A run of the loop over the chunks that ends with a body. -/
def Completes (e : LoopEnd ChunkState (HeadEnd × HttpResponseParser × Text)) (body : Text) : Prop :=
  ∃ σ rest, e = .stopped (.complete,σ,body) rest

theorem completes_stopped {e : HeadEnd} {σ : HttpResponseParser} {b body : Text} {rest : List Arrival} :
    Completes (.stopped (e,σ,b) rest) body ↔ e = .complete ∧ b = body := by
  constructor
  · rintro ⟨τ,rest',h⟩
    obtain ⟨h,-⟩ := LoopEnd.stopped.inj h
    exact ⟨(Prod.mk.inj h).1,(Prod.mk.inj (Prod.mk.inj h).2).2⟩
  · rintro ⟨rfl,rfl⟩
    exact ⟨σ,rest,rfl⟩

/-- A parser that has neither failed nor thrown. -/
structure Sound (σ : HttpResponseParser) : Prop where
  thrown : σ.thrown = none
  error : σ.error = 0

section
variable {buffSize n : Nat} {σ : HttpResponseParser} {body data t y ds : Text} {segs : List Text} {as : List Arrival}

theorem next_header (σ : HttpResponseParser) (data body t : Text) :
    (recvChunks buffSize).next ⟨.header data,σ,body⟩ t =
      match (parseLoop (responseCalls true) buffSize).next (σ,data) t with
      | .inl r => .inl ⟨.header r.2,r.1,body⟩
      | .inr (.complete,r) => takeChunk r.1 r.2 body
      | .inr (e,r) => .inr (e,r.1,body) := rfl

theorem parseLoop_next (σ : HttpResponseParser) (chunk : Bool) (data t : Text) :
    (parseLoop (responseCalls chunk) buffSize).next (σ,data) t =
      match (σ.execute (data ++ t) chunk).1.thrown with
      | some f => .inr (.thrown f,σ.execute (data ++ t) chunk)
      | none =>
        if (σ.execute (data ++ t) chunk).1.hasError || isFull buffSize (σ.execute (data ++ t) chunk).2.length then
          .inr (.closed,σ.execute (data ++ t) chunk)
        else if (σ.execute (data ++ t) chunk).1.isFinished ≠ 0 then .inr (.complete,σ.execute (data ++ t) chunk)
        else .inl (σ.execute (data ++ t) chunk) := rfl

/-- A turn whose buffer the parser accepts. -/
theorem parseLoop_accepts {chunk : Bool} {σ' : HttpResponseParser} (hrun : σ.execute (data ++ t) chunk = (σ',y))
    (hσ' : Sound σ') (hcs : σ'.parser.cs = 120) :
    (parseLoop (responseCalls chunk) buffSize).next (σ,data) t =
      if isFull buffSize y.length then .inr (.closed,σ',y) else .inr (.complete,σ',y) := by
  have hclean : σ'.hasError = false := by simp [HttpResponseParser.hasError, hσ'.error, hcs]
  have hfin : σ'.isFinished = 1 := by simp [HttpResponseParser.isFinished, hcs]
  rw [parseLoop_next, hrun]
  simp only [hσ'.thrown, hclean, hfin, Bool.false_or]
  by_cases hfull : isFull buffSize y.length = true
  · rw [if_pos hfull, if_pos hfull]
  · rw [if_neg hfull, if_neg hfull, if_pos (by decide)]

/-- A turn in a chunk header, when the buffer holds all of the size line. -/
theorem next_size (h : HexSize ds n) (hσ : Sound σ) (y : Text) :
    ∃ σ', Sound σ' ∧ σ'.parser.contentLen = n ∧ σ'.parser.chunksDone = decide (n = 0) ∧ ∀ data t body,
      data ++ t = ds ++ 13 :: 10 :: y → (recvChunks buffSize).next ⟨.header data,σ,body⟩ t =
        if isFull buffSize y.length then .inr (.closed,σ',body) else takeChunk σ' y body := by
  obtain ⟨σ',hrun,_,he,ht,hcs,hlen,hdone⟩ := execute_size h hσ.thrown y
  have hσ' : Sound σ' := ⟨ht,he.trans hσ.error⟩
  refine ⟨σ',hσ',hlen,hdone,fun data t body hcat => ?_⟩
  rw [← hcat] at hrun
  rw [next_header, parseLoop_accepts hrun hσ' hcs]
  by_cases hfull : isFull buffSize y.length = true
  · rw [if_pos hfull, if_pos hfull]
  · rw [if_neg hfull, if_neg hfull]

/-- A turn with a line break in front of the size line closes the connection, or throws. -/
theorem next_break (σ : HttpResponseParser) (data t body : Text) :
    ∃ e r, (recvChunks buffSize).next ⟨.header (13 :: data),σ,body⟩ t = .inr (e,r) ∧ e ≠ .complete := by
  have hcs := execute_break σ (data ++ t)
  have herror : (σ.execute (13 :: data ++ t) true).1.hasError = true := by
    simp only [List.cons_append, HttpResponseParser.hasError, hcs, decide_true, Bool.or_true]
  rw [next_header, parseLoop_next, herror, Bool.true_or, if_pos rfl]
  cases (σ.execute (13 :: data ++ t) true).1.thrown with
  | some f => exact ⟨_,_,rfl,nofun⟩
  | none => exact ⟨_,_,rfl,nofun⟩

theorem takeChunk_short (hlen : σ.parser.contentLen = n) (hy : y.length < 2) :
    takeChunk σ y body = .inr (.thrown .lengthError,σ,body) := by
  simp only [takeChunk, hlen]
  rw [if_neg (by omega), append, if_pos (by omega)]

theorem takeChunk_whole (hlen : σ.parser.contentLen = n) (hy : n + 2 ≤ y.length) :
    takeChunk σ y body = nextChunk σ ((y.drop n).take (y.length - 2 - n)) (body ++ y.take n) := by
  simp only [takeChunk, hlen, Int.toNat_natCast]
  rw [if_pos (by omega), append, if_neg (by omega), Int.toNat_natCast,
    show ((y.length : Int) - 2 - n).toNat = y.length - 2 - n by omega]

theorem takeChunk_part (hlen : σ.parser.contentLen = n) (hlow : 2 ≤ y.length) (hy : y.length < n + 2) :
    takeChunk σ y body = .inl ⟨.payload (n + 2 - y.length : Nat),σ,body ++ y.take (y.length - 2)⟩ := by
  simp only [takeChunk, hlen]
  rw [if_neg (by omega), append, if_neg (by omega), show ((y.length : Int) - 2).toNat = y.length - 2 by omega,
    show (n : Int) - (y.length - 2) = (n + 2 - y.length : Nat) by omega]

/-- No run gets past a line break in front of a size line. -/
theorem run_break (σ : HttpResponseParser) (data body body' : Text) (as : List Arrival) :
    ¬Completes ((recvChunks buffSize).run ⟨.header (13 :: data),σ,body⟩ as) body' := by
  rintro ⟨τ,rest,h⟩
  cases hread : read ((recvChunks buffSize).asked ⟨.header (13 :: data),σ,body⟩) as with
  | waiting =>
    rw [ReadLoop.run_waiting hread] at h
    exact absurd h nofun
  | failed rest' =>
    rw [ReadLoop.run_failed hread] at h
    simp [recvChunks] at h
  | got t rest' =>
    by_cases ht : t = []
    · rw [ReadLoop.run_closed (ht ▸ hread)] at h
      simp [recvChunks] at h
    · obtain ⟨e,r,hnext,he⟩ := next_break σ data t body
      rw [ReadLoop.run_stop hread ht hnext] at h
      obtain ⟨h,-⟩ := LoopEnd.stopped.inj h
      exact he (Prod.mk.inj h).1

private theorem asked_payload (hB : 0 < int buffSize) {left : Nat} (hpos : 0 < left) :
    0 < (recvChunks buffSize).asked ⟨.payload left,σ,body⟩ ∧ (recvChunks buffSize).asked ⟨.payload left,σ,body⟩ ≤ left := by
  have hrange : int buffSize < 2^31 := by
    have := Int.bmod_lt (x := buffSize) (m := 2^32) (by omega)
    unfold int
    omega
  simp only [recvChunks]
  generalize int buffSize = most at hB hrange
  split
  · rw [sizeT_pos hB (by omega)]
    omega
  · rename_i hle
    rw [sizeT_pos (by omega) (by omega)]
    omega

/-- The rest of a payload is what follows in the stream, as far as there are bytes to come. -/
theorem run_payload (hB : 0 < int buffSize) (hdone : σ.parser.chunksDone = false) {left : Nat} (hpos : 0 < left)
    (hsegs : Pieces segs) (hall : left ≤ segs.flatten.length) :
    (recvChunks buffSize).run ⟨.payload left,σ,body⟩ (segs.map .bytes) =
      (recvChunks buffSize).run ⟨.header [],σ,body ++ segs.flatten.take left⟩ ((dropBytes left segs).map .bytes) := by
  induction left using Nat.strong_induction_on generalizing segs body with
  | _ left ih =>
    have hne : segs ≠ [] := fun h => by simp [h] at hall; omega
    obtain ⟨hapos,hale⟩ : 0 < (recvChunks buffSize).asked ⟨.payload left,σ,body⟩ ∧ _ := asked_payload hB hpos
    obtain ⟨t,hread,htpos,htle,ht⟩ := read_front hsegs hapos hne
    have htne : t ≠ [] := List.ne_nil_of_length_pos htpos
    have hflat : segs.flatten = t ++ (dropBytes t.length segs).flatten := by
      rw [dropBytes_flatten]
      conv_lhs => rw [← List.take_append_drop t.length segs.flatten, ← ht]
    have hlength := congrArg List.length hflat
    rw [List.length_append] at hlength
    by_cases hmore : t.length < left
    · have hnext : (recvChunks buffSize).next ⟨.payload left,σ,body⟩ t = .inl ⟨.payload (left - t.length : Nat),σ,body ++ t⟩ := by
        simp only [recvChunks]
        rw [if_pos (by omega), Int.ofNat_sub (by omega)]
      have htake : segs.flatten.take left = t ++ (dropBytes t.length segs).flatten.take (left - t.length) := by
        conv_lhs => rw [hflat, List.take_append, List.take_of_length_le (by omega)]
      rw [ReadLoop.run_go hread htne hnext, ih (left - t.length) (by omega) (by omega) (dropBytes_short _ hsegs) (by omega),
        dropBytes_dropBytes, show t.length + (left - t.length) = left by omega, htake, List.append_assoc]
    · obtain rfl : t.length = left := by omega
      have hnext : (recvChunks buffSize).next ⟨.payload t.length,σ,body⟩ t = .inl ⟨.header [],σ,body ++ t⟩ := by
        simp only [recvChunks]
        rw [if_neg (by omega), nextChunk, hdone]
        rfl
      rw [ReadLoop.run_go hread htne hnext, ← ht]

/-- With a buffer whose size becomes the `int` 0, nothing is read behind the buffered part of a payload. -/
theorem run_payload_zero (hB : int buffSize = 0) {left : Nat} (hpos : 0 < left) (hsegs : Pieces segs) (body' : Text) :
    ¬Completes ((recvChunks buffSize).run ⟨.payload left,σ,body⟩ (segs.map .bytes)) body' := by
  have hasked : (recvChunks buffSize).asked ⟨.payload left,σ,body⟩ = 0 := by
    simp only [recvChunks, hB]
    rw [if_pos (by omega)]
    rfl
  rintro ⟨τ,rest,h⟩
  cases segs with
  | nil =>
    rw [List.map_nil, ReadLoop.run_waiting rfl] at h
    exact absurd h nofun
  | cons s ss =>
    have hread := read_piece (n := 0) (hsegs s (List.mem_cons_self ..)).2 (ss.map .bytes)
    rw [List.take_zero, ← hasked] at hread
    rw [List.map_cons, ReadLoop.run_closed hread] at h
    simp [recvChunks] at h

/-- What a turn comes to has a body that continues `b`. -/
private def Grows (b : Text) : ChunkState ⊕ HeadEnd × HttpResponseParser × Text → Prop
  | .inl s => b <+: s.body
  | .inr r => b <+: r.2.2

private theorem nextChunk_grows {b : Text} (h : b <+: body) : Grows b (nextChunk σ data body) := by
  rw [nextChunk]
  split <;> exact h

private theorem append_grows {b x b' : Text} {k : Int} (h : append b x k = .ok b') : b <+: b' := by
  rw [append] at h
  split at h
  · exact absurd h nofun
  · obtain rfl := Except.ok.inj h
    exact List.prefix_append ..

private theorem takeChunk_grows : Grows body (takeChunk σ y body) := by
  simp only [takeChunk]
  split
  · split
    · exact List.prefix_refl body
    · rename_i hok
      exact nextChunk_grows (append_grows hok)
  · split
    · exact List.prefix_refl body
    · rename_i hok
      exact append_grows hok

private theorem next_grows (s : ChunkState) (t : Text) : Grows s.body ((recvChunks buffSize).next s t) := by
  obtain ⟨phase,σ,body⟩ := s
  cases phase with
  | header data =>
    rw [next_header]
    split
    · exact List.prefix_refl body
    · exact takeChunk_grows
    · exact List.prefix_refl body
  | payload left =>
    simp only [recvChunks]
    split
    · exact List.prefix_append ..
    · exact nextChunk_grows (List.prefix_append ..)

/-- A body only grows. -/
theorem run_prefix {state : ChunkState} {body' : Text} (h : Completes ((recvChunks buffSize).run state as) body') :
    state.body <+: body' := by
  obtain ⟨τ,rest,h⟩ := h
  refine ReadLoop.run_keeps (I := fun s => state.body <+: s.body) (Q := fun r => state.body <+: r.2.2)
    (fun s hs => hs) (fun s t s' hs hnext => ?_) (fun s t r hs hnext => ?_) (List.prefix_refl _) h
  all_goals
    have hgrows : Grows s.body ((recvChunks buffSize).next s t) := next_grows s t
    rw [hnext] at hgrows
    exact hs.trans hgrows

end
end Radixun.Http
