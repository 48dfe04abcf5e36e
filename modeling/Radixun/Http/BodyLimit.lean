import Radixun.Foundation.TextFrame
import Radixun.Http.Connection

/-! The configured maximum of a body, `http.request.max_body_size` and `http.response.max_body_size`,
against what the two receiving functions allocate. Neither of them asks for it. -/
namespace Radixun.Http
open Foundation CString TextFrame

/-- Where `boost::lexical_cast<uint64_t>` reads a text of digits, it reads the number of the digits. -/
def CastsDigits (cast : Text → Option UInt64) : Prop := ∀ value n m, number value = some n → cast value = some m → m.toNat = n

/-- The length a value of Content-Length announces: the number of its digits, however many. A value that is no number
announces the `int64_t` the code finds in it, and nothing if that is negative. -/
def announcedBy (cast : Text → Option UInt64) (value : Text) : Nat :=
  (number value).getD (int64 ((cast value).getD 0)).toNat

def announcedLength (cast : Text → Option UInt64) (headers : MapType) : Nat :=
  match headers.find (text "content-length") with
  | none => 0
  | some it => announcedBy cast it.2

/-- The length the head of a request announces, once the head is complete. -/
def announcedRequest (env : Surroundings) (as : List Arrival) : Option Nat :=
  match (recvHead env.bufferSize).run (.init env.uninitialised,[]) as with
  | .stopped (.complete,s,_) _ => some (announcedLength env.lexicalCast s.data.headers)
  | _ => none

/-- The length the head of a response that is not chunked announces. -/
def announcedResponse (env : Surroundings) (status : Int) (as : List Arrival) : Option Nat :=
  match (parseLoop (responseCalls false) env.bufferSize).run (.init status,[]) as with
  | .stopped (.complete,s,_) _ =>
    if s.parser.chunked then none else some (announcedLength env.lexicalCast s.data.headers)
  | _ => none

/-- No body is resized beyond `max`, and a longer announced body closes the connection. -/
def RespectsLimit {M : Type} (max : Nat) (announced : Option Nat) (r : Received M) : Prop :=
  (∀ n ∈ r.resized, n ≤ max) ∧ ∀ n, announced = some n → max < n → r.outcome = .closed

private theorem int64_pos {n : UInt64} (h : int64 n > 0) : (int64 n).toNat = n.toNat := by
  have hn := n.toNat_lt
  unfold int64 Int.bmod at h ⊢
  dsimp only at h ⊢
  split at h <;> omega

/-- A positive length is the announced one. -/
private theorem announcedLength_pos {cast : Text → Option UInt64} (hcast : CastsDigits cast) {headers : MapType}
    (h : int64 (getAs cast headers (text "content-length") 0) > 0) :
    announcedLength cast headers = (int64 (getAs cast headers (text "content-length") 0)).toNat := by
  unfold getAs announcedLength at *
  cases hfind : headers.find (text "content-length") with
  | none =>
    rw [hfind] at h
    exact absurd (show int64 0 > 0 from h) (by decide)
  | some it =>
    rw [hfind] at h
    dsimp only at h ⊢
    rw [announcedBy]
    cases hnumber : number it.2 with
    | none => rw [Option.getD_none]
    | some n =>
      cases hread : cast it.2 with
      | none =>
        rw [hread] at h
        exact absurd (show int64 0 > 0 from h) (by decide)
      | some m =>
        rw [hread] at h
        exact (hcast it.2 n m hnumber hread).symm.trans (int64_pos h).symm

/-- Both functions treat the length alike: a positive one as a number to resize to, any other as no body. -/
private theorem limit_iff {M : Type} {max announced : Nat} {length : Int} {sized unsized : Received M}
    (ha : length > 0 → announced = length.toNat) (hs : sized.resized = [length.toNat]) (hu : unsized.resized = [])
    (ho : unsized.outcome ≠ .closed) :
    RespectsLimit max (some announced) (if length > 0 then sized else unsized) ↔
      ∀ n, some announced = some n → n ≤ max := by
  constructor
  · rintro ⟨hresized,hclosed⟩ n hn
    obtain rfl : announced = n := Option.some.inj hn
    by_contra hlt
    have hout := hclosed _ rfl (Nat.lt_of_not_le hlt)
    split at hresized
    · rename_i hpos
      rw [hs, ← ha hpos] at hresized
      exact hlt (hresized _ (List.mem_singleton_self _))
    · rename_i hneg
      rw [if_neg hneg] at hout
      exact ho hout
  · intro h
    have hle := h _ rfl
    refine ⟨?_,fun n hn hlt => ?_⟩
    · split
      · rename_i hpos
        rw [hs, ← ha hpos]
        simpa using hle
      · simp [hu]
    · obtain rfl : announced = n := Option.some.inj hn
      omega

private theorem limit_none {M : Type} {max : Nat} {r : Received M} (h : r.resized = []) :
    RespectsLimit max none r ↔ ∀ n, (none : Option Nat) = some n → n ≤ max := by
  simp [RespectsLimit, h]

private theorem request_limit_iff {env : Surroundings} (hcast : CastsDigits env.lexicalCast) (max : Nat) (as : List Arrival) :
    RespectsLimit max (announcedRequest env as) (recvRequest env as) ↔
      ∀ n, announcedRequest env as = some n → n ≤ max := by
  unfold announcedRequest recvRequest
  cases (recvHead env.bufferSize).run (.init env.uninitialised,[]) as with
  | waiting s => exact limit_none rfl
  | stopped r rest =>
    obtain ⟨e,s,data⟩ := r
    cases e with
    | closed => exact limit_none rfl
    | thrown f => exact limit_none rfl
    | complete => exact limit_iff (announcedLength_pos hcast) rfl rfl (by simp)

private theorem response_limit_iff {env : Surroundings} (hcast : CastsDigits env.lexicalCast) (status : Int) (max : Nat)
    (as : List Arrival) :
    RespectsLimit max (announcedResponse env status as) (recvResponse env status as) ↔
      ∀ n, announcedResponse env status as = some n → n ≤ max := by
  unfold announcedResponse recvResponse
  cases (parseLoop (responseCalls false) env.bufferSize).run (.init status,[]) as with
  | waiting s => exact limit_none rfl
  | stopped r rest =>
    obtain ⟨e,s,data⟩ := r
    cases e with
    | closed => exact limit_none rfl
    | thrown f => exact limit_none rfl
    | complete =>
      dsimp only
      cases s.parser.chunked with
      | false =>
        simp only [Bool.false_eq_true, if_false]
        exact limit_iff (announcedLength_pos hcast) rfl rfl (by simp)
      | true =>
        simp only [if_true]
        refine limit_none ?_
        split <;> rfl

/-- Over every request and every response the limit is respected exactly when the announced length does
not exceed it, whatever the configured value is at that time. -/
theorem body_limit_iff {env : Surroundings} (hcast : CastsDigits env.lexicalCast) (status : Int) (max : Nat) (as : List Arrival) :
    (RespectsLimit max (announcedRequest env as) (recvRequest env as) ↔
      ∀ n, announcedRequest env as = some n → n ≤ max) ∧
    (RespectsLimit max (announcedResponse env status as) (recvResponse env status as) ↔
      ∀ n, announcedResponse env status as = some n → n ≤ max) :=
  ⟨request_limit_iff hcast max as,response_limit_iff hcast status max as⟩

private theorem readDecimal_casts : CastsDigits readDecimal := by
  intro value n m hnumber hread
  rw [readDecimal, Option.ite_none_right_eq_some] at hread
  obtain ⟨⟨hne,hall,hlt⟩,hm⟩ := hread
  have htrim : trim value = value := trim_digits (List.all_eq_true.mp hall)
  rw [number, htrim, if_pos ⟨hne,hall⟩] at hnumber
  rw [← Option.some.inj hm, ← Option.some.inj hnumber, UInt64.toNat_ofNat_of_lt' hlt]

private def session : Surroundings := ⟨4096,readDecimal,⟨0,false⟩⟩

/-- A request that announces 2^64 bytes is returned without a body. -/
theorem announced_beyond_uint64 :
    ¬RespectsLimit (64 * 1024 * 1024)
      (announcedRequest session [.bytes (text "POST / HTTP/1.1\r\nContent-Length: 18446744073709551616\r\n\r\n")])
      (recvRequest session [.bytes (text "POST / HTTP/1.1\r\nContent-Length: 18446744073709551616\r\n\r\n")]) := by
  rw [(body_limit_iff readDecimal_casts 0 _ _).1]
  intro h
  have hle := h (2^64) (by decide +kernel)
  omega

/-- A request that announces one byte more than the default of 64 MiB gets its buffer. -/
theorem limit_ignored :
    ∃ (env : Surroundings) (as : List Arrival),
      ¬RespectsLimit (64 * 1024 * 1024) (announcedRequest env as) (recvRequest env as) := by
  refine ⟨⟨4096,fun t => if t = text "67108865" then some 67108865 else none,⟨0,false⟩⟩,
    [.bytes (text "POST / HTTP/1.1\r\nContent-Length: 67108865\r\n\r\n")],fun h => ?_⟩
  have := h.1 67108865 (by decide +kernel)
  omega

end Radixun.Http
