import Radixun.Foundation.TextFrame
import Radixun.Http.RequestParser
import Radixun.Http.SocketReads

/-! `HttpSession::recvRequest` against what arrives on its connection. -/
namespace Radixun.Http
open Radixun.Foundation CString TextFrame Common.Stream

/-- How a call ends: with a message, with `nullptr` after closing the connection, by an exception, or
not yet, because it waits for more to arrive. -/
inductive Outcome (M : Type) where
  | returned (m : M)
  | closed
  | thrown (f : Fault)
  | waiting
  deriving DecidableEq

def Outcome.map {M N : Type} (f : M → N) : Outcome M → Outcome N
  | .returned m => .returned (f m)
  | .closed => .closed
  | .thrown e => .thrown e
  | .waiting => .waiting

/-- A call with the arrivals it leaves, the sizes it resized a body to, and the pairs its parser handed out. -/
structure Received (M : Type) where
  outcome : Outcome M
  rest : List Arrival
  resized : List Nat
  reports : List Report
  deriving DecidableEq

/-- What the code takes from elsewhere: the configured buffer size, `boost::lexical_cast<uint64_t>`, and
what it finds in the memory of a new parser. -/
structure Surroundings where
  bufferSize : Nat
  lexicalCast : Text → Option UInt64
  uninitialised : Uninitialised

/-- A cast that takes decimal numbers as far as they fit. -/
def readDecimal (t : Text) : Option UInt64 :=
  if t ≠ [] ∧ t.all isDigit = true ∧ digits 10 t 0 < 2^64 then some (UInt64.ofNat (digits 10 t 0)) else none

/-- Conversion to `int64_t`. -/
def int64 (n : UInt64) : Int := (n.toNat : Int).bmod (2^64)

/-- `offset == (int)buff_size`. -/
def isFull (buffSize offset : Nat) : Bool := (offset : Int) = int buffSize

/-- How the loop over the head ends. -/
inductive HeadEnd where
  | complete
  | closed
  | thrown (f : Fault)
  deriving DecidableEq, Repr

/-- What the loops of this module and of `HttpConnection` ask of a parser. -/
structure ParserCalls (P : Type) where
  execute : P → Text → P × Text
  thrown : P → Option Fault
  hasError : P → Bool
  isFinished : P → Int

/-- The loop that reads and parses until the parser has finished; its state is the parser with the first
bytes of the buffer, `offset` or `len` many. -/
def parseLoop {P : Type} (calls : ParserCalls P) (buffSize : Nat) : ReadLoop (P × Text) (HeadEnd × P × Text) where
  asked s := buffSize - s.2.length
  failed s := (.closed,s)
  next s t :=
    let r := calls.execute s.1 (s.2 ++ t)
    match calls.thrown r.1 with
    | some f => .inr (.thrown f,r)
    | none =>
      if calls.hasError r.1 || isFull buffSize r.2.length then .inr (.closed,r)
      else if calls.isFinished r.1 ≠ 0 then .inr (.complete,r)
      else .inl r

def recvHead (buffSize : Nat) : ReadLoop (HttpRequestParser × Text) (HeadEnd × HttpRequestParser × Text) :=
  parseLoop ⟨HttpRequestParser.execute,(·.thrown),HttpRequestParser.hasError,HttpRequestParser.isFinished⟩ buffSize

/-- The part behind the head, the same in `recvRequest` and `recvResponse`: a body of `length` bytes from
what is in the buffer and from the connection. -/
def recvBody (length : Int) (data : Text) (as : List Arrival) : Outcome Text × List Arrival :=
  if maxSize < length.toNat then (.thrown .lengthError,as)
  else
    let body := data.take length.toNat
    let left := length - data.length
    if left > 0 then
      let r := readFixSize body.length left.toNat 0 left.toNat body as
      if r.overrun then (.thrown .overrun,r.rest)
      else match r.returned with
      | none => (.waiting,r.rest)
      | some rt => if rt ≤ 0 then (.closed,r.rest) else (.returned r.body,r.rest)
    else (.returned body,as)

theorem int_small {n : Nat} (h : n < 2^31) : int n = n := int_eq_iff.mpr h

theorem int64_nat {n : UInt64} (h : n.toNat < 2^63) : int64 n = n.toNat := by
  unfold int64 Int.bmod
  dsimp only
  split <;> omega

theorem recvBody_long {n : Nat} (h : maxSize < n) (data : Text) (as : List Arrival) :
    recvBody n data as = (.thrown .lengthError,as) := by
  unfold recvBody
  rw [Int.toNat_natCast, if_pos h]

/-- A body is what follows in the stream, if there is enough of it and `readFixSize` can return its length. -/
theorem recvBody_pieces {n : Nat} (hn : n ≤ maxSize) (data : Text) {segs : List Text} (h : Pieces segs) :
    recvBody n data (segs.map .bytes) =
      if n ≤ data.length then (.returned (data.take n),segs.map .bytes)
      else if n ≤ data.length + segs.flatten.length then
        (if 0 < int (n - data.length) then .returned ((data ++ segs.flatten).take n) else .closed,
          (dropBytes (n - data.length) segs).map .bytes)
      else (.waiting,[]) := by
  unfold maxSize at hn
  simp only [recvBody, Int.toNat_natCast]
  rw [if_neg (by unfold maxSize; omega)]
  by_cases hfit : n ≤ data.length
  · rw [if_neg (by omega), if_pos hfit]
  · have htake : data.take n = data := List.take_of_length_le (by omega)
    have hleft : ((n : Int) - data.length).toNat = n - data.length := by omega
    have hr : readFixSize data.length (n - data.length) 0 (n - data.length) data (segs.map .bytes) = _ :=
      readFixSize_pieces h (by omega) (by omega) (by omega)
    rw [if_pos (by omega), if_neg hfit, htake, hleft, hr]
    by_cases hall : n ≤ data.length + segs.flatten.length
    · have hcat : (data ++ segs.flatten).take n = data ++ segs.flatten.take (n - data.length) := by
        rw [List.take_append, htake]
      rw [if_pos (show n - data.length ≤ segs.flatten.length by omega), if_pos hall, hcat]
      by_cases hint : 0 < int (n - data.length)
      · simp [hint, Int.not_le.mpr hint]
      · simp [hint, Int.not_lt.mp hint]
    · rw [if_neg (show ¬ n - data.length ≤ segs.flatten.length by omega), if_neg hall]
      simp

def recvRequest (env : Surroundings) (as : List Arrival) : Received HttpRequest :=
  match (recvHead env.bufferSize).run (.init env.uninitialised,[]) as with
  | .waiting s => ⟨.waiting,[],[],s.1.reports⟩
  | .stopped (.closed,s,_) rest => ⟨.closed,rest,[],s.reports⟩
  | .stopped (.thrown f,s,_) rest => ⟨.thrown f,rest,[],s.reports⟩
  | .stopped (.complete,s,data) rest =>
    let length := int64 (s.getContentLength env.lexicalCast)
    if length > 0 then
      let r := recvBody length data rest
      ⟨r.1.map fun body => { s.data with body := body },r.2,[length.toNat],s.reports⟩
    else ⟨.returned s.data,rest,[],s.reports⟩

end Radixun.Http
