import Radixun.Http.ResponseParser
import Radixun.Http.Session

/-! `HttpConnection::recvResponse` against what arrives on its connection. -/
namespace Radixun.Http
open Radixun.Foundation CString Common.Stream

def responseCalls (chunk : Bool) : ParserCalls HttpResponseParser :=
  ⟨fun s data => s.execute data chunk,(·.thrown),HttpResponseParser.hasError,HttpResponseParser.isFinished⟩

/-- Where the loop over the chunks stands at a read: in a chunk header, with `len` bytes in the buffer,
or behind the buffered part of a payload, with `left` bytes to come. -/
inductive ChunkPhase where
  | header (data : Text)
  | payload (left : Int)
  deriving DecidableEq, Repr

structure ChunkState where
  phase : ChunkPhase
  parser : HttpResponseParser
  body : Text

/-- `body.append(data, n)`; a negative `int` becomes a `size_t` beyond every string. -/
def append (body data : Text) (n : Int) : Except Fault Text :=
  if n < 0 then .error .lengthError else .ok (body ++ data.take n.toNat)

/-- The end of the outer loop: `while(!client_parser.chunks_done)`. -/
def nextChunk (s : HttpResponseParser) (data body : Text) : ChunkState ⊕ HeadEnd × HttpResponseParser × Text :=
  if s.parser.chunksDone then .inr (.complete,s,body) else .inl ⟨.header data,s,body⟩

/-- What follows a complete chunk header, up to the next read. -/
def takeChunk (s : HttpResponseParser) (data body : Text) : ChunkState ⊕ HeadEnd × HttpResponseParser × Text :=
  let len : Int := data.length - 2
  let contentLen := s.parser.contentLen
  if contentLen ≤ len then
    match append body data contentLen with
    | .error f => .inr (.thrown f,s,body)
    | .ok body => nextChunk s ((data.drop contentLen.toNat).take (len - contentLen).toNat) body
  else
    match append body data len with
    | .error f => .inr (.thrown f,s,body)
    | .ok body => .inl ⟨.payload (contentLen - len),s,body⟩

/-- The three loops over the chunks as one loop around its reads: all of them read before they do
anything else. -/
def recvChunks (buffSize : Nat) : ReadLoop ChunkState (HeadEnd × HttpResponseParser × Text) where
  asked s := match s.phase with
    | .header data => buffSize - data.length
    | .payload left => sizeT (if left > int buffSize then int buffSize else left)
  failed s := (.closed,s.parser,s.body)
  next s t := match s.phase with
    | .header data =>
      match (parseLoop (responseCalls true) buffSize).next (s.parser,data) t with
      | .inl r => .inl ⟨.header r.2,r.1,s.body⟩
      | .inr (.complete,r) => takeChunk r.1 r.2 s.body
      | .inr (e,r) => .inr (e,r.1,s.body)
    | .payload left =>
      let left := left - t.length
      if left > 0 then .inl ⟨.payload left,s.parser,s.body ++ t⟩
      else nextChunk s.parser [] (s.body ++ t)

def recvResponse (env : Surroundings) (status : Int) (as : List Arrival) : Received HttpResponse :=
  match (parseLoop (responseCalls false) env.bufferSize).run (.init status,[]) as with
  | .waiting _ => ⟨.waiting,[],[],[]⟩
  | .stopped (.closed,_,_) rest => ⟨.closed,rest,[],[]⟩
  | .stopped (.thrown f,_,_) rest => ⟨.thrown f,rest,[],[]⟩
  | .stopped (.complete,s,data) rest =>
    if s.parser.chunked then
      match (recvChunks env.bufferSize).run ⟨.header data,s,[]⟩ rest with
      | .waiting _ => ⟨.waiting,[],[],[]⟩
      | .stopped (.closed,_,_) rest => ⟨.closed,rest,[],[]⟩
      | .stopped (.thrown f,_,_) rest => ⟨.thrown f,rest,[],[]⟩
      | .stopped (.complete,s,body) rest => ⟨.returned { s.data with body := body },rest,[],[]⟩
    else
      let length := int64 (s.getContentLength env.lexicalCast)
      if length > 0 then
        let r := recvBody length data rest
        ⟨r.1.map fun body => { s.data with body := body },r.2,[length.toNat],[]⟩
      else ⟨.returned s.data,rest,[],[]⟩

end Radixun.Http
