import Radixun.Http.ChunkSteps
import Radixun.Http.RequestStream
import Radixun.Http.ResponseHead

/-! Chunked responses. The loop over the chunks reads before it looks at what it has, and takes the two
bytes of a line break off the front part of a payload that the buffer holds. -/
namespace Radixun.Http
open Radixun.Foundation CString Common.Stream

def crlf : Text := text "\r\n"

structure Chunk where
  size : Text
  payload : Text
  nonempty : payload ≠ []
  hex : HexSize size payload.length

def Chunk.line (c : Chunk) : Text := c.size ++ crlf
def Chunk.wire (c : Chunk) : Text := c.line ++ c.payload ++ crlf
def lastChunk : Text := text "0\r\n\r\n"

def encode (chunks : List Chunk) : Text := (chunks.map Chunk.wire).flatten ++ lastChunk
def payloads (chunks : List Chunk) : Text := (chunks.map Chunk.payload).flatten

/-- No read begins inside of a size line. -/
def LinesWhole : List Text → List Chunk → Prop
  | segs, [] => 3 ≤ (segs.headD []).length
  | segs, c :: cs => c.line.length ≤ (segs.headD []).length ∧ LinesWhole (dropBytes c.wire.length segs) cs

/-- The pieces as the loop over the chunks gets them when `x` is left in the buffer: a read comes first. -/
def joinRead (buffSize : Nat) (x : Text) : List Text → List Text
  | [] => []
  | s :: ss =>
    (x ++ s.take (buffSize - x.length)) ::
      if s.length ≤ buffSize - x.length then ss else s.drop (buffSize - x.length) :: ss

/-- A chunk with `b` bytes behind its size line in the buffer: the two bytes that are taken off are there;
the buffer ends with the chunk or inside of it; and the payload reads like itself from two bytes before
where it goes on in the stream. -/
structure Chunk.Fits (buffSize : Nat) (c : Chunk) (b : Nat) : Prop where
  low : 2 ≤ b
  high : b ≤ c.payload.length + 2
  space : isFull buffSize b = false
  same : (c.payload ++ crlf).drop b = c.payload.drop (b - 2)
  readable : b = c.payload.length + 2 ∨ 0 < int buffSize

def ChunksFit (buffSize : Nat) : List Text → List Chunk → Prop
  | segs, [] => 2 ≤ (segs.headD []).length - 3 ∧ isFull buffSize ((segs.headD []).length - 3) = false
  | segs, c :: cs => c.Fits buffSize ((segs.headD []).length - c.line.length) ∧
    ChunksFit buffSize (dropBytes c.wire.length segs) cs

/-- The loop over the chunks from behind its first read. -/
def CompletesFrom (buffSize : Nat) (σ : HttpResponseParser) (body : Text) : List Text → Text → Prop
  | [], _ => False
  | d :: ss, body' =>
    match (recvChunks buffSize).next ⟨.header [],σ,body⟩ d with
    | .inl s => Completes ((recvChunks buffSize).run s (ss.map .bytes)) body'
    | .inr r => Completes (.stopped r (ss.map .bytes)) body'

section
variable {buffSize : Nat} {σ : HttpResponseParser} {body body' d : Text} {later : Text} {segs ss : List Text} {c : Chunk} {cs : List Chunk}

theorem run_joined {x : Text} (hx : x.length < buffSize) (hreads : Reads buffSize segs) :
    Completes ((recvChunks buffSize).run ⟨.header x,σ,body⟩ (segs.map .bytes)) body' ↔
      CompletesFrom buffSize σ body (joinRead buffSize x segs) body' := by
  cases segs with
  | nil =>
    rw [List.map_nil, ReadLoop.run_waiting rfl]
    exact ⟨fun ⟨_,_,h⟩ => absurd h nofun,False.elim⟩
  | cons s ss =>
    obtain ⟨hs,hlen⟩ := hreads s (List.mem_cons_self ..)
    have hread : read ((recvChunks buffSize).asked ⟨.header x,σ,body⟩) (.bytes s :: ss.map .bytes) =
        .got (s.take (buffSize - x.length))
          ((if s.length ≤ buffSize - x.length then ss else s.drop (buffSize - x.length) :: ss).map .bytes) := by
      rw [show (recvChunks buffSize).asked ⟨.header x,σ,body⟩ = buffSize - x.length from rfl, read_piece (by omega)]
      split <;> rfl
    have ht : s.take (buffSize - x.length) ≠ [] := by
      have := List.length_pos_of_ne_nil hs
      exact List.ne_nil_of_length_pos (by rw [List.length_take]; omega)
    have hnext : (recvChunks buffSize).next ⟨.header x,σ,body⟩ (s.take (buffSize - x.length)) =
        (recvChunks buffSize).next ⟨.header [],σ,body⟩ (x ++ s.take (buffSize - x.length)) := rfl
    rw [joinRead, CompletesFrom, ← hnext, List.map_cons]
    cases hturn : (recvChunks buffSize).next ⟨.header x,σ,body⟩ (s.take (buffSize - x.length)) with
    | inl s' => rw [ReadLoop.run_go hread ht hturn]
    | inr r => rw [ReadLoop.run_stop hread ht hturn]

theorem joinRead_nil (h : Reads buffSize segs) : joinRead buffSize [] segs = segs := by
  cases segs with
  | nil => rfl
  | cons s ss =>
    have := (h s (List.mem_cons_self ..)).2
    rw [joinRead, List.length_nil, Nat.sub_zero, List.take_of_length_le (by omega), if_pos (by omega), List.nil_append]

private theorem split_line {line rest : Text} (h : d ++ ss.flatten = line ++ rest) (hl : line.length ≤ d.length) :
    ∃ y, d = line ++ y ∧ y ++ ss.flatten = rest := by
  have htake := congrArg (List.take line.length) h
  rw [List.take_left, List.take_append_of_le_length hl] at htake
  have hd : d = line ++ d.drop line.length := by
    conv_lhs => rw [← List.take_append_drop line.length d, htake]
  refine ⟨d.drop line.length,hd,?_⟩
  rw [hd, List.append_assoc] at h
  exact List.append_cancel_left h

private theorem last_size : HexSize [48] 0 := ⟨List.all_eq_true.mp rfl,by decide,rfl,by decide⟩

/-- A terminated body completes when the two bytes behind the last size are there. -/
private theorem last_iff (hσ : Sound σ) (hflat : d ++ ss.flatten = lastChunk) (hline : 3 ≤ d.length) :
    CompletesFrom buffSize σ body (d :: ss) body ↔ ChunksFit buffSize (d :: ss) [] := by
  obtain ⟨y,rfl,hy⟩ := split_line (hflat.trans (show lastChunk = [48,13,10] ++ crlf by decide)) hline
  obtain ⟨σ',_,hlen,hdone,hnext⟩ := next_size last_size hσ y
  have hfit : ChunksFit buffSize (([48,13,10] ++ y) :: ss) [] ↔ 2 ≤ y.length ∧ isFull buffSize y.length = false := by
    rw [ChunksFit, List.headD_cons, List.length_append, List.length_cons, List.length_cons, List.length_cons, List.length_nil,
      Nat.add_sub_cancel_left]
  have hturn : (recvChunks buffSize).next ⟨.header [],σ,body⟩ ([48,13,10] ++ y) = _ := hnext [] _ body rfl
  rw [hfit, CompletesFrom, hturn]
  cases hfull : isFull buffSize y.length with
  | true =>
    rw [if_pos rfl]
    exact ⟨fun h => absurd (completes_stopped.mp h).1 nofun,fun h => absurd h.2 nofun⟩
  | false =>
    rw [if_neg nofun]
    by_cases hlow : y.length < 2
    · rw [takeChunk_short hlen hlow]
      exact ⟨fun h => absurd (completes_stopped.mp h).1 nofun,fun h => by omega⟩
    · rw [takeChunk_whole hlen (by omega), nextChunk, hdone, List.take_zero, List.append_nil]
      exact ⟨fun _ => ⟨by omega,rfl⟩,fun _ => completes_stopped.mpr ⟨rfl,rfl⟩⟩

theorem wire_length (c : Chunk) : c.wire.length = c.line.length + (c.payload.length + 2) := by
  simp [Chunk.wire, crlf, text]

/-- What the payload loop puts behind the front part of a payload is right when it goes on like the payload. -/
private theorem payload_eq_iff {payload : Text} {b : Nat} (hlow : 2 ≤ b) (hb : b ≤ payload.length + 2) :
    payload.take (b - 2) ++ (payload ++ crlf).drop b = payload ↔ (payload ++ crlf).drop b = payload.drop (b - 2) := by
  constructor
  · intro h
    have := congrArg (List.drop (b - 2)) h
    rwa [List.drop_append, List.drop_eq_nil_of_le (by rw [List.length_take]; omega), List.nil_append, List.length_take,
      show b - 2 - min (b - 2) payload.length = 0 by omega, List.drop_zero] at this
  · intro h
    rw [h, List.take_append_drop]

/-- The turn that reads the size line of a chunk. -/
private theorem chunk_turn (hσ : Sound σ) (hflat : d ++ ss.flatten = c.wire ++ later) (hline : c.line.length ≤ d.length)
    (body body' : Text) : ∃ y σ', d.length = c.line.length + y.length ∧ y ++ ss.flatten = c.payload ++ crlf ++ later ∧ Sound σ' ∧
      σ'.parser.contentLen = c.payload.length ∧ σ'.parser.chunksDone = false ∧
      (CompletesFrom buffSize σ body (d :: ss) body' ↔ isFull buffSize y.length = false ∧
        match takeChunk σ' y body with
        | .inl s => Completes ((recvChunks buffSize).run s (ss.map .bytes)) body'
        | .inr r => Completes (.stopped r (ss.map .bytes)) body') := by
  rw [Chunk.wire, List.append_assoc, List.append_assoc, ← List.append_assoc c.payload] at hflat
  obtain ⟨y,rfl,hy⟩ := split_line hflat hline
  obtain ⟨σ',hσ',hlen,hdone,hnext⟩ := next_size c.hex hσ y
  have hturn : (recvChunks buffSize).next ⟨.header [],σ,body⟩ (c.line ++ y) = _ :=
    hnext [] _ body (by rw [Chunk.line, List.append_assoc]; rfl)
  refine ⟨y,σ',List.length_append ..,hy,hσ',hlen,?_,?_⟩
  · rw [hdone, decide_eq_false_iff_not, List.length_eq_zero_iff]
    exact c.nonempty
  · rw [CompletesFrom, hturn]
    cases hfull : isFull buffSize y.length with
    | true =>
      rw [if_pos rfl]
      exact ⟨fun h => absurd (completes_stopped.mp h).1 nofun,fun h => absurd h.1 nofun⟩
    | false =>
      rw [if_neg nofun]
      exact ⟨fun h => ⟨rfl,h⟩,And.right⟩

section
variable {y : Text}

/-- The two stretches of a payload that the buffer ends inside of. -/
private theorem payload_parts (hy : y ++ ss.flatten = c.payload ++ crlf ++ later) (hlow : 2 ≤ y.length)
    (hb : y.length ≤ c.payload.length + 2) :
    y.take (y.length - 2) = c.payload.take (y.length - 2) ∧
    ss.flatten.take (c.payload.length + 2 - y.length) = (c.payload ++ crlf).drop y.length ∧
    c.payload.length + 2 - y.length ≤ ss.flatten.length := by
  have hlen : (c.payload ++ crlf).length = c.payload.length + 2 := List.length_append ..
  have htail : ss.flatten = (c.payload ++ crlf).drop y.length ++ later := by
    have := congrArg (List.drop y.length) hy
    rwa [List.drop_left, List.drop_append_of_le_length (by omega)] at this
  have hleft : ((c.payload ++ crlf).drop y.length).length = c.payload.length + 2 - y.length := by rw [List.length_drop, hlen]
  refine ⟨?_,by rw [htail, ← hleft, List.take_left],by rw [htail, List.length_append]; omega⟩
  have := congrArg (List.take (y.length - 2)) hy
  rwa [List.take_append_of_le_length (by omega), List.append_assoc, List.take_append_of_le_length (by omega)] at this

/-- The turn comes to the next chunk when the buffer ends with the chunk, or inside of it and the rest can be read. -/
private theorem take_next {σ' : HttpResponseParser} (hlen : σ'.parser.contentLen = c.payload.length)
    (hdone : σ'.parser.chunksDone = false) (hy : y ++ ss.flatten = c.payload ++ crlf ++ later) (hlow : 2 ≤ y.length)
    (hb : y.length ≤ c.payload.length + 2) (hread : y.length = c.payload.length + 2 ∨ 0 < int buffSize) (hss : Pieces ss)
    (body body' : Text) :
    (match takeChunk σ' y body with
      | .inl s => Completes ((recvChunks buffSize).run s (ss.map .bytes)) body'
      | .inr r => Completes (.stopped r (ss.map .bytes)) body') ↔
      Completes ((recvChunks buffSize).run
        ⟨.header [],σ',body ++ (c.payload.take (y.length - 2) ++ (c.payload ++ crlf).drop y.length)⟩
        ((dropBytes (c.payload.length + 2 - y.length) ss).map .bytes)) body' := by
  obtain ⟨hfront,hrest,hall⟩ := payload_parts hy hlow hb
  by_cases hwhole : y.length = c.payload.length + 2
  · have hdata : (y.drop c.payload.length).take (y.length - 2 - c.payload.length) = [] := by
      rw [show y.length - 2 - c.payload.length = 0 by omega, List.take_zero]
    have hpayload : y.take c.payload.length = c.payload.take (y.length - 2) := by rw [← hfront, hwhole, Nat.add_sub_cancel]
    have hnone : (c.payload ++ crlf).drop y.length = [] := List.drop_eq_nil_of_le (by rw [List.length_append]; exact hwhole.ge)
    rw [takeChunk_whole hlen hwhole.ge, nextChunk, hdone, hdata, hpayload, hnone, List.append_nil, hwhole, Nat.sub_self,
      dropBytes_zero hss]
    exact Iff.rfl
  · have hB := hread.resolve_left hwhole
    rw [takeChunk_part hlen hlow (by omega), ← hrest, ← hfront, ← List.append_assoc]
    exact Iff.of_eq (congrArg (Completes · body') (run_payload hB hdone (by omega) hss hall))

end

private theorem chunk_fits (hσ : Sound σ) (hflat : d ++ ss.flatten = c.wire ++ later) (hline : c.line.length ≤ d.length)
    (hss : Pieces ss) (h : c.Fits buffSize (d.length - c.line.length)) (body body' : Text) :
    d.length ≤ c.wire.length ∧ ∃ σ', Sound σ' ∧ (CompletesFrom buffSize σ body (d :: ss) body' ↔
      Completes ((recvChunks buffSize).run ⟨.header [],σ',body ++ c.payload⟩ ((dropBytes c.wire.length (d :: ss)).map .bytes)) body') := by
  obtain ⟨y,σ',hd,hy,hσ',hlen,hdone,hturn⟩ := chunk_turn hσ hflat hline body body'
  have hwire := wire_length c
  rw [hd, Nat.add_sub_cancel_left] at h
  have hhigh := h.high
  have hpieces : dropBytes c.wire.length (d :: ss) = dropBytes (c.payload.length + 2 - y.length) ss := by
    rw [dropBytes, if_pos (by omega), show c.wire.length - d.length = c.payload.length + 2 - y.length by omega]
  refine ⟨by omega,σ',hσ',?_⟩
  rw [hturn, take_next hlen hdone hy h.low hhigh h.readable hss, (payload_eq_iff h.low hhigh).mpr h.same, hpieces]
  exact ⟨And.right,fun hc => ⟨h.space,hc⟩⟩

private theorem chunk_unfit (hB : 0 ≤ int buffSize) (hσ : Sound σ) (hflat : d ++ ss.flatten = c.wire ++ later)
    (hline : c.line.length ≤ d.length) (hss : Pieces ss) (hbody : body ++ c.payload <+: body')
    (h : CompletesFrom buffSize σ body (d :: ss) body') : c.Fits buffSize (d.length - c.line.length) := by
  obtain ⟨y,σ',hd,hy,hσ',hlen,hdone,hturn⟩ := chunk_turn hσ hflat hline body body'
  obtain ⟨hspace,hrun⟩ := hturn.mp h
  rw [hd, Nat.add_sub_cancel_left]
  have hlow : 2 ≤ y.length := by
    by_contra hlow
    rw [takeChunk_short hlen (by omega)] at hrun
    exact absurd (completes_stopped.mp hrun).1 nofun
  have hhigh : y.length ≤ c.payload.length + 2 := by
    by_contra hhigh
    -- the buffer goes on with the line break of the chunk
    obtain ⟨x,hx⟩ : ∃ x, (y.drop c.payload.length).take (y.length - 2 - c.payload.length) = 13 :: x := by
      have hdrop := congrArg (List.drop c.payload.length) hy
      rw [List.append_assoc, List.drop_left, List.drop_append_of_le_length (by omega)] at hdrop
      cases hcut : y.drop c.payload.length with
      | nil =>
        have := List.drop_eq_nil_iff.mp hcut
        omega
      | cons b x =>
        rw [hcut] at hdrop
        obtain rfl : b = 13 := (List.cons.inj hdrop).1
        obtain ⟨k,hk⟩ : ∃ k, y.length - 2 - c.payload.length = k + 1 := ⟨y.length - 2 - c.payload.length - 1,by omega⟩
        exact ⟨x.take k,by rw [hk, List.take_succ_cons]⟩
    rw [takeChunk_whole hlen (by omega), hx, nextChunk, hdone] at hrun
    exact run_break σ' x _ body' _ hrun
  have hreadable : y.length = c.payload.length + 2 ∨ 0 < int buffSize := by
    by_contra hnot
    obtain ⟨hpart,hzero⟩ := not_or.mp hnot
    obtain ⟨-,-,hall⟩ := payload_parts hy hlow hhigh
    rw [takeChunk_part hlen hlow (by omega)] at hrun
    exact run_payload_zero (by omega) (by omega) hss body' hrun
  refine ⟨hlow,hhigh,hspace,(payload_eq_iff hlow hhigh).mp ?_,hreadable⟩
  rw [take_next hlen hdone hy hlow hhigh hreadable hss] at hrun
  have hgrown := run_prefix hrun
  have hlength : (c.payload.take (y.length - 2) ++ (c.payload ++ crlf).drop y.length).length = c.payload.length := by
    have hcrlf : crlf.length = 2 := rfl
    rw [List.length_append, List.length_take, List.length_drop, List.length_append]
    omega
  refine List.append_cancel_left (List.IsPrefix.eq_of_length (List.prefix_of_prefix_length_le hgrown hbody ?_) ?_)
  · rw [List.length_append, hlength, List.length_append]
  · rw [List.length_append, hlength, List.length_append]

/-- `LinesWhole` as far as it is about a buffer that ends with the first chunk or inside of it. -/
private def LinesFrom (d : Text) (ss : List Text) : List Chunk → Prop
  | [] => 3 ≤ d.length
  | c :: cs => c.line.length ≤ d.length ∧ (d.length ≤ c.wire.length → LinesWhole (dropBytes c.wire.length (d :: ss)) cs)

private theorem linesWhole_first {chunks : List Chunk} (h : LinesWhole segs chunks) :
    ∃ d ss, segs = d :: ss ∧ d ≠ [] ∧ LinesFrom d ss chunks := by
  cases segs with
  | nil =>
    cases chunks with
    | nil => exact absurd h (by simp [LinesWhole])
    | cons c cs => exact absurd h.1 (by simp [Chunk.line, crlf, text])
  | cons d ss =>
    refine ⟨d,ss,rfl,?_,?_⟩
    · rintro rfl
      cases chunks with
      | nil => exact absurd h (by simp [LinesWhole])
      | cons c cs => exact absurd h.1 (by simp [Chunk.line, crlf, text])
    · cases chunks with
      | nil => exact h
      | cons c cs => exact ⟨h.1,fun _ => h.2⟩

/-- What is left behind a chunk that fits: the stream goes on with the other chunks, in whole reads. -/
private theorem behind_chunk {chunks : List Chunk} (hflat : d ++ ss.flatten = c.wire ++ encode chunks)
    (hss : Reads buffSize ss) (hd : d.length ≤ c.wire.length)
    (hlines : d.length ≤ c.wire.length → LinesWhole (dropBytes c.wire.length (d :: ss)) chunks) :
    ∃ d' ss', dropBytes c.wire.length (d :: ss) = d' :: ss' ∧ d' ++ ss'.flatten = encode chunks ∧ LinesFrom d' ss' chunks ∧
      Reads buffSize ss' ∧ ∀ {σ body body'}, (Completes ((recvChunks buffSize).run ⟨.header [],σ,body⟩
        ((dropBytes c.wire.length (d :: ss)).map .bytes)) body' ↔ CompletesFrom buffSize σ body (d' :: ss') body') := by
  obtain ⟨d',ss',heq,hne,hfrom⟩ := linesWhole_first (hlines hd)
  have hreads : Reads buffSize (d' :: ss') := by
    rw [← heq, dropBytes, if_pos hd]
    exact dropBytes_short _ hss
  have hpos : 0 < buffSize := by
    have := List.length_pos_of_ne_nil hne
    have := (hreads d' (List.mem_cons_self ..)).2
    omega
  refine ⟨d',ss',heq,?_,hfrom,fun s hs => hreads s (List.mem_cons_of_mem _ hs),?_⟩
  · rw [← List.flatten_cons, ← heq, dropBytes_flatten, List.flatten_cons, hflat, List.drop_left]
  · intro σ body body'
    rw [heq, run_joined hpos hreads, joinRead_nil hreads]

/-- The loop over the chunks, from a buffer that begins with one. -/
private theorem chunks_iff {chunks : List Chunk} (hσ : Sound σ) (hflat : d ++ ss.flatten = encode chunks)
    (hlines : LinesFrom d ss chunks) (hss : Reads buffSize ss) (body : Text) :
    (ChunksFit buffSize (d :: ss) chunks → CompletesFrom buffSize σ body (d :: ss) (body ++ payloads chunks)) ∧
    (0 ≤ int buffSize → CompletesFrom buffSize σ body (d :: ss) (body ++ payloads chunks) → ChunksFit buffSize (d :: ss) chunks) := by
  induction chunks generalizing d ss σ body with
  | nil =>
    rw [show body ++ payloads [] = body from List.append_nil body, last_iff hσ hflat hlines]
    exact ⟨id,fun _ => id⟩
  | cons c cs ih =>
    have hwire : d ++ ss.flatten = c.wire ++ encode cs := by
      rw [hflat, encode, List.map_cons, List.flatten_cons, List.append_assoc]
      rfl
    have hbody : body ++ payloads (c :: cs) = body ++ c.payload ++ payloads cs := by
      rw [payloads, List.map_cons, List.flatten_cons, List.append_assoc]
      rfl
    have hgo : c.Fits buffSize (d.length - c.line.length) →
        (ChunksFit buffSize (dropBytes c.wire.length (d :: ss)) cs →
          CompletesFrom buffSize σ body (d :: ss) (body ++ payloads (c :: cs))) ∧
        (0 ≤ int buffSize → CompletesFrom buffSize σ body (d :: ss) (body ++ payloads (c :: cs)) →
          ChunksFit buffSize (dropBytes c.wire.length (d :: ss)) cs) := by
      intro hfits
      obtain ⟨hd,σ',hσ',hiff⟩ := chunk_fits hσ hwire hlines.1 hss.pieces hfits body (body ++ payloads (c :: cs))
      obtain ⟨d',ss',heq,hflat',hlines',hss',hfrom⟩ := behind_chunk hwire hss hd hlines.2
      rw [hiff, hfrom, heq, hbody]
      exact ih hσ' hflat' hlines' hss' (body ++ c.payload)
    constructor
    · exact fun h => (hgo h.1).1 h.2
    · intro hB h
      have hfits := chunk_unfit hB hσ hwire hlines.1 hss.pieces (hbody ▸ List.prefix_append ..) h
      exact ⟨hfits,(hgo hfits).2 hB h⟩

/-- The first read behind a head takes some bytes off the stream, and the buffer has them behind the others. -/
private theorem joinRead_cons (h : Pieces segs) (hne : segs ≠ []) (x : Text) :
    ∃ t, joinRead buffSize x segs = (x ++ t) :: dropBytes t.length segs ∧ t ++ (dropBytes t.length segs).flatten = segs.flatten := by
  obtain ⟨s,ss,rfl⟩ := List.exists_cons_of_ne_nil hne
  obtain ⟨-,hss⟩ := List.forall_mem_cons.mp h
  refine ⟨s.take (buffSize - x.length),?_,?_⟩
  · rw [joinRead, dropBytes, List.length_take]
    by_cases hfit : s.length ≤ buffSize - x.length
    · rw [if_pos hfit, if_pos (by omega), Nat.min_eq_right hfit, Nat.sub_self, dropBytes_zero hss]
    · rw [if_neg hfit, if_neg (by omega), Nat.min_eq_left (by omega)]
  · rw [dropBytes_flatten, List.length_take, List.flatten_cons]
    conv_rhs => rw [← List.take_append_drop (min (buffSize - x.length) s.length) (s ++ ss.flatten)]
    rw [List.take_append_of_le_length (Nat.min_le_right ..), ← List.take_eq_take_min]

private theorem dropBytes_head (head x : Text) (h : Pieces segs) :
    dropBytes head.length ((head ++ x) :: segs) = if x = [] then segs else x :: segs := by
  rw [dropBytes, List.length_append, List.drop_left]
  by_cases hx : x = []
  · rw [if_pos hx, if_pos (by simp [hx]), hx, List.length_nil, Nat.add_zero, Nat.sub_self, dropBytes_zero h]
  · have := List.length_pos_of_ne_nil hx
    rw [if_neg hx, if_neg (by omega)]

/-- A line that lies within what is left of the head's read, or within the next read, lies within the buffer. -/
private theorem joinRead_lines {x t : Text} {chunks : List Chunk} (hreads : Reads buffSize segs)
    (h : LinesWhole (if x = [] then segs else x :: segs) chunks)
    (heq : joinRead buffSize x segs = (x ++ t) :: dropBytes t.length segs) : LinesFrom (x ++ t) (dropBytes t.length segs) chunks := by
  by_cases hx : x = []
  · subst hx
    rw [if_pos rfl] at h
    rw [joinRead_nil hreads] at heq
    obtain ⟨d,ss,rfl,-,hfrom⟩ := linesWhole_first h
    obtain ⟨hd,hss⟩ := List.cons.inj heq
    rwa [← hd, ← hss]
  · rw [if_neg hx] at h
    cases chunks with
    | nil =>
      have h3 : 3 ≤ x.length := h
      exact h3.trans (by rw [List.length_append]; omega)
    | cons c cs =>
      obtain ⟨hline,hrest⟩ := h
      rw [List.headD_cons] at hline
      refine ⟨hline.trans (by rw [List.length_append]; omega),fun hd => ?_⟩
      rw [List.length_append] at hd
      rw [dropBytes, if_pos (by omega)] at hrest
      rw [dropBytes, List.length_append, if_pos hd, dropBytes_dropBytes,
        show t.length + (c.wire.length - (x.length + t.length)) = c.wire.length - x.length by omega]
      exact hrest

end

/-- A call that returns a response with this body. Where a negative length is appended it throws, and where
it reads once more behind the last byte of the stream it waits. -/
def Decodes (r : Received HttpResponse) (body : Text) : Prop := ∃ R, r.outcome = .returned R ∧ R.body = body

/-- The chunks fit the reads behind the head, the next of which goes behind what the read of the head left. -/
def ResponseFits (buffSize : Nat) (head : Text) (segs : List Text) (chunks : List Chunk) : Prop :=
  isFull buffSize ((segs.headD []).length - head.length) = false ∧
  ChunksFit buffSize (joinRead buffSize ((segs.headD []).drop head.length) segs.tail) chunks

section
variable {env : Surroundings} {status : Int} {head x : Text}

/-- The call decodes a body exactly when the loop over the chunks completes with it. -/
private theorem decodes_iff (hhead : ChunkedHead status head) (hlen : (head ++ x).length ≤ min env.bufferSize recvMax) (segs : List Text)
    (body : Text) :
    ∃ σ, Sound σ ∧ (Decodes (recvResponse env status (((head ++ x) :: segs).map .bytes)) body ↔
      isFull env.bufferSize x.length = false ∧
      Completes ((recvChunks env.bufferSize).run ⟨.header x,σ,[]⟩ (segs.map .bytes)) body) := by
  have hpos := (ActionMachine.broke_bounds hhead.ends).1
  have hne : head ++ x ≠ [] := List.ne_nil_of_length_pos (by rw [List.length_append]; omega)
  have hsmall : head.length ≤ recvMax := by
    rw [List.length_append] at hlen
    omega
  obtain ⟨σ,hrun,hthrown,herror,hchunked,hcs⟩ := execute_head hhead hsmall x
  have hσ : Sound σ := ⟨hthrown,herror⟩
  refine ⟨σ,hσ,?_⟩
  have hread : read ((parseLoop (responseCalls false) env.bufferSize).asked (.init status,[])) (((head ++ x) :: segs).map .bytes) =
      .got (head ++ x) (segs.map .bytes) := read_whole hlen
  have hturn : (parseLoop (responseCalls false) env.bufferSize).next (.init status,[]) (head ++ x) = _ :=
    parseLoop_accepts hrun hσ hcs
  cases hfull : isFull env.bufferSize x.length with
  | true =>
    rw [hfull, if_pos rfl] at hturn
    unfold recvResponse
    rw [ReadLoop.run_stop hread hne hturn]
    exact ⟨fun ⟨_,h,_⟩ => absurd h nofun,fun h => absurd h.1 nofun⟩
  | false =>
    rw [hfull, if_neg nofun] at hturn
    unfold recvResponse
    rw [ReadLoop.run_stop hread hne hturn]
    dsimp only
    rw [hchunked, if_pos rfl]
    cases hrun : (recvChunks env.bufferSize).run ⟨.header x,σ,[]⟩ (segs.map .bytes) with
    | waiting s => exact ⟨fun ⟨_,h,_⟩ => absurd h nofun,fun ⟨_,_,_,h⟩ => absurd h nofun⟩
    | stopped r rest =>
      obtain ⟨e,τ,body'⟩ := r
      rw [completes_stopped]
      cases e with
      | closed => exact ⟨fun ⟨_,h,_⟩ => absurd h nofun,fun h => absurd h.2.1 nofun⟩
      | thrown f => exact ⟨fun ⟨_,h,_⟩ => absurd h nofun,fun h => absurd h.2.1 nofun⟩
      | complete =>
        refine ⟨fun ⟨R,h,hR⟩ => ⟨rfl,rfl,?_⟩,fun h => ⟨_,rfl,h.2.2⟩⟩
        obtain rfl := Outcome.returned.inj h
        exact hR

end

/-- Over every list of chunks and every segmentation that splits neither the head nor a size line: chunks
that fit are decoded, and only chunks that fit are, as long as the size of the buffer is no negative `int`. -/
theorem chunked_iff {env : Surroundings} {status : Int} {head : Text} {segs : List Text} {chunks : List Chunk}
    (hhead : ChunkedHead status head) (hreads : Reads env.bufferSize segs) (hstream : segs.flatten = head ++ encode chunks)
    (hfirst : head.length ≤ (segs.headD []).length) (hlines : LinesWhole (dropBytes head.length segs) chunks) :
    (ResponseFits env.bufferSize head segs chunks →
      Decodes (recvResponse env status (segs.map .bytes)) (payloads chunks)) ∧
    (0 ≤ int env.bufferSize → Decodes (recvResponse env status (segs.map .bytes)) (payloads chunks) →
      ResponseFits env.bufferSize head segs chunks) := by
  have hpos := (ActionMachine.broke_bounds hhead.ends).1
  obtain ⟨s,ss,rfl⟩ : ∃ s ss, segs = s :: ss := by
    cases segs with
    | nil =>
      rw [List.headD_nil, List.length_nil] at hfirst
      omega
    | cons s ss => exact ⟨s,ss,rfl⟩
  have hlen := (hreads s (List.mem_cons_self ..)).2
  have hss : Reads env.bufferSize ss := fun t ht => hreads t (List.mem_cons_of_mem _ ht)
  obtain ⟨x,rfl,hflat⟩ := split_line hstream hfirst
  obtain ⟨σ,hσ,hdecodes⟩ := decodes_iff hhead hlen ss (payloads chunks)
  have hx : x.length < env.bufferSize := by
    rw [List.length_append] at hlen
    omega
  rw [dropBytes_head head x hss.pieces] at hlines
  have hfits : ResponseFits env.bufferSize head ((head ++ x) :: ss) chunks ↔
      isFull env.bufferSize x.length = false ∧ ChunksFit env.bufferSize (joinRead env.bufferSize x ss) chunks := by
    rw [ResponseFits, List.headD_cons, List.length_append, Nat.add_sub_cancel_left, List.drop_left, List.tail_cons]
  rw [hfits, hdecodes, run_joined hx hss]
  by_cases hne : ss = []
  · subst hne
    have hnot : ¬ChunksFit env.bufferSize (joinRead env.bufferSize x []) chunks := by
      cases chunks with
      | nil => exact fun h => absurd h.1 (by simp [joinRead])
      | cons c cs => exact fun h => absurd h.1.low (by simp [joinRead])
    exact ⟨fun h => absurd h.2 hnot,fun _ h => h.2.elim⟩
  · obtain ⟨t,heq,ht⟩ := joinRead_cons hss.pieces hne x
    rw [heq]
    obtain ⟨hfit,hunfit⟩ := chunks_iff hσ (by rw [List.append_assoc, ht, hflat]) (joinRead_lines hss hlines heq)
      (dropBytes_short _ hss) []
    exact ⟨fun h => ⟨h.1,hfit h.2⟩,fun hB h => ⟨h.1,hunfit hB h.2⟩⟩

private def chunkedEnv : Surroundings := ⟨4096,fun _ => none,⟨0,false⟩⟩
private def chunkedHead : Text := text "HTTP/1.1 200 OK\r\nTransfer-Encoding: chunked\r\n\r\n"
private def abc : Chunk := ⟨text "3",text "abc",by decide,⟨List.all_eq_true.mp rfl,by decide,by decide,by decide⟩⟩

private theorem chunkedHead_chunked : ChunkedHead 0 chunkedHead :=
  ⟨by decide +kernel,by decide +kernel,by decide +kernel,by decide +kernel⟩

/-- A chunk and the last chunk in one read: the call reads on after both. A size line alone in a read: the
call appends -2 bytes. -/
theorem chunks_misread :
    ChunkedHead 0 chunkedHead ∧ [chunkedHead,text "3\r\nabc\r\n0\r\n\r\n"].flatten = chunkedHead ++ encode [abc] ∧
    LinesWhole [text "3\r\nabc\r\n0\r\n\r\n"] [abc] ∧
    (recvResponse chunkedEnv 0 ([chunkedHead,text "3\r\nabc\r\n0\r\n\r\n"].map .bytes)).outcome = .waiting ∧
    (recvResponse chunkedEnv 0 ([chunkedHead,text "3\r\n",text "abc\r\n",text "0\r\n\r\n"].map .bytes)).outcome =
      .thrown .lengthError ∧
    ¬Decodes (recvResponse chunkedEnv 0 ([chunkedHead,text "3\r\nabc\r\n0\r\n\r\n"].map .bytes)) (payloads [abc]) := by
  have hwaiting : (recvResponse chunkedEnv 0 ([chunkedHead,text "3\r\nabc\r\n0\r\n\r\n"].map .bytes)).outcome = .waiting := by
    decide +kernel
  refine ⟨chunkedHead_chunked,by decide,⟨by decide,by unfold LinesWhole; decide⟩,hwaiting,by decide +kernel,fun ⟨R,h,_⟩ => ?_⟩
  exact absurd (hwaiting.symm.trans h) nofun

theorem chunked_read_by_read :
    (ResponseFits chunkedEnv.bufferSize chunkedHead [chunkedHead,text "3\r\nabc\r\n",text "0\r\n\r\n"] [abc] →
      Decodes (recvResponse chunkedEnv 0 ([chunkedHead,text "3\r\nabc\r\n",text "0\r\n\r\n"].map .bytes)) (payloads [abc])) ∧
    (0 ≤ int chunkedEnv.bufferSize → Decodes (recvResponse chunkedEnv 0 ([chunkedHead,text "3\r\nabc\r\n",text "0\r\n\r\n"].map .bytes))
      (payloads [abc]) → ResponseFits chunkedEnv.bufferSize chunkedHead [chunkedHead,text "3\r\nabc\r\n",text "0\r\n\r\n"] [abc]) :=
  chunked_iff chunkedHead_chunked (by unfold Reads; decide) (by decide) (by decide)
    ⟨by decide,by unfold LinesWhole; decide⟩

end Radixun.Http
