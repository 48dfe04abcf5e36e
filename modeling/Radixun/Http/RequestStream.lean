import Radixun.Http.RequestHead

/-! `recvRequest` against a stream that arrives in pieces: what it returns, in terms of the elements of
the stream and of where the pieces begin. -/
namespace Radixun.Http
open Radixun.Foundation CString Common.Stream RequestMachine

/-- The start of the piece that brings the byte at `p`. -/
def begins : List Text → Nat → Nat
  | [], _ => 0
  | s :: ss, p => if p < s.length then 0 else s.length + begins ss (p - s.length)

theorem begins_le (segs : List Text) (p : Nat) : begins segs p ≤ p := by
  induction segs generalizing p with
  | nil => exact Nat.zero_le p
  | cons s ss ih =>
    rw [begins]
    split
    · exact Nat.zero_le p
    · have := ih (p - s.length)
      omega

/-- The bytes between the start of a piece and one of its bytes come in the same piece. -/
theorem begins_same {segs : List Text} {p q : Nat} (hp : begins segs q ≤ p) (hpq : p ≤ q) :
    begins segs p = begins segs q := by
  induction segs generalizing p q with
  | nil => rfl
  | cons s ss ih =>
    simp only [begins] at hp ⊢
    by_cases hq : q < s.length
    · rw [if_pos hq, if_pos (by omega)]
    · rw [if_neg hq] at hp ⊢
      rw [if_neg (by omega), ih (p := p - s.length) (q := q - s.length) (by omega) (by omega)]

/-- The pieces a stream arrives in when each fits one read. -/
def Reads (buffSize : Nat) (segs : List Text) : Prop := ∀ s ∈ segs, s ≠ [] ∧ s.length ≤ min buffSize recvMax

theorem Reads.pieces {buffSize : Nat} {segs : List Text} (h : Reads buffSize segs) : Pieces segs :=
  fun s hs => ⟨(h s hs).1,by have := (h s hs).2; omega⟩

private theorem buffers_begins {stream : Text} {base : Nat → Nat} {b buffSize : Nat} {segs : List Text}
    (hbase : ∀ p, base (p + b) = begins segs p + b) (hstream : stream.drop b = segs.flatten) (h : Reads buffSize segs) :
    Buffers stream base buffSize b segs := by
  induction segs generalizing b with
  | nil => trivial
  | cons s ss ih =>
    obtain ⟨hs,hss⟩ := List.forall_mem_cons.mp h
    refine ⟨hs.1,hs.2,⟨ss.flatten,hstream⟩,fun q hq => ?_,ih (fun p => ?_) ?_ hss⟩
    · rw [hbase, begins, if_pos hq, Nat.zero_add]
    · have := hbase (p + s.length)
      rw [begins, if_neg (by omega), Nat.add_sub_cancel] at this
      rw [show p + (b + s.length) = p + s.length + b by omega, this]
      omega
    · rw [← List.drop_drop, hstream, List.flatten_cons, List.drop_left]

/-- The machine of a new parser over a stream. -/
def headWalk (u : Uninitialised) (stream : Text) : Walk Action := (requestMachine u.uriRelaxed).walk 1 0 stream

def headElements (u : Uninitialised) (stream : Text) : List Element := elements .init (headWalk u stream).events

/-- What the parser has come to behind the head of a stream that arrives in pieces. -/
def headParsed (u : Uninitialised) (segs : List Text) : Parsed :=
  (headElements u segs.flatten).foldl (deliver segs.flatten (begins segs)) ⟨.init,0,none⟩

theorem headElements_within (u : Uninitialised) (stream : Text) : ∀ el ∈ headElements u stream, el.within stream.length := by
  refine elements_within (p := 0) (by simp [Tracker.init]) (ActionMachine.events_sorted ..) ?_
  rintro ⟨q,a⟩ he
  have := ActionMachine.event_lt he
  exact ⟨Nat.zero_le _,by simpa using this⟩

/-- The length of the body that the headers of a request announce. -/
def bodyLength (env : Surroundings) (r : HttpRequest) : Nat :=
  (int64 (getAs env.lexicalCast r.headers (text "content-length") 0)).toNat

/-- A head of `n` bytes completes in a stream that arrives in pieces. -/
structure HeadComplete (env : Surroundings) (segs : List Text) (n : Nat) : Prop where
  ends : ∃ cs, (headWalk env.uninitialised segs.flatten).stop = .broke cs n
  unthrown : (headParsed env.uninitialised segs).thrown = none
  fine : (headParsed env.uninitialised segs).error = 0
  room : Room env.bufferSize segs n

section
variable {env : Surroundings} {segs : List Text}

private theorem standing_init (stream : Text) (base : Nat → Nat) (u : Uninitialised) :
    Standing stream base 0 .init (.init u) :=
  ⟨rfl,rfl,0,rfl,rfl,rfl,nofun,nofun,nofun,by simp [Tracker.init],nofun⟩

/-- What the parser has come to behind a stream that one buffer holds. -/
theorem acted_head (u : Uninitialised) {s : Text} (hlen : s.length ≤ recvMax) : (acted (.init u) s).parsed = headParsed u [s] := by
  rw [headParsed, headElements, List.flatten_singleton]
  exact (acted_tracks (standing_init s (begins [s]) u) hlen ⟨[],(List.append_nil _).symm⟩
    fun p hp => by rw [Nat.add_zero, begins, if_pos hp]).1

/-- The loop over the head completes with what the elements deliver, or the head does not complete. -/
private theorem head_run (h : Reads env.bufferSize segs) :
    (∀ n, HeadComplete env segs n → ∃ σ, (recvHead env.bufferSize).run (.init env.uninitialised,[]) (segs.map .bytes) =
        .stopped (.complete,σ,(behind segs n).1) ((behind segs n).2.map .bytes) ∧
      σ.parsed = headParsed env.uninitialised segs ∧ ∀ r ∈ σ.reports, r.Inside) ∧
    ∀ σ data rest, (recvHead env.bufferSize).run (.init env.uninitialised,[]) (segs.map .bytes) =
        .stopped (.complete,σ,data) rest → ∃ n, HeadComplete env segs n := by
  obtain ⟨h1,h2⟩ := recvHead_run (σ := .init env.uninitialised) ⟨Nat.one_ne_zero,by show 1 < 348; omega⟩
    (standing_init segs.flatten (begins segs) env.uninitialised) (buffers_begins (b := 0) (fun _ => rfl) rfl h)
  refine ⟨fun n hn => ?_,fun σ data rest hrun => ?_⟩
  · obtain ⟨cs,hcs⟩ := hn.ends
    exact h1 cs n hcs hn.unthrown hn.fine hn.room
  · obtain ⟨cs,n,hcs,ht,he,hr⟩ := h2 σ data rest hrun
    exact ⟨n,⟨cs,hcs⟩,ht,he,hr⟩

/-- A message needs a complete head. -/
theorem recvRequest_head (h : Reads env.bufferSize segs) {R : HttpRequest}
    (hr : (recvRequest env (segs.map .bytes)).outcome = .returned R) : ∃ n, HeadComplete env segs n := by
  unfold recvRequest at hr
  cases hrun : (recvHead env.bufferSize).run (.init env.uninitialised,[]) (segs.map .bytes) with
  | waiting s =>
    rw [hrun] at hr
    exact absurd hr nofun
  | stopped r rest =>
    obtain ⟨e,σ,data⟩ := r
    cases e with
    | complete => exact (head_run h).2 σ data rest hrun
    | closed =>
      rw [hrun] at hr
      exact absurd hr nofun
    | thrown f =>
      rw [hrun] at hr
      exact absurd hr nofun

private theorem deliver_body {stream : Text} {base : Nat → Nat} (r : Parsed) (el : Element) :
    (deliver stream base r el).data.body = r.data.body := by
  rw [deliver]
  split
  · rfl
  · cases el with
    | path | fragment => rfl
    | _ => simp only [Parsed.take]; split <;> rfl

theorem headParsed_body (u : Uninitialised) (segs : List Text) : (headParsed u segs).data.body = [] := by
  have hall : ∀ (els : List Element) (r : Parsed),
      (els.foldl (deliver segs.flatten (begins segs)) r).data.body = r.data.body := by
    intro els
    induction els with
    | nil => exact fun _ => rfl
    | cons el els ih => exact fun r => (ih _).trans (deliver_body r el)
  exact hall ..

/-- What a call makes of a complete head, with the pieces it leaves. -/
theorem recvRequest_complete (h : Reads env.bufferSize segs) {n : Nat} (hn : HeadComplete env segs n) :
    let r := recvRequest env (segs.map .bytes)
    let R := (headParsed env.uninitialised segs).data
    let len := bodyLength env R
    let left := len - (behind segs n).1.length
    (∀ x ∈ r.reports, x.Inside) ∧
    (r.outcome,r.rest) =
      if maxSize < len then (.thrown .lengthError,(behind segs n).2.map .bytes)
      else if segs.flatten.length - n < len then (.waiting,[])
      else (if left = 0 ∨ 0 < int left then .returned { R with body := (segs.flatten.drop n).take len } else .closed,
        (dropBytes left (behind segs n).2).map .bytes) := by
  obtain ⟨σ,hrun,hparsed,hinside⟩ := (head_run h).1 n hn
  have hdata : σ.data = (headParsed env.uninitialised segs).data := congrArg Parsed.data hparsed
  have hbody := headParsed_body env.uninitialised segs
  have hpieces : Pieces (behind segs n).2 := fun s hs => h.pieces s (behind_mem hs)
  have hflat := behind_flatten segs n
  have hlength : (behind segs n).1.length + (behind segs n).2.flatten.length = segs.flatten.length - n := by
    rw [← List.length_append, hflat, List.length_drop]
  unfold recvRequest
  rw [hrun]
  dsimp only
  rw [HttpRequestParser.getContentLength, hdata]
  generalize (headParsed env.uninitialised segs).data = R at hbody
  have hnat : bodyLength env R = (int64 (getAs env.lexicalCast R.headers (text "content-length") 0)).toNat := rfl
  generalize bodyLength env R = len at hnat
  generalize int64 (getAs env.lexicalCast R.headers (text "content-length") 0) = length at hnat
  by_cases hpos : length > 0
  · obtain rfl : length = len := by omega
    rw [if_pos hpos]
    by_cases hmax : maxSize < len
    · rw [if_pos hmax, recvBody_long hmax]
      exact ⟨hinside,rfl⟩
    · rw [if_neg hmax, recvBody_pieces (by omega) _ hpieces, hflat]
      refine ⟨hinside,?_⟩
      by_cases hfit : len ≤ (behind segs n).1.length
      · have hleft : len - (behind segs n).1.length = 0 := by omega
        have htake : (segs.flatten.drop n).take len = (behind segs n).1.take len := by
          rw [← hflat, List.take_append_of_le_length hfit]
        rw [if_pos hfit, if_neg (by omega), hleft, if_pos (.inl rfl), htake, dropBytes_zero hpieces]
        rfl
      · rw [if_neg hfit, hlength]
        by_cases hall : segs.flatten.length - n < len
        · rw [if_neg (Nat.not_le.mpr hall), if_pos hall]
          rfl
        · have hleft : len - (behind segs n).1.length ≠ 0 := by omega
          rw [if_pos (Nat.not_lt.mp hall), if_neg hall]
          by_cases hint : 0 < int (len - (behind segs n).1.length)
          · rw [if_pos hint, if_pos (.inr hint)]
            rfl
          · rw [if_neg hint, if_neg (not_or.mpr ⟨hleft,hint⟩)]
            rfl
  · obtain rfl : len = 0 := by omega
    rw [if_neg hpos]
    have hR : { R with body := [] } = R := by rw [← hbody]
    rw [if_neg (Nat.not_lt_zero maxSize), if_neg (Nat.not_lt_zero _), Nat.zero_sub, if_pos (.inl rfl), List.take_zero, hR,
      dropBytes_zero hpieces]
    exact ⟨hinside,rfl⟩

/-- No message has a body longer than `max_size`. -/
theorem returned_body (h : Reads env.bufferSize segs) {R : HttpRequest}
    (hr : (recvRequest env (segs.map .bytes)).outcome = .returned R) : R.body.length ≤ maxSize := by
  obtain ⟨n,hn⟩ := recvRequest_head h hr
  have hcall := congrArg Prod.fst (recvRequest_complete h hn).2
  dsimp only at hcall
  rw [hr] at hcall
  by_cases hmax : maxSize < bodyLength env (headParsed env.uninitialised segs).data
  · rw [if_pos hmax] at hcall
    exact absurd hcall nofun
  rw [if_neg hmax] at hcall
  split at hcall
  · exact absurd hcall nofun
  · split at hcall
    · obtain rfl := Outcome.returned.inj hcall
      dsimp only
      rw [List.length_take]
      omega
    · exact absurd hcall nofun

/-- A head that one read brings whole is parsed as if it were alone. -/
theorem headParsed_whole {u : Uninitialised} {head more : Text} {cs n : Nat} (hflat : segs.flatten = head ++ more)
    (hwhole : ∀ p, p < head.length → begins segs p = 0) (hlen : head.length ≤ recvMax)
    (hends : (headWalk u head).stop = .broke cs n) :
    (headWalk u segs.flatten).stop = .broke cs n ∧ headParsed u segs = headParsed u [head] := by
  have hwalk : headWalk u segs.flatten = headWalk u head := by
    rw [hflat]
    exact ActionMachine.walk_append_ended (by rw [headWalk] at hends; rw [hends]; exact nofun) more
  have hfold : ∀ (stream : Text) (base : Nat → Nat), (∃ rest, stream = head ++ rest) → (∀ p, p < head.length → base p = 0) →
      (elements .init (headWalk u head).events).foldl (deliver stream base) ⟨.init,0,none⟩ = (acted (.init u) head).parsed :=
    fun stream base hstream hbase =>
      (acted_tracks (standing_init stream base u) hlen hstream hbase).1.symm
  refine ⟨by rw [hwalk, hends],?_⟩
  rw [headParsed, headElements, hwalk, hfold _ _ ⟨more,hflat⟩ hwhole, headParsed, headElements, List.flatten_singleton,
    hfold head (begins [head]) ⟨[],(List.append_nil _).symm⟩ fun p hp => by rw [begins, if_pos hp]]

end
end Radixun.Http
