import Radixun.Http.RequestAssignments
import Radixun.Http.Session

/-! The loop over the head of a request, for a stream that arrives in pieces: when it completes the
head, and with what. -/
namespace Radixun.Http
open Radixun.Foundation CString Common.Stream RequestMachine

/-- The pieces of a stream from `b` on, each of which one read returns whole, and the buffers they become. -/
def Buffers (stream : Text) (base : Nat → Nat) (buffSize : Nat) : Nat → List Text → Prop
  | _, [] => True
  | b, s :: ss => s ≠ [] ∧ s.length ≤ min buffSize recvMax ∧ (∃ rest, stream.drop b = s ++ rest) ∧
    (∀ q, q < s.length → base (q + b) = b) ∧ Buffers stream base buffSize (b + s.length) ss

/-- No read of a head of `n` bytes looks like one that filled the buffer in vain. -/
def Room (buffSize : Nat) : List Text → Nat → Prop
  | [], _ => True
  | s :: ss, n =>
    if n ≤ s.length then isFull buffSize (s.length - n) = false
    else isFull buffSize 0 = false ∧ Room buffSize ss (n - s.length)

/-- What the read that brings the `n`th byte brings behind it, and the pieces after that read. -/
def behind : List Text → Nat → Text × List Text
  | [], _ => ([],[])
  | s :: ss, n => if n ≤ s.length then (s.drop n,ss) else behind ss (n - s.length)

theorem behind_flatten (segs : List Text) (n : Nat) :
    (behind segs n).1 ++ (behind segs n).2.flatten = segs.flatten.drop n := by
  induction segs generalizing n with
  | nil => simp [behind]
  | cons s ss ih =>
    rw [behind]
    split
    · rename_i hn
      rw [List.flatten_cons, List.drop_append_of_le_length hn]
    · rename_i hn
      rw [ih, List.flatten_cons, List.drop_append, List.drop_eq_nil_of_le (by omega : s.length ≤ n),
        List.nil_append]

theorem behind_mem {segs : List Text} {n : Nat} {s : Text} (h : s ∈ (behind segs n).2) : s ∈ segs := by
  induction segs generalizing n with
  | nil => simp [behind] at h
  | cons x ss ih =>
    rw [behind] at h
    split at h
    · exact List.mem_cons_of_mem _ h
    · exact List.mem_cons_of_mem _ (ih h)

/-- The pieces behind a head and a body, when the read that brings the end of the head brings no more. -/
theorem behind_drop {segs : List Text} {n m : Nat} (h : (behind segs n).1.length ≤ m) :
    dropBytes (m - (behind segs n).1.length) (behind segs n).2 = dropBytes (n + m) segs := by
  induction segs generalizing n with
  | nil => rfl
  | cons s ss ih =>
    rw [behind] at h ⊢
    rw [dropBytes]
    split
    · rename_i hn
      rw [if_pos hn, List.length_drop] at h
      rw [if_pos (by omega), List.length_drop, show n + m - s.length = m - (s.length - n) by omega]
    · rename_i hn
      rw [if_neg hn] at h
      rw [if_pos (by omega), ih h, show n + m - s.length = n - s.length + m by omega]

section
variable {stream seg : Text} {base : Nat → Nat} {b b' p : Nat} {t : Tracker} {σ : HttpRequestParser}

private theorem withChars_relaxed {i n : Nat} {g : Text → HttpRequestParser}
    (h : ∀ x, (g x).parser.uriRelaxed = σ.parser.uriRelaxed) :
    (σ.withChars seg i n g).parser.uriRelaxed = σ.parser.uriRelaxed := by
  rw [HttpRequestParser.withChars]
  split
  · rfl
  · exact h _

private theorem act_relaxed (a : Action) : (σ.act seg p a).parser.uriRelaxed = σ.parser.uriRelaxed := by
  cases a with
  | writeValue =>
    simp only [HttpRequestParser.act, HttpRequestParser.onRequestHttpField]
    split
    · rfl
    · exact withChars_relaxed (σ := (σ.report ..).report ..) fun x => withChars_relaxed (σ := (σ.report ..).report ..) fun y => rfl
  | requestMethod =>
    simp only [HttpRequestParser.act, HttpRequestParser.onRequestMethod]
    split <;> rfl
  | httpVersion =>
    simp only [HttpRequestParser.act, HttpRequestParser.onRequestVersion]
    split <;> rfl
  | fragment => exact withChars_relaxed (σ := σ.report ..) fun x => rfl
  | queryString => exact withChars_relaxed (σ := σ.report ..) fun x => rfl
  | requestPath => exact withChars_relaxed (σ := σ.report ..) fun x => rfl
  | done =>
    simp only [HttpRequestParser.act]
    split <;> rfl
  | _ => rfl

theorem events_relaxed (events : List (Nat × Action)) :
    (events.foldl (HttpRequestParser.perform seg) σ).parser.uriRelaxed = σ.parser.uriRelaxed := by
  induction events generalizing σ with
  | nil => rfl
  | cons e es ih =>
    rw [List.foldl_cons, ih, HttpRequestParser.perform]
    split
    · rfl
    · exact act_relaxed _

/-- The parser at the beginning of a buffer: it goes on, and its registers keep track of the stream. -/
structure Standing (stream : Text) (base : Nat → Nat) (b : Nat) (t : Tracker) (σ : HttpRequestParser) : Prop where
  unthrown : σ.thrown = none
  fine : σ.error = 0
  tracks : ∃ b', Tracks base b' b (stateFlags σ.parser.cs) t σ

/-- The machine from where the parser stands. -/
abbrev onward (σ : HttpRequestParser) (p : Nat) (bytes : Text) : Walk Action :=
  (requestMachine σ.parser.uriRelaxed).walk σ.parser.cs p bytes

/-- The parser behind the actions of a buffer, before it lands. -/
abbrev acted (σ : HttpRequestParser) (seg : Text) : HttpRequestParser :=
  (onward σ 0 seg).events.foldl (HttpRequestParser.perform seg) σ.reset

theorem execute_eq (hseg : seg ≠ []) (σ : HttpRequestParser) :
    (σ.execute seg).1 = (acted σ seg).land seg (onward σ 0 seg).stop ∧
    (σ.execute seg).2 = seg.drop ((acted σ seg).land seg (onward σ 0 seg).stop).parser.nread := by
  have hlen : ¬seg.length = 0 := fun h => hseg (List.length_eq_zero_iff.mp h)
  simp only [HttpRequestParser.execute, HttpRequestParser.httpParserExecute, if_neg hlen]
  exact ⟨rfl,rfl⟩

theorem execute_parsed (hseg : seg ≠ []) (σ : HttpRequestParser) : (σ.execute seg).1.parsed = (acted σ seg).parsed := by
  rw [(execute_eq hseg σ).1]
  cases (onward σ 0 seg).stop <;> rfl

/-- A walk ends in a state from which it goes on, in a final one, or in an error. -/
theorem stop_states {r : Bool} {cs p : Nat} (bytes : Text) (hcs : cs ≠ 0 ∧ cs < 348) :
    match ((requestMachine r).walk cs p bytes).stop with
    | .more cs' => cs' ≠ 0 ∧ cs' < 348
    | .broke cs' _ => 348 ≤ cs'
    | .failed _ => True := by
  induction bytes generalizing cs p with
  | nil => exact hcs
  | cons x bs ih =>
    obtain ⟨_,hw⟩ | ⟨e,he,hb,hw⟩ | ⟨e,he,hb,hw⟩ := (requestMachine r).walk_cases cs p x bs
    · rw [hw]; trivial
    · rw [hw]; exact (edge_final he).1 hb
    · rw [hw]; exact ih ((edge_final he).2 hb)

/-- One turn of the loop, by how the walk over its buffer ends. -/
theorem next_eq (buffSize : Nat) (hseg : seg ≠ []) (hcs : σ.parser.cs ≠ 0 ∧ σ.parser.cs < 348) :
    (recvHead buffSize).next (σ,[]) seg =
      match (acted σ seg).thrown with
      | some f => .inr (.thrown f,σ.execute seg)
      | none =>
        match (onward σ 0 seg).stop with
        | .more _ => if (acted σ seg).error ≠ 0 ∨ isFull buffSize 0 = true then .inr (.closed,σ.execute seg) else .inl (σ.execute seg)
        | .broke _ n =>
          if (acted σ seg).error ≠ 0 ∨ isFull buffSize (seg.length - n) = true then .inr (.closed,σ.execute seg)
          else .inr (.complete,σ.execute seg)
        | .failed _ => .inr (.closed,σ.execute seg) := by
  obtain ⟨h1,h2⟩ := execute_eq hseg σ
  have hstates := stop_states (r := σ.parser.uriRelaxed) (p := 0) seg hcs
  simp only [recvHead, parseLoop, List.nil_append]
  have hthrown : (σ.execute seg).1.thrown = (acted σ seg).thrown := congrArg Parsed.thrown (execute_parsed hseg σ)
  rw [hthrown]
  cases (acted σ seg).thrown with
  | some f => rfl
  | none =>
    dsimp only
    cases hstop : (onward σ 0 seg).stop with
    | more cs' =>
      rw [hstop] at h1 h2 hstates
      have hlen : (σ.execute seg).2.length = 0 := by simp [h2, HttpRequestParser.land]
      have herror : (σ.execute seg).1.hasError = decide ((acted σ seg).error ≠ 0) := by
        simp [h1, HttpRequestParser.land, HttpRequestParser.hasError, hstates.1]
      have hfin : (σ.execute seg).1.isFinished = 0 := by
        have := hstates.2
        simp [h1, HttpRequestParser.land, HttpRequestParser.isFinished, hstates.1]
        omega
      rw [hlen, herror, hfin]
      simp
    | broke cs' n =>
      rw [hstop] at h1 h2 hstates
      have hlen : (σ.execute seg).2.length = seg.length - n := by simp [h2, HttpRequestParser.land]
      have h0 : cs' ≠ 0 := by
        have : 348 ≤ cs' := hstates
        omega
      have herror : (σ.execute seg).1.hasError = decide ((acted σ seg).error ≠ 0) := by
        simp [h1, HttpRequestParser.land, HttpRequestParser.hasError, h0]
      have hfin : (σ.execute seg).1.isFinished = 1 := by
        have : 348 ≤ cs' := hstates
        simp [h1, HttpRequestParser.land, HttpRequestParser.isFinished, h0, this]
      rw [hlen, herror, hfin]
      simp
    | failed n =>
      rw [hstop] at h1 h2
      have herror : (σ.execute seg).1.hasError = true := by
        simp [h1, HttpRequestParser.land, HttpRequestParser.hasError]
      simp [herror]

end

section
variable {stream seg : Text} {base : Nat → Nat} {b buffSize : Nat} {t : Tracker} {σ : HttpRequestParser}

private theorem onward_shift (σ : HttpRequestParser) (b : Nat) (seg : Text) : onward σ b seg = (onward σ 0 seg).shift b := by
  have := ActionMachine.walk_shift (M := requestMachine σ.parser.uriRelaxed) σ.parser.cs 0 b seg
  rwa [Nat.zero_add] at this

private theorem onward_stop (σ : HttpRequestParser) (b : Nat) (seg : Text) : (onward σ b seg).stop = (onward σ 0 seg).stop.shift b := by
  rw [onward_shift]
  rfl

/-- A walk that ends within the first piece of a stream ends there. -/
private theorem onward_ended (h : ∀ cs', (onward σ 0 seg).stop ≠ .more cs') (rest : Text) :
    onward σ b (seg ++ rest) = onward σ b seg := by
  refine ActionMachine.walk_append_ended (fun cs' hm => ?_) rest
  have hshift := onward_stop σ b seg
  rw [show (onward σ b seg).stop = .more cs' from hm] at hshift
  cases hs : (onward σ 0 seg).stop with
  | more cs'' => exact h cs'' hs
  | broke cs'' n => rw [hs] at hshift; cases hshift
  | failed n => rw [hs] at hshift; cases hshift

/-- Otherwise it goes on from where the parser stands behind that piece. -/
private theorem onward_more (hne : seg ≠ []) {cs' : Nat} (h : (onward σ 0 seg).stop = .more cs') (rest : Text) :
    onward σ b (seg ++ rest) = (onward (σ.execute seg).1 (b + seg.length) rest).after (onward σ b seg).events := by
  have hend : (onward σ b seg).stop = .more cs' := by rw [onward_stop, h]; rfl
  have hrelaxed : (acted σ seg).parser.uriRelaxed = σ.parser.uriRelaxed := events_relaxed _
  rw [onward, ActionMachine.walk_append hend, (execute_eq hne σ).1, h]
  simp only [onward, HttpRequestParser.land, hrelaxed]

/-- What the rest of a stream delivers comes behind what its first piece delivers. -/
private theorem elements_onward (hne : seg ≠ []) (rest : Text) :
    ∃ l, elements t (onward σ b (seg ++ rest)).events = elements t (onward σ b seg).events ++ l := by
  by_cases h : ∃ cs', (onward σ 0 seg).stop = .more cs'
  · obtain ⟨cs',h⟩ := h
    exact ⟨_,by rw [onward_more hne h, Walk.after, elements_append]⟩
  · exact ⟨[],by rw [onward_ended (not_exists.mp h), List.append_nil]⟩

/-- What one buffer of the stream does to the parser. -/
theorem acted_tracks (hst : Standing stream base b t σ) (hlen : seg.length ≤ recvMax)
    (hbehind : ∃ rest, stream.drop b = seg ++ rest) (hbase : ∀ q, q < seg.length → base (q + b) = b) :
    (acted σ seg).parsed = (elements t (onward σ b seg).events).foldl (deliver stream base) σ.parsed ∧
    ((acted σ seg).thrown = none → (∀ r ∈ (acted σ seg).reports, r.Inside) ∧ ∀ cs', (onward σ 0 seg).stop = .more cs' →
      Tracks base b (seg.length + b) (stateFlags cs') (t.after (onward σ b seg).events) (acted σ seg)) := by
  obtain ⟨b',ht⟩ := hst.tracks
  rw [onward_shift]
  exact walk_tracks (p := 0) (List.drop_zero (l := seg)) (Nat.zero_le _) (fun q hq => ⟨hbehind,hlen,hq,hbase q hq⟩)
    fun _ => by rw [Nat.zero_add]; exact reset_tracks ht (Nat.le_refl _)

/-- A buffer without an error, in which the walk does not end, leaves the parser at the beginning of the next one. -/
private theorem Standing.next (hst : Standing stream base b t σ) (hne : seg ≠ []) (hlen : seg.length ≤ recvMax)
    (hbehind : ∃ rest, stream.drop b = seg ++ rest) (hbase : ∀ q, q < seg.length → base (q + b) = b)
    (hthrown : (acted σ seg).thrown = none) (herror : (acted σ seg).error = 0) {cs' : Nat}
    (hstop : (onward σ 0 seg).stop = .more cs') :
    Standing stream base (b + seg.length) (t.after (onward σ b seg).events) (σ.execute seg).1 := by
  obtain ⟨hinside,hmore⟩ := (acted_tracks hst hlen hbehind hbase).2 hthrown
  rw [(execute_eq hne σ).1, hstop]
  refine ⟨hthrown,herror,b,?_⟩
  rw [Nat.add_comm b]
  exact (hmore cs' hstop).keep rfl rfl rfl rfl hinside

/-- An exception or an error in one buffer stays with whatever is delivered afterwards. -/
private theorem spoilt (h : ¬((acted σ seg).thrown = none ∧ (acted σ seg).error = 0)) (l : List Element) :
    ¬((l.foldl (deliver stream base) (acted σ seg).parsed).thrown = none ∧
      (l.foldl (deliver stream base) (acted σ seg).parsed).error = 0) := by
  rintro ⟨ht,he⟩
  by_cases hthrown : (acted σ seg).thrown = none
  · exact deliver_all_error (fun herror => h ⟨hthrown,herror⟩) l he
  · exact deliver_all_thrown hthrown l ht

/-- The turns that end the loop without a head. -/
private theorem turn_closes (buffSize : Nat) (hne : seg ≠ []) (hcs : σ.parser.cs ≠ 0 ∧ σ.parser.cs < 348)
    (h : ¬((acted σ seg).thrown = none ∧ (acted σ seg).error = 0) ∨ ∃ n, (onward σ 0 seg).stop = .failed n) :
    ∃ r, (recvHead buffSize).next (σ,[]) seg = .inr r ∧ r.1 ≠ .complete := by
  rw [next_eq buffSize hne hcs]
  cases hthrown : (acted σ seg).thrown with
  | some f => exact ⟨_,rfl,nofun⟩
  | none =>
    rcases h with h | ⟨n,hn⟩
    · have herror : (acted σ seg).error ≠ 0 := fun h0 => h ⟨hthrown,h0⟩
      cases (onward σ 0 seg).stop <;> simp [herror]
    · rw [hn]
      exact ⟨_,rfl,nofun⟩

private theorem turn_broke (buffSize : Nat) (hne : seg ≠ []) (hcs : σ.parser.cs ≠ 0 ∧ σ.parser.cs < 348)
    (hthrown : (acted σ seg).thrown = none) (herror : (acted σ seg).error = 0) {cs' n : Nat}
    (hstop : (onward σ 0 seg).stop = .broke cs' n) :
    (recvHead buffSize).next (σ,[]) seg =
      if isFull buffSize (seg.length - n) = true then .inr (.closed,σ.execute seg)
      else .inr (.complete,(σ.execute seg).1,seg.drop n) := by
  have h2 := (execute_eq hne σ).2
  rw [hstop] at h2
  rw [next_eq buffSize hne hcs, hthrown, hstop, show seg.drop n = (σ.execute seg).2 from h2.symm]
  simp only [herror, ne_eq, not_true_eq_false, false_or]

private theorem turn_more (buffSize : Nat) (hne : seg ≠ []) (hcs : σ.parser.cs ≠ 0 ∧ σ.parser.cs < 348)
    (hthrown : (acted σ seg).thrown = none) (herror : (acted σ seg).error = 0) {cs' : Nat}
    (hstop : (onward σ 0 seg).stop = .more cs') :
    (recvHead buffSize).next (σ,[]) seg =
      if isFull buffSize 0 = true then .inr (.closed,σ.execute seg) else .inl ((σ.execute seg).1,[]) := by
  have h2 : (σ.execute seg).2 = [] := by
    rw [(execute_eq hne σ).2, hstop]
    exact List.drop_length
  rw [next_eq buffSize hne hcs, hthrown, hstop, ← h2]
  simp only [herror, ne_eq, not_true_eq_false, false_or]

/-- The loop completes the head exactly when the machine finishes within what is left of the stream. -/
private def HeadRun (stream : Text) (base : Nat → Nat) (buffSize b : Nat) (t : Tracker) (σ : HttpRequestParser)
    (segs : List Text) : Prop :=
  let w := onward σ b segs.flatten
  let P := (elements t w.events).foldl (deliver stream base) σ.parsed
  let run := (recvHead buffSize).run (σ,[]) (segs.map .bytes)
  (∀ cs' n, w.stop = .broke cs' n → P.thrown = none → P.error = 0 → Room buffSize segs (n - b) →
    ∃ σ', run = .stopped (.complete,σ',(behind segs (n - b)).1) ((behind segs (n - b)).2.map .bytes) ∧
      σ'.parsed = P ∧ ∀ r ∈ σ'.reports, r.Inside) ∧
  (∀ σ' data rest, run = .stopped (.complete,σ',data) rest →
    ∃ cs' n, w.stop = .broke cs' n ∧ P.thrown = none ∧ P.error = 0 ∧ Room buffSize segs (n - b))

section Turn
variable {segs : List Text} (hne : seg ≠ []) (hcs : σ.parser.cs ≠ 0 ∧ σ.parser.cs < 348)
  (hread : read ((recvHead buffSize).asked (σ,[])) ((seg :: segs).map .bytes) = .got seg (segs.map .bytes))
  (hparsed : (acted σ seg).parsed = (elements t (onward σ b seg).events).foldl (deliver stream base) σ.parsed)
include hne hcs hread

/-- A turn that fails ends the loop. -/
private theorem headRun_failed {n : Nat} (hstop : (onward σ 0 seg).stop = .failed n) :
    HeadRun stream base buffSize b t σ (seg :: segs) := by
  obtain ⟨r,hnext,hr⟩ := turn_closes buffSize hne hcs (.inr ⟨n,hstop⟩)
  have hend := onward_stop σ b seg
  rw [hstop] at hend
  simp only [HeadRun, List.flatten_cons]
  rw [ReadLoop.run_stop hread hne hnext, onward_ended (by simp [hstop]), hend]
  refine ⟨fun _ _ h => Stop.noConfusion h,fun σ' data rest h => ?_⟩
  cases h
  exact absurd rfl hr

include hparsed

/-- So does one with an exception or an error. -/
private theorem headRun_spoilt (h : ¬((acted σ seg).thrown = none ∧ (acted σ seg).error = 0)) :
    HeadRun stream base buffSize b t σ (seg :: segs) := by
  obtain ⟨r,hnext,hr⟩ := turn_closes buffSize hne hcs (.inl h)
  obtain ⟨l,hl⟩ := elements_onward (t := t) (σ := σ) (b := b) hne segs.flatten
  simp only [HeadRun, List.flatten_cons]
  rw [hl, List.foldl_append, ← hparsed, ReadLoop.run_stop hread hne hnext]
  refine ⟨fun _ _ _ ht he => absurd ⟨ht,he⟩ (spoilt h l),fun σ' data rest h => ?_⟩
  cases h
  exact absurd rfl hr

variable (hthrown : (acted σ seg).thrown = none) (herror : (acted σ seg).error = 0)
include hthrown herror

/-- The turn in which the machine finishes. -/
private theorem headRun_broke (hinside : ∀ r ∈ (acted σ seg).reports, r.Inside) {cs' n : Nat}
    (hstop : (onward σ 0 seg).stop = .broke cs' n) : HeadRun stream base buffSize b t σ (seg :: segs) := by
  have hn := (ActionMachine.broke_bounds hstop).2
  have hnext := turn_broke buffSize hne hcs hthrown herror hstop
  have hend := onward_stop σ b seg
  rw [hstop] at hend
  simp only [HeadRun, List.flatten_cons]
  rw [onward_ended (by simp [hstop]), hend, ← hparsed]
  have hroom : Room buffSize (seg :: segs) (n + b - b) ↔ isFull buffSize (seg.length - n) = false := by
    rw [Nat.add_sub_cancel, Room, if_pos (by omega)]
  cases hfull : isFull buffSize (seg.length - n) with
  | true =>
    rw [hfull, if_pos rfl] at hnext
    rw [ReadLoop.run_stop hread hne hnext]
    refine ⟨fun cs'' m hm _ _ hr => ?_,fun σ' data rest h => by simp at h⟩
    obtain ⟨rfl,rfl⟩ := Stop.broke.inj hm
    rw [hroom, hfull] at hr
    exact Bool.noConfusion hr
  | false =>
    rw [hfull, if_neg Bool.false_ne_true] at hnext
    rw [ReadLoop.run_stop hread hne hnext]
    refine ⟨fun cs'' m hm _ _ _ => ?_,fun σ' data rest _ => ⟨cs',n + b,rfl,hthrown,herror,hroom.mpr hfull⟩⟩
    obtain ⟨rfl,rfl⟩ := Stop.broke.inj hm
    rw [Nat.add_sub_cancel, behind, if_pos (by omega)]
    refine ⟨(σ.execute seg).1,rfl,execute_parsed hne σ,?_⟩
    rw [(execute_eq hne σ).1, hstop]
    exact hinside

/-- A turn the machine is not finished after. -/
private theorem headRun_more {cs' : Nat} (hstop : (onward σ 0 seg).stop = .more cs')
    (hrest : HeadRun stream base buffSize (b + seg.length) (t.after (onward σ b seg).events) (σ.execute seg).1 segs) :
    HeadRun stream base buffSize b t σ (seg :: segs) := by
  have hnext := turn_more buffSize hne hcs hthrown herror hstop
  have hsplit := onward_more (b := b) hne hstop segs.flatten
  have hwalk : (onward σ b (seg ++ segs.flatten)).stop =
      (onward (σ.execute seg).1 (b + seg.length) segs.flatten).stop := by rw [hsplit]; rfl
  -- where the head ends in a later piece, it ends behind this one
  have hbig : ∀ {cs'' n}, (onward (σ.execute seg).1 (b + seg.length) segs.flatten).stop = .broke cs'' n →
      ¬n - b ≤ seg.length := by
    intro cs'' n hn
    have := (ActionMachine.broke_bounds hn).1
    omega
  have helements : elements t (onward σ b (seg ++ segs.flatten)).events = elements t (onward σ b seg).events ++
      elements (t.after (onward σ b seg).events) (onward (σ.execute seg).1 (b + seg.length) segs.flatten).events := by
    rw [hsplit, Walk.after, elements_append]
  simp only [HeadRun, List.flatten_cons] at hrest ⊢
  rw [helements, List.foldl_append, ← hparsed, ← execute_parsed hne σ, hwalk]
  cases hfull : isFull buffSize 0 with
  | true =>
    rw [hfull, if_pos rfl] at hnext
    rw [ReadLoop.run_stop hread hne hnext]
    refine ⟨fun cs'' n hn _ _ hr => ?_,fun σ' data rest h => by simp at h⟩
    rw [Room, if_neg (hbig hn), hfull] at hr
    exact Bool.noConfusion hr.1
  | false =>
    rw [hfull, if_neg Bool.false_ne_true] at hnext
    rw [ReadLoop.run_go hread hne hnext]
    constructor
    · intro cs'' n hn ht he hr
      rw [Room, if_neg (hbig hn), Nat.sub_sub] at hr
      rw [behind, if_neg (hbig hn), Nat.sub_sub]
      exact hrest.1 cs'' n hn ht he hr.2
    · intro σ' data rest h
      obtain ⟨cs'',n,hn,ht,he,hr⟩ := hrest.2 σ' data rest h
      refine ⟨cs'',n,hn,ht,he,?_⟩
      rw [Room, if_neg (hbig hn), Nat.sub_sub]
      exact ⟨hfull,hr⟩

end Turn

/-- The loop completes the head exactly when the machine finishes within the stream, the elements are
delivered without an error, and no read looks like one that filled the buffer in vain. -/
theorem recvHead_run {segs : List Text} (hcs : σ.parser.cs ≠ 0 ∧ σ.parser.cs < 348) (hst : Standing stream base b t σ)
    (hbuf : Buffers stream base buffSize b segs) :
    let w := onward σ b segs.flatten
    let P := (elements t w.events).foldl (deliver stream base) σ.parsed
    let run := (recvHead buffSize).run (σ,[]) (segs.map .bytes)
    (∀ cs' n, w.stop = .broke cs' n → P.thrown = none → P.error = 0 → Room buffSize segs (n - b) →
      ∃ σ', run = .stopped (.complete,σ',(behind segs (n - b)).1) ((behind segs (n - b)).2.map .bytes) ∧
        σ'.parsed = P ∧ ∀ r ∈ σ'.reports, r.Inside) ∧
    (∀ σ' data rest, run = .stopped (.complete,σ',data) rest →
      ∃ cs' n, w.stop = .broke cs' n ∧ P.thrown = none ∧ P.error = 0 ∧ Room buffSize segs (n - b)) := by
  show HeadRun stream base buffSize b t σ segs
  induction segs generalizing σ t b with
  | nil =>
    refine ⟨fun cs' n h => by simp at h,fun σ' data rest h => ?_⟩
    rw [List.map_nil, ReadLoop.run_waiting rfl] at h
    exact absurd h nofun
  | cons seg segs ih =>
    obtain ⟨hne,hlen,hbehind,hbase,hbuf⟩ := hbuf
    obtain ⟨hparsed,hkeep⟩ := acted_tracks hst (by omega) hbehind hbase
    have hread : read ((recvHead buffSize).asked (σ,[])) ((seg :: segs).map .bytes) = .got seg (segs.map .bytes) :=
      read_whole hlen
    by_cases hclean : (acted σ seg).thrown = none ∧ (acted σ seg).error = 0
    · obtain ⟨hthrown,herror⟩ := hclean
      cases hstop : (onward σ 0 seg).stop with
      | failed n => exact headRun_failed hne hcs hread hstop
      | broke cs' n => exact headRun_broke hne hcs hread hparsed hthrown herror (hkeep hthrown).1 hstop
      | more cs' =>
        have hstates : (σ.execute seg).1.parser.cs ≠ 0 ∧ (σ.execute seg).1.parser.cs < 348 := by
          have := stop_states (r := σ.parser.uriRelaxed) (p := 0) seg hcs
          rw [hstop] at this
          rw [(execute_eq hne σ).1, hstop]
          exact this
        have hrest := ih hstates (hst.next hne (by omega) hbehind hbase hthrown herror hstop) hbuf
        exact headRun_more hne hcs hread hparsed hthrown herror hstop hrest
    · exact headRun_spoilt hne hcs hread hparsed hclean

end
end Radixun.Http
