import Mathlib.Data.List.Find
import Radixun.Http.RequestElements
import Radixun.Http.SocketReads

/-! The parser over the buffers of a stream does what `deliver` says of the elements of the stream: one
action, the actions of one byte, the walk over one buffer. -/
namespace Radixun.Http
open Radixun.Foundation CString Common.Stream RequestMachine

private theorem cstr_take (s : Text) (n : Nat) : (cstr s).take n = cstr (s.take n) := List.take_takeWhile

theorem versionOf_take (s : Text) (n : Nat) : versionOf (s.take n) n = versionOf s n := by
  have h : ∀ b, strncmp (s.take n) b n = strncmp s b n := by
    intro b
    simp only [strncmp, cstr_take, List.take_take, Nat.min_self]
  simp only [versionOf, h]

/-- Names are compared no further than to a byte that is in none of them. -/
private theorem strncmp_space {name l x y : Text} {n : Nat} (h : 32 ∉ name)
    (h0 : strncmp name (l ++ 32 :: x) n = 0) : strncmp name (l ++ 32 :: y) n = 0 := by
  rw [strncmp_eq_zero, cstr_take (l ++ 32 :: x)] at h0
  rw [strncmp_eq_zero, cstr_take (l ++ 32 :: y), h0]
  by_cases hn : n ≤ l.length
  · rw [List.take_append_of_le_length hn, List.take_append_of_le_length hn]
  · by_cases hz : (0 : UInt8) ∈ l
    · have hcut : ∀ z : Text, cstr (l ++ z) = cstr l := by
        intro z
        rw [cstr, List.takeWhile_append, if_neg]
        · rfl
        · intro hlen
          have hall := List.takeWhile_eq_self_iff.mp (List.IsPrefix.eq_of_length (List.takeWhile_prefix _) hlen)
          simpa using hall 0 hz
      rw [← cstr_take, ← cstr_take, hcut, hcut]
    · -- then the space would be among the compared bytes of the name
      exfalso
      have hin : (32 : UInt8) ∈ cstr ((l ++ 32 :: x).take n) := by
        obtain ⟨k,hk⟩ : ∃ k, n - l.length = k + 1 := ⟨n - l.length - 1,by omega⟩
        have hsplit : (l ++ 32 :: x).take n = l ++ 32 :: x.take k := by
          rw [List.take_append, List.take_of_length_le (by omega), hk, List.take_succ_cons]
        rw [hsplit, cstr, List.takeWhile_append_of_pos (by intro a ha; simp; rintro rfl; exact hz ha)]
        simp
      rw [← h0] at hin
      exact h ((List.takeWhile_prefix _).sublist.subset (List.mem_of_mem_take hin))

theorem charsToHttpMethod_space (l x y : Text) :
    charsToHttpMethod (l ++ 32 :: x) = charsToHttpMethod (l ++ 32 :: y) := by
  have hnames : ∀ e ∈ methodMap, (32 : UInt8) ∉ e.2 := by decide
  have hiff : ∀ e ∈ methodMap,
      strncmp e.2 (l ++ 32 :: x) e.2.length = 0 ↔ strncmp e.2 (l ++ 32 :: y) e.2.length = 0 :=
    fun e he => ⟨strncmp_space (hnames e he),strncmp_space (hnames e he)⟩
  rw [charsToHttpMethod, charsToHttpMethod, List.find?_congr fun e he => decide_eq_decide.mpr (hiff e he)]

/-- The registers in a buffer that begins at `b`, at a position `pos` of the stream: a register that was
set in an earlier buffer stands for `b`, only that of the query keeps its old offset. -/
structure Tracks (base : Nat → Nat) (b pos : Nat) (f : Flags) (t : Tracker) (σ : HttpRequestParser) : Prop where
  mark : σ.parser.mark + b = max t.mark b
  fieldStart : σ.parser.fieldStart + b = max t.fieldStart b
  fieldLen : σ.parser.fieldLen = t.nameEnd - max t.nameStart b
  query : ∀ s, t.queryStart = some s → σ.parser.queryStart + base s = s ∧ σ.parser.queryStart ≤ recvMax ∧ s ≤ pos
  named : f.named = true → t.nameStart = t.fieldStart
  queried : f.queried = true → t.queryStart.isSome = true
  below : t.mark ≤ pos ∧ t.fieldStart ≤ pos ∧ t.nameStart ≤ pos ∧ t.nameEnd ≤ pos
  inside : ∀ r ∈ σ.reports, r.Inside

/-- A buffer of the stream and where in it the parser is. -/
structure Place (stream : Text) (base : Nat → Nat) (b : Nat) (seg : Text) (p : Nat) : Prop where
  behind : ∃ rest, stream.drop b = seg ++ rest
  small : seg.length ≤ recvMax
  within : p < seg.length
  base_eq : base (p + b) = b

section
variable {stream seg : Text} {base : Nat → Nat} {b p i pos : Nat} {f : Flags} {t : Tracker} {σ : HttpRequestParser}

private theorem drop_eq (h : Place stream base b seg p) (hi : i ≤ seg.length) :
    ∃ rest, stream.drop (i + b) = seg.drop i ++ rest := by
  obtain ⟨rest,hrest⟩ := h.behind
  refine ⟨rest,?_⟩
  rw [Nat.add_comm, ← List.drop_drop, hrest, List.drop_append_of_le_length hi]

private theorem slice_eq {j : Nat} (h : Place stream base b seg p) (hij : i ≤ j) (hj : j ≤ seg.length) :
    slice stream (i + b) (j + b) = (seg.drop i).take (j - i) := by
  obtain ⟨rest,hrest⟩ := drop_eq h (i := i) (by omega)
  rw [slice, hrest, Nat.add_sub_add_right, List.take_append_of_le_length (by rw [List.length_drop]; omega)]

private theorem len_eq (h : Place stream base b seg p) (hi : i ≤ p) : len i p = p - i := by
  have hsmall := h.small
  have hp := h.within
  unfold recvMax at hsmall
  unfold len
  rw [show ((p : Int) - i) = ((p - i : Nat) : Int) by omega]
  exact sizeT_nat (by omega)

private theorem chars_eq {j : Nat} (h : Place stream base b seg p) (hij : i ≤ j) (hj : j ≤ p) :
    chars seg i (j - i) = .ok (slice stream (i + b) (j + b)) := by
  have hsmall := h.small
  have hp := h.within
  unfold recvMax at hsmall
  rw [chars, if_neg (by unfold maxSize; omega), if_neg (by omega), slice_eq h hij (by omega)]

private theorem versionOf_eq (h : Place stream base b seg p) (hi : i ≤ p) :
    versionOf (seg.drop i) (p - i) = versionOf (stream.drop (i + b)) (p - i) := by
  have hp := h.within
  obtain ⟨rest,hrest⟩ := drop_eq h (i := i) (by omega)
  rw [← versionOf_take (seg.drop i), ← versionOf_take (stream.drop (i + b)), hrest,
    List.take_append_of_le_length (by rw [List.length_drop]; omega)]

private theorem charsToHttpMethod_eq (h : Place stream base b seg p) (hi : i ≤ p) (hspace : seg[p]? = some 32) :
    charsToHttpMethod (seg.drop i) = charsToHttpMethod (stream.drop (i + b)) := by
  have hp := h.within
  obtain ⟨rest,hrest⟩ := drop_eq h (i := i) (by omega)
  have hseg : seg.drop i = (seg.drop i).take (p - i) ++ 32 :: seg.drop (p + 1) := by
    have hcons : seg.drop p = 32 :: seg.drop (p + 1) := by
      rw [List.drop_eq_getElem_cons hp, (List.getElem?_eq_some_iff.mp hspace).2]
    rw [← hcons]
    conv_lhs => rw [← List.take_append_drop (p - i) (seg.drop i), List.drop_drop, Nat.add_sub_cancel' hi]
  rw [hrest, hseg, List.append_assoc, List.cons_append]
  exact charsToHttpMethod_space ..

theorem perform_of_thrown (h : σ.thrown ≠ none) (event : Nat × Action) : σ.perform seg event = σ := by
  rw [HttpRequestParser.perform, if_pos (Option.isSome_iff_ne_none.mpr h)]

theorem deliver_of_thrown {r : Parsed} (h : r.thrown ≠ none) (el : Element) : deliver stream base r el = r := by
  rw [deliver, if_pos (Option.isSome_iff_ne_none.mpr h)]

theorem Tracks.keep {σ' : HttpRequestParser} (ht : Tracks base b pos f t σ) (hm : σ'.parser.mark = σ.parser.mark)
    (hfs : σ'.parser.fieldStart = σ.parser.fieldStart) (hfl : σ'.parser.fieldLen = σ.parser.fieldLen)
    (hq : σ'.parser.queryStart = σ.parser.queryStart) (hr : ∀ r ∈ σ'.reports, r.Inside) :
    Tracks base b pos f t σ' :=
  ⟨hm ▸ ht.mark,hfs ▸ ht.fieldStart,hfl ▸ ht.fieldLen,hq ▸ ht.query,ht.named,ht.queried,ht.below,hr⟩

private theorem inside_report (hin : ∀ r ∈ σ.reports, r.Inside) (c : Callback) {start length : Nat}
    (h : start + length ≤ seg.length) : ∀ r ∈ (σ.report c seg start length).reports, r.Inside := by
  intro r hr
  rcases List.mem_append.mp hr with hr | hr
  · exact hin r hr
  · obtain rfl := List.mem_singleton.mp hr
    exact h

/-- The text of an element between a register and the current position. -/
private theorem withChars_eq {g : Text → HttpRequestParser} (h : Place stream base b seg p) (hi : i ≤ p) :
    σ.withChars seg i (p - i) g = g (slice stream (i + b) (p + b)) := by
  rw [HttpRequestParser.withChars, chars_eq h hi (Nat.le_refl p)]

section
variable (h : Place stream base b seg p) (ht : Tracks base b (p + b) f t σ)
include h ht

omit h in
private theorem mark_le : σ.parser.mark ≤ p := by
  have := ht.mark
  have := ht.below
  omega

private theorem mark_eq : σ.parser.mark + b = max t.mark (base (p + b)) := by rw [h.base_eq, ht.mark]

private theorem mark_inside : σ.parser.mark + (p - σ.parser.mark) ≤ seg.length := by
  have := mark_le ht
  have := h.within
  omega

private theorem act_path : (σ.act seg p .requestPath).parsed = σ.parsed.take stream base (.path t.mark (p + b)) ∧
    Tracks base b (p + b) f t (σ.act seg p .requestPath) := by
  have hout : σ.act seg p .requestPath = { σ.report .requestPath seg σ.parser.mark (p - σ.parser.mark) with
      data := { σ.data with path := slice stream (max t.mark (base (p + b))) (p + b) } } := by
    rw [← mark_eq h ht]
    show HttpRequestParser.onRequestPath .. = _
    rw [HttpRequestParser.onRequestPath, len_eq h (mark_le ht)]
    exact withChars_eq h (mark_le ht)
  rw [hout]
  exact ⟨rfl,ht.keep rfl rfl rfl rfl (inside_report ht.inside _ (mark_inside h ht))⟩

private theorem act_fragment : (σ.act seg p .fragment).parsed = σ.parsed.take stream base (.fragment t.mark (p + b)) ∧
    Tracks base b (p + b) f t (σ.act seg p .fragment) := by
  have hout : σ.act seg p .fragment = { σ.report .fragment seg σ.parser.mark (p - σ.parser.mark) with
      data := { σ.data with fragment := slice stream (max t.mark (base (p + b))) (p + b) } } := by
    rw [← mark_eq h ht]
    show HttpRequestParser.onRequestFragment .. = _
    rw [HttpRequestParser.onRequestFragment, len_eq h (mark_le ht)]
    exact withChars_eq h (mark_le ht)
  rw [hout]
  exact ⟨rfl,ht.keep rfl rfl rfl rfl (inside_report ht.inside _ (mark_inside h ht))⟩

private theorem act_method (hspace : seg[p]? = some 32) :
    (σ.act seg p .requestMethod).parsed = σ.parsed.take stream base (.method t.mark (p + b)) ∧
    Tracks base b (p + b) f t (σ.act seg p .requestMethod) := by
  have hin := inside_report ht.inside .requestMethod (mark_inside h ht)
  have hout : σ.act seg p .requestMethod =
      if charsToHttpMethod (stream.drop (max t.mark (base (p + b)))) = .INVALID_METHOD then
        { σ.report .requestMethod seg σ.parser.mark (p - σ.parser.mark) with error := 1000 }
      else { σ.report .requestMethod seg σ.parser.mark (p - σ.parser.mark) with
        data := { σ.data with method := charsToHttpMethod (stream.drop (max t.mark (base (p + b)))) } } := by
    rw [← mark_eq h ht, ← charsToHttpMethod_eq h (mark_le ht) hspace, ← len_eq h (mark_le ht)]
    rfl
  rw [hout]
  simp only [Parsed.take]
  split
  · exact ⟨rfl,ht.keep rfl rfl rfl rfl hin⟩
  · exact ⟨rfl,ht.keep rfl rfl rfl rfl hin⟩

private theorem act_version : (σ.act seg p .httpVersion).parsed = σ.parsed.take stream base (.version t.mark (p + b)) ∧
    Tracks base b (p + b) f t (σ.act seg p .httpVersion) := by
  have hin := inside_report ht.inside .httpVersion (mark_inside h ht)
  have hversion : versionOf (seg.drop σ.parser.mark) (len σ.parser.mark p) =
      versionOf (stream.drop (max t.mark (base (p + b)))) (p + b - max t.mark (base (p + b))) := by
    rw [len_eq h (mark_le ht), versionOf_eq h (mark_le ht), ← mark_eq h ht, Nat.add_sub_add_right]
  simp only [HttpRequestParser.act, HttpRequestParser.onRequestVersion, hversion, Parsed.take]
  rw [len_eq h (mark_le ht)]
  cases versionOf (stream.drop (max t.mark (base (p + b)))) (p + b - max t.mark (base (p + b))) with
  | none => exact ⟨rfl,ht.keep rfl rfl rfl rfl hin⟩
  | some v => exact ⟨rfl,ht.keep rfl rfl rfl rfl hin⟩

private theorem act_query {s : Nat} (hs : t.queryStart = some s) :
    (σ.act seg p .queryString).parsed = σ.parsed.take stream base (.query s (p + b)) ∧
    ((σ.act seg p .queryString).thrown = none → Tracks base b (p + b) f t (σ.act seg p .queryString)) := by
  obtain ⟨hq,hsmall,hsp⟩ := ht.query s hs
  have hlong := h.small
  have hp := h.within
  unfold recvMax at hsmall hlong
  have hstart : base (p + b) + (s - base s) = σ.parser.queryStart + b := by rw [h.base_eq]; omega
  simp only [Parsed.take, hstart]
  by_cases hlt : p < σ.parser.queryStart
  · -- the length wraps around, and no string is that long
    have hwrap : maxSize < len σ.parser.queryStart p := by
      unfold maxSize len sizeT
      omega
    have hout : σ.act seg p .queryString =
        { σ.report .queryString seg σ.parser.queryStart (len σ.parser.queryStart p) with thrown := some .lengthError } := by
      show HttpRequestParser.onRequestQuery .. = _
      rw [HttpRequestParser.onRequestQuery, HttpRequestParser.withChars, chars, if_pos hwrap]
    rw [hout, if_pos (by omega)]
    exact ⟨rfl,fun hc => nomatch hc⟩
  · have hle : σ.parser.queryStart ≤ p := by omega
    have hout : σ.act seg p .queryString = { σ.report .queryString seg σ.parser.queryStart (p - σ.parser.queryStart) with
        data := { σ.data with query := slice stream (σ.parser.queryStart + b) (p + b) } } := by
      show HttpRequestParser.onRequestQuery .. = _
      rw [HttpRequestParser.onRequestQuery, len_eq h hle]
      exact withChars_eq h hle
    rw [hout, if_neg (by omega)]
    exact ⟨rfl,fun _ => ht.keep rfl rfl rfl rfl (inside_report ht.inside _ (by omega))⟩

private theorem act_field (hf : f.named = true) :
    (σ.act seg p .writeValue).parsed = σ.parsed.take stream base (.field t.nameStart t.nameEnd t.mark (p + b)) ∧
    Tracks base b (p + b) f t (σ.act seg p .writeValue) := by
  have hp := h.within
  obtain ⟨_,_,_,hend⟩ := ht.below
  have hstart : σ.parser.fieldStart + b = max t.nameStart b := by rw [ht.fieldStart, ht.named hf]
  have hfl : σ.parser.fieldLen = t.nameEnd - b - σ.parser.fieldStart := by rw [ht.fieldLen]; omega
  have hin : ∀ r ∈ ((σ.report .httpField seg σ.parser.fieldStart σ.parser.fieldLen).report .httpField seg σ.parser.mark
      (p - σ.parser.mark)).reports, r.Inside := by
    refine inside_report (inside_report ht.inside _ ?_) _ (mark_inside h ht)
    have := ht.fieldStart
    have := ht.below
    omega
  have hact : σ.act seg p .writeValue =
      σ.onRequestHttpField seg σ.parser.fieldStart σ.parser.fieldLen σ.parser.mark (p - σ.parser.mark) := by
    rw [← len_eq h (mark_le ht)]
    rfl
  rw [hact, HttpRequestParser.onRequestHttpField]
  simp only [Parsed.take, h.base_eq]
  by_cases hz : σ.parser.fieldLen = 0
  · rw [if_pos hz, if_pos (by omega)]
    exact ⟨rfl,ht.keep rfl rfl rfl rfl hin⟩
  · have hle : σ.parser.fieldStart ≤ t.nameEnd - b := by omega
    have hname := chars_eq h hle (by omega : t.nameEnd - b ≤ p)
    rw [hstart, Nat.sub_add_cancel (by omega : b ≤ t.nameEnd), ← hfl] at hname
    rw [if_neg hz, if_neg (by omega), HttpRequestParser.withChars, hname]
    dsimp only
    rw [withChars_eq h (mark_le ht), ht.mark]
    exact ⟨rfl,ht.keep rfl rfl rfl rfl hin⟩

end

/-- One action: the request changes as `deliver` says, and the registers keep track unless it throws. -/
theorem act_tracks (h : Place stream base b seg p) (ht : Tracks base b (p + b) f t σ) (a : Action)
    (hf : f.permits a = true) (hspace : a = .requestMethod → seg[p]? = some 32) :
    (σ.act seg p a).parsed = (t.element (p + b,a)).toList.foldl (Parsed.take stream base) σ.parsed ∧
    ((σ.act seg p a).thrown = none →
      Tracks base b (p + b) (f.step a) (t.step (p + b,a)) (σ.act seg p a)) := by
  have hp := h.within
  obtain ⟨hbm,hbf,hbn,hbe⟩ := ht.below
  cases a with
  | mark =>
    exact ⟨rfl,fun _ => { ht with
      mark := (Nat.max_eq_left (by omega : b ≤ p + b)).symm
      below := ⟨Nat.le_refl _,hbf,hbn,hbe⟩ }⟩
  | startField =>
    exact ⟨rfl,fun _ => { ht with
      fieldStart := (Nat.max_eq_left (by omega : b ≤ p + b)).symm
      named := nofun
      below := ⟨hbm,Nat.le_refl _,hbn,hbe⟩ }⟩
  | writeField =>
    refine ⟨rfl,fun _ => { ht with
      fieldLen := ?_
      named := fun _ => rfl
      below := ⟨hbm,hbf,hbf,Nat.le_refl _⟩ }⟩
    show len σ.parser.fieldStart p = p + b - max t.fieldStart b
    have := ht.fieldStart
    rw [len_eq h (by omega)]
    omega
  | startQuery =>
    have hsmall := h.small
    refine ⟨rfl,fun _ => { ht with
      query := ?_
      queried := fun _ => rfl }⟩
    rintro s hs
    obtain rfl : p + b = s := Option.some.inj hs
    exact ⟨by rw [h.base_eq]; rfl,by show p ≤ recvMax; omega,Nat.le_refl _⟩
  | writeValue =>
    obtain ⟨hparsed,hkeep⟩ := act_field h ht hf
    exact ⟨hparsed,fun _ => hkeep⟩
  | requestMethod =>
    obtain ⟨hparsed,hkeep⟩ := act_method h ht (hspace rfl)
    exact ⟨hparsed,fun _ => hkeep⟩
  | requestUri =>
    refine ⟨rfl,fun _ => ht.keep rfl rfl rfl rfl ?_⟩
    show ∀ r ∈ (σ.report .requestUri seg σ.parser.mark (len σ.parser.mark p)).reports, r.Inside
    rw [len_eq h (mark_le ht)]
    exact inside_report ht.inside _ (mark_inside h ht)
  | fragment =>
    obtain ⟨hparsed,hkeep⟩ := act_fragment h ht
    exact ⟨hparsed,fun _ => hkeep⟩
  | queryString =>
    obtain ⟨s,hs⟩ := Option.isSome_iff_exists.mp (ht.queried hf)
    obtain ⟨hparsed,hkeep⟩ := act_query h ht hs
    refine ⟨?_,hkeep⟩
    rw [hparsed]
    simp [Tracker.element, hs]
  | httpVersion =>
    obtain ⟨hparsed,hkeep⟩ := act_version h ht
    exact ⟨hparsed,fun _ => hkeep⟩
  | requestPath =>
    obtain ⟨hparsed,hkeep⟩ := act_path h ht
    exact ⟨hparsed,fun _ => hkeep⟩
  | xml => exact ⟨rfl,fun _ => ht.keep rfl rfl rfl rfl ht.inside⟩
  | json => exact ⟨rfl,fun _ => ht.keep rfl rfl rfl rfl ht.inside⟩
  | done =>
    rw [HttpRequestParser.act]
    split
    · exact ⟨rfl,fun _ => ht.keep rfl rfl rfl rfl ht.inside⟩
    · exact ⟨rfl,fun _ => ht.keep rfl rfl rfl rfl (inside_report ht.inside _ (by omega))⟩

private theorem Tracks.mono {pos' : Nat} {f' : Flags} (ht : Tracks base b pos f t σ) (hpos : pos ≤ pos')
    (hf : f'.le f = true) : Tracks base b pos' f' t σ := by
  obtain ⟨hbm,hbf,hbn,hbe⟩ := ht.below
  simp only [Flags.le, Bool.and_eq_true, Bool.or_eq_true, Bool.not_eq_true'] at hf
  exact { ht with
    query := fun s hs => ⟨(ht.query s hs).1,(ht.query s hs).2.1,le_trans (ht.query s hs).2.2 hpos⟩
    named := fun h => ht.named (hf.1.resolve_left (by simp [h]))
    queried := fun h => ht.queried (hf.2.resolve_left (by simp [h]))
    below := ⟨by omega,by omega,by omega,by omega⟩ }

/-- The reset at the beginning of a buffer moves the registers that stand for earlier positions there. -/
theorem reset_tracks {b' : Nat} (ht : Tracks base b pos f t σ) (hpos : pos ≤ b') : Tracks base b' b' f t σ.reset := by
  obtain ⟨hbm,hbf,hbn,hbe⟩ := ht.below
  exact {
    mark := by show 0 + b' = _; omega
    fieldStart := by show 0 + b' = _; omega
    fieldLen := by show 0 = _; omega
    query := fun s hs => ⟨(ht.query s hs).1,(ht.query s hs).2.1,le_trans (ht.query s hs).2.2 hpos⟩
    named := ht.named
    queried := ht.queried
    below := ⟨by omega,by omega,by omega,by omega⟩
    inside := ht.inside }

private theorem deliver_toList {r : Parsed} (hn : r.thrown = none) (o : Option Element) :
    o.toList.foldl (deliver stream base) r = o.toList.foldl (Parsed.take stream base) r := by
  cases o with
  | none => rfl
  | some el => simp [deliver, hn]

/-- The actions of one byte. -/
private theorem acts_track (h : Place stream base b seg p) (acts : List Action) {f' : Flags}
    (hsteps : f.steps acts = some f') (hspace : .requestMethod ∈ acts → seg[p]? = some 32)
    (ht : σ.thrown = none → Tracks base b (p + b) f t σ) :
    ((acts.map fun a => (p,a)).foldl (HttpRequestParser.perform seg) σ).parsed =
      (elements t (acts.map fun a => (p + b,a))).foldl (deliver stream base) σ.parsed ∧
    (((acts.map fun a => (p,a)).foldl (HttpRequestParser.perform seg) σ).thrown = none →
      Tracks base b (p + b) f' (t.after (acts.map fun a => (p + b,a)))
        ((acts.map fun a => (p,a)).foldl (HttpRequestParser.perform seg) σ)) := by
  induction acts generalizing f t σ with
  | nil =>
    obtain rfl : f = f' := Option.some.inj hsteps
    exact ⟨rfl,ht⟩
  | cons a acts ih =>
    rw [Flags.steps] at hsteps
    split at hsteps
    · rename_i hpermit
      simp only [List.map_cons, List.foldl_cons, elements, List.foldl_append]
      have hmore := fun hm => hspace (List.mem_cons_of_mem _ hm)
      by_cases hn : σ.thrown = none
      · obtain ⟨hparsed,hkeep⟩ := act_tracks h (ht hn) a hpermit fun ha => hspace (ha ▸ List.mem_cons_self ..)
        have hperform : σ.perform seg (p,a) = σ.act seg p a := by simp [HttpRequestParser.perform, hn]
        rw [deliver_toList (r := σ.parsed) hn, ← hparsed, hperform]
        exact ih hsteps hmore hkeep
      · have hstay : ∀ l : List Element, l.foldl (deliver stream base) σ.parsed = σ.parsed := by
          intro l
          induction l with
          | nil => rfl
          | cons el l ihl => rw [List.foldl_cons, deliver_of_thrown hn, ihl]
        rw [perform_of_thrown hn, hstay]
        exact ih hsteps hmore fun hc => absurd hc hn
    · simp at hsteps

private theorem shift_events (acts : List Action) (w : Walk Action) :
    ((w.after (acts.map fun a => (p,a))).shift b).events =
      acts.map (fun a => (p + b,a)) ++ (w.shift b).events := by
  simp [Walk.after, Walk.shift]

/-- The walk over the rest of one buffer. -/
theorem walk_tracks {relaxed : Bool} {cs : Nat} {bs : Text} (hbs : seg.drop p = bs) (hp : p ≤ seg.length)
    (hplace : ∀ q, q < seg.length → Place stream base b seg q)
    (ht : σ.thrown = none → Tracks base b (p + b) (stateFlags cs) t σ) :
    let w := (requestMachine relaxed).walk cs p bs
    let σ' := w.events.foldl (HttpRequestParser.perform seg) σ
    σ'.parsed = (elements t (w.shift b).events).foldl (deliver stream base) σ.parsed ∧
    (σ'.thrown = none → (∀ r ∈ σ'.reports, r.Inside) ∧ ∀ cs', w.stop = .more cs' →
      Tracks base b (seg.length + b) (stateFlags cs') (t.after (w.shift b).events) σ') := by
  dsimp only
  induction bs generalizing cs p t σ with
  | nil =>
    refine ⟨rfl,fun hn => ⟨(ht hn).inside,?_⟩⟩
    rintro cs' hcs
    obtain rfl : cs = cs' := by simpa using hcs
    exact (ht hn).mono (by omega) (by simp [Flags.le])
  | cons x bs ih =>
    have hlt : p < seg.length := by
      by_contra hge
      rw [List.drop_eq_nil_of_le (by omega)] at hbs
      simp at hbs
    have hx : seg[p]? = some x := by
      rw [← List.head?_drop, hbs]
      rfl
    obtain ⟨_,hw⟩ | ⟨e,he,_,hw⟩ | ⟨e,he,_,hw⟩ := (requestMachine relaxed).walk_cases cs p x bs
    · rw [hw]
      exact ⟨rfl,fun hn => ⟨(ht hn).inside,fun cs' h => by cases h⟩⟩
    all_goals
      obtain ⟨f',hsteps,hle⟩ := edge_flags he
      obtain ⟨hparsed,hkeep⟩ := acts_track (hplace p hlt) e.acts hsteps (fun hm => edge_space he hm ▸ hx) ht
      rw [hw]
    · have hevents : ((⟨e.acts.map fun a => (p,a),.broke e.target (p + 1)⟩ : Walk Action).shift b).events =
          e.acts.map fun a => (p + b,a) := by simp [Walk.shift]
      rw [hevents]
      exact ⟨hparsed,fun hn => ⟨(hkeep hn).inside,fun cs' h => by cases h⟩⟩
    · have hdrop : seg.drop (p + 1) = bs := by
        rw [← List.drop_drop, hbs]
        rfl
      have hnext := fun hn => (hkeep hn).mono (by omega : p + b ≤ p + 1 + b) hle
      obtain ⟨hparsed',hkeep'⟩ := ih hdrop (by omega) hnext
      rw [shift_events, elements_append, List.foldl_append, ← hparsed, ← hparsed']
      simp only [Walk.after, List.foldl_append, true_and]
      intro hn
      have hafter : t.after (e.acts.map (fun a => (p + b,a)) ++
          ((requestMachine relaxed).walk e.target (p + 1) bs |>.shift b).events) =
          (t.after (e.acts.map fun a => (p + b,a))).after
            ((requestMachine relaxed).walk e.target (p + 1) bs |>.shift b).events := by
        simp [Tracker.after, List.foldl_append]
      rw [hafter]
      exact hkeep' hn

end

end Radixun.Http
