import Radixun.Http.Connection
import Radixun.Http.RequestTracking

/-! The head of a response in a buffer with more behind it: the parser comes to what it comes to when the
head is alone. -/
namespace Radixun.Http
open Radixun.Foundation CString Common.Stream ResponseMachine

/-- A head the parser accepts, and in which it has seen that the body is chunked. -/
structure ChunkedHead (status : Int) (head : Text) : Prop where
  ends : (responseMachine.walk 1 0 head).stop = .broke 120 head.length
  unthrown : ((HttpResponseParser.init status).execute head false).1.thrown = none
  fine : ((HttpResponseParser.init status).execute head false).1.error = 0
  chunked : ((HttpResponseParser.init status).execute head false).1.parser.chunked = true

/-- Two parsers over buffers of which one continues the other, at a position of both. -/
structure Alike (p : Nat) (σ τ : HttpResponseParser) : Prop where
  thrown : τ.thrown = σ.thrown
  error : τ.error = σ.error
  mark : τ.parser.mark = σ.parser.mark
  fieldStart : τ.parser.fieldStart = σ.parser.fieldStart
  fieldLen : τ.parser.fieldLen = σ.parser.fieldLen
  chunked : τ.parser.chunked = σ.parser.chunked
  mark_le : σ.parser.mark ≤ p

/-- And the headers they have collected are the same. -/
structure AlikeHeaders (p : Nat) (σ τ : HttpResponseParser) : Prop extends Alike p σ τ where
  headers : τ.data.headers = σ.data.headers

section
variable {head more : Text} {σ τ : HttpResponseParser} {p q : Nat}

private theorem chars_append {start length : Nat} {t : Text} (h : chars head start length = .ok t) :
    chars (head ++ more) start length = .ok t := by
  unfold chars at h ⊢
  split at h
  · exact absurd h nofun
  rename_i hmax
  split at h
  · exact absurd h nofun
  rename_i hin
  rw [if_neg hmax, if_neg (by rw [List.length_append]; omega), ← h, List.drop_append_of_le_length (by omega),
    List.take_append_of_le_length (by rw [List.length_drop]; omega)]

private theorem versionOf_append {m : Nat} (hm : m ≤ q) (hq : q < head.length) (hlen : head.length ≤ recvMax) :
    versionOf ((head ++ more).drop m) (len m q) = versionOf (head.drop m) (len m q) := by
  have hl : len m q = q - m := by
    unfold recvMax at hlen
    unfold len
    rw [show ((q : Int) - m) = ((q - m : Nat) : Int) by omega]
    exact sizeT_nat (by omega)
  rw [hl, ← versionOf_take (head.drop m), ← versionOf_take ((head ++ more).drop m), List.drop_append_of_le_length (by omega),
    List.take_append_of_le_length (by rw [List.length_drop]; omega)]

/-- What relates the parsers that go on with the same characters relates what they come to. -/
private theorem withChars_related {R : HttpResponseParser → HttpResponseParser → Prop} {g h : Text → HttpResponseParser}
    {start length : Nat} (hn : (σ.withChars head start length g).thrown = none)
    (ha : ∀ t, (g t).thrown = none → R (g t) (h t)) :
    R (σ.withChars head start length g) (τ.withChars (head ++ more) start length h) := by
  unfold HttpResponseParser.withChars at hn ⊢
  cases hc : chars head start length with
  | error e => simp [hc] at hn
  | ok t =>
    rw [chars_append hc]
    rw [hc] at hn
    exact ha t hn

private theorem perform_unthrown {buffer : Text} {e : Nat × Action} (h : (σ.perform buffer e).thrown = none) : σ.thrown = none := by
  by_contra hne
  rw [HttpResponseParser.perform, if_pos (Option.isSome_iff_ne_none.mpr hne)] at h
  exact hne h

private theorem perform_alike (h : Alike p σ τ) (hq : p ≤ q) (hlt : q < head.length) (hlen : head.length ≤ recvMax) (a : Action)
    (hn : (σ.perform head (q,a)).thrown = none) : Alike q (σ.perform head (q,a)) (τ.perform (head ++ more) (q,a)) := by
  have hσ := perform_unthrown hn
  have hτ := h.thrown.trans hσ
  have hmark := h.mark_le
  rw [HttpResponseParser.perform, if_neg (by simp [hσ])] at hn ⊢
  rw [HttpResponseParser.perform, if_neg (by simp [hτ])]
  dsimp only at hn ⊢
  have hkeep : Alike q σ τ := ⟨h.thrown,h.error,h.mark,h.fieldStart,h.fieldLen,h.chunked,h.mark_le.trans hq⟩
  cases a with
  | httpVersion =>
    simp only [HttpResponseParser.onResponseVersion, h.mark] at hn ⊢
    rw [versionOf_append (by omega) hlt hlen]
    cases versionOf (head.drop σ.parser.mark) (len σ.parser.mark q) with
    | none => exact ⟨hkeep.thrown,rfl,hkeep.mark,hkeep.fieldStart,hkeep.fieldLen,hkeep.chunked,hkeep.mark_le⟩
    | some v => exact ⟨hkeep.thrown,hkeep.error,hkeep.mark,hkeep.fieldStart,hkeep.fieldLen,hkeep.chunked,hkeep.mark_le⟩
  | writeValue =>
    simp only [HttpResponseParser.onResponseHttpField, h.mark, h.fieldStart, h.fieldLen] at hn ⊢
    split
    · exact hkeep
    · rename_i hflen
      rw [if_neg hflen] at hn
      exact withChars_related hn fun key hkey => withChars_related hkey fun val _ =>
        ⟨hkeep.thrown,hkeep.error,hkeep.mark,hkeep.fieldStart,hkeep.fieldLen,hkeep.chunked,hkeep.mark_le⟩
  | reasonPhrase =>
    simp only [HttpResponseParser.onResponseReason, h.mark] at hn ⊢
    exact withChars_related hn fun t _ =>
      ⟨hkeep.thrown,hkeep.error,hkeep.mark,hkeep.fieldStart,hkeep.fieldLen,hkeep.chunked,hkeep.mark_le⟩
  | mark => exact ⟨hkeep.thrown,hkeep.error,rfl,hkeep.fieldStart,hkeep.fieldLen,hkeep.chunked,Nat.le_refl q⟩
  | startField => exact ⟨hkeep.thrown,hkeep.error,hkeep.mark,rfl,hkeep.fieldLen,hkeep.chunked,hkeep.mark_le⟩
  | writeField =>
    exact ⟨hkeep.thrown,hkeep.error,hkeep.mark,hkeep.fieldStart,by simp only [h.fieldStart],hkeep.chunked,hkeep.mark_le⟩
  | chunkSize | transChunked => exact ⟨hkeep.thrown,hkeep.error,hkeep.mark,hkeep.fieldStart,hkeep.fieldLen,rfl,hkeep.mark_le⟩
  | writeContentLen | writeConnectionClose | statusCode | done =>
    exact ⟨hkeep.thrown,hkeep.error,hkeep.mark,hkeep.fieldStart,hkeep.fieldLen,hkeep.chunked,hkeep.mark_le⟩

theorem perform_thrown {buffer : Text} {events : List (Nat × Action)} (h : σ.thrown ≠ none) :
    (events.foldl (HttpResponseParser.perform buffer) σ).thrown ≠ none := by
  induction events generalizing σ with
  | nil => exact h
  | cons e es ih =>
    rw [List.foldl_cons, HttpResponseParser.perform, if_pos (Option.isSome_iff_ne_none.mpr h)]
    exact ih h

private theorem onResponseVersion_headers (s : HttpResponseParser) (buffer : Text) (start length : Nat) :
    (s.onResponseVersion buffer start length).data.headers = s.data.headers := by
  unfold HttpResponseParser.onResponseVersion
  split <;> rfl

/-- Only a field changes the headers, and its name and value are the same characters in both buffers. -/
private theorem perform_headers (h : AlikeHeaders p σ τ) (a : Action) (hn : (σ.perform head (q,a)).thrown = none) :
    (τ.perform (head ++ more) (q,a)).data.headers = (σ.perform head (q,a)).data.headers := by
  have hσ := perform_unthrown hn
  have hτ := h.thrown.trans hσ
  rw [HttpResponseParser.perform, if_neg (by simp [hσ])] at hn
  rw [HttpResponseParser.perform, if_neg (by simp [hτ]), HttpResponseParser.perform, if_neg (by simp [hσ])]
  dsimp only at hn ⊢
  cases a with
  | writeValue =>
    simp only [HttpResponseParser.onResponseHttpField, h.mark, h.fieldStart, h.fieldLen] at hn ⊢
    split
    · exact h.headers
    · rename_i hflen
      rw [if_neg hflen] at hn
      exact withChars_related (R := fun σ τ => τ.data.headers = σ.data.headers) hn fun key hkey =>
        withChars_related (R := fun σ τ => τ.data.headers = σ.data.headers) hkey fun val _ => by simp only [h.headers]
  | reasonPhrase =>
    simp only [HttpResponseParser.onResponseReason, h.mark] at hn ⊢
    exact withChars_related (R := fun σ τ => τ.data.headers = σ.data.headers) hn fun t _ => h.headers
  | httpVersion => rw [onResponseVersion_headers, onResponseVersion_headers, h.headers]
  | _ => exact h.headers

private theorem events_alike (more : Text) (h : AlikeHeaders p σ τ) (hlen : head.length ≤ recvMax) {events : List (Nat × Action)}
    (hsorted : events.Pairwise fun a b => a.1 ≤ b.1) (hfrom : ∀ e ∈ events, p ≤ e.1 ∧ e.1 < head.length)
    (hn : (events.foldl (HttpResponseParser.perform head) σ).thrown = none) :
    ∃ q, AlikeHeaders q (events.foldl (HttpResponseParser.perform head) σ)
      (events.foldl (HttpResponseParser.perform (head ++ more)) τ) := by
  induction events generalizing σ τ p with
  | nil => exact ⟨p,h⟩
  | cons e es ih =>
    obtain ⟨hp,hlt⟩ := hfrom e (List.mem_cons_self ..)
    obtain ⟨hrest,hsorted⟩ := List.pairwise_cons.mp hsorted
    have hstep : (σ.perform head e).thrown = none := by
      by_contra hne
      exact perform_thrown hne hn
    exact ih ⟨perform_alike h.toAlike hp hlt hlen e.2 hstep,perform_headers h e.2 hstep⟩ hsorted
      (fun e' he' => ⟨hrest e' he',(hfrom e' (List.mem_cons_of_mem _ he')).2⟩) hn

/-- The parser behind a head, whatever the buffer holds behind it. -/
theorem execute_alike {status : Int} (hends : (responseMachine.walk 1 0 head).stop = .broke 120 head.length)
    (hthrown : ((HttpResponseParser.init status).execute head false).1.thrown = none) (hlen : head.length ≤ recvMax) (more : Text) :
    ∃ τ q, (HttpResponseParser.init status).execute (head ++ more) false = (τ,more) ∧
      AlikeHeaders q ((HttpResponseParser.init status).execute head false).1 τ ∧ τ.parser.cs = 120 := by
  have hstart : (HttpResponseParser.init status).parser.cs = 1 := rfl
  have hwalk : responseMachine.walk 1 0 (head ++ more) = responseMachine.walk 1 0 head :=
    ActionMachine.walk_append_ended (by rw [hends]; exact nofun) more
  have hdrop : (head ++ more).drop head.length = more := List.drop_left
  simp only [HttpResponseParser.execute, Bool.false_eq_true, if_false, HttpResponseParser.httpclientParserExecute,
    HttpResponseParser.walk, hstart, hwalk, hends, HttpResponseParser.land, hdrop] at hthrown ⊢
  have hfrom : ∀ e ∈ (responseMachine.walk 1 0 head).events, 0 ≤ e.1 ∧ e.1 < head.length := by
    rintro ⟨q,a⟩ he
    have := ActionMachine.event_lt he
    exact ⟨Nat.zero_le _,by simpa using this⟩
  obtain ⟨q,halike⟩ := events_alike more ⟨⟨rfl,rfl,rfl,rfl,rfl,rfl,Nat.le_refl _⟩,rfl⟩ hlen (ActionMachine.events_sorted ..) hfrom
    hthrown
  refine ⟨_,q,rfl,⟨⟨halike.thrown,halike.error,halike.mark,halike.fieldStart,halike.fieldLen,halike.chunked,halike.mark_le⟩,
    halike.headers⟩,rfl⟩

/-- The parser behind a chunked head, whatever the buffer holds behind it. -/
theorem execute_head {status : Int} (h : ChunkedHead status head) (hlen : head.length ≤ recvMax) (more : Text) :
    ∃ σ, (HttpResponseParser.init status).execute (head ++ more) false = (σ,more) ∧ σ.thrown = none ∧ σ.error = 0 ∧
      σ.parser.chunked = true ∧ σ.parser.cs = 120 := by
  obtain ⟨σ,q,hrun,halike,hcs⟩ := execute_alike h.ends h.unthrown hlen more
  exact ⟨σ,hrun,halike.thrown.trans h.unthrown,halike.error.trans h.fine,halike.chunked.trans h.chunked,hcs⟩

end
end Radixun.Http
