import Radixun.Common.LogPatternMeaning

/-! Patterns in which each `%` of a text is doubled. The scanner looks at the second `%` of a pair again. -/
namespace Radixun.Common.Log
open Config (bytes)

/-- The text with every `%` doubled. -/
def double (s : List UInt8) : List UInt8 := s.flatMap fun c => if c = 37 then [37,37] else [c]

theorem double_text {c : UInt8} (h : c ≠ 37) (s : List UInt8) : double (c :: s) = c :: double s := by
  rw [double, List.flatMap_cons, if_neg h]
  rfl

theorem double_percent (s : List UInt8) : double (37 :: s) = 37 :: 37 :: double s := rfl

theorem double_append (s t : List UInt8) : double (s ++ t) = double s ++ double t := List.flatMap_append

theorem double_plain {s : List UInt8} (h : 37 ∉ s) : double s = s := by
  induction s with
  | nil => rfl
  | cons c s ih =>
    obtain ⟨hc,hs⟩ := List.ne_and_not_mem_of_not_mem_cons h
    rw [double_text (Ne.symm hc), ih hs]

theorem double_run (n : Nat) (t : List UInt8) :
    double (List.replicate n 37 ++ t) = List.replicate (2 * n) 37 ++ double t := by
  induction n with
  | zero => rfl
  | succ n ih =>
    rw [List.replicate_succ, List.cons_append, double_percent, ih]
    rfl

theorem head_double (s : List UInt8) : (double s).head? = s.head? := by
  cases s with
  | nil => rfl
  | cons c s =>
    by_cases hc : c = 37
    · rw [hc]
      rfl
    · rw [double_text hc]
      rfl

theorem mem_double {b : UInt8} (s : List UInt8) : b ∈ double s ↔ b ∈ s := by
  rw [double, List.mem_flatMap]
  constructor
  · rintro ⟨c,hc,hb⟩
    split at hb
    · rename_i h37
      have hb' : b = 37 := by simpa using hb
      rw [hb', ← h37]
      exact hc
    · rw [List.mem_singleton.mp hb]
      exact hc
  · intro hb
    refine ⟨b,hb,?_⟩
    split
    · rename_i h37
      rw [h37]
      exact List.mem_cons_self
    · exact List.mem_singleton_self b

/-- A doubled text that begins with something else than `%` is that and a doubled text. -/
theorem double_eq_cons {c : UInt8} {s v : List UInt8} (hc : c ≠ 37) (h : double s = c :: v) : ∃ s', s = c :: s' ∧ v = double s' := by
  cases s with
  | nil => cases h
  | cons b s =>
    by_cases hb : b = 37
    · rw [hb, double_percent] at h
      exact absurd (List.cons.inj h).1.symm hc
    · rw [double_text hb] at h
      obtain ⟨rfl,rfl⟩ := List.cons.inj h
      exact ⟨s,rfl,rfl⟩

/-- A text with a `%` up to the first run of them. -/
theorem exists_run {s : List UInt8} (h : 37 ∈ s) :
    ∃ l n t, s = l ++ (List.replicate (n + 1) 37 ++ t) ∧ 37 ∉ l ∧ t.head? ≠ some 37 := by
  obtain ⟨l,rest,rfl,hl⟩ := List.eq_append_cons_of_mem h
  have hrun : ∀ u : List UInt8, ∃ n t, 37 :: u = List.replicate (n + 1) 37 ++ t ∧ t.head? ≠ some 37 := by
    intro u
    induction u with
    | nil => exact ⟨0,[],rfl,by decide⟩
    | cons c u ih =>
      by_cases hc : c = 37
      · obtain ⟨n,t,hu,ht⟩ := ih
        exact ⟨n + 1,t,by rw [hc, hu]; rfl,ht⟩
      · exact ⟨0,c :: u,rfl,fun h => hc (Option.some.inj h)⟩
  obtain ⟨n,t,hrest,ht⟩ := hrun rest
  exact ⟨l,n,t,by rw [hrest],hl,ht⟩

/-- All of a run but its last `%` is text. -/
theorem read_run (n : Nat) (u : List UInt8) :
    read (List.replicate (n + 1) 37 ++ u) = (List.replicate n 37).map .text ++ read (37 :: u) := by
  induction n with
  | zero => rfl
  | succ n ih =>
    rw [List.replicate_succ, List.cons_append, read_text (.inr rfl), ih]
    rfl

/-- A doubled text up to its first run of `%`: one `%` less than twice the run is text. -/
theorem read_double_run {l : List UInt8} (hl : 37 ∉ l) (k : Nat) (t : List UInt8) :
    read (double (l ++ (List.replicate (k + 1) 37 ++ t))) =
      (l ++ List.replicate (2 * k + 1) 37).map .text ++ read (37 :: double t) := by
  rw [double_append, double_plain hl, double_run, read_literal hl, show 2 * (k + 1) = 2 * k + 1 + 1 by omega, read_run,
    List.map_append, List.append_assoc]

/-- An item that is in the table has a single letter. -/
theorem letter_of_fine {str fmt : List UInt8} (h : (Token.item str fmt).bad = false) : ∃ key : ItemKey, str = [key.letter] := by
  have hkeys : ∀ e ∈ formatItems, ∃ key : ItemKey, e.1 = [key.letter] := by
    intro e he
    simp only [formatItems, List.mem_cons, List.not_mem_nil, or_false] at he
    rcases he with rfl | rfl | rfl | rfl | rfl | rfl | rfl | rfl | rfl | rfl | rfl | rfl
    exacts [⟨.message,rfl⟩,⟨.level,rfl⟩,⟨.elapse,rfl⟩,⟨.name,rfl⟩,⟨.threadId,rfl⟩,⟨.newLine,rfl⟩,⟨.dateTime,rfl⟩,⟨.filename,rfl⟩,
      ⟨.line,rfl⟩,⟨.tab,rfl⟩,⟨.fiberId,rfl⟩,⟨.threadName,rfl⟩]
  cases hl : formatItems.lookup str with
  | none =>
    have hbad : (Token.item str fmt).bad = true := by
      change (Piece.item ⟨str,fmt,1⟩).2 = true
      rw [Piece.item, if_neg (show ¬ (1 : Nat) = 0 by decide)]
      simp only [hl]
    rw [hbad] at h
    cases h
  | some make =>
    obtain ⟨pre,post,heq,-⟩ := List.lookup_eq_some_iff.mp hl
    exact hkeys (str,make) (heq ▸ List.mem_append_right pre List.mem_cons_self)

theorem itemAt_str {u : List UInt8} {it : ItemText} (h : itemAt u = some it) : u.takeWhile isNamed = it.str := by
  unfold itemAt at h
  dsimp only at h
  split_ifs at h <;> cases h <;> rfl

/-- Braces in a doubled text hold a doubled text, and another stands behind them. -/
theorem untilBrace_double {w : List UInt8} (h : 125 ∈ double w) : ∃ fmt t, w = fmt ++ 125 :: t ∧ untilBrace (double w) = double fmt ∧
    (double w).drop ((untilBrace (double w)).length + 1) = double t := by
  obtain ⟨fmt,t,rfl,hfmt⟩ := List.eq_append_cons_of_mem ((mem_double w).mp h)
  have hw : double (fmt ++ 125 :: t) = double fmt ++ 125 :: double t := by
    rw [double_append, double_text (by decide)]
  have huntil : untilBrace (double (fmt ++ 125 :: t)) = double fmt := by
    rw [hw, untilBrace_append (fun h => hfmt ((mem_double fmt).mp h))]
  refine ⟨fmt,t,rfl,huntil,?_⟩
  rw [huntil, hw, ← List.drop_drop, List.drop_left]
  rfl

/-- An item with one letter in a doubled text: the letter, the braces if there are any, and a doubled text behind it. -/
theorem itemAt_double {t : List UInt8} {it : ItemText} {key : ItemKey} (h : itemAt (double t) = some it) (hkey : it.str = [key.letter]) :
    ∃ p t', t = key.letter :: p ++ t' ∧ (double t).drop it.length = double t' ∧
      (it.fmt = [] ∨ ∃ fmt, fmt ≠ [] ∧ it.fmt = double fmt ∧ fmt.length ≤ p.length) := by
  have hletter : key.letter ≠ 37 := fun h => letter_not_percent key [] (congrArg some h)
  have hsplit : double t = key.letter :: (double t).dropWhile isNamed := by
    have := List.takeWhile_append_dropWhile (p := isNamed) (l := double t)
    rw [itemAt_str h, hkey] at this
    exact this.symm
  obtain ⟨t₁,rfl,hv⟩ := double_eq_cons hletter hsplit
  have hnamed : ∀ c, (double t₁).head? = some c → isNamed c = false := by
    intro c hc
    rw [← hv] at hc
    have := List.head?_dropWhile_not isNamed (double (key.letter :: t₁))
    rw [hc] at this
    simpa using this
  rw [double_text hletter] at h ⊢
  by_cases hopen : (double t₁).head? = some 123
  · obtain ⟨w,hw⟩ := List.head?_eq_some_iff.mp hopen
    obtain ⟨w',rfl,rfl⟩ := double_eq_cons (by decide) hw
    have hitem := itemAt_open (letter_named key) (double w')
    rw [hw] at h ⊢
    rw [show key.letter :: 123 :: double w' = [key.letter] ++ 123 :: double w' from rfl, hitem] at h
    by_cases hin : 125 ∈ double w'
    · rw [if_pos hin] at h
      cases h
      obtain ⟨fmt,t',rfl,huntil,hdrop⟩ := untilBrace_double hin
      refine ⟨123 :: fmt ++ [125],t',by simp,?_,?_⟩
      · rw [← hdrop, List.length_singleton, Nat.add_comm 1, Nat.add_right_comm]
        rfl
      · dsimp only
        rw [huntil]
        by_cases hempty : fmt = []
        · exact .inl (by rw [hempty]; rfl)
        · refine .inr ⟨fmt,hempty,rfl,?_⟩
          rw [List.length_append, List.length_cons]
          omega
    · rw [if_neg hin] at h
      cases h
  · have hstop : itemAt (key.letter :: double t₁) = some ⟨[key.letter],[],[key.letter].length⟩ :=
      itemAt_stop (letter_named key) (fun c hc => ⟨hnamed c hc,fun h => hopen (h ▸ hc)⟩)
    rw [hstop] at h
    cases h
    exact ⟨[],t₁,rfl,rfl,.inl rfl⟩

/-- A text cannot be moved behind itself over a run of `%` that is longer than the one in it: a letter would stand where `%` stands. -/
theorem run_fixed {l r o q : List UInt8} {n : Nat} {k : UInt8} (hk : k ≠ 37) (ho : k ∉ o ∨ o.length < q.length + 1) :
    l ++ List.replicate (2 * n + 1) 37 ++ o ≠ r ++ (l ++ List.replicate (n + 1) 37) ++ k :: q := by
  intro h
  rcases List.append_eq_append_iff.mp h with ⟨a,-,hoa⟩ | ⟨b,hb,hq⟩
  · -- the letter is in what is written for the item
    rcases ho with ho | ho
    · exact ho (hoa ▸ List.mem_append_right a List.mem_cons_self)
    · rw [hoa, List.length_append, List.length_cons] at ho
      omega
  · cases b with
    | nil =>
      rcases ho with ho | ho
      · exact ho (by rw [← hq.trans (List.nil_append o)]; exact List.mem_cons_self)
      · rw [← hq.trans (List.nil_append o), List.length_cons] at ho
        omega
    | cons c b =>
      obtain ⟨rfl,-⟩ := List.cons.inj hq
      have hlen := congrArg List.length hb
      simp only [List.length_append, List.length_replicate, List.length_cons] at hlen
      have hat : (l ++ List.replicate (2 * n + 1) (37 : UInt8))[r.length + l.length + (n + 1)]? = some k := by
        rw [hb, List.getElem?_append_right (by simp only [List.length_append, List.length_replicate]; omega)]
        simp only [List.length_append, List.length_replicate]
        rw [← Nat.add_assoc r.length, Nat.sub_self]
        rfl
      rw [List.getElem?_append_right (by omega), List.getElem?_replicate, if_pos (by omega)] at hat
      exact hk (Option.some.inj hat).symm

def defaultFormat : List UInt8 := bytes "%Y-%m-%d %H:%M:%S"

/-- An event without any text. -/
def blank : LogEvent := ⟨[],0,0,0,0,0,[],[],[]⟩

section
variable {strftime : Strftime}

/-- What an item writes for an empty event does not have its letter, except for a time with a format of its own. -/
theorem letter_not_written (hdefault : ∀ t, 100 ∉ strftime defaultFormat t) (key : ItemKey) (fmt : List UInt8) :
    key.letter ∉ (key.item fmt).format strftime .info blank ∨ fmt ≠ [] ∧ (key.item fmt).format strftime .info blank = strftime fmt 0 := by
  by_cases hkey : key = .dateTime
  · subst hkey
    by_cases h : fmt = []
    · subst h
      exact .inl (hdefault _)
    · refine .inr ⟨h,?_⟩
      change strftime (if fmt = [] then _ else fmt) 0 = _
      rw [if_neg h]
  · have hsame : (key.item fmt).format strftime .info blank = (key.item []).format (fun _ _ => []) .info blank := by
      cases key with
      | dateTime => exact absurd rfl hkey
      | _ => rfl
    rw [hsame]
    exact .inl (by cases key <;> decide)

/-- What is written for an item does not have its letter, or is shorter than the item. -/
theorem letter_or_shorter (hcopy : ∀ fmt t, fmt ≠ [] → (strftime (double fmt) t).length ≤ fmt.length)
    (hdefault : ∀ t, 100 ∉ strftime defaultFormat t) (key : ItemKey) {fmt p : List UInt8}
    (hfmt : fmt = [] ∨ ∃ u, u ≠ [] ∧ fmt = double u ∧ u.length ≤ p.length) (q : List UInt8) :
    key.letter ∉ (key.item fmt).format strftime .info blank ∨
      ((key.item fmt).format strftime .info blank).length < (p ++ q).length + 1 := by
  obtain hno | ⟨hne,hout⟩ := letter_not_written hdefault key fmt
  · exact .inl hno
  · obtain hempty | ⟨u,hu,rfl,hle⟩ := hfmt
    · exact absurd hempty hne
    · have hlen := hcopy u 0 hu
      refine .inr ?_
      rw [hout, List.length_append]
      omega

/-- Behind a doubled text something can be written before the text only if there is no `%` in it. -/
theorem shifted_plain (hcopy : ∀ fmt t, fmt ≠ [] → (strftime (double fmt) t).length ≤ fmt.length)
    (hdefault : ∀ t, 100 ∉ strftime defaultFormat t) (n : Nat) (s r : List UInt8) (hn : s.length ≤ n)
    (hfine : (read (double s)).any Token.bad = false)
    (h : (read (double s)).flatMap (Token.output strftime .info blank) = r ++ s) : 37 ∉ s := by
  induction n generalizing s r with
  | zero =>
    rw [List.eq_nil_of_length_eq_zero (Nat.le_zero.mp hn)]
    exact List.not_mem_nil
  | succ n ih =>
    intro hin
    obtain ⟨l,k,t,rfl,hl,ht⟩ := exists_run hin
    have ht' : (double t).head? ≠ some 37 := by
      rw [head_double]
      exact ht
    rw [read_double_run hl] at hfine h
    rw [List.any_append, Bool.or_eq_false_iff] at hfine
    rw [List.flatMap_append, (text_tokens _).2] at h
    cases hitem : itemAt (double t) with
    | none =>
      rw [read_unclosed ht' hitem] at hfine
      cases hfine.2
    | some it =>
      rw [read_item ht' hitem] at hfine h
      rw [List.any_cons, Bool.or_eq_false_iff] at hfine
      obtain ⟨key,hkey⟩ := letter_of_fine hfine.2.1
      obtain ⟨p,t',rfl,hdrop,hfmt⟩ := itemAt_double hitem hkey
      have hletter : key.letter ≠ 37 := fun h => letter_not_percent key [] (congrArg some h)
      rw [hdrop] at hfine h
      rw [List.flatMap_cons, hkey, (token_item key it.fmt).2, ← List.append_assoc] at h
      have hshort := letter_or_shorter hcopy hdefault key hfmt
      have hwhole : r ++ (l ++ (List.replicate (k + 1) 37 ++ (key.letter :: p ++ t'))) =
          (r ++ (l ++ List.replicate (k + 1) 37) ++ (key.letter :: p)) ++ t' := by
        simp only [List.append_assoc]
      rw [hwhole] at h
      rcases List.append_eq_append_iff.mp h with ⟨a,ha,hrest⟩ | ⟨a,ha,hrest⟩
      · -- the rest is shifted too, so it is plain, and not shifted after all
        have hplain : 37 ∉ t' := by
          apply ih t' a _ hfine.2.2 hrest
          simp only [List.length_append, List.length_cons, List.length_replicate] at hn
          omega
        rw [double_plain hplain, ← List.append_nil t', read_literal hplain, read, List.append_nil, List.append_nil,
          (text_tokens t').2] at hrest
        have hnil : a = [] := List.self_eq_append_left.mp hrest
        rw [hnil, List.append_nil] at ha
        exact run_fixed hletter (hshort []) (by rw [List.append_nil]; exact ha.symm)
      · exact run_fixed hletter (hshort a) (by rw [ha, List.append_assoc, List.cons_append])

/-- A text is written for the pattern with every `%` of it doubled exactly if it has none. By what is known of `strftime`, text
in a format is copied up to the size of the buffer, `%%` being one character of it, and the default format gives no letter. -/
theorem escaped_iff (strftime : Strftime) (hcopy : ∀ fmt t, fmt ≠ [] → (strftime (double fmt) t).length ≤ fmt.length)
    (hdefault : ∀ t, 100 ∉ strftime defaultFormat t) (s : List UInt8) :
    ((LogFormatter.make (double s)).isError = false ∧
      ∀ level event, (LogFormatter.make (double s)).format strftime level event = s) ↔ 37 ∉ s := by
  obtain ⟨herror,hout⟩ := make_reads (double s)
  constructor
  · rintro ⟨hfine,hsame⟩
    rw [herror] at hfine
    apply shifted_plain hcopy hdefault s.length s [] le_rfl hfine
    rw [← hout hfine, hsame]
    rfl
  · intro hs
    have hread : read (double s) = s.map .text := by
      rw [double_plain hs, ← List.append_nil s, read_literal hs, read, List.append_nil, List.append_nil]
    rw [hread] at herror hout
    refine ⟨herror.trans (text_tokens s).1,fun level event => ?_⟩
    rw [hout (text_tokens s).1, (text_tokens s).2]

end

/-- What `strftime` does with a format that has only text and `%%`. -/
private def unescape : List UInt8 → List UInt8
  | [] => []
  | [c] => [c]
  | c :: d :: s => if c = 37 ∧ d = 37 then 37 :: unescape s else c :: unescape (d :: s)

private theorem unescape_double (s : List UInt8) : unescape (double s) = s := by
  induction s with
  | nil => rfl
  | cons c s ih =>
    by_cases hc : c = 37
    · rw [hc, double_percent, unescape, if_pos ⟨rfl,rfl⟩, ih]
    · rw [double_text hc]
      cases hs : double s with
      | nil =>
        rw [hs] at ih
        rw [← ih]
        rfl
      | cons d t => rw [unescape, if_neg (fun h => hc h.1), ← hs, ih]

private def newYear : Strftime := fun fmt _ => if fmt = defaultFormat then bytes "2024-01-01 00:00:00" else unescape fmt

private theorem double_not_default (s : List UInt8) : double s ≠ defaultFormat := by
  intro h
  cases s with
  | nil => cases h
  | cons c s =>
    by_cases hc : c = 37
    · rw [hc, double_percent] at h
      exact absurd (List.cons.inj (List.cons.inj h).2).1 (by decide)
    · rw [double_text hc] at h
      exact hc (List.cons.inj h).1

theorem escaped_plain : (LogFormatter.make (double (bytes "half done"))).isError = false ∧
    ∀ level event, (LogFormatter.make (double (bytes "half done"))).format newYear level event = bytes "half done" := by
  have hcopy : ∀ fmt t, fmt ≠ [] → (newYear (double fmt) t).length ≤ fmt.length := by
    intro fmt t _
    rw [newYear, if_neg (double_not_default fmt), unescape_double]
  have hdefault : ∀ t, 100 ∉ newYear defaultFormat t := by
    intro t
    rw [newYear, if_pos rfl]
    decide
  exact (escaped_iff newYear hcopy hdefault (bytes "half done")).mpr (by decide)

/-- Behind a doubled `%` at the end of the pattern the scanner looks for an item. -/
theorem percent_rejected : ¬ ∀ (strftime : Strftime) (s : List UInt8), (LogFormatter.make (double s)).isError = false ∧
    ∀ level event, (LogFormatter.make (double s)).format strftime level event = s := by
  intro h
  exact absurd (h newYear [37]).1 (by decide +kernel)

end Radixun.Common.Log
