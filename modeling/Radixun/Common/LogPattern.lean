import Radixun.Foundation.TextFrame
import Radixun.Common.Logger

/-! What a formatter writes for an event, and the pattern it is made from read from left to right. -/
namespace Radixun.Common.Log
open Config (bytes)
open Foundation.TextFrame (decimal)

/-- A `LogEvent` with what a formatter reads of it. The logger is there by its name. -/
structure LogEvent where
  file : List UInt8
  line : Int32
  elapse : UInt32
  threadId : UInt32
  fiberId : UInt32
  time : UInt32
  threadName : List UInt8
  content : List UInt8
  loggerName : List UInt8

/-- What `localtime_r` and `strftime` make of a time by a format. -/
abbrev Strftime := List UInt8 → UInt64 → List UInt8

/-- `format` of each class. -/
def FormatItem.format (strftime : Strftime) (level : Level) (event : LogEvent) : FormatItem → List UInt8
  | .message => event.content
  | .level => level.toString
  | .elapse => decimal event.elapse.toNat
  | .name => event.loggerName
  | .threadId => decimal event.threadId.toNat
  | .newLine => [10]
  | .dateTime format => strftime format event.time.toUInt64
  | .filename => event.file
  | .line => decimal event.line.toUInt32.toNat
  | .tab => [9]
  | .fiberId => decimal event.fiberId.toNat
  | .threadName => event.threadName
  | .string str => str

/-- `LogFormatter::format`. -/
def LogFormatter.format (strftime : Strftime) (level : Level) (event : LogEvent) (f : LogFormatter) : List UInt8 :=
  f.items.flatMap (FormatItem.format strftime level event)

/-! The pattern without indices. -/

/-- What the name of an item goes on with. -/
def isNamed (b : UInt8) : Bool := isalpha b || b == 125

structure ItemText where
  str : List UInt8
  fmt : List UInt8
  length : Nat

/-- What is in the braces. -/
def untilBrace (w : List UInt8) : List UInt8 := w.takeWhile (· ≠ 125)

/-- The item that is behind a `%`, or none where a brace is not closed. -/
def itemAt (u : List UInt8) : Option ItemText :=
  let str := u.takeWhile isNamed
  let v := u.dropWhile isNamed
  if v.head? = some 123 then
    if 125 ∈ v then
      some ⟨str,untilBrace v.tail,str.length + (untilBrace v.tail).length + 2⟩
    else none
  else some ⟨str,[],str.length⟩

inductive Token where
  | text (c : UInt8)
  | item (str fmt : List UInt8)
  | unclosed
  deriving DecidableEq

/-- A `%` is text where another one follows, and that one is looked at next. -/
def read : List UInt8 → List Token
  | [] => []
  | c :: rest =>
    if c ≠ 37 ∨ rest.head? = some 37 then .text c :: read rest
    else
      match itemAt rest with
      | none => .unclosed :: read rest
      | some it => .item it.str it.fmt :: read (rest.drop it.length)
termination_by u => u.length
decreasing_by
  · exact Nat.lt_succ_self _
  · exact Nat.lt_succ_self _
  · rw [List.length_drop]
    exact Nat.lt_succ_of_le (Nat.sub_le _ _)

/-- The element of `vec` that it becomes. -/
def Token.piece : Token → Piece
  | .text c => ⟨[c],[],0⟩
  | .item str fmt => ⟨str,fmt,1⟩
  | .unclosed => ⟨bytes "<<pattern_error>>",[],0⟩

def Token.bad : Token → Bool
  | .unclosed => true
  | t => t.piece.item.2

section
variable (strftime : Strftime) (level : Level) (event : LogEvent)

def Piece.output (p : Piece) : List UInt8 := p.item.1.format strftime level event

def Token.output (t : Token) : List UInt8 := t.piece.output strftime level event

/-- What is written for the pattern up to here. -/
def Scan.output (s : Scan) : List UInt8 := s.vec.flatMap (Piece.output strftime level event) ++ s.nstr

end

def Scan.bad (s : Scan) : Bool := s.error || s.vec.any fun p => p.item.2

theorem read_text {c : UInt8} {rest : List UInt8} (h : c ≠ 37 ∨ rest.head? = some 37) : read (c :: rest) = .text c :: read rest := by
  rw [read, if_pos h]

theorem read_item {rest : List UInt8} {it : ItemText} (h : rest.head? ≠ some 37) (hit : itemAt rest = some it) :
    read (37 :: rest) = .item it.str it.fmt :: read (rest.drop it.length) := by
  rw [read, if_neg (not_or.mpr ⟨not_not.mpr rfl,h⟩), hit]

theorem read_unclosed {rest : List UInt8} (h : rest.head? ≠ some 37) (hit : itemAt rest = none) :
    read (37 :: rest) = .unclosed :: read rest := by
  rw [read, if_neg (not_or.mpr ⟨not_not.mpr rfl,h⟩), hit]

theorem untilBrace_cons {c : UInt8} (h : c ≠ 125) (w : List UInt8) : untilBrace (c :: w) = c :: untilBrace w :=
  List.takeWhile_cons_of_pos (decide_eq_true h)

theorem untilBrace_closed (w : List UInt8) : untilBrace (125 :: w) = [] := List.takeWhile_cons_of_neg (by decide)

/-- The closing brace is not in what is taken. -/
theorem untilBrace_length {w : List UInt8} (h : 125 ∈ w) : (untilBrace w).length < w.length := by
  have hpre : (untilBrace w).IsPrefix w := List.takeWhile_prefix _
  apply Nat.lt_of_le_of_ne hpre.length_le
  intro heq
  exact absurd (List.mem_takeWhile_imp ((hpre.eq_of_length heq).symm ▸ h)) (by decide)

/-- A name ends where something else stands. -/
theorem itemAt_append {str v : List UInt8} (hstr : ∀ c ∈ str, isNamed c = true) (hv : ∀ c, v.head? = some c → isNamed c = false) :
    (str ++ v).takeWhile isNamed = str ∧ (str ++ v).dropWhile isNamed = v := by
  rw [List.takeWhile_append_of_pos hstr, List.dropWhile_append_of_pos hstr]
  cases v with
  | nil => exact ⟨List.append_nil str,rfl⟩
  | cons c v =>
    have hc : ¬ isNamed c = true := by rw [hv c rfl]; exact Bool.false_ne_true
    rw [List.takeWhile_cons_of_neg hc, List.dropWhile_cons_of_neg hc]
    exact ⟨List.append_nil str,rfl⟩

theorem itemAt_stop {str v : List UInt8} (hstr : ∀ c ∈ str, isNamed c = true) (hv : ∀ c, v.head? = some c → isNamed c = false ∧ c ≠ 123) :
    itemAt (str ++ v) = some ⟨str,[],str.length⟩ := by
  obtain ⟨htake,hdrop⟩ := itemAt_append hstr (fun c hc => (hv c hc).1)
  rw [itemAt, htake, hdrop]
  exact if_neg fun h => (hv 123 h).2 rfl

theorem itemAt_open {str : List UInt8} (hstr : ∀ c ∈ str, isNamed c = true) (w : List UInt8) :
    itemAt (str ++ 123 :: w) = if 125 ∈ w then some ⟨str,untilBrace w,str.length + (untilBrace w).length + 2⟩ else none := by
  have hbrace : ∀ c, (123 :: w).head? = some c → isNamed c = false := by
    intro c hc
    cases hc
    decide
  obtain ⟨htake,hdrop⟩ := itemAt_append hstr hbrace
  have hmem : (125 : UInt8) ∈ 123 :: w ↔ 125 ∈ w := ⟨fun h => (List.mem_cons.mp h).resolve_left (by decide),List.mem_cons_of_mem 123⟩
  rw [itemAt, htake, hdrop]
  refine (if_pos (rfl : (123 :: w).head? = some 123)).trans ?_
  change (if 125 ∈ 123 :: w then some (⟨str,untilBrace w,str.length + (untilBrace w).length + 2⟩ : ItemText) else none) = _
  simp only [hmem]

theorem itemAt_length {u : List UInt8} {it : ItemText} (h : itemAt u = some it) : it.length ≤ u.length := by
  have hsplit : (u.takeWhile isNamed).length + (u.dropWhile isNamed).length = u.length := by
    rw [← List.length_append, List.takeWhile_append_dropWhile]
  unfold itemAt at h
  dsimp only at h
  split_ifs at h with hopen hclosed
  · cases h
    obtain ⟨w,hw⟩ := List.head?_eq_some_iff.mp hopen
    rw [hw] at hclosed hsplit ⊢
    have hin : (125 : UInt8) ∈ w := (List.mem_cons.mp hclosed).resolve_left (by decide)
    have hlt := untilBrace_length hin
    change _ + (untilBrace w).length + 2 ≤ _
    rw [List.length_cons] at hsplit
    omega
  · cases h
    exact Nat.le.intro hsplit

variable {pattern : List UInt8} {i : Nat}

/-- What the inner loop is to find behind the `%` at an index. -/
def ItemScan.Finds (i : Nat) (u : List UInt8) (s : ItemScan) : Prop :=
  (s.fmtStatus = true ∧ itemAt u = none) ∨
    ∃ it, s.fmtStatus = false ∧ itemAt u = some it ∧ s.str = it.str ∧ s.fmt = it.fmt ∧ s.n = i + 1 + it.length

theorem substr_done {done rest : List UInt8} {pos : Nat} (h : pattern.drop pos = done ++ rest) (hpos : pos ≤ pattern.length) :
    substr pattern pos done.length = some done := by
  rw [substr_within hpos, h, List.take_left']
  rfl

theorem getElem?_done {done rest : List UInt8} {pos : Nat} {c : UInt8} (h : pattern.drop pos = done ++ c :: rest) :
    pattern[pos + done.length]? = some c := by
  rw [← List.getElem?_drop, h, List.getElem?_append_right (Nat.le_refl _), Nat.sub_self]
  rfl

theorem length_done {done rest : List UInt8} {pos : Nat} (h : pattern.drop pos = done ++ rest) (hpos : pos ≤ pattern.length) :
    pattern.length = pos + done.length + rest.length := by
  have hlen := congrArg List.length h
  rw [List.length_drop, List.length_append] at hlen
  omega

theorem not_stop {c : UInt8} (h : isNamed c = true) : (!isalpha c && c != 123 && c != 125) = false ∧ (c == 123) = false := by
  rcases Bool.or_eq_true_iff.mp h with ha | hb
  · refine ⟨by rw [ha]; rfl,beq_false_of_ne ?_⟩
    rintro rfl
    exact absurd ha (by decide)
  · rw [eq_of_beq hb]
    decide

namespace ItemScan
variable {str done rest : List UInt8} {b n : Nat} {c : UInt8}

/-- The closing brace ends the loop. -/
theorem turn_close (hb : b + 1 ≤ pattern.length) (h : pattern.drop (b + 1) = done ++ rest) :
    turn pattern i 125 ⟨b + 1 + done.length,true,b,str,[]⟩ = some (.inl ⟨b + 1 + done.length + 1,false,b,str,done⟩) := by
  have hsub : substr pattern (b + 1) (b + 1 + done.length - b - 1) = some done := by
    rw [show b + 1 + done.length - b - 1 = done.length by omega]
    exact substr_done h hb
  change (substr pattern (b + 1) (b + 1 + done.length - b - 1)).map _ = _
  rw [hsub]
  rfl

/-- A character in the braces is skipped. The name is changed at the end of the pattern only. -/
theorem turn_inside (hi : i + 1 ≤ pattern.length) (hc : c ≠ 125) :
    ∃ str', turn pattern i c ⟨n,true,b,str,[]⟩ = some (.inr ⟨n + 1,true,b,str',[]⟩) ∧ (n + 1 ≠ pattern.length → str' = str) := by
  have hne : (c == 125) = false := beq_false_of_ne hc
  simp only [turn, hne, Bool.not_true, Bool.false_and, Bool.and_false, Bool.false_eq_true, if_false]
  rw [advance]
  split
  · rename_i hend
    rw [substr_within hi]
    exact ⟨_,rfl,fun hlast => absurd hend.1 hlast⟩
  · exact ⟨str,rfl,fun _ => rfl⟩

theorem substr_name (hi : i + 1 ≤ pattern.length) (h : pattern.drop (i + 1) = done ++ rest) :
    substr pattern (i + 1) (i + 1 + done.length - i - 1) = some done := by
  rw [show i + 1 + done.length - i - 1 = done.length by omega]
  exact substr_done h hi

/-- A character of the name is skipped; at the end of the pattern the name is taken. -/
theorem turn_named (hi : i + 1 ≤ pattern.length) (h : pattern.drop (i + 1) = done ++ c :: rest) (hnamed : isNamed c = true) :
    turn pattern i c ⟨i + 1 + done.length,false,0,[],[]⟩ =
      some (.inr ⟨i + 1 + (done ++ [c]).length,false,0,if rest = [] then done ++ [c] else [],[]⟩) := by
  have hlen := length_done h hi
  have hwhole : substr pattern (i + 1) pattern.length = some (done ++ c :: rest) := by
    rw [substr_within hi, h, List.take_of_length_le]
    rw [← h, List.length_drop]
    exact Nat.sub_le _ _
  obtain ⟨hstop,hopen⟩ := not_stop hnamed
  simp only [turn, hstop, hopen, Bool.not_false, Bool.true_and, Bool.false_and, Bool.false_eq_true, if_false]
  rw [List.length_cons] at hlen
  rw [advance, List.length_append, List.length_singleton]
  by_cases hrest : rest = []
  · subst hrest
    rw [if_pos ⟨by dsimp only; rw [hlen, List.length_nil],rfl⟩, hwhole, if_pos rfl]
    rfl
  · have hpos := List.length_pos_iff.mpr hrest
    rw [if_neg (by dsimp only; omega), if_neg hrest]
    rfl

/-- An opening brace ends the name. -/
theorem turn_open (hi : i + 1 ≤ pattern.length) (h : pattern.drop (i + 1) = done ++ rest) :
    turn pattern i 123 ⟨i + 1 + done.length,false,0,[],[]⟩ =
      some (.inr ⟨i + 1 + done.length + 1,true,i + 1 + done.length,done,[]⟩) := by
  change (substr pattern (i + 1) (i + 1 + done.length - i - 1)).map _ = _
  rw [substr_name hi h]
  rfl

/-- So does any other character, which is left. -/
theorem turn_stop (hi : i + 1 ≤ pattern.length) (h : pattern.drop (i + 1) = done ++ rest) (hnamed : isNamed c = false) (hopen : c ≠ 123) :
    turn pattern i c ⟨i + 1 + done.length,false,0,[],[]⟩ = some (.inl ⟨i + 1 + done.length,false,0,done,[]⟩) := by
  obtain ⟨halpha,hclose⟩ := Bool.or_eq_false_iff.mp hnamed
  have hstop : (!isalpha c && c != 123 && c != 125) = true := by
    rw [halpha, Bool.not_false, Bool.true_and, Bool.and_eq_true]
    exact ⟨bne_iff_ne.mpr hopen,by rw [bne, hclose]; rfl⟩
  simp only [turn, hstop, substr_name hi h, Bool.not_false, Bool.true_and, if_true, Option.map_some]

/-- Inside of the braces the loop goes on to the closing one. -/
theorem loop_braces {fuel : Nat} (hb : b + 1 ≤ pattern.length) (h : pattern.drop (b + 1) = done ++ rest) (hi : i + 1 ≤ pattern.length)
    (hf : rest.length < fuel) :
    ∃ s, loop pattern i fuel ⟨b + 1 + done.length,true,b,str,[]⟩ = some s ∧
      if 125 ∈ rest then s = ⟨b + 1 + done.length + (untilBrace rest).length + 1,false,b,str,done ++ untilBrace rest⟩
      else s.fmtStatus = true := by
  induction rest generalizing str done fuel with
  | nil =>
    obtain ⟨fuel,rfl⟩ := Nat.exists_eq_succ_of_ne_zero (Nat.ne_of_gt hf)
    have hlen := length_done h hb
    rw [List.length_nil, Nat.add_zero] at hlen
    rw [loop, if_neg (by dsimp only; omega)]
    exact ⟨_,rfl,rfl⟩
  | cons c rest ih =>
    obtain ⟨fuel,rfl⟩ := Nat.exists_eq_succ_of_ne_zero (Nat.ne_of_gt (Nat.zero_lt_of_lt hf))
    have hlen := length_done h hb
    rw [List.length_cons] at hlen hf
    rw [loop, if_pos (by dsimp only; omega)]
    simp only [getElem?_done h]
    by_cases hc : c = 125
    · subst hc
      rw [turn_close hb h]
      refine ⟨_,rfl,?_⟩
      rw [if_pos List.mem_cons_self, untilBrace_closed, List.append_nil]
      rfl
    · have hmem : (125 : UInt8) ∈ c :: rest ↔ 125 ∈ rest :=
      ⟨fun hin => (List.mem_cons.mp hin).resolve_left (Ne.symm hc),List.mem_cons_of_mem c⟩
      obtain ⟨str',hturn,hstr⟩ := @turn_inside pattern i str b (b + 1 + done.length) c hi hc
      have hdone : b + 1 + done.length + 1 = b + 1 + (done ++ [c]).length := by
        rw [List.length_append, List.length_singleton, Nat.add_assoc]
      obtain ⟨s,hs,hcase⟩ := @ih str' (done ++ [c]) fuel (by rw [h, List.append_assoc]; rfl) (by omega)
      rw [hturn]
      dsimp only
      rw [hdone, hs]
      refine ⟨s,rfl,?_⟩
      by_cases hin : 125 ∈ rest
      · rw [if_pos hin] at hcase
        have hlength : (done ++ [c]).length = done.length + 1 := List.length_append
        -- a brace is left, so this is not the end of the pattern
        have hpos := List.length_pos_of_mem hin
        rw [if_pos (hmem.mpr hin), hcase, hstr (by omega), untilBrace_cons hc, hlength, List.length_cons, List.append_assoc]
        congr 1
        omega
      · rw [if_neg hin] at hcase
        rw [if_neg (fun h => hin (hmem.mp h))]
        exact hcase

/-- Behind the `%` the loop finds the item that is there. -/
theorem loop_finds {fuel : Nat} (hi : i + 1 ≤ pattern.length) (h : pattern.drop (i + 1) = done ++ rest)
    (hdone : ∀ c ∈ done, isNamed c = true) (hf : rest.length < fuel) :
    ∃ s, loop pattern i fuel ⟨i + 1 + done.length,false,0,if rest = [] then done else [],[]⟩ = some s ∧ s.Finds i (done ++ rest) := by
  induction rest generalizing done fuel with
  | nil =>
    obtain ⟨fuel,rfl⟩ := Nat.exists_eq_succ_of_ne_zero (Nat.ne_of_gt hf)
    have hlen := length_done h hi
    rw [List.length_nil, Nat.add_zero] at hlen
    rw [loop, if_neg (by dsimp only; omega), if_pos rfl]
    exact ⟨_,rfl,.inr ⟨_,rfl,itemAt_stop hdone (fun c hc => (by cases hc)),rfl,rfl,rfl⟩⟩
  | cons c rest ih =>
    obtain ⟨fuel,rfl⟩ := Nat.exists_eq_succ_of_ne_zero (Nat.ne_of_gt (Nat.zero_lt_of_lt hf))
    have hlen := length_done h hi
    rw [List.length_cons] at hlen hf
    rw [loop, if_pos (by dsimp only; omega), if_neg (List.cons_ne_nil c rest)]
    simp only [getElem?_done h]
    by_cases hnamed : isNamed c = true
    · have hmore : ∀ x ∈ done ++ [c], isNamed x = true := by
        intro x hx
        rcases List.mem_append.mp hx with hx | hx
        · exact hdone x hx
        · exact List.mem_singleton.mp hx ▸ hnamed
      rw [turn_named hi h hnamed]
      dsimp only
      obtain ⟨s,hs,hfinds⟩ := @ih (done ++ [c]) fuel (by rw [h, List.append_assoc]; rfl) hmore (by omega)
      refine ⟨s,hs,?_⟩
      rw [List.append_assoc] at hfinds
      exact hfinds
    · rw [Bool.not_eq_true] at hnamed
      by_cases hopen : c = 123
      · subst hopen
        have hdrop : pattern.drop (i + 1 + done.length + 1) = [] ++ rest := by
          rw [Nat.add_assoc (i + 1), ← List.drop_drop, h, ← List.drop_drop, List.drop_left']
          · rfl
          · rfl
        rw [turn_open hi h]
        dsimp only
        obtain ⟨s,hs,hcase⟩ := @loop_braces pattern i done [] rest (i + 1 + done.length) fuel (by omega) hdrop hi (by omega)
        refine ⟨s,hs,?_⟩
        have hitem := itemAt_open hdone rest
        by_cases hin : 125 ∈ rest
        · rw [if_pos hin] at hcase hitem
          refine .inr ⟨_,by rw [hcase],hitem,by rw [hcase],by rw [hcase]; rfl,?_⟩
          rw [hcase]
          dsimp only [List.length_nil]
          omega
        · rw [if_neg hin] at hcase hitem
          exact .inl ⟨hcase,hitem⟩
      · have hstop : ∀ c', (c :: rest).head? = some c' → isNamed c' = false ∧ c' ≠ 123 := by
          intro c' hc'
          cases hc'
          exact ⟨hnamed,hopen⟩
        rw [turn_stop hi h hnamed hopen]
        exact ⟨_,rfl,.inr ⟨_,rfl,itemAt_stop hdone hstop,rfl,rfl,rfl⟩⟩

end ItemScan

theorem Scan.flush_nstr (s : Scan) : s.flush.nstr = [] := by
  rw [flush]
  split
  · assumption
  · rfl

theorem Scan.flush_bad (s : Scan) : s.flush.bad = s.bad := by
  rw [flush]
  split
  · rfl
  · rw [bad, bad, List.any_append]
    exact congrArg (s.error || ·) (Bool.or_false _)

theorem Scan.flush_output (s : Scan) (strftime : Strftime) (level : Level) (event : LogEvent) :
    s.flush.output strftime level event = s.output strftime level event := by
  rw [flush]
  split
  · rfl
  · rw [output, output, List.flatMap_append, List.flatMap_singleton, List.append_nil]
    rfl

/-- An item, or the text of an error, behind what is there. The error comes before text that is waiting. -/
theorem Scan.addItem_token {u : List UInt8} {item : ItemScan} (s : Scan) (h : item.Finds i u) :
    (itemAt u = none ∧ (s.addItem i item).1 = i ∧ (s.addItem i item).2.bad = true) ∨
    ∃ it, itemAt u = some it ∧ (s.addItem i item).1 = i + it.length ∧
      (s.addItem i item).2.bad = (s.bad || (Token.item it.str it.fmt).bad) ∧
      ∀ strftime level event, (s.addItem i item).2.output strftime level event =
        s.output strftime level event ++ (Token.item it.str it.fmt).output strftime level event := by
  obtain ⟨hopen,hnone⟩ | ⟨it,hclosed,hsome,hstr,hfmt,hn⟩ := h
  · refine .inl ⟨hnone,?_,?_⟩
    · rw [addItem, if_pos hopen]
    · rw [addItem, if_pos hopen]
      rfl
  · have hadd : s.addItem i item = (i + it.length,{ s.flush with vec := s.flush.vec ++ [⟨it.str,it.fmt,1⟩] }) := by
      rw [addItem, if_neg (by rw [hclosed]; exact Bool.false_ne_true), hstr, hfmt, hn, Nat.add_right_comm, Nat.add_sub_cancel]
    rw [hadd]
    refine .inr ⟨it,hsome,rfl,?_,?_⟩
    · rw [← s.flush_bad, bad, bad, List.any_append, ← Bool.or_assoc]
      exact congrArg (_ || ·) (Bool.or_false _)
    · intro strftime level event
      rw [← s.flush_output, output, output, s.flush_nstr, List.flatMap_append, List.flatMap_singleton, List.append_nil, List.append_nil]
      rfl

theorem Scan.text_output (s : Scan) (c : UInt8) (strftime : Strftime) (level : Level) (event : LogEvent) :
    ({ s with nstr := s.nstr ++ [c] } : Scan).output strftime level event =
      s.output strftime level event ++ (Token.text c).output strftime level event := by
  rw [output, output, List.append_assoc]
  rfl

/-- One turn at the character behind `pre`: a character of text, or an item. -/
theorem Scan.turn_token (pre : List UInt8) (c : UInt8) (rest : List UInt8) (s : Scan) :
    (∃ s', (c ≠ 37 ∨ rest.head? = some 37) ∧ s.turn (pre ++ c :: rest) pre.length = some (pre.length,s') ∧
      s' = { s with nstr := s.nstr ++ [c] }) ∨
    ∃ item : ItemScan, c = 37 ∧ rest.head? ≠ some 37 ∧ item.Finds pre.length rest ∧
      s.turn (pre ++ c :: rest) pre.length = some (s.addItem pre.length item) := by
  have hat : (pre ++ c :: rest)[pre.length]? = some c := by
    rw [List.getElem?_append_right (Nat.le_refl _), Nat.sub_self]
    rfl
  have hdrop : (pre ++ c :: rest).drop (pre.length + 1) = [] ++ rest := by
    rw [← List.drop_drop, List.drop_left]
    rfl
  have hnext : (pre ++ c :: rest)[pre.length + 1]? = rest.head? := by
    rw [← List.head?_drop, hdrop]
    rfl
  rw [turn, hat]
  dsimp only
  rw [hnext]
  by_cases hc : c = 37
  · by_cases hr : rest.head? = some 37
    · subst hc
      rw [if_neg (not_not.mpr rfl), if_pos hr]
      exact .inl ⟨_,.inr hr,rfl,rfl⟩
    · have hlength : pre.length + 1 ≤ (pre ++ c :: rest).length := by
        rw [List.length_append, List.length_cons]
        omega
      have hfuel : rest.length < (pre ++ c :: rest).length + 1 := by
        rw [List.length_append, List.length_cons]
        omega
      obtain ⟨item,hitem,hfinds⟩ := ItemScan.loop_finds hlength hdrop (fun c hc => by cases hc) hfuel
      rw [ite_self] at hitem
      rw [if_neg (not_not.mpr hc), if_neg hr]
      refine .inr ⟨item,hc,hr,hfinds,?_⟩
      exact congrArg (Option.map _) hitem
  · rw [if_pos hc]
    exact .inl ⟨_,.inl hc,rfl,rfl⟩

/-- The place behind `n` more characters. -/
theorem exists_behind (pre : List UInt8) (c : UInt8) {rest : List UInt8} {n : Nat} (hn : n ≤ rest.length) :
    ∃ pre' : List UInt8, pre'.length = pre.length + n + 1 ∧ pre ++ c :: rest = pre' ++ rest.drop n := by
  refine ⟨pre ++ c :: rest.take n,?_,?_⟩
  · rw [List.length_append, List.length_cons, List.length_take, Nat.min_eq_left hn, Nat.add_assoc]
  · rw [List.append_assoc, List.cons_append, List.take_append_drop]

/-- The outer loop from a place on reads what is behind it. -/
theorem Scan.loop_reads (pre rest : List UInt8) (s : Scan) (fuel : Nat) (hf : rest.length < fuel) :
    ∃ s', loop (pre ++ rest) fuel pre.length s = some s' ∧ s'.bad = (s.bad || (read rest).any Token.bad) ∧
      (s'.bad = false → ∀ strftime level event, s'.output strftime level event =
        s.output strftime level event ++ (read rest).flatMap (Token.output strftime level event)) := by
  induction fuel generalizing pre rest s with
  | zero => exact absurd hf (Nat.not_lt_zero _)
  | succ fuel ih =>
    cases rest with
    | nil =>
      rw [List.append_nil, loop, if_neg (Nat.lt_irrefl _), read, List.any_nil, Bool.or_false]
      exact ⟨s,rfl,rfl,fun _ _ _ _ => (List.append_nil _).symm⟩
    | cons c rest =>
      rw [List.length_cons] at hf
      have hin : pre.length < (pre ++ c :: rest).length := by
        rw [List.length_append, List.length_cons]
        omega
      rw [loop, if_pos hin]
      obtain ⟨s₁,htext,hturn,rfl⟩ | ⟨item,hc,hr,hfinds,hturn⟩ := turn_token pre c rest s
      · obtain ⟨pre',hlen,heq⟩ := exists_behind pre c (Nat.zero_le rest.length)
        obtain ⟨s',hs,hbad,hout⟩ := ih pre' rest { s with nstr := s.nstr ++ [c] } (by omega)
        simp only [hturn]
        rw [List.drop_zero] at heq
        rw [heq, show pre.length + 1 = pre'.length from hlen.symm, hs]
        refine ⟨s',rfl,?_,?_⟩
        · rw [hbad, read_text htext]
          rfl
        · intro hfine strftime level event
          rw [hout hfine, s.text_output, read_text htext, List.flatMap_cons, List.append_assoc]
      · subst hc
        obtain ⟨hnone,hindex,hbad₁⟩ | ⟨it,hsome,hindex,hbad₁,hout₁⟩ := s.addItem_token hfinds
        · obtain ⟨pre',hlen,heq⟩ := exists_behind pre 37 (Nat.zero_le rest.length)
          obtain ⟨s',hs,hbad,-⟩ := ih pre' rest (s.addItem pre.length item).2 (by omega)
          rw [hbad₁, Bool.true_or] at hbad
          simp only [hturn]
          rw [List.drop_zero] at heq
          rw [hindex, heq, show pre.length + 1 = pre'.length from hlen.symm, hs]
          refine ⟨s',rfl,?_,?_⟩
          · rw [hbad, read_unclosed hr hnone]
            exact (Bool.or_true _).symm
          · intro hfine
            rw [hbad] at hfine
            cases hfine
        · obtain ⟨pre',hlen,heq⟩ := exists_behind pre 37 (itemAt_length hsome)
          obtain ⟨s',hs,hbad,hout⟩ := ih pre' (rest.drop it.length) (s.addItem pre.length item).2 (by rw [List.length_drop]; omega)
          simp only [hturn]
          rw [hindex, heq, ← hlen, hs]
          refine ⟨s',rfl,?_,?_⟩
          · rw [hbad, hbad₁, read_item hr hsome, List.any_cons, Bool.or_assoc]
          · intro hfine strftime level event
            rw [hout hfine, hout₁, read_item hr hsome, List.flatMap_cons, List.append_assoc]

/-- A formatter is an error if something bad is read, and else it writes what is read in order. -/
theorem make_reads (pattern : List UInt8) : (LogFormatter.make pattern).isError = (read pattern).any Token.bad ∧
    ((read pattern).any Token.bad = false → ∀ strftime level event,
      (LogFormatter.make pattern).format strftime level event = (read pattern).flatMap (Token.output strftime level event)) := by
  obtain ⟨s,hs,hbad,hout⟩ := Scan.loop_reads [] pattern ⟨[],[],false⟩ (pattern.length + 1) (Nat.lt_succ_self _)
  have hinit : init pattern = some (s.flush.vec.map fun p => p.item.1,s.flush.bad) := by
    rw [init, scan]
    change ((Scan.loop ([] ++ pattern) (pattern.length + 1) 0 ⟨[],[],false⟩).map Scan.flush).map _ = _
    rw [show Scan.loop ([] ++ pattern) (pattern.length + 1) 0 ⟨[],[],false⟩ = some s from hs]
    rfl
  have hmake : LogFormatter.make pattern = ⟨pattern,s.flush.vec.map fun p => p.item.1,s.flush.bad⟩ := by
    rw [LogFormatter.make]
    simp only [hinit]
    rfl
  rw [hmake]
  dsimp only
  rw [s.flush_bad, hbad]
  refine ⟨rfl,fun hfine strftime level event => ?_⟩
  have hwritten := hout (hbad.trans hfine) strftime level event
  rw [LogFormatter.format, List.flatMap_map, ← List.nil_append (List.flatMap _ (read pattern))]
  rw [← s.flush_output, Scan.output, s.flush_nstr, List.append_nil] at hwritten
  exact hwritten

end Radixun.Common.Log
