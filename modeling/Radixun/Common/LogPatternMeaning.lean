import Mathlib.Data.List.Chain
import Radixun.Common.LogPattern

/-! What a pattern means that is put together from text and items. -/
namespace Radixun.Common.Log
open Config (bytes)

/-- The items by what they stand for. -/
inductive ItemKey where
  | message | level | elapse | name | threadId | newLine | dateTime | filename | line | tab | fiberId | threadName
  deriving DecidableEq

namespace ItemKey

def letter : ItemKey → UInt8
  | message => 109
  | level => 112
  | elapse => 114
  | name => 99
  | threadId => 116
  | newLine => 110
  | dateTime => 100
  | filename => 102
  | line => 108
  | tab => 84
  | fiberId => 70
  | threadName => 78

def item (fmt : List UInt8) : ItemKey → FormatItem
  | message => .message
  | level => .level
  | elapse => .elapse
  | name => .name
  | threadId => .threadId
  | newLine => .newLine
  | dateTime => .mkDateTime fmt
  | filename => .filename
  | line => .line
  | tab => .tab
  | fiberId => .fiberId
  | threadName => .threadName

end ItemKey

inductive Part where
  | literal (text : List UInt8)
  | item (key : ItemKey) (fmt : Option (List UInt8))

namespace Part

def text : Part → List UInt8
  | literal text => text
  | item key none => [37,key.letter]
  | item key (some fmt) => 37 :: key.letter :: 123 :: fmt ++ [125]

/-- What a part stands for in the line of an event. -/
def meaning (strftime : Strftime) (level : Level) (event : LogEvent) : Part → List UInt8
  | literal text => text
  | item key fmt => (key.item (fmt.getD [])).format strftime level event

def Fine : Part → Prop
  | literal text => text ≠ [] ∧ 37 ∉ text
  | item _ none => True
  | item _ (some fmt) => 125 ∉ fmt

/-- Text directly behind an item without braces does not go on with its name. -/
def Parted : Part → Part → Prop
  | item _ none, literal text => (text.head?.all fun c => !isalpha c && c != 123 && c != 125) = true
  | _, _ => True

instance decidableFine : (p : Part) → Decidable p.Fine
  | literal text => inferInstanceAs (Decidable (text ≠ [] ∧ 37 ∉ text))
  | item _ none => inferInstanceAs (Decidable True)
  | item _ (some fmt) => inferInstanceAs (Decidable (125 ∉ fmt))

instance decidableParted : (p q : Part) → Decidable (Parted p q)
  | item _ none, literal text => inferInstanceAs (Decidable ((text.head?.all fun c => !isalpha c && c != 123 && c != 125) = true))
  | literal _, _ | item _ (some _), _ | _, item _ _ => isTrue (by simp [Parted])

end Part

/-- The pattern of the parts. -/
def pattern (parts : List Part) : List UInt8 := parts.flatMap Part.text

structure WellFormed (parts : List Part) : Prop where
  fine : ∀ p ∈ parts, p.Fine
  parted : parts.IsChain Part.Parted

theorem letter_named (key : ItemKey) : ∀ c ∈ [key.letter], isNamed c = true := by
  intro c hc
  rw [List.mem_singleton.mp hc]
  cases key <;> decide

theorem letter_not_percent (key : ItemKey) (rest : List UInt8) : (key.letter :: rest).head? ≠ some 37 := by
  cases key <;> exact fun h => absurd (Option.some.inj h) (by decide)

/-- The letter is in the table, under the item it stands for. -/
theorem piece_letter (key : ItemKey) (fmt : List UInt8) : (⟨[key.letter],fmt,1⟩ : Piece).item = (key.item fmt,false) := by
  cases key <;> rfl

theorem token_item (key : ItemKey) (fmt : List UInt8) : (Token.item [key.letter] fmt).bad = false ∧
    ∀ strftime level event, (Token.item [key.letter] fmt).output strftime level event = (key.item fmt).format strftime level event := by
  constructor
  · exact congrArg Prod.snd (piece_letter key fmt)
  · intro strftime level event
    exact congrArg (fun r : FormatItem × Bool => r.1.format strftime level event) (piece_letter key fmt)

theorem read_literal {text : List UInt8} (h : 37 ∉ text) (rest : List UInt8) : read (text ++ rest) = text.map .text ++ read rest := by
  induction text with
  | nil => rfl
  | cons c text ih =>
    obtain ⟨hc,ht⟩ := List.ne_and_not_mem_of_not_mem_cons h
    rw [List.cons_append, read_text (.inl (Ne.symm hc)), ih ht]
    rfl

theorem text_tokens (text : List UInt8) : (text.map Token.text).any Token.bad = false ∧
    ∀ strftime level event, (text.map Token.text).flatMap (Token.output strftime level event) = text := by
  induction text with
  | nil => exact ⟨rfl,fun _ _ _ => rfl⟩
  | cons c text ih =>
    refine ⟨ih.1,fun strftime level event => ?_⟩
    rw [List.map_cons, List.flatMap_cons, ih.2]
    rfl

theorem read_bare (key : ItemKey) {rest : List UInt8} (h : ∀ c, rest.head? = some c → isNamed c = false ∧ c ≠ 123) :
    read (37 :: key.letter :: rest) = .item [key.letter] [] :: read rest :=
  read_item (letter_not_percent key rest) (itemAt_stop (letter_named key) h)

theorem untilBrace_append {fmt : List UInt8} (h : 125 ∉ fmt) (rest : List UInt8) : untilBrace (fmt ++ 125 :: rest) = fmt := by
  induction fmt with
  | nil => exact untilBrace_closed rest
  | cons c fmt ih =>
    obtain ⟨hc,hf⟩ := List.ne_and_not_mem_of_not_mem_cons h
    rw [List.cons_append, untilBrace_cons (Ne.symm hc), ih hf]

theorem read_braces (key : ItemKey) {fmt : List UInt8} (h : 125 ∉ fmt) (rest : List UInt8) :
    read (37 :: key.letter :: 123 :: (fmt ++ 125 :: rest)) = .item [key.letter] fmt :: read rest := by
  have hin : (125 : UInt8) ∈ fmt ++ 125 :: rest := List.mem_append_right fmt List.mem_cons_self
  have hitem := itemAt_open (letter_named key) (fmt ++ 125 :: rest)
  rw [if_pos hin, untilBrace_append h] at hitem
  have hdrop : (key.letter :: 123 :: (fmt ++ 125 :: rest)).drop ([key.letter].length + fmt.length + 2) = rest := by
    rw [show [key.letter].length + fmt.length + 2 = fmt.length + 1 + 1 + 1 by rw [List.length_singleton]; omega]
    rw [List.drop_succ_cons, List.drop_succ_cons, ← List.drop_drop, List.drop_left]
    rfl
  have hread : read (37 :: key.letter :: 123 :: (fmt ++ 125 :: rest)) = .item [key.letter] fmt ::
      read ((key.letter :: 123 :: (fmt ++ 125 :: rest)).drop ([key.letter].length + fmt.length + 2)) :=
    read_item (letter_not_percent key _) hitem
  rw [hread, hdrop]

/-- What stands behind an item without braces ends its name. -/
theorem pattern_parted {key : ItemKey} {parts : List Part} (h : WellFormed (.item key none :: parts)) :
    ∀ c, (pattern parts).head? = some c → isNamed c = false ∧ c ≠ 123 := by
  intro c hc
  cases parts with
  | nil => cases hc
  | cons p parts =>
    have hfine := h.fine p (List.mem_cons_of_mem _ List.mem_cons_self)
    have hparted := (List.isChain_cons_cons.mp h.parted).1
    cases p with
    | literal text =>
      obtain ⟨c',text',rfl⟩ := List.exists_cons_of_ne_nil hfine.1
      cases hc
      have hends : isalpha c = false ∧ c ≠ 123 ∧ c ≠ 125 := by
        simpa [Part.Parted, and_assoc] using hparted
      obtain ⟨halpha,hopen,hclose⟩ := hends
      exact ⟨by rw [isNamed, halpha, beq_false_of_ne hclose]; rfl,hopen⟩
    | item key' fmt =>
      have hpercent : c = 37 := by cases fmt <;> cases hc <;> rfl
      rw [hpercent]
      decide

theorem WellFormed.tail {p : Part} {parts : List Part} (h : WellFormed (p :: parts)) : WellFormed parts :=
  ⟨fun q hq => h.fine q (List.mem_cons_of_mem p hq),h.parted.tail⟩

/-- The parts are read in order, each for what it means. -/
theorem read_pattern {parts : List Part} (h : WellFormed parts) : (read (pattern parts)).any Token.bad = false ∧
    ∀ strftime level event, (read (pattern parts)).flatMap (Token.output strftime level event) =
      parts.flatMap (Part.meaning strftime level event) := by
  induction parts with
  | nil =>
    rw [show pattern [] = [] from rfl, read]
    exact ⟨rfl,fun _ _ _ => rfl⟩
  | cons p parts ih =>
    obtain ⟨hbad,hout⟩ := ih h.tail
    have hfine := h.fine p List.mem_cons_self
    cases p with
    | literal text =>
      obtain ⟨htext,hwritten⟩ := text_tokens text
      rw [show pattern (.literal text :: parts) = text ++ pattern parts from rfl, read_literal hfine.2]
      refine ⟨by rw [List.any_append, htext, hbad]; rfl,fun strftime level event => ?_⟩
      rw [List.flatMap_append, hwritten, hout, List.flatMap_cons]
      rfl
    | item key fmt =>
      obtain ⟨htext,hwritten⟩ := token_item key (fmt.getD [])
      have hread : read (pattern (.item key fmt :: parts)) = .item [key.letter] (fmt.getD []) :: read (pattern parts) := by
        cases fmt with
        | none => exact read_bare key (pattern_parted h)
        | some fmt =>
          have htext : pattern (.item key (some fmt) :: parts) = 37 :: key.letter :: 123 :: (fmt ++ 125 :: pattern parts) := by
            change (37 :: key.letter :: 123 :: fmt ++ [125]) ++ pattern parts = _
            rw [List.append_assoc]
            rfl
          rw [htext]
          exact read_braces key hfine (pattern parts)
      rw [hread]
      refine ⟨by rw [List.any_cons, htext, hbad]; rfl,fun strftime level event => ?_⟩
      rw [List.flatMap_cons, hwritten, hout, List.flatMap_cons]
      rfl

/-- A formatter made from well-formed parts is no error, and writes for every event what the parts mean, in order. -/
theorem format_pattern (parts : List Part) (h : WellFormed parts) : (LogFormatter.make (pattern parts)).isError = false ∧
    ∀ strftime level event, (LogFormatter.make (pattern parts)).format strftime level event =
      parts.flatMap (Part.meaning strftime level event) := by
  obtain ⟨hbad,hout⟩ := read_pattern h
  obtain ⟨herror,hwritten⟩ := make_reads (pattern parts)
  refine ⟨herror.trans hbad,fun strftime level event => ?_⟩
  rw [hwritten hbad, hout]

private def stamped : List Part :=
  [.item .dateTime (some (bytes "%H:%M")),.item .tab none,.literal (bytes "["),.item .level none,.literal (bytes "] "),.item .message none]

theorem format_stamped : (LogFormatter.make (pattern stamped)).isError = false ∧
    ∀ strftime level event, (LogFormatter.make (pattern stamped)).format strftime level event =
      stamped.flatMap (Part.meaning strftime level event) := by
  exact format_pattern stamped ⟨by decide,by decide⟩

end Radixun.Common.Log
