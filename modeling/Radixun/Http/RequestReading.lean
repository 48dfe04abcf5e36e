import Radixun.Foundation.ClassMoves
import Radixun.Http.MessageDump
import Radixun.Http.RequestPipeline

/-! The parser of requests along a text, part by part: what the elements so far make of a request, whatever
follows the text. -/
namespace Radixun.Http
open Radixun.Foundation CString TextFrame Common.Stream RequestMachine

/-- The base of a stream that comes in one buffer. -/
def oneBuffer : Nat → Nat := fun _ => 0

@[simp] theorem oneBuffer_apply (p : Nat) : oneBuffer p = 0 := rfl

/-- The elements are good ones, and turn one request into another. -/
structure Makes (stream : Text) (els : List Element) (r r' : HttpRequest) : Prop where
  good : ∀ el ∈ els, el.Good stream oneBuffer
  data : els.foldl (Element.assign stream oneBuffer) r = r'

/-- Behind `pre` the machine is in the state `cs`, the last actions were taken at the places `t`, and the
elements so far make `r` of a new request. -/
def Reached (relaxed : Bool) (pre : Text) (cs : Nat) (t : Tracker) (r : HttpRequest) : Prop :=
  ∃ es, (requestMachine relaxed).walk 1 0 pre = ⟨es,.more cs⟩ ∧ Tracker.init.after es = t ∧
    ∀ more, Makes (pre ++ more) (elements .init es) .init r

/-- Bytes of a class, or escapes. -/
inductive Spelled (c : ByteClass) : Text → Prop where
  | nil : Spelled c []
  | char {b : UInt8} {s : Text} : c.has b = true → Spelled c s → Spelled c (b :: s)
  | escape {x y : UInt8} {s : Text} : xdigit.has x = true → xdigit.has y = true → Spelled c s → Spelled c (37 :: x :: y :: s)

theorem spelled_of_all {c : ByteClass} {s : Text} (h : ∀ b ∈ s, c.has b = true) : Spelled c s := by
  induction s with
  | nil => exact .nil
  | cons b s ih =>
    obtain ⟨hb,hs⟩ := List.forall_mem_cons.mp h
    exact .char hb (ih hs)

theorem slice_middle (a x y : Text) : slice (a ++ x ++ y) a.length (a ++ x).length = x := by
  rw [slice, List.append_assoc, List.drop_left, List.length_append, Nat.add_sub_cancel_left, List.take_left]

section Makes
variable {stream : Text} {els els' : List Element} {r r' r'' : HttpRequest}

theorem makes_nil : Makes stream [] r r := by
  constructor
  · intro el hel
    cases hel
  · rfl

theorem Makes.append (h : Makes stream els r r') (h' : Makes stream els' r' r'') : Makes stream (els ++ els') r r'' := by
  constructor
  · exact List.forall_mem_append.mpr ⟨h.good,h'.good⟩
  · rw [List.foldl_append, h.data, h'.data]

theorem makes_one (el : Element) (hgood : el.Good stream oneBuffer) (hdata : el.assign stream oneBuffer r = r') :
    Makes stream [el] r r' := by
  constructor
  · intro x hx
    rw [List.mem_singleton.mp hx]
    exact hgood
  · exact hdata

variable {a x y name value : Text} {e : Nat}

theorem makes_method {m : HttpMethod} (h : charsToHttpMethod stream = m) (hm : m ≠ .INVALID_METHOD) :
    Makes stream [.method 0 e] r { r with method := m } := by
  have hdrop : stream.drop (max 0 (oneBuffer e)) = stream := rfl
  apply makes_one _
  · rw [Element.Good, hdrop, h]
    exact hm
  · rw [Element.assign, Element.methodIn, hdrop, h]
    rfl

theorem makes_path : Makes (a ++ x ++ y) [.path a.length (a ++ x).length] r { r with path := x } := by
  refine makes_one (.path ..) trivial ?_
  simp only [Element.assign, Element.pathIn, oneBuffer_apply, Nat.max_zero, slice_middle]
  rfl

theorem makes_fragment : Makes (a ++ x ++ y) [.fragment a.length (a ++ x).length] r { r with fragment := x } := by
  refine makes_one (.fragment ..) trivial ?_
  simp only [Element.assign, Element.fragmentIn, oneBuffer_apply, Nat.max_zero, slice_middle]
  rfl

theorem makes_query : Makes (a ++ x ++ y) [.query a.length (a ++ x).length] r { r with query := x } := by
  apply makes_one _
  · simp [Element.Good]
  · simp only [Element.assign, Element.queryIn, oneBuffer_apply, Nat.zero_add, Nat.sub_zero, slice_middle]
    rfl

theorem makes_version {v : UInt8} (h : versionOf x x.length = some v) :
    Makes (a ++ x ++ y) [.version a.length (a ++ x).length] r { r with version := v } := by
  have hv : versionOf ((a ++ x ++ y).drop (max a.length (oneBuffer (a ++ x).length)))
      ((a ++ x).length - max a.length (oneBuffer (a ++ x).length)) = some v := by
    rw [oneBuffer_apply, Nat.max_zero, List.append_assoc, List.drop_left, List.length_append, Nat.add_sub_cancel_left,
      ← versionOf_take, List.take_left, h]
  apply makes_one _
  · rw [Element.Good, hv]
    rfl
  · rw [Element.assign, Element.versionIn, hv]
    rfl

theorem makes_field (hname : name ≠ []) :
    Makes (a ++ name ++ x ++ value ++ y)
      [.field a.length (a ++ name).length (a ++ name ++ x).length (a ++ name ++ x ++ value).length] r
      { r with headers := r.headers.put name value } := by
  have hlen := List.length_pos_iff.mpr hname
  have hn : slice (a ++ name ++ x ++ value ++ y) a.length (a ++ name).length = name := by
    rw [List.append_assoc (a ++ name), List.append_assoc (a ++ name), slice_middle]
  have hlater : ¬(a ++ name).length ≤ a.length := by
    rw [List.length_append]
    omega
  refine makes_one (.field ..) trivial ?_
  simp only [Element.assign, Element.fieldIn, oneBuffer_apply, Nat.max_zero, slice_middle, hn, if_neg hlater]
  rfl

end Makes

section Steps
variable {relaxed : Bool} {pre : Text} {cs cs' : Nat} {t : Tracker} {r r' : HttpRequest} {acts : List Action} {b : UInt8} {xs : Text}

theorem reached_start (relaxed : Bool) : Reached relaxed [] 1 .init .init :=
  ⟨[],rfl,rfl,fun _ => makes_nil⟩

/-- Goes on over a text with the actions taken there. -/
theorem Reached.go {es : List (Nat × Action)} (h : Reached relaxed pre cs t r)
    (hwalk : (requestMachine relaxed).walk cs pre.length xs = ⟨es,.more cs'⟩)
    (hr : ∀ more, Makes (pre ++ xs ++ more) (elements t es) r r') : Reached relaxed (pre ++ xs) cs' (t.after es) r' := by
  obtain ⟨es',hpre,rfl,hmakes⟩ := h
  refine ⟨es' ++ es,?_,?_,?_⟩
  · rw [ActionMachine.walk_append (by rw [hpre]), Nat.zero_add, hwalk, hpre]
    rfl
  · exact List.foldl_append
  · intro more
    rw [elements_append]
    apply Makes.append _ (hr more)
    rw [List.append_assoc]
    exact hmakes (xs ++ more)

/-- One byte whose actions complete no element. -/
theorem Reached.silent (h : Reached relaxed pre cs t r) (hmove : (requestMachine relaxed).move cs b = some (acts,cs'))
    (hgo : acts.any (requestMachine relaxed).breaks = false) (hnone : elements t (acts.map fun a => (pre.length,a)) = []) :
    Reached relaxed (pre ++ [b]) cs' (t.after (acts.map fun a => (pre.length,a))) r := by
  apply h.go (ActionMachine.walk_one hmove hgo _)
  intro more
  rw [hnone]
  exact makes_nil

theorem Reached.quiet (h : Reached relaxed pre cs t r) (hmove : (requestMachine relaxed).move cs b = some ([],cs')) :
    Reached relaxed (pre ++ [b]) cs' t r := h.silent hmove rfl rfl

/-- A run of bytes the machine stays in its state on. -/
theorem Reached.stay {c : ByteClass} (hc : ∀ b, c.has b = true → (requestMachine relaxed).move cs b = some ([],cs))
    (hxs : ∀ b ∈ xs, c.has b = true) (h : Reached relaxed pre cs t r) : Reached relaxed (pre ++ xs) cs t r := by
  induction xs generalizing pre with
  | nil => rwa [List.append_nil]
  | cons b xs ih =>
    obtain ⟨hb,hxs⟩ := List.forall_mem_cons.mp hxs
    rw [← List.singleton_append, ← List.append_assoc]
    exact ih hxs (h.quiet (hc b hb))

/-- The moves on a class of bytes and on escapes, all of them quiet. -/
structure Stays (relaxed : Bool) (c : ByteClass) (cs c1 c2 : Nat) : Prop where
  char : ∀ b, c.has b = true → (requestMachine relaxed).move cs b = some ([],cs)
  percent : (requestMachine relaxed).move cs 37 = some ([],c1)
  first : ∀ b, xdigit.has b = true → (requestMachine relaxed).move c1 b = some ([],c2)
  second : ∀ b, xdigit.has b = true → (requestMachine relaxed).move c2 b = some ([],cs)

theorem Reached.spelled {c : ByteClass} {c1 c2 : Nat} (hc : Stays relaxed c cs c1 c2) (hxs : Spelled c xs)
    (h : Reached relaxed pre cs t r) : Reached relaxed (pre ++ xs) cs t r := by
  induction hxs generalizing pre with
  | nil => rwa [List.append_nil]
  | char hb _ ih =>
    rw [← List.singleton_append, ← List.append_assoc]
    exact ih (h.quiet (hc.char _ hb))
  | @escape x y s hx hy _ ih =>
    have hthree := ((h.quiet hc.percent).quiet (hc.first x hx)).quiet (hc.second y hy)
    have happ : pre ++ 37 :: x :: y :: s = pre ++ [37] ++ [x] ++ [y] ++ s := by simp
    rw [happ]
    exact ih hthree

end Steps

/-- The moves over the parts of a request line. -/
structure LineMoves (relaxed : Bool) : Prop where
  method : ∀ e ∈ methodMap, e.1 ≠ .MSEARCH →
    ((requestMachine relaxed).walk 1 0 (e.2 ++ [32])).events = [(0,.mark),(e.2.length,.requestMethod)] ∧
      ((requestMachine relaxed).walk 1 0 (e.2 ++ [32])).stop = .more 3
  slash : (requestMachine relaxed).move 3 47 = some ([.mark],33)
  second : ∀ b, pchar.has b = true → (requestMachine relaxed).move 33 b = some ([],26)
  second_percent : (requestMachine relaxed).move 33 37 = some ([],27)
  path : Stays relaxed pathChar 26 27 28
  path_ends : ∀ cs ∈ [33,26], (requestMachine relaxed).move cs 32 = some ([.requestPath,.requestUri],4) ∧
    (requestMachine relaxed).move cs 35 = some ([.requestPath,.requestUri],20) ∧
    (requestMachine relaxed).move cs 63 = some ([.requestPath],29)
  query_first : ∀ b, queryChar.has b = true → (requestMachine relaxed).move 29 b = some ([.startQuery],30)
  query_percent : (requestMachine relaxed).move 29 37 = some ([.startQuery],31)
  query : Stays relaxed queryChar 30 31 32
  query_ends : (requestMachine relaxed).move 30 32 = some ([.queryString,.requestUri],4) ∧
    (requestMachine relaxed).move 30 35 = some ([.queryString,.requestUri],20)
  fragment_first : ∀ b, queryChar.has b = true → (requestMachine relaxed).move 20 b = some ([.mark],21)
  fragment_percent : (requestMachine relaxed).move 20 37 = some ([.mark],22)
  fragment : Stays relaxed queryChar 21 22 23
  fragment_end : (requestMachine relaxed).move 21 32 = some ([.fragment],4)
  version : ∀ v ∈ [text "HTTP/1.0",text "HTTP/1.1"],
    ((requestMachine relaxed).walk 4 0 (v ++ [13,10])).events = [(0,.mark),(8,.httpVersion)] ∧
      ((requestMachine relaxed).walk 4 0 (v ++ [13,10])).stop = .more 13

private theorem stays_of {relaxed : Bool} {c : ByteClass} {cs c1 c2 : Nat}
    (hchar : (requestMachine relaxed).onClass cs c = some ([],cs)) (hpercent : (requestMachine relaxed).move cs 37 = some ([],c1))
    (hfirst : (requestMachine relaxed).onClass c1 xdigit = some ([],c2))
    (hsecond : (requestMachine relaxed).onClass c2 xdigit = some ([],cs)) : Stays relaxed c cs c1 c2 := by
  constructor
  · intro b hb
    exact ActionMachine.move_of_onClass hchar hb
  · exact hpercent
  · intro b hb
    exact ActionMachine.move_of_onClass hfirst hb
  · intro b hb
    exact ActionMachine.move_of_onClass hsecond hb

theorem line_moves (relaxed : Bool) : LineMoves relaxed := by
  constructor
  · cases relaxed <;> decide +kernel
  · cases relaxed <;> rfl
  · intro b hb
    exact ActionMachine.move_of_onClass (by cases relaxed <;> rfl) hb
  · cases relaxed <;> rfl
  · apply stays_of <;> cases relaxed <;> rfl
  · cases relaxed <;> decide +kernel
  · intro b hb
    exact ActionMachine.move_of_onClass (by cases relaxed <;> rfl) hb
  · cases relaxed <;> rfl
  · apply stays_of <;> cases relaxed <;> rfl
  · cases relaxed <;> decide +kernel
  · intro b hb
    exact ActionMachine.move_of_onClass (by cases relaxed <;> rfl) hb
  · cases relaxed <;> rfl
  · apply stays_of <;> cases relaxed <;> rfl
  · cases relaxed <;> rfl
  · cases relaxed <;> decide +kernel

section Line
variable {relaxed : Bool} {pre xs : Text} {cs cs' : Nat} {t : Tracker} {r : HttpRequest} {acts : List Action} {b : UInt8}

/-- A part with a first byte of its own; its actions complete no element. -/
theorem Reached.opening {c : ByteClass} {cs0 c1 c2 : Nat} (h : Reached relaxed pre cs0 t r) (acts : List Action)
    (hc : Stays relaxed c cs c1 c2) (hchar : ∀ b s, xs = b :: s → c.has b = true → (requestMachine relaxed).move cs0 b = some (acts,cs))
    (hpercent : (requestMachine relaxed).move cs0 37 = some (acts,c1)) (hgo : acts.any (requestMachine relaxed).breaks = false)
    (hnone : elements t (acts.map fun a => (pre.length,a)) = []) (hxs : Spelled c xs) (hne : xs ≠ []) :
    Reached relaxed (pre ++ xs) cs (t.after (acts.map fun a => (pre.length,a))) r := by
  cases hxs with
  | nil => exact absurd rfl hne
  | @char b s hb hs =>
    rw [← List.singleton_append, ← List.append_assoc]
    exact (h.silent (hchar b s rfl hb) hgo hnone).spelled hc hs
  | @escape x y s hx hy hs =>
    have hthree := ((h.silent hpercent hgo hnone).quiet (hc.first x hx)).quiet (hc.second y hy)
    have happ : pre ++ 37 :: x :: y :: s = pre ++ [37] ++ [x] ++ [y] ++ s := by simp
    rw [happ]
    exact hthree.spelled hc hs

/-- A path that begins with one slash. -/
structure PathText (path : Text) : Prop where
  slash : path.head? = some 47
  single : path.tail.head? ≠ some 47
  spelled : Spelled pathChar path.tail

theorem pchar_of_pathChar (hb : pathChar.has b = true) (hne : b ≠ 47) : pchar.has b = true :=
  forall_byte (P := fun b => pathChar.has b = true → b ≠ 47 → pchar.has b = true) (by decide +kernel) b hb hne

/-- Behind a path the machine stands in one of two states, with the beginning of the path marked. -/
theorem Reached.path {path : Text} (h : Reached relaxed pre 3 t r) (hpath : PathText path) :
    ∃ cs ∈ [33,26], Reached relaxed (pre ++ path) cs { t with mark := pre.length } r := by
  have hmoves := line_moves relaxed
  obtain ⟨hslash,hsingle,hspelled⟩ := hpath
  obtain ⟨rest,rfl⟩ := List.head?_eq_some_iff.mp hslash
  have hfirst : Reached relaxed (pre ++ [47]) 33 { t with mark := pre.length } r := h.silent hmoves.slash rfl rfl
  have happ : pre ++ 47 :: rest = pre ++ [47] ++ rest := by simp
  rw [happ]
  by_cases hne : rest = []
  · rw [hne, List.append_nil]
    exact ⟨33,by simp,hfirst⟩
  · refine ⟨26,by simp,?_⟩
    refine hfirst.opening [] hmoves.path ?_ hmoves.second_percent rfl rfl hspelled hne
    rintro b s rfl hb
    apply hmoves.second b (pchar_of_pathChar hb _)
    rintro rfl
    exact hsingle rfl

/-- What ends a part of the target: a blank, or the mark of a query or a fragment. -/
theorem Reached.path_end {path : Text} (h : Reached relaxed pre 3 t r) (hpath : PathText path)
    (hb : b = 32 ∧ cs' = 4 ∨ b = 35 ∧ cs' = 20 ∨ b = 63 ∧ cs' = 29) :
    ∃ t', Reached relaxed (pre ++ path ++ [b]) cs' t' { r with path := path } := by
  obtain ⟨cs,hcs,hread⟩ := h.path hpath
  obtain ⟨hblank,hhash,hquestion⟩ := (line_moves relaxed).path_ends cs hcs
  have hpathMade (more : Text) : Makes (pre ++ path ++ [b] ++ more) [.path pre.length (pre ++ path).length] r { r with path := path } := by
    rw [List.append_assoc (pre ++ path)]
    exact makes_path
  rcases hb with ⟨rfl,rfl⟩ | ⟨rfl,rfl⟩ | ⟨rfl,rfl⟩
  · exact ⟨_,hread.go (ActionMachine.walk_one hblank rfl _) hpathMade⟩
  · exact ⟨_,hread.go (ActionMachine.walk_one hhash rfl _) hpathMade⟩
  · exact ⟨_,hread.go (ActionMachine.walk_one hquestion rfl _) hpathMade⟩

theorem Reached.query_end {query : Text} (h : Reached relaxed pre 29 t r) (hquery : Spelled queryChar query)
    (hne : query ≠ []) (hb : b = 32 ∧ cs' = 4 ∨ b = 35 ∧ cs' = 20) :
    ∃ t', Reached relaxed (pre ++ query ++ [b]) cs' t' { r with query := query } := by
  have hmoves := line_moves relaxed
  have hread : Reached relaxed (pre ++ query) 30 { t with queryStart := some pre.length } r :=
    h.opening [.startQuery] hmoves.query (fun b s _ hb => hmoves.query_first b hb) hmoves.query_percent rfl rfl hquery hne
  have hmade (more : Text) : Makes (pre ++ query ++ [b] ++ more) [.query pre.length (pre ++ query).length] r
    { r with query := query } := by
    rw [List.append_assoc (pre ++ query)]
    exact makes_query
  rcases hb with ⟨rfl,rfl⟩ | ⟨rfl,rfl⟩
  · exact ⟨_,hread.go (ActionMachine.walk_one hmoves.query_ends.1 rfl _) hmade⟩
  · exact ⟨_,hread.go (ActionMachine.walk_one hmoves.query_ends.2 rfl _) hmade⟩

theorem Reached.fragment_end {fragment : Text} (h : Reached relaxed pre 20 t r) (hfragment : Spelled queryChar fragment)
    (hne : fragment ≠ []) : ∃ t', Reached relaxed (pre ++ fragment ++ [32]) 4 t' { r with fragment := fragment } := by
  have hmoves := line_moves relaxed
  have hread : Reached relaxed (pre ++ fragment) 21 { t with mark := pre.length } r :=
    h.opening [.mark] hmoves.fragment (fun b s _ hb => hmoves.fragment_first b hb) hmoves.fragment_percent rfl rfl
      hfragment hne
  refine ⟨_,hread.go (ActionMachine.walk_one hmoves.fragment_end rfl _) fun more => ?_⟩
  rw [List.append_assoc (pre ++ fragment)]
  exact makes_fragment

end Line

section Fields
variable {relaxed : Bool} {pre : Text} {t : Tracker} {r : HttpRequest}

/-- The two versions the parser knows. -/
def knownVersion (v : UInt8) : Prop := v = 0x10 ∨ v = 0x11

theorem printVersion_known {v : UInt8} (hv : knownVersion v) :
    text "HTTP/" ++ printVersion v ∈ [text "HTTP/1.0",text "HTTP/1.1"] ∧
      versionOf (text "HTTP/" ++ printVersion v) (text "HTTP/" ++ printVersion v).length = some v := by
  rcases hv with rfl | rfl <;> decide

theorem Reached.version {v : UInt8} (hv : knownVersion v) (h : Reached relaxed pre 4 t r) :
    ∃ t', Reached relaxed (pre ++ (text "HTTP/" ++ printVersion v) ++ TextFrame.crlf) 13 t' { r with version := v } := by
  obtain ⟨hmem,hof⟩ := printVersion_known hv
  generalize text "HTTP/" ++ printVersion v = word at hmem hof ⊢
  obtain ⟨hevents,hstop⟩ := (line_moves relaxed).version word hmem
  have hlen : word.length = 8 := by
    have hall : ∀ w ∈ [text "HTTP/1.0",text "HTTP/1.1"], w.length = 8 := by decide
    exact hall word hmem
  have hwalk : (requestMachine relaxed).walk 4 pre.length (word ++ TextFrame.crlf) =
      ⟨[(pre.length,.mark),((pre ++ word).length,.httpVersion)],.more 13⟩ := by
    rw [TextFrame.crlf, ActionMachine.walk_literal hevents hstop, List.length_append, hlen, Nat.add_comm pre.length]
    simp
  rw [List.append_assoc pre]
  refine ⟨_,h.go hwalk fun more => ?_⟩
  rw [← List.append_assoc pre, List.append_assoc (pre ++ word)]
  exact makes_version hof

/-- The blanks the machine skips in front of a value. -/
def isBlank (b : UInt8) : Bool := b = 32 || b = 9

def trimBlanks (value : Text) : Text := value.dropWhile isBlank

/-- A byte of a header value for the machine. -/
def valueChar : ByteClass := [(1,9),(11,12),(14,126),(128,255)]

/-- A header name the machine takes whole. -/
structure FieldName (name : Text) : Prop where
  nonempty : name ≠ []
  chars : ∀ b ∈ name, nameChar.has b = true
  first : name.head? ≠ some 10 ∧ name.head? ≠ some 13

def FieldValue (value : Text) : Prop := ∀ b ∈ value, valueChar.has b = true

instance (value : Text) : Decidable (FieldValue value) := List.decidableBAll _ value

/-- The moves over a header line. -/
structure FieldMoves (relaxed : Bool) : Prop where
  first : ∀ b, nameChar.has b = true → b ≠ 10 → b ≠ 13 → (requestMachine relaxed).move 13 b = some ([.startField],14)
  name : ∀ b, nameChar.has b = true → (requestMachine relaxed).move 14 b = some ([],14)
  colon : (requestMachine relaxed).move 14 58 = some ([.writeField],15)
  blank : ∀ b, isBlank b = true → (requestMachine relaxed).move 15 b = some ([.mark],15)
  start : ∀ b, valueChar.has b = true → isBlank b = false → (requestMachine relaxed).move 15 b = some ([.mark],16)
  value : ∀ b, valueChar.has b = true → (requestMachine relaxed).move 16 b = some ([],16)
  empty : (requestMachine relaxed).move 15 13 = some ([.mark,.writeValue],17)
  finish : (requestMachine relaxed).move 16 13 = some ([.writeValue],17)
  feed : (requestMachine relaxed).move 17 10 = some ([],13)
  stop : (requestMachine relaxed).move 13 13 = some ([.startField],18)
  done : (requestMachine relaxed).move 18 10 = some ([.done],348)

private def nameFirst : ByteClass :=
  [(1,8),(11,12),(14,31),(33,33),(35,39),(42,43),(45,46)] ++ digit ++ [(65,90),(94,122),(124,124),(126,126)]

private def blankChar : ByteClass := [(9,9),(32,32)]

private def valueFirst : ByteClass := [(1,8),(11,12),(14,31),(33,126),(128,255)]

private theorem byte_classes (b : UInt8) : (nameChar.has b = true → b ≠ 10 → b ≠ 13 → nameFirst.has b = true) ∧
    (isBlank b = true → blankChar.has b = true) ∧ (valueChar.has b = true → isBlank b = false → valueFirst.has b = true) :=
  forall_byte (P := fun b => (nameChar.has b = true → b ≠ 10 → b ≠ 13 → nameFirst.has b = true) ∧
    (isBlank b = true → blankChar.has b = true) ∧ (valueChar.has b = true → isBlank b = false → valueFirst.has b = true))
    (by decide +kernel) b

theorem field_moves (relaxed : Bool) : FieldMoves relaxed := by
  constructor
  · intro b hb h10 h13
    exact ActionMachine.move_of_onClass (by cases relaxed <;> rfl) ((byte_classes b).1 hb h10 h13)
  · intro b hb
    exact ActionMachine.move_of_onClass (by cases relaxed <;> rfl) hb
  · cases relaxed <;> rfl
  · intro b hb
    exact ActionMachine.move_of_onClass (by cases relaxed <;> rfl) ((byte_classes b).2.1 hb)
  · intro b hb hblank
    exact ActionMachine.move_of_onClass (by cases relaxed <;> rfl) ((byte_classes b).2.2 hb hblank)
  · intro b hb
    exact ActionMachine.move_of_onClass (by cases relaxed <;> rfl) hb
  all_goals cases relaxed <;> rfl

theorem Reached.blanks {bs : Text} (hbs : ∀ b ∈ bs, isBlank b = true) (h : Reached relaxed pre 15 t r) :
    ∃ m, Reached relaxed (pre ++ bs) 15 { t with mark := m } r := by
  induction bs generalizing pre t with
  | nil =>
    rw [List.append_nil]
    exact ⟨t.mark,h⟩
  | cons b bs ih =>
    obtain ⟨hb,hbs⟩ := List.forall_mem_cons.mp hbs
    have hstep : Reached relaxed (pre ++ [b]) 15 { t with mark := pre.length } r :=
      h.silent ((field_moves relaxed).blank b hb) rfl rfl
    rw [← List.singleton_append, ← List.append_assoc]
    obtain ⟨m,hrest⟩ := ih hbs hstep
    exact ⟨m,hrest⟩

/-- Behind a name and its colon. -/
theorem Reached.name {name : Text} (hname : FieldName name) (h : Reached relaxed pre 13 t r) :
    ∃ t', Reached relaxed (pre ++ name ++ [58]) 15 t' r ∧ t'.nameStart = pre.length ∧ t'.nameEnd = (pre ++ name).length := by
  have hmoves := field_moves relaxed
  obtain ⟨hne,hchars,hfirst⟩ := hname
  obtain ⟨b,name,rfl⟩ := List.exists_cons_of_ne_nil hne
  obtain ⟨hb,hchars⟩ := List.forall_mem_cons.mp hchars
  have hmove := hmoves.first b hb (fun h => hfirst.1 (congrArg some h)) fun h => hfirst.2 (congrArg some h)
  have hstart : Reached relaxed (pre ++ [b]) 14 { t with fieldStart := pre.length } r := h.silent hmove rfl rfl
  have hread := Reached.stay hmoves.name hchars hstart
  rw [List.append_assoc pre, List.singleton_append] at hread
  exact ⟨_,hread.silent hmoves.colon rfl rfl,rfl,rfl⟩

/-- The value without the blanks in front of it is what a line assigns to its name. -/
theorem Reached.field {name value : Text} (hname : FieldName name) (hvalue : FieldValue value) (h : Reached relaxed pre 13 t r) :
    ∃ t', Reached relaxed (pre ++ (name ++ 58 :: value ++ TextFrame.crlf)) 13 t'
      { r with headers := r.headers.put name (trimBlanks value) } := by
  have hmoves := field_moves relaxed
  obtain ⟨t1,hcolon,hstart,hend⟩ := h.name hname
  have hsplit : value = value.takeWhile isBlank ++ trimBlanks value := List.takeWhile_append_dropWhile.symm
  have hblanks : ∀ b ∈ value.takeWhile isBlank, isBlank b = true := fun b hb => List.mem_takeWhile_imp hb
  have hbody : ∀ b ∈ trimBlanks value, valueChar.has b = true := fun b hb => hvalue b (List.dropWhile_subset isBlank hb)
  have hhead : ∀ b s, trimBlanks value = b :: s → isBlank b = false := by
    intro b s heq
    have hnot := List.head?_dropWhile_not isBlank value
    rw [← trimBlanks, heq] at hnot
    simpa using hnot
  generalize value.takeWhile isBlank = blanks at hsplit hblanks
  generalize trimBlanks value = body at hsplit hbody hhead
  subst hsplit
  obtain ⟨m,hread⟩ := hcolon.blanks hblanks
  rw [List.append_assoc (pre ++ name), List.singleton_append] at hread
  have hmade (more : Text) : Makes (pre ++ name ++ (58 :: blanks) ++ body ++ [13] ++ more)
      [.field t1.nameStart t1.nameEnd (pre ++ name ++ (58 :: blanks)).length (pre ++ name ++ (58 :: blanks) ++ body).length] r
      { r with headers := r.headers.put name body } := by
    rw [hstart, hend, List.append_assoc _ [13]]
    exact makes_field hname.nonempty
  have hline : pre ++ (name ++ 58 :: (blanks ++ body) ++ TextFrame.crlf) = pre ++ name ++ (58 :: blanks) ++ body ++ [13] ++ [10] := by
    simp [TextFrame.crlf]
  rw [hline]
  cases body with
  | nil =>
    rw [List.append_nil] at hmade ⊢
    exact ⟨_,(hread.go (ActionMachine.walk_one hmoves.empty rfl _) hmade).quiet hmoves.feed⟩
  | cons b s =>
    obtain ⟨hb,hs⟩ := List.forall_mem_cons.mp hbody
    have hfirst := hread.silent (hmoves.start b hb (hhead b s rfl)) rfl rfl
    have hall := Reached.stay hmoves.value hs hfirst
    rw [List.append_assoc _ [b], List.singleton_append] at hall
    exact ⟨_,(hall.go (ActionMachine.walk_one hmoves.finish rfl _) hmade).quiet hmoves.feed⟩

/-- A list of header lines. -/
theorem Reached.fields {fields : List (Text × Text)} (hfields : ∀ e ∈ fields, FieldName e.1 ∧ FieldValue e.2)
    (h : Reached relaxed pre 13 t r) : ∃ t', Reached relaxed (pre ++ printLines (fields.map (headerText (text ":")))) 13 t'
      { r with headers := r.headers.putAll (fields.map fun e => (e.1,trimBlanks e.2)) } := by
  induction fields generalizing pre t r with
  | nil =>
    refine ⟨t,?_⟩
    rw [show printLines (List.map (headerText (text ":")) []) = [] from rfl, List.append_nil]
    exact h
  | cons e fields ih =>
    obtain ⟨he,hfields⟩ := List.forall_mem_cons.mp hfields
    obtain ⟨t1,hline⟩ := h.field he.1 he.2
    obtain ⟨t2,hrest⟩ := ih hfields hline
    refine ⟨t2,?_⟩
    have hcat : printLines ((e :: fields).map (headerText (text ":"))) =
        (e.1 ++ 58 :: e.2 ++ TextFrame.crlf) ++ printLines (fields.map (headerText (text ":"))) := by
      simp [printLines, headerText, text]
    rw [hcat, ← List.append_assoc]
    exact hrest

end Fields

section Whole
variable {stream : Text} {el : Element}

private theorem begins_alone {p : Nat} (hp : p < stream.length) : begins [stream] p = oneBuffer p := by
  rw [begins, if_pos hp]
  rfl

/-- Inside a stream that comes in one buffer an element means the same as with the base of that buffer. -/
theorem good_alone (h : el.within stream.length) : el.Good stream (begins [stream]) ↔ el.Good stream oneBuffer := by
  cases el with
  | method s e | version s e => simp only [Element.Good, begins_alone h.2]
  | query s e => simp only [Element.Good, begins_alone h.2, begins_alone (Nat.lt_of_le_of_lt h.1 h.2)]
  | _ => exact Iff.rfl

theorem assign_alone (h : el.within stream.length) (r : HttpRequest) :
    el.assign stream (begins [stream]) r = el.assign stream oneBuffer r := by
  cases el with
  | method s e => simp only [Element.assign, Element.methodIn, begins_alone h.2]; rfl
  | version s e => simp only [Element.assign, Element.versionIn, begins_alone h.2]; rfl
  | path s e => simp only [Element.assign, Element.pathIn, begins_alone h.2]; rfl
  | fragment s e => simp only [Element.assign, Element.fragmentIn, begins_alone h.2]; rfl
  | query s e =>
    simp only [Element.assign, Element.queryIn, begins_alone h.2, begins_alone (Nat.lt_of_le_of_lt h.1 h.2)]
    rfl
  | field ns ne vs ve => simp only [Element.assign, Element.fieldIn, begins_alone h.2.2.2]; rfl

theorem assign_all_alone {els : List Element} (h : ∀ el ∈ els, el.within stream.length) (r : HttpRequest) :
    els.foldl (Element.assign stream (begins [stream])) r = els.foldl (Element.assign stream oneBuffer) r := by
  induction els generalizing r with
  | nil => rfl
  | cons el els ih =>
    obtain ⟨hel,hels⟩ := List.forall_mem_cons.mp h
    rw [List.foldl_cons, List.foldl_cons, assign_alone hel]
    exact ih hels _

/-- An empty line behind the last header ends the head with the request as it stands. -/
theorem Reached.finish {u : Uninitialised} {pre : Text} {t : Tracker} {r : HttpRequest} (h : Reached u.uriRelaxed pre 13 t r) :
    (headWalk u (pre ++ TextFrame.crlf)).stop = .broke 348 (pre ++ TextFrame.crlf).length ∧
      headParsed u [pre ++ TextFrame.crlf] = ⟨r,0,none⟩ := by
  have hmoves := field_moves u.uriRelaxed
  obtain ⟨es,hwalk,-,hmakes⟩ := h.silent hmoves.stop rfl rfl
  obtain ⟨e,hedge,heq⟩ := Option.map_eq_some_iff.mp hmoves.done
  obtain ⟨hacts,htarget⟩ := Prod.mk.inj heq
  have hcat : pre ++ TextFrame.crlf = pre ++ [13] ++ [10] := by simp [TextFrame.crlf]
  have hhead : headWalk u (pre ++ TextFrame.crlf) = ⟨es ++ [((pre ++ [13]).length,.done)],.broke 348 (pre ++ TextFrame.crlf).length⟩ := by
    rw [headWalk, hcat, ActionMachine.walk_append (by rw [hwalk]), ActionMachine.walk_cons_break hedge (by rw [hacts]; rfl), hwalk,
      hacts, htarget]
    simp [Walk.after]
  have hels : headElements u (pre ++ TextFrame.crlf) = elements .init es := by
    rw [headElements, hhead, elements_append]
    simp [elements, Tracker.element]
  have hall := hmakes [10]
  rw [← hcat, ← hels] at hall
  have hwithin := headElements_within u (pre ++ TextFrame.crlf)
  have hgood : ∀ el ∈ headElements u (pre ++ TextFrame.crlf), el.Good (pre ++ TextFrame.crlf) (begins [pre ++ TextFrame.crlf]) :=
    fun el hel => (good_alone (hwithin el hel)).mpr (hall.good el hel)
  have hdata := deliver_all_data (r := ⟨.init,0,none⟩) rfl hgood
  obtain ⟨hthrown,herror⟩ := (deliver_all_iff (r := ⟨.init,0,none⟩) rfl rfl _).mpr hgood
  rw [assign_all_alone hwithin, hall.data] at hdata
  constructor
  · rw [hhead]
  · rw [headParsed, List.flatten_singleton]
    generalize (headElements u (pre ++ TextFrame.crlf)).foldl
      (deliver (pre ++ TextFrame.crlf) (begins [pre ++ TextFrame.crlf])) ⟨.init,0,none⟩ = p at *
    cases p
    simp only at hdata hthrown herror
    rw [hdata, herror, hthrown]

end Whole

end Radixun.Http
