import Radixun.Http.RequestParser

/-! The elements of a request as stretches of the byte stream, and what the parser makes of each when
the stream reaches it in several buffers: its registers stand for positions in the stream, as far as
they survive the reset at the beginning of a buffer. -/
namespace Radixun.Http
open Radixun.Foundation CString Common.Stream RequestMachine

/-- An element by the positions where its text begins and ends. -/
inductive Element where
  | method (s e : Nat)
  | path (s e : Nat)
  | fragment (s e : Nat)
  | query (s e : Nat)
  | version (s e : Nat)
  | field (nameStart nameEnd valueStart valueEnd : Nat)
  deriving DecidableEq, Repr

/-- The positions at which the last actions of each kind were taken. -/
structure Tracker where
  mark : Nat
  fieldStart : Nat
  nameStart : Nat
  nameEnd : Nat
  queryStart : Option Nat

def Tracker.init : Tracker := ⟨0,0,0,0,none⟩

def Tracker.step (t : Tracker) : Nat × Action → Tracker
  | (p,.mark) => { t with mark := p }
  | (p,.startField) => { t with fieldStart := p }
  | (p,.writeField) => { t with nameStart := t.fieldStart, nameEnd := p }
  | (p,.startQuery) => { t with queryStart := some p }
  | _ => t

def Tracker.element (t : Tracker) : Nat × Action → Option Element
  | (p,.requestMethod) => some (.method t.mark p)
  | (p,.requestPath) => some (.path t.mark p)
  | (p,.fragment) => some (.fragment t.mark p)
  | (p,.queryString) => t.queryStart.map (.query · p)
  | (p,.httpVersion) => some (.version t.mark p)
  | (p,.writeValue) => some (.field t.nameStart t.nameEnd t.mark p)
  | _ => none

/-- The elements of a list of actions in the order in which they are reported. -/
def elements (t : Tracker) : List (Nat × Action) → List Element
  | [] => []
  | event :: events => (t.element event).toList ++ elements (t.step event) events

def Tracker.after (t : Tracker) (events : List (Nat × Action)) : Tracker := events.foldl Tracker.step t

theorem elements_append (t : Tracker) (es es' : List (Nat × Action)) :
    elements t (es ++ es') = elements t es ++ elements (t.after es) es' := by
  induction es generalizing t with
  | nil => rfl
  | cons e es ih => simp only [List.cons_append, elements, ih, Tracker.after, List.foldl_cons, List.append_assoc]

/-- The stretch of the stream an element covers. -/
def Element.within (n : Nat) : Element → Prop
  | .method s e | .path s e | .fragment s e | .query s e | .version s e => s ≤ e ∧ e < n
  | .field nameStart nameEnd valueStart valueEnd =>
    nameStart ≤ nameEnd ∧ nameEnd ≤ valueEnd ∧ valueStart ≤ valueEnd ∧ valueEnd < n

theorem elements_within {t : Tracker} {p n : Nat} {events : List (Nat × Action)}
    (ht : t.mark ≤ p ∧ t.fieldStart ≤ p ∧ t.nameStart ≤ t.nameEnd ∧ t.nameEnd ≤ p ∧ ∀ q, t.queryStart = some q → q ≤ p)
    (hsorted : events.Pairwise fun a b => a.1 ≤ b.1) (hfrom : ∀ e ∈ events, p ≤ e.1 ∧ e.1 < n) :
    ∀ el ∈ elements t events, el.within n := by
  induction events generalizing t p with
  | nil => exact nofun
  | cons event events ih =>
    obtain ⟨q,a⟩ := event
    obtain ⟨hp,hn⟩ := hfrom _ (List.mem_cons_self ..)
    obtain ⟨hrest,hsorted⟩ := List.pairwise_cons.mp hsorted
    obtain ⟨hm,hf,hns,hne,hq⟩ := ht
    intro el hel
    rcases List.mem_append.mp hel with hel | hel
    · rw [Option.mem_toList] at hel
      cases a with
      | queryString =>
        obtain ⟨s,hs,rfl⟩ := Option.map_eq_some_iff.mp hel
        have := hq s hs
        exact ⟨by omega,hn⟩
      | requestMethod | requestPath | fragment | httpVersion =>
        obtain rfl := Option.some.inj hel
        exact ⟨by omega,hn⟩
      | writeValue =>
        obtain rfl := Option.some.inj hel
        exact ⟨hns,by omega,by omega,hn⟩
      | _ => exact absurd hel nofun
    · refine ih ?_ hsorted (fun e he => ⟨hrest e he,(hfrom e (List.mem_cons_of_mem _ he)).2⟩) el hel
      dsimp only at hp
      cases a with
      | startQuery => exact ⟨by show t.mark ≤ q; omega,by show t.fieldStart ≤ q; omega,hns,by show t.nameEnd ≤ q; omega,
          fun s hs => by obtain rfl := Option.some.inj hs; exact Nat.le_refl _⟩
      | mark => exact ⟨Nat.le_refl _,by show t.fieldStart ≤ q; omega,hns,by show t.nameEnd ≤ q; omega,fun s hs => le_trans (hq s hs) hp⟩
      | startField => exact ⟨by show t.mark ≤ q; omega,Nat.le_refl _,hns,by show t.nameEnd ≤ q; omega,fun s hs => le_trans (hq s hs) hp⟩
      | writeField => exact ⟨by show t.mark ≤ q; omega,by show t.fieldStart ≤ q; omega,by show t.fieldStart ≤ q; omega,Nat.le_refl _,
          fun s hs => le_trans (hq s hs) hp⟩
      | _ => exact ⟨le_trans hm hp,le_trans hf hp,hns,le_trans hne hp,fun s hs => le_trans (hq s hs) hp⟩

/-- The action that reports an element. -/
def Element.action : Element → Action
  | .method .. => .requestMethod
  | .path .. => .requestPath
  | .fragment .. => .fragment
  | .query .. => .queryString
  | .version .. => .httpVersion
  | .field .. => .writeValue

theorem element_action {t : Tracker} {p : Nat} {a : Action} {el : Element} (h : t.element (p,a) = some el) : el.action = a := by
  cases a with
  | queryString =>
    obtain ⟨s,_,rfl⟩ := Option.map_eq_some_iff.mp h
    rfl
  | requestMethod | requestPath | fragment | httpVersion | writeValue =>
    obtain rfl := Option.some.inj h
    rfl
  | _ => exact absurd h nofun

/-- Elements of a kind that one action reports are no more than the times it is taken. -/
theorem elements_count {kind : Element → Bool} {a : Action} (hkind : ∀ el, kind el = true → el.action = a) (t : Tracker)
    (events : List (Nat × Action)) : (elements t events).countP kind ≤ events.countP (·.2 == a) := by
  induction events generalizing t with
  | nil => simp [elements]
  | cons event events ih =>
    rw [elements, List.countP_append, List.countP_cons, Nat.add_comm]
    refine Nat.add_le_add (ih _) ?_
    cases hel : t.element event with
    | none => simp
    | some el =>
      cases hk : kind el with
      | false => simp [hk]
      | true => simp [hk, ← hkind el hk, element_action hel]

def slice (stream : Text) (s e : Nat) : Text := (stream.drop s).take (e - s)

/-- What a parser has come to: the request, `m_error`, and an exception. -/
structure Parsed where
  data : HttpRequest
  error : Nat
  thrown : Option Fault

def HttpRequestParser.parsed (s : HttpRequestParser) : Parsed := ⟨s.data,s.error,s.thrown⟩

/-- The effect of an element when the byte at `p` came in the buffer that begins at `base p`. Where a new
buffer began inside of it, the text is what lies behind that place, except that the offset of a query
stays that of the old buffer. -/
def Parsed.take (stream : Text) (base : Nat → Nat) (r : Parsed) : Element → Parsed
  | .method s e =>
    let m := charsToHttpMethod (stream.drop (max s (base e)))
    if m = .INVALID_METHOD then { r with error := 1000 } else { r with data := { r.data with method := m } }
  | .path s e => { r with data := { r.data with path := slice stream (max s (base e)) e } }
  | .fragment s e => { r with data := { r.data with fragment := slice stream (max s (base e)) e } }
  | .query s e =>
    let q := base e + (s - base s)
    if e < q then { r with thrown := some .lengthError }
    else { r with data := { r.data with query := slice stream q e } }
  | .version s e =>
    let v := max s (base e)
    match versionOf (stream.drop v) (e - v) with
    | some v => { r with data := { r.data with version := v } }
    | none => { r with error := 1001 }
  | .field nameStart nameEnd valueStart valueEnd =>
    let n := max nameStart (base valueEnd)
    if nameEnd ≤ n then r
    else { r with data := { r.data with
      headers := r.data.headers.put (slice stream n nameEnd) (slice stream (max valueStart (base valueEnd)) valueEnd) } }

def deliver (stream : Text) (base : Nat → Nat) (r : Parsed) (el : Element) : Parsed :=
  if r.thrown.isSome then r else r.take stream base el

/-- Whether the name of a header was written after its start was marked, and whether the start of the
query was marked. -/
structure Flags where
  named : Bool
  queried : Bool
  deriving DecidableEq

def Flags.permits (f : Flags) : Action → Bool
  | .writeValue => f.named
  | .queryString => f.queried
  | _ => true

def Flags.step (f : Flags) : Action → Flags
  | .startField => { f with named := false }
  | .writeField => { f with named := true }
  | .startQuery => { f with queried := true }
  | _ => f

def Flags.steps (f : Flags) : List Action → Option Flags
  | [] => some f
  | a :: as => if f.permits a then (f.step a).steps as else none

def Flags.le (f g : Flags) : Bool := (!f.named || g.named) && (!f.queried || g.queried)

/-- The flags a state of the machine promises. -/
def stateFlags (cs : Nat) : Flags := ⟨cs == 15 || cs == 16,30 ≤ cs && cs ≤ 32⟩

/-- What the edges of the machine keep to: the order of the actions, the space behind a method, and
final states exactly behind the actions that leave the loop. -/
def edgeKeeps (cs : Nat) (e : Edge Action) : Bool :=
  (match (stateFlags cs).steps e.acts with
    | none => false
    | some f => (stateFlags e.target).le f) &&
  (!e.acts.contains .requestMethod || e.on == ByteClass.one 32) &&
  (if e.acts.any (fun a => decide (a = .done)) then 348 ≤ e.target else e.target ≠ 0 && e.target < 348)

private theorem edges_keep (relaxed : Bool) : (requestMachine relaxed).check edgeKeeps = true := by
  cases relaxed <;> decide +kernel

section
variable {relaxed : Bool} {cs : Nat} {b : UInt8} {e : Edge Action}

theorem edge_flags (h : (requestMachine relaxed).edge cs b = some e) :
    ∃ f, (stateFlags cs).steps e.acts = some f ∧ (stateFlags e.target).le f = true := by
  have hk := ActionMachine.check_edge (edges_keep relaxed) h
  simp only [edgeKeeps, Bool.and_eq_true] at hk
  cases hs : (stateFlags cs).steps e.acts with
  | none => simp [hs] at hk
  | some f => exact ⟨f,rfl,by simpa [hs] using hk.1.1⟩

theorem edge_space (h : (requestMachine relaxed).edge cs b = some e) (hm : .requestMethod ∈ e.acts) : b = 32 := by
  have hk := ActionMachine.check_edge (edges_keep relaxed) h
  have hon := (ActionMachine.edge_mem h).2
  simp only [edgeKeeps, Bool.and_eq_true, Bool.or_eq_true, Bool.not_eq_true', List.contains_eq_mem, decide_eq_false_iff_not] at hk
  rw [eq_of_beq (hk.1.2.resolve_left (not_not_intro hm))] at hon
  simp only [ByteClass.has, ByteClass.one, List.any_cons, List.any_nil, Bool.or_false, Bool.and_eq_true, decide_eq_true_eq] at hon
  exact UInt8.toNat_inj.mp (Nat.le_antisymm hon.2 hon.1)

theorem edge_final (h : (requestMachine relaxed).edge cs b = some e) :
    (e.acts.any (requestMachine relaxed).breaks = true → 348 ≤ e.target) ∧
    (e.acts.any (requestMachine relaxed).breaks = false → e.target ≠ 0 ∧ e.target < 348) := by
  have hk := ActionMachine.check_edge (edges_keep relaxed) h
  simp only [edgeKeeps, Bool.and_eq_true] at hk
  have hfinal := hk.2
  rw [show (e.acts.any fun a => decide (a = .done)) = e.acts.any (requestMachine relaxed).breaks from rfl] at hfinal
  constructor
  · intro hb
    simpa [hb] using hfinal
  · intro hb
    simpa [hb] using hfinal

end

end Radixun.Http
