import Radixun.Http.RequestTracking

/-! What the elements of a request assign: each fails or sets one component, and a component other than
the headers is set at most once. -/
namespace Radixun.Http
open Radixun.Foundation CString RequestMachine

/-- Assignments that leave the same headers: for every name the first spelling and the last value. -/
def SameHeaders (l l' : List (Text × Text)) : Prop := ∀ k,
  OrderedMap.firstSpelling caseInsensitiveLess k l = OrderedMap.firstSpelling caseInsensitiveLess k l' ∧
  OrderedMap.lastValue caseInsensitiveLess k l = OrderedMap.lastValue caseInsensitiveLess k l'

namespace Element

def methodIn (stream : Text) (base : Nat → Nat) : Element → Option HttpMethod
  | .method s e => some (charsToHttpMethod (stream.drop (max s (base e))))
  | _ => none

def versionIn (stream : Text) (base : Nat → Nat) : Element → Option UInt8
  | .version s e => versionOf (stream.drop (max s (base e))) (e - max s (base e))
  | _ => none

def pathIn (stream : Text) (base : Nat → Nat) : Element → Option Text
  | .path s e => some (slice stream (max s (base e)) e)
  | _ => none

def fragmentIn (stream : Text) (base : Nat → Nat) : Element → Option Text
  | .fragment s e => some (slice stream (max s (base e)) e)
  | _ => none

def queryIn (stream : Text) (base : Nat → Nat) : Element → Option Text
  | .query s e => some (slice stream (base e + (s - base s)) e)
  | _ => none

/-- A field loses what came before the buffer its value ends in, and goes unnoticed without its name. -/
def fieldIn (stream : Text) (base : Nat → Nat) : Element → Option (Text × Text)
  | .field nameStart nameEnd valueStart valueEnd =>
    let n := max nameStart (base valueEnd)
    if nameEnd ≤ n then none
    else some (slice stream n nameEnd,slice stream (max valueStart (base valueEnd)) valueEnd)
  | _ => none

/-- An element that is neither an unknown method or version nor the length of a query below zero. -/
def Good (stream : Text) (base : Nat → Nat) : Element → Prop
  | .method s e => charsToHttpMethod (stream.drop (max s (base e))) ≠ .INVALID_METHOD
  | .version s e => (versionOf (stream.drop (max s (base e))) (e - max s (base e))).isSome = true
  | .query s e => base e + (s - base s) ≤ e
  | _ => True

def assign (stream : Text) (base : Nat → Nat) (r : HttpRequest) (el : Element) : HttpRequest :=
  { r with
    method := (el.methodIn stream base).getD r.method
    version := (el.versionIn stream base).getD r.version
    path := (el.pathIn stream base).getD r.path
    query := (el.queryIn stream base).getD r.query
    fragment := (el.fragmentIn stream base).getD r.fragment
    headers := ((el.fieldIn stream base).map fun f => r.headers.put f.1 f.2).getD r.headers }

end Element

section
variable {stream : Text} {base : Nat → Nat}

private theorem deliver_good {r : Parsed} {el : Element} (ht : r.thrown = none) (h : el.Good stream base) :
    deliver stream base r el = { r with data := el.assign stream base r.data } := by
  rw [deliver, if_neg (by simp [ht])]
  cases el with
  | method s e => simp only [Parsed.take, if_neg h]; rfl
  | query s e => simp only [Parsed.take, if_neg (Nat.not_lt.mpr h)]; rfl
  | version s e =>
    obtain ⟨v,hv⟩ := Option.isSome_iff_exists.mp h
    simp only [Parsed.take, hv, Element.assign, Element.versionIn, Option.getD_some]
    rfl
  | field ns ne vs ve =>
    by_cases hname : ne ≤ max ns (base ve)
    · simp only [Parsed.take, if_pos hname, Element.assign, Element.fieldIn]
      rfl
    · simp only [Parsed.take, if_neg hname, Element.assign, Element.fieldIn]
      rfl
  | _ => rfl

private theorem deliver_bad {r : Parsed} {el : Element} (ht : r.thrown = none) (h : ¬el.Good stream base) :
    (deliver stream base r el).thrown ≠ none ∨ (deliver stream base r el).error ≠ 0 := by
  rw [deliver, if_neg (by simp [ht])]
  cases el with
  | method s e => exact .inr (by simp [Parsed.take, not_ne_iff.mp h])
  | query s e => exact .inl (by simp [Parsed.take, Nat.lt_of_not_le h])
  | version s e =>
    have hv : versionOf (stream.drop (max s (base e))) (e - max s (base e)) = none := by simpa [Element.Good] using h
    exact .inr (by simp [Parsed.take, hv])
  | _ => exact absurd trivial h

theorem deliver_error {r : Parsed} (h : r.error ≠ 0) (el : Element) : (deliver stream base r el).error ≠ 0 := by
  rw [deliver]
  split
  · exact h
  · cases el with
    | path => exact h
    | fragment => exact h
    | _ =>
      simp only [Parsed.take]
      split
      · first | exact h | exact Nat.succ_ne_zero _
      · first | exact h | exact Nat.succ_ne_zero _

theorem deliver_all_thrown {r : Parsed} (h : r.thrown ≠ none) (els : List Element) :
    (els.foldl (deliver stream base) r).thrown ≠ none := by
  induction els generalizing r with
  | nil => exact h
  | cons el els ih =>
    rw [List.foldl_cons, deliver_of_thrown h]
    exact ih h

theorem deliver_all_error {r : Parsed} (h : r.error ≠ 0) (els : List Element) :
    (els.foldl (deliver stream base) r).error ≠ 0 := by
  induction els generalizing r with
  | nil => exact h
  | cons el els ih => exact ih (deliver_error h el)

/-- The elements are delivered without an error exactly when each is good. -/
theorem deliver_all_iff {r : Parsed} (ht : r.thrown = none) (he : r.error = 0) (els : List Element) :
    ((els.foldl (deliver stream base) r).thrown = none ∧ (els.foldl (deliver stream base) r).error = 0) ↔
      ∀ el ∈ els, el.Good stream base := by
  induction els generalizing r with
  | nil => simp [ht, he]
  | cons el els ih =>
    rw [List.foldl_cons, List.forall_mem_cons]
    by_cases hgood : el.Good stream base
    · rw [deliver_good ht hgood]
      simpa only [hgood, true_and] using ih (r := { r with data := el.assign stream base r.data }) ht he
    · simp only [hgood, false_and, iff_false, not_and_or]
      rcases deliver_bad ht hgood with h | h
      · exact .inl (deliver_all_thrown h els)
      · exact .inr (deliver_all_error h els)

theorem deliver_all_data {r : Parsed} (ht : r.thrown = none) {els : List Element}
    (h : ∀ el ∈ els, el.Good stream base) :
    (els.foldl (deliver stream base) r).data = els.foldl (Element.assign stream base) r.data := by
  induction els generalizing r with
  | nil => rfl
  | cons el els ih =>
    obtain ⟨hel,hels⟩ := List.forall_mem_cons.mp h
    rw [List.foldl_cons, List.foldl_cons, deliver_good ht hel]
    exact ih (r := { r with data := el.assign stream base r.data }) ht hels

end

/-- Two ways to assign a value that is assigned at most once. -/
private theorem assigned_iff {A V : Type} {f g : A → Option V} {l : List A} (d : V)
    (hsome : ∀ x ∈ l, (f x).isSome = (g x).isSome) (hone : l.countP (fun x => (f x).isSome) ≤ 1) :
    l.foldl (fun d x => (f x).getD d) d = l.foldl (fun d x => (g x).getD d) d ↔ ∀ x ∈ l, f x = g x := by
  have hrest : ∀ {h : A → Option V} {l : List A} (d : V), (∀ x ∈ l, h x = none) → l.foldl (fun d x => (h x).getD d) d = d := by
    intro h l
    induction l with
    | nil => exact fun _ _ => rfl
    | cons x l ih =>
      intro d hn
      rw [List.foldl_cons, hn x (List.mem_cons_self ..)]
      exact ih d fun y hy => hn y (List.mem_cons_of_mem _ hy)
  induction l generalizing d with
  | nil => simp
  | cons x l ih =>
    obtain ⟨hx,hl⟩ := List.forall_mem_cons.mp hsome
    rw [List.foldl_cons, List.foldl_cons, List.forall_mem_cons]
    rw [List.countP_cons] at hone
    cases hf : f x with
    | none =>
      have hg : g x = none := by simpa [hf] using hx
      simpa [hg] using ih d hl (by omega)
    | some v =>
      obtain ⟨v',hg⟩ := Option.isSome_iff_exists.mp (by simpa [hf] using hx.symm)
      have hnone : ∀ y ∈ l, f y = none := by
        have h0 : l.countP (fun x => (f x).isSome) = 0 := by simpa [hf] using hone
        intro y hy
        simpa using List.countP_eq_zero.mp h0 y hy
      have hnone' : ∀ y ∈ l, g y = none := fun y hy => by simpa [hnone y hy] using (hl y hy).symm
      rw [hrest _ hnone, hrest _ hnone', hg]
      simp only [Option.getD_some, Option.some.injEq, iff_self_and]
      exact fun _ y hy => (hnone y hy).trans (hnone' y hy).symm

/-- The states behind an action that is not taken again. -/
def spent : Action → Nat → Bool
  | .requestMethod, cs => (3 ≤ cs && cs ≤ 174) || cs == 348
  | .requestPath, cs =>
    (4 ≤ cs && cs ≤ 18) || (20 ≤ cs && cs ≤ 23) || (29 ≤ cs && cs ≤ 32) || (196 ≤ cs && cs ≤ 201 && cs != 198) || 348 ≤ cs
  | .fragment, cs => (4 ≤ cs && cs ≤ 18) || cs == 348
  | .queryString, cs => (4 ≤ cs && cs ≤ 18) || (20 ≤ cs && cs ≤ 23) || cs == 348
  | .httpVersion, cs => (13 ≤ cs && cs ≤ 18) || cs == 348
  | _, _ => false

private def spends (relaxed : Bool) (a : Action) : Bool :=
  (requestMachine relaxed).check (fun s e => !spent a s || (!e.acts.contains a && spent a e.target)) &&
  (requestMachine relaxed).check (fun _ e => e.acts.count a ≤ 1 && (!e.acts.contains a || spent a e.target))

private theorem all_spend : ∀ relaxed, ∀ a ∈ [Action.requestMethod,.requestPath,.fragment,.queryString,.httpVersion],
    spends relaxed a = true := by decide +kernel

/-- No walk has two elements of the kind one of these actions reports. -/
theorem elements_once {a : Action} (ha : a ∈ [Action.requestMethod,.requestPath,.fragment,.queryString,.httpVersion])
    {kind : Element → Bool} (hkind : ∀ el, kind el = true → el.action = a) (relaxed : Bool) (t : Tracker)
    (cs p : Nat) (bytes : Text) :
    (elements t ((requestMachine relaxed).walk cs p bytes).events).countP kind ≤ 1 := by
  have h := all_spend relaxed a ha
  rw [spends, Bool.and_eq_true] at h
  exact (elements_count hkind t _).trans (ActionMachine.count_le_one h.1 h.2 cs p bytes)

namespace Element

/-- Elements none of which sets the same component as another, the headers apart. -/
structure Once (els : List Element) (stream : Text) (base : Nat → Nat) : Prop where
  method : els.countP (fun el => (el.methodIn stream base).isSome) ≤ 1
  version : els.countP (fun el => (el.versionIn stream base).isSome) ≤ 1
  path : els.countP (fun el => (el.pathIn stream base).isSome) ≤ 1
  query : els.countP (fun el => (el.queryIn stream base).isSome) ≤ 1
  fragment : els.countP (fun el => (el.fragmentIn stream base).isSome) ≤ 1

theorem once_walk (relaxed : Bool) (t : Tracker) (cs p : Nat) (bytes stream : Text) (base : Nat → Nat) :
    Once (elements t ((requestMachine relaxed).walk cs p bytes).events) stream base := by
  have hsets : ∀ {V : Type} {f : Element → Option V} {a : Action},
      a ∈ [Action.requestMethod,.requestPath,.fragment,.queryString,.httpVersion] → (∀ el, (f el).isSome = true → el.action = a) →
      (elements t ((requestMachine relaxed).walk cs p bytes).events).countP (fun el => (f el).isSome) ≤ 1 :=
    fun ha hf => elements_once ha hf relaxed t cs p bytes
  constructor
  · exact hsets (a := .requestMethod) (by simp) fun el h => by cases el <;> first | rfl | exact absurd h nofun
  · exact hsets (a := .httpVersion) (by simp) fun el h => by cases el <;> first | rfl | exact absurd h nofun
  · exact hsets (a := .requestPath) (by simp) fun el h => by cases el <;> first | rfl | exact absurd h nofun
  · exact hsets (a := .queryString) (by simp) fun el h => by cases el <;> first | rfl | exact absurd h nofun
  · exact hsets (a := .fragment) (by simp) fun el h => by cases el <;> first | rfl | exact absurd h nofun

section
variable {stream : Text} {base base' : Nat → Nat}

private theorem assign_all_headers (els : List Element) (r : HttpRequest) :
    (els.foldl (assign stream base) r).headers = r.headers.putAll (els.filterMap (·.fieldIn stream base)) := by
  induction els generalizing r with
  | nil => rfl
  | cons el els ih =>
    rw [List.foldl_cons, ih, List.filterMap_cons]
    cases hf : el.fieldIn stream base with
    | none => simp [assign, hf]
    | some f => simp [assign, hf, OrderedMap.putAll]

private theorem good_isSome {el : Element} (h : el.Good stream base) (h' : el.Good stream base') :
    (el.versionIn stream base).isSome = (el.versionIn stream base').isSome := by
  cases el with
  | version s e => exact Eq.trans h h'.symm
  | _ => rfl

private theorem request_eq_iff {a b : HttpRequest} (hclose : a.close = b.close) (hbody : a.body = b.body)
    (hparams : a.params = b.params) (hcookies : a.cookies = b.cookies) :
    a = b ↔ a.method = b.method ∧ a.version = b.version ∧ a.path = b.path ∧ a.query = b.query ∧
      a.fragment = b.fragment ∧ a.headers = b.headers := by
  cases a
  cases b
  simp_all

private theorem foldl_component {V : Type} (get : HttpRequest → V) {f : Element → Option V}
    (hget : ∀ r el, get (assign stream base r el) = (f el).getD (get r)) (els : List Element) (r : HttpRequest) :
    get (els.foldl (assign stream base) r) = els.foldl (fun d el => (f el).getD d) (get r) :=
  (List.foldl_hom get fun r el => (hget r el).symm).symm

private theorem component_iff {V : Type} (get : HttpRequest → V) {f : (Nat → Nat) → Element → Option V}
    (hget : ∀ b r el, get (assign stream b r el) = (f b el).getD (get r)) {els : List Element} (r : HttpRequest)
    (hsome : ∀ el ∈ els, (f base el).isSome = (f base' el).isSome) (hone : els.countP (fun el => (f base el).isSome) ≤ 1) :
    get (els.foldl (assign stream base) r) = get (els.foldl (assign stream base') r) ↔ ∀ el ∈ els, f base el = f base' el := by
  rw [foldl_component get (hget base), foldl_component get (hget base')]
  exact assigned_iff _ hsome hone

private theorem component_same {V : Type} (get : HttpRequest → V) (hget : ∀ b r el, get (assign stream b r el) = get r)
    (els : List Element) (r : HttpRequest) :
    get (els.foldl (assign stream base) r) = get (els.foldl (assign stream base') r) := by
  rw [foldl_component get (f := fun _ => none) (hget base), foldl_component get (f := fun _ => none) (hget base')]

/-- Good elements assign the same in two ways when each sets its component to the same value, the
headers taken together. -/
theorem assign_all_eq_iff {els : List Element} (honce : Once els stream base) (hgood : ∀ el ∈ els, el.Good stream base)
    (hgood' : ∀ el ∈ els, el.Good stream base') {r : HttpRequest} (hr : r.headers = .empty) :
    els.foldl (assign stream base) r = els.foldl (assign stream base') r ↔
      (∀ el ∈ els, el.methodIn stream base = el.methodIn stream base') ∧
      (∀ el ∈ els, el.versionIn stream base = el.versionIn stream base') ∧
      (∀ el ∈ els, el.pathIn stream base = el.pathIn stream base') ∧
      (∀ el ∈ els, el.queryIn stream base = el.queryIn stream base') ∧
      (∀ el ∈ els, el.fragmentIn stream base = el.fragmentIn stream base') ∧
      SameHeaders (els.filterMap (·.fieldIn stream base)) (els.filterMap (·.fieldIn stream base')) := by
  have hheaders : (els.foldl (assign stream base) r).headers = (els.foldl (assign stream base') r).headers ↔
      SameHeaders (els.filterMap (·.fieldIn stream base)) (els.filterMap (·.fieldIn stream base')) := by
    rw [assign_all_headers, assign_all_headers, hr]
    exact OrderedMap.putAll_eq_iff _ _
  rw [request_eq_iff (component_same (·.close) (fun _ _ _ => rfl) ..) (component_same (·.body) (fun _ _ _ => rfl) ..)
      (component_same (·.params) (fun _ _ _ => rfl) ..) (component_same (·.cookies) (fun _ _ _ => rfl) ..),
    component_iff (·.method) (fun _ _ _ => rfl) r (fun el _ => by cases el <;> rfl) honce.method,
    component_iff (·.version) (fun _ _ _ => rfl) r (fun el h => good_isSome (hgood el h) (hgood' el h)) honce.version,
    component_iff (·.path) (fun _ _ _ => rfl) r (fun el _ => by cases el <;> rfl) honce.path,
    component_iff (·.query) (fun _ _ _ => rfl) r (fun el _ => by cases el <;> rfl) honce.query,
    component_iff (·.fragment) (fun _ _ _ => rfl) r (fun el _ => by cases el <;> rfl) honce.fragment, hheaders]

end
end Element
end Radixun.Http
