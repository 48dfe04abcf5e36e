import Mathlib.Data.List.Forall2
import Radixun.Common.ConfigRegistry

/-! `ConfigVar::fromString`: a conversion from text and a list of listeners, any of which may throw. -/
namespace Radixun.Common.Config
variable {T : Type}

/-- What is thrown: a `std::exception`, or something that is none. -/
inductive Thrown where
  | exception
  | other
  deriving DecidableEq, Repr

/-- How the listener with a key ends when it is called with the old and the new value. -/
abbrev Bodies (T : Type) := UInt64 → T → T → Except Thrown Unit

namespace ConfigVar

/-- The loop of `setValue` over the listeners. A call is recorded when it is made. -/
def notifyAll (bodies : Bodies T) (old v : T) : List (UInt64 × List (T × T)) → Except Thrown Unit × List (UInt64 × List (T × T))
  | [] => (.ok (),[])
  | l :: cbs =>
    match bodies l.1 old v with
    | .error e => (.error e,(l.1,l.2 ++ [(old,v)]) :: cbs)
    | .ok () => ((notifyAll bodies old v cbs).1,(l.1,l.2 ++ [(old,v)]) :: (notifyAll bodies old v cbs).2)

/-- `setValue`: an exception of a listener leaves it before the assignment. -/
def setValue [BEq T] (bodies : Bodies T) (v : T) (x : ConfigVar T) : Except Thrown Unit × ConfigVar T :=
  if v == x.val then (.ok (),x)
  else
    let told := notifyAll bodies x.val v x.cbs
    match told.1 with
    | .error e => (.error e,{ x with cbs := told.2 })
    | .ok () => (.ok (),⟨v,told.2⟩)

/-- `fromString`, which catches a `std::exception` and goes on to the same `return` as without one. -/
def fromString [BEq T] (fromStr : List UInt8 → Except Thrown T) (bodies : Bodies T) (val : List UInt8) (x : ConfigVar T) :
    Except Thrown Bool × ConfigVar T :=
  match fromStr val with
  | .error .exception => (.ok false,x)
  | .error .other => (.error .other,x)
  | .ok v =>
    let set := x.setValue bodies v
    match set.1 with
    | .error .other => (.error .other,set.2)
    | _ => (.ok false,set.2)

/-- The conversion and all the listeners that are to be called succeed. -/
def Accepted [BEq T] (fromStr : List UInt8 → Except Thrown T) (bodies : Bodies T) (val : List UInt8) (x : ConfigVar T) : Prop :=
  ∃ v, fromStr val = .ok v ∧ ((v == x.val) = false → ∀ l ∈ x.cbs, bodies l.1 x.val v = .ok ())

/-- Whether the listener with a key has kept the new value when it throws. -/
abbrev Kept (T : Type) := UInt64 → T → T → Bool

/-- No listener is left with the new value: one that was called with it as the last one threw before it kept it. -/
def Untold (bodies : Bodies T) (kept : Kept T) (old v : T) (cbs cbs' : List (UInt64 × List (T × T))) : Prop :=
  List.Forall₂ (fun l l' => l'.2 = l.2 ∨ latest old l'.2 ≠ v ∨ bodies l.1 old v ≠ .ok () ∧ kept l.1 old v = false) cbs cbs'

/-- An update is reported and made, or neither. -/
structure AllOrNothing [BEq T] (fromStr : List UInt8 → Except Thrown T) (bodies : Bodies T) (kept : Kept T) (val : List UInt8)
    (x : ConfigVar T) : Prop where
  answer : (x.fromString fromStr bodies val).1 = .ok true ↔ Accepted fromStr bodies val x
  made : Accepted fromStr bodies val x → ∀ v, fromStr val = .ok v → (x.fromString fromStr bodies val).2.getValue = v
  refused : ¬ Accepted fromStr bodies val x → (x.fromString fromStr bodies val).1 = .ok false ∧
    (x.fromString fromStr bodies val).2.getValue = x.getValue ∧
    ∀ v, fromStr val = .ok v → Untold bodies kept x.val v x.cbs (x.fromString fromStr bodies val).2.cbs

variable {bodies : Bodies T} {kept : Kept T} {old v : T} {cbs : List (UInt64 × List (T × T))}

/-- The loop calls every listener, or stops at the first that throws. -/
theorem notifyAll_cases (bodies : Bodies T) (old v : T) (cbs : List (UInt64 × List (T × T))) :
    ((∀ l ∈ cbs, bodies l.1 old v = .ok ()) ∧ notifyAll bodies old v cbs = (.ok (),cbs.map fun l => (l.1,l.2 ++ [(old,v)]))) ∨
    ∃ pre l post e, cbs = pre ++ l :: post ∧ (∀ l ∈ pre, bodies l.1 old v = .ok ()) ∧ bodies l.1 old v = .error e ∧
      notifyAll bodies old v cbs =
        (.error e,(pre.map fun l => (l.1,l.2 ++ [(old,v)])) ++ (l.1,l.2 ++ [(old,v)]) :: post) := by
  induction cbs with
  | nil => exact .inl ⟨fun l hl => (by cases hl),rfl⟩
  | cons l cbs ih =>
    cases hl : bodies l.1 old v with
    | error e => exact .inr ⟨[],l,cbs,e,rfl,fun l hl => (by cases hl),hl,by rw [notifyAll, hl]; rfl⟩
    | ok u =>
      obtain ⟨hall,hrest⟩ | ⟨pre,l',post,e,rfl,hpre,hl',hrest⟩ := ih
      · refine .inl ⟨List.forall_mem_cons.mpr ⟨hl,hall⟩,?_⟩
        rw [notifyAll, hl, hrest]
        rfl
      · refine .inr ⟨l :: pre,l',post,e,rfl,List.forall_mem_cons.mpr ⟨hl,hpre⟩,hl',?_⟩
        rw [notifyAll, hl, hrest]
        rfl

theorem untold_refl (old v : T) (cbs : List (UInt64 × List (T × T))) : Untold bodies kept old v cbs cbs :=
  List.forall₂_same.mpr fun _ _ => .inl rfl

/-- A listener that was called is not left with the new value exactly if it threw without keeping it. -/
theorem untold_cons_iff {l : UInt64 × List (T × T)} {cbs' : List (UInt64 × List (T × T))} :
    Untold bodies kept old v (l :: cbs) ((l.1,l.2 ++ [(old,v)]) :: cbs') ↔
      (bodies l.1 old v ≠ .ok () ∧ kept l.1 old v = false) ∧ Untold bodies kept old v cbs cbs' := by
  rw [Untold, List.forall₂_cons]
  apply and_congr_left
  intro _
  constructor
  · rintro (hsame | hlast | hthrew)
    · exact absurd (List.append_right_eq_self.mp hsame) (List.cons_ne_nil _ _)
    · exact absurd (latest_append old l.2 (old,v)) hlast
    · exact hthrew
  · exact fun hthrew => .inr (.inr hthrew)

variable [BEq T] {fromStr : List UInt8 → Except Thrown T} {val : List UInt8} {x : ConfigVar T}

theorem setValue_throws {pre post : List (UInt64 × List (T × T))} {l : UInt64 × List (T × T)} {e : Thrown} (hv : (v == x.val) = false)
    (h : notifyAll bodies x.val v x.cbs = (.error e,pre ++ l :: post)) :
    x.setValue bodies v = (.error e,{ x with cbs := pre ++ l :: post }) := by
  rw [setValue, hv]
  simp only [h]
  rfl

theorem fromString_unconverted (h : fromStr val = .error .exception) : x.fromString fromStr bodies val = (.ok false,x) := by
  rw [fromString, h]

/-- Nothing that `fromString` is called with makes it return true. -/
theorem fromString_not_true : (x.fromString fromStr bodies val).1 ≠ .ok true := by
  unfold fromString
  split
  · exact fun he => by cases he
  · exact fun he => by cases he
  · dsimp only
    split <;> exact fun he => by cases he

theorem fromString_set {out : Except Thrown Unit × ConfigVar T} (h : fromStr val = .ok v) (hs : x.setValue bodies v = out) :
    x.fromString fromStr bodies val = (if out.1 = .error .other then .error .other else .ok false,out.2) := by
  rw [fromString, h]
  simp only [hs]
  obtain ⟨r,x'⟩ := out
  cases r with
  | ok u => rfl
  | error e => cases e <;> rfl

theorem accepted_iff (h : fromStr val = .ok v) :
    Accepted fromStr bodies val x ↔ ((v == x.val) = false → ∀ l ∈ x.cbs, bodies l.1 x.val v = .ok ()) := by
  constructor
  · rintro ⟨v',hv',ha⟩
    rw [h] at hv'
    cases hv'
    exact ha
  · exact fun ha => ⟨v,h,ha⟩

/-- A value that is not converted is refused as a whole. -/
theorem allOrNothing_unconverted (hf : fromStr val = .error .exception) : AllOrNothing fromStr bodies kept val x := by
  have hno : ¬ Accepted fromStr bodies val x := by
    rintro ⟨v,hv,-⟩
    rw [hf] at hv
    cases hv
  refine ⟨iff_of_false fromString_not_true hno,fun ha => absurd ha hno,fun _ => ?_⟩
  rw [fromString_unconverted hf]
  exact ⟨rfl,rfl,fun v _ => untold_refl x.val v x.cbs⟩

/-- So is one that the first listener refuses without keeping it. -/
theorem allOrNothing_first {l : UInt64 × List (T × T)} (hf : fromStr val = .ok v) (hv : (v == x.val) = false)
    (hhead : x.cbs.head? = some l) (hl : bodies l.1 x.val v = .error .exception) (hkept : kept l.1 x.val v = false) :
    AllOrNothing fromStr bodies kept val x := by
  obtain ⟨post,hcbs⟩ := List.head?_eq_some_iff.mp hhead
  have hno : ¬ Accepted fromStr bodies val x := by
    intro ha
    rw [(accepted_iff hf).mp ha hv l (by rw [hcbs]; exact List.mem_cons_self)] at hl
    cases hl
  have htold : notifyAll bodies x.val v x.cbs = (.error .exception,[] ++ (l.1,l.2 ++ [(x.val,v)]) :: post) := by
    rw [hcbs, notifyAll, hl]
    rfl
  refine ⟨iff_of_false fromString_not_true hno,fun ha => absurd ha hno,fun _ => ?_⟩
  rw [fromString_set hf (setValue_throws hv htold)]
  refine ⟨rfl,rfl,fun v' hv' => ?_⟩
  obtain rfl : v = v' := Except.ok.inj (hf.symm.trans hv')
  have hthrew : bodies l.1 x.val v ≠ .ok () := by
    rw [hl]
    exact fun he => by cases he
  change Untold bodies kept x.val v x.cbs ([] ++ (l.1,l.2 ++ [(x.val,v)]) :: post)
  rw [List.nil_append, hcbs]
  exact untold_cons_iff.mpr ⟨⟨hthrew,hkept⟩,untold_refl x.val v post⟩

/-- An update is all or nothing exactly if the conversion throws a `std::exception`, or the first listener does before
it has kept the new value. -/
theorem fromString_allOrNothing_iff (fromStr : List UInt8 → Except Thrown T) (bodies : Bodies T) (kept : Kept T) (val : List UInt8)
    (x : ConfigVar T) :
    AllOrNothing fromStr bodies kept val x ↔ fromStr val = .error .exception ∨
      ∃ v l, fromStr val = .ok v ∧ (v == x.val) = false ∧ x.cbs.head? = some l ∧
        bodies l.1 x.val v = .error .exception ∧ kept l.1 x.val v = false := by
  constructor
  · intro h
    have hno : ¬ Accepted fromStr bodies val x := fun ha => fromString_not_true (h.answer.mpr ha)
    obtain ⟨hfalse,-,huntold⟩ := h.refused hno
    cases hf : fromStr val with
    | error e =>
      cases e with
      | exception => exact .inl rfl
      | other =>
        rw [fromString, hf] at hfalse
        cases hfalse
    | ok v =>
      rw [accepted_iff hf, Classical.not_imp] at hno
      obtain ⟨hv,hthrows⟩ := hno
      obtain ⟨hall,-⟩ | ⟨pre,l,post,e,hcbs,hreturned,hl,htold⟩ := notifyAll_cases bodies x.val v x.cbs
      · exact absurd hall hthrows
      · have hset := fromString_set hf (setValue_throws hv htold)
        rw [hset] at hfalse huntold
        have he : e = .exception := by
          cases e with
          | exception => rfl
          | other => cases hfalse
        have hleft := huntold v hf
        rw [hcbs] at hleft
        cases pre with
        | nil =>
          obtain ⟨⟨-,hkept⟩,-⟩ := untold_cons_iff.mp hleft
          exact .inr ⟨v,l,rfl,hv,by rw [hcbs]; rfl,by rw [hl, he],hkept⟩
        | cons l' pre =>
          -- the first listener returned before another one threw
          obtain ⟨⟨hthrew,-⟩,-⟩ := untold_cons_iff.mp hleft
          exact absurd (hreturned l' List.mem_cons_self) hthrew
  · rintro (hf | ⟨v,l,hf,hv,hhead,hl,hkept⟩)
    · exact allOrNothing_unconverted hf
    · exact allOrNothing_first hf hv hhead hl hkept

/-- A value that differs is converted and set without any listener, and the answer is false. -/
theorem fromString_unreported : ¬ ∀ (fromStr : List UInt8 → Except Thrown Bool) (bodies : Bodies Bool) (kept : Kept Bool)
    (val : List UInt8) (x : ConfigVar Bool), AllOrNothing fromStr bodies kept val x := by
  intro h
  have hanswer := (h (fun _ => .ok true) (fun _ _ _ => .ok ()) (fun _ _ _ => false) [] (.new false)).answer
  cases hanswer.mpr ⟨true,rfl,fun _ l hl => (by cases hl)⟩

end ConfigVar

end Radixun.Common.Config
