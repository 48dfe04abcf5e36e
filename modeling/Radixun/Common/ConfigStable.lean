import Radixun.Common.ConfigRegistry

/-! Which requests the map from names to variables survives. -/
namespace Radixun.Common.Config
open Foundation CommandRuns
variable {τ : Type} {V : τ → Type}

inductive Request (V : τ → Type) where
  | lookup (t : τ) (name : List UInt8) (default : V t) (description : List UInt8)
  | find (t : τ) (name : List UInt8)
  | lookupBase (name : List UInt8)
  | load (root : Yaml)

inductive Reply where
  | found (p : Option Nat)
  | invalid (name : List UInt8)
  | done
  deriving DecidableEq

/-- The name a request asks for. -/
def Request.name? : Request V → Option (List UInt8)
  | .lookup _ name _ _ | .find _ name | .lookupBase name => some name
  | .load _ => none

variable [DecidableEq τ]

def step (c : Conversions V) : Request V → Registry V → Except Empty (Reply × Registry V)
  | .lookup t name default description, r =>
    match r.lookup t name default description with
    | (.ok p,r') => .ok (.found (some p),r')
    | (.error e,r') => .ok (.invalid e,r')
  | .find t name, r => .ok (.found (r.find t name),r)
  | .lookupBase name, r => .ok (.found (r.lookupBase name),r)
  | .load root, r => .ok (.done,(c.loadFromYaml r root).2)

/-- Every name goes on to stand for the variable it stands for. -/
def Keeps (r r' : Registry V) : Prop := ∀ name p, r.lookupBase name = some p → r'.lookupBase name = some p

/-- A pointer that is handed out for a name is what the name stands for. -/
def Designates (c : Conversions V) (q : Request V) (r : Registry V) : Prop :=
  ∀ reply r', step c q r = .ok (reply,r') → ∀ name p, q.name? = some name → reply = .found (some p) → r'.lookupBase name = some p

/-- `Lookup` of a name that there is, with a type that its variable does not have. -/
def Mismatch (q : Request V) (r : Registry V) : Prop :=
  ∃ t name default description p, q = .lookup t name default description ∧ r.lookupBase name = some p ∧ r.casts p t = false

/-- Such a `Lookup` changes nothing. -/
def Harmless (c : Conversions V) (q : Request V) (r : Registry V) : Prop :=
  Mismatch q r → ∀ reply r', step c q r = .ok (reply,r') → r' = r

theorem lookup_filter {name key : List UInt8} (h : key ≠ name) (datas : List (List UInt8 × Nat)) :
    (datas.filter fun e => e.1 != name).lookup key = datas.lookup key := by
  induction datas with
  | nil => rfl
  | cons e datas ih =>
    obtain ⟨k,p⟩ := e
    rw [List.filter_cons, List.lookup_cons]
    by_cases hk : k = name
    · have hne : (key == k) = false := beq_eq_false_iff_ne.mpr (by rw [hk]; exact h)
      rw [hk, bne_self_eq_false, if_neg Bool.false_ne_true, ih, ← hk, hne]
    · rw [if_pos (bne_iff_ne.mpr hk), List.lookup_cons, ih]

namespace Registry
variable {r : Registry V} {name : List UInt8} {p : Nat}

omit [DecidableEq τ] in
/-- A name stands for a variable that has it. -/
theorem lookupBase_some (h : r.lookupBase name = some p) : isName name = true ∧ ∃ v, r.heap[p]? = some v ∧ v.name = name := by
  obtain ⟨before,behind,hd,-⟩ := List.lookup_eq_some_iff.mp h
  refine r.named (name,p) ?_
  rw [hd]
  exact List.mem_append_right _ List.mem_cons_self

omit [DecidableEq τ] in
theorem register_ok (r : Registry V) (t : τ) (default : V t) (description : List UInt8) (hn : isName name = true) :
    ∃ r' : Registry V, r.register t name default description = (.ok r.heap.length,r') ∧
    ∀ key, r'.lookupBase key = if key = name then some r.heap.length else r.lookupBase key := by
  refine ⟨_,by rw [register, dif_pos hn],?_⟩
  intro key
  rw [lookupBase, List.lookup_cons]
  by_cases hk : key = name
  · rw [hk, beq_self_eq_true, if_pos rfl]
  · rw [beq_eq_false_iff_ne.mpr hk, if_neg hk, lookup_filter hk]
    rfl

omit [DecidableEq τ] in
theorem register_invalid (r : Registry V) (t : τ) (default : V t) (description : List UInt8) (hn : ¬ isName name = true) :
    r.register t name default description = (.error name,r) := by
  rw [register, dif_neg hn]

end Registry

namespace Conversions
variable (c : Conversions V)

omit [DecidableEq τ] in
theorem loadMember_lookupBase (s : List (Nat × Yaml) × Registry V) (m : List UInt8 × Yaml) (key : List UInt8) :
    (c.loadMember s m).2.lookupBase key = s.2.lookupBase key := by
  rw [loadMember]
  split
  · rfl
  · split <;> rfl

omit [DecidableEq τ] in
/-- Loading changes values, not what the names stand for. -/
theorem loadFromYaml_lookupBase (r : Registry V) (root : Yaml) (key : List UInt8) :
    (c.loadFromYaml r root).2.lookupBase key = r.lookupBase key := by
  have hfold (members : List (List UInt8 × Yaml)) (s : List (Nat × Yaml) × Registry V) :
      (members.foldl c.loadMember s).2.lookupBase key = s.2.lookupBase key := by
    induction members generalizing s with
    | nil => rfl
    | cons m members ih => rw [List.foldl_cons, ih, loadMember_lookupBase]
  exact hfold _ ([],r)

end Conversions

variable {c : Conversions V} {q : Request V} {r r' : Registry V} {reply : Reply}

omit [DecidableEq τ] in
theorem keeps_refl (r : Registry V) : Keeps r r := fun _ _ h => h

/-- A `Lookup` registers a name there was not, or it finds a variable of its type, or it throws. -/
theorem lookup_fits {t : τ} {name description : List UInt8} {default : V t} (h : ¬ Mismatch (.lookup t name default description) r) :
    (∃ r', r.lookup t name default description = (.ok r.heap.length,r') ∧ r.lookupBase name = none ∧
      ∀ key, r'.lookupBase key = if key = name then some r.heap.length else r.lookupBase key) ∨
    (∃ p, r.lookup t name default description = (.ok p,r) ∧ r.lookupBase name = some p) ∨
    r.lookup t name default description = (.error name,r) := by
  rw [Registry.lookup]
  cases hb : r.lookupBase name with
  | some p =>
    cases hc : r.casts p t with
    | true => exact .inr (.inl ⟨p,by simp only [hc, if_true],rfl⟩)
    | false => exact absurd ⟨t,name,default,description,p,rfl,hb,hc⟩ h
  | none =>
    by_cases hn : isName name = true
    · obtain ⟨r',he,hr'⟩ := Registry.register_ok r t default description hn
      exact .inl ⟨r',he,rfl,hr'⟩
    · exact .inr (.inr (Registry.register_invalid r t default description hn))

/-- What a request that fits does: names stay, and what it hands out is what the name stands for. -/
theorem step_fits (h : ¬ Mismatch q r) (he : step c q r = .ok (reply,r')) :
    Keeps r r' ∧ ∀ name p, q.name? = some name → reply = .found (some p) → r'.lookupBase name = some p := by
  cases q with
  | lookup t name default description =>
    rw [step] at he
    obtain ⟨r₁,hl,hnone,hr₁⟩ | ⟨p,hl,hp⟩ | hl := lookup_fits h
    · rw [hl] at he
      cases he
      refine ⟨?_,?_⟩
      · intro key p hkey
        rw [hr₁, if_neg]
        · exact hkey
        · rintro rfl
          rw [hnone] at hkey
          cases hkey
      · intro key p hname hreply
        cases hname
        cases hreply
        rw [hr₁, if_pos rfl]
    · rw [hl] at he
      cases he
      refine ⟨keeps_refl _,?_⟩
      intro key p' hname hreply
      cases hname
      cases hreply
      exact hp
    · rw [hl] at he
      cases he
      exact ⟨keeps_refl _,fun _ _ _ hreply => by cases hreply⟩
  | find t name =>
    cases he
    refine ⟨keeps_refl r,?_⟩
    intro key p hname hreply
    cases hname
    injection hreply with hreply
    exact (Option.filter_eq_some_iff.mp hreply).1
  | lookupBase name =>
    cases he
    refine ⟨keeps_refl r,?_⟩
    intro key p hname hreply
    cases hname
    injection hreply with hreply
  | load root =>
    cases he
    refine ⟨fun key p hkey => ?_,fun _ _ hname => by cases hname⟩
    rw [c.loadFromYaml_lookupBase]
    exact hkey

/-- A `Lookup` with another type puts a new variable in the place of the one there was. -/
theorem step_mismatch (c : Conversions V) (h : Mismatch q r) : ∃ reply r', step c q r = .ok (reply,r') ∧ ¬ Keeps r r' := by
  obtain ⟨t,name,default,description,p,rfl,hp,hc⟩ := h
  obtain ⟨hn,v,hv,-⟩ := Registry.lookupBase_some hp
  obtain ⟨r',he,hr'⟩ := Registry.register_ok r t default description hn
  have hl : r.lookup t name default description = (.ok r.heap.length,r') := by
    rw [Registry.lookup, hp]
    simp only [hc, Bool.false_eq_true, if_false, he]
  refine ⟨.found (some r.heap.length),r',by rw [step, hl],?_⟩
  intro hk
  have hp' := hk name p hp
  rw [hr', if_pos rfl] at hp'
  cases hp'
  exact absurd (List.getElem?_eq_some_iff.mp hv).1 (Nat.lt_irrefl _)

/-- The registry is stable in exactly those runs in which no `Lookup` with a default value asks for a name
that there is with another type. -/
theorem registry_stable_iff (c : Conversions V) (requests : List (Request V)) :
    ((states (step c) requests .empty).Pairwise Keeps ∧ Along (Designates c) (step c) requests .empty ∧
      Along (Harmless c) (step c) requests .empty) ↔ Along (fun q r => ¬ Mismatch q r) (step c) requests .empty := by
  rw [pairwise_states keeps_refl (fun _ _ _ h h' name p hp => h' name p (h name p hp)), ← along_and, ← along_and]
  refine along_congr (I := fun _ => True) ?_ (fun _ _ _ _ _ _ _ => trivial) requests trivial
  intro q r _
  constructor
  · intro h hm
    obtain ⟨reply,r',he,hk⟩ := step_mismatch c hm
    exact hk (h.1 reply r' he)
  · intro h
    refine ⟨fun reply r' he => (step_fits h he).1,?_,fun hm => absurd hm h⟩
    intro reply r' he
    exact (step_fits h he).2

/-- Two types of variables that hold a number, without conversions. -/
private def numbers : Conversions fun _ : Bool => Nat := ⟨fun _ => inferInstance,fun _ _ => none,fun _ => []⟩

/-- `a` is looked up with one type and then with the other. -/
theorem registry_unstable : ¬ ∀ requests : List (Request fun _ : Bool => Nat),
    (states (step numbers) requests .empty).Pairwise Keeps ∧ Along (Designates numbers) (step numbers) requests .empty ∧
      Along (Harmless numbers) (step numbers) requests .empty := by
  intro h
  have hkept := pairwise_last (h ([.lookup true (bytes "a") 1 []] ++ [.lookup false (bytes "a") 2 []])).1 rfl rfl
  have hfound := hkept (bytes "a") 0 rfl
  cases hfound

end Radixun.Common.Config
