import Radixun.Foundation.CriticalSections

/-! `ConfigVar::setValue` under concurrent calls: the listeners are called under the read lock, and the
value is assigned later, under the write lock. -/
namespace Radixun.Common.Config
open Foundation CommandRuns CriticalSections
variable {θ T : Type}

/-- A variable with its listeners by key. A listener records the values it is called with. -/
structure ConfigVar (T : Type) where
  val : T
  cbs : List (UInt64 × List (T × T))

inductive SetSection (T : Type) where
  | notify (v : T)
  | assign (v : T)

namespace ConfigVar

def new (default : T) : ConfigVar T := ⟨default,[]⟩

/-- `addListener`, with the key it returns. Keys grow, so the listener comes last. -/
def addListener (x : ConfigVar T) (key : UInt64) : ConfigVar T := { x with cbs := x.cbs ++ [(key,[])] }

def getValue (x : ConfigVar T) : T := x.val

def exec [BEq T] : SetSection T → ConfigVar T → Except Empty ((SetSection T ⊕ Unit) × ConfigVar T)
  | .notify v, x =>
    if v == x.val then .ok (.inr (),x)
    else .ok (.inl (.assign v),{ x with cbs := x.cbs.map fun l => (l.1,l.2 ++ [(x.val,v)]) })
  | .assign v, x => .ok (.inr (),{ x with val := v })

/-- A variable with its default value and listeners that have not been called yet. -/
def listened (default : T) (keys : List UInt64) : ConfigVar T := keys.foldl addListener (new default)

end ConfigVar

def setValue (T : Type) [BEq T] : Calls T (SetSection T) (ConfigVar T) Unit Empty := ⟨.notify,ConfigVar.exec⟩

/-- Every old value is the new value before it, the first one the given value. -/
def Chained : T → List (T × T) → Prop
  | _, [] => True
  | v, (old,new) :: rest => old = v ∧ Chained new rest

/-- The last new value, or the given one when there was none. -/
def latest (v : T) (record : List (T × T)) : T := record.foldl (fun _ n => n.2) v

/-- Each listener has seen a chain, and it ends with the value when no call is under way. -/
def Consistent (default : T) (s : Config θ (SetSection T) (ConfigVar T)) : Prop :=
  ∀ l ∈ s.shared.cbs, Chained default l.2 ∧ ((∀ t, s.next t = none) → latest default l.2 = s.shared.getValue)

/-- No other call stands between its notification and its assignment when this one is to notify. -/
def Alone [BEq T] : Act θ T → Config θ (SetSection T) (ConfigVar T) → Prop
  | .call _ _, _ => True
  | .step t, s =>
    ∀ v, s.next t = some (.notify v) → (v == s.shared.val) = false → s.shared.cbs ≠ [] → ∀ u w, s.next u ≠ some (.assign w)

/-- The books: all records end with the value, or with what one call is about to assign. -/
inductive Settled (default : T) (s : Config θ (SetSection T) (ConfigVar T)) : Prop where
  | assigned (h : ∀ u w, s.next u ≠ some (.assign w))
    (hl : ∀ l ∈ s.shared.cbs, Chained default l.2 ∧ latest default l.2 = s.shared.val)
  | pending (u : θ) (w : T) (hu : s.next u = some (.assign w)) (hone : ∀ u' w', s.next u' = some (.assign w') → u' = u)
    (hne : w ≠ s.shared.val) (hl : ∀ l ∈ s.shared.cbs, Chained default l.2 ∧ latest default l.2 = w)

theorem chained_append {v : T} {record : List (T × T)} {n : T × T} :
    Chained v (record ++ [n]) ↔ Chained v record ∧ n.1 = latest v record := by
  induction record generalizing v with
  | nil => exact ⟨fun h => ⟨trivial,h.1⟩,fun h => ⟨h.2,trivial⟩⟩
  | cons m record ih =>
    obtain ⟨old,new⟩ := m
    rw [List.cons_append, Chained, Chained, ih, and_assoc]
    rfl

theorem latest_append (v : T) (record : List (T × T)) (n : T × T) : latest v (record ++ [n]) = n.2 := by
  rw [latest, List.foldl_append]
  rfl

theorem cbs_listened (default : T) (keys : List UInt64) : (ConfigVar.listened default keys).cbs = keys.map fun k => (k,[]) := by
  have h (x : ConfigVar T) : (keys.foldl ConfigVar.addListener x).cbs = x.cbs ++ keys.map fun k => (k,[]) := by
    induction keys generalizing x with
    | nil => exact (List.append_nil _).symm
    | cons k keys ih => rw [List.foldl_cons, ih, ConfigVar.addListener, List.append_assoc]; rfl
  exact h (.new default)

theorem val_listened (default : T) (keys : List UInt64) : (ConfigVar.listened default keys).val = default := by
  have h (x : ConfigVar T) : (keys.foldl ConfigVar.addListener x).val = x.val := by
    induction keys generalizing x with
    | nil => rfl
    | cons k keys ih => rw [List.foldl_cons, ih, ConfigVar.addListener]
  exact h (.new default)

variable {default : T} {s s' : Config θ (SetSection T) (ConfigVar T)} {t : θ} {v : T}

theorem settled_listened (default : T) (keys : List UInt64) :
    Settled default (.idle (.listened default keys) : Config θ (SetSection T) (ConfigVar T)) := by
  refine .assigned (fun u w h => by cases h) ?_
  intro l hl
  change l ∈ (ConfigVar.listened default keys).cbs at hl
  rw [cbs_listened] at hl
  obtain ⟨k,-,rfl⟩ := List.mem_map.mp hl
  exact ⟨trivial,(val_listened default keys).symm⟩

theorem Settled.consistent (h : Settled default s) : Consistent default s := by
  intro l hl
  cases h with
  | assigned h hl' => exact ⟨(hl' l hl).1,fun _ => (hl' l hl).2⟩
  | pending u w hu hone hne hl' =>
    refine ⟨(hl' l hl).1,fun hidle => ?_⟩
    rw [hidle u] at hu
    cases hu

/-- Data and assignments under way that are the same as before keep the books. -/
theorem Settled.congr (h : Settled default s) (hx : s'.shared = s.shared)
    (hnext : ∀ u w, s'.next u = some (.assign w) ↔ s.next u = some (.assign w)) : Settled default s' := by
  cases h with
  | assigned h hl =>
    refine .assigned (fun u w hu => h u w ((hnext u w).mp hu)) ?_
    rw [hx]
    exact hl
  | pending u w hu hone hne hl =>
    refine .pending u w ((hnext u w).mpr hu) (fun u' w' hu' => hone u' w' ((hnext u' w').mp hu')) ?_ ?_
    · rw [hx]
      exact hne
    · rw [hx]
      exact hl

variable [DecidableEq θ]

/-- A thread that stood elsewhere goes to a place that is no assignment either. -/
theorem assign_update (hn : ∀ w, s.next t ≠ some (.assign w)) {k : Option (SetSection T)} (hk : ∀ w, k ≠ some (.assign w)) (u : θ)
    (w : T) : Function.update s.next t k u = some (.assign w) ↔ s.next u = some (.assign w) := by
  by_cases hut : u = t
  · rw [hut, Function.update_self]
    exact iff_of_false (hk w) (hn w)
  · rw [Function.update_of_ne hut]

/-- What `setValue` does under the read lock when the value differs. -/
def ConfigVar.notified (x : ConfigVar T) (v : T) : ConfigVar T := { x with cbs := x.cbs.map fun l => (l.1,l.2 ++ [(x.val,v)]) }

/-- A notification while nothing is under way: the records end with the value to be assigned. -/
theorem settled_notify (h : Settled default s) (hne : v ≠ s.shared.val) (hno : ∀ u w, s.next u ≠ some (.assign w))
    (hx : s'.shared = s.shared.notified v) (hnext : s'.next = Function.update s.next t (some (.assign v))) : Settled default s' := by
  cases h with
  | pending u w hu => exact absurd hu (hno u w)
  | assigned h hl =>
    refine .pending t v (by rw [hnext, Function.update_self]) ?_ (by rw [hx]; exact hne) ?_
    · intro u' w' hu'
      by_cases hut : u' = t
      · exact hut
      · rw [hnext, Function.update_of_ne hut] at hu'
        exact absurd hu' (h u' w')
    · intro l hl'
      rw [hx] at hl'
      obtain ⟨m,hm,rfl⟩ := List.mem_map.mp hl'
      obtain ⟨hc,hlast⟩ := hl m hm
      exact ⟨chained_append.mpr ⟨hc,hlast.symm⟩,latest_append default m.2 _⟩

/-- The assignment that is under way: the value is what the records end with. -/
theorem settled_assign (h : Settled default s) (hn : s.next t = some (.assign v)) (hx : s'.shared = { s.shared with val := v })
    (hnext : s'.next = Function.update s.next t none) : Settled default s' := by
  cases h with
  | assigned h => exact absurd hn (h t v)
  | pending u w hu hone hne hl =>
    obtain rfl := hone t v hn
    rw [hn] at hu
    cases hu
    refine .assigned ?_ ?_
    · intro u' w' hu'
      by_cases hut : u' = t
      · rw [hnext, hut, Function.update_self] at hu'
        cases hu'
      · rw [hnext, Function.update_of_ne hut] at hu'
        exact hut (hone u' w' hu')
    · rw [hx]
      exact hl

variable [BEq T] {a : Act θ T} {r : Option Unit}

/-- What an act does to a variable: it leaves it and the assignments under way alone, notifies, or
assigns. -/
theorem act_setValue (h : (setValue T).act a s = .ok (r,s')) :
    (s'.shared = s.shared ∧ ∀ u w, s'.next u = some (.assign w) ↔ s.next u = some (.assign w)) ∨
    (∃ t v, a = .step t ∧ s.next t = some (.notify v) ∧ (v == s.shared.val) = false ∧ s'.shared = s.shared.notified v ∧
      s'.next = Function.update s.next t (some (.assign v))) ∨
    ∃ t v, s.next t = some (.assign v) ∧ s'.shared = { s.shared with val := v } ∧ s'.next = Function.update s.next t none := by
  obtain ⟨rfl,-⟩ | ⟨t,v,-,hn,hx,hnext,-⟩ | ⟨t,k,way,rfl,hn,he,hnext,-⟩ := Calls.act_cases h
  · exact .inl ⟨rfl,fun _ _ => Iff.rfl⟩
  · refine .inl ⟨hx,fun u w => ?_⟩
    rw [hnext]
    exact assign_update (by rw [hn]; intro w hw; cases hw) (by intro w hw; cases hw) u w
  · change ConfigVar.exec k s.shared = _ at he
    cases k with
    | assign v =>
      rw [ConfigVar.exec] at he
      injection he with he
      obtain ⟨rfl,hx⟩ := Prod.mk.inj he
      exact .inr (.inr ⟨t,v,hn,hx.symm,hnext⟩)
    | notify v =>
      rw [ConfigVar.exec] at he
      cases hv : v == s.shared.val with
      | true =>
        rw [hv, if_pos rfl] at he
        injection he with he
        obtain ⟨rfl,hx⟩ := Prod.mk.inj he
        refine .inl ⟨hx.symm,fun u w => ?_⟩
        rw [hnext]
        exact assign_update (by rw [hn]; intro w hw; cases hw) (by intro w hw; cases hw) u w
      | false =>
        rw [hv, if_neg Bool.false_ne_true] at he
        injection he with he
        obtain ⟨rfl,hx⟩ := Prod.mk.inj he
        exact .inr (.inl ⟨t,v,rfl,hn,hv,hx.symm,hnext⟩)

/-- The books of a variable; without listeners there is nothing to keep. -/
def Books (default : T) (s : Config θ (SetSection T) (ConfigVar T)) : Prop := s.shared.cbs = [] ∨ Settled default s

omit [DecidableEq θ] [BEq T] in
theorem Books.consistent (h : Books default s) : Consistent default s := by
  rcases h with h | h
  · intro l hl
    rw [h] at hl
    cases hl
  · exact h.consistent

theorem act_books [ReflBEq T] (h : Books default s) (hal : Alone a s) (he : (setValue T).act a s = .ok (r,s')) : Books default s' := by
  by_cases hcbs : s.shared.cbs = []
  · left
    obtain ⟨hx,-⟩ | ⟨t,v,-,-,-,hx,-⟩ | ⟨t,v,-,hx,-⟩ := act_setValue he
    · rw [hx, hcbs]
    · rw [hx, ConfigVar.notified, hcbs]
      rfl
    · rw [hx, hcbs]
  · right
    have hs := h.resolve_left hcbs
    obtain ⟨hx,hnext⟩ | ⟨t,v,rfl,hn,hv,hx,hnext⟩ | ⟨t,v,hn,hx,hnext⟩ := act_setValue he
    · exact hs.congr hx hnext
    · have hne : v ≠ s.shared.val := by
        rintro rfl
        rw [beq_self_eq_true] at hv
        cases hv
      exact settled_notify hs hne (hal v hn hv hcbs) hx hnext
    · exact settled_assign hs hn hx hnext

/-- A notification before a pending assignment breaks the chain of every listener. -/
theorem act_breaks (h : Books default s) (hal : ¬ Alone a s) : ∃ r s', (setValue T).act a s = .ok (r,s') ∧ ¬ Consistent default s' := by
  cases a with
  | call t v => exact absurd trivial hal
  | step t =>
    simp only [Alone, Classical.not_forall, not_not] at hal
    obtain ⟨v,hn,hv,hcbs,u,w,hu⟩ := hal
    have he : (setValue T).exec (.notify v) s.shared = .ok (.inl (.assign v),s.shared.notified v) := by
      change ConfigVar.exec (.notify v) s.shared = _
      rw [ConfigVar.exec, hv, if_neg Bool.false_ne_true]
      rfl
    refine ⟨_,_,Calls.act_step hn he,?_⟩
    intro hc
    cases h.resolve_left hcbs with
    | assigned h => exact h u w hu
    | pending u' w' _ _ hne hl =>
      obtain ⟨l,hlmem⟩ := List.exists_mem_of_ne_nil _ hcbs
      have hchain := (hc _ (List.mem_map_of_mem hlmem)).1
      exact hne ((hl l hlmem).2.symm.trans (chained_append.mp hchain).2.symm)

/-- All listeners see chains that end with the value, in exactly those runs of concurrent `setValue` calls
in which no call notifies while another one still has to assign. -/
theorem setValue_consistent_iff [ReflBEq T] (default : T) (keys : List UInt64) (acts : List (Act θ T)) :
    (∀ s ∈ states (setValue T).act acts (.idle (.listened default keys)), Consistent default s) ↔
      Along Alone (setValue T).act acts (.idle (.listened default keys)) := by
  have hinit : Settled default (.idle (.listened default keys) : Config θ _ _) := settled_listened default keys
  rw [forall_states_iff, and_iff_right hinit.consistent]
  refine along_congr ?_ (fun a s r s' hb hal he => act_books hb hal he) acts (.inr hinit)
  intro a s hb
  constructor
  · intro h
    apply Classical.byContradiction
    intro hal
    obtain ⟨r,s',he,hc⟩ := act_breaks hb hal
    exact hc (h r s' he)
  · intro hal r s' he
    exact (act_books hb hal he).consistent

private def twice : List (Act Bool Nat) := [.call false 1,.step false,.call true 2,.step false,.step true,.step true]

theorem setValue_consistent_nat :
    (∀ s ∈ states (setValue Nat).act twice (.idle (.listened 0 [1,2])), Consistent 0 s) ↔
      Along Alone (setValue Nat).act twice (.idle (.listened 0 [1,2])) := setValue_consistent_iff 0 [1,2] twice

/-- Both calls notify before they assign. -/
private def crossed : List (Act Bool Nat) :=
  [.call false 1,.call true 2,.step false,.step true,.step true,.step false]

/-- The listener was told 0 to 1 and then 0 to 2, and the value is 1. -/
theorem setValue_crosses : ¬ ∀ acts : List (Act Bool Nat),
    ∀ s ∈ states (setValue Nat).act acts (.idle (.listened 0 [1])), Consistent 0 s := by
  intro h
  have hlast := h crossed _ (List.mem_of_getElem? (i := 6) rfl)
  have hchain := (hlast (1,[(0,1),(0,2)]) List.mem_cons_self).2 ?_
  · cases hchain
  · intro t
    cases t <;> rfl

end Radixun.Common.Config
