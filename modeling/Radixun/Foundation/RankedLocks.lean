import Mathlib.Data.Fintype.BigOperators
import Mathlib.Data.Prod.Lex
import Mathlib.Logic.Hydra
import Mathlib.Logic.Relation
import Mathlib.Tactic.Abel
import Radixun.Foundation.CommandRuns
import Radixun.Foundation.Inevitability

/-! Threads that do works on shared data and take locks around them. A work may go on to further
operations, which depend on the data it finds. Where the works keep to an order of the locks, no state of
a run is stuck and every call comes to its end. -/
namespace Radixun.Foundation.RankedLocks
open Relation
universe u
variable {θ L W σ ε ι ξ : Type u}

/-- What a thread does next. -/
inductive Op (L W : Type u) where
  | acquire (l : L)
  | release (l : L)
  | work (w : W)
  deriving DecidableEq

/-- The operations of a call, and what a work does with what it learns of the surroundings: it fails, or
changes the data and puts operations in its place. -/
structure Program (ι ξ L W σ ε : Type u) where
  enter : ι → List (Op L W)
  exec : ξ → W → σ → Except ε (List (Op L W) × σ)

structure Config (θ L W σ : Type u) where
  shared : σ
  owner : L → Option θ
  left : θ → List (Op L W)

/-- A thread begins a call, or does what is in front of it. -/
inductive Act (θ ι ξ : Type u) where
  | call (t : θ) (i : ι)
  | step (t : θ) (x : ξ)

namespace Config

def idle (y : σ) : Config θ L W σ := ⟨y,fun _ => none,fun _ => []⟩

/-- All calls have come to their end and all locks are free. -/
def Quiet (s : Config θ L W σ) : Prop := (∀ t, s.left t = []) ∧ ∀ l, s.owner l = none

/-- The thread is in front of a lock that is taken. -/
def Waits (s : Config θ L W σ) (t : θ) : Prop := ∃ l ops, s.left t = .acquire l :: ops ∧ s.owner l ≠ none

end Config

variable [DecidableEq θ] [DecidableEq L]

/-- The effect of an act. A thread in a call does not begin another one, one between calls has nothing
to do, and one that waits stays where it is. -/
def Program.act (p : Program ι ξ L W σ ε) : Act θ ι ξ → Config θ L W σ → Except ε (PUnit.{u + 1} × Config θ L W σ)
  | .call t i, s =>
    match s.left t with
    | [] => .ok (⟨⟩,{ s with left := Function.update s.left t (p.enter i) })
    | _ :: _ => .ok (⟨⟩,s)
  | .step t x, s =>
    match s.left t with
    | [] => .ok (⟨⟩,s)
    | .acquire l :: ops =>
      if s.owner l = none then
        .ok (⟨⟩,{ s with owner := Function.update s.owner l (some t), left := Function.update s.left t ops })
      else .ok (⟨⟩,s)
    | .release l :: ops => .ok (⟨⟩,{ s with owner := Function.update s.owner l none, left := Function.update s.left t ops })
    | .work w :: ops =>
      match p.exec x w s.shared with
      | .error e => .error e
      | .ok (more,y) => .ok (⟨⟩,⟨y,s.owner,Function.update s.left t (more ++ ops)⟩)

/-- The operations take a thread that holds the locks `H`, the last one first, to one that holds `H'`: the locks
come in the order of their ranks, and the works where they may be done. -/
inductive Follows (rank : L → Nat) (works : W → List L → List L → Prop) : List L → List (Op L W) → List L → Prop
  | nil {H : List L} : Follows rank works H [] H
  | acquire {l : L} {H H' : List L} {ops : List (Op L W)} (above : ∀ h ∈ H, rank h < rank l)
      (rest : Follows rank works (l :: H) ops H') : Follows rank works H (.acquire l :: ops) H'
  | release {l : L} {H H' : List L} {ops : List (Op L W)} (rest : Follows rank works H ops H') :
      Follows rank works (l :: H) (.release l :: ops) H'
  | work {w : W} {H H₁ H' : List L} {ops : List (Op L W)} (allowed : works w H H₁) (rest : Follows rank works H₁ ops H') :
      Follows rank works H (.work w :: ops) H'

variable {rank : L → Nat} {works : W → List L → List L → Prop}

omit [DecidableEq L] in
theorem Follows.append {H H₁ H' : List L} {ops ops' : List (Op L W)} (h : Follows rank works H ops H₁)
    (h' : Follows rank works H₁ ops' H') : Follows rank works H (ops ++ ops') H' := by
  induction h with
  | nil => exact h'
  | acquire above _ ih => exact .acquire above (ih h')
  | release _ ih => exact .release (ih h')
  | work allowed _ ih => exact .work allowed (ih h')

omit [DecidableEq L] in
theorem Follows.held_eq {H H' : List L} (h : Follows rank works H ([] : List (Op L W)) H') : H = H' := by
  cases h
  rfl

omit [DecidableEq L] in
theorem Follows.of_acquire {l : L} {H H' : List L} {ops : List (Op L W)} (h : Follows rank works H (.acquire l :: ops) H') :
    (∀ h ∈ H, rank h < rank l) ∧ Follows rank works (l :: H) ops H' := by
  cases h with
  | acquire above rest => exact ⟨above,rest⟩

omit [DecidableEq L] in
theorem Follows.of_release {l : L} {H H' : List L} {ops : List (Op L W)} (h : Follows rank works H (.release l :: ops) H') :
    ∃ H₀, H = l :: H₀ ∧ Follows rank works H₀ ops H' := by
  cases h with
  | release rest => exact ⟨_,rfl,rest⟩

omit [DecidableEq L] in
theorem Follows.of_work {w : W} {H H' : List L} {ops : List (Op L W)} (h : Follows rank works H (.work w :: ops) H') :
    ∃ H₁, works w H H₁ ∧ Follows rank works H₁ ops H' := by
  cases h with
  | work allowed rest => exact ⟨_,allowed,rest⟩

/-- The calls in question keep to the order: they begin and end with no lock, and what a work goes on to does what
is said of the work, wherever the data are in order. -/
structure Disciplined (p : Program ι ξ L W σ ε) (calls : ι → Prop) (rank : L → Nat) (works : W → List L → List L → Prop)
    (inv : σ → Prop) : Prop where
  enter : ∀ i, calls i → Follows rank works [] (p.enter i) []
  exec : ∀ {x w y ops y' H H'}, inv y → p.exec x w y = .ok (ops,y') → works w H H' → Follows rank works H ops H'
  inv : ∀ {x w y ops y'}, inv y → p.exec x w y = .ok (ops,y') → inv y'

/-- What holds in every state: the data are in order, and each thread holds locks with which its operations
can be done. -/
structure Sound (rank : L → Nat) (works : W → List L → List L → Prop) (inv : σ → Prop) (s : Config θ L W σ) : Prop where
  inv : inv s.shared
  held : ∃ held : θ → List L, (∀ t, Follows rank works (held t) (s.left t) []) ∧
    (∀ t, (held t).Pairwise fun a b => rank b < rank a) ∧ ∀ l t, s.owner l = some t ↔ l ∈ held t

variable {p : Program ι ξ L W σ ε} {calls : ι → Prop} {inv : σ → Prop} {s s' : Config θ L W σ} {t : θ}

theorem Program.act_call {i : ι} {out : PUnit} (h : p.act (.call t i) s = .ok (out,s')) :
    s' = s ∨ s.left t = [] ∧ s' = { s with left := Function.update s.left t (p.enter i) } := by
  rw [act] at h
  cases hl : s.left t with
  | nil =>
    rw [hl] at h
    cases h
    exact .inr ⟨rfl,rfl⟩
  | cons op ops =>
    rw [hl] at h
    cases h
    exact .inl rfl

/-- What a step can do: nothing, or the operation in front of the thread. -/
theorem Program.act_step {x : ξ} {out : PUnit} (h : p.act (.step t x) s = .ok (out,s')) :
    (s' = s ∧ (s.left t = [] ∨ s.Waits t)) ∨
    (∃ l ops, s.left t = .acquire l :: ops ∧ s.owner l = none ∧
      s' = { s with owner := Function.update s.owner l (some t), left := Function.update s.left t ops }) ∨
    (∃ l ops, s.left t = .release l :: ops ∧
      s' = { s with owner := Function.update s.owner l none, left := Function.update s.left t ops }) ∨
    (∃ w ops more y, s.left t = .work w :: ops ∧ p.exec x w s.shared = .ok (more,y) ∧
      s' = ⟨y,s.owner,Function.update s.left t (more ++ ops)⟩) := by
  rw [act] at h
  match hl : s.left t with
  | [] =>
    rw [hl] at h
    cases h
    exact .inl ⟨rfl,.inl rfl⟩
  | .acquire l :: ops =>
    rw [hl] at h
    by_cases ho : s.owner l = none
    · simp only [if_pos ho] at h
      cases h
      exact .inr (.inl ⟨l,ops,rfl,ho,rfl⟩)
    · simp only [if_neg ho] at h
      cases h
      exact .inl ⟨rfl,.inr ⟨l,ops,hl,ho⟩⟩
  | .release l :: ops =>
    rw [hl] at h
    cases h
    exact .inr (.inr (.inl ⟨l,ops,rfl,rfl⟩))
  | .work w :: ops =>
    rw [hl] at h
    cases he : p.exec x w s.shared with
    | error e =>
      simp only [he] at h
      cases h
    | ok out =>
      simp only [he] at h
      cases h
      exact .inr (.inr (.inr ⟨w,ops,out.1,out.2,rfl,he,rfl⟩))

namespace Sound

omit [DecidableEq θ] [DecidableEq L] in
theorem idle {y : σ} (hy : inv y) : Sound rank works inv (.idle y : Config θ L W σ) :=
  ⟨hy,fun _ => [],fun _ => .nil,fun _ => .nil,fun _ _ => by simp [Config.idle]⟩

omit [DecidableEq L] in
private theorem call (hd : Disciplined p calls rank works inv) {i : ι} (hi : calls i) (h : Sound rank works inv s)
    (hl : s.left t = []) :
    Sound rank works inv { s with left := Function.update s.left t (p.enter i) } := by
  obtain ⟨hinv,held,hfollows,hsorted,howner⟩ := h
  refine ⟨hinv,held,?_,hsorted,howner⟩
  intro t'
  by_cases ht : t' = t
  · subst ht
    have hnone : held t' = [] := by
      have hrest := hfollows t'
      rw [hl] at hrest
      exact hrest.held_eq
    simp only [Function.update_self, hnone]
    exact hd.enter i hi
  · simp only [Function.update_of_ne ht]
    exact hfollows t'

private theorem acquire {l : L} {ops : List (Op L W)} (h : Sound rank works inv s) (hl : s.left t = .acquire l :: ops)
    (hfree : s.owner l = none) :
    Sound rank works inv { s with owner := Function.update s.owner l (some t), left := Function.update s.left t ops } := by
  obtain ⟨hinv,held,hfollows,hsorted,howner⟩ := h
  have hrest := hfollows t
  rw [hl] at hrest
  obtain ⟨habove,hops⟩ := hrest.of_acquire
  have hother : ∀ t', l ∉ held t' := by
    intro t' hmem
    rw [← howner, hfree] at hmem
    cases hmem
  refine ⟨hinv,Function.update held t (l :: held t),?_,?_,?_⟩
  · intro t'
    by_cases ht : t' = t
    · subst ht
      simp only [Function.update_self]
      exact hops
    · simp only [Function.update_of_ne ht]
      exact hfollows t'
  · intro t'
    by_cases ht : t' = t
    · subst ht
      rw [Function.update_self]
      exact List.pairwise_cons.mpr ⟨habove,hsorted t'⟩
    · rw [Function.update_of_ne ht]
      exact hsorted t'
  · intro l' t'
    change Function.update s.owner l (some t) l' = some t' ↔ _
    by_cases hl' : l' = l
    · subst hl'
      rw [Function.update_self]
      by_cases ht : t' = t
      · subst ht
        simp
      · rw [Function.update_of_ne ht]
        exact iff_of_false (fun hsome => ht (Option.some.inj hsome).symm) (hother t')
    · rw [Function.update_of_ne hl', howner]
      by_cases ht : t' = t
      · subst ht
        simp [hl']
      · rw [Function.update_of_ne ht]

private theorem release {l : L} {ops : List (Op L W)} (h : Sound rank works inv s) (hl : s.left t = .release l :: ops) :
    Sound rank works inv { s with owner := Function.update s.owner l none, left := Function.update s.left t ops } := by
  obtain ⟨hinv,held,hfollows,hsorted,howner⟩ := h
  have hrest := hfollows t
  rw [hl] at hrest
  obtain ⟨H,hH,hops⟩ := hrest.of_release
  have hfirst := hsorted t
  rw [hH, List.pairwise_cons] at hfirst
  have hlast : l ∉ H := fun hmem => Nat.lt_irrefl _ (hfirst.1 l hmem)
  have hmine : s.owner l = some t := by
    rw [howner, hH]
    exact List.mem_cons_self
  refine ⟨hinv,Function.update held t H,?_,?_,?_⟩
  · intro t'
    by_cases ht : t' = t
    · subst ht
      simp only [Function.update_self]
      exact hops
    · simp only [Function.update_of_ne ht]
      exact hfollows t'
  · intro t'
    by_cases ht : t' = t
    · subst ht
      rw [Function.update_self]
      exact hfirst.2
    · rw [Function.update_of_ne ht]
      exact hsorted t'
  · intro l' t'
    change Function.update s.owner l none l' = some t' ↔ _
    by_cases hl' : l' = l
    · subst hl'
      rw [Function.update_self]
      refine iff_of_false (Option.some_ne_none t').symm ?_
      by_cases ht : t' = t
      · subst ht
        rw [Function.update_self]
        exact hlast
      · rw [Function.update_of_ne ht]
        intro hmem
        have hsame := (howner l' t').mpr hmem
        rw [hmine] at hsame
        exact ht (Option.some.inj hsame).symm
    · rw [Function.update_of_ne hl', howner]
      by_cases ht : t' = t
      · subst ht
        rw [Function.update_self, hH]
        simp [hl']
      · rw [Function.update_of_ne ht]

omit [DecidableEq L] in
private theorem work {x : ξ} {w : W} {ops more : List (Op L W)} {y : σ} (hd : Disciplined p calls rank works inv)
    (h : Sound rank works inv s) (hl : s.left t = .work w :: ops) (he : p.exec x w s.shared = .ok (more,y)) :
    Sound rank works inv ⟨y,s.owner,Function.update s.left t (more ++ ops)⟩ := by
  obtain ⟨hinv,held,hfollows,hsorted,howner⟩ := h
  have hrest := hfollows t
  rw [hl] at hrest
  obtain ⟨H₁,hallowed,hops⟩ := hrest.of_work
  refine ⟨hd.inv hinv he,held,?_,hsorted,howner⟩
  intro t'
  by_cases ht : t' = t
  · subst ht
    simp only [Function.update_self]
    exact (hd.exec hinv he hallowed).append hops
  · simp only [Function.update_of_ne ht]
    exact hfollows t'

/-- The step lemma. -/
theorem act (hd : Disciplined p calls rank works inv) {a : Act θ ι ξ} {out : PUnit} (hcall : ∀ t i, a = .call t i → calls i)
    (h : Sound rank works inv s) (ha : p.act a s = .ok (out,s')) : Sound rank works inv s' := by
  cases a with
  | call t i =>
    obtain rfl | ⟨hl,rfl⟩ := Program.act_call ha
    · exact h
    · exact h.call hd (hcall t i rfl) hl
  | step t x =>
    obtain ⟨rfl,-⟩ | ⟨l,ops,hl,hfree,rfl⟩ | ⟨l,ops,hl,rfl⟩ | ⟨w,ops,more,y,hl,he,rfl⟩ := Program.act_step ha
    · exact h
    · exact h.acquire hl hfree
    · exact h.release hl
    · exact h.work hd hl he

/-- The run lemma. -/
theorem run (hd : Disciplined p calls rank works inv) (acts : List (Act θ ι ξ)) (hcalls : ∀ t i, .call t i ∈ acts → calls i)
    (h : Sound rank works inv s) : ∀ s' ∈ CommandRuns.states p.act acts s, Sound rank works inv s' := by
  apply (CommandRuns.forall_states_iff (fun s => Sound rank works inv s) acts).mpr
  refine ⟨h,?_⟩
  induction acts generalizing s with
  | nil => trivial
  | cons a acts ih =>
    have hstep : ∀ out s', p.act a s = .ok (out,s') → Sound rank works inv s' := by
      intro out s' ha
      refine h.act hd ?_ ha
      rintro t i rfl
      exact hcalls t i List.mem_cons_self
    exact ⟨hstep,fun out s' ha => ih (fun t i hi => hcalls t i (List.mem_cons_of_mem a hi)) (hstep out s' ha)⟩

omit [DecidableEq θ] [DecidableEq L] in
/-- The work in front of a thread is done with locks that are the thread's. -/
theorem front {w : W} {ops : List (Op L W)} (h : Sound rank works inv s) (hl : s.left t = .work w :: ops) :
    ∃ H H', works w H H' ∧ ∀ l ∈ H, s.owner l = some t := by
  obtain ⟨-,held,hfollows,-,howner⟩ := h
  have hrest := hfollows t
  rw [hl] at hrest
  obtain ⟨H',hallowed,-⟩ := hrest.of_work
  exact ⟨held t,H',hallowed,fun l hmem => (howner l t).mpr hmem⟩

omit [DecidableEq θ] [DecidableEq L] in
/-- If all threads in a call wait, each for a lock of a thread that waits for a later one, the ranks have no bound. -/
theorem not_all_wait {n : Nat} (hbound : ∀ l, rank l < n) (h : Sound rank works inv s)
    (hwait : ∀ t, s.left t ≠ [] → s.Waits t) : ∀ t, s.left t = [] := by
  obtain ⟨-,held,hfollows,-,howner⟩ := h
  have hclimb : ∀ k t l ops, s.left t = .acquire l :: ops → s.owner l ≠ none → n - rank l ≤ k → False := by
    intro k
    induction k with
    | zero =>
      intro t l ops _ _ hk
      have hl := hbound l
      omega
    | succ k ih =>
      intro t l ops hl ho hk
      obtain ⟨t',ht'⟩ := Option.ne_none_iff_exists'.mp ho
      have hmem : l ∈ held t' := (howner l t').mp ht'
      have hne : s.left t' ≠ [] := by
        intro hnil
        have hrest := hfollows t'
        rw [hnil] at hrest
        rw [hrest.held_eq] at hmem
        cases hmem
      obtain ⟨l',ops',hl',ho'⟩ := hwait t' hne
      have hrest := hfollows t'
      rw [hl'] at hrest
      obtain ⟨habove,-⟩ := hrest.of_acquire
      have hlt := habove l hmem
      have hn := hbound l'
      exact ih t' l' ops' hl' ho' (by omega)
  intro t
  apply Classical.byContradiction
  intro hne
  obtain ⟨l,ops,hl,ho⟩ := hwait t hne
  exact hclimb _ t l ops hl ho le_rfl

omit [DecidableEq θ] [DecidableEq L] in
/-- No deadlock: of the threads in a call, one does not wait. -/
theorem ready {n : Nat} (hbound : ∀ l, rank l < n) (h : Sound rank works inv s) (hne : s.left t ≠ []) :
    ∃ t', s.left t' ≠ [] ∧ ¬ s.Waits t' := by
  apply Classical.byContradiction
  intro hnone
  push Not at hnone
  exact hne (h.not_all_wait hbound hnone t)

omit [DecidableEq θ] [DecidableEq L] in
/-- Where no thread is in a call, no lock is taken. -/
theorem quiet (h : Sound rank works inv s) (hidle : ∀ t, s.left t = []) : s.Quiet := by
  obtain ⟨-,held,hfollows,-,howner⟩ := h
  refine ⟨hidle,fun l => ?_⟩
  apply Option.eq_none_iff_forall_not_mem.mpr
  intro t ht
  have hmem := (howner l t).mp ht
  have hrest := hfollows t
  rw [hidle t] at hrest
  rw [hrest.held_eq] at hmem
  cases hmem

end Sound

/-- The operations are done one after the other with nothing between them. -/
inductive Program.Does (p : Program ι ξ L W σ ε) (x : ξ) : List (Op L W) → σ → σ → Prop
  | nil {y : σ} : p.Does x [] y y
  | acquire {l : L} {ops : List (Op L W)} {y y' : σ} (rest : p.Does x ops y y') : p.Does x (.acquire l :: ops) y y'
  | release {l : L} {ops : List (Op L W)} {y y' : σ} (rest : p.Does x ops y y') : p.Does x (.release l :: ops) y y'
  | work {w : W} {ops more : List (Op L W)} {y y₁ y' : σ} (exec : p.exec x w y = .ok (more,y₁)) (rest : p.Does x (more ++ ops) y₁ y') :
      p.Does x (.work w :: ops) y y'

omit [DecidableEq L] in
theorem Program.Does.append {x : ξ} {ops ops' : List (Op L W)} {y y₁ y' : σ} (h : p.Does x ops y y₁) (h' : p.Does x ops' y₁ y') :
    p.Does x (ops ++ ops') y y' := by
  induction h with
  | nil => exact h'
  | acquire _ ih => exact .acquire (ih h')
  | release _ ih => exact .release (ih h')
  | work exec _ ih =>
    refine .work exec ?_
    have hmore := ih h'
    rw [List.append_assoc] at hmore
    exact hmore

omit [DecidableEq L] in
/-- Only a lock of its own could keep a thread that is alone waiting, and that comes earlier in the order. -/
theorem Sound.free {l : L} {ops : List (Op L W)} (h : Sound rank works inv s) (hl : s.left t = .acquire l :: ops)
    (halone : ∀ t', t' ≠ t → s.left t' = []) : s.owner l = none := by
  obtain ⟨-,held,hfollows,-,howner⟩ := h
  apply Option.eq_none_iff_forall_not_mem.mpr
  intro t' ht'
  have hmem := (howner l t').mp ht'
  have hrest := hfollows t'
  by_cases ht : t' = t
  · subst ht
    rw [hl] at hrest
    exact Nat.lt_irrefl _ (hrest.of_acquire.1 l hmem)
  · rw [halone t' ht] at hrest
    rw [hrest.held_eq] at hmem
    cases hmem

/-- The thread goes on by itself until all is quiet, and leaves the data. -/
def Program.EndsWith (p : Program ι ξ L W σ ε) (t : θ) (x : ξ) (s : Config θ L W σ) (y : σ) : Prop :=
  ∃ n rs s', CommandRuns.runAll p.act (List.replicate n (.step t x)) s = .ok (rs,s') ∧ s'.shared = y ∧ s'.Quiet

theorem Program.EndsWith.step {x : ξ} {y : σ} (hact : p.act (.step t x) s = .ok (⟨⟩,s')) (h : p.EndsWith t x s' y) :
    p.EndsWith t x s y := by
  obtain ⟨n,rs,s₁,hrun,hend⟩ := h
  refine ⟨n + 1,⟨⟩ :: rs,s₁,?_,hend⟩
  rw [List.replicate_succ, CommandRuns.runAll]
  simp only [hact, hrun]

/-- A thread that is alone comes to the end of its call. -/
theorem Sound.does (hd : Disciplined p calls rank works inv) {x : ξ} {ops : List (Op L W)} {y y' : σ} (hdoes : p.Does x ops y y')
    (h : Sound rank works inv s) (hl : s.left t = ops) (hy : s.shared = y) (halone : ∀ t', t' ≠ t → s.left t' = []) :
    p.EndsWith t x s y' := by
  induction hdoes generalizing s with
  | nil =>
    refine ⟨0,[],s,rfl,hy,h.quiet ?_⟩
    intro t'
    by_cases ht : t' = t
    · rw [ht, hl]
    · exact halone t' ht
  | @acquire l ops y y' rest ih =>
    have hact : p.act (.step t x) s =
        .ok (⟨⟩,{ s with owner := Function.update s.owner l (some t), left := Function.update s.left t ops }) := by
      simp only [Program.act, hl, if_pos (h.free hl halone)]
    refine .step hact (ih (h.act hd (by simp) hact) (Function.update_self ..) hy ?_)
    intro t' ht
    exact (Function.update_of_ne ht ..).trans (halone t' ht)
  | @release l ops y y' rest ih =>
    have hact : p.act (.step t x) s =
        .ok (⟨⟩,{ s with owner := Function.update s.owner l none, left := Function.update s.left t ops }) := by
      simp only [Program.act, hl]
    refine .step hact (ih (h.act hd (by simp) hact) (Function.update_self ..) hy ?_)
    intro t' ht
    exact (Function.update_of_ne ht ..).trans (halone t' ht)
  | @work w ops more y y₁ y' exec rest ih =>
    have hact : p.act (.step t x) s = .ok (⟨⟩,⟨y₁,s.owner,Function.update s.left t (more ++ ops)⟩) := by
      simp only [Program.act, hl, hy, exec]
    refine .step hact (ih (h.act hd (by simp) hact) (Function.update_self ..) rfl ?_)
    intro t' ht
    exact (Function.update_of_ne ht ..).trans (halone t' ht)

/-- A call from a quiet state that no other thread comes between. -/
theorem Sound.call_alone (hd : Disciplined p calls rank works inv) {x : ξ} {i : ι} {y : σ} (hi : calls i) (h : Sound rank works inv s)
    (hquiet : s.Quiet) (hdoes : p.Does x (p.enter i) s.shared y) (t : θ) :
    ∃ s', p.act (.call t i) s = .ok (⟨⟩,s') ∧ p.EndsWith t x s' y := by
  have hact : p.act (.call t i) s = .ok (⟨⟩,{ s with left := Function.update s.left t (p.enter i) }) := by
    simp only [Program.act, hquiet.1 t]
  refine ⟨_,hact,(h.act hd ?_ hact).does hd hdoes (Function.update_self ..) rfl ?_⟩
  · intro t' i' hcall
    cases hcall
    exact hi
  · intro t' ht
    exact (Function.update_of_ne ht ..).trans (hquiet.1 t')

/-- A thread that does not wait does what is in front of it. -/
def Program.Moves (p : Program ι ξ L W σ ε) (s s' : Config θ L W σ) : Prop :=
  ∃ t x, s.left t ≠ [] ∧ ¬ s.Waits t ∧ p.act (.step t x) s = .ok (⟨⟩,s')

/-- A thread is in front of a work that fails. -/
def Program.Fails (p : Program ι ξ L W σ ε) (s : Config θ L W σ) : Prop := ∃ t x e, p.act (.step t x) s = .error e

section Ends
variable [Fintype θ] {α : Type*} [Preorder α]

/-- The operations that take and free a lock weigh less than all works. -/
def Op.weight (weight : W → α) : Op L W → WithBot α
  | .work w => weight w
  | _ => ⊥

/-- What all threads have in front of them. -/
def Config.ahead (weight : W → α) (s : Config θ L W σ) : Multiset (WithBot α) :=
  ∑ t, (((s.left t).map (Op.weight weight) : List (WithBot α)) : Multiset (WithBot α))

omit [DecidableEq L] [Preorder α] in
theorem Config.ahead_update {weight : W → α} {op : Op L W} {ops more : List (Op L W)} (hl : s.left t = op :: ops) {y : σ}
    {owner : L → Option θ} :
    (⟨y,owner,Function.update s.left t (more ++ ops)⟩ : Config θ L W σ).ahead weight + {op.weight weight} =
      s.ahead weight + ((more.map (Op.weight weight) : List (WithBot α)) : Multiset (WithBot α)) := by
  have hothers : ∀ t' ∈ Finset.univ.erase t, (((Function.update s.left t (more ++ ops) t').map (Op.weight weight) : List (WithBot α)) :
      Multiset (WithBot α)) = ((s.left t').map (Op.weight weight) : List (WithBot α)) := by
    intro t' ht
    rw [Function.update_of_ne (Finset.ne_of_mem_erase ht)]
  simp only [ahead]
  rw [← Finset.add_sum_erase _ _ (Finset.mem_univ t), ← Finset.add_sum_erase _ (fun t => _) (Finset.mem_univ t),
    Finset.sum_congr rfl hothers, Function.update_self, hl, List.map_append, List.map_cons, ← Multiset.coe_add, ← Multiset.cons_coe,
    ← Multiset.singleton_add]
  abel

omit [DecidableEq L] [Preorder α] in
theorem Config.ahead_tail {weight : W → α} {op : Op L W} {ops : List (Op L W)} (hl : s.left t = op :: ops) {y : σ} {owner : L → Option θ} :
    (⟨y,owner,Function.update s.left t ops⟩ : Config θ L W σ).ahead weight + {op.weight weight} = s.ahead weight + 0 := by
  have hmore : (⟨y,owner,Function.update s.left t ([] ++ ops)⟩ : Config θ L W σ).ahead weight + {op.weight weight} =
      s.ahead weight + (([] : List (WithBot α)) : Multiset (WithBot α)) := ahead_update hl
  exact hmore

theorem Program.Moves.lighter {weight : W → α} (h : p.Moves s s') (hs : Sound rank works inv s)
    (hless : ∀ {x w y ops y'}, inv y → p.exec x w y = .ok (ops,y') → ∀ w', .work w' ∈ ops → weight w' < weight w) :
    CutExpand (· < ·) (s'.ahead weight) (s.ahead weight) := by
  obtain ⟨t,x,hne,hgo,ha⟩ := h
  obtain ⟨-,hnil | hwait⟩ | ⟨l,ops,hl,-,rfl⟩ | ⟨l,ops,hl,rfl⟩ | ⟨w,ops,more,y,hl,he,rfl⟩ := Program.act_step ha
  · exact absurd hnil hne
  · exact absurd hwait hgo
  · exact ⟨0,_,by simp,Config.ahead_tail hl⟩
  · exact ⟨0,_,by simp,Config.ahead_tail hl⟩
  · refine ⟨_,_,?_,Config.ahead_update hl⟩
    intro a hmem
    obtain ⟨op,hop,rfl⟩ := List.mem_map.mp (Multiset.mem_coe.mp hmem)
    cases op with
    | acquire l => exact WithBot.bot_lt_coe _
    | release l => exact WithBot.bot_lt_coe _
    | work w' => exact WithBot.coe_lt_coe.mpr (hless hs.inv he w' hop)

/-- Whatever the order of the steps, the calls that have begun come to their end. -/
theorem Sound.comes_to_rest [WellFoundedLT α] [Inhabited ξ] {weight : W → α} {n : Nat} (hd : Disciplined p calls rank works inv)
    (hbound : ∀ l, rank l < n)
    (hless : ∀ {x w y ops y'}, inv y → p.exec x w y = .ok (ops,y') → ∀ w', .work w' ∈ ops → weight w' < weight w)
    (h : Sound rank works inv s) : Inevitable p.Moves (fun s => s.Quiet ∨ p.Fails s) s := by
  have hwf : WellFounded (CutExpand ((· < ·) : WithBot α → WithBot α → Prop)) := WellFounded.cutExpand wellFounded_lt
  generalize hm : s.ahead weight = m
  induction m using hwf.induction generalizing s with
  | _ m ih =>
    subst hm
    by_cases hidle : ∀ t, s.left t = []
    · exact .now (.inl (h.quiet hidle))
    push Not at hidle
    obtain ⟨t₀,hne₀⟩ := hidle
    obtain ⟨t,hne,hgo⟩ := h.ready hbound hne₀
    cases ha : p.act (.step t default) s with
    | error e => exact .now (.inr ⟨t,default,e,ha⟩)
    | ok out =>
      refine .later ⟨out.2,t,default,hne,hgo,ha⟩ ?_
      intro s' hmove
      obtain ⟨t',x',-,-,ha'⟩ := id hmove
      exact ih _ (hmove.lighter h hless) (h.act hd (by simp) ha') rfl

end Ends

end Radixun.Foundation.RankedLocks
