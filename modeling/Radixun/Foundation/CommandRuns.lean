import Radixun.Foundation.ExceptionState

/-! Runs of a list of commands on one object. A command replies, raises an exception that
the caller survives, or ends the run. Invariants and simulations pass from one command to runs. -/
namespace Radixun.Foundation.CommandRuns
open ExceptionState
universe u
variable {σ τ ε ι ρ : Type u} {α : Type u}

theorem map_ok {α β : Type*} {f : α → β} {x : Except ε α} {b : β} (h : x.map f = .ok b) : ∃ a, x = .ok a ∧ f a = b := by
  cases x with
  | error e => cases h
  | ok a => exact ⟨a,rfl,Except.ok.inj h⟩

theorem map_error {α β : Type*} {f : α → β} {x : Except ε α} {e : ε} (h : x.map f = .error e) : x = .error e := by
  cases x with
  | error e' => exact congrArg _ (Except.error.inj h)
  | ok a => cases h

theorem map_map {α β γ : Type*} (f : α → β) (g : β → γ) (x : Except ε α) : (x.map f).map g = x.map fun a => g (f a) := by
  cases x <;> rfl

/-- One command as its caller sees it: its result or the exception it survives, and
the state left behind. -/
def observe (survived : ε → Prop) [DecidablePred survived] (x : EStateM ε σ α) (s : σ) : Except ε (Except ε α × σ) :=
  match x s with
  | .ok a s' => .ok (.ok a,s')
  | .error e s' => if survived e then .ok (.error e,s') else .error e

theorem observe_ok {survived : ε → Prop} [DecidablePred survived] {x : EStateM ε σ α} {s s' : σ} {a : α}
    (h : x s = .ok a s') : observe survived x s = .ok (.ok a,s') := by rw [observe, h]

theorem observe_survived {survived : ε → Prop} [DecidablePred survived] {x : EStateM ε σ α} {s s' : σ} {e : ε}
    (h : x s = .error e s') (he : survived e) : observe survived x s = .ok (.error e,s') := by
  simp only [observe, h, if_pos he]

theorem observe_fatal {survived : ε → Prop} [DecidablePred survived] {x : EStateM ε σ α} {s s' : σ} {e : ε}
    (h : x s = .error e s') (he : ¬ survived e) : observe survived x s = .error e := by
  simp only [observe, h, if_neg he]

/-- What `x` keeps is there after every ending its caller sees. -/
theorem observe_keeps {survived : ε → Prop} [DecidablePred survived] {I : σ → Prop} {x : EStateM ε σ α}
    (hx : Keeps survived I x) {s s' : σ} {r : Except ε α} (hs : I s) (h : observe survived x s = .ok (r,s')) : I s' := by
  have hk := hx s hs
  cases he : x s with
  | ok a t =>
    rw [he] at hk
    rw [observe_ok he] at h
    cases h
    exact hk
  | error e t =>
    rw [he] at hk
    by_cases hsv : survived e
    · rw [observe_survived he hsv] at h
      cases h
      exact hk hsv
    · rw [observe_fatal he hsv] at h
      cases h

/-- The replies of a list of commands and the state after them. -/
def runAll (step : ι → σ → Except ε (ρ × σ)) : List ι → σ → Except ε (List ρ × σ)
  | [], s => .ok ([],s)
  | i :: is, s =>
    match step i s with
    | .error e => .error e
    | .ok (r,s') =>
      match runAll step is s' with
      | .error e => .error e
      | .ok (rs,t) => .ok (r :: rs,t)

/-- The same for commands that always reply. -/
def runTotal (step : ι → τ → ρ × τ) : List ι → τ → List ρ × τ
  | [], t => ([],t)
  | i :: is, t => ((step i t).1 :: (runTotal step is (step i t).2).1,(runTotal step is (step i t).2).2)

/-- If each command does what the abstract command does, so does each run. -/
theorem runTotal_refines {step : ι → σ → ρ × σ} {astep : ι → τ → ρ × τ} {R : σ → τ → Prop}
    (hstep : ∀ i s t, R s t → (step i s).1 = (astep i t).1 ∧ R (step i s).2 (astep i t).2)
    (is : List ι) {s : σ} {t : τ} (hR : R s t) :
    (runTotal step is s).1 = (runTotal astep is t).1 ∧ R (runTotal step is s).2 (runTotal astep is t).2 := by
  induction is generalizing s t with
  | nil => exact ⟨rfl,hR⟩
  | cons i is ih =>
    obtain ⟨hreply,hR'⟩ := hstep i s t hR
    obtain ⟨hreplies,hend⟩ := ih hR'
    exact ⟨by rw [runTotal, runTotal, hreply, hreplies],hend⟩

/-- A run ends only with what one of its commands ends with. -/
theorem runAll_error {step : ι → σ → Except ε (ρ × σ)} {I : σ → Prop} {E : ε → Prop}
    (hstep : ∀ i s r s', I s → step i s = .ok (r,s') → I s') (herr : ∀ i s e, I s → step i s = .error e → E e)
    (is : List ι) {s : σ} {e : ε} (hs : I s) (h : runAll step is s = .error e) : E e := by
  induction is generalizing s with
  | nil => cases h
  | cons i is ih =>
    rw [runAll] at h
    cases he : step i s with
    | error e' => rw [he] at h; cases h; exact herr i s e hs he
    | ok out =>
      obtain ⟨r,s'⟩ := out
      simp only [he] at h
      cases hr : runAll step is s' with
      | error e' => rw [hr] at h; cases h; exact ih (hstep i s r s' hs he) hr
      | ok rest => rw [hr] at h; cases h

/-- Every command of the run is given in a state that admits it. -/
def Along (cond : ι → σ → Prop) (step : ι → σ → Except ε (ρ × σ)) : List ι → σ → Prop
  | [], _ => True
  | i :: is, s => cond i s ∧ ∀ r s', step i s = .ok (r,s') → Along cond step is s'

/-- The run completes with a reply from `G` at every command. -/
def Succeeds (G : ρ → Prop) (step : ι → σ → Except ε (ρ × σ)) (is : List ι) (s : σ) : Prop :=
  ∃ rs t, runAll step is s = .ok (rs,t) ∧ ∀ r ∈ rs, G r

theorem along_cons {cond : ι → σ → Prop} {step : ι → σ → Except ε (ρ × σ)} {i : ι} {is : List ι} {s s' : σ} {r : ρ}
    (he : step i s = .ok (r,s')) : Along cond step (i :: is) s ↔ cond i s ∧ Along cond step is s' := by
  refine and_congr_right fun _ => ⟨fun h => h r s' he,fun h r₂ s₂ h₂ => ?_⟩
  rw [he] at h₂
  cases h₂
  exact h

theorem along_stop {cond : ι → σ → Prop} {step : ι → σ → Except ε (ρ × σ)} {i : ι} {is : List ι} {s : σ} {e : ε}
    (he : step i s = .error e) : Along cond step (i :: is) s ↔ cond i s := by
  refine and_iff_left fun r s' h => ?_
  rw [he] at h
  cases h

/-- What holds along a run holds of its last command. -/
theorem along_last {cond : ι → σ → Prop} {step : ι → σ → Except ε (ρ × σ)} {is : List ι} {i : ι} {s t : σ} {rs : List ρ}
    (h : Along cond step (is ++ [i]) s) (hr : runAll step is s = .ok (rs,t)) : cond i t := by
  induction is generalizing s rs with
  | nil => cases hr; exact h.1
  | cons j is ih =>
    rw [runAll] at hr
    cases he : step j s with
    | error e => rw [he] at hr; cases hr
    | ok out =>
      obtain ⟨r,s'⟩ := out
      simp only [he] at hr
      cases hrest : runAll step is s' with
      | error e => rw [hrest] at hr; cases hr
      | ok rest =>
        rw [hrest] at hr
        cases hr
        exact ih (h.2 r s' he) hrest

instance decidableAlong (cond : ι → σ → Prop) [∀ i s, Decidable (cond i s)] (step : ι → σ → Except ε (ρ × σ)) :
    (is : List ι) → (s : σ) → Decidable (Along cond step is s)
  | [], _ => isTrue trivial
  | i :: is, s =>
    match he : step i s with
    | .error _ => decidable_of_iff (cond i s) (along_stop he).symm
    | .ok (_,s') =>
      have := decidableAlong cond step is s'
      decidable_of_iff (cond i s ∧ Along cond step is s') (along_cons he).symm

/-- A condition passes to what it implies wherever an invariant holds, if the commands that meet it
keep the invariant. -/
theorem along_imp {step : ι → σ → Except ε (ρ × σ)} {I : σ → Prop} {P Q : ι → σ → Prop} (hpq : ∀ i s, I s → P i s → Q i s)
    (hstep : ∀ i s r s', I s → P i s → step i s = .ok (r,s') → I s') (is : List ι) {s : σ} (hs : I s)
    (h : Along P step is s) : Along Q step is s := by
  induction is generalizing s with
  | nil => trivial
  | cons i is ih =>
    refine ⟨hpq i s hs h.1,?_⟩
    intro r s' he
    exact ih (hstep i s r s' hs h.1 he) (h.2 r s' he)

theorem along_congr {step : ι → σ → Except ε (ρ × σ)} {I : σ → Prop} {P Q : ι → σ → Prop}
    (hpq : ∀ i s, I s → (P i s ↔ Q i s)) (hstep : ∀ i s r s', I s → Q i s → step i s = .ok (r,s') → I s')
    (is : List ι) {s : σ} (hs : I s) : Along P step is s ↔ Along Q step is s :=
  ⟨along_imp (fun i s hs => (hpq i s hs).mp) (fun i s r s' hs hp => hstep i s r s' hs ((hpq i s hs).mp hp)) is hs,
    along_imp (fun i s hs => (hpq i s hs).mpr) hstep is hs⟩

/-- The induction over a run: what admitted commands keep holds at the end of a run of them. -/
theorem along_keeps {step : ι → σ → Except ε (ρ × σ)} {I : σ → Prop} {cond : ι → σ → Prop}
    (hstep : ∀ i s r s', I s → cond i s → step i s = .ok (r,s') → I s') (is : List ι) {s t : σ} {rs : List ρ} (hs : I s)
    (ha : Along cond step is s) (h : runAll step is s = .ok (rs,t)) : I t := by
  induction is generalizing s rs with
  | nil => cases h; exact hs
  | cons i is ih =>
    rw [runAll] at h
    cases he : step i s with
    | error e => rw [he] at h; cases h
    | ok out =>
      obtain ⟨r,s'⟩ := out
      simp only [he] at h
      cases hr : runAll step is s' with
      | error e => rw [hr] at h; cases h
      | ok rest =>
        rw [hr] at h
        cases h
        exact ih (hstep i s r s' hs ha.1 he) (ha.2 r s' he) hr

theorem along_true (step : ι → σ → Except ε (ρ × σ)) (is : List ι) (s : σ) : Along (fun _ _ => True) step is s := by
  induction is generalizing s with
  | nil => trivial
  | cons i is ih => exact ⟨trivial,fun _ s' _ => ih s'⟩

/-- The same where every command is admitted. -/
theorem runAll_keeps {step : ι → σ → Except ε (ρ × σ)} {I : σ → Prop}
    (hstep : ∀ i s r s', I s → step i s = .ok (r,s') → I s') (is : List ι) {s t : σ} {rs : List ρ} (hs : I s)
    (h : runAll step is s = .ok (rs,t)) : I t :=
  along_keeps (fun i s r s' hs _ => hstep i s r s' hs) is hs (along_true step is s) h

/-- Where admitted commands succeed, a run of admitted commands does. -/
theorem runAll_along {step : ι → σ → Except ε (ρ × σ)} {I : σ → Prop} {G : ρ → Prop} {cond : ι → σ → Prop}
    (hok : ∀ i s, I s → cond i s → ∃ r s', step i s = .ok (r,s') ∧ G r ∧ I s') (is : List ι) {s : σ} (hs : I s)
    (ha : Along cond step is s) : ∃ rs t, runAll step is s = .ok (rs,t) ∧ (∀ r ∈ rs, G r) ∧ I t := by
  induction is generalizing s with
  | nil => exact ⟨[],s,rfl,by simp,hs⟩
  | cons i is ih =>
    obtain ⟨hcond,hrest⟩ := ha
    obtain ⟨r,s',he,hg,hI⟩ := hok i s hs hcond
    obtain ⟨rs,t,hr,hgood,ht⟩ := ih hI (hrest r s' he)
    refine ⟨r :: rs,t,by simp only [runAll, he, hr],?_,ht⟩
    intro x hx
    rcases List.mem_cons.mp hx with rfl | hx
    · exact hg
    · exact hgood x hx

/-- Where every command succeeds, every run does. -/
theorem runAll_total {step : ι → σ → Except ε (ρ × σ)} {I : σ → Prop} (hok : ∀ i s, I s → ∃ r s', step i s = .ok (r,s') ∧ I s')
    (is : List ι) {s : σ} (hs : I s) : ∃ rs t, runAll step is s = .ok (rs,t) ∧ I t := by
  have hadmitted : ∀ i s, I s → True → ∃ r s', step i s = .ok (r,s') ∧ True ∧ I s' := by
    intro i s h _
    obtain ⟨r,s',he,h'⟩ := hok i s h
    exact ⟨r,s',he,trivial,h'⟩
  obtain ⟨rs,t,hr,-,ht⟩ := runAll_along (G := fun _ => True) hadmitted is hs (along_true step is s)
  exact ⟨rs,t,hr,ht⟩

/-- In a run of free commands a command succeeds exactly where it is admitted: so does the run. -/
theorem free_succeeds_iff_along {step : ι → σ → Except ε (ρ × σ)} {I : σ → Prop} {G : ρ → Prop} {free cond : ι → σ → Prop}
    (hok : ∀ i s, I s → free i s → cond i s → ∃ r s', step i s = .ok (r,s') ∧ G r ∧ I s')
    (hbad : ∀ i s, I s → free i s → ¬ cond i s → ∀ r s', step i s = .ok (r,s') → ¬ G r)
    (is : List ι) {s : σ} (hs : I s) (hfree : Along free step is s) : Succeeds G step is s ↔ Along cond step is s := by
  induction is generalizing s with
  | nil => exact iff_of_true ⟨[],s,rfl,by simp⟩ trivial
  | cons i is ih =>
    constructor
    · rintro ⟨rs,t,hr,hgood⟩
      rw [runAll] at hr
      cases he : step i s with
      | error e => rw [he] at hr; cases hr
      | ok out =>
        obtain ⟨r,s'⟩ := out
        simp only [he] at hr
        cases hrest : runAll step is s' with
        | error e => rw [hrest] at hr; cases hr
        | ok rest =>
          rw [hrest] at hr
          cases hr
          have hcond : cond i s := by
            apply Classical.byContradiction
            intro hn
            exact hbad i s hs hfree.1 hn r s' he (hgood r List.mem_cons_self)
          obtain ⟨r₁,s₁,h₁,-,hI⟩ := hok i s hs hfree.1 hcond
          rw [he] at h₁
          cases h₁
          refine (along_cons he).mpr ⟨hcond,(ih hI (hfree.2 r s' he)).mp ?_⟩
          exact ⟨rest.1,rest.2,hrest,fun x hx => hgood x (List.mem_cons_of_mem _ hx)⟩
    · rintro ⟨hcond,hrest⟩
      obtain ⟨r,s',he,hg,hI⟩ := hok i s hs hfree.1 hcond
      obtain ⟨rs,t,hr,hgood⟩ := (ih hI (hfree.2 r s' he)).mpr (hrest r s' he)
      refine ⟨r :: rs,t,by simp only [runAll, he, hr],?_⟩
      intro x hx
      rcases List.mem_cons.mp hx with rfl | hx
      · exact hg
      · exact hgood x hx

/-- A command succeeds exactly where it is admitted: so does a run. -/
theorem succeeds_iff_along {step : ι → σ → Except ε (ρ × σ)} {I : σ → Prop} {G : ρ → Prop} {cond : ι → σ → Prop}
    (hok : ∀ i s, I s → cond i s → ∃ r s', step i s = .ok (r,s') ∧ G r ∧ I s')
    (hbad : ∀ i s, I s → ¬ cond i s → ∀ r s', step i s = .ok (r,s') → ¬ G r)
    (is : List ι) {s : σ} (hs : I s) : Succeeds G step is s ↔ Along cond step is s :=
  free_succeeds_iff_along (fun i s hs _ => hok i s hs) (fun i s hs _ => hbad i s hs) is hs (along_true step is s)

/-- If each command that completes does what the abstract command does, so does each run. -/
theorem runAll_refines {step : ι → σ → Except ε (ρ × σ)} {astep : ι → τ → ρ × τ} {R : σ → τ → Prop}
    (hstep : ∀ i s t r s', R s t → step i s = .ok (r,s') → (astep i t).1 = r ∧ R s' (astep i t).2)
    (is : List ι) {s s' : σ} {t : τ} {rs : List ρ} (hR : R s t) (h : runAll step is s = .ok (rs,s')) :
    (runTotal astep is t).1 = rs ∧ R s' (runTotal astep is t).2 := by
  induction is generalizing s t rs with
  | nil => cases h; exact ⟨rfl,hR⟩
  | cons i is ih =>
    rw [runAll] at h
    cases he : step i s with
    | error e => rw [he] at h; cases h
    | ok out =>
      obtain ⟨r,s₁⟩ := out
      simp only [he] at h
      cases hr : runAll step is s₁ with
      | error e => rw [hr] at h; cases h
      | ok rest =>
        rw [hr] at h
        cases h
        obtain ⟨hrep,hR'⟩ := hstep i s t r s₁ hR he
        obtain ⟨hreps,hend⟩ := ih hR' hr
        exact ⟨by rw [runTotal, hrep, hreps],hend⟩

/-- The states a run goes through. -/
def states (step : ι → σ → Except ε (ρ × σ)) : List ι → σ → List σ
  | [], s => [s]
  | i :: is, s =>
    match step i s with
    | .error _ => [s]
    | .ok (_,s') => s :: states step is s'

theorem self_mem_states (step : ι → σ → Except ε (ρ × σ)) (is : List ι) (s : σ) : s ∈ states step is s := by
  cases is with
  | nil => exact List.mem_cons_self
  | cons i is => rw [states]; split <;> exact List.mem_cons_self

/-- A run that completes ends in one of its states. -/
theorem last_mem_states {step : ι → σ → Except ε (ρ × σ)} (is : List ι) {s t : σ} {rs : List ρ}
    (h : runAll step is s = .ok (rs,t)) : t ∈ states step is s := by
  induction is generalizing s rs with
  | nil => cases h; exact List.mem_cons_self
  | cons i is ih =>
    rw [runAll] at h
    rw [states]
    cases he : step i s with
    | error e => rw [he] at h; cases h
    | ok out =>
      obtain ⟨r,s'⟩ := out
      simp only [he] at h ⊢
      cases hr : runAll step is s' with
      | error e => rw [hr] at h; cases h
      | ok rest => rw [hr] at h; cases h; exact List.mem_cons_of_mem s (ih hr)

/-- One run behind another. -/
theorem runAll_append {step : ι → σ → Except ε (ρ × σ)} (is js : List ι) {s t u : σ} {rs qs : List ρ}
    (hi : runAll step is s = .ok (rs,t)) (hj : runAll step js t = .ok (qs,u)) : runAll step (is ++ js) s = .ok (rs ++ qs,u) := by
  induction is generalizing s rs with
  | nil => cases hi; exact hj
  | cons i is ih =>
    rw [List.cons_append, runAll]
    rw [runAll] at hi
    cases he : step i s with
    | error e => rw [he] at hi; cases hi
    | ok out =>
      obtain ⟨r,s'⟩ := out
      simp only [he] at hi ⊢
      cases hr : runAll step is s' with
      | error e => rw [hr] at hi; cases hi
      | ok rest => rw [hr] at hi; cases hi; rw [ih hr]; rfl

theorem along_and {step : ι → σ → Except ε (ρ × σ)} {P Q : ι → σ → Prop} (is : List ι) {s : σ} :
    Along (fun i s => P i s ∧ Q i s) step is s ↔ Along P step is s ∧ Along Q step is s := by
  induction is generalizing s with
  | nil => exact ⟨fun h => ⟨h,h⟩,fun h => h.1⟩
  | cons i is ih =>
    constructor
    · intro h
      exact ⟨⟨h.1.1,fun r s' he => (ih.mp (h.2 r s' he)).1⟩,⟨h.1.2,fun r s' he => (ih.mp (h.2 r s' he)).2⟩⟩
    · intro h
      exact ⟨⟨h.1.1,h.2.1⟩,fun r s' he => ih.mpr ⟨h.1.2 r s' he,h.2.2 r s' he⟩⟩

/-- Where each command leads to a related state, so does every part of the run. -/
theorem along_states {step : ι → σ → Except ε (ρ × σ)} {R : σ → σ → Prop} (hrefl : ∀ s, R s s)
    (htrans : ∀ s t u, R s t → R t u → R s u) (is : List ι) {s t : σ}
    (h : Along (fun i s => ∀ r s', step i s = .ok (r,s') → R s s') step is s) (ht : t ∈ states step is s) : R s t := by
  induction is generalizing s with
  | nil => rw [List.mem_singleton.mp ht]; exact hrefl s
  | cons i is ih =>
    rw [states] at ht
    cases he : step i s with
    | error e => rw [he] at ht; rw [List.mem_singleton.mp ht]; exact hrefl s
    | ok out =>
      obtain ⟨r,s'⟩ := out
      simp only [he] at ht
      rcases List.mem_cons.mp ht with rfl | ht
      · exact hrefl t
      · exact htrans s s' t (h.1 r s' he) (ih (h.2 r s' he) ht)

/-- A preorder orders the states of a run when it orders those around each command. -/
theorem pairwise_states {step : ι → σ → Except ε (ρ × σ)} {R : σ → σ → Prop} (hrefl : ∀ s, R s s)
    (htrans : ∀ s t u, R s t → R t u → R s u) (is : List ι) {s : σ} :
    (states step is s).Pairwise R ↔ Along (fun i s => ∀ r s', step i s = .ok (r,s') → R s s') step is s := by
  induction is generalizing s with
  | nil => exact ⟨fun _ => trivial,fun _ => List.pairwise_singleton R s⟩
  | cons i is ih =>
    cases he : step i s with
    | error e =>
      rw [along_stop he, states, he]
      refine ⟨fun _ r s' h => ?_,fun _ => List.pairwise_singleton R s⟩
      cases h
    | ok out =>
      obtain ⟨r,s'⟩ := out
      rw [along_cons he, states]
      simp only [he, List.pairwise_cons]
      constructor
      · intro h
        refine ⟨?_,ih.mp h.2⟩
        intro r₂ s₂ h₂
        cases h₂
        exact h.1 s' (self_mem_states step is s')
      · intro h
        exact ⟨fun t ht => htrans s s' t (h.1 r s' rfl) (along_states hrefl htrans is h.2 ht),ih.mpr h.2⟩

/-- The last two states of a run are among its states. -/
theorem pairwise_last {step : ι → σ → Except ε (ρ × σ)} {R : σ → σ → Prop} {is : List ι} {i : ι} {s t t' : σ} {rs : List ρ}
    {r : ρ} (h : (states step (is ++ [i]) s).Pairwise R) (hr : runAll step is s = .ok (rs,t)) (he : step i t = .ok (r,t')) :
    R t t' := by
  induction is generalizing s rs with
  | nil =>
    cases hr
    rw [List.nil_append, states] at h
    simp only [he, List.pairwise_cons] at h
    exact h.1 t' (self_mem_states step [] t')
  | cons j is ih =>
    rw [List.cons_append, states] at h
    rw [runAll] at hr
    cases hj : step j s with
    | error e => rw [hj] at hr; cases hr
    | ok out =>
      obtain ⟨r₁,s₁⟩ := out
      simp only [hj, List.pairwise_cons] at h hr
      cases hrest : runAll step is s₁ with
      | error e => rw [hrest] at hr; cases hr
      | ok rest => rw [hrest] at hr; cases hr; exact ih h.2 hrest

/-- What holds of the first state and behind every command holds of every state of the run. -/
theorem forall_states_iff {step : ι → σ → Except ε (ρ × σ)} (P : σ → Prop) (is : List ι) {s : σ} :
    (∀ t ∈ states step is s, P t) ↔ P s ∧ Along (fun i s => ∀ r s', step i s = .ok (r,s') → P s') step is s := by
  induction is generalizing s with
  | nil =>
    rw [states]
    simp only [List.mem_singleton, forall_eq, Along, and_true]
  | cons i is ih =>
    rw [states]
    cases he : step i s with
    | error e =>
      rw [along_stop he]
      simp only [List.mem_singleton, forall_eq, he]
      refine (and_iff_left ?_).symm
      intro r s' h
      cases h
    | ok out =>
      obtain ⟨r,s'⟩ := out
      rw [along_cons he]
      simp only [List.mem_cons, forall_eq_or_imp, ih]
      refine and_congr_right fun _ => and_congr_left fun _ => ⟨fun h r₂ s₂ h₂ => ?_,fun h => h r s' he⟩
      rw [he] at h₂
      cases h₂
      exact h

/-- A run ends badly exactly where one of its commands does. -/
theorem not_error_iff_along {step : ι → σ → Except ε (ρ × σ)} (E : ε → Prop) (is : List ι) {s : σ} :
    (∀ e, runAll step is s = .error e → ¬ E e) ↔ Along (fun i s => ∀ e, step i s = .error e → ¬ E e) step is s := by
  induction is generalizing s with
  | nil => exact ⟨fun _ => trivial,fun _ e h => by cases h⟩
  | cons i is ih =>
    cases he : step i s with
    | error e =>
      rw [along_stop he, runAll]
      simp only [he, Except.error.injEq]
    | ok out =>
      obtain ⟨r,s'⟩ := out
      rw [along_cons he, ← ih, runAll]
      simp only [he]
      constructor
      · intro h
        refine ⟨fun e h₂ => (by cases h₂),fun e h₂ => h e ?_⟩
        rw [h₂]
      · intro h e h₂
        cases hr : runAll step is s' with
        | error e' => rw [hr] at h₂; cases h₂; exact h.2 e hr
        | ok rest => rw [hr] at h₂; cases h₂

end Radixun.Foundation.CommandRuns
