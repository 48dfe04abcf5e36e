import Mathlib.Logic.Function.Basic
import Radixun.Common.FiberModel
import Radixun.Foundation.CommandRuns

/-! The pointer `t_fiber` of each thread under the context switches of the fiber class. A switch is
made through any fiber of the program, and goes on wherever the context it goes to was stored last. -/
namespace Radixun.Common.CurrentFiber
open Foundation.CommandRuns

/-- The main fiber of a thread has no main function of its own. -/
inductive Kind where
  | main | task | caller
  deriving DecidableEq, Repr

/-- `t_fiber`, `t_threadFiber` and `t_scheduler_fiber`, and the fiber whose code executes. It is
`none` as long as the thread has no fiber. -/
structure Locals where
  fiber : Option Nat
  threadFiber : Option Nat
  schedulerFiber : Option Nat
  executing : Option Nat
  deriving DecidableEq, Repr

/-- `stored` tells for the `m_ctx` of each fiber whose code was stored there last, and `ended` which fibers stand
behind the end of their main function. -/
structure System (θ : Type) where
  kind : Nat → Kind
  state : Nat → FiberState
  stored : Nat → Nat
  ended : Nat → Bool
  next : Nat
  locals : θ → Locals

inductive Failure where
  | nullFiber | swapIn | yield | reset | neverReach
  deriving DecidableEq, Repr

/-- What a thread does with fibers. `useCaller` is the part of the constructor of a scheduler that
makes the root fiber, `enterRun` is the start of `run` on a thread of the pool, and `finish` is the
end of the main function of the fiber that executes. -/
inductive Act (θ : Type) where
  | newFiber (caller : Bool)
  | reset (f : Nat)
  | getThis (t : θ)
  | useCaller (t : θ)
  | enterRun (t : θ)
  | call (t : θ) (f : Nat)
  | back (t : θ) (f : Nat)
  | swapIn (t : θ) (f : Nat)
  | swapOut (t : θ) (f : Nat)
  | yield (t : θ) (y : Yield)
  | finish (t : θ) (e : Exit)
  deriving DecidableEq

namespace System
variable {θ : Type} [DecidableEq θ]

/-- The context of a new fiber is its own. -/
def init : System θ := ⟨fun _ => .task,fun _ => .init,id,fun _ => false,0,fun _ => ⟨none,none,none,none⟩⟩

def setLocals (s : System θ) (t : θ) (l : Locals) : System θ := { s with locals := Function.update s.locals t l }
def setState (s : System θ) (f : Nat) (state : FiberState) : System θ := { s with state := Function.update s.state f state }

/-- A new fiber and the system with it. -/
def make (s : System θ) (kind : Kind) (state : FiberState) : Nat × System θ :=
  (s.next,{ s with
    kind := Function.update s.kind s.next kind
    state := Function.update s.state s.next state
    next := s.next + 1 })

/-- `Fiber::GetThis`. The first call on a thread makes the fiber of what executes there. -/
def getThis (s : System θ) (t : θ) : Nat × System θ :=
  match (s.locals t).fiber with
  | some f => (f,s)
  | none =>
    let (f,s') := s.make .main .exec
    (f,s'.setLocals t { s.locals t with fiber := some f, threadFiber := some f, executing := some f })

/-- The context is made anew, for `MainFunc`. -/
def reset (s : System θ) (f : Nat) : Except Failure (Unit × System θ) :=
  if s.kind f = .main ∨ (s.state f).disposable = false then .error .reset
  else .ok ((),{ s with
    kind := Function.update s.kind f .task
    state := Function.update s.state f .init
    stored := Function.update s.stored f f
    ended := Function.update s.ended f false })

/-- `SetThis`, and `swapcontext` with the contexts of two fibers: what executes is stored in the first one, and what
is stored in the second one goes on. -/
def switch (s : System θ) (t : θ) (this save load : Option Nat) : Except Failure (Unit × System θ) :=
  match save,load,(s.locals t).executing with
  | some x,some y,some cur =>
    let stored := Function.update s.stored x cur
    if s.ended (stored y) then .error .neverReach
    else .ok ((),{ s with
      stored := stored
      locals := Function.update s.locals t { s.locals t with fiber := this, executing := some (stored y) } })
  | _,_,_ => .error .nullFiber

def call (s : System θ) (t : θ) (f : Nat) : Except Failure (Unit × System θ) :=
  (s.setState f .exec).switch t (some f) (s.locals t).threadFiber (some f)

def back (s : System θ) (t : θ) (f : Nat) : Except Failure (Unit × System θ) :=
  s.switch t (some f) (some f) (s.locals t).threadFiber

def swapIn (s : System θ) (t : θ) (f : Nat) : Except Failure (Unit × System θ) :=
  if s.state f = .exec then .error .swapIn
  else (s.setState f .exec).switch t (some f) (s.locals t).schedulerFiber (some f)

def swapOut (s : System θ) (t : θ) (f : Nat) : Except Failure (Unit × System θ) :=
  s.switch t (s.locals t).schedulerFiber (some f) (s.locals t).schedulerFiber

/-- `YieldToReady` and `YieldToHold`. -/
def yield (s : System θ) (t : θ) (y : Yield) : Except Failure (Unit × System θ) :=
  let (cur,s') := s.getThis t
  if s'.state cur = .exec then (s'.setState cur y.state).swapOut t cur else .error .yield

/-- The end of the `try` block of both main functions. -/
def leave (s : System θ) (f : Nat) (e : Exit) : System θ :=
  { s.setState f (e.stateAfter (s.state f)) with ended := Function.update s.ended f true }

/-- The ends of `MainFunc` and `CallerMainFunc`. -/
def finish (s : System θ) (t : θ) (e : Exit) : Except Failure (Unit × System θ) :=
  match (s.locals t).executing with
  | none => .ok ((),s)
  | some f =>
    match s.kind f with
    | .main => .ok ((),s)
    | .task => (s.leave f e).swapOut t f
    | .caller => (s.leave f e).back t f

def step (a : Act θ) (s : System θ) : Except Failure (Unit × System θ) :=
  match a with
  | .newFiber caller => .ok ((),(s.make (if caller then .caller else .task) .init).2)
  | .reset f => s.reset f
  | .getThis t => .ok ((),(s.getThis t).2)
  | .useCaller t =>
    let (root,s') := (s.getThis t).2.make .caller .init
    .ok ((),s'.setLocals t { s'.locals t with schedulerFiber := some root })
  | .enterRun t =>
    let (f,s') := s.getThis t
    .ok ((),s'.setLocals t { s'.locals t with schedulerFiber := some f })
  | .call t f => s.call t f
  | .back t f => s.back t f
  | .swapIn t f => s.swapIn t f
  | .swapOut t f => s.swapOut t f
  | .yield t y => s.yield t y
  | .finish t e => s.finish t e

/-- On every thread the pointer is to the fiber whose code executes. -/
def Current (s : System θ) : Prop := ∀ t, (s.locals t).fiber = (s.locals t).executing

/-- The context that is gone to is that of the fiber `this`: the code stored there, be it by the switch itself, is its own. -/
def Own (s : System θ) (t : θ) (this save load : Option Nat) : Prop :=
  ∀ x y cur, save = some x → load = some y → (s.locals t).executing = some cur →
    s.ended (Function.update s.stored x cur y) = false → this = some (Function.update s.stored x cur y)

/-- A switch finds the code of the fiber that it sets the pointer to: `call` and `swapIn` their own, `swapOut`, a yield and the
end of `MainFunc` that of the scheduler fiber, and `back` and the end of `CallerMainFunc` that of the fiber they leave. -/
def Finds (s : System θ) (a : Act θ) : Prop :=
  match a with
  | .call t f => s.Own t (some f) (s.locals t).threadFiber (some f)
  | .back t f => s.Own t (some f) (some f) (s.locals t).threadFiber
  | .swapIn t f => s.state f ≠ .exec → s.Own t (some f) (s.locals t).schedulerFiber (some f)
  | .swapOut t f => s.Own t (s.locals t).schedulerFiber (some f) (s.locals t).schedulerFiber
  | .yield t _ =>
    let (f,s') := s.getThis t
    s'.state f = .exec → s'.Own t (s'.locals t).schedulerFiber (some f) (s'.locals t).schedulerFiber
  | .finish t e =>
    ∀ f, (s.locals t).executing = some f → match s.kind f with
      | .main => True
      | .task => (s.leave f e).Own t (s.locals t).schedulerFiber (some f) (s.locals t).schedulerFiber
      | .caller => (s.leave f e).Own t (some f) (some f) (s.locals t).threadFiber
  | _ => True

omit [DecidableEq θ] in
theorem init_current : Current (init : System θ) := fun _ => rfl

theorem setLocals_locals (s : System θ) (t u : θ) (l : Locals) :
    (s.setLocals t l).locals u = if u = t then l else s.locals u := Function.update_apply _ _ _ _

/-- The locals of one thread are replaced by some that agree. -/
theorem Current.setLocals {s : System θ} (h : Current s) (t : θ) {l : Locals} (hl : l.fiber = l.executing) :
    Current (s.setLocals t l) := by
  intro u
  rw [setLocals_locals]
  split
  · exact hl
  · exact h u

theorem Current.getThis {s : System θ} (h : Current s) (t : θ) : Current (s.getThis t).2 := by
  unfold System.getThis
  split
  · exact h
  · exact Current.setLocals (s := (s.make .main .exec).2) h t rfl

/-- What a switch that succeeds does. -/
theorem switch_ok {s s' : System θ} {t : θ} {this save load : Option Nat} (hs : s.switch t this save load = .ok ((),s')) :
    ∃ x y cur, save = some x ∧ load = some y ∧ (s.locals t).executing = some cur ∧
      s.ended (Function.update s.stored x cur y) = false ∧ s'.stored = Function.update s.stored x cur ∧
      s'.locals = Function.update s.locals t { s.locals t with fiber := this, executing := some (Function.update s.stored x cur y) } := by
  unfold switch at hs
  split at hs
  · rename_i x y cur hcur
    dsimp only at hs
    split at hs
    · cases hs
    · rename_i hended
      cases hs
      exact ⟨x,y,cur,rfl,rfl,hcur,Bool.eq_false_iff.mpr hended,rfl,rfl⟩
  · cases hs

/-- Behind a switch the pointers are to what executes exactly if it has found the code it is to find. -/
theorem switch_current_iff {s : System θ} (h : Current s) (t : θ) (this save load : Option Nat) :
    (∀ r s', s.switch t this save load = .ok (r,s') → Current s') ↔ s.Own t this save load := by
  constructor
  · rintro hall x y cur rfl rfl hcur hended
    have hs : s.switch t this (some x) (some y) = .ok ((),{ s with
        stored := Function.update s.stored x cur
        locals := Function.update s.locals t
          { s.locals t with fiber := this, executing := some (Function.update s.stored x cur y) } }) := by
      simp only [switch, hcur, hended, Bool.false_eq_true, if_false]
    have ht := hall () _ hs t
    dsimp only at ht
    rwa [Function.update_self] at ht
  · rintro hown ⟨⟩ s' hs
    obtain ⟨x,y,cur,rfl,rfl,hcur,hended,-,hlocals⟩ := switch_ok hs
    intro u
    rw [hlocals, Function.update_apply]
    split
    · exact hown x y cur rfl rfl hcur hended
    · exact h u

theorem always_iff {α : Type} {P : α → Prop} {x : α} {y : Except Failure (Unit × α)} (h : y = .ok ((),x)) :
    (∀ r s', y = .ok (r,s') → P s') ↔ P x := by
  subst h
  constructor
  · exact fun hall => hall () x rfl
  · rintro hx ⟨⟩ s' hs
    cases hs
    exact hx

/-- A step leaves the pointers to what executes exactly if its switch finds the code it is to find. -/
theorem step_current_iff {s : System θ} (h : Current s) (a : Act θ) :
    (∀ r s', step a s = .ok (r,s') → Current s') ↔ s.Finds a := by
  cases a with
  | newFiber caller => exact (always_iff rfl).trans (iff_of_true h trivial)
  | reset f =>
    refine iff_of_true ?_ trivial
    intro r s' hs
    simp only [step, reset] at hs
    split at hs
    · cases hs
    · cases hs
      exact h
  | getThis t => exact (always_iff rfl).trans (iff_of_true (h.getThis t) trivial)
  | useCaller t =>
    refine (always_iff rfl).trans (iff_of_true ?_ trivial)
    exact Current.setLocals (s := ((s.getThis t).2.make .caller .init).2) (h.getThis t) t (h.getThis t t)
  | enterRun t => exact (always_iff rfl).trans (iff_of_true ((h.getThis t).setLocals t (h.getThis t t)) trivial)
  | call t f => exact switch_current_iff (s := s.setState f .exec) h t _ _ _
  | back t f => exact switch_current_iff h t _ _ _
  | swapIn t f =>
    simp only [step, swapIn, Finds]
    split
    · rename_i hexec
      exact iff_of_true (fun r s' hs => by cases hs) fun hne => absurd hexec hne
    · rename_i hexec
      refine (switch_current_iff (s := s.setState f .exec) h t _ _ _).trans ?_
      exact ⟨fun hown _ => hown,fun himp => himp hexec⟩
  | swapOut t f => exact switch_current_iff h t _ _ _
  | yield t y =>
    simp only [step, yield, Finds]
    split
    · rename_i hexec
      refine (switch_current_iff (s := (s.getThis t).2.setState _ _) (h.getThis t) t _ _ _).trans ?_
      exact ⟨fun hown _ => hown,fun himp => himp hexec⟩
    · rename_i hexec
      exact iff_of_true (fun r s' hs => by cases hs) fun he => absurd he hexec
  | finish t e =>
    simp only [step, finish, Finds]
    cases hx : (s.locals t).executing with
    | none =>
      refine iff_of_true ?_ fun f hf => by cases hf
      rintro r s' hs
      cases hs
      exact h
    | some f =>
      dsimp only
      cases hk : s.kind f with
      | main =>
        refine iff_of_true ?_ ?_
        · rintro r s' hs
          cases hs
          exact h
        · rintro g hg
          cases hg
          rw [hk]
          trivial
      | task =>
        refine (switch_current_iff (s := s.leave f e) h t _ _ _).trans ?_
        constructor
        · rintro hown g hg
          cases hg
          rw [hk]
          exact hown
        · intro hall
          have hown := hall f rfl
          rwa [hk] at hown
      | caller =>
        refine (switch_current_iff (s := s.leave f e) h t _ _ _).trans ?_
        constructor
        · rintro hown g hg
          cases hg
          rw [hk]
          exact hown
        · intro hall
          have hown := hall f rfl
          rwa [hk] at hown

/-- `call` is made by the main fiber, `swapIn` by the scheduler fiber and `swapOut` by the fiber itself, `back` by the main
fiber only, and no called fiber ends. -/
def Disciplined (a : Act θ) (s : System θ) : Prop :=
  match a with
  | .call t _ => (s.locals t).executing = (s.locals t).threadFiber
  | .swapIn t _ => (s.locals t).executing = (s.locals t).schedulerFiber
  | .swapOut t f => (s.locals t).executing = some f
  | .back t f => (s.locals t).executing = some f ∧ (s.locals t).threadFiber = some f
  | .finish t _ => ∀ f, (s.locals t).executing = some f → s.kind f ≠ .caller
  | _ => True

instance (s : System θ) : (a : Act θ) → Decidable (Disciplined a s)
  | .call t _ => inferInstanceAs (Decidable ((s.locals t).executing = (s.locals t).threadFiber))
  | .swapIn t _ => inferInstanceAs (Decidable ((s.locals t).executing = (s.locals t).schedulerFiber))
  | .swapOut t f => inferInstanceAs (Decidable ((s.locals t).executing = some f))
  | .back t f => inferInstanceAs (Decidable ((s.locals t).executing = some f ∧ (s.locals t).threadFiber = some f))
  | .finish t _ => inferInstanceAs (Decidable (∀ f ∈ (s.locals t).executing, s.kind f ≠ .caller))
  | .newFiber _ | .reset _ | .getThis _ | .useCaller _ | .enterRun _ | .yield .. => isTrue trivial

/-- All contexts are their fibers' own. -/
structure Tidy (s : System θ) : Prop where
  current : Current s
  stored : ∀ f, s.stored f = f

/-- A fiber that switches away through its own context to another one. -/
theorem Tidy.switch {s s' : System θ} (h : s.Tidy) {t : θ} {save load : Option Nat} (hsave : (s.locals t).executing = save)
    (hs : s.switch t load save load = .ok ((),s')) : s'.Tidy := by
  obtain ⟨x,y,cur,rfl,rfl,hcur,-,hstored,hlocals⟩ := switch_ok hs
  obtain rfl : cur = x := Option.some.inj (hcur.symm.trans hsave)
  have hown : Function.update s.stored cur cur = s.stored := by
    rw [Function.update_eq_self_iff, h.stored cur]
  rw [hown] at hstored hlocals
  refine ⟨?_,fun f => hstored ▸ h.stored f⟩
  intro u
  rw [hlocals, Function.update_apply]
  split
  · rw [h.stored y]
  · exact h.current u

theorem Tidy.getThis {s : System θ} (h : s.Tidy) (t : θ) : (s.getThis t).2.Tidy := by
  refine ⟨h.current.getThis t,?_⟩
  unfold System.getThis
  split
  · exact h.stored
  · exact h.stored

/-- The fiber that `GetThis` returns executes. -/
theorem Tidy.getThis_executing {s : System θ} (h : s.Tidy) (t : θ) :
    ((s.getThis t).2.locals t).executing = some (s.getThis t).1 := by
  unfold System.getThis
  split
  · rename_i f hf
    exact (h.current t).symm.trans hf
  · dsimp only
    rw [setLocals_locals, if_pos rfl]

theorem step_tidy {s s' : System θ} (h : s.Tidy) {a : Act θ} (ha : Disciplined a s) (hs : step a s = .ok ((),s')) : s'.Tidy := by
  cases a with
  | newFiber caller =>
    cases hs
    exact ⟨h.current,h.stored⟩
  | reset f =>
    simp only [step, reset] at hs
    split at hs
    · cases hs
    · cases hs
      refine ⟨h.current,fun g => ?_⟩
      dsimp only
      rw [Function.update_apply]
      split
      · rename_i hg
        exact hg.symm
      · exact h.stored g
  | getThis t =>
    cases hs
    exact h.getThis t
  | useCaller t =>
    cases hs
    have hthis := h.getThis t
    exact ⟨Current.setLocals (s := ((s.getThis t).2.make .caller .init).2) hthis.current t (hthis.current t),hthis.stored⟩
  | enterRun t =>
    cases hs
    have hthis := h.getThis t
    exact ⟨hthis.current.setLocals t (hthis.current t),hthis.stored⟩
  | call t f => exact Tidy.switch (s := s.setState f .exec) ⟨h.current,h.stored⟩ ha hs
  | back t f =>
    rw [step, back, ha.2] at hs
    exact h.switch ha.1 hs
  | swapIn t f =>
    simp only [step, swapIn] at hs
    split at hs
    · cases hs
    · exact Tidy.switch (s := s.setState f .exec) ⟨h.current,h.stored⟩ ha hs
  | swapOut t f => exact h.switch ha hs
  | yield t y =>
    have hthis := h.getThis t
    simp only [step, yield] at hs
    split at hs
    · exact Tidy.switch (s := (s.getThis t).2.setState _ _) ⟨hthis.current,hthis.stored⟩ (h.getThis_executing t) hs
    · cases hs
  | finish t e =>
    simp only [step, finish] at hs
    cases hx : (s.locals t).executing with
    | none =>
      rw [hx] at hs
      cases hs
      exact h
    | some f =>
      rw [hx] at hs
      cases hk : s.kind f with
      | main =>
        simp only [hk] at hs
        cases hs
        exact h
      | task =>
        simp only [hk] at hs
        exact Tidy.switch (s := s.leave f e) ⟨h.current,h.stored⟩ hx hs
      | caller => exact absurd hk (ha f hx)

/-- Fibers that keep to this never find the code of another one. -/
theorem disciplined_finds (acts : List (Act θ)) (h : Along Disciplined step acts init) :
    Along (fun a s => s.Finds a) step acts init := by
  refine along_imp (I := Tidy) ?_ ?_ acts ⟨init_current,fun f => rfl⟩ h
  · intro a s htidy ha
    exact (step_current_iff htidy.current a).mp fun r s' hs => (step_tidy htidy ha hs).current
  · exact fun a s r s' htidy ha hs => step_tidy htidy ha hs

/-- In every run, each switch leaves the pointers to what executes exactly if it finds the code of the fiber that it
sets the pointer to, and so it does where the fibers keep to the discipline. -/
theorem current_iff (acts : List (Act θ)) :
    (Along (fun a s => ∀ r s', step a s = .ok (r,s') → Current s') step acts init ↔
      Along (fun a s => s.Finds a) step acts init) ∧
    (Along Disciplined step acts init → Along (fun a s => s.Finds a) step acts init) := by
  refine ⟨along_congr (I := Current) ?_ ?_ acts init_current,disciplined_finds acts⟩
  · exact fun a s h => step_current_iff h a
  · exact fun a s r s' h ha hs => (step_current_iff h a).mpr ha r s' hs

/-- A thread enters `run` and resumes a fiber, which yields, is resumed again and ends. -/
theorem current_iff_resumed :
    Along (fun a s => ∀ r s', step a s = .ok (r,s') → Current s') step
      [.enterRun (),.newFiber false,.swapIn () 1,.yield () .toReady,.swapIn () 1,.finish () .returns] (init : System Unit) :=
  (current_iff _).1.mpr ((current_iff _).2 (by decide))

/-- A thread calls a fiber, which goes back to it: its main fiber executes again, but the pointer is to the other one, and
so is the result of `GetThis`. And a fiber swaps in another one, which yields: it is resumed, but the pointer is to the
scheduler fiber. -/
theorem back_keeps_pointer :
    (∃ rs, ∃ s : System Unit, runAll step [.getThis (),.newFiber false,.call () 1,.back () 1] init = .ok (rs,s) ∧
      (s.locals ()).threadFiber = some 0 ∧ (s.locals ()).executing = some 0 ∧ (s.locals ()).fiber = some 1 ∧
      (s.getThis ()).1 = 1) ∧
    ∃ rs, ∃ s : System Unit, runAll step [.enterRun (),.newFiber false,.newFiber false,.swapIn () 1,.swapIn () 2,.yield () .toHold] init =
        .ok (rs,s) ∧ (s.locals ()).executing = some 1 ∧ (s.locals ()).fiber = some 0 :=
  ⟨⟨[(),(),(),()],_,rfl,by decide,by decide,by decide,by decide⟩,[(),(),(),(),(),()],_,rfl,by decide,by decide⟩

end System
end Radixun.Common.CurrentFiber
