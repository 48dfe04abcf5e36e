import Radixun.Common.FiberSystem

/-! What holds of all fibers, threads and queue entries between two steps, and the ways a step can change them. A thread has
two seats for fibers, the loop of `run` and `call`, and a fiber sits on one at most. -/
namespace Radixun.Common.Scheduler

/-- State and context agree: which states a fiber can have at its entry, inside and past its end. -/
def Sound (f : Fiber) : Prop :=
  match f.ctx with
  | .entry => f.state = .init ∨ f.state = .exec
  | .inside _ => f.state = .exec ∨ f.state = .hold ∨ f.state = .ready
  | .past => f.state = .term ∨ f.state = .except

/-- There is a callback for the fiber to run. -/
def HasWork (f : Fiber) : Prop := f.ctx = .entry → f.cb.isSome = true

/-- A fiber object that `run` keeps for its next callback. -/
def Vacant (f : Fiber) : Prop := f.state = .init ∧ f.cb = none

instance (f : Fiber) : Decidable (Vacant f) := inferInstanceAs (Decidable (_ ∧ _))

theorem new_resting (b : Behaviour) (caller : Bool) : Sound (.new b caller) ∧ (Fiber.new b caller).state ≠ .exec := by
  refine ⟨.inl rfl,?_⟩
  intro hexec
  cases hexec

/-- What holds of a fiber that a thread is with. -/
def Phase.Fits : Phase → Fiber → Prop
  | .executing, f => Sound f ∧ f.state = .exec ∧ HasWork f
  | .leaving _ ctx, f => Sound { f with ctx := ctx } ∧ f.state ≠ .exec ∧ f.state ≠ .init
  | .out, f => Sound f ∧ f.state ≠ .exec ∧ f.state ≠ .init

theorem Phase.Fits.not_vacant {ph : Phase} {f : Fiber} (h : ph.Fits f) : ¬ Vacant f := by
  intro hv
  cases ph with
  | executing =>
    have hexec := h.2.1
    rw [hv.1] at hexec
    cases hexec
  | leaving exit ctx => exact h.2.2 hv.1
  | out => exact h.2.2 hv.1

inductive Seat (n : Nat) where
  | turn (w : Fin n)
  | called (w : Fin n)
  deriving DecidableEq

namespace System
variable {n : Nat}

def seat (s : System n) : Seat n → Option (Nat × Phase)
  | .turn w => (s.workers w).turn.map fun t => (t.fiber,t.phase)
  | .called w => (s.workers w).called

@[simp, grind =] theorem setFiber_fibers (s : System n) (i j : Nat) (f : Fiber) :
    (s.setFiber i f).fibers j = if j = i then some f else s.fibers j := Function.update_apply _ _ _ _
@[simp, grind =] theorem setFiber_workers (s : System n) (i : Nat) (f : Fiber) : (s.setFiber i f).workers = s.workers := rfl
@[simp, grind =] theorem setFiber_queued (s : System n) (i : Nat) (f : Fiber) : (s.setFiber i f).queued = s.queued := rfl
@[simp, grind =] theorem setFiber_handles (s : System n) (i : Nat) (f : Fiber) : (s.setFiber i f).handles = s.handles := rfl
@[simp, grind =] theorem setFiber_next (s : System n) (i : Nat) (f : Fiber) : (s.setFiber i f).next = s.next := rfl
@[simp, grind =] theorem setFiber_seat (s : System n) (i : Nat) (f : Fiber) : (s.setFiber i f).seat = s.seat := rfl
@[simp, grind =] theorem setWorker_workers (s : System n) (w v : Fin n) (x : Worker) :
    (s.setWorker w x).workers v = if v = w then x else s.workers v := Function.update_apply _ _ _ _
@[simp, grind =] theorem setWorker_fibers (s : System n) (w : Fin n) (x : Worker) : (s.setWorker w x).fibers = s.fibers := rfl
@[simp, grind =] theorem setWorker_queued (s : System n) (w : Fin n) (x : Worker) : (s.setWorker w x).queued = s.queued := rfl
@[simp, grind =] theorem setWorker_handles (s : System n) (w : Fin n) (x : Worker) : (s.setWorker w x).handles = s.handles := rfl
@[simp, grind =] theorem setWorker_next (s : System n) (w : Fin n) (x : Worker) : (s.setWorker w x).next = s.next := rfl

theorem setWorker_turn (s : System n) {w : Fin n} {x : Worker} (hx : x.called = (s.workers w).called) (p : Seat n) :
    (s.setWorker w x).seat p = if p = .turn w then x.turn.map (fun t => (t.fiber,t.phase)) else s.seat p := by
  cases p with
  | turn v =>
    by_cases hv : v = w
    · simp [seat, hv]
    · simp [seat, hv]
  | called v =>
    by_cases hv : v = w
    · simp [seat, hv, hx]
    · simp [seat, hv]

theorem setWorker_called (s : System n) {w : Fin n} {x : Worker} (hx : x.turn = (s.workers w).turn) (p : Seat n) :
    (s.setWorker w x).seat p = if p = .called w then x.called else s.seat p := by
  cases p with
  | turn v =>
    by_cases hv : v = w
    · simp [seat, hv, hx]
    · simp [seat, hv]
  | called v =>
    by_cases hv : v = w
    · simp [seat, hv]
    · simp [seat, hv]

theorem held_iff (s : System n) (i : Nat) : s.held i ↔ ∃ p ph, s.seat p = some (i,ph) := by
  constructor
  · rintro ⟨w,hw⟩
    rw [Worker.holds, Bool.or_eq_true, Option.any_eq_true, Option.any_eq_true] at hw
    obtain ⟨t,ht,hi⟩ | ⟨⟨j,ph⟩,hc,hi⟩ := hw
    · obtain rfl := of_decide_eq_true hi
      exact ⟨.turn w,t.phase,by rw [seat, ht]; rfl⟩
    · obtain rfl := of_decide_eq_true hi
      exact ⟨.called w,ph,hc⟩
  · rintro ⟨p,ph,hp⟩
    cases p with
    | turn w =>
      obtain ⟨t,ht,heq⟩ := Option.map_eq_some_iff.mp hp
      cases heq
      exact ⟨w,by simp [Worker.holds, ht]⟩
    | called w =>
      have hc : (s.workers w).called = some (i,ph) := hp
      exact ⟨w,by simp [Worker.holds, hc]⟩

end System

/-- Fibers on their seats: each fits its phase and sits on no other seat. The others do not execute. -/
structure Seated {n : Nat} (fibers : Nat → Option Fiber) (seat : Seat n → Option (Nat × Phase)) : Prop where
  fits : ∀ p i ph, seat p = some (i,ph) → ∃ f, fibers i = some f ∧ ph.Fits f
  one : ∀ p q i ph ph', seat p = some (i,ph) → seat q = some (i,ph') → p = q
  rest : ∀ i f, fibers i = some f → (∀ p ph, seat p ≠ some (i,ph)) → Sound f ∧ f.state ≠ .exec

/-- The fiber that a thread keeps for callbacks runs one, or is vacant. -/
structure Kept {n : Nat} (fibers : Nat → Option Fiber) (workers : Fin n → Worker) : Prop where
  cb : ∀ w i, (workers w).cbFiber = some i → ∃ f, fibers i = some f ∧ f.caller = false ∧
    ((∃ ph, (workers w).turn = some ⟨i,.cb,ph⟩) ∨ Vacant f)
  role : ∀ w i role ph, (workers w).turn = some ⟨i,role,ph⟩ → (role = .cb ↔ (workers w).cbFiber = some i)
  one : ∀ v w i, (workers v).cbFiber = some i → (workers w).cbFiber = some i → v = w

structure Inv {n : Nat} (s : System n) : Prop where
  fresh : ∀ i f, s.fibers i = some f → i < s.next
  seated : Seated s.fibers s.seat
  kept : Kept s.fibers s.workers
  taken : ∀ w task, (s.workers w).taken = some task →
    (s.workers w).turn = none ∧ ∀ i ∈ task.fiber?, (s.fibers i).isSome = true
  queue : ∀ i ∈ s.queued, (s.fibers i).isSome = true
  handles : ∀ i ∈ s.handles, (s.fibers i).isSome = true

theorem inv_init {n : Nat} (home : Fin n → Home) : Inv (System.init home) where
  fresh := fun _ _ h => by cases h
  seated := by
    refine ⟨?_,?_,fun _ _ h => by cases h⟩
    · intro p i ph h
      cases p <;> cases h
    · intro p q i ph ph' h
      cases p <;> cases h
  kept := by
    refine ⟨?_,?_,?_⟩
    · intro w i h
      cases h
    · intro w i role ph h
      cases h
    · intro v w i h
      cases h
  taken := fun _ _ h => by cases h
  queue := fun _ h => absurd h List.not_mem_nil
  handles := fun _ h => absurd h List.not_mem_nil

section
variable {n : Nat} {fibers fibers' : Nat → Option Fiber}

/-- Fiber `i` becomes `g`, and sits down, goes on to another phase or gets up from seat `p`. -/
theorem Seated.update {seat seat' : Seat n → Option (Nat × Phase)} (h : Seated fibers seat) {p : Seat n} {i : Nat} {g : Fiber}
    {o : Option Phase} (hfree : ∀ q ph, q ≠ p → seat q ≠ some (i,ph)) (hthere : ∀ j ph, seat p = some (j,ph) → j = i)
    (hfits : ∀ ph, o = some ph → ph.Fits g) (hrest : o = none → Sound g ∧ g.state ≠ .exec)
    (hfibers : ∀ j, fibers' j = if j = i then some g else fibers j)
    (hseat : ∀ q, seat' q = if q = p then o.map (fun ph => (i,ph)) else seat q) : Seated fibers' seat' where
  fits := by
    intro q j ph hq
    have hold := h.fits q j ph
    have hfree := hfree q ph
    rw [hseat] at hq
    split at hq
    · obtain ⟨_,ho,heq⟩ := Option.map_eq_some_iff.mp hq
      cases heq
      exact ⟨g,by rw [hfibers, if_pos rfl],hfits _ ho⟩
    · rename_i hqp
      have hji : j ≠ i := fun heq => hfree hqp (heq ▸ hq)
      obtain ⟨f,hf,hfit⟩ := hold hq
      exact ⟨f,by rw [hfibers, if_neg hji, hf],hfit⟩
  one := by
    intro q r j ph ph' hq hr
    rw [hseat] at hq hr
    have hsit : ∀ {ph}, o.map (fun ph => (i,ph)) = some (j,ph) → j = i := by
      intro ph ho
      obtain ⟨_,_,heq⟩ := Option.map_eq_some_iff.mp ho
      cases heq
      rfl
    split at hq <;> split at hr
    · rename_i hqp hrp
      exact hqp.trans hrp.symm
    · rename_i hrp
      exact absurd (hsit hq ▸ hr) (hfree r ph' hrp)
    · rename_i hqp _
      exact absurd (hsit hr ▸ hq) (hfree q ph hqp)
    · exact h.one q r j ph ph' hq hr
  rest := by
    intro j f hj hno
    rw [hfibers] at hj
    split at hj
    · rename_i hji
      cases hj
      cases o with
      | none => exact hrest rfl
      | some ph => exact absurd (by rw [hseat, if_pos rfl, hji]; rfl) (hno p ph)
    · rename_i hji
      refine h.rest j f hj fun q ph hq => ?_
      by_cases hqp : q = p
      · exact hji (hthere j ph (hqp ▸ hq))
      · exact hno q ph (by rw [hseat, if_neg hqp, hq])

/-- Fiber `i` becomes `g` and thread `w` has other locals. -/
theorem Kept.update {workers : Fin n → Worker} (h : Kept fibers workers) {w : Fin n} {x : Worker} {i : Nat} {g : Fiber}
    (hother : ∀ v, v ≠ w → (workers v).cbFiber ≠ some i)
    (hkept : x.cbFiber = some i → g.caller = false ∧ ((∃ ph, x.turn = some ⟨i,.cb,ph⟩) ∨ Vacant g))
    (hsame : ∀ j, j ≠ i → x.cbFiber = some j → (workers w).cbFiber = some j ∧
      ∀ ph, (workers w).turn = some ⟨j,.cb,ph⟩ → ∃ ph', x.turn = some ⟨j,.cb,ph'⟩)
    (hrole : ∀ j role ph, x.turn = some ⟨j,role,ph⟩ → (role = .cb ↔ x.cbFiber = some j))
    (hfibers : ∀ j, fibers' j = if j = i then some g else fibers j) : Kept fibers' (Function.update workers w x) where
  cb := by
    intro v j hv
    rw [Function.update_apply] at hv ⊢
    rw [hfibers]
    by_cases hji : j = i
    · subst hji
      have hvw : v = w := by
        by_contra hne
        rw [if_neg hne] at hv
        exact hother v hne hv
      rw [if_pos hvw] at hv ⊢
      exact ⟨g,if_pos rfl,hkept hv⟩
    · rw [if_neg hji]
      split at hv
      · rename_i hvw
        obtain ⟨hold,hturn⟩ := hsame j hji hv
        obtain ⟨f,hf,hcaller,hcb⟩ := h.cb w j hold
        rw [if_pos hvw]
        exact ⟨f,hf,hcaller,hcb.imp_left fun ⟨ph,ht⟩ => hturn ph ht⟩
      · rename_i hvw
        rw [if_neg hvw]
        exact h.cb v j hv
  role := by
    intro v j role ph hv
    rw [Function.update_apply] at hv ⊢
    split at hv
    · rename_i hvw
      rw [if_pos hvw]
      exact hrole j role ph hv
    · rename_i hvw
      rw [if_neg hvw]
      exact h.role v j role ph hv
  one := by
    have hkeep : ∀ v j, (Function.update workers w x v).cbFiber = some j → v ≠ w → j ≠ i ∧ (workers v).cbFiber = some j := by
      intro v j hv hvw
      rw [Function.update_of_ne hvw] at hv
      exact ⟨fun hji => hother v hvw (hji ▸ hv),hv⟩
    have hmine : ∀ j, (Function.update workers w x w).cbFiber = some j → j ≠ i → (workers w).cbFiber = some j := by
      intro j hj hji
      rw [Function.update_self] at hj
      exact (hsame j hji hj).1
    intro v v' j hv hv'
    by_cases hvw : v = w <;> by_cases hvw' : v' = w
    · rw [hvw, hvw']
    · obtain ⟨hji,hold'⟩ := hkeep v' j hv' hvw'
      subst hvw
      exact h.one v v' j (hmine j hv hji) hold'
    · obtain ⟨hji,hold⟩ := hkeep v j hv hvw
      subst hvw'
      exact h.one v v' j hold (hmine j hv' hji)
    · exact h.one v v' j (hkeep v j hv hvw).2 (hkeep v' j hv' hvw').2

end

namespace Inv
variable {n : Nat} {s : System n}

/-- The fiber that a thread keeps sits in its own loop if at all. -/
theorem kept_seat (h : Inv s) {p : Seat n} {i : Nat} {ph : Phase} (hp : s.seat p = some (i,ph)) {w : Fin n}
    (hw : (s.workers w).cbFiber = some i) : p = .turn w := by
  obtain ⟨f,hf,-,⟨ph',hturn⟩ | hvacant⟩ := h.kept.cb w i hw
  · exact h.seated.one p (.turn w) i ph ph' hp (by rw [System.seat, hturn]; rfl)
  · obtain ⟨f',hf',hfit⟩ := h.seated.fits p i ph hp
    rw [hf] at hf'
    cases hf'
    exact absurd hvacant hfit.not_vacant

/-- A fiber with no seat that is not vacant is kept by nobody. -/
theorem not_kept (h : Inv s) {i : Nat} {f : Fiber} (hf : s.fibers i = some f) (hheld : ¬ s.held i) (hvacant : ¬ Vacant f)
    (w : Fin n) : (s.workers w).cbFiber ≠ some i := by
  intro hw
  obtain ⟨f',hf',-,⟨ph,hturn⟩ | hv⟩ := h.kept.cb w i hw
  · exact hheld ((s.held_iff i).mpr ⟨.turn w,ph,by rw [System.seat, hturn]; rfl⟩)
  · rw [hf] at hf'
    cases hf'
    exact hvacant hv

theorem not_seated (hheld : ¬ s.held i) (p : Seat n) (ph : Phase) : s.seat p ≠ some (i,ph) :=
  fun hp => hheld ((s.held_iff i).mpr ⟨p,ph,hp⟩)

/-- A fiber with no seat is sound and does not execute. -/
theorem resting (h : Inv s) {i : Nat} {f : Fiber} (hf : s.fibers i = some f) (hheld : ¬ s.held i) : Sound f ∧ f.state ≠ .exec :=
  h.seated.rest i f hf (not_seated hheld)

theorem isSome_setFiber {s : System n} {i j : Nat} {g : Fiber} (h : (s.fibers j).isSome = true) :
    ((s.setFiber i g).fibers j).isSome = true := by
  rw [System.setFiber_fibers]
  split
  · rfl
  · exact h

/-- Thread `w` gets other locals, and no fiber is gone. -/
theorem taken_update (h : Inv s) {fibers' : Nat → Option Fiber} {w : Fin n} {x : Worker}
    (hthere : ∀ j, (s.fibers j).isSome = true → (fibers' j).isSome = true)
    (hx : ∀ task, x.taken = some task → x.turn = none ∧ ∀ i ∈ task.fiber?, (s.fibers i).isSome = true) (v : Fin n) (task : Task)
    (hv : (Function.update s.workers w x v).taken = some task) :
    (Function.update s.workers w x v).turn = none ∧ ∀ i ∈ task.fiber?, (fibers' i).isSome = true := by
  have hold : (Function.update s.workers w x v).turn = none ∧ ∀ i ∈ task.fiber?, (s.fibers i).isSome = true := by
    rw [Function.update_apply] at hv ⊢
    split at hv
    · rename_i hvw
      rw [if_pos hvw]
      exact hx task hv
    · rename_i hvw
      rw [if_neg hvw]
      exact h.taken v task hv
  exact hold.imp_right fun hall i hi => hthere i (hall i hi)

/-- In the loop of `run` on thread `w` fiber `i` is taken up, goes on or is done with, and is `g` from then on. -/
theorem turn (h : Inv s) {w : Fin n} {i : Nat} {g : Fiber} {x : Worker} {o : Option Phase}
    (hcalled : x.called = (s.workers w).called) (htaken : x.taken = none)
    (hturn : x.turn.map (fun t => (t.fiber,t.phase)) = o.map fun ph => (i,ph)) (hnext : i < s.next)
    (hfree : ∀ q ph, q ≠ .turn w → s.seat q ≠ some (i,ph)) (hthere : ∀ j ph, s.seat (.turn w) = some (j,ph) → j = i)
    (hfits : ∀ ph, o = some ph → ph.Fits g) (hrest : o = none → Sound g ∧ g.state ≠ .exec)
    (hother : ∀ v, v ≠ w → (s.workers v).cbFiber ≠ some i)
    (hkept : x.cbFiber = some i → g.caller = false ∧ ((∃ ph, x.turn = some ⟨i,.cb,ph⟩) ∨ Vacant g))
    (hcb : x.cbFiber = some i ∨ x.cbFiber = none ∨ x.cbFiber = (s.workers w).cbFiber)
    (hrole : ∀ role ph, x.turn = some ⟨i,role,ph⟩ → (role = .cb ↔ x.cbFiber = some i)) :
    Inv ((s.setFiber i g).setWorker w x) where
  fresh := by
    intro j f hj
    rw [System.setWorker_fibers, System.setFiber_fibers] at hj
    split at hj
    · rename_i hji
      exact hji ▸ hnext
    · exact h.fresh j f hj
  seated := by
    refine h.seated.update hfree hthere hfits hrest (fun j => System.setFiber_fibers s i j g) fun q => ?_
    rw [System.setWorker_turn (s.setFiber i g) hcalled q, hturn]
    rfl
  kept := by
    refine h.kept.update hother hkept ?_ ?_ fun j => System.setFiber_fibers s i j g
    · intro j hji hj
      obtain hc | hc | hc := hcb
      · exact absurd (Option.some.inj (hj.symm.trans hc)) hji
      · rw [hc] at hj
        cases hj
      · refine ⟨hc ▸ hj,fun ph ht => ?_⟩
        exact absurd (hthere j ph (by rw [System.seat, ht]; rfl)) hji
    · intro j role ph ht
      have hsit : o.map (fun ph => (i,ph)) = some (j,ph) := by rw [← hturn, ht]; rfl
      obtain ⟨_,_,heq⟩ := Option.map_eq_some_iff.mp hsit
      cases heq
      exact hrole role ph ht
  taken := by
    refine h.taken_update (fun _ => isSome_setFiber) ?_
    intro task ht
    rw [htaken] at ht
    cases ht
  queue := fun j hj => isSome_setFiber (h.queue j hj)
  handles := fun j hj => isSome_setFiber (h.handles j hj)

/-- In `call` on thread `w` fiber `i` is taken up, goes on or is done with, and is `g` from then on. -/
theorem call (h : Inv s) {w : Fin n} {i : Nat} {g : Fiber} {x : Worker} {o : Option Phase}
    (hsame : x.turn = (s.workers w).turn ∧ x.cbFiber = (s.workers w).cbFiber ∧ x.taken = (s.workers w).taken)
    (hcalled : x.called = o.map fun ph => (i,ph))
    (hnext : i < s.next) (hfree : ∀ q ph, q ≠ .called w → s.seat q ≠ some (i,ph))
    (hthere : ∀ j ph, s.seat (.called w) = some (j,ph) → j = i) (hfits : ∀ ph, o = some ph → ph.Fits g)
    (hrest : o = none → Sound g ∧ g.state ≠ .exec) (hother : ∀ v, (s.workers v).cbFiber ≠ some i) :
    Inv ((s.setFiber i g).setWorker w x) where
  fresh := by
    intro j f hj
    rw [System.setWorker_fibers, System.setFiber_fibers] at hj
    split at hj
    · rename_i hji
      exact hji ▸ hnext
    · exact h.fresh j f hj
  seated := by
    refine h.seated.update hfree hthere hfits hrest (fun j => System.setFiber_fibers s i j g) fun q => ?_
    rw [System.setWorker_called (s.setFiber i g) hsame.1 q, hcalled]
    rfl
  kept := by
    refine h.kept.update (fun v _ => hother v) ?_ ?_ ?_ fun j => System.setFiber_fibers s i j g
    · intro hi
      exact absurd (hsame.2.1 ▸ hi) (hother w)
    · intro j _ hj
      exact ⟨hsame.2.1 ▸ hj,fun ph ht => ⟨ph,hsame.1 ▸ ht⟩⟩
    · intro j role ph ht
      rw [hsame.2.1]
      exact h.kept.role w j role ph (hsame.1 ▸ ht)
  taken := by
    refine h.taken_update (fun _ => isSome_setFiber) ?_
    intro task ht
    rw [hsame.1]
    exact h.taken w task (hsame.2.2 ▸ ht)
  queue := fun j hj => isSome_setFiber (h.queue j hj)
  handles := fun j hj => isSome_setFiber (h.handles j hj)

/-- Another queue of fibers that there are. -/
theorem requeue (h : Inv s) {queue : List (Entry Task (Fin n))} (hq : ∀ i ∈ fiberIds queue, (s.fibers i).isSome = true) :
    Inv { s with queue := queue } :=
  ⟨h.fresh,h.seated,h.kept,h.taken,hq,h.handles⟩

/-- One of the two sides of a thread's code goes on, or `run` with another task. -/
theorem locals (h : Inv s) (w : Fin n) (inRun : Bool) {taken : Option Task}
    (htaken : ∀ task ∈ taken, (s.workers w).turn = none ∧ ∀ i ∈ task.fiber?, (s.fibers i).isSome = true) :
    Inv (s.setWorker w { s.workers w with inRun := inRun, taken := taken }) where
  fresh := h.fresh
  seated := by
    have hseat : (s.setWorker w { s.workers w with inRun := inRun, taken := taken }).seat = s.seat := by
      funext p
      refine (System.setWorker_turn s (x := { s.workers w with inRun := inRun, taken := taken }) rfl p).trans ?_
      split
      · rename_i hp
        rw [hp]
        rfl
      · rfl
    rw [hseat]
    exact h.seated
  kept := by
    have hworkers : ∀ v, let s' := s.setWorker w { s.workers w with inRun := inRun, taken := taken }
        (s'.workers v).cbFiber = (s.workers v).cbFiber ∧ (s'.workers v).turn = (s.workers v).turn := by
      intro v
      dsimp only
      rw [System.setWorker_workers]
      split
      · rename_i hv
        rw [hv]
        exact ⟨rfl,rfl⟩
      · exact ⟨rfl,rfl⟩
    refine ⟨fun v i hv => ?_,fun v i role ph hv => ?_,fun v v' i hv hv' => ?_⟩
    · rw [(hworkers v).2]
      exact h.kept.cb v i ((hworkers v).1 ▸ hv)
    · rw [(hworkers v).1]
      exact h.kept.role v i role ph ((hworkers v).2 ▸ hv)
    · exact h.kept.one v v' i ((hworkers v).1 ▸ hv) ((hworkers v').1 ▸ hv')
  taken := h.taken_update (fun _ hj => hj) htaken
  queue := h.queue
  handles := h.handles

/-- Losing a reference never trips the destructor. -/
theorem drop (h : Inv s) (i : Nat) : ∃ s', s.drop i = .ok s' ∧ Inv s' := by
  rw [System.drop]
  split
  · exact ⟨s,rfl,h⟩
  · rename_i href
    cases hf : s.fibers i with
    | none => exact ⟨s,rfl,h⟩
    | some f =>
      simp only [System.referenced, Bool.or_eq_true, not_or, Bool.not_eq_true, List.contains_iff_mem, decide_eq_true_eq,
        not_exists, System.selfHeld, hf] at href
      obtain ⟨⟨⟨hhandle,hqueue⟩,hself⟩,hworker⟩ := href
      have hcb : ∀ w, (s.workers w).cbFiber ≠ some i := by
        intro w
        have hw := hworker w
        simp only [Worker.refers, Bool.or_eq_false_iff, decide_eq_false_iff_not] at hw
        exact hw.1.1
      have htask : ∀ w, (s.workers w).taken ≠ some (.fiber i) := by
        intro w
        have hw := hworker w
        simp only [Worker.refers, Bool.or_eq_false_iff, decide_eq_false_iff_not] at hw
        exact hw.1.2
      have hheld : ¬ s.held i := by
        rintro ⟨w,hw⟩
        have hw' := hworker w
        rw [Worker.refers, hw, Bool.or_true] at hw'
        cases hw'
      obtain ⟨hsound,hexec⟩ := h.resting hf hheld
      have hdisp : f.state.disposable = true := by
        unfold Sound at hsound
        cases hctx : f.ctx with
        | entry =>
          rw [hctx] at hsound
          rw [hsound.resolve_right hexec, FiberState.disposable]
        | inside rest => simp [hctx, Ctx.isInside] at hself
        | past =>
          rw [hctx] at hsound
          rcases hsound with hs | hs <;> rw [hs, FiberState.disposable]
      refine ⟨{ s with fibers := Function.update s.fibers i none },if_pos hdisp,?_⟩
      have hother : ∀ {j f'}, Function.update s.fibers i none j = some f' → s.fibers j = some f' := by
        intro j f' hj
        rw [Function.update_apply] at hj
        split at hj
        · cases hj
        · exact hj
      have hsame : ∀ {j}, j ≠ i → Function.update s.fibers i none j = s.fibers j := fun hji => Function.update_of_ne hji _ _
      exact {
        fresh := fun j f' hj => h.fresh j f' (hother hj)
        seated := {
          fits := by
            intro p j ph hp
            have hji : j ≠ i := fun heq => not_seated hheld p ph (heq ▸ hp)
            obtain ⟨f',hf',hfit⟩ := h.seated.fits p j ph hp
            exact ⟨f',(hsame hji).trans hf',hfit⟩
          one := h.seated.one
          rest := fun j f' hj => h.seated.rest j f' (hother hj) }
        kept := {
          cb := by
            intro w j hw
            have hji : j ≠ i := fun heq => hcb w (heq ▸ hw)
            obtain ⟨f',hf',hrest⟩ := h.kept.cb w j hw
            exact ⟨f',(hsame hji).trans hf',hrest⟩
          role := h.kept.role
          one := h.kept.one }
        taken := by
          intro w task hw
          refine (h.taken w task hw).imp_right fun hthere j hj => ?_
          have hji : j ≠ i := by
            rintro rfl
            cases task with
            | fiber k =>
              cases hj
              exact htask w hw
            | cb b => cases hj
          exact (congrArg Option.isSome (hsame hji)).trans (hthere j hj)
        queue := by
          intro j hj
          have hji : j ≠ i := fun heq => hqueue (heq ▸ hj)
          exact (congrArg Option.isSome (hsame hji)).trans (h.queue j hj)
        handles := by
          intro j hj
          have hji : j ≠ i := fun heq => hhandle (heq ▸ hj)
          exact (congrArg Option.isSome (hsame hji)).trans (h.handles j hj) }

theorem next_none (h : Inv s) : s.fibers s.next = none := by
  cases hf : s.fibers s.next with
  | none => rfl
  | some f => exact absurd (h.fresh _ f hf) (lt_irrefl _)

theorem next_free (h : Inv s) (p : Seat n) (ph : Phase) : s.seat p ≠ some (s.next,ph) := by
  intro hp
  obtain ⟨f,hf,-⟩ := h.seated.fits p _ ph hp
  rw [h.next_none] at hf
  cases hf

theorem next_not_kept (h : Inv s) (w : Fin n) : (s.workers w).cbFiber ≠ some s.next := by
  intro hw
  obtain ⟨f,hf,-⟩ := h.kept.cb w _ hw
  rw [h.next_none] at hf
  cases hf

/-- A new fiber object that one handle refers to. -/
theorem add (h : Inv s) (b : Behaviour) (caller : Bool) :
    Inv { s.setFiber s.next (.new b caller) with next := s.next + 1, handles := s.next :: s.handles } where
  fresh := by
    intro j f hj
    rw [System.setFiber_fibers] at hj
    split at hj
    · rename_i hji
      exact hji ▸ Nat.lt_succ_self _
    · exact (h.fresh j f hj).trans (Nat.lt_succ_self _)
  seated := {
    fits := by
      intro p j ph hp
      have hji : j ≠ s.next := fun heq => h.next_free p ph (heq ▸ hp)
      rw [System.setFiber_fibers, if_neg hji]
      exact h.seated.fits p j ph hp
    one := h.seated.one
    rest := by
      intro j f hj hno
      rw [System.setFiber_fibers] at hj
      split at hj
      · cases hj
        exact new_resting b caller
      · exact h.seated.rest j f hj hno }
  kept := {
    cb := by
      intro w j hw
      have hji : j ≠ s.next := fun heq => h.next_not_kept w (heq ▸ hw)
      rw [System.setFiber_fibers, if_neg hji]
      exact h.kept.cb w j hw
    role := h.kept.role
    one := h.kept.one }
  taken := fun w task hw => (h.taken w task hw).imp_right fun hj i hi => isSome_setFiber (hj i hi)
  queue := fun j hj => isSome_setFiber (h.queue j hj)
  handles := by
    intro j hj
    rcases List.mem_cons.mp hj with rfl | hj
    · rw [System.setFiber_fibers, if_pos rfl]
      rfl
    · exact isSome_setFiber (h.handles j hj)

end Inv

end Radixun.Common.Scheduler
