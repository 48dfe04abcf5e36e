import Radixun.Common.TimerLiveness

/-! The wait of a hooked call: for the event on its descriptor and, if the call has a timeout, for a timer of its own. -/
namespace Radixun.Common.Hook
open Timers (Call Reply Ledger)

/-- `ETIMEDOUT`. -/
def etimedout : Int := 110

/-- What schedules a waiting fiber: the event is ready, or it is cancelled by the callback of the call's own timer or elsewhere. -/
inductive WakeSource where
  | event
  | callback
  | other
  deriving DecidableEq

/-- How far a wait has come. A timer is given by its address and its number. -/
inductive Stage where
  | idle
  | arming
  | adding (timer : Option (Nat × Nat))
  | failing (timer : Option (Nat × Nat))
  | waiting (timer : Option (Nat × Nat)) (wake : Option WakeSource)
  | woken (timer : Option (Nat × Nat)) (source : WakeSource)
  | checking (source : WakeSource)
  -- the wait is over: `addEvent` failed, or the flag was set, or it was not
  | failed
  | timedOut (errno : Int)
  | ready (source : WakeSource)
  deriving DecidableEq

namespace Stage

/-- The timer that the wait is still to cancel. -/
def timer : Stage → Option (Nat × Nat)
  | adding timer | failing timer | waiting timer _ | woken timer _ => timer
  | _ => none

/-- What has scheduled the fiber, until the flag is read. -/
def source : Stage → Option WakeSource
  | waiting _ wake => wake
  | woken _ source | checking source => some source
  | _ => none

/-- The stage tells nothing of the flag. -/
def silent : Stage → Bool
  | waiting _ (some .callback) | woken _ .callback | checking .callback | timedOut _ | ready .callback => false
  | _ => true

theorem source_of_silent {stage : Stage} (h : stage.silent = true) : stage.source ≠ some .callback := by
  intro hs
  cases stage with
  | waiting timer wake =>
    cases (id hs : wake = some .callback)
    cases h
  | woken timer source =>
    cases (Option.some.inj hs : source = .callback)
    cases h
  | checking source =>
    cases (Option.some.inj hs : source = .callback)
    cases h
  | _ => cases hs

end Stage

/-- The state of a call that waits, among all the timers of the manager. `mine` are the timers it has made, `handed` the
callbacks that expired and did not run, `begun` those of its own behind the test of `cancelled`, `fired` those that set it, and
`cancelling` counts the calls of `cancelEvent` they are still to make. -/
structure TimedWait (κ : Type) where
  timers : Ledger κ
  timeout : UInt64
  stage : Stage
  mine : List Nat
  handed : List Nat
  begun : List Nat
  fired : List Nat
  cancelled : Int
  cancelling : Nat

/-- What happens next: a step of the call, a call on the timers, a step of a callback, or the end of the event. -/
inductive WaitAct (κ : Type) where
  | arm (p now : Nat) (cb : κ)
  | addEvent (ok : Bool)
  | resume
  | cancelTimer
  | check
  | call (c : Call κ)
  | callback (i : Nat)
  | setCancelled (i : Nat)
  | cancelEvent (found : Bool)
  | event
  | otherCancel

namespace TimedWait
variable {κ : Type}

def enter (timers : Ledger κ) (timeout : UInt64) : TimedWait κ := ⟨timers,timeout,.idle,[],[],[],[],0,0⟩

/-- `addConditionTimer`, unless the timeout is all ones. Nothing is allocated at an address that is taken. -/
def arm (s : TimedWait κ) (p now : Nat) (cb : κ) : Except Timers.Fault (TimedWait κ) :=
  if s.stage ≠ .arming then .ok s
  else if s.timeout = -1 then .ok { s with stage := .adding none }
  else
    match Ledger.step (.addTimer p now s.timeout.toNat (some cb) false) s.timers with
    | .error e => .error e
    | .ok (.made i,timers) => .ok { s with timers := timers, stage := .adding (some (p,i)), mine := i :: s.mine }
    | .ok _ => .ok s

/-- `addEvent`, behind which the fiber yields unless it fails. -/
def addEvent (s : TimedWait κ) (ok : Bool) : TimedWait κ :=
  match s.stage with
  | .adding timer => { s with stage := if ok then .waiting timer none else .failing timer }
  | _ => s

/-- The scheduler runs the fiber again. -/
def resume (s : TimedWait κ) : TimedWait κ :=
  match s.stage with
  | .waiting timer (some source) => { s with stage := .woken timer source }
  | _ => s

/-- `if(timer) timer->cancel()`, and the wait goes on at `stage`. -/
def disarm (s : TimedWait κ) (timer : Option (Nat × Nat)) (stage : Stage) : Except Timers.Fault (TimedWait κ) :=
  match timer with
  | none => .ok { s with stage := stage }
  | some t => (Ledger.step (.cancel t.1) s.timers).map fun r => { s with timers := r.2, stage := stage }

def cancelTimer (s : TimedWait κ) : Except Timers.Fault (TimedWait κ) :=
  match s.stage with
  | .failing timer => s.disarm timer .failed
  | .woken timer source => s.disarm timer (.checking source)
  | _ => .ok s

/-- `if(tinfo->cancelled) errno = tinfo->cancelled`. -/
def check (s : TimedWait κ) : TimedWait κ :=
  match s.stage with
  | .checking source => { s with stage := if s.cancelled ≠ 0 then .timedOut s.cancelled else .ready source }
  | _ => s

/-- The fiber refers to its timer, so that it is not released. -/
def keeps (s : TimedWait κ) : Call κ → Bool
  | .release p => s.stage.timer.map (·.1) ≠ some p
  | _ => true

/-- A call on the timers by anybody. -/
def call (s : TimedWait κ) (c : Call κ) : Except Timers.Fault (TimedWait κ) :=
  if s.keeps c then (Ledger.step c s.timers).map fun r => { s with timers := r.2, handed := s.handed ++ r.1.numbers }
  else .ok s

/-- The callback of a timer begins. Until the call returns `winfo.lock()` succeeds. -/
def callback (s : TimedWait κ) (i : Nat) : TimedWait κ :=
  if i ∈ s.handed then
    { s with handed := s.handed.erase i, begun := if i ∈ s.mine ∧ s.cancelled = 0 then i :: s.begun else s.begun }
  else s

/-- `t->cancelled = ETIMEDOUT`. -/
def setCancelled (s : TimedWait κ) (i : Nat) : TimedWait κ :=
  if i ∈ s.begun then
    { s with begun := s.begun.erase i, fired := i :: s.fired, cancelled := etimedout, cancelling := s.cancelling + 1 }
  else s

/-- The event of the wait is triggered, if it is still registered. -/
def trigger (s : TimedWait κ) (source : WakeSource) : TimedWait κ :=
  match s.stage with
  | .waiting timer none => { s with stage := .waiting timer (some source) }
  | _ => s

/-- The `cancelEvent` of a callback, and whether it finds the event. -/
def cancelEvent (s : TimedWait κ) (found : Bool) : TimedWait κ :=
  if s.cancelling = 0 then s
  else
    let s := { s with cancelling := s.cancelling - 1 }
    if found then s.trigger .callback else s

def act : WaitAct κ → TimedWait κ → Except Timers.Fault (TimedWait κ)
  | .arm p now cb, s => s.arm p now cb
  | .addEvent ok, s => .ok (s.addEvent ok)
  | .resume, s => .ok s.resume
  | .cancelTimer, s => s.cancelTimer
  | .check, s => .ok s.check
  | .call c, s => s.call c
  | .callback i, s => .ok (s.callback i)
  | .setCancelled i, s => .ok (s.setCancelled i)
  | .cancelEvent found, s => .ok (s.cancelEvent found)
  | .event, s => .ok (s.trigger .event)
  | .otherCancel, s => .ok (s.trigger .other)

/-- The flag has the value that the callback of a timer of this call has set. -/
def Fired (s : TimedWait κ) (errno : Int) : Prop := errno = etimedout ∧ ∃ i ∈ s.mine, i ∈ s.fired

/-- Of the timers of this call, only the one that the wait is to cancel can be in the set, and the flag is set by callbacks. -/
structure Inv (s : TimedWait κ) : Prop where
  good : s.timers.Good
  bound : ∀ i ∈ s.mine, i < s.timers.count
  held : ∀ i ∈ s.mine, ∀ p d, s.timers.Holds i p d → s.stage.timer = some (p,i)
  made : ∀ t, s.stage.timer = some t → t.1 ∈ s.timers.manager.made
  begun : ∀ i ∈ s.begun, i ∈ s.mine
  flag : s.cancelled ≠ 0 → s.Fired s.cancelled
  cancelling : s.cancelling ≠ 0 → s.cancelled ≠ 0
  source : s.stage.source = some .callback → s.cancelled ≠ 0
  timedOut : ∀ e, s.stage = .timedOut e → s.Fired e
  ready : s.stage ≠ .ready .callback

theorem inv_enter {timers : Ledger κ} (h : timers.Good) (timeout : UInt64) : (enter timers timeout).Inv where
  good := h
  bound := fun i hi => (by cases hi)
  held := fun i hi => (by cases hi)
  made := fun t ht => (by cases ht)
  begun := fun i hi => (by cases hi)
  flag := fun h => absurd rfl h
  cancelling := fun h => absurd rfl h
  source := fun h => (by cases h)
  timedOut := fun e he => (by cases he)
  ready := fun h => (by cases h)

namespace Inv
variable {s : TimedWait κ}

/-- A wait that is to cancel no timer has left none in the set. -/
theorem disarmed (h : s.Inv) (hs : s.stage.timer = none) : ∀ i ∈ s.mine, ¬s.timers.Held i := by
  rintro i hi ⟨p,d,hh⟩
  have hp := h.held i hi p d hh
  rw [hs] at hp
  cases hp

/-- A change of nothing but the stage. -/
theorem move (h : s.Inv) {stage : Stage} (htimer : stage.timer = s.stage.timer)
    (hsource : stage.source = some .callback → s.cancelled ≠ 0) (htimed : ∀ e, stage = .timedOut e → s.Fired e)
    (hready : stage ≠ .ready .callback) : Inv { s with stage := stage } :=
  { h with
    held := fun i hi p d hh => htimer.trans (h.held i hi p d hh)
    made := fun t ht => h.made t (htimer.symm.trans ht)
    source := hsource
    timedOut := htimed
    ready := hready }

theorem move_silent (h : s.Inv) {stage : Stage} (htimer : stage.timer = s.stage.timer) (hs : stage.silent = true) :
    Inv { s with stage := stage } := by
  refine h.move htimer (fun hsource => absurd hsource (Stage.source_of_silent hs)) ?_ ?_
  · rintro e rfl
    cases hs
  · rintro rfl
    cases hs

theorem arm (h : s.Inv) (p now : Nat) (cb : κ) : ∃ s', s.arm p now cb = .ok s' ∧ s'.Inv := by
  unfold TimedWait.arm
  split
  · exact ⟨s,rfl,h⟩
  rename_i hstage
  have hnone : s.stage.timer = none := by
    rw [not_not.mp hstage]
    rfl
  split
  · exact ⟨_,rfl,h.move_silent hnone.symm rfl⟩
  obtain ⟨r,timers,he,hgood⟩ := Ledger.step_completes h.good (.addTimer p now s.timeout.toNat (some cb) false)
  rw [he]
  cases r with
  | made i =>
    obtain ⟨rfl,hcount,hmade,hnew⟩ := Ledger.step_new h.good he
    refine ⟨_,rfl,?_⟩
    constructor
    case good => exact hgood
    case bound =>
      intro j hj
      change j < timers.count
      rw [hcount, Nat.lt_succ_iff]
      rcases List.mem_cons.mp hj with rfl | hj
      · exact le_rfl
      · exact (h.bound j hj).le
    case held =>
      intro j hj q d hh
      rcases List.mem_cons.mp hj with rfl | hj
      · rw [hgood.unique _ q p d cb hh hnew]
        rfl
      · have hold := (Ledger.step_effect h.good he).held h.good (h.bound j hj) hh
        exact absurd ⟨q,d,hold⟩ (h.disarmed hnone j hj)
    case made =>
      intro t ht
      cases ht
      exact hmade
    case begun => exact fun j hj => List.mem_cons_of_mem _ (h.begun j hj)
    case flag =>
      intro hset
      obtain ⟨he,j,hj,hfired⟩ := h.flag hset
      exact ⟨he,j,List.mem_cons_of_mem _ hj,hfired⟩
    case cancelling => exact h.cancelling
    case source => exact fun hsource => by cases hsource
    case timedOut => exact fun e he => by cases he
    case ready => exact fun he => by cases he
  | _ => exact ⟨_,rfl,h⟩

theorem addEvent (h : s.Inv) (ok : Bool) : (s.addEvent ok).Inv := by
  unfold TimedWait.addEvent
  split
  · rename_i timer hs
    cases ok <;> exact h.move_silent (by rw [hs]; rfl) rfl
  · exact h

theorem resume (h : s.Inv) : s.resume.Inv := by
  unfold TimedWait.resume
  split
  · rename_i timer source hs
    refine h.move (by rw [hs]; rfl) ?_ (fun e he => by cases he) fun he => by cases he
    intro hsource
    apply h.source
    rw [hs]
    exact hsource
  · exact h

/-- Behind `cancel` no timer of this call is in the set. -/
theorem disarm (h : s.Inv) {stage : Stage} (hnone : stage.timer = none)
    (hsource : stage.source = some .callback → s.cancelled ≠ 0) (htimed : ∀ e, stage ≠ .timedOut e)
    (hready : stage ≠ .ready .callback) : ∃ s', s.disarm s.stage.timer stage = .ok s' ∧ s'.Inv := by
  unfold TimedWait.disarm
  split
  · rename_i ht
    exact ⟨_,rfl,h.move (hnone.trans ht.symm) hsource (fun e he => absurd he (htimed e)) hready⟩
  · rename_i t ht
    obtain ⟨b,timers,he,hspent⟩ := Ledger.step_cancel_spent h.good (h.made t ht)
    have heff := Ledger.step_effect h.good he
    rw [he]
    refine ⟨_,rfl,?_⟩
    constructor
    case good => exact heff.good h.good
    case bound => exact fun i hi => (h.bound i hi).trans_le heff.count_le
    case held =>
      intro i hi p d hh
      have hp := ht.symm.trans (h.held i hi p d (heff.held h.good (h.bound i hi) hh))
      cases hp
      exact absurd hh hspent.not_holds
    case made =>
      intro q hq
      have hq' := hnone.symm.trans hq
      cases hq'
    case begun => exact h.begun
    case flag => exact h.flag
    case cancelling => exact h.cancelling
    case source => exact hsource
    case timedOut => exact fun e he => absurd he (htimed e)
    case ready => exact hready

theorem cancelTimer (h : s.Inv) : ∃ s', s.cancelTimer = .ok s' ∧ s'.Inv := by
  unfold TimedWait.cancelTimer
  split
  · rename_i timer hs
    have ht : s.stage.timer = timer := by
      rw [hs]
      rfl
    rw [← ht]
    exact h.disarm rfl (fun he => by cases he) (fun e he => by cases he) fun he => by cases he
  · rename_i timer source hs
    have ht : s.stage.timer = timer := by
      rw [hs]
      rfl
    rw [← ht]
    refine h.disarm rfl ?_ (fun e he => by cases he) fun he => by cases he
    intro hsource
    apply h.source
    rw [hs]
    exact hsource
  · exact ⟨s,rfl,h⟩

/-- Behind a wait that its own callback has ended the flag is set. -/
theorem check (h : s.Inv) : s.check.Inv := by
  unfold TimedWait.check
  split
  · rename_i source hs
    have hnone : none = s.stage.timer := by
      rw [hs]
      rfl
    by_cases hset : s.cancelled ≠ 0
    · rw [if_pos hset]
      refine h.move hnone (fun he => by cases he) ?_ fun he => by cases he
      intro e he
      cases he
      exact h.flag hset
    · rw [if_neg hset]
      refine h.move hnone (fun he => by cases he) (fun e he => by cases he) ?_
      intro he
      cases he
      apply hset
      apply h.source
      rw [hs]
      rfl
  · exact h

/-- Calls on the timers do not put a timer of this call back into the set. -/
theorem call (h : s.Inv) (c : Call κ) : ∃ s', s.call c = .ok s' ∧ s'.Inv := by
  unfold TimedWait.call
  split
  · rename_i hc
    obtain ⟨r,timers,he,-⟩ := Ledger.step_completes h.good c
    have heff := Ledger.step_effect h.good he
    rw [he]
    refine ⟨_,rfl,{ h with good := heff.good h.good, bound := ?_, held := ?_, made := ?_ }⟩
    · exact fun i hi => (h.bound i hi).trans_le heff.count_le
    · exact fun i hi p d hh => h.held i hi p d (heff.held h.good (h.bound i hi) hh)
    · intro t ht
      refine Ledger.step_made h.good he (h.made t ht) ?_
      rintro rfl
      apply of_decide_eq_true hc
      rw [ht]
      rfl
  · exact ⟨s,rfl,h⟩

theorem callback (h : s.Inv) (i : Nat) : (s.callback i).Inv := by
  unfold TimedWait.callback
  split
  · refine { h with begun := ?_ }
    dsimp only
    split
    · rename_i hmine
      intro j hj
      rcases List.mem_cons.mp hj with rfl | hj
      · exact hmine.1
      · exact h.begun j hj
    · exact h.begun
  · exact h

theorem setCancelled (h : s.Inv) (i : Nat) : (s.setCancelled i).Inv := by
  unfold TimedWait.setCancelled
  split
  · rename_i hi
    have hfired : ∃ j ∈ s.mine, j ∈ i :: s.fired := ⟨i,h.begun i hi,List.mem_cons_self⟩
    have hset : etimedout ≠ 0 := by decide
    refine { h with begun := ?_, flag := ?_, cancelling := fun _ => hset, source := fun _ => hset, timedOut := ?_ }
    · exact fun j hj => h.begun j (List.mem_of_mem_erase hj)
    · exact fun _ => ⟨rfl,hfired⟩
    · exact fun e he => ⟨(h.timedOut e he).1,hfired⟩
  · exact h

theorem trigger (h : s.Inv) {source : WakeSource} (hs : source = .callback → s.cancelled ≠ 0) : (s.trigger source).Inv := by
  unfold TimedWait.trigger
  split
  · rename_i timer hstage
    refine h.move (by rw [hstage]; rfl) ?_ (fun e he => by cases he) fun he => by cases he
    intro hsource
    exact hs (Option.some.inj hsource)
  · exact h

theorem cancelEvent (h : s.Inv) (found : Bool) : (s.cancelEvent found).Inv := by
  unfold TimedWait.cancelEvent
  split
  · exact h
  · rename_i hcount
    have hset := h.cancelling hcount
    have hless : Inv { s with cancelling := s.cancelling - 1 } := { h with cancelling := fun _ => hset }
    cases found with
    | false => exact hless
    | true => exact hless.trigger fun _ => hset

end Inv

/-- No step goes wrong, whichever comes next. -/
theorem act_inv {s : TimedWait κ} (h : s.Inv) (a : WaitAct κ) : ∃ s', act a s = .ok s' ∧ s'.Inv := by
  cases a with
  | arm p now cb => exact h.arm p now cb
  | addEvent ok => exact ⟨_,rfl,h.addEvent ok⟩
  | resume => exact ⟨_,rfl,h.resume⟩
  | cancelTimer => exact h.cancelTimer
  | check => exact ⟨_,rfl,h.check⟩
  | call c => exact h.call c
  | callback i => exact ⟨_,rfl,h.callback i⟩
  | setCancelled i => exact ⟨_,rfl,h.setCancelled i⟩
  | cancelEvent found => exact ⟨_,rfl,h.cancelEvent found⟩
  | event => exact ⟨_,rfl,h.trigger fun he => by cases he⟩
  | otherCancel => exact ⟨_,rfl,h.trigger fun he => by cases he⟩

end TimedWait
end Radixun.Common.Hook
