import Mathlib.Logic.Function.Basic
import Mathlib.Data.Fintype.Basic
import Radixun.Common.FiberModel
import Radixun.Common.SchedulerQueue

/-! How fibers pass from one thread of a scheduler to another. The state write of a yield, the
save of the context, the state write of `run`, the search of the queue and the state write of
`swapIn` are steps of their own. What a callback does is chosen step by step. -/
namespace Radixun.Common.Handover
open Scheduler

/-- `cb` for a callback that runs in a fiber of the thread that takes it. -/
inductive Task where
  | fiber (f : Nat)
  | cb
  deriving DecidableEq

/-- By which branch of the loop body a fiber is resumed. -/
inductive Role where
  | fiber | cb | idle
  deriving DecidableEq

/-- Where a thread is in the loop of `run`. `leaving` is behind the last state write of the fiber
and before the save of its context. -/
inductive Phase where
  | search
  | taken (task : Task)
  | entering (f : Nat) (role : Role)
  | running (f : Nat) (role : Role)
  | leaving (f : Nat) (role : Role)
  | returned (f : Nat) (role : Role)
  | exited
  deriving DecidableEq

structure Worker where
  idleFiber : Nat
  cbFiber : Option Nat
  phase : Phase
  deriving DecidableEq

/-- `m_state`, and whether `m_ctx` is where the fiber stopped. -/
structure Shared where
  state : FiberState
  saved : Bool
  deriving DecidableEq

/-- Fibers below `next` exist. `registered` lists those that an event context or the callback of a
timer will schedule, once for each. -/
structure System (n : Nat) where
  fibers : Nat → Shared
  next : Nat
  queue : List (Entry Task (Fin n))
  registered : List Nat
  workers : Fin n → Worker

inductive Failure where
  | swapIn | reset | yield | addEvent
  deriving DecidableEq

/-- A context was resumed. -/
structure Resumed where
  fiber : Nat
  saved : Bool
  deriving DecidableEq

inductive Act (n : Nat) where
  | newFiber
  | schedule (task : Task) (thread : Option (Fin n))
  | addEvent (w : Fin n)
  | addTimer (w : Fin n)
  | trigger (f : Nat)
  | take (w : Fin n)
  | choose (w : Fin n)
  | swapIn (w : Fin n)
  | yield (w : Fin n) (y : Yield)
  | exit (w : Fin n) (e : Exit)
  | swapOut (w : Fin n)
  | save (w : Fin n)
  | settle (w : Fin n)

namespace System
variable {n : Nat}

/-- Every thread has made its idle fiber. -/
def init (n : Nat) : System n := ⟨fun _ => ⟨.init,true⟩,n,[],[],fun w => ⟨w,none,.search⟩⟩

def setFiber (s : System n) (f : Nat) (x : Shared) : System n := { s with fibers := Function.update s.fibers f x }
def setState (s : System n) (f : Nat) (state : FiberState) : System n := s.setFiber f ⟨state,(s.fibers f).saved⟩
def setWorker (s : System n) (w : Fin n) (x : Worker) : System n := { s with workers := Function.update s.workers w x }
def setPhase (s : System n) (w : Fin n) (phase : Phase) : System n := s.setWorker w { s.workers w with phase := phase }
def enqueue (s : System n) (task : Task) (thread : Option (Fin n)) : System n := { s with queue := s.queue ++ [⟨task,thread⟩] }

/-- The test `getState() == EXEC` of the search. -/
def busy (s : System n) : Task → Bool
  | .fiber f => (s.fibers f).state = .exec
  | .cb => false

/-- One search of the queue; without a task it is the turn of the idle fiber. -/
def take (s : System n) (w : Fin n) : System n :=
  match dequeue s.busy w s.queue with
  | some (e,rest) => { s with queue := rest }.setPhase w (.taken e.task)
  | none =>
    let idle := (s.workers w).idleFiber
    s.setPhase w (if (s.fibers idle).state = .term then .exited else .entering idle .idle)

/-- What is done with the task up to `swapIn`. -/
def choose (s : System n) (w : Fin n) : Task → Except Failure (System n)
  | .fiber f =>
    let state := (s.fibers f).state
    .ok (s.setPhase w (if state ≠ .term ∧ state ≠ .except then .entering f .fiber else .search))
  | .cb =>
    match (s.workers w).cbFiber with
    | some f =>
      if (s.fibers f).state.disposable then .ok ((s.setFiber f ⟨.init,true⟩).setPhase w (.entering f .cb)) else .error .reset
    | none =>
      let f := s.next
      .ok (({ s with next := f + 1 }.setFiber f ⟨.init,true⟩).setWorker w ⟨(s.workers w).idleFiber,some f,.entering f .cb⟩)

/-- The rest of the loop body after `swapIn` returns. -/
def settle (s : System n) (w : Fin n) (f : Nat) (role : Role) : Except Failure (System n) :=
  let x := s.workers w
  let state := (s.fibers f).state
  match role with
  | .fiber =>
    let s := s.setPhase w .search
    if state = .ready then .ok (s.enqueue (.fiber f) none)
    else if state ≠ .term ∧ state ≠ .except then .ok (s.setState f .hold)
    else .ok s
  | .cb =>
    if state = .ready then .ok ((s.setWorker w ⟨x.idleFiber,none,.search⟩).enqueue (.fiber f) none)
    else if state = .except ∨ state = .term then
      if state.disposable then .ok ((s.setPhase w .search).setFiber f ⟨.init,true⟩) else .error .reset
    else .ok ((s.setWorker w ⟨x.idleFiber,none,.search⟩).setState f .hold)
  | .idle =>
    let s := s.setPhase w .search
    if state ≠ .term ∧ state ≠ .except then .ok (s.setState f .hold) else .ok s

/-- One step of the system. A step that is not due changes nothing. -/
def step (a : Act n) (s : System n) : Except Failure (List Resumed × System n) :=
  match a with
  | .newFiber => .ok ([],{ s with next := s.next + 1 }.setFiber s.next ⟨.init,true⟩)
  | .schedule (.fiber f) thread => .ok ([],if f < s.next then s.enqueue (.fiber f) thread else s)
  | .schedule .cb thread => .ok ([],s.enqueue .cb thread)
  | .addEvent w =>
    match (s.workers w).phase with
    | .running f _ =>
      if (s.fibers f).state = .exec then .ok ([],{ s with registered := f :: s.registered }) else .error .addEvent
    | _ => .ok ([],s)
  | .addTimer w =>
    match (s.workers w).phase with
    | .running f _ => .ok ([],{ s with registered := f :: s.registered })
    | _ => .ok ([],s)
  | .trigger f =>
    .ok ([],if f ∈ s.registered then { s with registered := s.registered.erase f }.enqueue (.fiber f) none else s)
  | .take w =>
    match (s.workers w).phase with
    | .search => .ok ([],s.take w)
    | _ => .ok ([],s)
  | .choose w =>
    match (s.workers w).phase with
    | .taken task => (s.choose w task).map fun s' => ([],s')
    | _ => .ok ([],s)
  | .swapIn w =>
    match (s.workers w).phase with
    | .entering f role =>
      if (s.fibers f).state = .exec then .error .swapIn
      else .ok ([⟨f,(s.fibers f).saved⟩],(s.setFiber f ⟨.exec,false⟩).setPhase w (.running f role))
    | _ => .ok ([],s)
  | .yield w y =>
    match (s.workers w).phase with
    | .running f role =>
      if (s.fibers f).state = .exec then .ok ([],(s.setState f y.state).setPhase w (.leaving f role)) else .error .yield
    | _ => .ok ([],s)
  | .exit w e =>
    match (s.workers w).phase with
    | .running f role => .ok ([],(s.setState f (e.stateAfter (s.fibers f).state)).setPhase w (.leaving f role))
    | _ => .ok ([],s)
  | .swapOut w =>
    -- `IOManager::idle` leaves without a state write
    match (s.workers w).phase with
    | .running f .idle => .ok ([],s.setPhase w (.leaving f .idle))
    | _ => .ok ([],s)
  | .save w =>
    match (s.workers w).phase with
    | .leaving f role => .ok ([],(s.setFiber f ⟨(s.fibers f).state,true⟩).setPhase w (.returned f role))
    | _ => .ok ([],s)
  | .settle w =>
    match (s.workers w).phase with
    | .returned f role => (s.settle w f role).map fun s' => ([],s')
    | _ => .ok ([],s)

end System
end Radixun.Common.Handover
