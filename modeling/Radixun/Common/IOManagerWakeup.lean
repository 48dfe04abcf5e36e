import Mathlib.Algebra.Ring.Int.Defs
import Mathlib.Data.Fintype.Basic
import Radixun.Common.FiberHandover
import Radixun.Common.IOManagerModel
import Radixun.Common.SchedulerQueue
import Radixun.Common.TimerManager

/-! How the threads of an IO manager sleep and are woken: `run` and `idle` on every thread, the calls
that give them work, and the pipe. A thread between an insertion and its `tickle` is counted only. -/
namespace Radixun.Common.Wakeup
open Scheduler (Entry dequeue passesForeign)
open Handover (Task)
open IOManager (decrement)

/-- `(int)d` of a `uint64_t`. -/
def toInt (d : Nat) : Int := Int.bmod d (2^32)

/-- The timeout that `idle` passes to `epoll_wait`. -/
def epollTimeout (delay : Nat) : Int :=
  toInt (if delay ≠ 2^64 - 1 then (if toInt delay > 3000 then 3000 else delay) else 3000)

/-- When a wait with that timeout that begins at `now` is over; a negative timeout is none. -/
def deadlineOf (timeout : Int) (now : Nat) : Option Nat := if timeout < 0 then none else some (now + timeout.toNat)

/-- Where a thread is. From `toIdle` it has found no task; `asking` is the top of the loop in `idle`,
`asked` is behind `getNextTimer`, with the clock it read, and `timed` behind the test for the end; `woken` to
`draining` follow `epoll_wait`, and tell whether it reported the pipe; `leaving` is the switch back to `run`. -/
inductive Phase where
  | absent
  | search
  | taken (task : Task)
  | executing (f : Nat)
  | settling (requeue : Option Nat)
  | toIdle
  | asking
  | asked (delay now : Nat)
  | timed (timeout : Int) (now : Nat)
  | blocked (deadline : Option Nat)
  | woken (pipe : Bool)
  | handing (pipe : Bool) (tasks : List (Option Task))
  | draining (pipe : Bool)
  | leaving
  | exited
  deriving DecidableEq

/-- `idleDone` when the idle fiber has returned. -/
structure Worker where
  phase : Phase
  idleDone : Bool
  deriving DecidableEq

/-- `tickles` counts the calls of `tickle` that are due, `bytes` what is in the pipe. `unseen` is set
from the write of `m_stopping` to the next test of it. -/
structure System (n : Nat) where
  workers : Fin n → Worker
  queue : List (Entry Task (Fin n))
  active : Nat
  idle : Nat
  timers : Timers.Manager Unit
  clock : Nat
  bytes : Nat
  tickles : Nat
  events : Nat
  autoStop : Bool
  stopping : Bool
  unseen : Bool

/-- The calls of other parts of the program and of callbacks come from `schedule` on. -/
inductive Act (n : Nat) where
  | start (w : Fin n)
  | search (w : Fin n)
  | begin (w : Fin n) (cbFiber : Nat)
  | pass (w : Fin n)
  | switchBack (w : Fin n) (ready : Bool)
  | settle (w : Fin n)
  | enterIdle (w : Fin n)
  | nextTimer (w : Fin n)
  | testStop (w : Fin n)
  | wait (w : Fin n)
  | wake (w : Fin n) (pipe event : Bool)
  | expire (w : Fin n) (now tmp : Nat)
  | hand (w : Fin n)
  | drain (w : Fin n)
  | back (w : Fin n)
  | tickle
  | schedule (task : Option Task) (thread : Option (Fin n))
  | scheduleAll (tasks : List (Option Task))
  | addTimer (p now ms : Nat) (cb : Option Unit) (recurring : Bool)
  | reset (p ms : Nat) (fromNow : Bool)
  | cancel (p : Nat)
  | autoStop
  | stop
  | setEvents (k : Nat)
  | passTime (d : Nat)

namespace System
variable {n : Nat}

/-- No thread runs yet, and the clock has left zero. -/
def init (n clock : Nat) : System n := ⟨fun _ => ⟨.absent,false⟩,[],0,0,.init,clock + 1,0,0,0,false,false,false⟩

def setWorker (s : System n) (w : Fin n) (x : Worker) : System n := { s with workers := Function.update s.workers w x }
def setPhase (s : System n) (w : Fin n) (phase : Phase) : System n := s.setWorker w { s.workers w with phase := phase }

/-- A call of `tickle` is due if `need` is set. -/
def owe (s : System n) (need : Bool) : System n := { s with tickles := s.tickles + need.toNat }

/-- `tickle`. -/
def tickle (s : System n) : System n := if s.idle > 0 then s else { s with bytes := s.bytes + 1 }

/-- `scheduleNoLock`: the result, and the queue after it. An empty task is not queued. -/
def scheduleNoLock (queue : List (Entry Task (Fin n))) (task : Option Task) (thread : Option (Fin n)) :
    Bool × List (Entry Task (Fin n)) :=
  (queue.isEmpty,queue ++ (task.map fun t => ⟨t,thread⟩).toList)

def schedule (s : System n) (task : Option Task) (thread : Option (Fin n)) : System n :=
  let r := scheduleNoLock s.queue task thread
  { s with queue := r.2 }.owe r.1

/-- The loop of the batch `schedule`. -/
def scheduleEach (queue : List (Entry Task (Fin n))) (need : Bool) : List (Option Task) → Bool × List (Entry Task (Fin n))
  | [] => (need,queue)
  | task :: tasks =>
    let r := scheduleNoLock queue task none
    scheduleEach r.2 (r.1 || need) tasks

def scheduleAll (s : System n) (tasks : List (Option Task)) : System n :=
  let r := scheduleEach s.queue false tasks
  { s with queue := r.2 }.owe r.1

/-- The test `getState() == EXEC`: a fiber is in that state while a thread executes it. -/
def busy (s : System n) : Task → Bool
  | .fiber f => decide (∃ w, (s.workers w).phase = .executing f)
  | .cb => false

/-- The search of the queue in `run`. -/
def search (s : System n) (w : Fin n) : System n :=
  let s' := s.owe (passesForeign s.busy w s.queue)
  match dequeue s.busy w s.queue with
  | some (e,rest) => { s' with queue := rest, active := s.active + 1 }.setPhase w (.taken e.task)
  | none => s'.setPhase w (if (s.workers w).idleDone then .exited else .toIdle)

/-- `IOManager::stopping` behind `getNextTimer`. -/
def stops (s : System n) (delay : Nat) : Bool :=
  delay = 2^64 - 1 && s.events = 0 && s.autoStop && s.stopping && s.queue.isEmpty && s.active = 0

/-- One step. A step that is not due changes nothing. -/
def step (a : Act n) (s : System n) : Except Timers.Fault (Unit × System n) :=
  match a with
  | .start w => .ok ((),if (s.workers w).phase = .absent then s.setPhase w .search else s)
  | .search w => .ok ((),if (s.workers w).phase = .search then s.search w else s)
  | .begin w cbFiber =>
    match (s.workers w).phase with
    | .taken (.fiber f) => .ok ((),s.setPhase w (.executing f))
    | .taken .cb => .ok ((),s.setPhase w (.executing cbFiber))
    | _ => .ok ((),s)
  | .pass w =>
    match (s.workers w).phase with
    | .taken _ => .ok ((),{ s with active := decrement s.active }.setPhase w .search)
    | _ => .ok ((),s)
  | .switchBack w ready =>
    match (s.workers w).phase with
    | .executing f => .ok ((),{ s with active := decrement s.active }.setPhase w (.settling (if ready then some f else none)))
    | _ => .ok ((),s)
  | .settle w =>
    match (s.workers w).phase with
    | .settling (some f) => .ok ((),(s.schedule (some (.fiber f)) none).setPhase w .search)
    | .settling none => .ok ((),s.setPhase w .search)
    | _ => .ok ((),s)
  | .enterIdle w => .ok ((),if (s.workers w).phase = .toIdle then { s with idle := s.idle + 1 }.setPhase w .asking else s)
  | .nextTimer w =>
    if (s.workers w).phase = .asking then
      let r := s.timers.getNextTimer s.clock
      .ok ((),{ s with timers := r.2 }.setPhase w (.asked r.1 s.clock))
    else .ok ((),s)
  | .testStop w =>
    match (s.workers w).phase with
    | .asked delay now =>
      let s' := { s with unseen := false }
      .ok ((),if s.stops delay then s'.setWorker w ⟨.leaving,true⟩ else s'.setPhase w (.timed (epollTimeout delay) now))
    | _ => .ok ((),s)
  | .wait w =>
    match (s.workers w).phase with
    -- `epoll_wait` counts from its own call
    | .timed timeout _ => .ok ((),s.setPhase w (.blocked (deadlineOf timeout s.clock)))
    | _ => .ok ((),s)
  | .wake w pipe event =>
    match (s.workers w).phase with
    | .blocked deadline =>
      -- a byte, an event of a descriptor, or the timeout
      let byte := pipe && s.bytes > 0
      .ok ((),if byte || event || deadline.any (· ≤ s.clock) then s.setPhase w (.woken byte) else s)
    | _ => .ok ((),s)
  | .expire w now tmp =>
    match (s.workers w).phase with
    | .woken pipe =>
      let r := s.timers.listExpiredCb (min now s.clock) tmp
      .ok ((),{ s with timers := r.2 }.setPhase w (.handing pipe (r.1.map (Option.map fun _ => .cb))))
    | _ => .ok ((),s)
  | .hand w =>
    match (s.workers w).phase with
    | .handing pipe tasks => .ok ((),(s.scheduleAll tasks).setPhase w (.draining pipe))
    | _ => .ok ((),s)
  | .drain w =>
    match (s.workers w).phase with
    | .draining pipe => .ok ((),{ s with bytes := if pipe then 0 else s.bytes }.setPhase w .leaving)
    | _ => .ok ((),s)
  | .back w => .ok ((),if (s.workers w).phase = .leaving then { s with idle := decrement s.idle }.setPhase w .search else s)
  | .tickle => .ok ((),if s.tickles = 0 then s else { s with tickles := s.tickles - 1 }.tickle)
  | .schedule task thread => .ok ((),s.schedule task thread)
  | .scheduleAll tasks => .ok ((),s.scheduleAll tasks)
  | .addTimer p now ms cb recurring =>
    if p ∈ s.timers.made then .ok ((),s)
    else
      let r := s.timers.addTimer p (min now s.clock) ms cb recurring
      .ok ((),{ s with timers := r.2 }.owe r.1)
  | .reset p ms fromNow =>
    let r := s.timers.reset p ms fromNow s.clock
    .ok ((),{ s with timers := r.2.2 }.owe r.2.1)
  | .cancel p =>
    match s.timers.cancel p with
    | .error e => .error e
    | .ok r => .ok ((),{ s with timers := r.2 })
  | .autoStop => .ok ((),{ s with autoStop := true })
  -- one `tickle` for every thread, the caller's included
  | .stop => .ok ((),{ s with stopping := true, unseen := true, tickles := s.tickles + n })
  | .setEvents k => .ok ((),{ s with events := k })
  | .passTime d => .ok ((),{ s with clock := s.clock + d })

end System
end Radixun.Common.Wakeup
