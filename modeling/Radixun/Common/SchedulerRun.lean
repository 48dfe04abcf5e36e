import Mathlib.Logic.Function.Basic
import Radixun.Common.FiberModel
import Radixun.Common.SchedulerQueue
import Radixun.Foundation.CommandRuns

/-! The loop of `Scheduler::run` on any number of threads, in the steps between which others may act:
the search under the lock, the two tests of a task's state, the count of active threads, the return
from the fiber and the re-queuing. When a callback stops or ends is chosen step by step. -/
namespace Radixun.Common.Run
open Foundation.CommandRuns Scheduler

inductive Task where
  | fiber (f : Nat)
  | cb
  deriving DecidableEq, Repr

/-- A task with its history: the thread it was submitted for, and whether `run` itself put it back. -/
structure Job (n : Nat) where
  task : Task
  pin : Option (Fin n)
  again : Bool
  deriving DecidableEq

/-- By which branch of the loop body a fiber is resumed. -/
inductive Role where
  | fiber | cb
  deriving DecidableEq, Repr

/-- A fiber on a thread, and the job it runs for. -/
structure Slice (n : Nat) where
  fiber : Nat
  role : Role
  job : Job n
  deriving DecidableEq

/-- Where a thread is in the loop. `settling` is behind `--m_activeThreadCount`, `requeuing` is behind the
test for `READY`. -/
inductive Phase (n : Nat) where
  | search
  | taken (job : Job n)
  | entering (x : Slice n)
  | running (x : Slice n)
  | returned (x : Slice n)
  | settling (x : Slice n)
  | requeuing (x : Slice n)
  | idle
  | exited
  deriving DecidableEq

/-- The thread has taken a task and not lowered the count since. -/
def Phase.counted {n : Nat} : Phase n → Bool
  | .taken _ | .entering _ | .running _ | .returned _ => true
  | .search | .settling _ | .requeuing _ | .idle | .exited => false

def Phase.weight {n : Nat} (p : Phase n) : Nat := if p.counted then 1 else 0

/-- The job a thread is busy with. -/
def Phase.job? {n : Nat} : Phase n → Option (Job n)
  | .taken job => some job
  | .entering x | .running x | .returned x | .settling x | .requeuing x => some x.job
  | .search | .idle | .exited => none

/-- `idleDone` is set once the idle fiber of the thread has ended. -/
structure Worker (n : Nat) where
  cbFiber : Option Nat
  idleDone : Bool
  phase : Phase n
  deriving DecidableEq

/-- `active` is `m_activeThreadCount`. Fibers below `next` exist. -/
structure System (n : Nat) where
  states : Nat → FiberState
  next : Nat
  queue : List (Entry (Job n) (Fin n))
  active : Nat
  autoStop : Bool
  stopping : Bool
  workers : Fin n → Worker n

inductive Failure where
  | swapIn | reset | yield | underflow
  deriving DecidableEq, Repr

/-- `test` is a call of `stopping` by a thread outside of the loop. -/
inductive Act (n : Nat) where
  | newFiber
  | schedule (task : Task) (thread : Option (Fin n))
  | start
  | autoStop
  | stop
  | test
  | take (w : Fin n)
  | choose (w : Fin n)
  | swapIn (w : Fin n)
  | yield (w : Fin n) (y : Yield)
  | exit (w : Fin n) (e : Exit)
  | decrement (w : Fin n)
  | settle (w : Fin n)
  | requeue (w : Fin n)
  | idle (w : Fin n)
  deriving DecidableEq

namespace System
variable {n : Nat}

def init (n : Nat) : System n := ⟨fun _ => .init,0,[],0,false,true,fun _ => ⟨none,false,.search⟩⟩

def setState (s : System n) (f : Nat) (state : FiberState) : System n := { s with states := Function.update s.states f state }
def setWorker (s : System n) (w : Fin n) (x : Worker n) : System n := { s with workers := Function.update s.workers w x }
def setPhase (s : System n) (w : Fin n) (phase : Phase n) : System n := s.setWorker w { s.workers w with phase := phase }
def enqueue (s : System n) (job : Job n) (thread : Option (Fin n)) : System n := { s with queue := s.queue ++ [⟨job,thread⟩] }

/-- `Scheduler::stopping`. -/
def isStopping (s : System n) : Bool := s.autoStop && s.stopping && s.queue.isEmpty && s.active == 0

/-- The test `getState() == EXEC` of the search. -/
def busy (s : System n) (job : Job n) : Bool :=
  match job.task with
  | .fiber f => s.states f = .exec
  | .cb => false

/-- `--m_activeThreadCount`. -/
def lower (s : System n) : Except Failure (System n) :=
  if s.active = 0 then .error .underflow else .ok { s with active := s.active - 1 }

/-- One search of the queue. Without a task it is the turn of the idle fiber, unless that has ended. -/
def take (s : System n) (w : Fin n) : System n :=
  match dequeue s.busy w s.queue with
  | some (e,rest) => { s with queue := rest, active := s.active + 1 }.setPhase w (.taken e.task)
  | none => s.setPhase w (if (s.workers w).idleDone then .exited else .idle)

/-- What is done with the task up to `swapIn`. -/
def choose (s : System n) (w : Fin n) (job : Job n) : Except Failure (System n) :=
  match job.task with
  | .fiber f =>
    if s.states f ≠ .term ∧ s.states f ≠ .except then .ok (s.setPhase w (.entering ⟨f,.fiber,job⟩))
    else s.lower.map fun s' => s'.setPhase w .search
  | .cb =>
    match (s.workers w).cbFiber with
    | some f =>
      if (s.states f).disposable then .ok ((s.setState f .init).setPhase w (.entering ⟨f,.cb,job⟩)) else .error .reset
    | none =>
      let f := s.next
      .ok (({ s with next := f + 1 }.setState f .init).setWorker w ⟨some f,(s.workers w).idleDone,.entering ⟨f,.cb,job⟩⟩)

/-- The tests of the state behind `--m_activeThreadCount`. -/
def settle (s : System n) (w : Fin n) (x : Slice n) : System n :=
  let state := s.states x.fiber
  if state = .ready then s.setPhase w (.requeuing x)
  else match x.role with
    | .fiber => if state ≠ .term ∧ state ≠ .except then (s.setState x.fiber .hold).setPhase w .search else s.setPhase w .search
    | .cb =>
      if state = .except ∨ state = .term then (s.setState x.fiber .init).setPhase w .search
      else (s.setState x.fiber .hold).setWorker w ⟨none,(s.workers w).idleDone,.search⟩

/-- `schedule(ft.fiber)`, and `schedule(cb_fiber)` with the `reset` of `cb_fiber`. -/
def requeue (s : System n) (w : Fin n) (x : Slice n) : System n :=
  let cbFiber := match x.role with
    | .fiber => (s.workers w).cbFiber
    | .cb => none
  (s.setWorker w ⟨cbFiber,(s.workers w).idleDone,.search⟩).enqueue ⟨.fiber x.fiber,x.job.pin,true⟩ none

/-- One step of the system. A step that is not due changes nothing. -/
def step (a : Act n) (s : System n) : Except Failure (Unit × System n) :=
  match a with
  | .newFiber => .ok ((),{ s with next := s.next + 1 }.setState s.next .init)
  | .schedule task thread => .ok ((),s.enqueue ⟨task,thread,false⟩ thread)
  | .start => .ok ((),{ s with stopping := false })
  | .autoStop => .ok ((),{ s with autoStop := true })
  | .stop => .ok ((),{ s with stopping := true })
  | .test => .ok ((),s)
  | .take w =>
    match (s.workers w).phase with
    | .search => .ok ((),s.take w)
    | _ => .ok ((),s)
  | .choose w =>
    match (s.workers w).phase with
    | .taken job => (s.choose w job).map fun s' => ((),s')
    | _ => .ok ((),s)
  | .swapIn w =>
    match (s.workers w).phase with
    | .entering x =>
      if s.states x.fiber = .exec then .error .swapIn else .ok ((),(s.setState x.fiber .exec).setPhase w (.running x))
    | _ => .ok ((),s)
  | .yield w y =>
    match (s.workers w).phase with
    | .running x =>
      if s.states x.fiber = .exec then .ok ((),(s.setState x.fiber y.state).setPhase w (.returned x)) else .error .yield
    | _ => .ok ((),s)
  | .exit w e =>
    match (s.workers w).phase with
    | .running x => .ok ((),(s.setState x.fiber (e.stateAfter (s.states x.fiber))).setPhase w (.returned x))
    | _ => .ok ((),s)
  | .decrement w =>
    match (s.workers w).phase with
    | .returned x => s.lower.map fun s' => ((),s'.setPhase w (.settling x))
    | _ => .ok ((),s)
  | .settle w =>
    match (s.workers w).phase with
    | .settling x => .ok ((),s.settle w x)
    | _ => .ok ((),s)
  | .requeue w =>
    match (s.workers w).phase with
    | .requeuing x => .ok ((),s.requeue w x)
    | _ => .ok ((),s)
  | .idle w =>
    match (s.workers w).phase with
    | .idle =>
      if s.isStopping then .ok ((),s.setWorker w ⟨(s.workers w).cbFiber,true,.search⟩) else .ok ((),s.setPhase w .search)
    | _ => .ok ((),s)

/-- The act evaluates `stopping`. -/
def tests (s : System n) : Act n → Bool
  | .test => true
  | .idle w => (s.workers w).phase = .idle
  | _ => false

/-- What a step does to the threads, the queue and the count. -/
inductive Effect (a : Act n) (s s' : System n) : Prop where
  | stays (hw : s'.workers = s.workers) (hq : s'.queue = s.queue) (ha : s'.active = s.active)
  | submits (task : Task) (thread : Option (Fin n)) (hw : s'.workers = s.workers)
      (hq : s'.queue = s.queue ++ [⟨⟨task,thread,false⟩,thread⟩]) (ha : s'.active = s.active)
  | takes (w : Fin n) (e : Entry (Job n) (Fin n)) (rest : List (Entry (Job n) (Fin n)))
      (hp : (s.workers w).phase = .search) (hd : dequeue s.busy w s.queue = some (e,rest))
      (hw : s'.workers = Function.update s.workers w { s.workers w with phase := .taken e.task })
      (hq : s'.queue = rest) (ha : s'.active = s.active + 1)
  | moves (w : Fin n) (x : Worker n) (hw : s'.workers = Function.update s.workers w x)
      (hj : ∀ job ∈ x.phase.job?, job ∈ (s.workers w).phase.job?) (hq : s'.queue = s.queue)
      (ha : s'.active + (s.workers w).phase.weight = s.active + x.phase.weight)
  | requeues (w : Fin n) (x : Slice n) (y : Worker n) (hact : a = .requeue w) (hp : (s.workers w).phase = .requeuing x)
      (hy : y.phase = .search) (hw : s'.workers = Function.update s.workers w y)
      (hq : s'.queue = s.queue ++ [⟨⟨.fiber x.fiber,x.job.pin,true⟩,none⟩]) (ha : s'.active = s.active)

theorem lower_ok {s s' : System n} (h : s.lower = .ok s') :
    s'.workers = s.workers ∧ s'.queue = s.queue ∧ s'.active + 1 = s.active := by
  unfold lower at h
  split at h
  · cases h
  · rename_i ha
    cases h
    exact ⟨rfl,rfl,Nat.sub_add_cancel (Nat.pos_of_ne_zero ha)⟩

theorem lower_error {s : System n} {e : Failure} (h : s.lower = .error e) : s.active = 0 := by
  unfold lower at h
  split at h
  · assumption
  · cases h

/-- One thread goes on with its job, and keeps its part of the count. -/
private theorem Effect.goes_on {a : Act n} {s s' : System n} {w : Fin n} {p : Phase n} {x : Worker n}
    (hp : (s.workers w).phase = p) (hw : s'.workers = Function.update s.workers w x) (hj : ∀ job ∈ x.phase.job?, job ∈ p.job?)
    (hq : s'.queue = s.queue) (ha : s'.active = s.active) (hc : x.phase.weight = p.weight) : Effect a s s' :=
  .moves w x hw (hp ▸ hj) hq (by rw [hp, ha, hc])

private theorem Effect.lowers {a : Act n} {s s₁ : System n} {w : Fin n} {p q : Phase n} (hp : (s.workers w).phase = p)
    (hc : p.counted = true) (hq : q.counted = false) (hj : ∀ job ∈ q.job?, job ∈ p.job?) (h : s.lower = .ok s₁) :
    Effect a s (s₁.setPhase w q) := by
  obtain ⟨hworkers,hqueue,hactive⟩ := lower_ok h
  refine .moves w { s₁.workers w with phase := q } ?_ (hp ▸ hj) hqueue ?_
  · rw [← hworkers]
    rfl
  · rw [hp]
    simp only [Phase.weight, hc, hq, if_true]
    exact hactive

private theorem take_effect {a : Act n} (s : System n) {w : Fin n} (hp : (s.workers w).phase = .search) : Effect a s (s.take w) := by
  unfold take
  split
  · exact .takes w _ _ hp ‹_› rfl rfl rfl
  · refine .goes_on hp rfl (fun job hj => ?_) rfl rfl ?_
    · cases hd : (s.workers w).idleDone <;> simp [hd, Phase.job?] at hj
    · cases (s.workers w).idleDone <;> rfl

private theorem choose_effect {a : Act n} {s s' : System n} {w : Fin n} {job : Job n} (hp : (s.workers w).phase = .taken job)
    (h : s.choose w job = .ok s') : Effect a s s' := by
  unfold choose at h
  split at h
  · split at h
    · cases h
      exact .goes_on hp rfl (fun _ hj => hj) rfl rfl rfl
    · obtain ⟨s₁,hl,rfl⟩ := map_ok h
      exact .lowers hp rfl rfl (fun _ hj => by cases hj) hl
  · split at h
    · split at h
      · cases h
        exact .goes_on hp rfl (fun _ hj => hj) rfl rfl rfl
      · cases h
    · cases h
      exact .goes_on hp rfl (fun _ hj => hj) rfl rfl rfl

private theorem settle_effect {a : Act n} (s : System n) {w : Fin n} {x : Slice n} (hp : (s.workers w).phase = .settling x) :
    Effect a s (s.settle w x) := by
  have hnone : ∀ job ∈ (Phase.search : Phase n).job?, job ∈ (Phase.settling x).job? := fun _ hj => by cases hj
  unfold settle
  dsimp only
  split
  · exact .goes_on hp rfl (fun _ hj => hj) rfl rfl rfl
  split
  · split
    · exact .goes_on hp rfl hnone rfl rfl rfl
    · exact .goes_on hp rfl hnone rfl rfl rfl
  · split
    · exact .goes_on hp rfl hnone rfl rfl rfl
    · exact .goes_on hp rfl hnone rfl rfl rfl

theorem step_effect {s s' : System n} {a : Act n} (h : step a s = .ok ((),s')) : Effect a s s' := by
  cases a with
  | newFiber | start | autoStop | stop | test => cases h; exact .stays rfl rfl rfl
  | schedule task thread => cases h; exact .submits task thread rfl rfl rfl
  | take w =>
    simp only [step] at h
    split at h
    · cases h; exact take_effect s ‹_›
    · cases h; exact .stays rfl rfl rfl
  | choose w =>
    simp only [step] at h
    split at h
    · obtain ⟨s₁,hc,he⟩ := map_ok h
      cases he
      exact choose_effect ‹_› hc
    · cases h; exact .stays rfl rfl rfl
  | swapIn w =>
    simp only [step] at h
    split at h
    · rename_i hp
      split at h
      · cases h
      · cases h; exact .goes_on hp rfl (fun _ hj => hj) rfl rfl rfl
    · cases h; exact .stays rfl rfl rfl
  | yield w y =>
    simp only [step] at h
    split at h
    · rename_i hp
      split at h
      · cases h; exact .goes_on hp rfl (fun _ hj => hj) rfl rfl rfl
      · cases h
    · cases h; exact .stays rfl rfl rfl
  | exit w e =>
    simp only [step] at h
    split at h
    · rename_i hp
      cases h; exact .goes_on hp rfl (fun _ hj => hj) rfl rfl rfl
    · cases h; exact .stays rfl rfl rfl
  | decrement w =>
    simp only [step] at h
    split at h
    · rename_i hp
      obtain ⟨s₁,hl,he⟩ := map_ok h
      cases he
      exact .lowers hp rfl rfl (fun _ hj => hj) hl
    · cases h; exact .stays rfl rfl rfl
  | settle w =>
    simp only [step] at h
    split at h
    · cases h; exact settle_effect s ‹_›
    · cases h; exact .stays rfl rfl rfl
  | requeue w =>
    simp only [step] at h
    split at h
    · cases h; exact .requeues w _ _ rfl ‹_› rfl rfl rfl rfl
    · cases h; exact .stays rfl rfl rfl
  | idle w =>
    have hnone : ∀ job ∈ (Phase.search : Phase n).job?, job ∈ (Phase.idle : Phase n).job? := fun _ hj => by cases hj
    simp only [step] at h
    split at h
    · rename_i hp
      split at h
      · cases h; exact .goes_on hp rfl hnone rfl rfl rfl
      · cases h; exact .goes_on hp rfl hnone rfl rfl rfl
    · cases h; exact .stays rfl rfl rfl

end System
end Radixun.Common.Run
