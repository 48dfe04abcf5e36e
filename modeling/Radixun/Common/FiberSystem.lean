import Mathlib.Logic.Function.Basic
import Mathlib.Data.Fintype.Basic
import Radixun.Common.FiberModel
import Radixun.Common.SchedulerQueue
import Radixun.Foundation.ExceptionState

/-! Fibers under `Scheduler::run` on any number of threads, and under `call`. A pass of the loop is five steps: the search,
what is done with the task up to the switch, the fiber up to its write of `m_state`, its switch out, and the rest of the loop
body. Between these the other threads take theirs. -/
namespace Radixun.Common.Scheduler

inductive Task where
  | fiber (i : Nat)
  | cb (b : Behaviour)
  deriving DecidableEq

def Task.fiber? : Task → Option Nat
  | .fiber i => some i
  | .cb _ => none

def fiberIds {θ : Type} (queue : List (Entry Task θ)) : List Nat := queue.filterMap fun e => e.task.fiber?

/-- By which branch `run` resumed a fiber. -/
inductive Role where
  | fiber | cb
  deriving DecidableEq

/-- A fiber that was resumed executes; it has written `m_state`, with its callback left or not, and is about to switch, which
will save a place; or it has switched out. -/
inductive Phase where
  | executing
  | leaving (exit : Option Exit) (ctx : Ctx)
  | out
  deriving DecidableEq

/-- A pass of `run` through its loop from `swapIn` on. -/
structure Turn where
  fiber : Nat
  role : Role
  phase : Phase
  deriving DecidableEq

/-- The scheduler fiber of a thread: its main fiber in the pool, `m_rootFiber` on the thread that made the scheduler with
`use_caller`, and none on others. -/
inductive Home where
  | pool | root | plain
  deriving DecidableEq

/-- The locals of `run` on one thread, `taken` being what it has found, and the fiber that its main fiber has called. `inRun`
while the scheduler fiber goes on, or a fiber that it resumed. -/
structure Worker where
  home : Home
  inRun : Bool
  cbFiber : Option Nat
  taken : Option Task
  turn : Option Turn
  called : Option (Nat × Phase)
  deriving DecidableEq

namespace Worker

def init (home : Home) : Worker := ⟨home,home = .pool,none,none,none,none⟩

/-- The fiber that the thread is with. -/
def current (x : Worker) : Option (Nat × Phase) :=
  match x.called with
  | some c => some c
  | none => if x.inRun then x.turn.map fun t => (t.fiber,t.phase) else none

def setPhase (x : Worker) (phase : Phase) : Worker :=
  match x.called with
  | some (i,_) => { x with called := some (i,phase) }
  | none => { x with turn := x.turn.map fun t => { t with phase := phase } }

/-- The thread has resumed or called fiber `i` and is not through with it. -/
def holds (x : Worker) (i : Nat) : Bool := x.turn.any (·.fiber = i) || x.called.any (·.1 = i)

def refers (x : Worker) (i : Nat) : Bool := x.cbFiber = some i || x.taken = some (.fiber i) || x.holds i

/-- The main fiber of the thread executes, and no other fiber. -/
def idle (x : Worker) : Bool := !x.inRun && x.called.isNone

/-- `run` goes on, and no fiber. -/
def loops (x : Worker) : Bool := x.inRun && x.called.isNone && x.turn.isNone

end Worker

/-- Fibers by identity, `none` once destroyed. `handles` are the references that the rest of
the program holds. -/
structure System (n : Nat) where
  fibers : Nat → Option Fiber
  next : Nat
  queue : List (Entry Task (Fin n))
  workers : Fin n → Worker
  handles : List Nat

/-- What a step shows of the life of a fiber. -/
inductive Event where
  | resumed (f : Fiber)
  | requeued (f : Fiber)
  | left (exit : Exit) (state : FiberState)
  deriving DecidableEq

inductive Act (n : Nat) where
  | newFiber (b : Behaviour) (caller : Bool)
  | acquire (i : Nat)
  | release (i : Nat)
  | scheduleFiber (i : Nat) (thread : Option (Fin n))
  | scheduleCb (b : Behaviour) (thread : Option (Fin n))
  | call (w : Fin n) (i : Nat)
  | enter (w : Fin n)
  | take (w : Fin n)
  | begin (w : Fin n)
  | work (w : Fin n)
  | switch (w : Fin n)
  | settle (w : Fin n)

namespace System
variable {n : Nat}

def init (home : Fin n → Home) : System n := ⟨fun _ => none,0,[],fun w => .init (home w),[]⟩

def setFiber (s : System n) (i : Nat) (f : Fiber) : System n := { s with fibers := Function.update s.fibers i (some f) }
def setWorker (s : System n) (w : Fin n) (x : Worker) : System n := { s with workers := Function.update s.workers w x }

/-- The fibers of the queue, one for each entry. -/
def queued (s : System n) : List Nat := fiberIds s.queue

/-- A fiber suspended by a yield holds a reference to itself on its own stack. -/
def selfHeld (s : System n) (i : Nat) : Bool := (s.fibers i).any fun f => f.ctx.isInside

/-- Some thread is not through with fiber `i`. -/
def held (s : System n) (i : Nat) : Prop := ∃ w, (s.workers w).holds i = true

instance (s : System n) (i : Nat) : Decidable (s.held i) := inferInstanceAs (Decidable (∃ _, _))

def referenced (s : System n) (i : Nat) : Bool :=
  s.handles.contains i || s.queued.contains i || s.selfHeld i || decide (∃ w, (s.workers w).refers i = true)

/-- A reference to fiber `i` is gone; with the last one `~Fiber` runs. -/
def drop (s : System n) (i : Nat) : Except Assertion (System n) :=
  if s.referenced i then .ok s
  else match s.fibers i with
    | none => .ok s
    | some f =>
      if f.state.disposable then .ok { s with fibers := Function.update s.fibers i none } else .error .destructor

/-- The test `getState() == EXEC` of the search. -/
def busy (s : System n) : Task → Bool
  | .fiber i => (s.fibers i).map Fiber.state = some .exec
  | .cb _ => false

/-- One search of the queue. -/
def take (s : System n) (w : Fin n) : System n :=
  match dequeue s.busy w s.queue with
  | none => s
  | some (e,rest) => { s with queue := rest }.setWorker w { s.workers w with taken := some e.task }

/-- `swapIn` of fiber `i` on thread `w`. -/
def resume (s : System n) (w : Fin n) (i : Nat) (f : Fiber) (cbFiber : Option Nat) (role : Role) :
    Except Assertion (List Event × System n) := do
  let f' ← f.swapIn
  .ok ([.resumed f],(s.setFiber i f').setWorker w { s.workers w with
    cbFiber := cbFiber, taken := none, turn := some ⟨i,role,.executing⟩ })

/-- What is done with the task that was found, up to the switch. -/
def begin (s : System n) (w : Fin n) : Task → Except Assertion (List Event × System n)
  | .fiber i =>
    match s.fibers i with
    | none => .ok ([],s)
    | some f =>
      if f.state ≠ .term ∧ f.state ≠ .except then s.resume w i f (s.workers w).cbFiber .fiber
      else ((s.setWorker w { s.workers w with taken := none }).drop i).map fun s' => ([],s')
  | .cb b =>
    match (s.workers w).cbFiber with
    | some i =>
      match s.fibers i with
      | none => .ok ([],s)
      | some f => do
        let f' ← f.reset (some b)
        s.resume w i f' (some i) .cb
    | none => { s with next := s.next + 1 }.resume w s.next (.new b false) (some s.next) .cb

/-- `call` of fiber `i` on thread `w` up to the switch. -/
def call (s : System n) (w : Fin n) (i : Nat) : List Event × System n :=
  match s.fibers i with
  | none => ([],s)
  | some f => ([.resumed f],(s.setFiber i f.call).setWorker w { s.workers w with called := some (i,.executing) })

/-- The fiber that thread `w` is with executes up to the write of `m_state`. -/
def work (s : System n) (w : Fin n) : Except Assertion (List Event × System n) :=
  match (s.workers w).current with
  | some (i,.executing) =>
    match s.fibers i with
    | none => .ok ([],s)
    | some f => do
      let (f',exit,ctx) ← f.segment
      .ok ((exit.map fun e => Event.left e f'.state).toList,
        (s.setFiber i f').setWorker w ((s.workers w).setPhase (.leaving exit ctx)))
  | _ => .ok ([],s)

/-- `back`: the main fiber of the thread goes on, behind `call` or, in the pool, in `run`. -/
def back (s : System n) (w : Fin n) (i : Nat) : Except Assertion (System n) :=
  let x := s.workers w
  match x.called with
  | some _ => (s.setWorker w { x with called := none }).drop i
  | none => .ok (s.setWorker w { x.setPhase .out with inRun := x.home = .pool })

/-- `swapOut`: the scheduler fiber of the thread goes on. On the thread of `m_rootFiber` it may be entered so, or be behind
a switch that it has not come back from. -/
def swapOut (s : System n) (w : Fin n) (i : Nat) : Except Assertion (System n) :=
  let x := s.workers w
  if x.home = .plain then .error .noScheduler
  else match x.called with
    | some _ => (s.setWorker w { x with called := none, inRun := true }).drop i
    | none => .ok (s.setWorker w (x.setPhase .out))

/-- The fiber that thread `w` is with switches out: by `back` at the end of `CallerMainFunc`, else by `swapOut`. -/
def switch (s : System n) (w : Fin n) : Except Assertion (List Event × System n) :=
  match (s.workers w).current with
  | some (i,.leaving exit ctx) =>
    match s.fibers i with
    | none => .ok ([],s)
    | some f =>
      let s' := s.setFiber i { f with ctx := ctx }
      (if f.caller && exit.isSome then s'.back w i else s'.swapOut w i).map fun s'' => ([],s'')
  | _ => .ok ([],s)

/-- The locals of thread `w` at the end of the loop body, with fiber `i` as it is left there. -/
def leave (s : System n) (w : Fin n) (i : Nat) (f : Fiber) (cbFiber : Option Nat) : System n :=
  (s.setFiber i f).setWorker w { s.workers w with cbFiber := cbFiber, turn := none }

/-- `schedule(fiber)`. -/
def requeue (s : System n) (i : Nat) : System n := { s with queue := s.queue ++ [⟨.fiber i,none⟩] }

/-- The rest of the loop body behind `swapIn`. -/
def settle (s : System n) (w : Fin n) (i : Nat) (f : Fiber) : Role → Except Assertion (List Event × System n)
  | .fiber =>
    let cbFiber := (s.workers w).cbFiber
    if f.state = .ready then .ok ([.requeued f],(s.requeue i).leave w i f cbFiber)
    else do
      let hold := f.state ≠ .term ∧ f.state ≠ .except
      let s' ← (s.leave w i (if hold then { f with state := .hold } else f) cbFiber).drop i
      .ok ([],s')
  | .cb =>
    if f.state = .ready then .ok ([.requeued f],(s.requeue i).leave w i f none)
    else if f.state = .except ∨ f.state = .term then do
      let f' ← f.reset none
      .ok ([],s.leave w i f' (some i))
    else do
      let s' ← (s.leave w i { f with state := .hold } none).drop i
      .ok ([],s')

/-- One step of the system. An act that is not due changes nothing. -/
def step (a : Act n) (s : System n) : Except Assertion (List Event × System n) :=
  match a with
  | .newFiber b caller => .ok ([],{ s.setFiber s.next (.new b caller) with next := s.next + 1, handles := s.next :: s.handles })
  | .acquire i => .ok ([],if (s.fibers i).isSome then { s with handles := i :: s.handles } else s)
  | .release i => if i ∈ s.handles then do
      let s' ← { s with handles := s.handles.erase i }.drop i
      .ok ([],s')
    else .ok ([],s)
  | .scheduleFiber i thread =>
    .ok ([],if (s.fibers i).isSome then { s with queue := s.queue ++ [⟨.fiber i,thread⟩] } else s)
  | .scheduleCb b thread => .ok ([],{ s with queue := s.queue ++ [⟨.cb b,thread⟩] })
  | .call w i => .ok (if (s.workers w).idle then s.call w i else ([],s))
  -- `stop` calls `m_rootFiber`, which runs `run`
  | .enter w =>
    let x := s.workers w
    .ok ([],if x.idle && x.home = .root then s.setWorker w { x with inRun := true } else s)
  | .take w =>
    let x := s.workers w
    .ok ([],if x.loops && x.taken.isNone then s.take w else s)
  | .begin w =>
    let x := s.workers w
    match x.taken with
    | some task => if x.loops then s.begin w task else .ok ([],s)
    | none => .ok ([],s)
  | .work w => s.work w
  | .switch w => s.switch w
  | .settle w =>
    let x := s.workers w
    match x.turn with
    | some ⟨i,role,.out⟩ =>
      match s.fibers i with
      | none => .ok ([],s)
      | some f => if x.inRun && x.called.isNone then s.settle w i f role else .ok ([],s)
    | _ => .ok ([],s)

end System

end Radixun.Common.Scheduler
