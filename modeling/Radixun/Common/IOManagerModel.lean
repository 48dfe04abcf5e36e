import Mathlib.Algebra.Ring.Nat
import Mathlib.Data.Finset.Basic
import Mathlib.Data.Fintype.Basic
import Mathlib.Logic.Function.Basic
import Radixun.Foundation.ExceptionState

/-! The event registrations of the IO manager: the table of fd contexts, the kernel's interest
set, the counter, and what is handed to schedulers. Each function is one critical section under
the mutex of the fd context. Schedulers, fibers and callbacks are arbitrary. -/
namespace Radixun.Common.IOManager
open Foundation.ExceptionState

/-- `READ` and `WRITE`. A mask is a set of them. -/
inductive Event where
  | read | write
  deriving DecidableEq, Repr

instance : Fintype Event := ⟨{.read,.write},fun e => by cases e <;> decide⟩

/-- What goes wrong when the code does not return. -/
inductive Fault where
  | assertion | nullDeref | outOfBounds
  deriving DecidableEq, Repr

structure EventContext (σ φ κ : Type) where
  scheduler : Option σ
  fiber : Option φ
  cb : Option κ
  deriving DecidableEq

structure FdContext (σ φ κ : Type) where
  context : Event → EventContext σ φ κ
  events : Finset Event

/-- What a scheduler is given to run. -/
inductive Task (φ κ : Type) where
  | fiber (f : φ)
  | cb (c : κ)
  deriving DecidableEq

/-- `scheduled` lists what `schedule` was called with so far. `fds` gives a context for every
descriptor; the table holds those below `size`, the others are as `contextResize` makes them. -/
structure State (σ φ κ : Type) where
  size : Nat
  fds : Nat → FdContext σ φ κ
  interest : Nat → Finset Event
  pending : Nat
  scheduled : List (σ × Task φ κ)

/-- `--n` in `size_t`. -/
def decrement (n : Nat) : Nat := if n = 0 then 2^64 - 1 else n - 1

/-- `EPOLL_CTL_ADD`, `EPOLL_CTL_MOD`, `EPOLL_CTL_DEL`. -/
inductive CtlOp where
  | add | mod | del
  deriving DecidableEq

variable {σ φ κ : Type}

def EventContext.empty : EventContext σ φ κ := ⟨none,none,none⟩

/-- `!event_ctx.scheduler && !event_ctx.fiber && !event_ctx.cb`. -/
def EventContext.isEmpty (x : EventContext σ φ κ) : Bool := x.scheduler.isNone && x.fiber.isNone && x.cb.isNone

/-- The slot as `addEvent` fills it: the callback, or the running fiber when there is none. -/
def EventContext.filled (this : Option σ) (current : φ) : Option κ → EventContext σ φ κ
  | some cb => ⟨this,none,some cb⟩
  | none => ⟨this,some current,none⟩

namespace State

def init : State σ φ κ := ⟨32,fun _ => ⟨fun _ => .empty,∅⟩,fun _ => ∅,0,[]⟩

/-- The fd context after a write to it. -/
def setFd (s : State σ φ κ) (fd : Nat) (c : FdContext σ φ κ) : State σ φ κ := { s with fds := Function.update s.fds fd c }

/-- A successful `epoll_ctl`. -/
def epollCtl (s : State σ φ κ) (op : CtlOp) (fd : Nat) (events : Finset Event) : State σ φ κ :=
  { s with interest := Function.update s.interest fd (if op = .del then ∅ else events) }

/-- `FdContext::triggerEvent`. -/
def triggerEvent (s : State σ φ κ) (fd : Nat) (event : Event) : Except Fault (State σ φ κ) :=
  let c := s.fds fd
  if event ∉ c.events then .error .assertion
  else
    let x := c.context event
    match x.scheduler with
    | none => .error .nullDeref
    | some scheduler =>
      -- `schedule` takes the callback, or else the fiber, out of the slot; nothing is no task
      let (task,x') := match x.cb with
        | some cb => ([(scheduler,Task.cb cb)],⟨none,x.fiber,none⟩)
        | none => (x.fiber.toList.map fun f => (scheduler,Task.fiber f),⟨none,none,none⟩)
      let s' := s.setFd fd ⟨Function.update c.context event x',c.events \ {event}⟩
      .ok { s' with scheduled := s.scheduled ++ task }

/-- `addEvent`; `this` is `Scheduler::GetThis()`, `current` the running fiber, and `ctl` says whether
`epoll_ctl` succeeds. The result is whether 0 is returned. -/
def addEvent (s : State σ φ κ) (fd : Nat) (event : Event) (this : Option σ) (current : φ) (cb : Option κ) (ctl : Bool) :
    Except Fault (Bool × State σ φ κ) :=
  let s := if fd < s.size then s else { s with size := fd * 3 / 2 }
  if s.size ≤ fd then .error .outOfBounds
  else
    let c := s.fds fd
    if event ∈ c.events then .error .assertion
    else
      let op := if c.events = ∅ then CtlOp.add else .mod
      if !ctl then .ok (false,s)
      else
        let s := s.epollCtl op fd (c.events ∪ {event})
        if !(c.context event).isEmpty then .error .assertion
        else
          let s := s.setFd fd ⟨Function.update c.context event (.filled this current cb),c.events ∪ {event}⟩
          .ok (true,{ s with pending := s.pending + 1 })

/-- `delEvent`. -/
def delEvent (s : State σ φ κ) (fd : Nat) (event : Event) (ctl : Bool) : Except Fault (Bool × State σ φ κ) :=
  if s.size ≤ fd then .ok (false,s)
  else
    let c := s.fds fd
    if event ∉ c.events then .ok (false,s)
    else
      let newEvents := c.events \ {event}
      let op := if newEvents = ∅ then CtlOp.del else .mod
      if !ctl then .ok (false,s)
      else
        let s := (s.epollCtl op fd newEvents).setFd fd ⟨Function.update c.context event .empty,newEvents⟩
        .ok (true,{ s with pending := decrement s.pending })

/-- `triggerEvent` and the decrement next to it. -/
def fire (s : State σ φ κ) (fd : Nat) (event : Event) : Except Fault (State σ φ κ) := do
  let s ← s.triggerEvent fd event
  .ok { s with pending := decrement s.pending }

def fireIf (s : State σ φ κ) (test : Bool) (fd : Nat) (event : Event) : Except Fault (State σ φ κ) :=
  if test then s.fire fd event else .ok s

/-- `cancelEvent`. -/
def cancelEvent (s : State σ φ κ) (fd : Nat) (event : Event) (ctl : Bool) : Except Fault (Bool × State σ φ κ) :=
  if s.size ≤ fd then .ok (false,s)
  else
    let c := s.fds fd
    if event ∉ c.events then .ok (false,s)
    else
      let newEvents := c.events \ {event}
      let op := if newEvents = ∅ then CtlOp.del else .mod
      if !ctl then .ok (false,s)
      else do
        let s ← (s.epollCtl op fd newEvents).fire fd event
        .ok (true,s)

/-- `cancelAll`. -/
def cancelAll (s : State σ φ κ) (fd : Nat) (ctl : Bool) : Except Fault (Bool × State σ φ κ) :=
  if s.size ≤ fd then .ok (false,s)
  else if (s.fds fd).events = ∅ then .ok (false,s)
  else if !ctl then .ok (false,s)
  else do
    let s := s.epollCtl .del fd ∅
    let s ← s.fireIf (.read ∈ (s.fds fd).events) fd .read
    let s ← s.fireIf (.write ∈ (s.fds fd).events) fd .write
    if (s.fds fd).events ≠ ∅ then .error .assertion else .ok (true,s)

end State

/-- `EPOLLIN`, `EPOLLOUT`, `EPOLLERR`, `EPOLLHUP` of a result of `epoll_wait`. -/
structure Ready where
  input : Bool
  output : Bool
  err : Bool
  hup : Bool
  deriving DecidableEq, Repr

/-- `real_events`: an error counts as both. -/
def Ready.real (r : Ready) : Finset Event :=
  let both := r.err || r.hup
  (if r.input || both then {.read} else ∅) ∪ (if r.output || both then {.write} else ∅)

/-- The part of the loop in `idle` that deals with one result: whether it gets to the triggers. -/
def State.dispatch (s : State σ φ κ) (fd : Nat) (ready : Ready) (ctl : Bool) : Except Fault (Bool × State σ φ κ) :=
  let real := ready.real
  let c := s.fds fd
  if c.events ∩ real = ∅ then .ok (false,s)
  else
    let left := c.events \ real
    let op := if left = ∅ then CtlOp.del else .mod
    if !ctl then .ok (false,s)
    else do
      let s := s.epollCtl op fd left
      let s ← s.fireIf (.read ∈ real) fd .read
      let s ← s.fireIf (.write ∈ real) fd .write
      .ok (true,s)

end Radixun.Common.IOManager
