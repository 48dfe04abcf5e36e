import Mathlib.Init

/-! The fiber class: its states, its callback, and what a switch into it runs. -/
namespace Radixun.Common

/-- `Fiber::State`. -/
inductive FiberState where
  | init | hold | exec | term | ready | except
  deriving DecidableEq, Repr

/-- `YieldToReady` and `YieldToHold`. -/
inductive Yield where
  | toReady | toHold
  deriving DecidableEq, Repr

def Yield.state : Yield → FiberState
  | .toReady => .ready
  | .toHold => .hold

/-- How control leaves a callback for good. -/
inductive Exit where
  | returns | throwsException | throwsOther
  deriving DecidableEq, Repr

/-- What a callback does as far as its fiber is concerned. -/
structure Behaviour where
  yields : List Yield
  exit : Exit
  deriving DecidableEq, Repr

/-- Where a context goes on: at the start of its main function, behind a yield, or behind
the last switch, which nothing may follow. -/
inductive Ctx where
  | entry
  | inside (rest : Behaviour)
  | past
  deriving DecidableEq, Repr

def Ctx.isInside : Ctx → Bool
  | .inside _ => true
  | _ => false

/-- The assertions of the class, and the null pointer that `GetMainFiber` returns on a thread without a scheduler. -/
inductive Assertion where
  | swapIn | reset | yield | neverReach | destructor | noScheduler
  deriving DecidableEq, Repr

/-- A fiber with a stack of its own. `caller` is set when its main function is
`CallerMainFunc`. -/
structure Fiber where
  state : FiberState
  cb : Option Behaviour
  ctx : Ctx
  caller : Bool
  deriving DecidableEq, Repr

/-- `m_state == TERM || m_state == EXCEPT || m_state == INIT`. -/
def FiberState.disposable : FiberState → Bool
  | .init | .term | .except => true
  | .hold | .exec | .ready => false

/-- The `try` block of both main functions: the handler of `std::exception` leaves the state alone. -/
def Exit.stateAfter : Exit → FiberState → FiberState
  | .returns, _ => .term
  | .throwsException, state => state
  | .throwsOther, _ => .except

namespace Fiber

def new (cb : Behaviour) (caller : Bool) : Fiber := ⟨.init,some cb,.entry,caller⟩

def reset (f : Fiber) (cb : Option Behaviour) : Except Assertion Fiber :=
  if f.state.disposable then .ok ⟨.init,cb,.entry,false⟩ else .error .reset

/-- `swapIn` up to the switch. -/
def swapIn (f : Fiber) : Except Assertion Fiber :=
  if f.state = .exec then .error .swapIn else .ok { f with state := .exec }

/-- `call` up to the switch. -/
def call (f : Fiber) : Fiber := { f with state := .exec }

/-- What a switch into the fiber runs. An empty `m_cb` throws `std::bad_function_call`. -/
def program (f : Fiber) : Option Behaviour :=
  match f.ctx with
  | .entry => some (f.cb.getD ⟨[],.throwsException⟩)
  | .inside rest => some rest
  | .past => none

/-- From a switch into the fiber to the last write of `m_state` before the switch out of it, with the way its callback was
left and the place that the switch will save. -/
def segment (f : Fiber) : Except Assertion (Fiber × Option Exit × Ctx) :=
  match f.program with
  | none => .error .neverReach
  | some ⟨y :: ys,exit⟩ =>
    if f.state = .exec then .ok ({ f with state := y.state },none,.inside ⟨ys,exit⟩) else .error .yield
  | some ⟨[],exit⟩ =>
    .ok ({ f with
      state := exit.stateAfter f.state
      cb := if exit = .returns then none else f.cb },some exit,.past)

end Fiber
end Radixun.Common
