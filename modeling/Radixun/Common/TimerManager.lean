import Mathlib.Algebra.Ring.Nat
import Mathlib.Data.List.Sort
import Mathlib.Logic.Function.Basic

/-! The timer manager: timers by address, the ordered set of the armed ones, and the flag that keeps
it from waking its owner twice. Clock readings and addresses are arguments. -/
namespace Radixun.Common.Timers

/-- A result in `uint64_t`. -/
def uint64 (n : Nat) : Nat := n % 2^64

/-- The difference of two `uint64_t`. -/
def uint64Sub (a b : Nat) : Nat := uint64 (a + 2^64 - b)

structure Timer (κ : Type) where
  recurring : Bool
  ms : Nat
  next : Nat
  cb : Option κ
  deriving DecidableEq

/-- `made` are the addresses handed out so far, `timers` is the set in its order. -/
structure Manager (κ : Type) where
  timer : Nat → Timer κ
  made : List Nat
  timers : List Nat
  tickled : Bool

/-- `erase` at the end of the set is undefined. -/
inductive Fault where
  | eraseEnd
  deriving DecidableEq, Repr

namespace Manager
variable {κ : Type}

def init : Manager κ := ⟨fun _ => ⟨false,0,0,none⟩,[],[],false⟩

def next (m : Manager κ) (p : Nat) : Nat := (m.timer p).next

def setTimer (m : Manager κ) (p : Nat) (t : Timer κ) : Manager κ := { m with timer := Function.update m.timer p t }

/-- `Timer::Comparator` on two timers that exist. -/
def less (m : Manager κ) (p q : Nat) : Bool :=
  if m.next p < m.next q then true else if m.next q < m.next p then false else p < q

/-- `p` may stand before `q` in the set. -/
def le (m : Manager κ) (p q : Nat) : Prop := m.less q p = false

instance (m : Manager κ) : DecidableRel m.le := fun p q => inferInstanceAs (Decidable (m.less q p = false))

/-- `m_timers.insert`. The set holds a timer at most once. -/
def insert (m : Manager κ) (p : Nat) : Manager κ :=
  { m with timers := if p ∈ m.timers then m.timers else m.timers.orderedInsert m.le p }

/-- `m_timers.find`: the first timer not below the one searched, if it is not above it. -/
def find (m : Manager κ) (p : Nat) : Option Nat := (m.timers.find? fun q => !m.less q p).filter fun q => !m.less p q

def erase (m : Manager κ) (p : Nat) : Manager κ := { m with timers := m.timers.erase p }

/-- The protected `addTimer`, with whether it calls `onTimerInsertedAtFront`. -/
def add (m : Manager κ) (p : Nat) : Bool × Manager κ :=
  let m := m.insert p
  let atFront := m.timers.head? = some p && !m.tickled
  (atFront,{ m with tickled := m.tickled || atFront })

/-- `addTimer` for a timer allocated at `p`. -/
def addTimer (m : Manager κ) (p now ms : Nat) (cb : Option κ) (recurring : Bool) : Bool × Manager κ :=
  ({ m with made := p :: m.made }.setTimer p ⟨recurring,ms,uint64 (now + ms),cb⟩).add p

/-- `Timer::cancel`. -/
def cancel (m : Manager κ) (p : Nat) : Except Fault (Bool × Manager κ) :=
  if (m.timer p).cb.isNone then .ok (false,m)
  else
    match m.find p with
    | none => .error .eraseEnd
    | some q => .ok (true,(m.setTimer p { m.timer p with cb := none }).erase q)

/-- `Timer::refresh`. -/
def refresh (m : Manager κ) (p now : Nat) : Bool × Manager κ :=
  let t := m.timer p
  if t.cb.isNone then (false,m)
  else
    match m.find p with
    | none => (false,m)
    | some q => (true,((m.erase q).setTimer p { t with next := uint64 (now + t.ms) }).insert p)

/-- `Timer::reset`: what it returns, and whether it calls `onTimerInsertedAtFront`. -/
def reset (m : Manager κ) (p ms : Nat) (fromNow : Bool) (now : Nat) : Bool × Bool × Manager κ :=
  let t := m.timer p
  if ms = t.ms ∧ fromNow = false then (true,false,m)
  else if t.cb.isNone then (false,false,m)
  else
    match m.find p with
    | none => (false,false,m)
    | some q =>
      let start := if fromNow then now else uint64Sub t.next t.ms
      (true,((m.erase q).setTimer p { t with ms := ms, next := uint64 (start + ms) }).add p)

/-- `getNextTimer`. -/
def getNextTimer (m : Manager κ) (now : Nat) : Nat × Manager κ :=
  let delay := match m.timers with
    | [] => 2^64 - 1
    | p :: _ => if m.next p ≤ now then 0 else m.next p - now
  (delay,{ m with tickled := false })

/-- What `listExpiredCb` takes out of the set; the timer it searches with is at `tmp`. -/
def expired (m : Manager κ) (now tmp : Nat) : List Nat :=
  let below := m.timers.takeWhile fun p => m.next p < now || m.next p = now && p < tmp
  below ++ (m.timers.drop below.length).takeWhile fun p => m.next p = now

/-- What becomes of an expired timer. -/
def expire (now : Nat) (m : Manager κ) (p : Nat) : Manager κ :=
  let t := m.timer p
  if t.recurring then (m.setTimer p { t with next := uint64 (now + t.ms) }).insert p
  else m.setTimer p { t with cb := none }

/-- The loop over the expired timers with the callbacks it collects. -/
def expireAll (now : Nat) : List Nat → Manager κ → List (Option κ) × Manager κ
  | [], m => ([],m)
  | p :: ps, m =>
    let rest := expireAll now ps (expire now m p)
    ((m.timer p).cb :: rest.1,rest.2)

/-- `listExpiredCb`. -/
def listExpiredCb (m : Manager κ) (now tmp : Nat) : List (Option κ) × Manager κ :=
  match m.timers with
  | [] => ([],m)
  | p :: _ =>
    if now < m.next p then ([],m)
    else
      let expired := m.expired now tmp
      expireAll now expired { m with timers := m.timers.drop expired.length }

end Manager
end Radixun.Common.Timers
