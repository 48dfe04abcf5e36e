import Radixun.Foundation.CallsInProgress
import Radixun.Foundation.CommandRuns

/-! `HttpConnectionPool`: `getConnection` and the deleter `ReleasePtr`, called by any number of threads and
fibers. A step of a call is what it does between two points where others may come in. -/
namespace Radixun.Http
open Radixun.Foundation CommandRuns CallsInProgress

/-- `born` is the clock when the object was made. It is not a member. -/
structure HttpConnection where
  createTime : UInt64
  request : UInt64
  born : UInt64
  deriving DecidableEq, Repr

/-- `++ptr->m_request`. -/
def HttpConnection.countRequest (c : HttpConnection) : HttpConnection := { c with request := c.request + 1 }

structure HttpConnectionPool where
  maxSize : UInt32
  maxAliveTime : UInt32
  maxRequest : UInt32

namespace HttpConnectionPool

/-- Use of the connection behind its deletion. -/
inductive Fault where
  | deleted (p : Nat)
  deriving DecidableEq, Repr

/-- `m_conns` and `m_total`, the connections that exist, and those that a user holds. A connection is known by
the number of those made before it. -/
structure Pool where
  conns : List Nat
  total : Int32
  live : List Nat
  data : Nat → HttpConnection
  held : List Nat
  created : Nat

namespace Pool

def init : Pool := ⟨[],0,[],fun _ => ⟨0,0,0⟩,[],0⟩

def deref (x : Pool) (p : Nat) : Except Fault HttpConnection := if p ∈ x.live then .ok (x.data p) else .error (.deleted p)

def destroy (x : Pool) (p : Nat) : Except Fault Pool :=
  if p ∈ x.live then .ok { x with live := x.live.erase p } else .error (.deleted p)

/-- `new HttpConnection(sock)`. Neither constructor sets `m_createTime`. -/
def make (x : Pool) (now : UInt64) : Pool :=
  { x with
    live := x.live ++ [x.created]
    data := Function.update x.data x.created ⟨0,0,now⟩
    created := x.created + 1 }

def count (x : Pool) (n : Nat) : Pool := { x with total := x.total + Int32.ofNat n }

def uncount (x : Pool) (n : Nat) : Pool := { x with total := x.total - Int32.ofNat n }

end Pool

/-- What a step finds outside: the clock, which connections are connected, and how the three calls on the way
to a new connection end. -/
structure Env where
  now : UInt64
  isConnected : Nat → Bool
  addressFound : Bool
  sockCreated : Bool
  sockConnected : Bool

/-- Where a call stands. -/
inductive Call where
  /-- `getConnection` with its `now_ms`, in front of the lock. -/
  | popping (now : UInt64)
  /-- With the lock released, some of `invalid_conns` deleted. -/
  | deleting (deleted left : List Nat) (ptr : Option Nat)
  /-- Without a connection from the list. -/
  | connecting
  /-- In front of `++m_total`. -/
  | counting (p : Nat)
  | returning (p : Nat)
  /-- `ReleasePtr` at its beginning. -/
  | releasing (p : Nat)
  | destroying (p : Nat)
  /-- In front of `--pool->m_total`. -/
  | uncounting
  /-- In front of the lock. -/
  | pushing (p : Nat)
  deriving DecidableEq, Repr

/-- A connection handed out again, and one given up on account of its age alone, each with the clock of the call. -/
inductive Event where
  | reused (c : HttpConnection) (now : UInt64)
  | aged (c : HttpConnection) (now : UInt64)
  deriving DecidableEq, Repr

/-- What the loop over `m_conns` ends with. -/
structure Popped where
  invalid : List Nat
  ptr : Option Nat
  rest : List Nat
  events : List Event

variable (pool : HttpConnectionPool)

/-- `getConnection` calls a connection too old by this test. -/
def expiredOnGet (c : HttpConnection) (now : UInt64) : Bool := c.createTime + pool.maxAliveTime.toUInt64 > now

/-- `ReleasePtr` by this one. -/
def expiredOnRelease (c : HttpConnection) (now : UInt64) : Bool := c.createTime + pool.maxAliveTime.toUInt64 ≥ now

def Popped.discard (p : Nat) (events : List Event) (r : Popped) : Popped :=
  { r with invalid := p :: r.invalid, events := events ++ r.events }

/-- The loop of `getConnection`. -/
def popConns (env : Env) (now : UInt64) (x : Pool) : List Nat → Except Fault Popped
  | [] => .ok ⟨[],none,[],[]⟩
  | p :: ps =>
    match x.deref p with
    | .error e => .error e
    | .ok c =>
      if !env.isConnected p then (popConns env now x ps).map (.discard p [])
      else if pool.expiredOnGet c now then (popConns env now x ps).map (.discard p [.aged c now])
      else .ok ⟨[],some p,ps,[.reused c now]⟩

/-- The checks of `ReleasePtr`. -/
def releaseChecks (env : Env) (x : Pool) (p : Nat) : Except Fault (List Event × Option Call × Pool) :=
  match x.deref p with
  | .error e => .error e
  | .ok c =>
    let c := c.countRequest
    let x := { x with data := Function.update x.data p c }
    if !env.isConnected p then .ok ([],some (.destroying p),x)
    else if pool.expiredOnRelease c env.now then
      .ok (if c.request < pool.maxRequest.toUInt64 then [.aged c env.now] else [],some (.destroying p),x)
    else if c.request ≥ pool.maxRequest.toUInt64 then .ok ([],some (.destroying p),x)
    else .ok ([],some (.pushing p),x)

/-- A step of a call: what it goes on with, if it does, and what it leaves. -/
def exec (env : Env) (k : Call) (x : Pool) : Except Fault (List Event × Option Call × Pool) :=
  match k with
  | .popping now =>
    (pool.popConns env now x x.conns).map fun r => (r.events,some (.deleting [] r.invalid r.ptr),{ x with conns := r.rest })
  | .deleting deleted (p :: left) ptr => (x.destroy p).map fun x => ([],some (.deleting (deleted ++ [p]) left ptr),x)
  | .deleting deleted [] (some p) => .ok ([],some (.returning p),x.uncount deleted.length)
  | .deleting deleted [] none => .ok ([],some .connecting,x.uncount deleted.length)
  | .connecting =>
    if !env.addressFound then .ok ([],none,x)
    else if !env.sockCreated then .ok ([],none,x)
    else if !env.sockConnected then .ok ([],none,x)
    else .ok ([],some (.counting x.created),x.make env.now)
  | .counting p => .ok ([],some (.returning p),x.count 1)
  | .returning p => .ok ([],none,{ x with held := x.held ++ [p] })
  | .releasing p => pool.releaseChecks env x p
  | .destroying p => (x.destroy p).map fun x => ([],some .uncounting,x)
  | .uncounting => .ok ([],none,x.uncount 1)
  | .pushing p => .ok ([],none,{ x with conns := x.conns ++ [p] })

/-- What happens next: a call begins, a user works with a connection, its last reference is dropped, or a call
in progress makes a step. -/
inductive Op where
  | getConnection
  | use (p : Nat)
  | release (p : Nat)
  | step (i : Nat)

structure Act extends Env where
  op : Op

structure System where
  pool : Pool
  calls : List Call

def System.init : System := ⟨.init,[]⟩

/-- Only who holds a connection works with it or drops it. -/
def act (a : Act) (s : System) : Except Fault (List Event × System) :=
  match a.op with
  | .getConnection => .ok ([],⟨s.pool,s.calls ++ [.popping a.now]⟩)
  | .use p => if p ∈ s.pool.held then (s.pool.deref p).map fun _ => ([],s) else .ok ([],s)
  | .release p =>
    if p ∈ s.pool.held then .ok ([],⟨{ s.pool with held := s.pool.held.erase p },s.calls ++ [.releasing p]⟩)
    else .ok ([],s)
  | .step i =>
    match s.calls[i]? with
    | none => .ok ([],s)
    | some k => (pool.exec a.toEnv k s.pool).map fun out => (out.1,⟨out.2.2,advance s.calls i out.2.1⟩)

end HttpConnectionPool
end Radixun.Http
