import Mathlib.Algebra.Ring.Nat

/-! What the hooks keep of a file descriptor, and the status flags the kernel keeps of it. -/
namespace Radixun.Common

/-- `O_NONBLOCK` among the status flags. -/
def nonblockFlag : BitVec 32 := 0x800#32

/-- The status flags that `F_SETFL` changes. `O_NONBLOCK` is one of them. -/
structure Settable where
  mask : BitVec 32
  nonblock : mask &&& nonblockFlag = nonblockFlag

/-- `fcntl_f(fd, F_SETFL, arg)` on a descriptor with the given flags. -/
def Settable.setfl (k : Settable) (flags arg : BitVec 32) : BitVec 32 := (flags &&& ~~~k.mask) ||| (arg &&& k.mask)

structure FdCtx where
  isInit : Bool
  isSocket : Bool
  sysNonblock : Bool
  userNonblock : Bool
  isClosed : Bool
  fd : Int32
  recvTimeout : UInt64
  sendTimeout : UInt64
  deriving DecidableEq

/-- `SO_RCVTIMEO` and `SO_SNDTIMEO`. -/
inductive TimeoutType where
  | recv | send
  deriving DecidableEq

namespace FdCtx

/-- `init`. `stat` is what `fstat` says: whether the descriptor is a socket, or nothing when it fails. -/
def init (c : FdCtx) (stat : Option Bool) : FdCtx :=
  if c.isInit then c
  else
    let isSocket := stat.getD false
    { c with
      isInit := stat.isSome
      isSocket := isSocket
      sysNonblock := isSocket
      userNonblock := false
      isClosed := false
      recvTimeout := -1
      sendTimeout := -1 }

/-- What `init` does to the status flags of the descriptor. -/
def initFlags (k : Settable) (c : FdCtx) (stat : Option Bool) (flags : BitVec 32) : BitVec 32 :=
  if c.isInit then flags
  else if stat.getD false then
    if flags &&& nonblockFlag = 0 then k.setfl flags (flags ||| nonblockFlag) else flags
  else flags

/-- The members as the constructor sets them before it calls `init`. -/
def raw (fd : Int32) : FdCtx := ⟨false,false,false,false,false,fd,-1,-1⟩

/-- The constructor. -/
def new (fd : Int32) (stat : Option Bool) : FdCtx := (raw fd).init stat

def setUserNonblock (c : FdCtx) (v : Bool) : FdCtx := { c with userNonblock := v }

def setTimeout (c : FdCtx) (type : TimeoutType) (v : UInt64) : FdCtx :=
  if type = .recv then { c with recvTimeout := v } else { c with sendTimeout := v }

def getTimeout (c : FdCtx) (type : TimeoutType) : UInt64 := if type = .recv then c.recvTimeout else c.sendTimeout

theorem getTimeout_setTimeout (c : FdCtx) (type type' : TimeoutType) (v : UInt64) :
    (c.setTimeout type v).getTimeout type' = if type' = type then v else c.getTimeout type' := by
  cases type <;> cases type' <;> rfl

end FdCtx
end Radixun.Common
