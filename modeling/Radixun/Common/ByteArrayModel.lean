import Radixun.Foundation.BlockMemory
import Radixun.Foundation.ExceptionState

/-! The chunked byte array: its chain of equal blocks, the position and its node,
and every member function that moves raw bytes. Sizes are unbounded naturals. -/
namespace Radixun.Common
open Foundation.BlockMemory Foundation.ExceptionState

/-- Why a member function does not return: a thrown exception, or undefined behaviour. -/
inductive Stop where
  | outOfRange (what : String)
  | noMemory
  | nullDeref
  | overrun
  deriving DecidableEq, Repr

/-- The caller sees an exception and goes on with the object as it is. -/
def Stop.Thrown : Stop → Prop
  | .outOfRange _ => True
  | .noMemory => True
  | .nullDeref => False
  | .overrun => False

instance : DecidablePred Stop.Thrown := fun e => by cases e <;> unfold Stop.Thrown <;> infer_instance

/-- `a - b` in `size_t`: it wraps below zero. -/
def sizeSub (a b : Nat) : Nat := if b ≤ a then a - b else a + 2^64 - b

/-- A memory block; `ptr` holds exactly `size` bytes. -/
structure Node where
  ptr : List UInt8
  size : Nat
  filled : ptr.length = size
  deriving DecidableEq

namespace Node

/-- `new Node(s)`: the fresh block holds whatever the allocator left in it. -/
def new (s : Nat) (left : Nat → UInt8) : Node := ⟨(List.range s).map left,s,by simp⟩

/-- `memcpy(ptr + off, bytes, bytes.length)`. -/
def store (node : Node) (off : Nat) (bytes : List UInt8) : Except Stop Node :=
  if h : off + bytes.length ≤ node.size then
    .ok ⟨patch node.ptr off bytes,node.size,by rw [patch_length (by rw [node.filled]; exact h), node.filled]⟩
  else .error .overrun

/-- `memcpy(buf, ptr + off, n)`. -/
def load (node : Node) (off n : Nat) : Except Stop (List UInt8) :=
  if off + n ≤ node.size then .ok (slice node.ptr off n) else .error .overrun

end Node

/-- The allocator: what the blocks allocated from now on hold, in order, and the
longest string it can provide. -/
structure Heap where
  blocks : Nat → Nat → UInt8
  maxString : Nat

inductive Endian where
  | little | big
  deriving DecidableEq, Repr

/-- `root` is the chain from `m_root` on. `cur` is the index in it of the node
`m_cur` points to, `none` for the null pointer. -/
structure ByteArray where
  baseSize : Nat
  basePos : 0 < baseSize
  position : Nat
  capacity : Nat
  size : Nat
  endian : Endian
  root : List Node
  cur : Option Nat
  heap : Heap

abbrev Run := EStateM Stop ByteArray

namespace ByteArray

def new (baseSize : Nat) (pos : 0 < baseSize) (heap : Heap) : ByteArray where
  baseSize := baseSize
  basePos := pos
  position := 0
  capacity := baseSize
  size := 0
  endian := .big
  root := [.new baseSize (heap.blocks 0)]
  cur := some 0
  heap := { heap with blocks := fun i => heap.blocks (i + 1) }

def getReadSize (ba : ByteArray) : Nat := sizeSub ba.size ba.position
def getCapacity (ba : ByteArray) : Nat := sizeSub ba.capacity ba.position

def isLittleEndian (ba : ByteArray) : Bool := ba.endian = .little
def setIsLittleEndian (val : Bool) : Run Unit :=
  modify fun ba => { ba with endian := if val then .little else .big }

/-- The pointer to node `i` of the chain; behind the last node it is null. -/
def link (ba : ByteArray) (i : Nat) : Option Nat := if i < ba.root.length then some i else none

/-- The chain from a pointer on. -/
def chainAt (ba : ByteArray) : Option Nat → List Node
  | none => []
  | some i => ba.root.drop i

/-- Follow `m_cur`: its index, its node and the nodes behind it. -/
def derefCur (ba : ByteArray) : Except Stop (Nat × Node × List Node) :=
  match ba.cur, ba.chainAt ba.cur with
  | some i, node :: next => .ok (i,node,next)
  | _, _ => .error .nullDeref

/-- The loop of `addCapacity`: `count` new nodes behind the last one. -/
def appendNodes (ba : ByteArray) (count : Nat) : ByteArray where
  baseSize := ba.baseSize
  basePos := ba.basePos
  position := ba.position
  capacity := ba.capacity + ba.baseSize * count
  size := ba.size
  endian := ba.endian
  root := ba.root ++ (List.range count).map (fun i => Node.new ba.baseSize (ba.heap.blocks i))
  cur := ba.cur
  heap := { ba.heap with blocks := fun i => ba.heap.blocks (i + count) }

/-- `size` has lost `old_cap` when the number of nodes is computed from it. -/
def nodeCount (baseSize oldCap size : Nat) : Nat := size / baseSize + if size % baseSize > oldCap then 1 else 0

/-- The array after `addCapacity(size)`. -/
def grow (ba : ByteArray) (size : Nat) : ByteArray :=
  if size = 0 then ba
  else if ba.getCapacity ≥ size then ba
  else
    let grown := ba.appendNodes (nodeCount ba.baseSize ba.getCapacity (size - ba.getCapacity))
    -- `first` is the node behind the old chain, null when none was added
    if ba.getCapacity = 0 then { grown with cur := grown.link ba.root.length } else grown

def addCapacity (size : Nat) : Run Unit := modify (·.grow size)

/-- The loop of `write` over the chain from `m_cur` on. The result is that chain
after the copies, the number of nodes `m_cur` moved, and `m_position`. -/
def writeLoop (cur : List Node) (npos ncap : Nat) (buf : List UInt8) (position : Nat) :
    Except Stop (List Node × Nat × Nat) :=
  if buf.length = 0 then .ok (cur,0,position)
  else match cur with
    | [] => .error .nullDeref
    | node :: next =>
      if ncap ≥ buf.length then do
        let node' ← node.store npos buf
        .ok (node' :: next,if node.size = npos + buf.length then 1 else 0,position + buf.length)
      else do
        let node' ← node.store npos (buf.take ncap)
        match next with
        | [] => .error .nullDeref
        | n :: rest =>
          let (chain,moved,position') ← writeLoop (n :: rest) 0 n.size (buf.drop ncap) (position + ncap)
          .ok (node' :: chain,moved + 1,position')

def write (buf : List UInt8) : Run Unit :=
  if buf.length = 0 then pure ()
  else do
    addCapacity buf.length
    let ba ← get
    let npos := ba.position % ba.baseSize
    let (i,node,next) ← ofExcept ba.derefCur
    let (chain,moved,position) ← ofExcept (writeLoop (node :: next) npos (sizeSub node.size npos) buf ba.position)
    let root := ba.root.take i ++ chain
    set { ba with
      root := root
      cur := if i + moved < root.length then some (i + moved) else none
      position := position
      size := if position > ba.size then position else ba.size }

/-- The loop of both `read` overloads: the bytes copied out, the number of nodes
`cur` moved, and the position. -/
def readLoop (cur : List Node) (npos ncap size position : Nat) : Except Stop (List UInt8 × Nat × Nat) :=
  if size = 0 then .ok ([],0,position)
  else match cur with
    | [] => .error .nullDeref
    | node :: next =>
      if ncap ≥ size then do
        let bytes ← node.load npos size
        .ok (bytes,if node.size = npos + size then 1 else 0,position + size)
      else do
        let bytes ← node.load npos ncap
        match next with
        | [] => .error .nullDeref
        | n :: rest =>
          let (more,moved,position') ← readLoop (n :: rest) 0 n.size (size - ncap) (position + ncap)
          .ok (bytes ++ more,moved + 1,position')

def read (size : Nat) : Run (List UInt8) := do
  let ba ← get
  if size > ba.getReadSize then throw (.outOfRange "not enough len")
  else do
    let npos := ba.position % ba.baseSize
    let (i,node,next) ← ofExcept ba.derefCur
    let (bytes,moved,position) ← ofExcept (readLoop (node :: next) npos (sizeSub node.size npos) size ba.position)
    set { ba with cur := ba.link (i + moved), position := position }
    pure bytes

/-- The `const` overload `read(buf, size, position)`; it starts at `m_cur` whatever `position` is. -/
def readAt (ba : ByteArray) (size position : Nat) : Except Stop (List UInt8) :=
  if size > sizeSub ba.size position then .error (.outOfRange "not enough len")
  else do
    let npos := position % ba.baseSize
    let (_,node,next) ← ba.derefCur
    let (bytes,_,_) ← readLoop (node :: next) npos (sizeSub node.size npos) size position
    .ok bytes

def clear : Run Unit :=
  modify fun ba => { ba with position := 0, size := 0, capacity := ba.baseSize, cur := some 0, root := ba.root.take 1 }

/-- The walk of `setPosition` from the root: how many nodes `m_cur` moves on. -/
def seek : List Node → Nat → Except Stop Nat
  | [], _ => .error .nullDeref
  | node :: next, v =>
    if v > node.size then (· + 1) <$> seek next (v - node.size)
    else .ok (if v = node.size then 1 else 0)

def setPosition (v : Nat) : Run Unit := do
  let ba ← get
  if v > ba.capacity then throw (.outOfRange "set_position out of range")
  else do
    let moved ← ofExcept (seek ba.root v)
    set { ba with position := v, size := if v > ba.size then v else ba.size, cur := ba.link moved }

def toString (ba : ByteArray) : Except Stop (List UInt8) :=
  if ba.getReadSize = 0 then .ok [] else ba.readAt ba.getReadSize ba.position

/-- An `iovec`: `iov_base` is `off` bytes into node `node` of the chain. -/
structure IoVec where
  node : Nat
  off : Nat
  len : Nat
  deriving DecidableEq, Repr

/-- The loop of the three buffer listings; `i` is the index of the first node of `cur`. -/
def iovLoop (cur : List Node) (i npos ncap len : Nat) : Except Stop (List IoVec) :=
  if len = 0 then .ok []
  else match cur with
    | [] => .error .nullDeref
    | _ :: next =>
      if ncap ≥ len then .ok [⟨i,npos,len⟩]
      else match next with
        | [] => .error .nullDeref
        | n :: rest => do
          let more ← iovLoop (n :: rest) (i + 1) 0 n.size (len - ncap)
          .ok (⟨i,npos,ncap⟩ :: more)

/-- `getReadBuffers(buffers, len)`: the iovecs it appends and the length it returns. -/
def getReadBuffers (ba : ByteArray) (len : Nat) : Except Stop (List IoVec × Nat) :=
  let len := if len > ba.getReadSize then ba.getReadSize else len
  if len = 0 then .ok ([],0)
  else do
    let npos := ba.position % ba.baseSize
    let (i,node,next) ← ba.derefCur
    let iovs ← iovLoop (node :: next) i npos (sizeSub node.size npos) len
    .ok (iovs,len)

/-- `count` steps along the chain. -/
def skip : List Node → Nat → Except Stop (List Node)
  | cur, 0 => .ok cur
  | [], _ + 1 => .error .nullDeref
  | _ :: next, count + 1 => skip next count

/-- `getReadBuffers(buffers, len, position)`: the length is cut at `m_size - m_position`
whatever `position` is. -/
def getReadBuffersAt (ba : ByteArray) (len position : Nat) : Except Stop (List IoVec × Nat) :=
  let len := if len > ba.getReadSize then ba.getReadSize else len
  if len = 0 then .ok ([],0)
  else do
    let npos := position % ba.baseSize
    match ← skip ba.root (position / ba.baseSize) with
    | [] => .error .nullDeref
    | node :: next => do
      let iovs ← iovLoop (node :: next) (position / ba.baseSize) npos (sizeSub node.size npos) len
      .ok (iovs,len)

def getWriteBuffers (len : Nat) : Run (List IoVec × Nat) :=
  if len = 0 then pure ([],0)
  else do
    addCapacity len
    let ba ← get
    let npos := ba.position % ba.baseSize
    let (i,node,next) ← ofExcept ba.derefCur
    let iovs ← ofExcept (iovLoop (node :: next) i npos (sizeSub node.size npos) len)
    pure (iovs,len)

/-- One `ofs.write(cur->ptr + diff, len)`, `ptr` being the block of `cur`. -/
structure FileWrite where
  ptr : List UInt8
  diff : Int
  len : Int
  deriving DecidableEq, Repr

/-- An `int64_t` in unsigned arithmetic. -/
def asUnsigned (x : Int) : Nat := if 0 ≤ x then x.toNat else (x + 2^64).toNat

/-- The loop of `writeToFile`. The offset goes through a 32-bit `int`. -/
def fileLoop (baseSize : Nat) (cur : List Node) (pos readSize : Int) : Except Stop (List FileWrite) :=
  if readSize > 0 then
    match cur with
    | [] => .error .nullDeref
    | node :: next => do
      let diff := ((asUnsigned pos % baseSize : Nat) : Int).bmod (2^32)
      let len := (if readSize > baseSize then (baseSize : Int) else readSize) - diff
      let more ← fileLoop baseSize next (pos + len) (readSize - len)
      .ok (⟨node.ptr,diff,len⟩ :: more)
  else .ok []

/-- `writeToFile`: the stream operations, or `none` for the `false` of a file that cannot be opened. -/
def writeToFile (ba : ByteArray) (opens : Bool) : Except Stop (Option (List FileWrite)) :=
  if opens then some <$> fileLoop ba.baseSize (ba.chainAt ba.cur) ba.position ba.getReadSize
  else .ok none

/-- The loop of `readFromFile` on the part of the file not yet read: a read shorter
than a block sets the end-of-file flag. -/
def readBlocks (baseSize : Nat) (pos : 0 < baseSize) (file : List UInt8) : Run Unit := do
  write (file.take baseSize)
  if baseSize ≤ file.length then readBlocks baseSize pos (file.drop baseSize) else pure ()
termination_by file.length
decreasing_by simp only [List.length_drop]; omega

/-- `readFromFile` on the bytes of the file, `none` for one that cannot be opened. -/
def readFromFile (file : Option (List UInt8)) : Run Bool :=
  match file with
  | none => pure false
  | some bytes => do
    let ba ← get
    readBlocks ba.baseSize ba.basePos bytes
    pure true

end ByteArray
end Radixun.Common
