import Radixun.Common.ByteArrayModel
import Radixun.Foundation.ByteCodec

/-! The typed members of the byte array: fixed-width numbers, variable-length numbers
and strings. `host` is `RADIXUN_BYTE_ORDER`; floats travel as their bits. -/
namespace Radixun.Common
open Foundation.ByteCodec Foundation.ExceptionState

/-- The bytes of an integer as they lie in the memory of a host. -/
def Endian.bytes (order : Endian) {w : Nat} (v : BitVec w) : List UInt8 :=
  match order with
  | .little => leBytes (w / 8) v.toNat
  | .big => (leBytes (w / 8) v.toNat).reverse

/-- The integer that lies in the memory of a host. -/
def Endian.value (order : Endian) (w : Nat) (bytes : List UInt8) : BitVec w :=
  match order with
  | .little => .ofNat w (leValue bytes)
  | .big => .ofNat w (leValue bytes.reverse)

/-- `bswap_16`, `bswap_32`, `bswap_64`. -/
def byteswap {w : Nat} (v : BitVec w) : BitVec w := Endian.little.value w (Endian.big.bytes v)

/-- `EncodeZigzag32`, `EncodeZigzag64`; signed arithmetic wraps. -/
def encodeZigzag {w : Nat} (v : BitVec w) : BitVec w := if v.toInt < 0 then -v * 2#w - 1#w else v * 2#w

/-- `DecodeZigzag32`, `DecodeZigzag64`. -/
def decodeZigzag {w : Nat} (v : BitVec w) : BitVec w := (v >>> 1) ^^^ -(v &&& 1#w)

def encodeZigzag32 (v : Int32) : UInt32 := ⟨encodeZigzag v.toBitVec⟩
def encodeZigzag64 (v : Int64) : UInt64 := ⟨encodeZigzag v.toBitVec⟩
def decodeZigzag32 (v : UInt32) : Int32 := .ofBitVec (decodeZigzag v.toBitVec)
def decodeZigzag64 (v : UInt64) : Int64 := .ofBitVec (decodeZigzag v.toBitVec)

namespace ByteArray

/-- The encoding loop, with `slots` bytes of `tmp` not yet used. -/
def fillTmp {w : Nat} : Nat → BitVec w → Except Stop (List UInt8)
  | 0, _ => .error .overrun
  | slots + 1, value =>
    if value.toNat ≥ 0x80 then do
      let rest ← fillTmp slots (value >>> 7)
      .ok (⟨((value &&& 0x7F#w) ||| 0x80#w).setWidth 8⟩ :: rest)
    else .ok [⟨value.setWidth 8⟩]

def writeVarint {w : Nat} (slots : Nat) (value : BitVec w) : Run Unit := do
  let tmp ← ofExcept (fillTmp slots value)
  write tmp

def writeUint32 (value : UInt32) : Run Unit := writeVarint 5 value.toBitVec
def writeUint64 (value : UInt64) : Run Unit := writeVarint 10 value.toBitVec

def readFuint8 : Run UInt8 := do
  let bytes ← read 1
  pure (bytes.headD 0)

def readFint8 : Run Int8 := do
  let bytes ← read 1
  pure (bytes.headD 0).toInt8

/-- The values of `i` in `for(int i = 0; i < w; i += 7)`. -/
def shifts (w : Nat) : List Nat := List.range' 0 ((w + 6) / 7) 7

def varintLoop {w : Nat} : List Nat → BitVec w → Run (BitVec w)
  | [], result => pure result
  | i :: is, result => do
    let b ← readFuint8
    if b.toNat < 0x80 then pure (result ||| (b.toBitVec.setWidth w <<< i))
    else varintLoop is (result ||| ((b.toBitVec &&& 0x7F#8).setWidth w <<< i))

def readUint32 : Run UInt32 := UInt32.ofBitVec <$> varintLoop (shifts 32) 0
def readUint64 : Run UInt64 := UInt64.ofBitVec <$> varintLoop (shifts 64) 0

def writeInt32 (value : Int32) : Run Unit := writeUint32 (encodeZigzag32 value)
def writeInt64 (value : Int64) : Run Unit := writeUint64 (encodeZigzag64 value)
def readInt32 : Run Int32 := decodeZigzag32 <$> readUint32
def readInt64 : Run Int64 := decodeZigzag64 <$> readUint64

def writeFint8 (value : Int8) : Run Unit := write [value.toUInt8]
def writeFuint8 (value : UInt8) : Run Unit := write [value]

section
variable (host : Endian)

def writeFixed {w : Nat} (value : BitVec w) : Run Unit := do
  let ba ← get
  write (host.bytes (if ba.endian ≠ host then byteswap value else value))

def readFixed (w : Nat) : Run (BitVec w) := do
  let bytes ← read (w / 8)
  let ba ← get
  let v := host.value w bytes
  pure (if ba.endian = host then v else byteswap v)

def writeFint16 (value : Int16) : Run Unit := writeFixed host value.toBitVec
def writeFuint16 (value : UInt16) : Run Unit := writeFixed host value.toBitVec
def writeFint32 (value : Int32) : Run Unit := writeFixed host value.toBitVec
def writeFuint32 (value : UInt32) : Run Unit := writeFixed host value.toBitVec
def writeFint64 (value : Int64) : Run Unit := writeFixed host value.toBitVec
def writeFuint64 (value : UInt64) : Run Unit := writeFixed host value.toBitVec
def readFint16 : Run Int16 := Int16.ofBitVec <$> readFixed host 16
def readFuint16 : Run UInt16 := UInt16.ofBitVec <$> readFixed host 16
def readFint32 : Run Int32 := Int32.ofBitVec <$> readFixed host 32
def readFuint32 : Run UInt32 := UInt32.ofBitVec <$> readFixed host 32
def readFint64 : Run Int64 := Int64.ofBitVec <$> readFixed host 64
def readFuint64 : Run UInt64 := UInt64.ofBitVec <$> readFixed host 64

def writeFloat (bits : UInt32) : Run Unit := writeFuint32 host bits
def writeDouble (bits : UInt64) : Run Unit := writeFuint64 host bits
def readFloat : Run UInt32 := readFuint32 host
def readDouble : Run UInt64 := readFuint64 host

def writeStringF16 (value : List UInt8) : Run Unit := do
  writeFuint16 host (.ofNat value.length)
  write value

def writeStringF32 (value : List UInt8) : Run Unit := do
  writeFuint32 host (.ofNat value.length)
  write value

def writeStringF64 (value : List UInt8) : Run Unit := do
  writeFuint64 host (.ofNat value.length)
  write value

def writeStringVint (value : List UInt8) : Run Unit := do
  writeUint64 (.ofNat value.length)
  write value

def writeStringWithoutLength (value : List UInt8) : Run Unit := write value

/-- `buff.resize(len); read(&buff[0], len)`: a string that cannot be provided raises an
exception of its own. -/
def readPayload (len : Nat) : Run (List UInt8) := do
  let ba ← get
  if len > ba.heap.maxString then throw .noMemory else read len

def readStringF16 : Run (List UInt8) := do
  let len ← readFuint16 host
  readPayload len.toNat

def readStringF32 : Run (List UInt8) := do
  let len ← readFuint32 host
  readPayload len.toNat

def readStringF64 : Run (List UInt8) := do
  let len ← readFuint64 host
  readPayload len.toNat

def readStringVint : Run (List UInt8) := do
  let len ← readUint64
  readPayload len.toNat

end
end ByteArray
end Radixun.Common
