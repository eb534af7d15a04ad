import MemoryPack.Core.Writer

/-!
# `MemoryPackReader`

The reader is a cursor over an input it does not own. Two builds share the code:
`fail` records the first error and then either throws or returns, and in the
second case every caller goes on with a default value.

The events of a run record what happened at each step: every position the cursor
took, every range of input bytes dereferenced, every `size_t` product, every
request for memory, and the decisions later results are about.
-/

namespace MemoryPack

open Effect LittleEndian

/-- `static_cast<int32_t>` of a number: the low 32 bits as two's complement. -/
def asInt32 (n : Int) : Int := Int.bmod n (2 ^ 32)

structure MemoryPackReader where
  data : List UInt8
  pos : Nat := 0
  depth : UInt32 := 0
  options : ReaderOptions := {}
  error : MemoryPackError := .none
deriving DecidableEq, Repr

inductive ReadEvent where
  /-- the cursor was set -/
  | moved (pos : Nat)
  /-- the bytes `start .. start + n - 1` of the input were dereferenced -/
  | access (start n : Nat)
  /-- a product of two `size_t` -/
  | product (a b : Nat)
  /-- memory for `count` elements of at least `unit` wire bytes was requested -/
  | alloc (count unit remaining : Nat)
  /-- elements were stored in a variable-length container -/
  | elements (n : Nat)
  /-- a collection length was accepted -/
  | acceptedLength (n : Nat)
  /-- a string payload of `units` code units of `unitSize` bytes was accepted -/
  | acceptedString (units unitSize : Nat)
  /-- `EnterObject` was called with this `depth_` -/
  | entering (depth : UInt32)
  /-- the body of a `MEMORYPACK_DEFINE` reader starts, ends -/
  | enterBody
  | leaveBody
  /-- a union header carried a tag no alternative declares -/
  | undeclaredTag (tag : UInt16)
  /-- a part of the target was left with these contents -/
  | kept (v : Val)
  /-- `lengths_[i]` was evaluated on a table of `n` lengths -/
  | tableIndex (i n : Nat)
  /-- `Seek(target)` was called with the cursor at `pos` -/
  | sought (pos target : Nat) (failed : Bool)
  /-- `Fail(code)` was called with the cursor at `pos` -/
  | failure (pos : Nat) (code : MemoryPackError)

abbrev ReadM := Prog Build MemoryPackReader MemoryPackError ReadEvent

namespace MemoryPackReader

def size (r : MemoryPackReader) : Nat := r.data.length
def remaining (r : MemoryPackReader) : Nat := r.size - r.pos
def isEnd (r : MemoryPackReader) : Bool := r.pos ≥ r.size
def failed (r : MemoryPackReader) : Bool := r.error ≠ .none

/-- The input from the cursor on. -/
def rest (r : MemoryPackReader) : List UInt8 := r.data.drop r.pos

end MemoryPackReader

/-- Result of `ReadObjectHeader`. -/
structure ObjectHeader where
  count : UInt8
  isNull : Bool
deriving DecidableEq, Repr

namespace Reader

/-! ## Failure, bounds, cursor -/

def failed : ReadM Bool := do return (← Prog.get).failed

/-- `MemoryPackReader::Fail`: the first error is the one recorded. -/
def fail (code : MemoryPackError) : ReadM Unit := do
  Prog.tell (.failure (← Prog.get).pos code)
  Prog.modify fun r => { r with error := if r.error = .none then code else r.error }
  if (← Prog.ask).exceptions then Prog.throw code

def setPos (pos : Nat) : ReadM Unit := do
  Prog.modify ({ · with pos := pos })
  Prog.tell (.moved pos)

def ensureBytes (n : Nat) : ReadM Bool := do
  let r ← Prog.get
  if r.error ≠ .none then return false
  if n > r.size - r.pos then
    fail .bufferUnderflow
    return false
  return true

/-- `memcpy(dst, data_ + pos_, n)`. -/
def copy (n : Nat) : ReadM (List UInt8) := do
  let r ← Prog.get
  Prog.tell (.access r.pos n)
  return r.rest.take n

/-- `pos_ += n`. -/
def bump (n : Nat) : ReadM Unit := do
  setPos ((← Prog.get).pos + n)

/-- The idiom of every fixed-size read: `if (!EnsureBytes(n)) return ...;`, copy
`n` bytes, `pos_ += n`. -/
def takeBytes (n : Nat) : ReadM (Option (List UInt8)) := do
  if !(← ensureBytes n) then return none
  let bs ← copy n
  bump n
  return some bs

/-- A product of two `size_t`, which wraps. -/
def sizeProduct (a b : Nat) : ReadM Nat := do
  Prog.tell (.product a b)
  return a * b % (← Prog.ask).sizeMod

def advance (n : Nat) : ReadM Unit := do
  if ← ensureBytes n then bump n

def seek (position : Nat) : ReadM Unit := do
  let r ← Prog.get
  Prog.tell (.sought r.pos position r.failed)
  if position > r.size then fail .bufferUnderflow
  else setPos position

/-- `Reset()`. -/
def reset : ReadM Unit := Prog.modify ({ · with pos := 0, depth := 0, error := .none })

/-- `SubReader(length)`: a fresh reader over the next `length` bytes. -/
def subReader (length : Nat) : ReadM MemoryPackReader := do
  let r ← Prog.get
  if !(← ensureBytes length) then return { data := [], options := r.options }
  bump length
  return { data := r.rest.take length, options := r.options }

/-! ## Primitives -/

def readByte : ReadM UInt8 := do
  match ← takeBytes 1 with
  | none => return 0
  | some bs => return bs.headD 0

/-- `ReadRaw<T>` for a `w`-byte `T`: its bit pattern. -/
def readRaw (w : Nat) : ReadM Nat := do
  match ← takeBytes w with
  | none => return 0
  | some bs =>
      let e := (← Prog.ask).endian
      return endianConvert e w (hostNat e bs)

def readBool : ReadM Nat := do return if (← readByte) ≠ 0 then 1 else 0
def readInt8 : ReadM Nat := do return (← readByte).toNat
def readUInt8 : ReadM Nat := do return (← readByte).toNat
def readInt16 : ReadM Nat := readRaw 2
def readUInt16 : ReadM Nat := readRaw 2
def readInt32 : ReadM Nat := readRaw 4
def readUInt32 : ReadM Nat := readRaw 4
def readInt64 : ReadM Nat := readRaw 8
def readUInt64 : ReadM Nat := readRaw 8
def readFloat : ReadM Nat := readRaw 4
def readDouble : ReadM Nat := readRaw 8
def readChar16 : ReadM Nat := readRaw 2
def readEnum (w : Width) : ReadM Nat := readRaw w.bytes

/-! ## Headers -/

def readObjectHeader : ReadM ObjectHeader := do
  let b ← readByte
  if b = nullObject then return ⟨0, true⟩
  if b > maxMemberCount then
    fail .invalidHeader
    return ⟨0, true⟩
  return ⟨b, false⟩

def peekIsNull : ReadM Bool := do
  let r ← Prog.get
  if r.pos ≥ r.size then return false
  Prog.tell (.access r.pos 1)
  return r.rest.headD 0 = nullObject

def readCollectionHeader : ReadM Int := do return asInt32 (← readRaw 4)

def readCollectionLength (minElementSize : Nat) : ReadM Int := do
  let len := asInt32 (← readRaw 4)
  if len < 0 then
    if len ≠ nullCollection then
      fail .lengthLimit
      return -1
    return -1
  let r ← Prog.get
  if len.toNat > r.options.maxCollectionLength.toNat then
    fail .lengthLimit
    return -1
  if minElementSize > 0 ∧ len.toNat > r.remaining / minElementSize then
    fail .lengthLimit
    return -1
  Prog.tell (.acceptedLength len.toNat)
  return len

/-- `ReadUnionHeader`; `none` is a null union. -/
def readUnionHeader : ReadM (Option UInt16) := do
  let b ← readByte
  if b = nullObject then return none
  if b = wideTag then return some (UInt16.ofNat (← readRaw 2))
  if b > wideTag then
    fail .invalidHeader
    return none
  return some b.toUInt16

def readVarIntLength : ReadM Nat := do
  let b ← readByte
  if b ≤ varintMaxSingle then return b.toNat
  if b = varintUint16Tag then return ← readRaw 2
  if b = varintUint32Tag then return ← readRaw 4
  fail .invalidHeader
  return 0

/-! ## Strings -/

def checkStringLength (byteCount unitSize : Nat) : ReadM Bool := do
  let r ← Prog.get
  if byteCount > r.options.maxStringLength.toNat then
    fail .lengthLimit
    return false
  if unitSize > 0 ∧ byteCount > r.remaining / unitSize then
    fail .lengthLimit
    return false
  return true

/-- The decoding loop of `ReadUtf16String`, with `left` units to go. The unit after
an unpaired high surrogate is put back by `pos_ -= 2`. -/
def utf16Loop : Nat → List UInt8 → ReadM (List UInt8)
  | 0, out => return out
  | left + 1, out => do
      let hi := UInt16.ofNat (← readRaw 2)
      if isHighSurrogate hi then
        match left with
        | 0 => return out ++ utf8Codepoint 0xFFFD
        | left' + 1 =>
            let lo := UInt16.ofNat (← readRaw 2)
            if isLowSurrogate lo then
              utf16Loop left' (out ++ utf8Codepoint (pairCodepoint hi lo))
            else
              setPos ((← Prog.get).pos - 2)
              utf16Loop (left' + 1) (out ++ utf8Codepoint 0xFFFD)
      else if isLowSurrogate hi then utf16Loop left (out ++ utf8Codepoint 0xFFFD)
      else utf16Loop left (out ++ utf8Codepoint hi.toNat)

def readUtf16String (units : Nat) : ReadM (List UInt8) := do
  if !(← checkStringLength units 2) then return []
  if !(← ensureBytes (← sizeProduct units 2)) then return []
  Prog.tell (.acceptedString units 2)
  Prog.tell (.alloc units 2 (← Prog.get).remaining)
  utf16Loop units []

/-- `ReadString()`; `none` is a null string. -/
def readString : ReadM (Option (List UInt8)) := do
  let header := asInt32 (← readRaw 4)
  if ← failed then return some []
  if header = -1 then return none
  if header = 0 then return some []
  if header > 0 then return some (← readUtf16String header.toNat)
  -- `~header`
  let byteCount := (-header - 1).toNat
  let _utf16Length ← readRaw 4
  if !(← checkStringLength byteCount 1) then return some []
  match ← takeBytes byteCount with
  | none => return some []
  | some bs =>
      Prog.tell (.acceptedString byteCount 1)
      return some bs

/-- `ReadStringView()`: the UTF-8 payload itself. A UTF-16 payload is left in place. -/
def readStringView : ReadM (Option (List UInt8)) := do
  let start := (← Prog.get).pos
  let header := asInt32 (← readRaw 4)
  if ← failed then return none
  if header = -1 then return none
  if header = 0 then return some []
  if header > 0 then
    setPos start
    return none
  -- `~header`
  let byteCount := (-header - 1).toNat
  let _utf16Length ← readRaw 4
  if !(← checkStringLength byteCount 1) then return none
  match ← takeBytes byteCount with
  | none => return none
  | some bs =>
      Prog.tell (.acceptedString byteCount 1)
      return some bs

/-! ## Unmanaged structs -/

/-- `ReadUnmanaged<T>`: the object's memory; `init` is `T{}`. -/
def readUnmanaged (size : Nat) (init : List UInt8) : ReadM (List UInt8) := do
  match ← takeBytes size with
  | none => return init
  | some bs => return bs

/-- `ReadNullable<T>`: the memory of the value, when there is one. -/
def readNullable (align size : Nat) : ReadM (Option (List UInt8)) := do
  match ← takeBytes (nullableSize align size) with
  | none => return none
  | some src =>
      if src.headD 0 = 0 then return none
      return some ((src.drop align).take size)

/-! ## Vectors and arrays of arithmetic types -/

/-- `count` objects of `w` bytes each in little-endian memory. -/
def splitWords (w : Nat) : Nat → List UInt8 → List Nat
  | 0, _ => []
  | count + 1, bs => leNat (bs.take w) :: splitWords w count (bs.drop w)

/-- `count` times `ReadRaw<T>`. -/
def readRaws (w : Nat) : Nat → ReadM (List Nat)
  | 0 => return []
  | count + 1 => do
      let n ← readRaw w
      return n :: (← readRaws w count)

/-- The payload of `ReadVector` and `ReadArray`, whose presence has been checked:
one block copy on a little-endian host, a loop elsewhere. -/
def readContiguous (w count : Nat) : ReadM (List Nat) := do
  if (← Prog.ask).endian = .little then
    let bytes ← sizeProduct count w
    let bs ← copy bytes
    bump bytes
    return splitWords w count bs
  else
    readRaws w count

/-- `ReadVector` of an arithmetic type other than `bool`. -/
def readVector (w : Nat) : ReadM (List Nat) := do
  let len ← readCollectionLength w
  if len ≤ 0 then return []
  let count := len.toNat
  if !(← ensureBytes (← sizeProduct count w)) then return []
  Prog.tell (.alloc count w (← Prog.get).remaining)
  Prog.tell (.elements count)
  readContiguous w count

/-- `ReadVector(std::vector<bool>&)`: one wire byte for each element. -/
def readVectorBool : ReadM (List Nat) := do
  let len ← readCollectionLength 1
  if len ≤ 0 then return []
  let count := len.toNat
  if !(← ensureBytes count) then return []
  Prog.tell (.alloc count 1 (← Prog.get).remaining)
  Prog.tell (.elements count)
  let bs ← copy count
  bump count
  return bs.map fun b => if b ≠ 0 then 1 else 0

/-- `count` objects of `size` bytes each. -/
def splitChunks (size : Nat) : Nat → List UInt8 → List (List UInt8)
  | 0, _ => []
  | count + 1, bs => bs.take size :: splitChunks size count (bs.drop size)

/-- `ReadUnmanagedCollection`: the memory of each struct. -/
def readUnmanagedCollection (size : Nat) : ReadM (List (List UInt8)) := do
  let len ← readCollectionLength size
  if len ≤ 0 then return []
  let count := len.toNat
  if !(← ensureBytes (← sizeProduct count size)) then return []
  Prog.tell (.alloc count size (← Prog.get).remaining)
  Prog.tell (.elements count)
  let bytes ← sizeProduct count size
  let bs ← copy bytes
  bump bytes
  return splitChunks size count bs

/-- The tail of `ReadArray`: the elements that do not fit the array. -/
def skipElements (w : Nat) (skipCount : Int) : ReadM Unit := do
  if skipCount > 0 then
    let skipBytes ← sizeProduct skipCount.toNat w
    if ← ensureBytes skipBytes then bump skipBytes

/-- `ReadArray(T*, int32_t)`: the elements it stores; the rest of the collection is
skipped. -/
def readArray (w : Nat) (maxCount : Int) : ReadM (List Nat) := do
  let len ← readCollectionLength w
  if len ≤ 0 then return []
  let readCount := if len ≤ maxCount then len else maxCount
  if readCount > 0 then
    if !(← ensureBytes (← sizeProduct readCount.toNat w)) then return []
    let stored ← readContiguous w readCount.toNat
    skipElements w (asInt32 (len - readCount))
    return stored
  else
    skipElements w (asInt32 (len - readCount))
    return []

/-! ## Depth tracking -/

def enterObject : ReadM Bool := do
  Prog.tell (.entering (← Prog.get).depth)
  Prog.modify fun r => { r with depth := r.depth + 1 }
  let r ← Prog.get
  if r.depth > r.options.maxDepth then
    fail .lengthLimit
    return false
  return true

def leaveObject : ReadM Unit :=
  Prog.modify fun r => if r.depth > 0 then { r with depth := r.depth - 1 } else r

/-- `RequireEnd()`. -/
def requireEnd : ReadM Bool := do
  if !(← Prog.get).isEnd then
    fail .trailingBytes
    return false
  return true

end Reader

end MemoryPack
