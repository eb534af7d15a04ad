import MemoryPack.Lib.Effect
import MemoryPack.Lib.LittleEndian
import MemoryPack.Core.Types
import MemoryPack.Core.Text

/-!
# `MemoryPackWriter`

The writer has no mode field: it decides on every operation which of its three
buffers it uses by looking at which pointer is non-null. The model keeps that
shape. A pointer is an `Option`; the storage behind it is held inline, since the
writer is its only user while it writes. `owned` is the whole vector, of which
the first `ownedPos` bytes have been written.

The events of a run are the appends it made, the ones it refused and the failures.
-/

namespace MemoryPack

open Effect LittleEndian

/-! ## Host representation (namespace detail) -/

/-- `detail::endian_convert` on the bit pattern of a `w`-byte number. -/
def endianConvert (e : Endian) (w n : Nat) : Nat :=
  if e = .little ∨ w = 1 then n else byteswap w n

/-- The bytes of a `w`-byte object in memory. -/
def hostBytes (e : Endian) (w n : Nat) : List UInt8 :=
  match e with
  | .little => leBytes w n
  | .big => (leBytes w n).reverse

/-- The bit pattern a `w`-byte object in memory has. -/
def hostNat (e : Endian) (bs : List UInt8) : Nat :=
  match e with
  | .little => leNat bs
  | .big => leNat bs.reverse

/-- The branch of `detail::endian_convert` for what is not integral. `raw` is a
`uint32_t` when `T` has four bytes and a `uint64_t` otherwise; the copy of the value
sets its first `w` bytes, and the first `w` bytes of the swapped `raw` are the result. -/
def endianConvertFloat (B : Build) (w n : Nat) : Nat :=
  let u := if w = 4 then 4 else 8
  let raw := hostBytes B.endian w n ++ (hostBytes B.endian u B.stack.toNat).drop w
  hostNat B.endian (raw.reverse.take w)

/-- `detail::endian_convert` of an arithmetic or enum value, as `WriteNullable` and
`ReadNullable` call it. An enum is not integral. -/
def endianConvertOf (B : Build) (s : Scalar) (n : Nat) : Nat :=
  match s with
  | .enum _ w =>
      if B.endian = .little ∨ w.bytes = 1 then n else endianConvertFloat B w.bytes n
  | s => endianConvert B.endian s.size n

theorem endianConvertOf_little {B : Build} (hB : B.endian = .little) (s : Scalar) (n : Nat) :
    endianConvertOf B s n = n := by
  cases s <;> simp [endianConvertOf, endianConvert, hB]

/-- A converted number lies in memory in little-endian order on either host. -/
theorem hostBytes_endianConvert (e : Endian) (w n : Nat) :
    hostBytes e w (endianConvert e w n) = leBytes w n := by
  cases e with
  | little => rfl
  | big =>
      by_cases hw : w = 1
      · subst hw
        rfl
      · have hconv : endianConvert .big w n = byteswap w n := by simp [endianConvert, hw]
        show (leBytes w (endianConvert .big w n)).reverse = leBytes w n
        rw [hconv, leBytes_byteswap, List.reverse_reverse]

/-- The bit pattern of an `int32_t`. -/
def int32Bits (i : Int) : Nat := (i % 2 ^ 32).toNat

/-! ## State -/

structure MemoryPackWriter where
  owned : List UInt8 := []
  ownedPos : Nat := 0
  /-- `*vec_`; `none` is the null pointer -/
  vec : Option (List UInt8) := none
  /-- the storage `fixedBuf_` points to; `none` is the null pointer -/
  fixedBuf : Option (List UInt8) := none
  fixedCap : Nat := 0
  fixedPos : Nat := 0
  error : MemoryPackError := .none
deriving DecidableEq, Repr

inductive WriteEvent where
  | appended (bs : List UInt8)
  | refused (n : Nat)
  | failed (code : MemoryPackError)
deriving DecidableEq, Repr

abbrev WriteM := Prog Build MemoryPackWriter MemoryPackError WriteEvent

namespace MemoryPackWriter

/-- `MemoryPackWriter(std::vector<uint8_t>&)`. -/
def ofVector (v : List UInt8) : MemoryPackWriter := { vec := some v }

/-- `MemoryPackWriter(uint8_t*, size_t)` and the span constructors. -/
def ofFixed (data : Option (List UInt8)) (capacity : Nat) : MemoryPackWriter :=
  { fixedBuf := data, fixedCap := capacity }

def size (w : MemoryPackWriter) : Nat :=
  match w.vec, w.fixedBuf with
  | some v, _ => v.length
  | none, some _ => w.fixedPos
  | none, none => w.ownedPos

def data (w : MemoryPackWriter) : List UInt8 :=
  match w.vec, w.fixedBuf with
  | some v, _ => v
  | none, some b => b
  | none, none => w.owned

def getSpan (w : MemoryPackWriter) : List UInt8 := w.data.take w.size

def failed (w : MemoryPackWriter) : Bool := w.error ≠ .none

end MemoryPackWriter

/-- `std::vector::resize`: new elements are value-initialised. -/
def resize (v : List UInt8) (n : Nat) : List UInt8 :=
  v.take n ++ List.replicate (n - v.length) 0

/-- `memcpy(buf + pos, bs, |bs|)`. -/
def overwrite (buf : List UInt8) (pos : Nat) (bs : List UInt8) : List UInt8 :=
  buf.take pos ++ bs ++ buf.drop (pos + bs.length)

namespace Writer

/-! ## Failure and growth -/

/-- `MemoryPackWriter::Fail`: the first error is the one recorded. -/
def fail (code : MemoryPackError) : WriteM Unit := do
  Prog.modify fun w => { w with error := if w.error = .none then code else w.error }
  Prog.tell (.failed code)
  if (← Prog.ask).exceptions then Prog.throw code

/-- `while (next < target) next *= 2;` The first argument bounds the rounds. -/
def doubleUntil (target : Nat) : Nat → Nat → Nat
  | 0, next => next
  | rounds + 1, next =>
      if next < target then doubleUntil target rounds (next * 2) else next

/-- The size `GrowOwned(needed)` asks for; each round adds at least one byte, so
`target` rounds are enough. -/
def grownSize (size pos needed : Nat) : Nat :=
  let target := pos + needed
  doubleUntil target target (if size ≠ 0 then size * 2 else 64)

def growOwned (needed : Nat) : WriteM Unit :=
  Prog.modify fun w =>
    { w with owned := resize w.owned (grownSize w.owned.length w.ownedPos needed) }

/-! ## Low-level append -/

def appendByte (b : UInt8) : WriteM Unit := do
  let w ← Prog.get
  match w.vec, w.fixedBuf with
  | some v, _ =>
      Prog.modify ({ · with vec := some (v ++ [b]) })
      Prog.tell (.appended [b])
  | none, some buf =>
      if w.fixedPos ≥ w.fixedCap then
        Prog.tell (.refused 1)
        fail .bufferOverflow
      else
        Prog.modify ({ · with fixedBuf := some (overwrite buf w.fixedPos [b]),
                              fixedPos := w.fixedPos + 1 })
        Prog.tell (.appended [b])
  | none, none =>
      if w.ownedPos ≥ w.owned.length then growOwned 1
      Prog.modify fun w => { w with owned := overwrite w.owned w.ownedPos [b],
                                    ownedPos := w.ownedPos + 1 }
      Prog.tell (.appended [b])

def appendBytes (bs : List UInt8) : WriteM Unit := do
  if bs.length = 0 then return
  let w ← Prog.get
  match w.vec, w.fixedBuf with
  | some v, _ =>
      Prog.modify ({ · with vec := some (v ++ bs) })
      Prog.tell (.appended bs)
  | none, some buf =>
      if bs.length > w.fixedCap - w.fixedPos then
        Prog.tell (.refused bs.length)
        fail .bufferOverflow
      else
        Prog.modify ({ · with fixedBuf := some (overwrite buf w.fixedPos bs),
                              fixedPos := w.fixedPos + bs.length })
        Prog.tell (.appended bs)
  | none, none =>
      if bs.length > w.owned.length - w.ownedPos then growOwned bs.length
      Prog.modify fun w => { w with owned := overwrite w.owned w.ownedPos bs,
                                    ownedPos := w.ownedPos + bs.length }
      Prog.tell (.appended bs)

/-! ## Buffer management -/

def reserve (capacity : Nat) : WriteM Unit :=
  Prog.modify fun w =>
    match w.vec, w.fixedBuf with
    -- `vector::reserve` changes the capacity, not the contents
    | some _, _ => w
    | none, some _ => w
    | none, none =>
        if capacity > w.owned.length then { w with owned := resize w.owned capacity } else w

def clear : WriteM Unit :=
  Prog.modify fun w =>
    match w.vec, w.fixedBuf with
    | some _, _ => { w with vec := some [], error := .none }
    | none, some _ => { w with fixedPos := 0, error := .none }
    | none, none => { w with ownedPos := 0, error := .none }

def getBuffer : WriteM (List UInt8) := do
  let w ← Prog.get
  match w.vec, w.fixedBuf with
  | some v, _ => return v
  | none, some _ =>
      fail .notSupported
      return []
  | none, none =>
      Prog.modify ({ · with owned := resize w.owned w.ownedPos })
      return resize w.owned w.ownedPos

def takeBuffer : WriteM (List UInt8) := do
  let w ← Prog.get
  if w.vec.isSome ∨ w.fixedBuf.isSome then
    fail .notSupported
    return []
  -- the returned vector is moved out of `owned_`, which is left empty
  Prog.modify ({ · with owned := [], ownedPos := 0 })
  return resize w.owned w.ownedPos

/-- Move construction: the new writer, and what `other.Reset()` leaves behind. -/
def moveConstruct (other : MemoryPackWriter) : MemoryPackWriter × MemoryPackWriter :=
  ({ owned := other.owned, ownedPos := other.ownedPos, vec := other.vec,
     fixedBuf := other.fixedBuf, fixedCap := other.fixedCap, fixedPos := other.fixedPos,
     error := other.error }, {})

/-! ## Headers and primitives -/

/-- `ToInt32Length` / `CheckedLength`: -1 when the length does not fit. -/
def toInt32Length (size : Nat) : WriteM Int := do
  if size > 0x7FFFFFFF then
    fail .lengthLimit
    return -1
  return size

/-- `WriteRaw<T>` for a `w`-byte `T` with bit pattern `n`. -/
def writeRaw (w n : Nat) : WriteM Unit := do
  let e := (← Prog.ask).endian
  appendBytes (hostBytes e w (endianConvert e w n))

def writeObjectHeader (memberCount : UInt8) : WriteM Unit :=
  if memberCount > maxMemberCount then fail .invalidHeader else appendByte memberCount

def writeNullObjectHeader : WriteM Unit := appendByte nullObject

def writeCollectionHeader (length : Int) : WriteM Unit := writeRaw 4 (int32Bits length)

def writeNullCollectionHeader : WriteM Unit := writeRaw 4 (int32Bits nullCollection)

def writeUnionHeader (tag : UInt16) : WriteM Unit :=
  if tag < wideTag.toUInt16 then appendByte tag.toUInt8
  else do
    appendByte wideTag
    writeRaw 2 tag.toNat

def writeNullUnionHeader : WriteM Unit := appendByte nullObject

def writeBool (n : Nat) : WriteM Unit := appendByte (if n ≠ 0 then 1 else 0)
def writeInt8 (n : Nat) : WriteM Unit := appendByte (UInt8.ofNat n)
def writeUInt8 (n : Nat) : WriteM Unit := appendByte (UInt8.ofNat n)
def writeInt16 (n : Nat) : WriteM Unit := writeRaw 2 n
def writeUInt16 (n : Nat) : WriteM Unit := writeRaw 2 n
def writeInt32 (n : Nat) : WriteM Unit := writeRaw 4 n
def writeUInt32 (n : Nat) : WriteM Unit := writeRaw 4 n
def writeInt64 (n : Nat) : WriteM Unit := writeRaw 8 n
def writeUInt64 (n : Nat) : WriteM Unit := writeRaw 8 n
def writeFloat (n : Nat) : WriteM Unit := writeRaw 4 n
def writeDouble (n : Nat) : WriteM Unit := writeRaw 8 n
def writeChar16 (n : Nat) : WriteM Unit := writeRaw 2 n
def writeEnum (w : Width) (n : Nat) : WriteM Unit := writeRaw w.bytes n

def writeVarIntLength (value : Nat) : WriteM Unit :=
  if value ≤ varintMaxSingle.toNat then appendByte (UInt8.ofNat value)
  else if value ≤ 0xFFFF then do
    appendByte varintUint16Tag
    writeRaw 2 value
  else do
    appendByte varintUint32Tag
    writeRaw 4 value

/-! ## Strings -/

def writeString (s : List UInt8) : WriteM Unit := do
  if s.isEmpty then
    writeRaw 4 (int32Bits 0)
    return
  let byteCount ← toInt32Length s.length
  if byteCount < 0 then return
  -- `~byteCount`
  writeRaw 4 (int32Bits (-byteCount - 1))
  writeRaw 4 (int32Bits (utf16LengthFromUtf8 s))
  appendBytes s

def writeNullString : WriteM Unit := writeRaw 4 (int32Bits (-1))

def writeOptionalString : Option (List UInt8) → WriteM Unit
  | some s => writeString s
  | none => writeNullString

def writeStringUtf16 (s : List UInt16) : WriteM Unit := do
  if s.isEmpty then
    writeRaw 4 (int32Bits 0)
    return
  let units ← toInt32Length s.length
  if units < 0 then return
  writeRaw 4 (int32Bits units)
  Prog.runAll (s.map fun c => writeRaw 2 c.toNat)

/-! ## Unmanaged structs and raw bytes -/

/-- `WriteUnmanaged`: the struct's memory, padding included. -/
def writeUnmanaged (memory : List UInt8) : WriteM Unit := appendBytes memory

def writeBytes (data : List UInt8) : WriteM Unit := appendBytes data

/-- The buffer of `MEMORYPACK_UNMANAGED_SCRUBBED`: zeros, with each listed member
copied to its own offset. -/
def scrub (size : Nat) (members : List (Nat × Nat)) (memory : List UInt8) : List UInt8 :=
  members.foldl (fun buf m => overwrite buf m.1 ((memory.drop m.1).take m.2))
    (List.replicate size 0)

/-- `MemoryPackFormatter<T>::Serialize` of an unmanaged struct. -/
def unmanagedSerialize (u : Unmanaged) (memory : List UInt8) : WriteM Unit :=
  match u.scrubbed with
  | none => writeUnmanaged memory
  | some members => writeBytes (scrub u.size members memory)

/-! ## Contiguous ranges -/

/-- `WriteContiguous`: one append on a little-endian host, a loop elsewhere. -/
def writeContiguous (w : Nat) (ns : List Nat) : WriteM Unit := do
  if ns.length = 0 then return
  if (← Prog.ask).endian = .little then
    appendBytes (ns.flatMap (hostBytes .little w))
  else
    Prog.runAll (ns.map (writeRaw w))

/-- The length prefix every collection writer starts with, then the elements. -/
def writeCounted (size : Nat) (elements : WriteM Unit) : WriteM Unit := do
  let n ← toInt32Length size
  if n < 0 then return
  writeCollectionHeader n
  elements

/-- `WriteVector` of an arithmetic type other than `bool`. -/
def writeVector (s : Scalar) (ns : List Nat) : WriteM Unit :=
  writeCounted ns.length (writeContiguous s.size ns)

/-- `WriteVector(const std::vector<bool>&)`. -/
def writeVectorBool (ns : List Nat) : WriteM Unit :=
  writeCounted ns.length (Prog.runAll (ns.map writeBool))

def writeStringVector (ss : List (List UInt8)) : WriteM Unit :=
  writeCounted ss.length (Prog.runAll (ss.map writeString))

/-- `WriteArray(const T*, int32_t)`: `arr` holds at least `count` elements. -/
def writeArrayPtr (s : Scalar) (arr : List Nat) (count : Int) : WriteM Unit := do
  writeCollectionHeader count
  if count ≤ 0 then return
  writeContiguous s.size (arr.take count.toNat)

/-- `WriteArray(const std::array<T, N>&)`. -/
def writeArray (s : Scalar) (ns : List Nat) : WriteM Unit :=
  writeCounted ns.length (writeContiguous s.size ns)

def writeUnmanagedCollection (items : List (List UInt8)) : WriteM Unit :=
  writeCounted items.length
    (if items.isEmpty then pure () else appendBytes items.flatten)

/-- `WriteNullable`: the `Nullable<T>` struct, zeros where no member lies. `value`
is the object's memory in wire order. -/
def nullableBuffer (align size : Nat) (value : Option (List UInt8)) : List UInt8 :=
  let buf := List.replicate (nullableSize align size) (0 : UInt8)
  let buf := overwrite buf 0 [if value.isSome then 1 else 0]
  match value with
  | none => buf
  | some v => overwrite buf align v

def writeNullable (align size : Nat) (value : Option (List UInt8)) : WriteM Unit :=
  appendBytes (nullableBuffer align size value)

end Writer

end MemoryPack
