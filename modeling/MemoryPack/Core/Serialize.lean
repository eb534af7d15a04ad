import MemoryPack.Core.Writer

/-!
# Serializers

`Writer.write` is `MemoryPackWriter::Write<T>`: the `Serialize` half of every
`MemoryPackFormatter` specialisation. The recursion is on the value, which is
finite even when the type is recursive.

A formatter that loops over elements takes the writes of the elements as a list
of programs, so that the loop itself is written once.
-/

namespace MemoryPack

open Effect LittleEndian

/-- The bit patterns of a range of scalars. -/
def Val.bits : Val → Nat
  | .scalar n => n
  | _ => 0

/-- The memory of a string or unmanaged struct. -/
def Val.memory : Val → List UInt8
  | .bytes bs => bs
  | _ => []

namespace Writer

/-- `MemoryPackFormatter` of `bool`, the other arithmetic types and enums. -/
def writeScalar (s : Scalar) (n : Nat) : WriteM Unit :=
  match s with
  | .bool => writeBool n
  | .float => writeFloat n
  | .double => writeDouble n
  | .int _ .w1 => writeUInt8 n
  | .int _ .w2 => writeUInt16 n
  | .int _ .w4 => writeUInt32 n
  | .int _ .w8 => writeUInt64 n
  | .enum _ w => writeEnum w n

/-! ## .NET value types (dotnet.hpp) -/

def guidSerialize (data1 data2 data3 : Nat) (data4 : List UInt8) : WriteM Unit := do
  writeUInt32 data1
  writeUInt16 data2
  writeUInt16 data3
  writeBytes data4

def dateTimeOffsetSerialize (offsetMinutes dateData : Nat) : WriteM Unit := do
  writeInt16 offsetMinutes
  Prog.runAll (List.replicate 6 (writeUInt8 0))
  writeUInt64 dateData

def int128Serialize (low high : Nat) : WriteM Unit := do
  writeUInt64 low
  writeInt64 high

def uint128Serialize (low high : Nat) : WriteM Unit := do
  writeUInt64 low
  writeUInt64 high

def dotNetSerialize : DotNet → Val → WriteM Unit
  | .guid, .seq [.scalar d₁, .scalar d₂, .scalar d₃, .bytes d₄] => guidSerialize d₁ d₂ d₃ d₄
  | .dateTime, .scalar n => writeUInt64 n
  | .timeSpan, .scalar n => writeInt64 n
  | .dateTimeOffset, .pair (.scalar o) (.scalar d) => dateTimeOffsetSerialize o d
  | .decimal, .bytes bs => writeBytes bs
  | .half, .scalar n => writeUInt16 n
  | .int128, .pair (.scalar l) (.scalar h) => int128Serialize l h
  | .uint128, .pair (.scalar l) (.scalar h) => uint128Serialize l h
  | _, _ => pure ()

/-! ## Collections -/

/-- `WriteCollection(const std::vector<T>&)`; `elements` are the `Write` calls of
the generic branch. -/
def writeCollection (t : Ty) (vs : List Val) (elements : List (WriteM Unit)) :
    WriteM Unit :=
  writeCounted vs.length <|
    match t with
    | .scalar .bool => Prog.runAll (vs.map fun v => writeBool v.bits)
    | .scalar s =>
        if s.isArithmetic then writeContiguous s.size (vs.map Val.bits)
        else Prog.runAll elements
    | _ => Prog.runAll elements

/-- `WriteCollection(std::span<const T>)`, which `std::array` uses. -/
def writeCollectionSpan (t : Ty) (vs : List Val) (elements : List (WriteM Unit)) :
    WriteM Unit :=
  writeCounted vs.length <|
    match t with
    | .scalar s =>
        if s.isArithmetic then writeContiguous s.size (vs.map Val.bits)
        else Prog.runAll elements
    | _ => Prog.runAll elements

/-- `SequenceFormatter`, `SetFormatter`, `MapFormatter` and `WriteMap`: the count,
then one `Write` for each element. -/
def containerSerialize (elements : List (WriteM Unit)) : WriteM Unit :=
  writeCounted elements.length (Prog.runAll elements)

def writeTuple (items : List (WriteM Unit)) : WriteM Unit := do
  writeObjectHeader (UInt8.ofNat items.length)
  Prog.runAll items

/-- `IMemoryPackable<T>::Serialize` as `MEMORYPACK_DEFINE` generates it, for a
non-null object. -/
def defineSerialize (memberCount : Nat) (members : List (WriteM Unit)) : WriteM Unit := do
  writeObjectHeader (UInt8.ofNat memberCount)
  Prog.runAll members

/-! ## Optionals and pointers -/

/-- `WriteNullable` of a scalar or an unmanaged struct. -/
def writeNullableOf : Ty → Option Val → WriteM Unit
  | .scalar s, v => do
      let B ← Prog.ask
      writeNullable s.size s.size
        (v.map fun x => hostBytes B.endian s.size (endianConvertOf B s x.bits))
  | .unmanaged u, v => writeNullable u.align u.size (v.map Val.memory)
  | _, _ => pure ()

/-- `MemoryPackFormatter<std::optional<T>>::Serialize`; `payload` is `Write(*v)`. -/
def optionalSerialize (t : Ty) (v : Option Val) (payload : WriteM Unit) : WriteM Unit :=
  match wireNullEncoding t, v with
  | .nullableValue, v => writeNullableOf t v
  | .string, none => writeNullString
  | .collection, none => writeNullCollectionHeader
  | .object, none => writeNullObjectHeader
  | _, some _ => payload

/-- `WriteOptional`, `WritePointer` and the smart pointer formatters. -/
def pointerSerialize (payload : Option (WriteM Unit)) : WriteM Unit :=
  match payload with
  | some write => write
  | none => writeNullObjectHeader

/-- `WriteNullableObject`. -/
def writeNullableObject (payload : Option (WriteM Unit)) : WriteM Unit :=
  match payload with
  | none => writeNullObjectHeader
  | some write => do
      appendByte 1
      write

end Writer

/-! ## `VersionTolerantWriter` -/

/-- Members go to a private writer first; `lengths` are `uint32_t`. -/
structure VersionTolerantWriter where
  body : MemoryPackWriter := {}
  lengths : List Nat := []

namespace VersionTolerantWriter

/-- `WriteMember`, with the exception that left it, if one did. -/
def writeMember (B : Build) (vt : VersionTolerantWriter) (value : WriteM Unit) :
    VersionTolerantWriter × Option MemoryPackError :=
  let start := vt.body.size
  match value B vt.body with
  | ⟨.ret _, body, _⟩ =>
      ({ body := body, lengths := vt.lengths ++ [(body.size - start) % 2 ^ 32] }, none)
  | ⟨.throw code, body, _⟩ => ({ vt with body := body }, some code)
  | ⟨.diverge, body, _⟩ => ({ vt with body := body }, none)

def writeMembers (B : Build) (vt : VersionTolerantWriter) :
    List (WriteM Unit) → VersionTolerantWriter × Option MemoryPackError
  | [] => (vt, none)
  | m :: ms =>
      match writeMember B vt m with
      | (vt', none) => writeMembers B vt' ms
      | (vt', some code) => (vt', some code)

/-- `Finish()`, run on the target writer. -/
def finish (vt : VersionTolerantWriter) : WriteM Unit := do
  if vt.lengths.length > maxMemberCount.toNat then
    Writer.writeObjectHeader nullObject
  else
    Writer.writeObjectHeader (UInt8.ofNat vt.lengths.length)
    Prog.runAll (vt.lengths.map Writer.writeVarIntLength)
    Writer.writeBytes vt.body.getSpan

/-- `try { m } catch (...) {}`. -/
def swallow (m : WriteM Unit) : WriteM Unit := fun B out =>
  match m B out with
  | ⟨.throw _, out', l⟩ => ⟨.ret (), out', l⟩
  | r => r

/-- The destructor: `Finish()` with its exceptions dropped. -/
def destroy (vt : VersionTolerantWriter) : WriteM Unit := swallow vt.finish

/-- A `Serialize` that writes its members through a `VersionTolerantWriter`. An
exception out of a member unwinds through the destructor, which still flushes. -/
def serialize (members : List (WriteM Unit)) : WriteM Unit := do
  match writeMembers (← Prog.ask) {} members with
  | (vt, none) => vt.destroy
  | (vt, some code) =>
      vt.destroy
      Prog.throw code

end VersionTolerantWriter

/-! ## Generic dispatch -/

namespace Writer

mutual
/-- `MemoryPackWriter::Write<T>`. -/
def write (S : Schema) : Ty → Val → WriteM Unit
  | .scalar s, .scalar n => writeScalar s n
  | .string, .bytes bs => writeString bs
  | .u16string, .units us => writeStringUtf16 us
  | .vector t, .seq vs => writeCollection t vs (elementWrites S t vs)
  | .sequence _ t, .seq vs => containerSerialize (elementWrites S t vs)
  | .array _ t, .seq vs => writeCollectionSpan t vs (elementWrites S t vs)
  | .set _ t, .seq vs => containerSerialize (elementWrites S t vs)
  -- an entry is its key then its value, which is how a pair is written
  | .map _ k t, .seq vs => containerSerialize (elementWrites S (.pair k t) vs)
  | .pair a b, .pair x y => do
      write S a x
      write S b y
  | .tuple ts, .seq vs => writeTuple (memberWrites S ts vs)
  | .optional t, .none => optionalSerialize t none (pure ())
  | .optional t, .some v => optionalSerialize t (some v) (write S t v)
  | .pointer _ _, .none => pointerSerialize none
  | .pointer _ t, .some v => pointerSerialize (some (write S t v))
  | .variant tags ts, .alt i v => do
      writeUnionHeader (tags.getD i 0)
      write S (ts.getD i .string) v
  | .dotNet d, v => dotNetSerialize d v
  | .unmanaged u, .bytes bs => unmanagedSerialize u bs
  | .object i, .seq vs =>
      match (S.decl i).kind with
      | .define => defineSerialize (S.decl i).members.length
          (memberWrites S (S.decl i).members vs)
      | .defineEmpty => defineSerialize 0 []
      | .versionTolerant => VersionTolerantWriter.serialize
          (memberWrites S (S.decl i).members vs)
  | _, _ => pure ()

/-- One `Write` for each element of a container. -/
def elementWrites (S : Schema) (t : Ty) : List Val → List (WriteM Unit)
  | [] => []
  | v :: vs => write S t v :: elementWrites S t vs

/-- One `Write` for each member, in declaration order. -/
def memberWrites (S : Schema) : List Ty → List Val → List (WriteM Unit)
  | t :: ts, v :: vs => write S t v :: memberWrites S ts vs
  | _, _ => []
end

end Writer

/-! ## Top-level API -/

/-- `Serialize(value)`: the new buffer, or the exception. -/
def serialize (S : Schema) (B : Build) (t : Ty) (v : Val) : Out MemoryPackError (List UInt8) :=
  ((do Writer.write S t v; Writer.takeBuffer : WriteM (List UInt8)) B {}).out

/-- `Serialize(value, out)`: the caller's vector afterwards. -/
def serializeInto (S : Schema) (B : Build) (t : Ty) (v : Val) (out : List UInt8) :
    Out MemoryPackError (List UInt8) :=
  ((do Writer.write S t v; return (← Prog.get).getSpan : WriteM (List UInt8)) B
    (.ofVector out)).out

/-- `SerializeTo(buffer, value)`: what it returns, and the buffer's bytes. -/
def serializeTo (S : Schema) (B : Build) (t : Ty) (v : Val) (buffer : Option (List UInt8))
    (capacity : Nat) : Out MemoryPackError (Nat × List UInt8) :=
  ((do
    Writer.write S t v
    let w ← Prog.get
    return (if w.failed then 0 else w.size, w.getSpan) : WriteM (Nat × List UInt8)) B
    (.ofFixed buffer capacity)).out

/-- `TrySerializeTo(buffer, value)`. -/
def trySerializeTo (S : Schema) (B : Build) (t : Ty) (v : Val)
    (buffer : Option (List UInt8)) (capacity : Nat) : Except MemoryPackError Nat :=
  let r := Writer.write S t v B (.ofFixed buffer capacity)
  match r.out with
  | .throw _ => .error (if r.st.error = .none then .bufferOverflow else r.st.error)
  | _ => if r.st.failed then .error r.st.error else .ok r.st.size

end MemoryPack
