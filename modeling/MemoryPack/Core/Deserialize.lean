import MemoryPack.Core.Reader
import MemoryPack.Core.Serialize

/-!
# Deserializers

`Reader.readTy` is `MemoryPackReader::Read<T>(T& out)`: the `Deserialize` half of
every `MemoryPackFormatter` specialisation. It takes what the target holds before
the call and returns what it holds after it.

User types are reached through `named`, so that the recursion of the formatters is
on the type and the recursion through user types is separate: `readObject` bounds
it by a number of nested user objects. Every user object starts with a header
byte, so an input of `n` bytes cannot nest more than `n` of them and `read`, which
allows `n + 1`, never reaches the bound.
-/

namespace MemoryPack

open Effect LittleEndian

namespace Reader

/-- `MemoryPackFormatter` of `bool`, the other arithmetic types and enums. -/
def readScalar (s : Scalar) : ReadM Nat :=
  match s with
  | .bool => readBool
  | .float => readFloat
  | .double => readDouble
  | .int _ .w1 => readUInt8
  | .int _ .w2 => readUInt16
  | .int _ .w4 => readUInt32
  | .int _ .w8 => readUInt64
  | .enum _ w => readEnum w

/-- `MemoryPackFormatter<std::string>::Deserialize`. -/
def stringDeserialize : ReadM Val := do
  return .bytes ((← readString).getD [])

/-- `MemoryPackFormatter<std::u16string>::Deserialize`. -/
def u16stringDeserialize : ReadM Val := do
  return .units (utf8ToUtf16 ((← readString).getD []))

/-! ## .NET value types (dotnet.hpp) -/

/-- `for (auto& b : bytes) b = r.ReadUInt8();` -/
def readUInt8s : Nat → ReadM (List UInt8)
  | 0 => return []
  | n + 1 => do
      let b ← readByte
      return b :: (← readUInt8s n)

def guidDeserialize : ReadM Val := do
  let data1 ← readUInt32
  let data2 ← readUInt16
  let data3 ← readUInt16
  let data4 ← readUInt8s 8
  return .seq [.scalar data1, .scalar data2, .scalar data3, .bytes data4]

def dateTimeOffsetDeserialize : ReadM Val := do
  let offsetMinutes ← readInt16
  advance 6
  let dateData ← readUInt64
  return .pair (.scalar offsetMinutes) (.scalar dateData)

def int128Deserialize : ReadM Val := do
  let low ← readUInt64
  let high ← readInt64
  return .pair (.scalar low) (.scalar high)

def uint128Deserialize : ReadM Val := do
  let low ← readUInt64
  let high ← readUInt64
  return .pair (.scalar low) (.scalar high)

def dotNetDeserialize : DotNet → ReadM Val
  | .guid => guidDeserialize
  | .dateTime => do return .scalar (← readUInt64)
  | .timeSpan => do return .scalar (← readInt64)
  | .dateTimeOffset => dateTimeOffsetDeserialize
  | .decimal => do return .bytes (← readUInt8s 16)
  | .half => do return .scalar (← readUInt16)
  | .int128 => int128Deserialize
  | .uint128 => uint128Deserialize

/-! ## Collections -/

/-- `MinEncodedSize<T>()`. -/
def minEncodedSize : Ty → Nat
  | .scalar s => s.size
  | .string => 4
  | _ => 1

/-- The minimum the sequence, set and map formatters use. -/
def elementMin : Ty → Nat
  | .scalar s => s.size
  | _ => 1

/-- The loop of every collection reader, over a validated length:
`for (i = 0; i < len && !Failed(); ++i) { T value{}; Read(value); store(value); }` -/
def readElements {α β : Type} (minElementSize : Nat) (reserve counted : Bool)
    (element : ReadM β) (store : α → β → α) (a : α) : ReadM α := do
  let len ← readCollectionLength minElementSize
  if len ≤ 0 then return a
  if reserve then Prog.tell (.alloc len.toNat minElementSize (← Prog.get).remaining)
  Prog.forWhile MemoryPackReader.failed (fun a => do
    let v ← element
    if counted then Prog.tell (.elements 1)
    return store a v) len.toNat a

/-- `push_back`, or `insert` at `end()`. -/
def pushBack (vs : List Val) (v : Val) : List Val := vs ++ [v]

/-- `ReadCollection(std::vector<T>&)`; `element` is `T value{}; Read(value);`. -/
def readCollection (t : Ty) (element : ReadM Val) : ReadM (List Val) :=
  let generic := readElements (minEncodedSize t) true true element pushBack []
  match t with
  | .scalar .bool => do return (← readVectorBool).map .scalar
  | .scalar s =>
      if s.isArithmetic then do return (← readVector s.size).map .scalar else generic
  | _ => generic

/-- `ReadStringVector(std::vector<std::string>&)`. -/
def readStringVector : ReadM (List Val) :=
  readElements 4 true true (do return .bytes ((← readString).getD [])) pushBack []

/-- `SequenceFormatter::Deserialize`. -/
def sequenceDeserialize (t : Ty) (element : ReadM Val) : ReadM (List Val) :=
  readElements (elementMin t) false true element pushBack []

/-- The loop body of `std::array::Deserialize`: `if (i < N) v[i] = tmp;`. -/
def storeAt (n : Nat) (iv : Nat × List Val) (tmp : Val) : Nat × List Val :=
  (iv.1 + 1, if iv.1 < n then iv.2.set iv.1 tmp else iv.2)

/-- `std::array::Deserialize`: `v = {}`, then the first `n` elements. -/
def arrayDeserialize (S : Schema) (n : Nat) (t : Ty) (element : ReadM Val) :
    ReadM (List Val) :=
  let zero := List.replicate n (S.init t)
  let generic : ReadM (List Val) := do
    return (← readElements 1 false false element (storeAt n) (0, zero)).2
  match t with
  | .scalar s =>
      if s.isArithmetic then do
        let stored := (← readArray s.size (asInt32 n)).map Val.scalar
        return stored ++ zero.drop stored.length
      else generic
  | _ => generic

/-- Insertion before the first element whose key is not less, unless that key is
equal: `std::set::insert`, `std::map::emplace`. -/
def insertOrdered (less : Val → Val → Bool) (key : Val → Val) (x : Val) :
    List Val → List Val
  | [] => [x]
  | y :: ys =>
      if less (key y) (key x) then y :: insertOrdered less key x ys
      else if less (key x) (key y) then x :: y :: ys
      else y :: ys

/-- `insert` and `emplace` of the unordered containers; their iteration order is
unspecified, the model keeps insertion order. -/
def insertUnordered (equal : Val → Val → Bool) (key : Val → Val) (x : Val)
    (ys : List Val) : List Val :=
  if ys.any fun y => equal (key y) (key x) then ys else ys ++ [x]

def insertKeyed (S : Schema) (o : Order) (keyTy : Ty) (key : Val → Val) (x : Val)
    (ys : List Val) : List Val :=
  match o with
  | .ordered => insertOrdered (S.less keyTy) key x ys
  | .unordered => insertUnordered (S.equal keyTy) key x ys

/-- `SetFormatter::Deserialize`. -/
def setDeserialize (S : Schema) (o : Order) (t : Ty) (element : ReadM Val) :
    ReadM (List Val) :=
  readElements (elementMin t) false true element (fun vs v => insertKeyed S o t id v vs) []

/-- `MapFormatter::Deserialize`; `entry` reads a key and then its value. -/
def mapDeserialize (S : Schema) (o : Order) (k t : Ty) (entry : ReadM Val) :
    ReadM (List Val) :=
  readElements (elementMin k + elementMin t) false true entry
    (fun vs e => insertKeyed S o k Val.fst e vs) []

/-- `ReadMap` and `ReadUnorderedMap`; the second reserves. -/
def readMap (S : Schema) (o : Order) (k t : Ty) (entry : ReadM Val) : ReadM (List Val) :=
  readElements (minEncodedSize k + minEncodedSize t) (o = .unordered) true entry
    (fun vs e => insertKeyed S o k Val.fst e vs) []

/-! ## Optionals and pointers -/

/-- `MemoryPackReader peek = r; peek.ReadCollectionHeader()`: the copy is dropped. -/
def peekCollectionHeader : ReadM Int := fun B r =>
  let p := readCollectionHeader B r
  ⟨p.out, r, p.log⟩

/-- `ReadNullable<T>` of a scalar or an unmanaged struct. -/
def readNullableOf : Ty → ReadM Val
  | .scalar s => do
      match ← readNullable s.size s.size with
      | none => return .none
      | some bs =>
          let B ← Prog.ask
          return .some (.scalar (endianConvertOf B s (hostNat B.endian bs)))
  | .unmanaged u => do
      match ← readNullable u.align u.size with
      | none => return .none
      | some bs => return .some (.bytes bs)
  | _ => return .none

/-- The null test of the collection encoding: a header of -1 behind at least four
bytes, seen through a copy of the reader. -/
def nullCollectionDeserialize (payload : ReadM Val) : ReadM Val := do
  if (← Prog.get).remaining ≥ 4 then
    if (← peekCollectionHeader) = nullCollection then
      advance 4
      return .none
  return .some (← payload)

/-- The null test of the object encoding, for `std::optional` and the smart
pointers. -/
def nullObjectDeserialize (payload : ReadM Val) : ReadM Val := do
  if ← peekIsNull then
    let _ ← readByte
    return .none
  return .some (← payload)

/-- `ReadNullableObject<T>`: any marker but 255 is followed by the value. -/
def readNullableObject (payload : ReadM Val) : ReadM Val := do
  let b ← readByte
  if b = nullObject then return .none
  return .some (← payload)

/-- `MemoryPackFormatter<std::optional<T>>::Deserialize`; `payload` is
`T value{}; r.Read(value);`. -/
def optionalDeserialize (t : Ty) (payload : ReadM Val) : ReadM Val :=
  match t, wireNullEncoding t with
  | _, .nullableValue => readNullableOf t
  | .u16string, .string => nullCollectionDeserialize payload
  | _, .string => do
      match ← readString with
      | some s => return .some (.bytes s)
      | none => return .none
  | _, .collection => nullCollectionDeserialize payload
  | _, .object => nullObjectDeserialize payload

/-! ## Unions and objects -/

/-- A tag no alternative declares: the bytes that follow cannot be interpreted, and
the variant stays as it was. -/
def undeclaredUnion (tag : UInt16) (v : Val) : ReadM Val := do
  Prog.tell (.undeclaredTag tag)
  advance (← Prog.get).remaining
  Prog.tell (.kept v)
  return v

/-- The body of a `MEMORYPACK_DEFINE` reader, between `EnterObject` and
`LeaveObject`. -/
def objectBody (v : Val) (members : ReadM (List Val)) : ReadM Val := do
  if !(← enterObject) then return v
  Prog.tell .enterBody
  let vs ← members
  Prog.tell .leaveBody
  leaveObject
  return .seq vs

/-! ## The formatters -/

mutual
/-- `MemoryPackReader::Read<T>(T& out)`, with `out` before and after the call. -/
def readTy (S : Schema) (named : Nat → Val → ReadM Val) : Ty → Val → ReadM Val
  | .scalar s, _ => do return .scalar (← readScalar s)
  | .string, _ => stringDeserialize
  | .u16string, _ => u16stringDeserialize
  | .vector t, _ => do return .seq (← readCollection t (readTy S named t (S.init t)))
  | .sequence _ t, _ => do return .seq (← sequenceDeserialize t (readTy S named t (S.init t)))
  | .array n t, _ => do return .seq (← arrayDeserialize S n t (readTy S named t (S.init t)))
  | .set o t, _ => do return .seq (← setDeserialize S o t (readTy S named t (S.init t)))
  | .map o k t, _ => do
      return .seq (← mapDeserialize S o k t (do
        let x ← readTy S named k (S.init k)
        let y ← readTy S named t (S.init t)
        return .pair x y))
  | .pair a b, v => do
      let x ← readTy S named a v.fst
      let y ← readTy S named b v.snd
      return .pair x y
  | .tuple ts, _ => do
      let header ← readObjectHeader
      if header.isNull then return .seq (S.inits ts)
      return .seq (← readItems S named header.count.toNat 0 ts)
  | .optional t, _ => optionalDeserialize t (readTy S named t (S.init t))
  | .pointer _ t, _ => nullObjectDeserialize (readTy S named t (S.init t))
  | .variant tags ts, v => do
      match ← readUnionHeader with
      | none => return S.init (.variant tags ts)
      | some tag =>
          match ← readAlternative S named tag 0 tags ts with
          | some w => return w
          | none => undeclaredUnion tag v
  | .dotNet d, _ => dotNetDeserialize d
  | .unmanaged u, _ => do return .bytes (← readUnmanaged u.size u.init)
  | .object i, v => named i v

/-- `ReadTupleImpl`: items past the sender's count keep their default. -/
def readItems (S : Schema) (named : Nat → Val → ReadM Val) (count : Nat) :
    Nat → List Ty → ReadM (List Val)
  | _, [] => return []
  | i, t :: ts => do
      let v ← if i < count then readTy S named t (S.init t) else pure (S.init t)
      return v :: (← readItems S named count (i + 1) ts)

/-- `ReadUnionAlternative`: the first alternative with this tag, emplaced and read. -/
def readAlternative (S : Schema) (named : Nat → Val → ReadM Val) (tag : UInt16) :
    Nat → List UInt16 → List Ty → ReadM (Option Val)
  | i, g :: gs, t :: ts =>
      if g ≠ tag then readAlternative S named tag (i + 1) gs ts
      else do return some (.alt i (← readTy S named t (S.init t)))
  | _, _, _ => return none
end

/-- `MEMORYPACK_DETAIL_READ_MEMBER` for each member; `read` is `r.Read(v.name)`. -/
def readMembers (S : Schema) (read : Ty → Val → ReadM Val) (count : Nat) :
    Nat → List Ty → List Val → ReadM (List Val)
  | _, [], _ => return []
  | index, t :: ts, vs => do
      let old := vs.headD (S.init t)
      let v ← if count > index then read t old else do
        Prog.tell (.kept old)
        pure old
      return v :: (← readMembers S read count (index + 1) ts vs.tail)

/-- `IMemoryPackable<T>::Deserialize` as `MEMORYPACK_DEFINE` generates it. -/
def defineDeserialize (S : Schema) (read : Ty → Val → ReadM Val) (i : Nat) (v : Val) :
    ReadM Val := do
  let header ← readObjectHeader
  if header.isNull then return S.init (.object i)
  objectBody v (readMembers S read header.count.toNat 0 (S.decl i).members v.items)

/-- `MEMORYPACK_DEFINE_EMPTY`. -/
def defineEmptyDeserialize (S : Schema) (i : Nat) (v : Val) : ReadM Val := do
  let header ← readObjectHeader
  if header.isNull then return S.init (.object i)
  Prog.tell (.kept v)
  return v

end Reader

/-! ## `VersionTolerantReader` -/

structure VersionTolerantReader where
  lengths : List Nat := []
  count : Nat := 0
  index : Nat := 0
  next : Nat := 0
  isNull : Bool := false
deriving DecidableEq, Repr

namespace VersionTolerantReader

open Reader

def construct : ReadM VersionTolerantReader := do
  let header ← readObjectHeader
  if header.isNull then return { isNull := true }
  let lengths ← Prog.forWhile MemoryPackReader.failed
    (fun ls => do return ls ++ [← readVarIntLength]) header.count.toNat []
  return { lengths := lengths, count := header.count.toNat, next := (← Prog.get).pos }

/-- `lengths_[index_]`; reading past the table is undefined, the model yields 0. -/
def lengthAt (vt : VersionTolerantReader) : ReadM Nat := do
  Prog.tell (.tableIndex vt.index vt.lengths.length)
  return vt.lengths.getD vt.index 0

/-- `ReadMember(out)`: its result, `out` and the table afterwards. -/
def readMember (read : Val → ReadM Val) (vt : VersionTolerantReader) (out : Val) :
    ReadM (Bool × Val × VersionTolerantReader) := do
  if vt.isNull ∨ vt.index ≥ vt.count then return (false, out, vt)
  let start := vt.next
  let stop := (start + (← vt.lengthAt)) % (← Prog.ask).sizeMod
  seek start
  if ← failed then return (false, out, { vt with index := vt.index + 1 })
  let v ← read out
  seek stop
  return (true, v, { vt with index := vt.index + 1, next := stop })

def skipMember (vt : VersionTolerantReader) : ReadM (Bool × VersionTolerantReader) := do
  if vt.isNull ∨ vt.index ≥ vt.count then return (false, vt)
  let next := (vt.next + (← vt.lengthAt)) % (← Prog.ask).sizeMod
  seek next
  return (true, { vt with index := vt.index + 1, next := next })

/-- `while (index_ < count_) SkipMember();` with `left` members to go. -/
def skipRest : Nat → VersionTolerantReader → ReadM VersionTolerantReader
  | 0, vt => return vt
  | left + 1, vt => do
      let (_, vt') ← skipMember vt
      skipRest left vt'

def finish (vt : VersionTolerantReader) : ReadM VersionTolerantReader := do
  let vt' ← skipRest (vt.count - vt.index) vt
  if !vt'.isNull then seek vt'.next
  return vt'

/-- One `vt.ReadMember(v.name)` for each member. A member the sender did not write
is left as it was. -/
def readMembers (S : Schema) (read : Ty → Val → ReadM Val) :
    List Ty → List Val → VersionTolerantReader →
      ReadM (List Val × VersionTolerantReader)
  | [], _, vt => return ([], vt)
  | t :: ts, vs, vt => do
      let old := vs.headD (S.init t)
      let (sent, v, vt') ← readMember (read t) vt old
      if !sent then Prog.tell (.kept old)
      let (vs', vt'') ← readMembers S read ts vs.tail vt'
      return (v :: vs', vt'')

/-- A `Deserialize` over `VersionTolerantReader`. -/
def deserialize (S : Schema) (read : Ty → Val → ReadM Val) (i : Nat) (v : Val) :
    ReadM Val := do
  let vt ← construct
  if vt.isNull then
    Prog.tell (.kept v)
    return v
  let (vs, vt') ← readMembers S read (S.decl i).members v.items vt
  let _ ← finish vt'
  return .seq vs

end VersionTolerantReader

/-! ## Top-level API -/

namespace Reader

/-- `IMemoryPackable<T>::Deserialize` of a user type, with room for `fuel` nested
user objects. -/
def readObject (S : Schema) : Nat → Nat → Val → ReadM Val
  | 0, _, _ => Prog.diverge
  | fuel + 1, i, v =>
      match (S.decl i).kind with
      | .define => defineDeserialize S (readTy S (readObject S fuel)) i v
      | .defineEmpty => defineEmptyDeserialize S i v
      | .versionTolerant =>
          VersionTolerantReader.deserialize S (readTy S (readObject S fuel)) i v

/-- `MemoryPackReader::Read<T>(T& out)`. -/
def read (S : Schema) (t : Ty) (v : Val) : ReadM Val := do
  readTy S (readObject S ((← Prog.get).size + 1)) t v

end Reader

/-- `Deserialize<T>(data)`: `T value{}; reader.Read(value);`. -/
def deserialize (S : Schema) (t : Ty) : ReadM Val := Reader.read S t (S.init t)

/-- `DeserializeExact<T>(data)`. -/
def deserializeExact (S : Schema) (t : Ty) : ReadM Val := do
  let v ← Reader.read S t (S.init t)
  let _ ← Reader.requireEnd
  return v

/-- `TryDeserialize<T>(data)`; `none` when decoding does not terminate. -/
def tryDeserialize (S : Schema) (B : Build) (t : Ty) (data : List UInt8) :
    Option (Except MemoryPackError Val) :=
  let r := Reader.read S t (S.init t) B { data := data }
  match r.out with
  | .throw _ =>
      some (.error (if r.st.error = .none then .bufferUnderflow else r.st.error))
  | .ret v => some (if r.st.failed then .error r.st.error else .ok v)
  | .diverge => none

end MemoryPack
