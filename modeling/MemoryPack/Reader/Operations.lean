import MemoryPack.Reader.Basic

/-!
# The public operations of the reader

Formatter code and everything else that decodes is written against the public
operations of `MemoryPackReader` and `VersionTolerantReader`. `ReaderOp` lists them;
client code is any `Prog.Session` of them. `OpRules` collects what a property has to
survive so that it holds of all client code.
-/

namespace MemoryPack

open Effect

/-- A public operation of `MemoryPackReader` or `VersionTolerantReader`, `Reset()` and
`SetOptions()` apart. A typed read names its type. -/
inductive ReaderOp (S : Schema) : ∀ {α : Type}, ReadM α → Prop
  | advance (n : Nat) : ReaderOp S (Reader.advance n)
  | seek (position : Nat) : ReaderOp S (Reader.seek position)
  | subReader (length : Nat) : ReaderOp S (Reader.subReader length)
  | ensureBytes (n : Nat) : ReaderOp S (Reader.ensureBytes n)
  | readByte : ReaderOp S Reader.readByte
  | readObjectHeader : ReaderOp S Reader.readObjectHeader
  | peekIsNull : ReaderOp S Reader.peekIsNull
  | readCollectionHeader : ReaderOp S Reader.readCollectionHeader
  | readCollectionLength (minElementSize : Nat) :
      ReaderOp S (Reader.readCollectionLength minElementSize)
  | readUnionHeader : ReaderOp S Reader.readUnionHeader
  | readScalar (s : Scalar) : ReaderOp S (Reader.readScalar s)
  | readChar16 : ReaderOp S Reader.readChar16
  | readVarIntLength : ReaderOp S Reader.readVarIntLength
  | readString : ReaderOp S Reader.readString
  | readStringView : ReaderOp S Reader.readStringView
  | readUnmanaged (u : Unmanaged) : ReaderOp S (Reader.readUnmanaged u.size u.init)
  | readVector (s : Scalar) : ReaderOp S (Reader.readVector s.size)
  | readVectorBool : ReaderOp S Reader.readVectorBool
  | readStringVector : ReaderOp S Reader.readStringVector
  | readArray (s : Scalar) (n : Nat) : ReaderOp S (Reader.readArray s.size (asInt32 n))
  | readCollection (t : Ty) :
      ReaderOp S (Reader.readCollection t (Reader.read S t (S.init t)))
  | readUnmanagedCollection (u : Unmanaged) : ReaderOp S (Reader.readUnmanagedCollection u.size)
  | readMap (o : Order) (k t : Ty) : ReaderOp S (Reader.readMap S o k t (do
      let x ← Reader.read S k (S.init k)
      let y ← Reader.read S t (S.init t)
      return .pair x y))
  | readOptional (t : Ty) :
      ReaderOp S (Reader.nullObjectDeserialize (Reader.read S t (S.init t)))
  | readNullable (t : Ty) : wireNullEncoding t = .nullableValue →
      ReaderOp S (Reader.readNullableOf t)
  | readNullableObject (t : Ty) :
      ReaderOp S (Reader.readNullableObject (Reader.read S t (S.init t)))
  | read (t : Ty) (v : Val) : ReaderOp S (Reader.read S t v)
  | enterObject : ReaderOp S Reader.enterObject
  | leaveObject : ReaderOp S Reader.leaveObject
  | requireEnd : ReaderOp S Reader.requireEnd
  | construct : ReaderOp S VersionTolerantReader.construct
  | readMember (t : Ty) (vt : VersionTolerantReader) (out : Val) :
      ReaderOp S (vt.readMember (Reader.read S t) out)
  | skipMember (vt : VersionTolerantReader) : ReaderOp S vt.skipMember
  | finish (vt : VersionTolerantReader) : ReaderOp S vt.finish

/-- A property that all client code has. -/
structure OpRules (P : ∀ {α : Type}, ReadM α → Prop) : Prop extends StepRules @P where
  readCollectionLength : ∀ min, P (Reader.readCollectionLength min)
  readString : P Reader.readString
  readStringView : P Reader.readStringView
  readVector : ∀ {w}, 0 < w → P (Reader.readVector w)
  readVectorBool : P Reader.readVectorBool
  readArray : ∀ {w} (n : Nat), 0 < w → P (Reader.readArray w (asInt32 n))
  readNullableOf : ∀ t, P (Reader.readNullableOf t)
  readUnmanagedCollection : ∀ {size}, 0 < size → P (Reader.readUnmanagedCollection size)
  elements : ∀ {α β : Type} {min : Nat} {reserve counted : Bool} {element : ReadM β}
    {store : α → β → α} {a : α}, 0 < min → P element →
      P (Reader.readElements min reserve counted element store a)
  subReader : ∀ length, P (Reader.subReader length)
  enterObject : P Reader.enterObject
  leaveObject : P Reader.leaveObject
  readObject : ∀ {S : Schema} (fuel i : Nat) (v : Val), P (Reader.readObject S (fuel + 1) i v)

namespace OpRules

variable {P : ∀ {α : Type}, ReadM α → Prop} {S : Schema}

theorem readRules (h : OpRules @P) : ReadRules (fun {_} _ => P) (fun _ => True) where
  pure := h.pure
  bind := h.bind
  weaken := fun hm _ => hm
  takeBytes := h.takeBytes
  readRaw := h.readRaw
  failWith := fun _ a hc => h.failWith hc a
  advance := h.advance
  readString := h.readString
  readVector := h.readVector
  readVectorBool := h.readVectorBool
  readArray := fun {_ s} _ => h.readArray _ s.size_pos
  readNullableOf := fun _ _ => h.readNullableOf _
  elements := h.elements
  nullCollection := h.nullCollection
  nullObject := h.nullObject
  undeclaredUnion := h.undeclaredUnion

theorem read (h : OpRules @P) (t : Ty) (v : Val) : P (Reader.read S t v) :=
  h.bind h.get fun r => h.readRules.readTy (h.readObject r.size) t (fun _ _ => trivial) v

theorem readStringVector (h : OpRules @P) : P Reader.readStringVector :=
  h.elements (by decide) (h.map h.readString _)

theorem readMap (h : OpRules @P) (o : Order) (k t : Ty) {entry : ReadM Val} (he : P entry) :
    P (Reader.readMap S o k t entry) :=
  h.elements (Nat.add_pos_left (Reader.minEncodedSize_pos k) _) he

theorem readNullableObject (h : OpRules @P) {payload : ReadM Val} (hp : P payload) :
    P (Reader.readNullableObject payload) :=
  h.bind h.readByte fun _ => Prog.Closed.ite (fun _ => h.pure _) fun _ => h.map hp _

theorem requireEnd (h : OpRules @P) : P Reader.requireEnd :=
  h.bind h.get fun _ => Prog.Closed.ite (fun _ => h.failWith (by decide) _) fun _ => h.pure _

theorem readUnmanaged (h : OpRules @P) (u : Unmanaged) :
    P (Reader.readUnmanaged u.size u.init) := by
  refine h.bind (h.takeBytes u.size) fun o => ?_
  cases o <;> exact h.pure _

/-- Every public operation. -/
theorem op (h : OpRules @P) {α : Type} {m : ReadM α} (hm : ReaderOp S m) : P m := by
  cases hm with
  | advance n => exact h.advance n
  | seek position => exact h.seek position
  | subReader length => exact h.subReader length
  | ensureBytes n => exact h.ensureBytes n
  | readByte => exact h.readByte
  | readObjectHeader => exact h.readObjectHeader
  | peekIsNull => exact h.peekIsNull
  | readCollectionHeader => exact h.map (h.readRaw 4) _
  | readCollectionLength min => exact h.readCollectionLength min
  | readUnionHeader => exact h.readRules.readUnionHeader
  | readScalar s => exact h.readRules.readScalar s
  | readChar16 => exact h.readRaw 2
  | readVarIntLength => exact h.readVarIntLength
  | readString => exact h.readString
  | readStringView => exact h.readStringView
  | readUnmanaged u => exact h.readUnmanaged u
  | readVector s => exact h.readVector s.size_pos
  | readVectorBool => exact h.readVectorBool
  | readStringVector => exact h.readStringVector
  | readArray s n => exact h.readArray n s.size_pos
  | readCollection t => exact h.readRules.readCollection (h.read t _)
  | readUnmanagedCollection u => exact h.readUnmanagedCollection u.size_pos
  | readMap o k t =>
      exact h.readMap o k t (h.bind (h.read k _) fun _ => h.map (h.read t _) _)
  | readOptional t => exact h.nullObject (h.read t _)
  | readNullable t _ => exact h.readNullableOf t
  | readNullableObject t => exact h.readNullableObject (h.read t _)
  | read t v => exact h.read t v
  | enterObject => exact h.enterObject
  | leaveObject => exact h.leaveObject
  | requireEnd => exact h.requireEnd
  | construct => exact h.construct
  | readMember t vt out => exact h.readMember (h.read t) vt out
  | skipMember vt => exact h.skipMember vt
  | finish vt => exact h.finish vt

end OpRules

end MemoryPack
