import MemoryPack.Core.Serialize

/-!
# The wire format

`encode` says what the encoding of a value *is*, without a writer: little-endian
numbers, length-prefixed collections, object headers, union tags, the four null
encodings. It is the specification the writer is measured against and the reader
has to invert.

`Encodable` is the set of values it is meant for: the value belongs to the type and
every length fits the `int32_t` in front of it. `Recoverable` is what it takes to get
the value back: a present value behind a one-byte null marker does not start with
that marker, and a scrubbed struct has no bytes to lose. `nest` counts the
`MEMORYPACK_DEFINE` bodies that are open at once while the value is read.
-/

namespace MemoryPack

open LittleEndian

/-! ## Parts -/

/-- An `int32_t` on the wire. -/
def le32 (i : Int) : List UInt8 := leBytes 4 (int32Bits i)

theorem int32Bits_lt (i : Int) : int32Bits i < 256 ^ 4 := by
  unfold int32Bits
  omega

@[simp] theorem length_le32 (i : Int) : (le32 i).length = 4 := length_leBytes 4 _

theorem ofNat_le_maxMemberCount {n : Nat} (h : n ≤ 249) : UInt8.ofNat n ≤ maxMemberCount := by
  rw [UInt8.le_iff_toNat_le, UInt8.toNat_ofNat']
  exact Nat.le_trans (Nat.mod_le _ _) h

def encodeScalar : Scalar → Nat → List UInt8
  | .bool, n => [if n ≠ 0 then 1 else 0]
  | s, n => leBytes s.size n

/-- `[int32 ~byteCount][int32 utf16Length][bytes]`, and just a zero when empty. -/
def encodeString (bs : List UInt8) : List UInt8 :=
  if bs.isEmpty then le32 0
  else le32 (-(bs.length : Int) - 1) ++ (le32 (utf16LengthFromUtf8 bs) ++ bs)

/-- `[int32 units][units]`. -/
def encodeUtf16 (us : List UInt16) : List UInt8 :=
  le32 us.length ++ us.flatMap fun u => leBytes 2 u.toNat

def encodeCounted (items : List (List UInt8)) : List UInt8 :=
  le32 items.length ++ items.flatten

def encodeTag (tag : UInt16) : List UInt8 :=
  if tag < wideTag.toUInt16 then [tag.toUInt8] else wideTag :: leBytes 2 tag.toNat

def encodeDotNet : DotNet → Val → List UInt8
  | .guid, .seq [.scalar d₁, .scalar d₂, .scalar d₃, .bytes d₄] =>
      leBytes 4 d₁ ++ (leBytes 2 d₂ ++ (leBytes 2 d₃ ++ d₄))
  | .dateTime, .scalar n => leBytes 8 n
  | .timeSpan, .scalar n => leBytes 8 n
  | .dateTimeOffset, .pair (.scalar o) (.scalar d) =>
      leBytes 2 o ++ (List.replicate 6 0 ++ leBytes 8 d)
  | .decimal, .bytes bs => bs
  | .half, .scalar n => leBytes 2 n
  | .int128, .pair (.scalar l) (.scalar h) => leBytes 8 l ++ leBytes 8 h
  | .uint128, .pair (.scalar l) (.scalar h) => leBytes 8 l ++ leBytes 8 h
  | _, _ => []

def encodeUnmanaged (u : Unmanaged) (memory : List UInt8) : List UInt8 :=
  match u.scrubbed with
  | none => memory
  | some members => Writer.scrub u.size members memory

/-- C# `Nullable<T>`, empty or not. -/
def encodeNullable : Ty → Option Val → List UInt8
  | .scalar s, v => Writer.nullableBuffer s.size s.size (v.map fun x => leBytes s.size x.bits)
  | .unmanaged u, v => Writer.nullableBuffer u.align u.size (v.map Val.memory)
  | _, _ => []

/-- The null of each encoding. -/
def encodeNull (t : Ty) : List UInt8 :=
  match wireNullEncoding t with
  | .nullableValue => encodeNullable t none
  | .string => le32 (-1)
  | .collection => le32 nullCollection
  | .object => [nullObject]

def encodeVarInt (n : Nat) : List UInt8 :=
  if n ≤ varintMaxSingle.toNat then [UInt8.ofNat n]
  else if n ≤ 0xFFFF then varintUint16Tag :: leBytes 2 n
  else varintUint32Tag :: leBytes 4 n

/-- `[count][length of each member][members]`. -/
def encodeVersionTolerant (members : List (List UInt8)) : List UInt8 :=
  UInt8.ofNat members.length ::
    ((members.flatMap fun bs => encodeVarInt bs.length) ++ members.flatten)

/-! ## Values -/

mutual
/-- The encoding of a value of type `t`. -/
def encode (S : Schema) : Ty → Val → List UInt8
  | .scalar s, .scalar n => encodeScalar s n
  | .string, .bytes bs => encodeString bs
  | .u16string, .units us => encodeUtf16 us
  | .vector t, .seq vs => encodeCounted (encodeEach S t vs)
  | .sequence _ t, .seq vs => encodeCounted (encodeEach S t vs)
  | .array _ t, .seq vs => encodeCounted (encodeEach S t vs)
  | .set _ t, .seq vs => encodeCounted (encodeEach S t vs)
  | .map _ k t, .seq vs => encodeCounted (encodeEach S (.pair k t) vs)
  | .pair a b, .pair x y => encode S a x ++ encode S b y
  | .tuple ts, .seq vs => UInt8.ofNat ts.length :: (encodeMembers S ts vs).flatten
  | .optional t, .none => encodeNull t
  | .optional t, .some v =>
      match wireNullEncoding t with
      | .nullableValue => encodeNullable t (some v)
      | _ => encode S t v
  | .pointer _ _, .none => [nullObject]
  | .pointer _ t, .some v => encode S t v
  | .variant tags ts, .alt i v => encodeTag (tags.getD i 0) ++ encode S (ts.getD i .string) v
  | .dotNet d, v => encodeDotNet d v
  | .unmanaged u, .bytes bs => encodeUnmanaged u bs
  | .object i, .seq vs =>
      match (S.decl i).kind with
      | .define =>
          UInt8.ofNat (S.decl i).members.length ::
            (encodeMembers S (S.decl i).members vs).flatten
      | .defineEmpty => [0]
      | .versionTolerant => encodeVersionTolerant (encodeMembers S (S.decl i).members vs)
  | _, _ => []

def encodeEach (S : Schema) (t : Ty) : List Val → List (List UInt8)
  | [] => []
  | v :: vs => encode S t v :: encodeEach S t vs

def encodeMembers (S : Schema) : List Ty → List Val → List (List UInt8)
  | t :: ts, v :: vs => encode S t v :: encodeMembers S ts vs
  | _, _ => []
end

theorem encodeEach_eq (S : Schema) (t : Ty) : ∀ vs, encodeEach S t vs = vs.map (encode S t)
  | [] => rfl
  | v :: vs => by rw [encodeEach, encodeEach_eq S t vs, List.map_cons]

/-! ## The values that have an encoding -/

/-- The largest length a collection or string may have. -/
def maxLength : Nat := 0x7FFFFFFF

def Scalar.Holds : Scalar → Nat → Prop
  | .bool, n => n < 2
  | s, n => n < 256 ^ s.size

def DotNet.Holds : DotNet → Val → Prop
  | .guid, .seq [.scalar d₁, .scalar d₂, .scalar d₃, .bytes d₄] =>
      d₁ < 256 ^ 4 ∧ d₂ < 256 ^ 2 ∧ d₃ < 256 ^ 2 ∧ d₄.length = 8
  | .dateTime, .scalar n => n < 256 ^ 8
  | .timeSpan, .scalar n => n < 256 ^ 8
  | .dateTimeOffset, .pair (.scalar o) (.scalar d) => o < 256 ^ 2 ∧ d < 256 ^ 8
  | .decimal, .bytes bs => bs.length = 16
  | .half, .scalar n => n < 256 ^ 2
  | .int128, .pair (.scalar l) (.scalar h) => l < 256 ^ 8 ∧ h < 256 ^ 8
  | .uint128, .pair (.scalar l) (.scalar h) => l < 256 ^ 8 ∧ h < 256 ^ 8
  | _, _ => False

/-- The contents of a set or map: strictly increasing keys, or keys no two of which
are equal. -/
def KeysOk (S : Schema) (o : Order) (keyTy : Ty) (key : Val → Val) (vs : List Val) : Prop :=
  match o with
  | .ordered => vs.Pairwise fun x y => S.less keyTy (key x) (key y) = true
  | .unordered => vs.Pairwise fun x y => S.equal keyTy (key x) (key y) = false

mutual
def Encodable (S : Schema) : Ty → Val → Prop
  | .scalar s, .scalar n => s.Holds n
  | .string, .bytes bs => bs.length ≤ maxLength
  | .u16string, .units us => wellFormedUtf16 us = true ∧ us.length ≤ maxLength
  | .vector t, .seq vs => vs.length ≤ maxLength ∧ EncodableEach S t vs
  | .sequence _ t, .seq vs => vs.length ≤ maxLength ∧ EncodableEach S t vs
  | .array n t, .seq vs => vs.length ≤ maxLength ∧ EncodableEach S t vs ∧ vs.length = n
  | .set o t, .seq vs => vs.length ≤ maxLength ∧ EncodableEach S t vs ∧ KeysOk S o t id vs
  | .map o k t, .seq vs =>
      vs.length ≤ maxLength ∧ EncodableEach S (.pair k t) vs ∧ KeysOk S o k Val.fst vs
  | .pair a b, .pair x y => Encodable S a x ∧ Encodable S b y
  | .tuple ts, .seq vs => ts.length ≤ 249 ∧ EncodableMembers S ts vs
  | .optional _, .none => True
  | .optional t, .some v => Encodable S t v
  | .pointer _ _, .none => True
  | .pointer _ t, .some v => Encodable S t v
  | .variant tags ts, .alt i v =>
      (tags.Nodup ∧ tags.length = ts.length ∧ i < ts.length) ∧
        Encodable S (ts.getD i .string) v
  | .dotNet d, v => d.Holds v
  | .unmanaged u, .bytes bs => bs.length = u.size
  | .object i, .seq vs =>
      EncodableMembers S (S.decl i).members vs ∧
        ((S.decl i).kind = .versionTolerant → (S.decl i).members.length ≤ 249 ∧
          ∀ bs ∈ encodeMembers S (S.decl i).members vs, bs.length < 2 ^ 32)
  | _, _ => False

def EncodableEach (S : Schema) (t : Ty) : List Val → Prop
  | [] => True
  | v :: vs => Encodable S t v ∧ EncodableEach S t vs

def EncodableMembers (S : Schema) : List Ty → List Val → Prop
  | [], [] => True
  | t :: ts, v :: vs => Encodable S t v ∧ EncodableMembers S ts vs
  | _, _ => False
end

theorem encodableEach_iff {S : Schema} {t : Ty} : ∀ {vs : List Val},
    EncodableEach S t vs ↔ ∀ v ∈ vs, Encodable S t v
  | [] => by simp [EncodableEach]
  | v :: vs => by rw [EncodableEach, encodableEach_iff, List.forall_mem_cons]

theorem EncodableMembers.length_eq {S : Schema} : ∀ {ts : List Ty} {vs : List Val},
    EncodableMembers S ts vs → ts.length = vs.length
  | [], [], _ => rfl
  | t :: ts, v :: vs, h => by
      rw [EncodableMembers] at h
      rw [List.length_cons, List.length_cons, h.2.length_eq]

theorem length_encodeMembers {S : Schema} : ∀ {ts : List Ty} {vs : List Val},
    EncodableMembers S ts vs → (encodeMembers S ts vs).length = ts.length
  | [], [], _ => rfl
  | t :: ts, v :: vs, h => by
      rw [EncodableMembers] at h
      rw [encodeMembers, List.length_cons, List.length_cons, length_encodeMembers h.2]

/-! ## Scalars as words -/

theorem encodeScalar_eq {s : Scalar} {n : Nat} (h : s.Holds n) :
    encodeScalar s n = leBytes s.size n := by
  cases s with
  | bool =>
      have hn : n = 0 ∨ n = 1 := by
        have h2 : n < 2 := h
        omega
      rcases hn with rfl | rfl <;> rfl
  | _ => rfl

theorem Scalar.Holds.lt {s : Scalar} {n : Nat} (h : s.Holds n) : n < 256 ^ s.size := by
  cases s with
  | bool => exact Nat.lt_of_lt_of_le h (by decide)
  | _ => exact h

theorem encodable_scalar {S : Schema} {s : Scalar} {v : Val} (h : Encodable S (.scalar s) v) :
    ∃ n, v = .scalar n ∧ s.Holds n := by
  cases v with
  | scalar n => exact ⟨n, rfl, h⟩
  | _ => simp [Encodable] at h

/-- A range of scalars is the range of their encodings. -/
theorem encodeEach_scalar {S : Schema} {s : Scalar} {vs : List Val}
    (h : ∀ v ∈ vs, Encodable S (.scalar s) v) :
    encodeEach S (.scalar s) vs = (vs.map Val.bits).map (leBytes s.size) := by
  rw [encodeEach_eq, List.map_map]
  apply List.map_congr_left
  intro v hv
  obtain ⟨n, rfl, hn⟩ := encodable_scalar (h v hv)
  exact encodeScalar_eq hn

/-! ## Null markers -/

/-- The encoding starts with the byte that stands for a null object. -/
def StartsNull (bs : List UInt8) : Prop := bs.head? = some nullObject

instance (bs : List UInt8) : Decidable (StartsNull bs) :=
  inferInstanceAs (Decidable (bs.head? = some nullObject))

mutual
/-- Every present value whose null would be the one byte `nullObject` starts with
another byte, and the padding of every struct that is scrubbed is zero. -/
def Recoverable (S : Schema) : Ty → Val → Prop
  | .vector t, .seq vs => RecoverableEach S t vs
  | .sequence _ t, .seq vs => RecoverableEach S t vs
  | .array _ t, .seq vs => RecoverableEach S t vs
  | .set _ t, .seq vs => RecoverableEach S t vs
  | .map _ k t, .seq vs => RecoverableEach S (.pair k t) vs
  | .pair a b, .pair x y => Recoverable S a x ∧ Recoverable S b y
  | .tuple ts, .seq vs => RecoverableMembers S ts vs
  | .optional t, .some v =>
      -- a `Nullable<T>` is a copy of the value's memory
      (wireNullEncoding t ≠ .nullableValue → Recoverable S t v) ∧
        (wireNullEncoding t = .object → ¬ StartsNull (encode S t v))
  | .pointer _ t, .some v => Recoverable S t v ∧ ¬ StartsNull (encode S t v)
  | .variant _ ts, .alt i v => Recoverable S (ts.getD i .string) v
  | .unmanaged u, .bytes bs => encodeUnmanaged u bs = bs
  | .object i, .seq vs => RecoverableMembers S (S.decl i).members vs
  | _, _ => True

def RecoverableEach (S : Schema) (t : Ty) : List Val → Prop
  | [] => True
  | v :: vs => Recoverable S t v ∧ RecoverableEach S t vs

def RecoverableMembers (S : Schema) : List Ty → List Val → Prop
  | t :: ts, v :: vs => Recoverable S t v ∧ RecoverableMembers S ts vs
  | _, _ => True
end

/-! ## Nesting -/

mutual
/-- How deep `MEMORYPACK_DEFINE` bodies nest while the value is read. -/
def nest (S : Schema) : Ty → Val → Nat
  | .vector t, .seq vs => nestEach S t vs
  | .sequence _ t, .seq vs => nestEach S t vs
  | .array _ t, .seq vs => nestEach S t vs
  | .set _ t, .seq vs => nestEach S t vs
  | .map _ k t, .seq vs => nestEach S (.pair k t) vs
  | .pair a b, .pair x y => max (nest S a x) (nest S b y)
  | .tuple ts, .seq vs => nestMembers S ts vs
  | .optional t, .some v => nest S t v
  | .pointer _ t, .some v => nest S t v
  | .variant _ ts, .alt i v => nest S (ts.getD i .string) v
  | .object i, .seq vs =>
      match (S.decl i).kind with
      | .define => nestMembers S (S.decl i).members vs + 1
      | .defineEmpty => 0
      | .versionTolerant => nestMembers S (S.decl i).members vs
  | _, _ => 0

def nestEach (S : Schema) (t : Ty) : List Val → Nat
  | [] => 0
  | v :: vs => max (nest S t v) (nestEach S t vs)

def nestMembers (S : Schema) : List Ty → List Val → Nat
  | t :: ts, v :: vs => max (nest S t v) (nestMembers S ts vs)
  | _, _ => 0
end

end MemoryPack
