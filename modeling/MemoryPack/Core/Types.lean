import Mathlib.Algebra.Group.Nat.Defs
import Mathlib.Data.List.Basic

/-!
# Wire constants, builds, C++ types and their values

The codec is a family of C++ templates, so "every type of the codec" is a
grammar: `Ty` lists the types `MemoryPackFormatter` is specialised for, `Val` the
values they hold. User types (`MEMORYPACK_DEFINE`, `VersionTolerant`) are entries
of a `Schema` and are referred to by number, which is what lets them be recursive
through containers and pointers.

A scalar is its bit pattern, an unmanaged struct its bytes in memory; floats are
therefore compared as bits. `Build` collects what the preprocessor and the target
fix: whether `Fail` throws, the host byte order and the width of `size_t`; and what
nobody fixes, the contents of a variable that is read before it is set.
-/

namespace MemoryPack

/-! ## Wire format constants (core.hpp) -/

/-- Object header value meaning "this object is null". -/
def nullObject : UInt8 := 255
/-- Union header value meaning "a uint16 tag follows". -/
def wideTag : UInt8 := 250
/-- Highest member count an object header may carry. -/
def maxMemberCount : UInt8 := 249
/-- Collection header value meaning "this collection is null". -/
def nullCollection : Int := -1

def varintMaxSingle : UInt8 := 127
def varintUint16Tag : UInt8 := 0x84
def varintUint32Tag : UInt8 := 0x82

inductive MemoryPackError where
  | none
  | bufferUnderflow
  | bufferOverflow
  | invalidHeader
  | lengthLimit
  | invalidString
  | trailingBytes
  | notSupported
deriving DecidableEq, Repr

/-! ## Builds -/

inductive Endian where
  | little
  | big
deriving DecidableEq, Repr

/-- The width of `size_t`. -/
inductive SizeWidth where
  | w32
  | w64
deriving DecidableEq, Repr

def SizeWidth.bits : SizeWidth → Nat
  | .w32 => 32
  | .w64 => 64

structure Build where
  /-- `MEMORYPACK_HAS_EXCEPTIONS`. -/
  exceptions : Bool
  endian : Endian
  size : SizeWidth
  /-- what an uninitialised `uint64_t` happens to hold -/
  stack : UInt64
deriving DecidableEq, Repr

/-- One past the largest `size_t`. -/
def Build.sizeMod (B : Build) : Nat := 2 ^ B.size.bits

structure ReaderOptions where
  maxCollectionLength : UInt32 := 0xFFFFFFFF
  maxStringLength : UInt32 := 0xFFFFFFFF
  maxDepth : UInt32 := 256
deriving DecidableEq, Repr

/-! ## Scalars, .NET value types, unmanaged structs -/

inductive Width where
  | w1 | w2 | w4 | w8
deriving DecidableEq, Repr

def Width.bytes : Width → Nat
  | .w1 => 1
  | .w2 => 2
  | .w4 => 4
  | .w8 => 8

theorem Width.bytes_pos (w : Width) : 0 < w.bytes := by cases w <;> decide

/-- Arithmetic and enum types. -/
inductive Scalar where
  | bool
  | int (signed : Bool) (w : Width)
  | float
  | double
  | enum (signed : Bool) (w : Width)
deriving DecidableEq, Repr

def Scalar.width : Scalar → Width
  | .bool => .w1
  | .int _ w => w
  | .float => .w4
  | .double => .w8
  | .enum _ w => w

/-- `sizeof(T)`; scalars are naturally aligned, so also `alignof(T)`. -/
def Scalar.size (s : Scalar) : Nat := s.width.bytes

/-- `std::is_arithmetic_v<T>`. -/
def Scalar.isArithmetic : Scalar → Bool
  | .enum _ _ => false
  | _ => true

theorem Scalar.size_pos (s : Scalar) : 0 < s.size := s.width.bytes_pos

theorem Scalar.size_le (s : Scalar) : s.size ≤ 8 := by
  unfold Scalar.size
  cases s.width <;> decide

/-- The classes of dotnet.hpp with a formatter of their own. -/
inductive DotNet where
  | guid | dateTime | timeSpan | dateTimeOffset | decimal | half | int128 | uint128
deriving DecidableEq, Repr

/-- A trivially copyable struct registered with one of the `MEMORYPACK_UNMANAGED`
macros. `scrubbed` holds the offset and size of each listed member when the
registration is `MEMORYPACK_UNMANAGED_SCRUBBED`; `init` is `T{}`. -/
structure Unmanaged where
  size : Nat
  align : Nat
  scrubbed : Option (List (Nat × Nat))
  init : List UInt8
  size_pos : 0 < size
  align_pos : 0 < align
  length_init : init.length = size
deriving DecidableEq

/-! ## Types -/

/-- `std::deque` and `std::list`: sequences without contiguous storage. -/
inductive SeqKind where
  | deque | list
deriving DecidableEq, Repr

/-- `std::set` / `std::map` against their `unordered_` forms. -/
inductive Order where
  | ordered | unordered
deriving DecidableEq, Repr

inductive PtrKind where
  | unique | shared
deriving DecidableEq, Repr

/-- The types `Write<T>` / `Read<T>` dispatch on. A variant carries the
`MemoryPackUnionTag` of each alternative; an object is a `Schema` entry. -/
inductive Ty where
  | scalar (s : Scalar)
  | string
  | u16string
  | vector (t : Ty)
  | sequence (k : SeqKind) (t : Ty)
  | array (n : Nat) (t : Ty)
  | set (o : Order) (t : Ty)
  | map (o : Order) (k v : Ty)
  | pair (a b : Ty)
  | tuple (ts : List Ty)
  | optional (t : Ty)
  | pointer (p : PtrKind) (t : Ty)
  | variant (tags : List UInt16) (ts : List Ty)
  | dotNet (d : DotNet)
  | unmanaged (u : Unmanaged)
  | object (i : Nat)

/-- Induction over a type, with the hypothesis for every item of a tuple and every
alternative of a variant. -/
@[elab_as_elim, induction_eliminator]
theorem Ty.induct {P : Ty → Prop} (scalar : ∀ s, P (.scalar s)) (string : P .string)
    (u16string : P .u16string) (vector : ∀ t, P t → P (.vector t))
    (sequence : ∀ k t, P t → P (.sequence k t)) (array : ∀ n t, P t → P (.array n t))
    (set : ∀ o t, P t → P (.set o t)) (map : ∀ o k v, P k → P v → P (.map o k v))
    (pair : ∀ a b, P a → P b → P (.pair a b))
    (tuple : ∀ ts, (∀ t ∈ ts, P t) → P (.tuple ts))
    (optional : ∀ t, P t → P (.optional t)) (pointer : ∀ p t, P t → P (.pointer p t))
    (variant : ∀ tags ts, (∀ t ∈ ts, P t) → P (.variant tags ts))
    (dotNet : ∀ d, P (.dotNet d)) (unmanaged : ∀ u, P (.unmanaged u))
    (object : ∀ i, P (.object i)) (t : Ty) : P t :=
  @Ty.rec P (fun ts => ∀ t ∈ ts, P t) scalar string u16string vector sequence array set map
    pair tuple optional pointer variant dotNet unmanaged object
    (fun _ h => absurd h List.not_mem_nil)
    (fun _ _ hu hus _ h => (List.mem_cons.mp h).elim (fun e => e ▸ hu) (hus _)) t

/-! ## Parts of a type -/

mutual
/-- A type and all the types it is built from. -/
def Ty.parts : Ty → List Ty
  | .vector t => .vector t :: t.parts
  | .sequence k t => .sequence k t :: t.parts
  | .array n t => .array n t :: t.parts
  | .set o t => .set o t :: t.parts
  | .map o k v => .map o k v :: (k.parts ++ v.parts)
  | .pair a b => .pair a b :: (a.parts ++ b.parts)
  | .tuple ts => .tuple ts :: Ty.partsList ts
  | .optional t => .optional t :: t.parts
  | .pointer p t => .pointer p t :: t.parts
  | .variant tags ts => .variant tags ts :: Ty.partsList ts
  | t => [t]

def Ty.partsList : List Ty → List Ty
  | [] => []
  | t :: ts => t.parts ++ Ty.partsList ts
end

theorem Ty.parts_subset_partsList {t : Ty} :
    ∀ {ts : List Ty}, t ∈ ts → t.parts ⊆ Ty.partsList ts
  | u :: us, h => by
      rw [Ty.partsList]
      rcases List.mem_cons.mp h with rfl | h
      · exact List.subset_append_left _ _
      · exact fun x hx => List.mem_append_right _ (Ty.parts_subset_partsList h hx)

theorem Ty.mem_parts (t : Ty) : t ∈ t.parts := by
  cases t <;> simp [Ty.parts]

/-- Every part of the type satisfies `A`. -/
def Ty.PartsIn (A : Ty → Prop) (t : Ty) : Prop := ∀ u ∈ t.parts, A u

theorem Ty.PartsIn.self {A : Ty → Prop} {t : Ty} (h : t.PartsIn A) : A t := h t t.mem_parts

theorem Ty.PartsIn.of_subset {A : Ty → Prop} {t u : Ty} (h : t.PartsIn A)
    (hu : u.parts ⊆ t.parts) : u.PartsIn A := fun x hx => h x (hu hx)

theorem Ty.PartsIn.of_item {A : Ty → Prop} {t : Ty} {ts : List Ty} (h : (Ty.tuple ts).PartsIn A)
    (ht : t ∈ ts) : t.PartsIn A :=
  h.of_subset fun _ hu => List.mem_cons_of_mem _ (Ty.parts_subset_partsList ht hu)

theorem Ty.PartsIn.of_alternative {A : Ty → Prop} {t : Ty} {tags : List UInt16} {ts : List Ty}
    (h : (Ty.variant tags ts).PartsIn A) (ht : t ∈ ts) : t.PartsIn A :=
  h.of_subset fun _ hu => List.mem_cons_of_mem _ (Ty.parts_subset_partsList ht hu)

/-- The `std::array` sizes of arithmetic elements that occur in a type. -/
def Ty.ArraysIn (A : Nat → Nat → Prop) (t : Ty) : Prop :=
  ∀ n s, Ty.array n (.scalar s) ∈ t.parts → A n s.size

/-- A condition on the size of one `std::array`. -/
def Ty.ArrayIs (A : Nat → Nat → Prop) (t : Ty) : Prop :=
  ∀ n s, t = .array n (.scalar s) → A n s.size

theorem Ty.ArraysIn.partsIn {A : Nat → Nat → Prop} {t : Ty} (h : t.ArraysIn A) :
    t.PartsIn (Ty.ArrayIs A) := by
  rintro u hu n s rfl
  exact h n s hu

/-- The element type of every `std::optional` that occurs in the type satisfies `A`. -/
def Ty.OptionalsIn (A : Ty → Prop) (t : Ty) : Prop := ∀ u, Ty.optional u ∈ t.parts → A u

theorem Ty.OptionalsIn.of_subset {A : Ty → Prop} {t u : Ty} (h : t.OptionalsIn A)
    (hu : u.parts ⊆ t.parts) : u.OptionalsIn A := fun x hx => h x (hu hx)

theorem Ty.OptionalsIn.of_mem {A : Ty → Prop} {t u : Ty} {ts : List Ty} (h : t.OptionalsIn A)
    (hts : Ty.partsList ts ⊆ t.parts) (hu : u ∈ ts) : u.OptionalsIn A :=
  h.of_subset fun _ hx => hts (Ty.parts_subset_partsList hu hx)

theorem Ty.OptionalsIn.partsIn {A : Ty → Prop} {t : Ty} (h : t.OptionalsIn A) :
    t.PartsIn fun u => ∀ x, u = .optional x → A x := by
  rintro u hu x rfl
  exact h x hu

/-! ## Null encodings -/

/-- How a null value of `T` is spelled on the wire. -/
inductive NullEncoding where
  | object
  | collection
  | string
  | nullableValue
deriving DecidableEq, Repr

/-- `WireNullEncoding<T>`: everything without a specialisation of its own is an
object unless it is arithmetic, an enum or an unmanaged struct. -/
def wireNullEncoding : Ty → NullEncoding
  | .scalar _ => .nullableValue
  | .unmanaged _ => .nullableValue
  | .string => .string
  | .u16string => .string
  | .vector _ => .collection
  | .sequence _ _ => .collection
  | .set _ _ => .collection
  | .map _ _ _ => .collection
  | _ => .object

/-- `NullableLayout<T>::Size` of C# `Nullable<T>`; the value sits at offset
`alignof(T)`. -/
def nullableSize (align size : Nat) : Nat := (align + size + align - 1) / align * align

theorem size_le_nullableSize {align : Nat} (h : 0 < align) (size : Nat) :
    align + size ≤ nullableSize align size := by
  unfold nullableSize
  have hdiv := Nat.div_add_mod (align + size + align - 1) align
  have hmod := Nat.mod_lt (align + size + align - 1) h
  rw [Nat.mul_comm] at hdiv
  omega

/-! ## Values -/

inductive Val where
  /-- arithmetic and enum types: the bit pattern -/
  | scalar (n : Nat)
  /-- `std::string` contents, unmanaged struct memory -/
  | bytes (bs : List UInt8)
  /-- `std::u16string` contents -/
  | units (us : List UInt16)
  /-- containers in iteration order (a map holds pairs), tuple items, object members -/
  | seq (vs : List Val)
  | pair (a b : Val)
  /-- an empty `std::optional` or a null pointer -/
  | none
  | some (v : Val)
  /-- a `std::variant` holding its `i`-th alternative -/
  | alt (i : Nat) (v : Val)

@[elab_as_elim, induction_eliminator]
theorem Val.induct {P : Val → Prop} (scalar : ∀ n, P (.scalar n))
    (bytes : ∀ bs, P (.bytes bs)) (units : ∀ us, P (.units us))
    (seq : ∀ vs, (∀ v ∈ vs, P v) → P (.seq vs)) (pair : ∀ a b, P a → P b → P (.pair a b))
    (none : P .none) (some : ∀ v, P v → P (.some v)) (alt : ∀ i v, P v → P (.alt i v))
    (v : Val) : P v :=
  @Val.rec P (fun vs => ∀ v ∈ vs, P v) scalar bytes units seq pair none some alt
    (fun _ h => absurd h List.not_mem_nil)
    (fun _ _ hu hus _ h => (List.mem_cons.mp h).elim (fun e => e ▸ hu) (hus _)) v

/-- The parts of a composite value. -/
def Val.items : Val → List Val
  | .seq vs => vs
  | _ => []

def Val.fst : Val → Val
  | .pair a _ => a
  | v => v

def Val.snd : Val → Val
  | .pair _ b => b
  | v => v

/-! ## User types -/

inductive DeclKind where
  /-- `MEMORYPACK_DEFINE` -/
  | define
  /-- `MEMORYPACK_DEFINE_EMPTY` -/
  | defineEmpty
  /-- `IMemoryPackable` over `VersionTolerantWriter` / `VersionTolerantReader`, in the
  form serialization.md shows and cs2cpp generates -/
  | versionTolerant
deriving DecidableEq, Repr

/-- A user type: its members in declaration order and the contents of `T{}`. -/
structure Decl where
  kind : DeclKind
  members : List Ty
  init : List Val
  length_init : init.length = members.length
  /-- the `static_assert` of `MEMORYPACK_DEFINE` -/
  count_le : kind = .define → members.length ≤ 249
  empty : kind = .defineEmpty → members = []

/-- The user types of a program, and the `operator<` and `operator==` of its key
types. -/
structure Schema where
  decl : Nat → Decl
  less : Ty → Val → Val → Bool
  equal : Ty → Val → Val → Bool

/-- A program without user types, whose keys are compared as unsigned numbers. -/
def Schema.plain : Schema where
  decl := fun _ => ⟨.defineEmpty, [], [], rfl, by simp, fun _ => rfl⟩
  less := fun _ x y => match x, y with
    | .scalar a, .scalar b => a < b
    | _, _ => false
  equal := fun _ x y => match x, y with
    | .scalar a, .scalar b => a = b
    | _, _ => false

/-- No user type of the schema is VersionTolerant. -/
def Schema.NoVersionTolerant (S : Schema) : Prop :=
  ∀ i, (S.decl i).kind ≠ .versionTolerant

/-- `T{}` for the .NET value types: every field zero. -/
def DotNet.init : DotNet → Val
  | .guid => .seq [.scalar 0, .scalar 0, .scalar 0, .bytes (List.replicate 8 0)]
  | .dateTime => .scalar 0
  | .timeSpan => .scalar 0
  | .dateTimeOffset => .pair (.scalar 0) (.scalar 0)
  | .decimal => .bytes (List.replicate 16 0)
  | .half => .scalar 0
  | .int128 => .pair (.scalar 0) (.scalar 0)
  | .uint128 => .pair (.scalar 0) (.scalar 0)

mutual
/-- `T{}`: a variant value-initialises its first alternative. -/
def Schema.init (S : Schema) : Ty → Val
  | .scalar _ => .scalar 0
  | .string => .bytes []
  | .u16string => .units []
  | .vector _ => .seq []
  | .sequence _ _ => .seq []
  | .array n t => .seq (List.replicate n (S.init t))
  | .set _ _ => .seq []
  | .map _ _ _ => .seq []
  | .pair a b => .pair (S.init a) (S.init b)
  | .tuple ts => .seq (S.inits ts)
  | .optional _ => .none
  | .pointer _ _ => .none
  | .variant _ ts => .alt 0 ((S.inits ts).headD .none)
  | .dotNet d => d.init
  | .unmanaged u => .bytes u.init
  | .object i => .seq (S.decl i).init

def Schema.inits (S : Schema) : List Ty → List Val
  | [] => []
  | t :: ts => S.init t :: S.inits ts
end

end MemoryPack
