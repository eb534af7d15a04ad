import MemoryPack.Cs2Cpp.Leaks
import MemoryPack.Cs2Cpp.SchemaHash
import MemoryPack.Cs2Cpp.UnmanagedLayout
import MemoryPack.Wire.RoundTrip

/-!
# The program that a generated header is

What a header makes of the library: its structs with a serializer are the user types of a
program, with the numbers that they have in the order of declarations, and every C++ type of
the header is a type that `Write` knows. A header of either style is the same program:
`EmitExplicit` spells the calls out that `MEMORYPACK_DEFINE` makes, with the same bytes
(`serializeBody_emits`).
-/

namespace MemoryPack.Cs2Cpp

open Layout Effect

/-! ## Types of the library -/

def builtinScalars : List (String × Scalar) :=
  [("bool", .bool), ("uint8_t", .int false .w1), ("int8_t", .int true .w1),
    ("int16_t", .int true .w2), ("uint16_t", .int false .w2), ("int32_t", .int true .w4),
    ("uint32_t", .int false .w4), ("int64_t", .int true .w8), ("uint64_t", .int false .w8),
    ("float", .float), ("double", .double), ("char16_t", .int false .w2)]

/-- The classes of dotnet.hpp that have a formatter. -/
def dotNetClasses : List (String × DotNet) :=
  [("memorypack::Guid", .guid), ("memorypack::DateTime", .dateTime),
    ("memorypack::TimeSpan", .timeSpan), ("memorypack::DateTimeOffset", .dateTimeOffset),
    ("memorypack::Decimal", .decimal), ("memorypack::Half", .half),
    ("memorypack::Int128", .int128), ("memorypack::UInt128", .uint128)]

/-- The structs that dotnet.hpp registers. -/
def dotNetStructs : List Registration :=
  [⟨.exact, "memorypack::Vector2", 8, ["x", "y"]⟩,
    ⟨.exact, "memorypack::Vector3", 12, ["x", "y", "z"]⟩,
    ⟨.exact, "memorypack::Vector4", 16, ["x", "y", "z", "w"]⟩,
    ⟨.exact, "memorypack::Quaternion", 16, ["x", "y", "z", "w"]⟩]

/-- A registered struct, if it has the size that the registration asserts. -/
def Registration.ty (r : Registration) (shape : Option Shape) : Option Ty :=
  match shape with
  | some (.struct pack1 ms) =>
      if (Shape.struct pack1 ms).size = r.size then some (.unmanaged (r.unmanaged pack1 ms))
      else none
  | _ => none

def builtinTy (name : String) : Option Ty :=
  match builtinScalars.lookup name with
  | some s => some (.scalar s)
  | none =>
    if name = "std::string" then some .string
    else
      match dotNetClasses.lookup name with
      | some d => some (.dotNet d)
      | none => (dotNetStructs.find? fun r => r.type = name).bind fun r => r.ty (builtinShape name)

/-- An `enum class` with its underlying type. -/
def enumTy (e : EnumDef) : Option Ty :=
  match builtinScalars.lookup e.cppBaseType with
  | some (.int signed w) => some (.scalar (.enum signed w))
  | _ => none

/-- The alternatives in the order of `EmitUnionAlias`. -/
def UnionDef.ordered (u : UnionDef) : List (Int × String) :=
  u.alternatives.mergeSort fun a b => decide (a.1 ≤ b.1)

def alternativeTys (named : String → Option Ty) : List (Int × String) → Option (List Ty)
  | [] => some []
  | a :: as => do
      let t ← named a.2
      let ts ← alternativeTys named as
      return t :: ts

/-- `std::variant`, with the tags of `MEMORYPACK_UNION_TAG`. -/
def unionTy (named : String → Option Ty) (u : UnionDef) : Option Ty :=
  (alternativeTys named u.ordered).map (.variant (u.ordered.map fun a => UInt16.ofInt a.1))

namespace CppGenerator

variable (g : CppGenerator)

/-- The place of a struct among the structs of the header. -/
def number (name : String) : Option Nat := g.orderedTypes.findIdx? fun t => t.name = name

/-- A registered struct, or one with a serializer of its own. -/
def typeTy (t : PackableType) : Option Ty :=
  if t.isUnmanaged then
    (emitUnmanaged t).ty (g.schema.shape g.schema.types.length (.named t.name))
  else (g.number t.name).map .object

/-- What a name of the C# source is in the header, with unions nested `n` deep at most. -/
def namedTy : Nat → String → Option Ty
  | n, name =>
    match g.schema.enumByName name with
    | some e => enumTy e
    | none =>
      match g.schema.typeByName name with
      | some t => g.typeTy t
      | none =>
        match n with
        | 0 => none
        | n + 1 => (g.schema.unionByName name).bind (unionTy (namedTy n))

/-- The type of the library that a C++ type of the header is. -/
def ty : CppType → Option Ty
  | .builtin name => builtinTy name
  | .named name => g.namedTy g.schema.unions.length name
  | .optional t => (ty t).map .optional
  | .vector t => (ty t).map .vector
  | .map k v => do
      let k ← ty k
      let v ← ty v
      return .map .ordered k v
  | .set t => (ty t).map (.set .ordered)
  | .pair a b => do
      let a ← ty a
      let b ← ty b
      return .pair a b
  | .array t n => (ty t).map (.array n)

end CppGenerator

/-! ## User types -/

def PackableType.declKind (t : PackableType) : DeclKind :=
  if t.versionTolerant then .versionTolerant
  else if t.members.length = 0 then .defineEmpty
  else .define

/-- `P` is the program of the header: the struct with number `i` is its user type `i`. A C
array and its count are written as the vector that the member is in C#. -/
structure CppGenerator.CompilesTo (g : CppGenerator) (P : MemoryPack.Schema) : Prop where
  kind : ∀ i t, g.orderedTypes[i]? = some t → t.isUnmanaged = false →
    (P.decl i).kind = t.declKind
  members : ∀ i t, g.orderedTypes[i]? = some t → t.isUnmanaged = false →
    List.Forall₂ (fun m T => g.ty m.cppType = some T) t.members (P.decl i).members

/-! ## Serializers -/

/-- `*v` of an optional. -/
def present : Val → Option Val
  | .some v => some v
  | _ => none

/-- `RequiresExplicit`. -/
def PackableType.requiresExplicit (t : PackableType) : Bool :=
  t.versionTolerant || t.members.any fun m => m.annot.isSome

section Serializers

variable (P : MemoryPack.Schema)

/-- `SerializeExpr`: the call for one member, by its `EmitKind` and, where the call is a
template, by the type of the member. -/
def serializeExpr (e : EmitKind) (t : Ty) (v : Val) : WriteM Unit :=
  match e with
  | .generic => Writer.write P t v
  | .bool => Writer.writeBool v.bits
  | .int8 => Writer.writeInt8 v.bits
  | .uint8 => Writer.writeUInt8 v.bits
  | .int16 => Writer.writeInt16 v.bits
  | .uint16 => Writer.writeUInt16 v.bits
  | .int32 => Writer.writeInt32 v.bits
  | .uint32 => Writer.writeUInt32 v.bits
  | .int64 => Writer.writeInt64 v.bits
  | .uint64 => Writer.writeUInt64 v.bits
  | .float => Writer.writeFloat v.bits
  | .double => Writer.writeDouble v.bits
  | .string => Writer.writeString v.memory
  | .optionalString => Writer.writeOptionalString ((present v).map Val.memory)
  | .vectorArith =>
      match t with
      | .vector (.scalar .bool) => Writer.writeVectorBool (v.items.map Val.bits)
      | .vector (.scalar s) => Writer.writeVector s (v.items.map Val.bits)
      | _ => Writer.write P t v
  | .vectorString =>
      match t with
      | .vector .string => Writer.writeStringVector (v.items.map Val.memory)
      | _ => Writer.write P t v
  | .fixedArray =>
      match t with
      | .vector (.scalar s) => Writer.writeArrayPtr s (v.items.map Val.bits) v.items.length
      | _ => Writer.write P t v
  | .stdArray =>
      match t with
      | .array _ (.scalar s) => Writer.writeArray s (v.items.map Val.bits)
      | _ => Writer.write P t v

def serializeExprs : List MemberDef → List Ty → List Val → List (WriteM Unit)
  | m :: ms, t :: ts, v :: vs => serializeExpr P m.emit t v :: serializeExprs ms ts vs
  | _, _, _ => []

/-- The `Serialize` of `EmitExplicit`, for an object that is not null. -/
def explicitSerialize (t : PackableType) (ts : List Ty) (vs : List Val) : WriteM Unit :=
  if t.versionTolerant then VersionTolerantWriter.serialize (Writer.memberWrites P ts vs)
  else do
    Writer.writeObjectHeader (UInt8.ofNat t.members.length)
    Prog.runAll (serializeExprs P t.members ts vs)

/-- The `Serialize` of the macro that `EmitMacroDefine` writes. -/
def macroSerialize (t : PackableType) (ts : List Ty) (vs : List Val) : WriteM Unit :=
  if t.members.length = 0 then Writer.defineSerialize 0 []
  else Writer.defineSerialize t.members.length (Writer.memberWrites P ts vs)

/-- The `Serialize` that `EmitSerializers` chooses. -/
def CppGenerator.serializeBody (g : CppGenerator) (t : PackableType) (ts : List Ty)
    (vs : List Val) : WriteM Unit :=
  if g.options.style = .explicit || t.requiresExplicit then explicitSerialize P t ts vs
  else macroSerialize P t ts vs

/-- The write of a packet: by the `Serialize` of its struct, or as a registered struct. -/
def CppGenerator.writePacket (g : CppGenerator) (t : PackableType) (T : Ty) (v : Val) :
    WriteM Unit :=
  match T, v with
  | .object i, .seq vs => g.serializeBody P t (P.decl i).members vs
  | _, _ => Writer.write P T v

/-- `Serialize(packet)`, with the serializers of the header. -/
def CppGenerator.serializePacket (g : CppGenerator) (B : Build) (t : PackableType) (T : Ty)
    (v : Val) : Out MemoryPackError (List UInt8) :=
  ((do g.writePacket P t T v; Writer.takeBuffer : WriteM (List UInt8)) B {}).out

end Serializers

/-! ## The calls of a mapped member -/

/-- The scalar that a call without a template argument writes. -/
def EmitKind.scalar : EmitKind → Option Scalar
  | .bool => some .bool
  | .int8 => some (.int true .w1)
  | .uint8 => some (.int false .w1)
  | .int16 => some (.int true .w2)
  | .uint16 => some (.int false .w2)
  | .int32 => some (.int true .w4)
  | .uint32 => some (.int false .w4)
  | .int64 => some (.int true .w8)
  | .uint64 => some (.int false .w8)
  | .float => some .float
  | .double => some .double
  | _ => none

/-- A call without a template argument is made for its own type only. -/
structure EmitKind.Fits (e : EmitKind) (type : CppType) : Prop where
  scalar : ∀ s, e.scalar = some s →
    ∃ name, type = .builtin name ∧ builtinScalars.lookup name = some s
  string : e = .string → type = .builtin "std::string"
  optionalString : e = .optionalString → type = .optional (.builtin "std::string")

theorem EmitKind.fits_of_template {e : EmitKind} {type : CppType} (hscalar : e.scalar = none)
    (hstring : e ≠ .string) (hoptional : e ≠ .optionalString) : e.Fits type where
  scalar := by
    intro s hs
    rw [hscalar] at hs
    cases hs
  string := fun h => absurd h hstring
  optionalString := fun h => absurd h hoptional

theorem EmitKind.fits_generic (type : CppType) : EmitKind.generic.Fits type :=
  fits_of_template rfl (by decide) (by decide)

theorem EmitKind.fits_string : EmitKind.string.Fits (.builtin "std::string") :=
  ⟨by simp [EmitKind.scalar], fun _ => rfl, by simp⟩

namespace TypeMapper

variable {M : TypeMapper} {e : MappedType}

/-- The calls for arithmetic types are those of `ArithmeticEmit`. -/
theorem fits_arithmetic (prim : String) :
    ((arithmeticEmit.lookup prim).getD .generic).Fits (.builtin prim) := by
  cases hlookup : arithmeticEmit.lookup prim with
  | none => exact EmitKind.fits_generic _
  | some e =>
    obtain ⟨p, hp, hkey, rfl⟩ : ∃ p ∈ arithmeticEmit, p.1 = prim ∧ p.2 = e := by
      obtain ⟨l₁, l₂, heq, -⟩ := List.lookup_eq_some_iff.mp hlookup
      exact ⟨(prim, e), by rw [heq]; simp, rfl, rfl⟩
    have htable : ∀ p ∈ arithmeticEmit, p.2.scalar.isSome ∧
        builtinScalars.lookup p.1 = p.2.scalar ∧ p.2 ≠ .string ∧ p.2 ≠ .optionalString := by
      decide
    obtain ⟨-, hscalar, hstring, hoptional⟩ := htable p hp
    rw [Option.getD_some]
    refine ⟨fun s hs => ⟨prim, rfl, ?_⟩, fun h => absurd h hstring, fun h => absurd h hoptional⟩
    rw [← hkey, hscalar, hs]

theorem mapString_fits : M.mapString.emit.Fits M.mapString.cppType := by
  unfold mapString
  split
  · exact EmitKind.fits_string
  · exact ⟨by simp [EmitKind.scalar], by simp, fun _ => rfl⟩

theorem mapNamed_fits (name : String) (topLevel : Bool) :
    (M.mapNamed name topLevel).emit.Fits (M.mapNamed name topLevel).cppType := by
  unfold mapNamed
  split
  · exact EmitKind.fits_string
  split
  · exact fits_arithmetic _
  split
  · exact EmitKind.fits_generic _
  split
  · exact EmitKind.fits_generic _
  split
  · exact EmitKind.fits_generic _
  split <;> exact EmitKind.fits_generic _

theorem mapSequence_fits : (mapSequence e).emit.Fits (mapSequence e).cppType := by
  apply EmitKind.fits_of_template
  all_goals
    simp only [mapSequence, merge]
    split
    · decide
    · split <;> decide

theorem wrapOptional_fits (h : e.emit.Fits e.cppType) :
    (wrapOptional e).emit.Fits (wrapOptional e).cppType := by
  unfold wrapOptional
  split
  · exact h
  · exact EmitKind.fits_generic _

theorem mapNullable_fits {core : Bool → MappedType} (element : TypeSyntax) (topLevel : Bool)
    (h : ∀ topLevel, (core topLevel).emit.Fits (core topLevel).cppType) :
    (M.mapNullable element core topLevel).emit.Fits
      (M.mapNullable element core topLevel).cppType := by
  unfold mapNullable
  split
  · exact h topLevel
  · exact h topLevel
  · split
    · exact mapString_fits
    · exact wrapOptional_fits (h false)

theorem mapGeneric_fits (generic : TypeSyntax) (name : String) (topLevel : Bool)
    {args : List (TypeSyntax × (Bool → MappedType))}
    (h : ∀ arg ∈ args, ∀ topLevel, (arg.2 topLevel).emit.Fits (arg.2 topLevel).cppType) :
    (M.mapGeneric generic name topLevel args).emit.Fits
      (M.mapGeneric generic name topLevel args).cppType := by
  unfold mapGeneric
  split
  · split
    · exact mapNullable_fits _ _ (h _ List.mem_cons_self)
    split
    · exact mapSequence_fits
    split <;> exact EmitKind.fits_generic _
  · split
    · exact EmitKind.fits_generic _
    split <;> exact EmitKind.fits_generic _
  · exact EmitKind.fits_generic _

mutual
theorem mapCore_fits (t : TypeSyntax) (topLevel : Bool) :
    (M.mapCore t topLevel).emit.Fits (M.mapCore t topLevel).cppType := by
  match t with
  | .nullable element => exact mapNullable_fits element topLevel (mapCore_fits element)
  | .array element _ => exact mapSequence_fits
  | .generic name args => exact mapGeneric_fits _ name topLevel (mapArgs_fits args)
  | .qualified _ right => exact mapCore_fits right topLevel
  | .predefined _ | .identifier _ | .aliasQualified _ _ | .other _ =>
    exact mapNamed_fits _ topLevel

theorem mapArgs_fits (args : List TypeSyntax) :
    ∀ arg ∈ M.mapArgs args, ∀ topLevel, (arg.2 topLevel).emit.Fits (arg.2 topLevel).cppType := by
  match args with
  | [] => simp [mapArgs]
  | arg :: args =>
    rw [mapArgs]
    exact List.forall_mem_cons.mpr ⟨mapCore_fits arg, mapArgs_fits args⟩
end

theorem map_fits (type : TypeSyntax) (annot : Option CppAnnot) :
    (M.map type annot).emit.Fits (M.map type annot).cppType := by
  have hcore := mapCore_fits (M := M) type true
  have htemplate : ∀ type, EmitKind.fixedArray.Fits type ∧ EmitKind.stdArray.Fits type :=
    fun type => ⟨EmitKind.fits_of_template rfl (by decide) (by decide),
      EmitKind.fits_of_template rfl (by decide) (by decide)⟩
  unfold map
  split
  · exact hcore
  · dsimp only
    split
    · exact hcore
    · exact (htemplate _).1
  · dsimp only
    split
    · exact (htemplate _).2
    · exact hcore

end TypeMapper

/-! ## Both styles emit the encoding -/

section Emission

open Emits

variable {P : MemoryPack.Schema} {g : CppGenerator} {B : Build} {e : EmitKind} {t : Ty}
  {type : CppType} {v : Val} {vs : List Val} {s : Scalar}

theorem ty_of_scalar (h : e.Fits type) (hs : e.scalar = some s) (ht : g.ty type = some t) :
    t = .scalar s := by
  obtain ⟨name, rfl, hlookup⟩ := h.scalar s hs
  rw [CppGenerator.ty, builtinTy, hlookup] at ht
  exact (Option.some.inj ht).symm

theorem ty_of_string (h : e.Fits type) (hs : e = .string) (ht : g.ty type = some t) :
    t = .string := by
  rw [h.string hs] at ht
  exact (Option.some.inj ht).symm

theorem ty_of_optionalString (h : e.Fits type) (hs : e = .optionalString)
    (ht : g.ty type = some t) : t = .optional .string := by
  rw [h.optionalString hs] at ht
  exact (Option.some.inj ht).symm

/-- The calls for scalars are the formatters of their types. -/
theorem serializeExpr_scalar (hs : e.scalar = some s) (t : Ty) (n : Nat) :
    serializeExpr P e t (.scalar n) = Writer.writeScalar s n := by
  cases e with
  | bool | int8 | uint8 | int16 | uint16 | int32 | uint32 | int64 | uint64 | float | double =>
    obtain rfl := Option.some.inj hs
    rfl
  | _ => cases hs

/-- `WriteVector` and `WriteArray` of a range. -/
theorem writeVector_emits (hlen : vs.length ≤ maxLength)
    (hvs : ∀ v ∈ vs, Encodable P (.scalar s) v) :
    Emits B (Writer.writeVector s (vs.map Val.bits)) (.ret ())
      (encodeCounted (encodeEach P (.scalar s) vs)) .none := by
  rw [Writer.writeVector, List.length_map]
  exact counted hlen (writeScalars hvs)

theorem writeVectorBool_emits (hlen : vs.length ≤ maxLength)
    (hvs : ∀ v ∈ vs, Encodable P (.scalar .bool) v) :
    Emits B (Writer.writeVectorBool (vs.map Val.bits)) (.ret ())
      (encodeCounted (encodeEach P (.scalar .bool) vs)) .none := by
  rw [Writer.writeVectorBool, List.length_map, List.map_map]
  apply counted hlen
  rw [encodeEach_eq]
  refine runAll_map fun v hv => ?_
  obtain ⟨n, rfl, -⟩ := encodable_scalar (hvs v hv)
  exact appendByte _

theorem writeArrayPtr_emits (hlen : vs.length ≤ maxLength)
    (hvs : ∀ v ∈ vs, Encodable P (.scalar s) v) :
    Emits B (Writer.writeArrayPtr s (vs.map Val.bits) vs.length) (.ret ())
      (encodeCounted (encodeEach P (.scalar s) vs)) .none := by
  unfold Writer.writeArrayPtr encodeCounted
  rw [length_encodeEach]
  refine (writeInt32 _).seq ?_ rfl
  cases vs with
  | nil => exact pure ()
  | cons v vs =>
    -- there is an element, so the loop is reached
    rw [if_neg (by simp), Int.toNat_natCast, List.take_of_length_le (by simp)]
    exact writeScalars hvs

theorem writeStringVector_emits (hlen : vs.length ≤ maxLength)
    (hvs : ∀ v ∈ vs, Encodable P .string v) :
    Emits B (Writer.writeStringVector (vs.map Val.memory)) (.ret ())
      (encodeCounted (encodeEach P .string vs)) .none := by
  rw [Writer.writeStringVector, List.length_map, List.map_map]
  apply counted hlen
  rw [encodeEach_eq]
  refine runAll_map fun v hv => ?_
  have hstring := hvs v hv
  cases v with
  | bytes bs => exact writeString hstring
  | _ => simp [Encodable] at hstring

theorem encodable_vector {u : Ty} (h : Encodable P (.vector u) v) :
    ∃ vs, v = .seq vs ∧ vs.length ≤ maxLength ∧ ∀ w ∈ vs, Encodable P u w := by
  cases v with
  | seq vs =>
    rw [Encodable] at h
    exact ⟨vs, rfl, h.1, encodableEach_iff.mp h.2⟩
  | _ => simp [Encodable] at h

theorem encodable_array {n : Nat} {u : Ty} (h : Encodable P (.array n u) v) :
    ∃ vs, v = .seq vs ∧ vs.length ≤ maxLength ∧ ∀ w ∈ vs, Encodable P u w := by
  cases v with
  | seq vs =>
    rw [Encodable] at h
    exact ⟨vs, rfl, h.1, encodableEach_iff.mp h.2.1⟩
  | _ => simp [Encodable] at h

/-- Every call emits the encoding of the member. -/
theorem serializeExpr_emits (hB : B.endian = .little) (hfits : e.Fits type)
    (ht : g.ty type = some t) (h : Encodable P t v) :
    Emits B (serializeExpr P e t v) (.ret ()) (encode P t v) .none := by
  have hwrite := Emits.write hB P v t h
  cases hs : e.scalar with
  | some s =>
    obtain rfl := ty_of_scalar hfits hs ht
    obtain ⟨n, rfl, hn⟩ := encodable_scalar h
    rw [serializeExpr_scalar hs, encode]
    exact writeScalar hn
  | none =>
    cases e with
    | generic => exact hwrite
    | string =>
      obtain rfl := ty_of_string hfits rfl ht
      cases v with
      | bytes bs => exact hwrite
      | _ => simp [Encodable] at h
    | optionalString =>
      obtain rfl := ty_of_optionalString hfits rfl ht
      cases v with
      | none => exact hwrite
      | some v =>
        cases v with
        | bytes bs => exact hwrite
        | _ => simp [Encodable] at h
      | _ => simp [Encodable] at h
    | vectorArith =>
      unfold serializeExpr
      dsimp only
      split
      · obtain ⟨vs, rfl, hlen, hvs⟩ := encodable_vector h
        exact writeVectorBool_emits hlen hvs
      · obtain ⟨vs, rfl, hlen, hvs⟩ := encodable_vector h
        exact writeVector_emits hlen hvs
      · exact hwrite
    | vectorString =>
      unfold serializeExpr
      dsimp only
      split
      · obtain ⟨vs, rfl, hlen, hvs⟩ := encodable_vector h
        exact writeStringVector_emits hlen hvs
      · exact hwrite
    | fixedArray =>
      unfold serializeExpr
      dsimp only
      split
      · obtain ⟨vs, rfl, hlen, hvs⟩ := encodable_vector h
        exact writeArrayPtr_emits hlen hvs
      · exact hwrite
    | stdArray =>
      unfold serializeExpr
      dsimp only
      split
      · obtain ⟨vs, rfl, hlen, hvs⟩ := encodable_array h
        exact writeVector_emits hlen hvs
      · exact hwrite
    | _ => cases hs

theorem serializeExprs_emit (hB : B.endian = .little) {ms : List MemberDef} {ts : List Ty}
    (hfits : ∀ m ∈ ms, m.emit.Fits m.cppType)
    (hts : List.Forall₂ (fun m T => g.ty m.cppType = some T) ms ts)
    (h : EncodableMembers P ts vs) :
    List.Forall₂ (fun m bs => Emits B m (.ret ()) bs .none) (serializeExprs P ms ts vs)
      (encodeMembers P ts vs) := by
  induction hts generalizing vs with
  | nil =>
    cases vs with
    | nil => exact .nil
    | cons => exact h.elim
  | @cons m t ms ts ht _ ih =>
    cases vs with
    | nil => exact h.elim
    | cons v vs =>
      rw [EncodableMembers] at h
      obtain ⟨hm, hms⟩ := List.forall_mem_cons.mp hfits
      rw [serializeExprs, encodeMembers]
      exact .cons (serializeExpr_emits hB hm ht h.1) (ih hms h.2)

end Emission

/-! ## Either host -/

section Steps

variable {Q : ∀ {α : Type}, WriteM α → Prop} {A : Ty → Prop} {P : MemoryPack.Schema}

end Steps

/-! ## The structs of a header -/

open DepthFirst in
/-- The structs of a header are the types of the schema, each under its name. -/
theorem CppGenerator.mem_orderedTypes {g : CppGenerator} {t : PackableType} :
    t ∈ g.orderedTypes ↔ g.schema.typeByName t.name = some t := by
  obtain ⟨names, hvisit, hnames⟩ := Option.map_eq_some_iff.mp g.buildEmitOrder_eq
  unfold orderedTypes
  rw [← hnames, List.mem_filterMap]
  constructor
  · rintro ⟨x, hx, hxt⟩
    obtain ⟨name, -, hnode⟩ := List.mem_filterMap.mp hx
    cases x with
    | union u => cases hxt
    | type t' =>
      obtain rfl := Option.some.inj hxt
      exact Schema.typeByName_of_node hnode
  · intro ht
    have hnode : g.schema.node t.name = some (.type t) := by rw [Schema.node, ht]
    have hmem : t.name ∈ g.schema.nodes.map Node.name :=
      Schema.mem_names_iff.mpr (.inl ⟨t, List.mem_of_find?_eq_some ht, rfl⟩)
    have hall := (visitAll_spec List.nodup_nil hvisit).2
    have hemitted := hall t.name hmem (Schema.isNode_iff.mpr hmem) List.not_mem_nil
    exact ⟨.type t, List.mem_filterMap.mpr ⟨t.name, hemitted, hnode⟩, rfl⟩

section Rel

variable {α β : Type} {R : α → β → Prop} {x : Option α} {y : Option β}

theorem rel_none_iff (h : Option.Rel R x y) : x = none ↔ y = none := by
  cases h with
  | none => exact iff_of_true rfl rfl
  | some => simp

theorem exists_of_rel {b : β} (h : Option.Rel R x y) (hy : y = some b) :
    ∃ a, x = some a ∧ R a b := by
  cases h with
  | none => cases hy
  | @some a b' h =>
    obtain rfl := Option.some.inj hy
    exact ⟨a, rfl, h⟩

end Rel

theorem find?_rel {α β : Type} {R : α → β → Prop} {as : List α} {bs : List β} {p : α → Bool}
    {q : β → Bool} (h : List.Forall₂ R as bs) (hpq : ∀ a b, R a b → p a = q b) :
    Option.Rel R (as.find? p) (bs.find? q) := by
  induction h with
  | nil => exact .none
  | @cons a b as bs hab _ ih =>
    rw [List.find?_cons, List.find?_cons, ← hpq a b hab]
    cases p a with
    | true => exact .some hab
    | false => exact ih

namespace Collected

/-- A type of a schema and the declaration it is made of. -/
structure Declared (C : Collected) (nullableStrings : Bool) (raw : RawType) (t : PackableType) :
    Prop where
  typed : Typed (C.mapper nullableStrings) raw t
  sized : Sized C raw t
  kind : t.kind = raw.kind

variable {C : Collected} {nullableStrings : Bool} {name : String} {t : PackableType}

theorem schema_kinds (C : Collected) (nullableStrings : Bool) :
    List.Forall₂ (fun raw t => t.kind = raw.kind)
      C.rawTypes (C.schema nullableStrings).types := by
  have hall : ∀ (raws : List RawType) (cache : UnmanagedLayout.Cache),
      List.Forall₂ (fun raw t => t.kind = raw.kind) raws
        ((List.zip raws (C.packables raws cache)).map fun p =>
          { p.2 with
            members := (orderMembers p.1.members).map (memberDef (C.mapper nullableStrings)) }) := by
    intro raws cache
    induction raws generalizing cache with
    | nil => exact .nil
    | cons raw raws ih => exact .cons rfl (ih _)
  exact hall C.rawTypes []

theorem schema_declared (C : Collected) (nullableStrings : Bool) :
    List.Forall₂ (Declared C nullableStrings) C.rawTypes (C.schema nullableStrings).types := by
  have hboth : ∀ {raws : List RawType} {ts : List PackableType},
      List.Forall₂ (fun raw t => Typed (C.mapper nullableStrings) raw t ∧ Sized C raw t) raws ts →
      List.Forall₂ (fun raw t => t.kind = raw.kind)
        raws ts →
      List.Forall₂ (Declared C nullableStrings) raws ts := by
    intro raws ts hsized hkinds
    induction hsized with
    | nil => exact .nil
    | cons h _ ih =>
      cases hkinds with
      | cons h' hkinds => exact .cons ⟨h.1, h.2, h'⟩ (ih hkinds)
  exact hboth (C.schema_sized nullableStrings) (C.schema_kinds nullableStrings)

theorem findRaw_rel (C : Collected) (nullableStrings : Bool) (name : String) :
    Option.Rel (Declared C nullableStrings) (C.findRaw name)
      ((C.schema nullableStrings).typeByName name) := by
  apply find?_rel (C.schema_declared nullableStrings)
  intro raw t h
  rw [h.typed.name]

theorem findRaw_of_typeByName (ht : (C.schema nullableStrings).typeByName name = some t) :
    ∃ raw, C.findRaw name = some raw ∧ Declared C nullableStrings raw t :=
  exists_of_rel (C.findRaw_rel nullableStrings name) ht

end Collected

/-- The number of a struct is its place. -/
theorem CppGenerator.getElem?_of_number {g : CppGenerator} {t : PackableType} {i : Nat}
    (ht : t ∈ g.orderedTypes) (hi : g.number t.name = some i) : g.orderedTypes[i]? = some t := by
  obtain ⟨hlt, hname, -⟩ := List.findIdx?_eq_some_iff_getElem.mp hi
  have hfound := mem_orderedTypes.mp (List.getElem_mem hlt)
  rw [of_decide_eq_true hname, mem_orderedTypes.mp ht] at hfound
  rw [List.getElem?_eq_getElem hlt, ← Option.some.inj hfound]

section Bodies

variable {u : CompilationUnit} {options : GeneratorOptions} {P : MemoryPack.Schema} {i : Nat}
  {t : PackableType} {vs : List Val} {B : Build}

theorem fits_of_mem (ht : t ∈ (u.generator options).orderedTypes) :
    ∀ m ∈ t.members, m.emit.Fits m.cppType := by
  intro m hm
  obtain ⟨raw, -, hraw⟩ :=
    Collected.findRaw_of_typeByName (CppGenerator.mem_orderedTypes.mp ht)
  rw [hraw.typed.members] at hm
  obtain ⟨member, -, rfl⟩ := List.mem_map.mp hm
  exact TypeMapper.map_fits member.type member.annot

/-- A header of the library, and a call for each member. -/
theorem defineBody_emits {ms : List (WriteM Unit)} {bss : List (List UInt8)}
    (hkind : (P.decl i).kind = t.declKind) (htolerant : t.versionTolerant = false)
    (hlen : t.members.length = (P.decl i).members.length)
    (hms : List.Forall₂ (fun m bs => Emits B m (.ret ()) bs .none) ms bss)
    (hbss : bss = encodeMembers P (P.decl i).members vs) :
    Emits B (Writer.defineSerialize t.members.length ms) (.ret ())
      (encode P (.object i) (.seq vs)) .none := by
  rw [encode, hkind, PackableType.declKind, if_neg (by rw [htolerant]; decide)]
  by_cases hempty : t.members.length = 0
  · rw [if_pos hempty, hempty]
    have hnil : (P.decl i).members = [] := List.length_eq_zero_iff.mp (hlen ▸ hempty)
    have hbss' : bss = [] := by
      rw [hbss, hnil]
      cases vs <;> rfl
    rw [hbss'] at hms
    cases hms
    exact Emits.defineSerialize (Nat.zero_le _) .nil
  · rw [if_neg hempty, hlen, ← hbss]
    apply Emits.defineSerialize _ hms
    apply (P.decl i).count_le
    rw [hkind, PackableType.declKind, if_neg (by rw [htolerant]; decide), if_neg hempty]

/-- What a generated serializer writes is the encoding in the program of the header, in both
styles. -/
theorem serializeBody_emits (hB : B.endian = .little) (hP : (u.generator options).CompilesTo P)
    (ht : (u.generator options).orderedTypes[i]? = some t) (hmanaged : t.isUnmanaged = false)
    (h : Encodable P (.object i) (.seq vs)) :
    Emits B ((u.generator options).serializeBody P t (P.decl i).members vs) (.ret ())
      (encode P (.object i) (.seq vs)) .none := by
  have hkind := hP.kind i t ht hmanaged
  have hmembers := hP.members i t ht hmanaged
  have hlen := hmembers.length_eq
  rw [Encodable] at h
  have hwrites := Emits.memberWrites (B := B) h.1 fun v _ t => Emits.write hB P v t
  unfold CppGenerator.serializeBody
  split
  case isTrue =>
    unfold explicitSerialize
    cases htolerant : t.versionTolerant with
    | true =>
      have hkind' : (P.decl i).kind = .versionTolerant := by
        rw [hkind, PackableType.declKind, if_pos htolerant]
      obtain ⟨hcount, hbytes⟩ := h.2 hkind'
      rw [if_pos rfl, encode, hkind']
      exact Emits.versionTolerant hwrites (by rwa [length_encodeMembers h.1]) hbytes
    | false =>
      rw [if_neg (by decide)]
      have hexprs := serializeExprs_emit hB (fits_of_mem (List.mem_of_getElem? ht)) hmembers h.1
      exact defineBody_emits hkind htolerant hlen hexprs rfl
  case isFalse hstyle =>
    have htolerant : t.versionTolerant = false := by
      cases htolerant : t.versionTolerant with
      | true => simp [PackableType.requiresExplicit, htolerant] at hstyle
      | false => rfl
    unfold macroSerialize
    by_cases hempty : t.members.length = 0
    · have hnil : (P.decl i).members = [] := List.length_eq_zero_iff.mp (hlen ▸ hempty)
      rw [if_pos hempty]
      have hbody := defineBody_emits hkind htolerant hlen hwrites rfl
      rw [hempty, hnil] at hbody
      cases vs <;> exact hbody
    · rw [if_neg hempty]
      exact defineBody_emits hkind htolerant hlen hwrites rfl

theorem writePacket_emits {T : Ty} {v : Val} (hB : B.endian = .little)
    (hP : (u.generator options).CompilesTo P) (ht : t ∈ (u.generator options).orderedTypes)
    (hT : (u.generator options).typeTy t = some T) (h : Encodable P T v) :
    Emits B ((u.generator options).writePacket P t T v) (.ret ()) (encode P T v) .none := by
  have hwrite := Emits.write hB P v T h
  unfold CppGenerator.typeTy at hT
  unfold CppGenerator.writePacket
  cases hmanaged : t.isUnmanaged with
  | true =>
    rw [hmanaged, if_pos rfl] at hT
    -- a registered struct has no number
    split
    · next i vs =>
      unfold Registration.ty at hT
      split at hT
      · split at hT
        · cases hT
        · cases hT
      · cases hT
    · exact hwrite
  | false =>
    rw [hmanaged, if_neg (by decide)] at hT
    obtain ⟨i, hi, rfl⟩ := Option.map_eq_some_iff.mp hT
    cases v with
    | seq vs => exact serializeBody_emits hB hP (CppGenerator.getElem?_of_number ht hi) hmanaged h
    | _ => exact hwrite

end Bodies

end MemoryPack.Cs2Cpp
