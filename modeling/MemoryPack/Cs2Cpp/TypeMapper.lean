import MemoryPack.Cs2Cpp.Syntax

/-!
# From C# types to C++ types (TypeMapper.cs)

A C++ type is a tree here and its text where the source compares texts. `builtin` is a
name of the tables, `named` is one that comes from the C# source.
-/

namespace MemoryPack.Cs2Cpp

/-! ## The tables -/

def primitives : List (String × String) :=
  [("bool", "bool"), ("Boolean", "bool"), ("byte", "uint8_t"), ("Byte", "uint8_t"),
    ("sbyte", "int8_t"), ("SByte", "int8_t"), ("short", "int16_t"), ("Int16", "int16_t"),
    ("ushort", "uint16_t"), ("UInt16", "uint16_t"), ("int", "int32_t"), ("Int32", "int32_t"),
    ("uint", "uint32_t"), ("UInt32", "uint32_t"), ("long", "int64_t"), ("Int64", "int64_t"),
    ("ulong", "uint64_t"), ("UInt64", "uint64_t"), ("float", "float"), ("Single", "float"),
    ("double", "double"), ("Double", "double"), ("char", "char16_t"), ("Char", "char16_t")]

def dotNetTypes : List (String × String) :=
  [("Guid", "memorypack::Guid"), ("DateTime", "memorypack::DateTime"),
    ("TimeSpan", "memorypack::TimeSpan"), ("DateTimeOffset", "memorypack::DateTimeOffset"),
    ("decimal", "memorypack::Decimal"), ("Decimal", "memorypack::Decimal"),
    ("Half", "memorypack::Half"), ("Int128", "memorypack::Int128"),
    ("UInt128", "memorypack::UInt128"), ("Vector2", "memorypack::Vector2"),
    ("Vector3", "memorypack::Vector3"), ("Vector4", "memorypack::Vector4"),
    ("Quaternion", "memorypack::Quaternion")]

/-- Sizes and alignments. -/
def primitiveSizes : List (String × (Nat × Nat)) :=
  [("bool", (1, 1)), ("Boolean", (1, 1)), ("byte", (1, 1)), ("Byte", (1, 1)),
    ("sbyte", (1, 1)), ("SByte", (1, 1)), ("short", (2, 2)), ("Int16", (2, 2)),
    ("ushort", (2, 2)), ("UInt16", (2, 2)), ("char", (2, 2)), ("Char", (2, 2)),
    ("int", (4, 4)), ("Int32", (4, 4)), ("uint", (4, 4)), ("UInt32", (4, 4)),
    ("float", (4, 4)), ("Single", (4, 4)), ("long", (8, 8)), ("Int64", (8, 8)),
    ("ulong", (8, 8)), ("UInt64", (8, 8)), ("double", (8, 8)), ("Double", (8, 8))]

inductive EmitKind where
  | generic
  | bool
  | int8
  | uint8
  | int16
  | uint16
  | int32
  | uint32
  | int64
  | uint64
  | float
  | double
  | string
  | optionalString
  | vectorArith
  | vectorString
  | fixedArray
  | stdArray
deriving DecidableEq, Repr

def arithmeticEmit : List (String × EmitKind) :=
  [("bool", .bool), ("uint8_t", .uint8), ("int8_t", .int8), ("int16_t", .int16),
    ("uint16_t", .uint16), ("int32_t", .int32), ("uint32_t", .uint32), ("int64_t", .int64),
    ("uint64_t", .uint64), ("float", .float), ("double", .double)]

def arithmeticDefaults : List (String × String) :=
  [("bool", "false"), ("uint8_t", "0"), ("int8_t", "0"), ("int16_t", "0"), ("uint16_t", "0"),
    ("int32_t", "0"), ("uint32_t", "0"), ("int64_t", "0"), ("uint64_t", "0"),
    ("float", "0.f"), ("double", "0.0"), ("char16_t", "0")]

def listLike : List String :=
  ["List", "IList", "ICollection", "IEnumerable", "IReadOnlyList", "IReadOnlyCollection",
    "Collection", "ObservableCollection"]

def dictLike : List String :=
  ["Dictionary", "IDictionary", "IReadOnlyDictionary", "SortedDictionary"]

def setLike : List String := ["HashSet", "ISet", "IReadOnlySet", "SortedSet"]

/-- `TypeMapper.EnumBaseToCpp`. -/
def enumBaseToCpp (csBase : String) : String := (primitives.lookup csBase).getD "int32_t"

/-- `TypeMapper.PrimitiveLayout`. -/
def primitiveLayout (csName : String) : Option (Nat × Nat) := primitiveSizes.lookup csName

/-! ## Mapped types -/

inductive CppType where
  | builtin (name : String)
  | named (name : String)
  | optional (t : CppType)
  | vector (t : CppType)
  | map (k v : CppType)
  | set (t : CppType)
  | pair (a b : CppType)
  | array (t : CppType) (n : Nat)
deriving DecidableEq, Repr

namespace CppType

def text : CppType → String
  | .builtin name => name
  | .named name => name
  | .optional t => "std::optional<" ++ t.text ++ ">"
  | .vector t => "std::vector<" ++ t.text ++ ">"
  | .map k v => "std::map<" ++ k.text ++ ", " ++ v.text ++ ">"
  | .set t => "std::set<" ++ t.text ++ ">"
  | .pair a b => "std::pair<" ++ a.text ++ ", " ++ b.text ++ ">"
  | .array t n => "std::array<" ++ t.text ++ ", " ++ toString n ++ ">"

/-- `StartsWith("std::optional<")`. -/
def isOptional : CppType → Bool
  | .optional _ => true
  | _ => false

/-- `IsCppArithmetic`. -/
def isArithmetic (t : CppType) : Bool := (arithmeticEmit.lookup t.text).isSome

/-- The names of the C# source that occur in a type. -/
def names : CppType → List String
  | .builtin _ => []
  | .named name => [name]
  | .optional t => t.names
  | .vector t => t.names
  | .map k v => k.names ++ v.names
  | .set t => t.names
  | .pair a b => a.names ++ b.names
  | .array t _ => t.names

end CppType

structure MappedType where
  cppType : CppType
  elementCppType : Option CppType := none
  emit : EmitKind := .generic
  defaultValue : Option String := none
  warning : Option String := none
  referencedTypes : List String := []
  includes : List String := []
deriving DecidableEq, Repr

/-- What the mapper is constructed with. -/
structure TypeMapper where
  enums : List String
  types : List (String × UserTypeKind)
  unions : List String
  nullableStrings : Bool
deriving Repr

namespace TypeMapper

variable (M : TypeMapper)

def mapString : MappedType :=
  if M.nullableStrings = false then
    { cppType := .builtin "std::string", emit := .string, includes := ["<string>"] }
  else
    { cppType := .optional (.builtin "std::string"), emit := .optionalString,
      includes := ["<string>", "<optional>"] }

def isString (name : String) : Bool := name = "string" ∨ name = "String"

def mapNamed (name : String) (topLevel : Bool) : MappedType :=
  if isString name then
    { cppType := .builtin "std::string", emit := .string, includes := ["<string>"] }
  else
    match primitives.lookup name with
    | some prim =>
        { cppType := .builtin prim, emit := (arithmeticEmit.lookup prim).getD .generic,
          defaultValue := arithmeticDefaults.lookup prim }
    | none =>
      match dotNetTypes.lookup name with
      | some dotnet => { cppType := .builtin dotnet }
      | none =>
        if name ∈ M.enums then
          { cppType := .named name, defaultValue := some "\x7b\x7d", referencedTypes := [name] }
        else if name ∈ M.unions then
          { cppType := .optional (.named name), includes := ["<optional>", "<variant>"],
            referencedTypes := [name] }
        else
          match M.types.lookup name with
          | some .structKind => { cppType := .named name, referencedTypes := [name] }
          | some _ =>
              { cppType := if topLevel then .optional (.named name) else .named name,
                includes := if topLevel then ["<optional>"] else [], referencedTypes := [name] }
          | none =>
              { cppType := .named name,
                warning := some ("알 수 없는 타입 " ++ name ++ " — C++ 이름을 그대로 사용합니다.") }

/-- `Merge`: what the parts of a type refer to. -/
def merge (target : MappedType) (sources : List MappedType) : MappedType :=
  { target with
    includes := sources.foldl (fun is s => is ∪ s.includes) target.includes
    referencedTypes := target.referencedTypes ++ sources.flatMap (·.referencedTypes) }

/-- `MapSequence` behind the mapping of its element. -/
def mapSequence (e : MappedType) : MappedType :=
  merge
    { cppType := .vector e.cppType, elementCppType := some e.cppType,
      emit := if e.cppType.text = "std::string" then .vectorString
        else if e.cppType.isArithmetic then .vectorArith else .generic,
      includes := ["<vector>"] } [e]

def mapDictionary (k v : MappedType) : MappedType :=
  merge { cppType := .map k.cppType v.cppType, includes := ["<map>"] } [k, v]

def mapSet (e : MappedType) : MappedType :=
  merge { cppType := .set e.cppType, includes := ["<set>"] } [e]

def mapPair (k v : MappedType) : MappedType :=
  merge { cppType := .pair k.cppType v.cppType, defaultValue := some "\x7b\x7d",
          includes := ["<utility>"] } [k, v]

/-- The last lines of `MapNullable`. -/
def wrapOptional (inner : MappedType) : MappedType :=
  if inner.cppType.isOptional then inner
  else
    { cppType := .optional inner.cppType, includes := ["<optional>"] ∪ inner.includes,
      referencedTypes := inner.referencedTypes }

/-- `MapNullable`, with what `MapCore` makes of the element. -/
def mapNullable (element : TypeSyntax) (core : Bool → MappedType) (topLevel : Bool) :
    MappedType :=
  match element with
  | .array _ _ => core topLevel
  | .generic _ _ => core topLevel
  | _ =>
      if isString element.simpleName then M.mapString
      else wrapOptional (core false)

/-- A generic type that is not in the tables keeps its bare name. -/
def mapUnknownGeneric (generic : TypeSyntax) (name : String) : MappedType :=
  { cppType := .named name,
    warning := some ("제네릭 타입 " ++ generic.text ++
      "을(를) 매핑할 수 없어 이름을 그대로 사용합니다.") }

/-- `MapGeneric`, with what `MapCore` makes of each argument. -/
def mapGeneric (generic : TypeSyntax) (name : String) (topLevel : Bool) :
    List (TypeSyntax × (Bool → MappedType)) → MappedType
  | [(arg, core)] =>
      if name = "Nullable" then M.mapNullable arg core topLevel
      else if name ∈ listLike then mapSequence (core false)
      else if name ∈ setLike then mapSet (core false)
      else mapUnknownGeneric generic name
  | [(_, key), (_, value)] =>
      if name ∈ dictLike then mapDictionary (key false) (value false)
      else if name = "KeyValuePair" then mapPair (key false) (value false)
      else mapUnknownGeneric generic name
  | _ => mapUnknownGeneric generic name

mutual
def mapCore : TypeSyntax → Bool → MappedType
  | .nullable element, topLevel => M.mapNullable element (mapCore element) topLevel
  | .array element _, _ => mapSequence (mapCore element false)
  | .generic name args, topLevel =>
      M.mapGeneric (.generic name args) name topLevel (mapArgs args)
  | .qualified _ right, topLevel => mapCore right topLevel
  | t, topLevel => M.mapNamed t.simpleName topLevel

def mapArgs : List TypeSyntax → List (TypeSyntax × (Bool → MappedType))
  | [] => []
  | arg :: args => (arg, mapCore arg) :: mapArgs args
end

def map (type : TypeSyntax) (annot : Option CppAnnot) : MappedType :=
  let result := M.mapCore type true
  let arithmetic := (result.elementCppType.map CppType.isArithmetic).getD false
  match annot with
  | none => result
  | some (.fixedArray _ _) =>
      if arithmetic = false then
        { result with
          warning := some "[cpp:fixed_array]는 산술 타입 컬렉션에만 쓸 수 있습니다." }
      else
        { cppType := result.cppType, elementCppType := result.elementCppType,
          emit := .fixedArray }
  | some (.stdArray size) =>
      match arithmetic, result.elementCppType with
      | true, some element =>
          { cppType := .array element size, elementCppType := some element, emit := .stdArray,
            defaultValue := some "\x7b\x7d", includes := ["<array>"] }
      | _, _ =>
          { result with
            warning := some "[cpp:std_array]는 산술 타입 컬렉션에만 쓸 수 있습니다." }

end TypeMapper

end MemoryPack.Cs2Cpp
