import MemoryPack.Cs2Cpp.TypeMapper
import Mathlib.Data.List.Forall2
import Mathlib.Data.List.Nodup

/-!
# The parser of cs2cpp (CsParser.cs)

Enums with their constants, type declarations with the members that are serialized, and
the layout of unmanaged structs. `long` is `BitVec 64`; a dictionary is a list of pairs
with the last insertion in front.
-/

namespace MemoryPack.Cs2Cpp

/-! ## Enums -/

structure EnumMemberDef where
  name : String
  value : BitVec 64
deriving DecidableEq, Repr

structure EnumDef where
  name : String
  csBaseType : String
  cppBaseType : String
  members : List EnumMemberDef
deriving DecidableEq, Repr

/-- `CppNaming.Keywords`. -/
def cppKeywords : List String :=
  ["alignas", "alignof", "and", "and_eq", "asm", "auto", "bitand", "bitor", "bool",
    "break", "case", "catch", "char", "char8_t", "char16_t", "char32_t", "class",
    "compl", "concept", "const", "consteval", "constexpr", "constinit", "const_cast",
    "continue", "co_await", "co_return", "co_yield", "decltype", "default", "delete",
    "do", "double", "dynamic_cast", "else", "enum", "explicit", "export", "extern",
    "false", "float", "for", "friend", "goto", "if", "inline", "int", "long",
    "mutable", "namespace", "new", "noexcept", "not", "not_eq", "nullptr", "operator",
    "or", "or_eq", "private", "protected", "public", "register", "reinterpret_cast",
    "requires", "return", "short", "signed", "sizeof", "static", "static_assert",
    "static_cast", "struct", "switch", "template", "this", "thread_local", "throw",
    "true", "try", "typedef", "typeid", "typename", "union", "unsigned", "using",
    "virtual", "void", "volatile", "wchar_t", "while", "xor", "xor_eq"]

/-- `CppNaming.Escape`. -/
def escape (name : String) : String := if name ∈ cppKeywords then name ++ "_" else name

/-- `Convert.ToInt64` of a literal's value, which is too large or a `long`. -/
def convertToInt64 (n : Nat) : Option (BitVec 64) :=
  if n < 2 ^ 63 then some (BitVec.ofNat 64 n) else none

/-- The operators as `TryEvalConstant` applies them: C# masks the count of a shift of a
`long` to six bits. -/
def evalUnary : UnaryOp → BitVec 64 → Option (BitVec 64)
  | .minus, inner => some (-inner)
  | .plus, inner => some inner
  | .tilde, inner => some (~~~inner)
  | .other, _ => none

def evalBinary : BinaryOp → BitVec 64 → BitVec 64 → Option (BitVec 64)
  | .bar, l, r => some (l ||| r)
  | .ampersand, l, r => some (l &&& r)
  | .lessThanLessThan, l, r => some (l <<< (r.toNat % 64))
  | .greaterThanGreaterThan, l, r => some (l.sshiftRight (r.toNat % 64))
  | .plus, l, r => some (l + r)
  | .minus, l, r => some (l - r)
  | .asterisk, l, r => some (l * r)
  | .other, _, _ => none

def tryEvalConstant (byName : List (String × BitVec 64)) : Expression → Option (BitVec 64)
  | .number _ n _ => convertToInt64 n
  | .character c => some (BitVec.ofNat 64 c.toNat)
  | .unary op e => do evalUnary op (← tryEvalConstant byName e)
  | .identifier name => byName.lookup name
  | .parenthesized e => tryEvalConstant byName e
  | .binary op l r => do
      evalBinary op (← tryEvalConstant byName l) (← tryEvalConstant byName r)
  | .other => none

/-- The loop of `CollectEnum`: the members' values, and a warning for each initialiser that
could not be evaluated. -/
def collectMembers (enumName : String) :
    BitVec 64 → List (String × BitVec 64) → List EnumMember →
      List EnumMemberDef × List String
  | _, _, [] => ([], [])
  | next, byName, m :: ms =>
      let evaluated := m.equalsValue.map (tryEvalConstant byName)
      let value :=
        match evaluated with
        | some (some value) => value
        | _ => next
      let warnings :=
        match evaluated with
        | some none =>
            ["enum " ++ enumName ++ "." ++ m.name ++ ": 상수 값을 계산할 수 없어 " ++
              toString next.toInt ++ "로 대체합니다."]
        | _ => []
      let rest := collectMembers enumName (value + 1) ((m.name, value) :: byName) ms
      (⟨escape m.name, value⟩ :: rest.1, warnings ++ rest.2)

def collectEnum (d : EnumDeclaration) : EnumDef × List String :=
  let collected := collectMembers d.name 0 [] d.members
  ({ name := d.name, csBaseType := d.baseText, cppBaseType := enumBaseToCpp d.baseText,
     members := collected.1 }, collected.2)

/-! ## Type declarations -/

structure RawMember where
  csName : String
  type : TypeSyntax
  order : Int
  annot : Option CppAnnot
  declIndex : Nat
deriving Repr

structure RawType where
  name : String
  kind : UserTypeKind
  versionTolerant : Bool
  pack1 : Bool
  members : List RawMember
deriving Repr

structure UnionDef where
  name : String
  /-- `(Tag, TypeName)`. -/
  alternatives : List (Int × String)
deriving DecidableEq, Repr

/-- `IsSerializableProperty`, `IsSerializableField`, and every parameter. -/
def isSerializable (m : MemberSyntax) : Bool :=
  match m.kind with
  | .parameter => true
  | .property auto => m.isPublic && !m.isStatic && auto
  | .field isConst => m.isPublic && !m.isStatic && !isConst

/-- `(int)v`: the low 32 bits. -/
def toInt32 (v : BitVec 64) : Int := (v.setWidth 32).toInt

/-- `ReadOrder`; -1 stands for no order. -/
def readOrder (order : Option Expression) : Int :=
  match order with
  | none => -1
  | some e => ((tryEvalConstant [] e).map toInt32).getD (-1)

/-- The members that `CollectType` keeps, numbered from `index` on. -/
def collectRawMembers : Nat → List MemberSyntax → List RawMember
  | _, [] => []
  | index, m :: ms =>
      if isSerializable m && !m.ignored then
        { csName := m.name, type := m.type, order := readOrder m.order,
          annot := m.annot, declIndex := index } :: collectRawMembers (index + 1) ms
      else collectRawMembers index ms

/-- `CollectType` for a type that is no union. -/
def collectType (d : TypeDeclaration) : RawType where
  name := d.name
  kind := d.kind
  versionTolerant := d.versionTolerant
  pack1 := d.pack1
  members := collectRawMembers 0 d.members

/-- `CollectUnion`. -/
def collectUnion (d : TypeDeclaration) : UnionDef where
  name := d.name
  alternatives := d.unionAttrs.filterMap fun (tag, type) =>
    (tryEvalConstant [] tag).map fun v => (toInt32 v, type.simpleName)

/-- The key of a stable sort that puts ordered members first. -/
def orderKey (m : RawMember) : Int × Int :=
  if m.order ≥ 0 then (0, m.order) else (1, m.declIndex)

def orderLe (a b : RawMember) : Bool :=
  decide ((orderKey a).1 < (orderKey b).1 ∨
    (orderKey a).1 = (orderKey b).1 ∧ (orderKey a).2 ≤ (orderKey b).2)

/-- `OrderMembers`. -/
def orderMembers (members : List RawMember) : List RawMember :=
  if members.any fun m => m.order ≥ 0 then members.mergeSort orderLe else members

/-! ## The layout of unmanaged structs -/

/-- What has been collected before types are resolved. -/
structure Collected where
  enums : List EnumDef
  rawTypes : List RawType
  unions : List UnionDef
  warnings : List String
deriving Repr

namespace Collected

def findEnum (C : Collected) (name : String) : Option EnumDef :=
  C.enums.find? fun e => e.name = name

def findRaw (C : Collected) (name : String) : Option RawType :=
  C.rawTypes.find? fun r => r.name = name

end Collected

namespace UnmanagedLayout

/-- `(Size, Align)` of a struct, or null. -/
abbrev Cache := List (String × Option (Nat × Nat))

def roundUp (value align : Nat) : Nat := (value + align - 1) / align * align

/-- `FieldLayout`, with `Resolve` to ask about structs. -/
def fieldLayout (C : Collected) (resolve : String → Cache → Option (Nat × Nat) × Cache)
    (type : TypeSyntax) (cache : Cache) : Option (Nat × Nat) × Cache :=
  match type with
  | .nullable _ => (none, cache)
  | .array _ _ => (none, cache)
  | .generic _ _ => (none, cache)
  | _ =>
    match primitiveLayout type.simpleName with
    | some layout => (some layout, cache)
    | none =>
      match C.findEnum type.simpleName with
      | some e => (primitiveLayout e.csBaseType, cache)
      | none => resolve type.simpleName cache

/-- The loop of `Compute`. -/
def computeLoop (field : TypeSyntax → Cache → Option (Nat × Nat) × Cache) (pack : Nat) :
    List RawMember → Nat → Nat → Cache → Option (Nat × Nat) × Cache
  | [], offset, maxAlign, cache => (some (offset, maxAlign), cache)
  | m :: ms, offset, maxAlign, cache =>
      match field m.type cache with
      | (none, cache) => (none, cache)
      | (some (size, align), cache) =>
          let align := min align pack
          computeLoop field pack ms (roundUp offset align + size) (max maxAlign align) cache

def compute (field : TypeSyntax → Cache → Option (Nat × Nat) × Cache) (raw : RawType)
    (cache : Cache) : Option (Nat × Nat) × Cache :=
  let pack := if raw.pack1 then 1 else 8
  match computeLoop field pack raw.members 0 1 cache with
  | (none, cache) => (none, cache)
  | (some (offset, maxAlign), cache) =>
      if raw.members.length = 0 then (some (1, 1), cache)
      else (some (roundUp offset maxAlign, maxAlign), cache)

/-- `Resolve`. The set `visiting` is left as it was found, so it is an argument here; `fuel`
bounds the depth of the recursion, which `visiting` does in the source. -/
def resolve (C : Collected) : Nat → List String → String → Cache →
    Option (Nat × Nat) × Cache
  | 0, _, _, cache => (none, cache)
  | fuel + 1, visiting, typeName, cache =>
      match cache.lookup typeName with
      | some cached => (cached, cache)
      | none =>
        if typeName ∈ visiting then (none, cache)
        else
          let computed :=
            match C.findRaw typeName with
            | some raw =>
                if raw.kind = UserTypeKind.structKind then
                  compute (fieldLayout C (resolve C fuel (typeName :: visiting))) raw cache
                else (none, cache)
            | none => (none, cache)
          (computed.1, (typeName, computed.1) :: computed.2)

/-- `TryGetSize`, with fuel for a path through all types. -/
def tryGetSize (C : Collected) (typeName : String) (cache : Cache) : Option Nat × Cache :=
  let r := resolve C (C.rawTypes.length + 1) [] typeName cache
  (r.1.map Prod.fst, r.2)

end UnmanagedLayout

/-! ## Parse -/

structure MemberDef where
  csName : String
  cppName : String
  csType : String
  cppType : CppType
  elementCppType : Option CppType
  annot : Option CppAnnot
  emit : EmitKind
  defaultValue : Option String
  order : Int
  declIndex : Nat
  referencedTypes : List String
deriving Repr

structure PackableType where
  name : String
  kind : UserTypeKind
  versionTolerant : Bool
  isUnmanaged : Bool
  unmanagedSize : Nat
  pack1 : Bool
  members : List MemberDef
deriving Repr

structure Schema where
  enums : List EnumDef
  types : List PackableType
  unions : List UnionDef
  warnings : List String
deriving Repr

/-- Text without white space. -/
def normalizeCsType (type : TypeSyntax) : String :=
  String.ofList (type.text.toList.filter fun c => !c.isWhitespace)

/-- `PascalToCamel` on the characters of an ASCII name. -/
def pascalToCamel : List Char → List Char
  | c₀ :: c₁ :: cs =>
      if c₀.isUpper && c₁.isUpper then
        let name := c₀ :: c₁ :: cs
        let i := (name.takeWhile Char.isUpper).length
        if i = name.length then name.map Char.toLower
        else (name.take (i - 1)).map Char.toLower ++ name.drop (i - 1)
      else c₀.toLower :: c₁ :: cs
  | [c] => [c.toLower]
  | [] => []

def cppName (csName : String) : String := escape (String.ofList (pascalToCamel csName.toList))

/-- Insertion into a dictionary whose entries keep their first place. -/
def insertNamed {α : Type} (name : α → String) (a : α) (as : List α) : List α :=
  if as.any fun b => name b = name a then as.map fun b => if name b = name a then a else b
  else as ++ [a]

/-- One type declaration: a union, a type of a new name, or neither. -/
def collectDeclaration (C : Collected) (d : TypeDeclaration) : Collected :=
  if d.unionAttrs ≠ [] then
    if (collectUnion d).alternatives ≠ [] then
      { C with unions := insertNamed UnionDef.name (collectUnion d) C.unions }
    else C
  else if !d.packable || d.kind = .interfaceKind then C
  else if (C.findRaw d.name).isSome then
    { C with
      warnings := C.warnings ++
        ["타입 " ++ d.name ++ "이(가) 중복 선언되어 첫 번째 선언만 사용합니다."] }
  else { C with rawTypes := C.rawTypes ++ [collectType d] }

def collect (enums : List EnumDeclaration) (types : List TypeDeclaration) : Collected :=
  let defs := enums.foldl (fun es e => insertNamed EnumDef.name (collectEnum e).1 es) []
  let warnings := enums.flatMap fun e => (collectEnum e).2
  types.foldl collectDeclaration ⟨defs, [], [], warnings⟩

namespace Collected

/-- The first pass over the types: which of them are unmanaged. -/
def packables (C : Collected) : List RawType → UnmanagedLayout.Cache → List PackableType
  | [], _ => []
  | raw :: raws, cache =>
      let size :=
        if raw.kind = .structKind then UnmanagedLayout.tryGetSize C raw.name cache
        else (none, cache)
      { name := raw.name, kind := raw.kind, versionTolerant := raw.versionTolerant,
        isUnmanaged := size.1.isSome, unmanagedSize := size.1.getD 0, pack1 := raw.pack1,
        members := [] } :: packables C raws size.2

def mapper (C : Collected) (nullableStrings : Bool) : TypeMapper where
  enums := C.enums.map EnumDef.name
  types := C.rawTypes.map fun r => (r.name, r.kind)
  unions := C.unions.map UnionDef.name
  nullableStrings := nullableStrings

def memberDef (M : TypeMapper) (member : RawMember) : MemberDef :=
  let mapped := M.map member.type member.annot
  { csName := member.csName, cppName := cppName member.csName,
    csType := normalizeCsType member.type, cppType := mapped.cppType,
    elementCppType := mapped.elementCppType, annot := member.annot, emit := mapped.emit,
    defaultValue := mapped.defaultValue, order := member.order, declIndex := member.declIndex,
    referencedTypes := mapped.referencedTypes }

/-- The warnings of the mapper, each behind the member it is about. -/
def memberWarnings (M : TypeMapper) (raw : RawType) : List String :=
  (orderMembers raw.members).filterMap fun m =>
    (M.map m.type m.annot).warning.map fun w => raw.name ++ "." ++ m.csName ++ ": " ++ w

/-- The resolution phase of `Parse`. -/
def schema (C : Collected) (nullableStrings : Bool) : Schema :=
  let M := C.mapper nullableStrings
  { enums := C.enums
    types := (List.zip C.rawTypes (C.packables C.rawTypes [])).map fun (raw, packable) =>
      { packable with members := (orderMembers raw.members).map (memberDef M) }
    unions := C.unions
    warnings := C.warnings ++ C.rawTypes.flatMap (memberWarnings M) }

/-- A type of the schema and the declaration it comes from. -/
structure Typed (M : TypeMapper) (raw : RawType) (t : PackableType) : Prop where
  name : t.name = raw.name
  pack1 : t.pack1 = raw.pack1
  members : t.members = (orderMembers raw.members).map (memberDef M)

theorem packables_typed (C : Collected) (M : TypeMapper) (raws : List RawType)
    (cache : UnmanagedLayout.Cache) :
    List.Forall₂ (Typed M) raws
      ((List.zip raws (C.packables raws cache)).map fun (raw, packable) =>
        { packable with members := (orderMembers raw.members).map (memberDef M) }) := by
  induction raws generalizing cache with
  | nil => exact List.Forall₂.nil
  | cons raw raws ih => exact List.Forall₂.cons ⟨rfl, rfl, rfl⟩ (ih _)

theorem schema_typed (C : Collected) (nullableStrings : Bool) :
    List.Forall₂ (Typed (C.mapper nullableStrings)) C.rawTypes (C.schema nullableStrings).types :=
  C.packables_typed _ C.rawTypes []

theorem exists_of_forall₂ {α β : Type} {R : α → β → Prop} {as : List α} {bs : List β} {a : α}
    (h : List.Forall₂ R as bs) (ha : a ∈ as) : ∃ b ∈ bs, R a b := by
  induction h with
  | nil => cases ha
  | @cons _ b _ _ hab _ ih =>
    rcases List.mem_cons.mp ha with rfl | ha
    · exact ⟨b, List.mem_cons_self, hab⟩
    · obtain ⟨b', hb', hab'⟩ := ih ha
      exact ⟨b', List.mem_cons_of_mem _ hb', hab'⟩

theorem map_name_of_typed {M : TypeMapper} {raws : List RawType} {ts : List PackableType}
    (h : List.Forall₂ (Typed M) raws ts) :
    ts.map PackableType.name = raws.map RawType.name := by
  induction h with
  | nil => rfl
  | cons ht _ ih => rw [List.map_cons, List.map_cons, ht.name, ih]

theorem orderMembers_perm (members : List RawMember) : (orderMembers members).Perm members := by
  unfold orderMembers
  split
  · exact List.mergeSort_perm _ _
  · exact List.Perm.refl _

theorem mem_orderMembers {m : RawMember} {members : List RawMember} :
    m ∈ orderMembers members ↔ m ∈ members := (orderMembers_perm members).mem_iff

end Collected

end MemoryPack.Cs2Cpp
