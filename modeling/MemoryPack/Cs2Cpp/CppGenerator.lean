import MemoryPack.Cs2Cpp.CsParser
import MemoryPack.Lib.DepthFirst

/-!
# The generator of cs2cpp (CppGenerator.cs)

The declarations of the generated header and the registrations of its unmanaged structs,
as trees and not as lines of text.
-/

namespace MemoryPack.Cs2Cpp

/-! ## The order of declarations -/

/-- An entry of `emitOrder`. -/
inductive Node where
  | type (t : PackableType)
  | union (u : UnionDef)
deriving Repr

def Node.name : Node → String
  | .type t => t.name
  | .union u => u.name

namespace Schema

variable (S : Schema)

def typeByName (name : String) : Option PackableType := S.types.find? fun t => t.name = name

def unionByName (name : String) : Option UnionDef := S.unions.find? fun u => u.name = name

/-- What `Visit` goes through before it emits `name`. -/
def dependencies (name : String) : Option (List String) :=
  match S.typeByName name with
  | some t =>
      some ((t.members.flatMap MemberDef.referencedTypes).eraseDups.filter (· ≠ name))
  | none => (S.unionByName name).map fun u => u.alternatives.map Prod.snd

def nodes : List Node := S.types.map .type ++ S.unions.map .union

def node (name : String) : Option Node :=
  match S.typeByName name with
  | some t => some (.type t)
  | none => (S.unionByName name).map .union

/-- `BuildEmitOrder`, with fuel for a path through all types and unions. The list of names is
the set `emitted` of the source, in the order of `emitOrder`. -/
def buildEmitOrder : Option (List Node) :=
  let names := S.nodes.map Node.name
  (DepthFirst.visitAll S.dependencies (names.length + 1) [] [] names).map
    fun emitted => emitted.filterMap S.node

end Schema

/-! ## Declarations -/

/-- A line of a struct: a member, or a C array with the member that counts its elements. -/
inductive CppField where
  | plain (type : CppType) (name : String) (init : Option String)
  | fixedArray (element : Option CppType) (name constName countName : String)
deriving DecidableEq, Repr

inductive CppDeclaration where
  | struct (name : String) (pack1 : Bool) (consts : List (String × Nat))
      (fields : List CppField)
  | unionAlias (name : String) (alternatives : List String)
deriving DecidableEq, Repr

/-- `CsParser.DeriveCountName`. -/
def deriveCountName (cppName : String) : String :=
  let chars := cppName.toList
  let endsWith (s : String) := s.toList.isSuffixOf chars
  let dropLast (n : Nat) := String.ofList (chars.take (chars.length - n))
  let baseName :=
    if endsWith "Ids" then dropLast 3
    else if endsWith "ies" then dropLast 3 ++ "y"
    else if endsWith "ses" || endsWith "xes" || endsWith "zes" then dropLast 2
    else if endsWith "s" then dropLast 1
    else cppName
  baseName ++ "Count"

def emitMember (m : MemberDef) : CppField :=
  match m.annot with
  | some (.fixedArray _ constName) =>
      .fixedArray m.elementCppType m.cppName constName (deriveCountName m.cppName)
  | _ => .plain m.cppType m.cppName m.defaultValue

/-- The constants of the C arrays, each name once. -/
def fixedArrayConsts : List MemberDef → List (String × Nat) → List (String × Nat)
  | [], consts => consts
  | m :: ms, consts =>
      match m.annot with
      | some (.fixedArray size constName) =>
          if constName ∈ consts.map Prod.fst then fixedArrayConsts ms consts
          else fixedArrayConsts ms (consts ++ [(constName, size)])
      | _ => fixedArrayConsts ms consts

def emitStruct (t : PackableType) : CppDeclaration :=
  .struct t.name t.pack1 (fixedArrayConsts t.members []) (t.members.map emitMember)

def emitUnionAlias (u : UnionDef) : CppDeclaration :=
  .unionAlias u.name ((u.alternatives.mergeSort fun a b => decide (a.1 ≤ b.1)).map Prod.snd)

def emitNode : Node → CppDeclaration
  | .type t => emitStruct t
  | .union u => emitUnionAlias u

/-- `EmitDeclarations`. -/
def Schema.emitDeclarations (S : Schema) : Option (List CppDeclaration) :=
  S.buildEmitOrder.map fun order => order.map emitNode

/-! ## Registrations -/

inductive UnmanagedMacro where
  /-- `MEMORYPACK_UNMANAGED`. -/
  | plain
  /-- `MEMORYPACK_UNMANAGED_EXACT`. -/
  | exact
  /-- `MEMORYPACK_UNMANAGED_SCRUBBED`. -/
  | scrubbed
deriving DecidableEq, Repr

structure Registration where
  kind : UnmanagedMacro
  type : String
  size : Nat
  members : List String
deriving DecidableEq, Repr

/-- What `EmitSerializers` writes for an unmanaged struct. -/
def emitUnmanaged (t : PackableType) : Registration :=
  if t.members.length = 0 then ⟨.plain, t.name, t.unmanagedSize, []⟩
  else
    { kind := if t.pack1 then .exact else .scrubbed, type := t.name, size := t.unmanagedSize,
      members := t.members.map MemberDef.cppName }

/-- The registrations of a header, in its order. -/
def Schema.emitUnmanagedAll (S : Schema) : Option (List Registration) :=
  S.buildEmitOrder.map fun order =>
    order.filterMap fun
      | .type t => if t.isUnmanaged then some (emitUnmanaged t) else none
      | .union _ => none

end MemoryPack.Cs2Cpp
