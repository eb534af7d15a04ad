import MemoryPack.Cs2Cpp.EmitOrder
import Mathlib.Algebra.Group.Nat.Defs

/-!
# The schema hash, and what the generator makes of one input

`SchemaHash` names a schema by one number, which the header carries beside its dispatch
table and the C# file of `--emit-schema-hash-cs` carries alone. A header is kept here as
the data that its text is written from: the options, the enums, the types and unions in
the order of their declarations, and the dispatch table.
-/

namespace MemoryPack.Cs2Cpp

/-! ## SchemaHash.cs -/

namespace SchemaHash

/-- The members of one type, `index:CsType;` each. -/
def canonicalMembers : Nat → List MemberDef → String
  | _, [] => ""
  | index, m :: ms => toString index ++ ":" ++ m.csType ++ ";" ++ canonicalMembers (index + 1) ms

def buildCanonicalString : List PackableType → String
  | [] => ""
  | t :: ts => t.name ++ "(" ++ canonicalMembers 0 t.members ++ ")\n" ++ buildCanonicalString ts

def fnvOffsetBasis : UInt64 := 0xcbf29ce484222325

def fnvPrime : UInt64 := 0x100000001b3

/-- `Fnv1a64`, over the UTF-8 bytes of the text. -/
def fnv1a64 (text : String) : UInt64 :=
  (text.toList.flatMap String.utf8EncodeChar).foldl
    (fun hash b => (hash ^^^ b.toUInt64) * fnvPrime) fnvOffsetBasis

def compute (types : List PackableType) : UInt64 := fnv1a64 (buildCanonicalString types)

example : fnv1a64 "a" = 0xaf63dc4c8601ec8c := by decide +kernel

end SchemaHash

/-! ## One input -/

/-- What `Parse` reads of a compilation unit. -/
structure CompilationUnit where
  csNamespace : Option String := none
  enums : List EnumDeclaration
  types : List TypeDeclaration

/-- `CsParser.Parse`. -/
def CompilationUnit.parse (u : CompilationUnit) (nullableStrings : Bool) : Schema :=
  (collect u.enums u.types).schema nullableStrings

/-- `FindPacketIdEnum`: the first enum whose name is or ends with `PacketId`. -/
def Schema.findPacketIdEnum (S : Schema) : Option EnumDef :=
  S.enums.find? fun e => "PacketId".toList.isSuffixOf e.name.toList

inductive GeneratorStyle where
  | macroStyle
  | explicit
deriving DecidableEq, Repr

structure GeneratorOptions where
  style : GeneratorStyle := .macroStyle
  cppNamespace : Option String := none
  nullableStrings : Bool := false
  /-- `null`: on where there is a `PacketId` enum -/
  dispatch : Option Bool := none
deriving DecidableEq, Repr

/-- What `EmitDispatch` writes. -/
structure DispatchTable where
  enumName : String
  /-- the members of the enum that a packet type is named after -/
  cases : List String
  /-- `PACKET_SCHEMA_HASH` -/
  packetSchemaHash : UInt64
deriving DecidableEq, Repr

structure Header where
  style : GeneratorStyle
  cppNamespace : Option String
  enums : List EnumDef
  nodes : List Node
  dispatch : Option DispatchTable
deriving Repr

/-- The constant `PACKET_SCHEMA_HASH` of a header that contains one. -/
def Header.packetSchemaHash (h : Header) : Option UInt64 :=
  h.dispatch.map DispatchTable.packetSchemaHash

/-- The file of `--emit-schema-hash-cs`. -/
structure SchemaHashCs where
  csNamespace : Option String
  packetSchemaHash : UInt64
deriving DecidableEq, Repr

/-- `CppGenerator`, with the namespace its schema was found in. -/
structure CppGenerator where
  schema : Schema
  csNamespace : Option String
  options : GeneratorOptions

namespace CppGenerator

variable (g : CppGenerator)

/-- `emitOrder`. -/
def emitOrder : List Node := g.schema.buildEmitOrder.getD []

def orderedTypes : List PackableType :=
  g.emitOrder.filterMap fun
    | .type t => some t
    | .union _ => none

def schemaHashValue : UInt64 := SchemaHash.compute g.orderedTypes

/-- `DispatchEnabled`. -/
def dispatchEnabled : Bool :=
  if g.options.dispatch = some false then false
  else
    match g.schema.findPacketIdEnum with
    | none => false
    | some e => e.members.any fun m => (g.schema.typeByName m.name).isSome

/-- `EmitDispatch`. -/
def emitDispatch : Option DispatchTable :=
  if g.dispatchEnabled then
    g.schema.findPacketIdEnum.map fun e =>
      { enumName := e.name
        cases := e.members.filterMap fun m =>
          match g.schema.typeByName m.name with
          | none => none
          | some t => if t.isUnmanaged then none else some m.name
        packetSchemaHash := g.schemaHashValue }
  else none

/-- `Generate`. -/
def generate : Header where
  style := g.options.style
  cppNamespace := g.options.cppNamespace
  enums := g.schema.enums
  nodes := g.emitOrder
  dispatch := g.emitDispatch

def generateSchemaHashCs : SchemaHashCs := ⟨g.csNamespace, g.schemaHashValue⟩

end CppGenerator

/-- The generator of one input. -/
def CompilationUnit.generator (u : CompilationUnit) (options : GeneratorOptions) : CppGenerator :=
  ⟨u.parse options.nullableStrings, u.csNamespace, options⟩

open DepthFirst in
/-- `BuildEmitOrder` ends on every schema. -/
theorem CppGenerator.buildEmitOrder_eq (g : CppGenerator) :
    g.schema.buildEmitOrder = some g.emitOrder := by
  obtain ⟨emitted, h⟩ := @visitAll_ends _ _ g.schema.dependencies [] _
    (g.schema.nodes.map Node.name) (fun n hn => Schema.isNode_iff.mp hn) (Nat.lt_succ_self _)
    (g.schema.nodes.map Node.name)
  have hsome : ∃ order, g.schema.buildEmitOrder = some order :=
    ⟨_, by
      rw [Schema.buildEmitOrder, h]
      rfl⟩
  obtain ⟨order, horder⟩ := hsome
  rw [emitOrder, horder]
  rfl

deriving instance DecidableEq for MemberDef
deriving instance DecidableEq for PackableType
deriving instance DecidableEq for Node
deriving instance DecidableEq for Header

end MemoryPack.Cs2Cpp
