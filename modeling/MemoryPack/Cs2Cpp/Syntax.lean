import Mathlib.Algebra.Group.Int.Defs
import Mathlib.Algebra.Group.Nat.Defs
import Mathlib.Data.List.Basic

/-!
# C# declarations as the generator sees them

The syntax trees that Roslyn hands to cs2cpp, as far as `CsParser` looks at them. A field
declaration with several variables stands here as one member for each.
-/

namespace MemoryPack.Cs2Cpp

/-! ## Constant expressions -/

inductive Suffix where
  | none
  | u
  | l
  | ul
deriving DecidableEq, Repr

inductive UnaryOp where
  | plus
  | minus
  | tilde
  | other
deriving DecidableEq, Repr

inductive BinaryOp where
  | bar
  | ampersand
  | lessThanLessThan
  | greaterThanGreaterThan
  | plus
  | minus
  | asterisk
  | other
deriving DecidableEq, Repr

/-- `ExpressionSyntax`. A numeric literal is its value, its suffix and whether it is
written in decimal. -/
inductive Expression where
  | number (decimal : Bool) (n : Nat) (suffix : Suffix)
  | character (c : UInt16)
  | unary (op : UnaryOp) (operand : Expression)
  | identifier (name : String)
  | parenthesized (e : Expression)
  | binary (op : BinaryOp) (left right : Expression)
  | other
deriving DecidableEq, Repr

/-- An expression and all that it is built from. -/
def Expression.parts : Expression → List Expression
  | .unary op e => .unary op e :: e.parts
  | .parenthesized e => .parenthesized e :: e.parts
  | .binary op l r => .binary op l r :: (l.parts ++ r.parts)
  | e => [e]

/-! ## Enums -/

/-- The integral types an enum can be based on. -/
inductive Integral where
  | sbyte
  | byte
  | short
  | ushort
  | int
  | uint
  | long
  | ulong
deriving DecidableEq, Repr

def Integral.keyword : Integral → String
  | .sbyte => "sbyte"
  | .byte => "byte"
  | .short => "short"
  | .ushort => "ushort"
  | .int => "int"
  | .uint => "uint"
  | .long => "long"
  | .ulong => "ulong"

/-- The name in the namespace `System`. -/
def Integral.typeName : Integral → String
  | .sbyte => "SByte"
  | .byte => "Byte"
  | .short => "Int16"
  | .ushort => "UInt16"
  | .int => "Int32"
  | .uint => "UInt32"
  | .long => "Int64"
  | .ulong => "UInt64"

/-- How a base type may be spelled: `byte`, `Byte`, `System.Byte`. -/
inductive Spelling where
  | keyword
  | simple
  | qualified
deriving DecidableEq, Repr

structure EnumMember where
  name : String
  equalsValue : Option Expression := none
deriving DecidableEq, Repr

structure EnumDeclaration where
  name : String
  baseType : Option (Integral × Spelling) := none
  members : List EnumMember
deriving DecidableEq, Repr

/-- `Type.ToString()` of the base, `int` if there is none. -/
def EnumDeclaration.baseText (d : EnumDeclaration) : String :=
  match d.baseType with
  | none => "int"
  | some (t, .keyword) => t.keyword
  | some (t, .simple) => t.typeName
  | some (t, .qualified) => "System." ++ t.typeName

/-- The type itself. -/
def EnumDeclaration.underlying (d : EnumDeclaration) : Integral :=
  (d.baseType.map Prod.fst).getD .int

/-! ## Types -/

/-- `TypeSyntax`. An array has the number of commas of each of its rank specifiers: `int[][,]`
is an array of `int` with two of them. -/
inductive TypeSyntax where
  | predefined (name : String)
  | identifier (name : String)
  | generic (name : String) (args : List TypeSyntax)
  | qualified (left : String) (right : TypeSyntax)
  | aliasQualified (left : String) (name : TypeSyntax)
  | nullable (element : TypeSyntax)
  | array (element : TypeSyntax) (ranks : List Nat)
  | other (text : String)
deriving Repr

/-- The text of rank specifiers. -/
def ranksText : List Nat → String
  | [] => ""
  | commas :: ranks => "[" ++ String.ofList (List.replicate commas ',') ++ "]" ++ ranksText ranks

mutual
/-- `ToString()`, with one blank behind a comma. -/
def TypeSyntax.text : TypeSyntax → String
  | .predefined name => name
  | .identifier name => name
  | .generic name args => name ++ "<" ++ TypeSyntax.textOfArgs args ++ ">"
  | .qualified left right => left ++ "." ++ right.text
  | .aliasQualified left name => left ++ "::" ++ name.text
  | .nullable element => element.text ++ "?"
  | .array element ranks => element.text ++ ranksText ranks
  | .other text => text

def TypeSyntax.textOfArgs : List TypeSyntax → String
  | [] => ""
  | [t] => t.text
  | t :: ts => t.text ++ ", " ++ TypeSyntax.textOfArgs ts
end

/-- `CsParser.SimpleName`: the last identifier of a name. -/
def TypeSyntax.simpleName : TypeSyntax → String
  | .qualified _ right => right.simpleName
  | .aliasQualified _ name => name.simpleName
  | .generic name _ => name
  | .identifier name => name
  | t => t.text

/-! ## Type declarations -/

inductive UserTypeKind where
  | classKind
  | structKind
  | interfaceKind
deriving DecidableEq, Repr

/-- `[cpp:fixed_array(size, constName)]` and `[cpp:std_array(size)]`. -/
inductive CppAnnot where
  | fixedArray (size : Nat) (constName : String)
  | stdArray (size : Nat)
deriving DecidableEq, Repr

/-- A parameter of a positional record, a property, or one variable of a field. -/
inductive MemberKind where
  | parameter
  /-- `auto`: it has a getter and no accessor has a body. -/
  | property (auto : Bool)
  | field (isConst : Bool)
deriving DecidableEq, Repr

structure MemberSyntax where
  name : String
  type : TypeSyntax
  kind : MemberKind
  isPublic : Bool := true
  isStatic : Bool := false
  /-- `[MemoryPackIgnore]`. -/
  ignored : Bool := false
  /-- The argument of `[MemoryPackOrder]`. -/
  order : Option Expression := none
  annot : Option CppAnnot := none
deriving Repr

structure TypeDeclaration where
  name : String
  kind : UserTypeKind
  /-- `[MemoryPackable]`. -/
  packable : Bool := true
  versionTolerant : Bool := false
  /-- `[StructLayout(LayoutKind.Sequential, Pack = 1)]`. -/
  pack1 : Bool := false
  /-- In the order of their declarations, those of a positional record first. -/
  members : List MemberSyntax
  /-- `[MemoryPackUnion(tag, typeof(T))]`. -/
  unionAttrs : List (Expression × TypeSyntax) := []
deriving Repr

end MemoryPack.Cs2Cpp
