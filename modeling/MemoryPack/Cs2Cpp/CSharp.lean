import MemoryPack.Cs2Cpp.Syntax

/-!
# Constants in C#

What the language says about the constants of an enum: every subexpression has a type and
a value of that type, the operators exist for `int`, `uint`, `long` and `ulong` only, sums
and products are checked, shift counts are masked to the width of the left operand. Where
the compiler reports an error there is no value.
-/

namespace MemoryPack.Cs2Cpp

namespace Integral

def bits : Integral → Nat
  | .sbyte => 8
  | .byte => 8
  | .short => 16
  | .ushort => 16
  | .int => 32
  | .uint => 32
  | .long => 64
  | .ulong => 64

def signed : Integral → Bool
  | .sbyte => true
  | .short => true
  | .int => true
  | .long => true
  | _ => false

def min (t : Integral) : Int := if t.signed then -2 ^ (t.bits - 1) else 0

def max (t : Integral) : Int := if t.signed then 2 ^ (t.bits - 1) - 1 else 2 ^ t.bits - 1

def Holds (t : Integral) (x : Int) : Prop := t.min ≤ x ∧ x ≤ t.max

instance (t : Integral) (x : Int) : Decidable (t.Holds x) :=
  inferInstanceAs (Decidable (t.min ≤ x ∧ x ≤ t.max))

/-- The value that some bits have in a type. -/
def ofBits (t : Integral) (b : BitVec t.bits) : Int := if t.signed then b.toInt else b.toNat

def toBits (t : Integral) (x : Int) : BitVec t.bits := BitVec.ofInt t.bits x

end Integral

/-- The types of constants. -/
inductive ConstantType where
  | integral (t : Integral)
  | char
deriving DecidableEq, Repr

structure Constant where
  type : ConstantType
  value : Int
deriving DecidableEq, Repr

namespace Constant

/-- A constant converts implicitly to every type that has all values of its own, an `int`
to every type that has its value, a `long` that is not negative to `ulong`. -/
def Converts (c : Constant) (t : Integral) : Prop :=
  match c.type with
  | .char => t.min ≤ 0 ∧ 65535 ≤ t.max
  | .integral s =>
      t.min ≤ s.min ∧ s.max ≤ t.max ∨ s = .int ∧ t.Holds c.value ∨
        s = .long ∧ t = .ulong ∧ 0 ≤ c.value

instance : (c : Constant) → (t : Integral) → Decidable (c.Converts t)
  | ⟨.char, _⟩, t => inferInstanceAs (Decidable (t.min ≤ 0 ∧ 65535 ≤ t.max))
  | ⟨.integral s, x⟩, t =>
      inferInstanceAs (Decidable (t.min ≤ s.min ∧ s.max ≤ t.max ∨ s = .int ∧ t.Holds x ∨
        s = .long ∧ t = .ulong ∧ 0 ≤ x))

/-- Overload resolution among the predefined operators: the first of `ts` that all operands
convert to. -/
def operatorType (ts : List Integral) (cs : List Constant) : Option Integral :=
  ts.find? fun t => cs.all fun c => decide (c.Converts t)

/-- The types `+`, `~` and the binary operators are predefined for. -/
def operatorTypes : List Integral := [.int, .uint, .long, .ulong]

/-- A checked result. -/
def checked (t : Integral) (x : Int) : Option Constant :=
  if t.Holds x then some ⟨.integral t, x⟩ else none

def unary : UnaryOp → Constant → Option Constant
  | .plus, c => do
      let t ← operatorType operatorTypes [c]
      return ⟨.integral t, c.value⟩
  | .minus, c => do checked (← operatorType [.int, .long] [c]) (-c.value)
  | .tilde, c => do
      let t ← operatorType operatorTypes [c]
      return ⟨.integral t, t.ofBits (~~~t.toBits c.value)⟩
  | .other, _ => none

/-- The count of a shift is an `int`, and only its lowest bits matter. -/
def shiftCount (t : Integral) (count : Int) : Nat := (count % t.bits).toNat

def binary : BinaryOp → Constant → Constant → Option Constant
  | .bar, c, d => do
      let t ← operatorType operatorTypes [c, d]
      return ⟨.integral t, t.ofBits (t.toBits c.value ||| t.toBits d.value)⟩
  | .ampersand, c, d => do
      let t ← operatorType operatorTypes [c, d]
      return ⟨.integral t, t.ofBits (t.toBits c.value &&& t.toBits d.value)⟩
  | .lessThanLessThan, c, d => do
      let t ← operatorType operatorTypes [c]
      if d.Converts .int then
        return ⟨.integral t, t.ofBits (t.toBits c.value <<< shiftCount t d.value)⟩
      else none
  | .greaterThanGreaterThan, c, d => do
      let t ← operatorType operatorTypes [c]
      if d.Converts .int then return ⟨.integral t, c.value >>> shiftCount t d.value⟩ else none
  | .plus, c, d => do checked (← operatorType operatorTypes [c, d]) (c.value + d.value)
  | .minus, c, d => do checked (← operatorType operatorTypes [c, d]) (c.value - d.value)
  | .asterisk, c, d => do checked (← operatorType operatorTypes [c, d]) (c.value * d.value)
  | .other, _, _ => none

/-- A literal has the first type it fits into, among those its suffix allows. -/
def ofLiteral (n : Nat) (suffix : Suffix) : Option Constant := do
  let ts : List Integral :=
    match suffix with
    | .none => [.int, .uint, .long, .ulong]
    | .u => [.uint, .ulong]
    | .l => [.long, .ulong]
    | .ul => [.ulong]
  let t ← ts.find? fun t => decide (t.Holds n)
  return ⟨.integral t, n⟩

/-- The two decimal literals that exist behind a minus sign only. -/
def ofNegated : Expression → Option Constant
  | .number true n suffix =>
      if n = 2 ^ 31 ∧ suffix = .none then some ⟨.integral .int, -2 ^ 31⟩
      else if n = 2 ^ 63 ∧ (suffix = .none ∨ suffix = .l) then some ⟨.integral .long, -2 ^ 63⟩
      else none
  | _ => none

/-- A constant expression in an enum based on `base`, whose earlier members have the values
`env`: there these are of the base type. -/
def eval (base : Integral) (env : List (String × Int)) : Expression → Option Constant
  | .number _ n suffix => ofLiteral n suffix
  | .character c => some ⟨.char, c.toNat⟩
  | .unary op e =>
      match op, ofNegated e with
      | .minus, some c => some c
      | _, _ => do unary op (← eval base env e)
  | .identifier name => (env.lookup name).map fun x => ⟨.integral base, x⟩
  | .parenthesized e => eval base env e
  | .binary op l r => do binary op (← eval base env l) (← eval base env r)
  | .other => none

end Constant

/-- The value of a member behind one of the value `prev`. -/
def EnumMember.constant (base : Integral) (prev : Option Int) (env : List (String × Int))
    (m : EnumMember) : Option Int :=
  match m.equalsValue with
  | none =>
      let x := (prev.map (· + 1)).getD 0
      if base.Holds x then some x else none
  | some e => do
      let c ← Constant.eval base env e
      if c.Converts base then return c.value else none

/-- The values of all members. Two members of one name are an error. -/
def enumConstants (base : Integral) :
    Option Int → List (String × Int) → List EnumMember → Option (List Int)
  | _, _, [] => some []
  | prev, env, m :: ms => do
      if (env.lookup m.name).isSome then none
      else
        let x ← m.constant base prev env
        let xs ← enumConstants base (some x) ((m.name, x) :: env) ms
        return x :: xs

def EnumDeclaration.constants (d : EnumDeclaration) : Option (List Int) :=
  enumConstants d.underlying none [] d.members

end MemoryPack.Cs2Cpp
