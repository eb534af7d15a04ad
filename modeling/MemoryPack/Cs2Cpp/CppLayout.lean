import MemoryPack.Cs2Cpp.CppGenerator
import MemoryPack.Lib.Shape

/-!
# Generated structs in memory

The layout of the C++ types that a trivially copyable member can have, with the natural
alignments of a 64-bit ABI and `#pragma pack(1)`.
-/

namespace MemoryPack.Cs2Cpp

open Layout

/-- A scalar of `2 ^ log` bytes, aligned to its size. -/
def scalarShape (log : Nat) : Shape := .scalar ⟨2 ^ log, log, Nat.two_pow_pos log⟩

/-- The sizes of the arithmetic types. -/
def cppScalars : List (String × Nat) :=
  [("bool", 0), ("uint8_t", 0), ("int8_t", 0), ("int16_t", 1), ("uint16_t", 1),
    ("int32_t", 2), ("uint32_t", 2), ("int64_t", 3), ("uint64_t", 3), ("float", 2),
    ("double", 3), ("char16_t", 1)]

/-- The classes of dotnet.hpp. -/
def cppClasses : List (String × Shape) :=
  [("memorypack::Guid", .struct false
      ([scalarShape 2, scalarShape 1, scalarShape 1] ++ List.replicate 8 (scalarShape 0))),
    ("memorypack::DateTime", .struct false [scalarShape 3]),
    ("memorypack::TimeSpan", .struct false [scalarShape 3]),
    ("memorypack::DateTimeOffset",
      .struct false [scalarShape 1, .struct false [scalarShape 3]]),
    ("memorypack::Decimal", .struct false (List.replicate 16 (scalarShape 0))),
    ("memorypack::Half", .struct false [scalarShape 1]),
    ("memorypack::Int128", .struct false (List.replicate 2 (scalarShape 3))),
    ("memorypack::UInt128", .struct false (List.replicate 2 (scalarShape 3))),
    ("memorypack::Vector2", .struct false (List.replicate 2 (scalarShape 2))),
    ("memorypack::Vector3", .struct false (List.replicate 3 (scalarShape 2))),
    ("memorypack::Vector4", .struct false (List.replicate 4 (scalarShape 2))),
    ("memorypack::Quaternion", .struct false (List.replicate 4 (scalarShape 2)))]

/-- The members of a struct. A C array stands for a collection, which is not laid out. -/
def fieldShapes (shape : CppType → Option Shape) : List CppField → Option (List Shape)
  | [] => some []
  | .plain type _ _ :: fields => do
      let m ← shape type
      let ms ← fieldShapes shape fields
      return m :: ms
  | .fixedArray _ _ _ _ :: _ => none

def declShape (shape : CppType → Option Shape) : CppDeclaration → Option Shape
  | .struct _ pack1 _ fields => (fieldShapes shape fields).map (.struct pack1)
  | .unionAlias _ _ => none

def builtinShape (name : String) : Option Shape :=
  match cppScalars.lookup name with
  | some log => some (scalarShape log)
  | none => cppClasses.lookup name

def enumShape (e : EnumDef) : Option Shape := (cppScalars.lookup e.cppBaseType).map scalarShape

namespace Schema

variable (S : Schema)

def enumByName (name : String) : Option EnumDef := S.enums.find? fun e => e.name = name

/-- A type whose structs are nested `n` deep at most. -/
def shape : Nat → CppType → Option Shape
  | _, .builtin name => builtinShape name
  | 0, .named name => (S.enumByName name).bind enumShape
  | n + 1, .named name =>
      match S.enumByName name with
      | some e => enumShape e
      | none => (S.typeByName name).bind fun t => declShape (shape n) (emitStruct t)
  | _, .optional _ => none
  | _, .vector _ => none
  | _, .map _ _ => none
  | _, .set _ => none
  | _, .pair _ _ => none
  | _, .array _ _ => none

/-- Where the members of an emitted struct stand. -/
def memberOffsets (n : Nat) (t : PackableType) : Option (List Nat) :=
  match declShape (S.shape n) (emitStruct t) with
  | some (.struct pack1 ms) => some (offsets 0 (Shape.packedExtents pack1 ms))
  | _ => none

end Schema

/-! ## Depth -/

section

variable {S : Schema} {shape shape' : CppType → Option Shape} {n m : Nat}

theorem fieldShapes_extend (h : ∀ type s, shape type = some s → shape' type = some s)
    {fields : List CppField} {ms : List Shape} (hms : fieldShapes shape fields = some ms) :
    fieldShapes shape' fields = some ms := by
  induction fields generalizing ms with
  | nil => exact hms
  | cons f fields ih =>
    cases f with
    | plain type name init =>
      obtain ⟨m, hm, hms⟩ := Option.bind_eq_some_iff.mp hms
      obtain ⟨ms', hms', heq⟩ := Option.bind_eq_some_iff.mp hms
      rw [fieldShapes, h type m hm, Option.bind_eq_bind, Option.bind_some, ih hms']
      exact heq
    | fixedArray => cases hms

theorem declShape_extend (h : ∀ type s, shape type = some s → shape' type = some s)
    {d : CppDeclaration} {s : Shape} (hs : declShape shape d = some s) :
    declShape shape' d = some s := by
  cases d with
  | struct name pack1 consts fields =>
    obtain ⟨ms, hms, heq⟩ := Option.map_eq_some_iff.mp hs
    rw [declShape, fieldShapes_extend h hms, Option.map_some, heq]
  | unionAlias => cases hs

theorem Schema.shape_enum {name : String} {e : EnumDef} (h : S.enumByName name = some e)
    (n : Nat) : S.shape n (.named name) = enumShape e := by
  cases n with
  | zero => rw [shape, h, Option.bind_some]
  | succ n => rw [shape, h]

theorem Schema.shape_type {name : String} (h : S.enumByName name = none) :
    S.shape 0 (.named name) = none ∧ ∀ n, S.shape (n + 1) (.named name) =
      (S.typeByName name).bind fun t => declShape (S.shape n) (emitStruct t) := by
  refine ⟨by rw [shape, h, Option.bind_none], fun n => ?_⟩
  rw [shape, h]

theorem Schema.shape_mono {type : CppType} {s : Shape} (h : S.shape n type = some s)
    (hnm : n ≤ m) : S.shape m type = some s := by
  induction n generalizing m type s with
  | zero =>
    cases type with
    | builtin name =>
      rw [shape] at h ⊢
      exact h
    | named name =>
      cases henum : S.enumByName name with
      | some e =>
        rw [shape_enum henum] at h ⊢
        exact h
      | none =>
        rw [(shape_type henum).1] at h
        cases h
    | _ => cases h
  | succ n ih =>
    obtain ⟨m, rfl⟩ : ∃ k, m = k + 1 := ⟨m - 1, by omega⟩
    cases type with
    | builtin name =>
      rw [shape] at h ⊢
      exact h
    | named name =>
      cases henum : S.enumByName name with
      | some e =>
        rw [shape_enum henum] at h ⊢
        exact h
      | none =>
        rw [(shape_type henum).2] at h ⊢
        obtain ⟨t, ht, h⟩ := Option.bind_eq_some_iff.mp h
        refine Option.bind_eq_some_iff.mpr ⟨t, ht, ?_⟩
        exact declShape_extend (fun _ _ hs => ih hs (Nat.le_of_succ_le_succ hnm)) h
    | _ => cases h

theorem declShape_emitStruct {t : PackableType} {s : Shape}
    (h : declShape shape (emitStruct t) = some s) :
    ∃ ms, s = .struct t.pack1 ms ∧ fieldShapes shape (t.members.map emitMember) = some ms := by
  obtain ⟨ms, hms, rfl⟩ := Option.map_eq_some_iff.mp h
  exact ⟨ms, rfl, hms⟩

theorem length_of_fieldShapes {fields : List CppField} {ms : List Shape}
    (h : fieldShapes shape fields = some ms) : ms.length = fields.length := by
  induction fields generalizing ms with
  | nil =>
    obtain rfl := Option.some.inj h
    rfl
  | cons f fields ih =>
    cases f with
    | plain type name init =>
      obtain ⟨m, hm, h⟩ := Option.bind_eq_some_iff.mp h
      obtain ⟨ms', hms', heq⟩ := Option.bind_eq_some_iff.mp h
      obtain rfl := Option.some.inj heq
      exact congrArg Nat.succ (ih hms')
    | fixedArray => cases h

/-- A struct has the packing and the members of the type it is emitted for. -/
theorem Schema.shape_struct {t : PackableType} {pack1 : Bool} {ms : List Shape}
    (ht : S.typeByName t.name = some t) (h : S.shape n (.named t.name) = some (.struct pack1 ms)) :
    pack1 = t.pack1 ∧ ms.length = t.members.length := by
  cases henum : S.enumByName t.name with
  | some e =>
    rw [shape_enum henum] at h
    obtain ⟨log, _, hlog⟩ := Option.map_eq_some_iff.mp h
    cases hlog
  | none =>
    cases n with
    | zero =>
      rw [(shape_type henum).1] at h
      cases h
    | succ n =>
      rw [(shape_type henum).2, ht, Option.bind_some] at h
      obtain ⟨ms', heq, hms'⟩ := declShape_emitStruct h
      cases heq
      exact ⟨rfl, by rw [length_of_fieldShapes hms', List.length_map]⟩

end

end MemoryPack.Cs2Cpp
