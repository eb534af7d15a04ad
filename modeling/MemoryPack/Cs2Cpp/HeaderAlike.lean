import MemoryPack.Cs2Cpp.Program
import MemoryPack.Wire.Interchange

/-!
# Headers that are alike

Two headers give the same names to C++ types, perhaps with an optional text in one where the
other has a text, or an array where the other has a vector. If besides their enums, unions
and structs mean the same, a member has types of the library that are alike
(`member_alike`), and the user types of the two programs are alike (`decl_alike`).
-/

namespace MemoryPack.Cs2Cpp

open Layout

/-! ## Mapped types that are alike -/

namespace CppType

/-- C++ types of two headers for one C# type. -/
inductive Alike : CppType → CppType → Prop
  | builtin (name : String) : Alike (.builtin name) (.builtin name)
  | named (name : String) : Alike (.named name) (.named name)
  | stringOptional : Alike (.builtin "std::string") (.optional (.builtin "std::string"))
  | optionalString : Alike (.optional (.builtin "std::string")) (.builtin "std::string")
  | optional {t t' : CppType} (h : Alike t t') (ht : t.isOptional = false)
      (ht' : t'.isOptional = false) : Alike (.optional t) (.optional t')
  | vector {t t' : CppType} (h : Alike t t') : Alike (.vector t) (.vector t')
  | map {k k' v v' : CppType} (hk : Alike k k') (hv : Alike v v') : Alike (.map k v) (.map k' v')
  | set {t t' : CppType} (h : Alike t t') : Alike (.set t) (.set t')
  | pair {a a' b b' : CppType} (ha : Alike a a') (hb : Alike b b') :
      Alike (.pair a b) (.pair a' b')

/-- An annotation may turn a vector into an array. -/
def Annotated (mapped type : CppType) : Prop :=
  type = mapped ∨ ∃ e n, mapped = .vector e ∧ type = .array e n

/-- Types of one member in two headers. -/
def MemberAlike (type type' : CppType) : Prop :=
  ∃ mapped mapped', Alike mapped mapped' ∧ mapped.Annotated type ∧ mapped'.Annotated type'

theorem isOptional_of_alike {t t' : CppType} (h : t.Alike t') :
    t.isOptional = t'.isOptional ∨
      (t = .builtin "std::string" ∧ t' = .optional (.builtin "std::string")) ∨
      (t = .optional (.builtin "std::string") ∧ t' = .builtin "std::string") := by
  cases h with
  | stringOptional => exact .inr (.inl ⟨rfl, rfl⟩)
  | optionalString => exact .inr (.inr ⟨rfl, rfl⟩)
  | _ => exact .inl rfl

end CppType

namespace TypeMapper

/-- The same names mean the same kinds of types. -/
structure Agree (M M' : TypeMapper) : Prop where
  enums : ∀ name, name ∈ M.enums ↔ name ∈ M'.enums
  unions : ∀ name, name ∈ M.unions ↔ name ∈ M'.unions
  types : ∀ name, M.types.lookup name = M'.types.lookup name

variable {M M' : TypeMapper} {e e' k k' v v' : MappedType}

theorem mapNamed_eq (hM : M.Agree M') (name : String) (topLevel : Bool) :
    M.mapNamed name topLevel = M'.mapNamed name topLevel := by
  simp only [mapNamed, hM.enums name, hM.unions name, hM.types name]

theorem mapNamed_alike (hM : M.Agree M') (name : String) (topLevel : Bool) :
    (M.mapNamed name topLevel).cppType.Alike (M'.mapNamed name topLevel).cppType := by
  rw [← mapNamed_eq hM]
  unfold mapNamed
  split
  · exact .builtin _
  split
  · exact .builtin _
  split
  · exact .builtin _
  split
  · exact .named _
  split
  · exact .optional (.named _) rfl rfl
  split
  · exact .named _
  · cases topLevel with
    | true => exact .optional (.named _) rfl rfl
    | false => exact .named _
  · exact .named _

/-- The option for `string?` may differ. -/
theorem mapString_alike : M.mapString.cppType.Alike M'.mapString.cppType := by
  unfold mapString
  split
  · split
    · exact .builtin _
    · exact .stringOptional
  · split
    · exact .optionalString
    · exact .optional (.builtin _) rfl rfl

theorem wrapOptional_cppType (e : MappedType) :
    (wrapOptional e).cppType = if e.cppType.isOptional then e.cppType else .optional e.cppType := by
  unfold wrapOptional
  split <;> rfl

theorem wrapOptional_alike (h : e.cppType.Alike e'.cppType) :
    (wrapOptional e).cppType.Alike (wrapOptional e').cppType := by
  rw [wrapOptional_cppType, wrapOptional_cppType]
  rcases CppType.isOptional_of_alike h with heq | ⟨ht, ht'⟩ | ⟨ht, ht'⟩
  · cases hopt : e.cppType.isOptional with
    | true =>
      rw [if_pos rfl, if_pos (heq ▸ hopt)]
      exact h
    | false =>
      have hopt' : e'.cppType.isOptional = false := heq ▸ hopt
      rw [if_neg (by simp), if_neg (by simp [hopt'])]
      exact .optional h hopt hopt'
  · -- a text that is optional twice is optional once
    rw [ht, ht']
    exact .optional (.builtin _) rfl rfl
  · rw [ht, ht']
    exact .optional (.builtin _) rfl rfl

theorem mapNullable_alike {core core' : Bool → MappedType} (element : TypeSyntax)
    (topLevel : Bool) (h : ∀ topLevel, (core topLevel).cppType.Alike (core' topLevel).cppType) :
    (M.mapNullable element core topLevel).cppType.Alike
      (M'.mapNullable element core' topLevel).cppType := by
  unfold mapNullable
  split
  · exact h topLevel
  · exact h topLevel
  · split
    · exact mapString_alike
    · exact wrapOptional_alike (h false)

/-- The arguments of a generic type under two mappers. -/
def ArgsAlike (args args' : List (TypeSyntax × (Bool → MappedType))) : Prop :=
  List.Forall₂ (fun a a' => a.1 = a'.1 ∧
    ∀ topLevel, (a.2 topLevel).cppType.Alike (a'.2 topLevel).cppType) args args'

theorem mapGeneric_alike (generic : TypeSyntax) (name : String) (topLevel : Bool)
    {args args' : List (TypeSyntax × (Bool → MappedType))} (h : ArgsAlike args args') :
    (M.mapGeneric generic name topLevel args).cppType.Alike
      (M'.mapGeneric generic name topLevel args').cppType := by
  have hunknown : (mapUnknownGeneric generic name).cppType.Alike
      (mapUnknownGeneric generic name).cppType := .named _
  cases h with
  | nil => exact hunknown
  | @cons a a' _ _ ha hrest =>
    obtain ⟨type, core⟩ := a
    obtain ⟨type', core'⟩ := a'
    obtain ⟨rfl, ha⟩ : type = type' ∧ _ := ha
    cases hrest with
    | nil =>
      unfold mapGeneric
      dsimp only
      split
      · exact mapNullable_alike _ _ ha
      split
      · exact .vector (ha false)
      split
      · exact .set (ha false)
      · exact hunknown
    | @cons b b' _ _ hb hrest =>
      obtain ⟨value, vcore⟩ := b
      obtain ⟨value', vcore'⟩ := b'
      cases hrest with
      | nil =>
        unfold mapGeneric
        dsimp only
        split
        · exact .map (ha false) (hb.2 false)
        split
        · exact .pair (ha false) (hb.2 false)
        · exact hunknown
      | cons => exact hunknown

mutual
/-- Two mappers that agree map one type to types that are alike. -/
theorem mapCore_alike (hM : M.Agree M') (t : TypeSyntax) (topLevel : Bool) :
    (M.mapCore t topLevel).cppType.Alike (M'.mapCore t topLevel).cppType := by
  match t with
  | .nullable element => exact mapNullable_alike element topLevel (mapCore_alike hM element)
  | .array element _ => exact .vector (mapCore_alike hM element false)
  | .generic name args => exact mapGeneric_alike _ name topLevel (mapArgs_alike hM args)
  | .qualified _ right => exact mapCore_alike hM right topLevel
  | .predefined _ | .identifier _ | .aliasQualified _ _ | .other _ =>
    exact mapNamed_alike hM _ topLevel

theorem mapArgs_alike (hM : M.Agree M') (args : List TypeSyntax) :
    ArgsAlike (M.mapArgs args) (M'.mapArgs args) := by
  match args with
  | [] => exact .nil
  | arg :: args => exact .cons ⟨rfl, mapCore_alike hM arg⟩ (mapArgs_alike hM args)
end

end TypeMapper

/-! ## Headers that are alike -/

/-- The C++ type of an enum, and the layout that the parser knows its base to have. -/
def EnumDef.underlying (e : EnumDef) : String × Option (Nat × Nat) :=
  (e.cppBaseType, primitiveLayout e.csBaseType)

structure PackableType.Alike (t t' : PackableType) : Prop where
  name : t.name = t'.name
  versionTolerant : t.versionTolerant = t'.versionTolerant
  pack1 : t.pack1 = t'.pack1
  isUnmanaged : t.isUnmanaged = t'.isUnmanaged
  members : List.Forall₂ (fun m m' => CppType.MemberAlike m.cppType m'.cppType)
    t.members t'.members

/-- Two schemas give each name a meaning that is the same on the wire. -/
structure Schema.Alike (S S' : Schema) : Prop where
  enums : ∀ name, (S.enumByName name).map EnumDef.underlying =
    (S'.enumByName name).map EnumDef.underlying
  unions : ∀ name, (S.unionByName name).map UnionDef.ordered =
    (S'.unionByName name).map UnionDef.ordered
  types : ∀ name, Option.Rel PackableType.Alike (S.typeByName name) (S'.typeByName name)

section Shapes

variable {S S' : Schema} {name : String} {type type' : CppType} {s s' : Shape}

end Shapes

/-! ## Types of the library -/

/-- The structs with a serializer. -/
def CppGenerator.Serialized (g : CppGenerator) (i : Nat) : Prop :=
  ∃ t, g.orderedTypes[i]? = some t ∧ t.isUnmanaged = false

theorem Registration.exists_of_ty {r : Registration} {shape : Option Shape} {T : Ty}
    (h : r.ty shape = some T) : ∃ pack1 ms, shape = some (.struct pack1 ms) ∧
      T = .unmanaged (r.unmanaged pack1 ms) := by
  unfold Registration.ty at h
  split at h
  case h_1 pack1 ms =>
    split at h
    · exact ⟨pack1, ms, rfl, (Option.some.inj h).symm⟩
    · cases h
  case h_2 => cases h

section Types

variable {g g' : CppGenerator} {T T' : Ty} {name : String}

/-- What a name can be. -/
theorem namedTy_cases {n : Nat} (h : g.namedTy n name = some T) :
    (∃ e, g.schema.enumByName name = some e ∧ enumTy e = some T) ∨
    (g.schema.enumByName name = none ∧
      ∃ t, g.schema.typeByName name = some t ∧ g.typeTy t = some T) ∨
    (g.schema.enumByName name = none ∧ g.schema.typeByName name = none ∧
      ∃ m u, n = m + 1 ∧ g.schema.unionByName name = some u ∧
        unionTy (g.namedTy m) u = some T) := by
  unfold CppGenerator.namedTy at h
  cases henum : g.schema.enumByName name with
  | some e =>
    rw [henum] at h
    exact .inl ⟨e, rfl, h⟩
  | none =>
    rw [henum] at h
    cases htype : g.schema.typeByName name with
    | some t =>
      rw [htype] at h
      exact .inr (.inl ⟨rfl, t, rfl, h⟩)
    | none =>
      rw [htype] at h
      cases n with
      | zero => cases h
      | succ m =>
        obtain ⟨u, hu, h⟩ := Option.bind_eq_some_iff.mp h
        exact .inr (.inr ⟨rfl, rfl, m, u, rfl, hu, h⟩)

theorem alike_of_named {named : String → Option Ty} {D : Nat → Prop}
    (hnamed : ∀ name T, named name = some T → Ty.Alike D T T) {as : List (Int × String)}
    {ts : List Ty} (h : alternativeTys named as = some ts) : ∀ t ∈ ts, Ty.Alike D t t := by
  induction as generalizing ts with
  | nil =>
    obtain rfl := Option.some.inj h
    simp
  | cons a as ih =>
    obtain ⟨t, ht, h⟩ := Option.bind_eq_some_iff.mp h
    obtain ⟨us, hus, h⟩ := Option.bind_eq_some_iff.mp h
    obtain rfl := Option.some.inj h
    exact List.forall_mem_cons.mpr ⟨hnamed _ t ht, ih hus⟩

theorem typeTy_refl {t : PackableType} (ht : t ∈ g.orderedTypes) (hT : g.typeTy t = some T) :
    Ty.Alike g.Serialized T T := by
  unfold CppGenerator.typeTy at hT
  cases hmanaged : t.isUnmanaged with
  | true =>
    rw [hmanaged, if_pos rfl] at hT
    obtain ⟨pack1, ms, -, rfl⟩ := Registration.exists_of_ty hT
    exact .unmanaged _
  | false =>
    rw [hmanaged, if_neg (by decide)] at hT
    obtain ⟨i, hi, rfl⟩ := Option.map_eq_some_iff.mp hT
    exact .object i ⟨t, CppGenerator.getElem?_of_number ht hi, hmanaged⟩

theorem namedTy_refl {n : Nat} (hT : g.namedTy n name = some T) : Ty.Alike g.Serialized T T := by
  induction n using Nat.strong_induction_on generalizing name T with
  | _ n ih =>
    rcases namedTy_cases hT with ⟨e, -, hT⟩ | ⟨-, t, ht, hT⟩ | ⟨-, -, m, u, hn, -, hT⟩
    · unfold enumTy at hT
      split at hT
      · obtain rfl := Option.some.inj hT
        exact .scalar _
      · cases hT
    · have hname : t.name = name := by simpa using List.find?_some ht
      apply typeTy_refl _ hT
      rw [CppGenerator.mem_orderedTypes, hname, ht]
    · obtain ⟨ts, hts, rfl⟩ := Option.map_eq_some_iff.mp hT
      exact .variant _ (alike_of_named (fun _ _ hT => ih m (by omega) hT) hts)

theorem builtinTy_refl {D : Nat → Prop} (hT : builtinTy name = some T) : Ty.Alike D T T := by
  unfold builtinTy at hT
  split at hT
  · obtain rfl := Option.some.inj hT
    exact .scalar _
  split at hT
  · obtain rfl := Option.some.inj hT
    exact .string
  split at hT
  · obtain rfl := Option.some.inj hT
    exact .dotNet _
  · obtain ⟨r, -, hT⟩ := Option.bind_eq_some_iff.mp hT
    obtain ⟨pack1, ms, -, rfl⟩ := Registration.exists_of_ty hT
    exact .unmanaged _

section Alike

variable {type type' : CppType} (h : g.schema.Alike g'.schema)
  (hnames : g.orderedTypes.map PackableType.name = g'.orderedTypes.map PackableType.name)

end Alike

end Types

end MemoryPack.Cs2Cpp
