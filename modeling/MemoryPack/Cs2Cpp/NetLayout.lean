import MemoryPack.Cs2Cpp.UnmanagedLayout
import MemoryPack.Cs2Cpp.EmitOrder
import MemoryPack.Cs2Cpp.CppLayout

/-!
# Generated structs against the .NET layout

.NET lays a struct out over all its instance fields. The parser computes a size over those
that are serialized, and the generator emits these, ordered by `[MemoryPackOrder]`.
-/

namespace MemoryPack.Cs2Cpp

open Layout Collected

/-! ## Sequential layout of .NET -/

/-- A primitive of `2 ^ log` bytes. -/
def netScalar (log : Nat) : Extent := ⟨2 ^ log, log, Nat.two_pow_pos log⟩

def netPrimitives : List (String × Nat) :=
  [("bool", 0), ("Boolean", 0), ("byte", 0), ("Byte", 0), ("sbyte", 0), ("SByte", 0),
    ("short", 1), ("Int16", 1), ("ushort", 1), ("UInt16", 1), ("char", 1), ("Char", 1),
    ("int", 2), ("Int32", 2), ("uint", 2), ("UInt32", 2), ("float", 2), ("Single", 2),
    ("long", 3), ("Int64", 3), ("ulong", 3), ("UInt64", 3), ("double", 3), ("Double", 3)]

/-- `Guid` starts with an `int`, the types of `System.Numerics` are all `float`. -/
def netNumerics : List (String × Extent) :=
  [("Guid", ⟨16, 2, Nat.succ_pos 15⟩), ("Vector2", ⟨8, 2, Nat.succ_pos 7⟩),
    ("Vector3", ⟨12, 2, Nat.succ_pos 11⟩), ("Vector4", ⟨16, 2, Nat.succ_pos 15⟩),
    ("Quaternion", ⟨16, 2, Nat.succ_pos 15⟩)]

def Integral.log : Integral → Nat
  | .sbyte => 0
  | .byte => 0
  | .short => 1
  | .ushort => 1
  | .int => 2
  | .uint => 2
  | .long => 3
  | .ulong => 3

/-- The name that a type without type arguments is known by. -/
def TypeSyntax.netName : TypeSyntax → Option String
  | .predefined name => some name
  | .identifier name => some name
  | .qualified _ right => right.netName
  | .aliasQualified _ name => name.netName
  | _ => none

/-- Fields, automatic properties and the properties of a positional record have storage. -/
def MemberSyntax.isInstance (m : MemberSyntax) : Bool :=
  match m.kind with
  | .parameter => true
  | .property auto => auto && !m.isStatic
  | .field isConst => !m.isStatic && !isConst

/-- Serialized, and so a member of the emitted struct. -/
def MemberSyntax.isKept (m : MemberSyntax) : Bool := isSerializable m && !m.ignored

/-- Enums and structs of the source. -/
structure Declarations where
  enums : List EnumDeclaration
  structs : List TypeDeclaration

namespace Declarations

variable (D : Declarations)

def findEnum (name : String) : Option EnumDeclaration := D.enums.find? fun e => e.name = name

def findStruct (name : String) : Option TypeDeclaration := D.structs.find? fun d => d.name = name

/-- The fields of a struct, marked with whether they are kept. -/
def fieldsOf (extent : String → Option Extent) (pack1 : Bool) : List MemberSyntax → Option Fields
  | [] => some []
  | m :: ms =>
      if m.isInstance then do
        let e ← m.type.netName.bind extent
        let fields ← fieldsOf extent pack1 ms
        return (e.packed pack1, m.isKept) :: fields
      else fieldsOf extent pack1 ms

/-- Size and alignment of a type whose structs are nested `n` deep at most. -/
def extent : Nat → String → Option Extent
  | n, name =>
    match netPrimitives.lookup name with
    | some log => some (netScalar log)
    | none =>
      match netNumerics.lookup name with
      | some e => some e
      | none =>
        match D.findEnum name with
        | some e => some (netScalar e.underlying.log)
        | none =>
          match n with
          | 0 => none
          | n + 1 =>
            (D.findStruct name).bind fun d =>
              (fieldsOf (extent n) d.pack1 d.members).map fun fields => struct fields.all

/-- Enough for structs that are all nested in each other. -/
def depth : Nat := D.structs.length

def fields (d : TypeDeclaration) : Option Fields := fieldsOf (D.extent D.depth) d.pack1 d.members

def names : List String := D.enums.map EnumDeclaration.name ++ D.structs.map TypeDeclaration.name

/-- Names that the mapper does not look up among the declarations. -/
def reserved : List String :=
  ["string", "String"] ++ primitives.map Prod.fst ++ dotNetTypes.map Prod.fst

/-- Packable structs, each name for one type, and all fields unmanaged. -/
structure Unmanaged : Prop where
  isStruct : ∀ d ∈ D.structs, d.kind = .structKind ∧ d.packable = true ∧ d.unionAttrs = []
  nodup : D.names.Nodup
  unreserved : ∀ n ∈ D.names, n ∉ reserved
  laidOut : ∀ d ∈ D.structs, (D.extent D.depth d.name).isSome

def collected : Collected := collect D.enums D.structs

/-- `IsUnmanaged` and `UnmanagedSize` are right, and every member of the emitted struct stands
where .NET has the field it comes from, which is the kept field of its index. -/
def HasNetLayout (nullableStrings : Bool) (d : TypeDeclaration) : Prop :=
  ∃ t ∈ (D.collected.schema nullableStrings).types, t.name = d.name ∧ t.isUnmanaged = true ∧
    ∃ fields, D.fields d = some fields ∧ t.unmanagedSize = (struct fields.all).size ∧
      ∃ offs, (D.collected.schema nullableStrings).memberOffsets D.depth t = some offs ∧
        offs.map some = t.members.map fun m => (fields.keptOffsets 0)[m.declIndex]?

/-- The parser has a layout for the type: not for `Guid` and the types of `System.Numerics`,
and not for enums whose base is spelled with its namespace. -/
def Mapped (type : TypeSyntax) : Prop :=
  ∀ name, type.netName = some name → netNumerics.lookup name = none ∧
    ∀ e, D.findEnum name = some e → e.baseType.map Prod.snd ≠ some .qualified

/-- When the generator gets a struct right. -/
structure LaidOutAlike (d : TypeDeclaration) : Prop where
  mapped : ∀ m ∈ (collectType d).members, D.Mapped m.type
  plain : ∀ m ∈ (collectType d).members, ∀ size name, m.annot ≠ some (.fixedArray size name)
  inOrder : orderMembers (collectType d).members = (collectType d).members
  padding : ∀ fields, D.fields d = some fields → fields.InPadding

/-! ## What is collected -/

section Collected

variable {D}

theorem foldl_collectDeclaration {ds : List TypeDeclaration} {C : Collected}
    (hds : ∀ d ∈ ds, d.kind = .structKind ∧ d.packable = true ∧ d.unionAttrs = [])
    (hnodup : (C.rawTypes.map RawType.name ++ ds.map TypeDeclaration.name).Nodup) :
    ds.foldl collectDeclaration C = { C with rawTypes := C.rawTypes ++ ds.map collectType } := by
  induction ds generalizing C with
  | nil => simp
  | cons d ds ih =>
    obtain ⟨hkind, hpackable, hunion⟩ := hds d List.mem_cons_self
    have hnew : C.findRaw d.name = none := by
      rw [findRaw, List.find?_eq_none]
      intro raw hraw
      have hdisjoint := (List.nodup_append.mp hnodup).2.2
      simpa using hdisjoint _ (List.mem_map_of_mem hraw) _ (List.mem_map_of_mem List.mem_cons_self)
    have hd : collectDeclaration C d = { C with rawTypes := C.rawTypes ++ [collectType d] } := by
      simp [collectDeclaration, hkind, hpackable, hunion, hnew]
    rw [List.foldl_cons, hd, ih fun d' hd' => hds d' (List.mem_cons_of_mem _ hd')]
    · simp
    · simpa [collectType] using hnodup

theorem foldl_insertNamed {es : List EnumDeclaration} {defs : List EnumDef}
    (hnodup : (defs.map EnumDef.name ++ es.map EnumDeclaration.name).Nodup) :
    es.foldl (fun defs e => insertNamed EnumDef.name (collectEnum e).1 defs) defs =
      defs ++ es.map fun e => (collectEnum e).1 := by
  induction es generalizing defs with
  | nil => simp
  | cons e es ih =>
    have hnew : (defs.any fun f => f.name = (collectEnum e).1.name) = false := by
      rw [List.any_eq_false]
      intro f hf
      have hdisjoint := (List.nodup_append.mp hnodup).2.2
      have hne := hdisjoint _ (List.mem_map_of_mem hf) _ (List.mem_map_of_mem List.mem_cons_self)
      rw [decide_eq_true_eq]
      exact hne
    rw [List.foldl_cons, insertNamed, if_neg (by rw [hnew]; decide), ih]
    · simp
    · simpa [collectEnum] using hnodup

theorem Unmanaged.collected_eq (h : D.Unmanaged) :
    D.collected.rawTypes = D.structs.map collectType ∧
      D.collected.enums = D.enums.map (fun e => (collectEnum e).1) ∧ D.collected.unions = [] := by
  have hnames := List.nodup_append.mp h.nodup
  unfold collected collect
  rw [foldl_collectDeclaration h.isStruct (by simpa using hnames.2.1),
    foldl_insertNamed (by simpa using hnames.1)]
  exact ⟨rfl, rfl, rfl⟩

theorem find?_map_name {α β : Type} {f : α → β} {name : α → String} {name' : β → String}
    (hf : ∀ a, name' (f a) = name a) (as : List α) (n : String) :
    ((as.map f).find? fun b => name' b = n) = (as.find? fun a => name a = n).map f := by
  rw [List.find?_map]
  congr 2
  funext a
  exact congrArg (fun s => decide (s = n)) (hf a)

theorem Unmanaged.findRaw_eq (h : D.Unmanaged) (name : String) :
    D.collected.findRaw name = (D.findStruct name).map collectType := by
  rw [findRaw, h.collected_eq.1]
  exact find?_map_name (fun _ => rfl) _ _

theorem Unmanaged.findEnum_eq (h : D.Unmanaged) (name : String) :
    D.collected.findEnum name = (D.findEnum name).map fun e => (collectEnum e).1 := by
  rw [Collected.findEnum, h.collected_eq.2.1]
  exact find?_map_name (fun _ => rfl) _ _

end Collected

/-! ## Extents -/

section Extents

variable {D} {E E' : String → Option Extent} {pack1 : Bool} {m : MemberSyntax}
  {ms : List MemberSyntax}
  {fields : Fields} {n k : Nat} {name : String} {e : Extent}

/-- The first member is a field, whose type then has an extent, or it has no storage. -/
theorem fieldsOf_cases (h : fieldsOf E pack1 (m :: ms) = some fields) :
    (m.isInstance = true ∧ ∃ name e rest, m.type.netName = some name ∧ E name = some e ∧
      fieldsOf E pack1 ms = some rest ∧ fields = (e.packed pack1, m.isKept) :: rest) ∨
    (m.isInstance = false ∧ fieldsOf E pack1 ms = some fields) := by
  rw [fieldsOf] at h
  split at h
  case isTrue hinstance =>
    obtain ⟨e, he, h⟩ := Option.bind_eq_some_iff.mp h
    obtain ⟨name, hname, he⟩ := Option.bind_eq_some_iff.mp he
    obtain ⟨rest, hrest, heq⟩ := Option.bind_eq_some_iff.mp h
    exact .inl ⟨hinstance, name, e, rest, hname, he, hrest, (Option.some.inj heq).symm⟩
  case isFalse hinstance => exact .inr ⟨Bool.eq_false_of_not_eq_true hinstance, h⟩

theorem fieldsOf_extend (h : ∀ name e, E name = some e → E' name = some e)
    (hfields : fieldsOf E pack1 ms = some fields) : fieldsOf E' pack1 ms = some fields := by
  induction ms generalizing fields with
  | nil => exact hfields
  | cons m ms ih =>
    rw [fieldsOf]
    rcases fieldsOf_cases hfields with
      ⟨hinstance, name, e, rest, hname, he, hrest, rfl⟩ | ⟨hinstance, hrest⟩
    · rw [if_pos hinstance, hname, Option.bind_some, h name e he, ih hrest]
      rfl
    · rw [if_neg (Bool.not_eq_true _ ▸ hinstance)]
      exact ih hrest

/-- What is no type of .NET and no enum is a struct. -/
def isStructName (D : Declarations) (name : String) : Bool :=
  (netPrimitives.lookup name).isNone && (netNumerics.lookup name).isNone &&
    (D.findEnum name).isNone

theorem extent_of_not_struct (h : D.isStructName name = false) (n : Nat) :
    D.extent n name = D.extent 0 name := by
  unfold isStructName at h
  cases n with
  | zero => rfl
  | succ n =>
    rw [extent, extent]
    cases hprim : netPrimitives.lookup name with
    | some _ => rfl
    | none =>
      cases hnum : netNumerics.lookup name with
      | some _ => rfl
      | none =>
        cases henum : D.findEnum name with
        | some _ => rfl
        | none => simp [hprim, hnum, henum] at h

theorem extent_struct (h : D.isStructName name = true) :
    D.extent 0 name = none ∧ ∀ n, D.extent (n + 1) name = (D.findStruct name).bind fun d =>
      (fieldsOf (D.extent n) d.pack1 d.members).map fun fields => struct fields.all := by
  unfold isStructName at h
  rw [Bool.and_eq_true, Bool.and_eq_true, Option.isNone_iff_eq_none, Option.isNone_iff_eq_none,
    Option.isNone_iff_eq_none] at h
  obtain ⟨⟨hprim, hnum⟩, henum⟩ := h
  constructor
  · rw [extent, hprim, hnum, henum]
  · intro n
    rw [extent, hprim, hnum, henum]

theorem extent_mono (h : D.extent n name = some e) (hnk : n ≤ k) : D.extent k name = some e := by
  induction n generalizing k name e with
  | zero =>
    cases hstruct : D.isStructName name with
    | false => rw [extent_of_not_struct hstruct, ← h]
    | true =>
      rw [(extent_struct hstruct).1] at h
      cases h
  | succ n ih =>
    obtain ⟨k, rfl⟩ : ∃ j, k = j + 1 := ⟨k - 1, by omega⟩
    cases hstruct : D.isStructName name with
    | false =>
      rw [extent_of_not_struct hstruct] at h ⊢
      exact h
    | true =>
      rw [(extent_struct hstruct).2] at h ⊢
      obtain ⟨d, hd, h⟩ := Option.bind_eq_some_iff.mp h
      obtain ⟨fields, hfields, rfl⟩ := Option.map_eq_some_iff.mp h
      rw [hd, Option.bind_some,
        fieldsOf_extend (fun _ _ he => ih he (Nat.le_of_succ_le_succ hnk)) hfields]
      rfl

theorem fieldsOf_log_le (hE : ∀ name e, E name = some e → e.log ≤ 3)
    (h : fieldsOf E pack1 ms = some fields) : ∀ e ∈ fields.all, e.log ≤ 3 := by
  induction ms generalizing fields with
  | nil =>
    obtain rfl := Option.some.inj h
    simp [Fields.all]
  | cons m ms ih =>
    rcases fieldsOf_cases h with ⟨-, name, e, rest, -, he, hrest, rfl⟩ | ⟨-, hrest⟩
    · intro f hf
      rcases List.mem_cons.mp hf with rfl | hf
      · exact (Extent.packed_log_le pack1 e).trans (hE name e he)
      · exact ih hrest f hf
    · exact ih hrest

theorem mem_of_lookup {α : Type} {as : List (String × α)} {a : α} (h : as.lookup name = some a) :
    (name, a) ∈ as := by
  obtain ⟨l, r, rfl, _⟩ := List.lookup_eq_some_iff.mp h
  simp

theorem leaf_log_le (h : D.extent 0 name = some e) : e.log ≤ 3 := by
  rw [extent] at h
  split at h
  case h_1 log hlog =>
    obtain rfl := Option.some.inj h
    have hall : ∀ p ∈ netPrimitives, p.2 ≤ 3 := by decide
    exact hall _ (mem_of_lookup hlog)
  case h_2 =>
    split at h
    case h_1 hnum =>
      obtain rfl := Option.some.inj h
      have hall : ∀ p ∈ netNumerics, p.2.log ≤ 3 := by decide
      exact hall _ (mem_of_lookup hnum)
    case h_2 =>
      split at h
      case h_1 d _ =>
        obtain rfl := Option.some.inj h
        show d.underlying.log ≤ 3
        cases d.underlying <;> decide
      case h_2 => cases h

/-- No alignment is larger than 8. -/
theorem extent_log_le (h : D.extent n name = some e) : e.log ≤ 3 := by
  induction n generalizing name e with
  | zero => exact leaf_log_le h
  | succ n ih =>
    cases hstruct : D.isStructName name with
    | false =>
      rw [extent_of_not_struct hstruct] at h
      exact leaf_log_le h
    | true =>
      rw [(extent_struct hstruct).2] at h
      obtain ⟨d, _, h⟩ := Option.bind_eq_some_iff.mp h
      obtain ⟨fields, hfields, rfl⟩ := Option.map_eq_some_iff.mp h
      exact struct_log_le (fieldsOf_log_le (fun _ _ he => ih he) hfields)

end Extents

/-! ## Names of types -/

section Names

variable {type : TypeSyntax} {name : String}

theorem simpleName_of_netName : ∀ {type : TypeSyntax}, type.netName = some name →
    type.simpleName = name
  | .predefined _, h => Option.some.inj h
  | .identifier _, h => Option.some.inj h
  | .qualified _ right, h => @simpleName_of_netName right h
  | .aliasQualified _ right, h => @simpleName_of_netName right h

theorem mapCore_of_netName (M : TypeMapper) : ∀ {type : TypeSyntax}, type.netName = some name →
    M.mapCore type true = M.mapNamed name true
  | .predefined _, h => congrArg (M.mapNamed · true) (Option.some.inj h)
  | .identifier _, h => congrArg (M.mapNamed · true) (Option.some.inj h)
  | .qualified _ right, h => @mapCore_of_netName M right h
  | .aliasQualified _ _, h => congrArg (M.mapNamed · true) (simpleName_of_netName h)

theorem fieldOf_of_netName (C : Collected) (struct : String → Option (Nat × Nat))
    (h : type.netName = some name) :
    C.fieldOf struct type =
      match primitiveLayout name with
      | some layout => some layout
      | none =>
        match C.findEnum name with
        | some e => primitiveLayout e.csBaseType
        | none => struct name := by
  have hsimple := simpleName_of_netName h
  unfold fieldOf UnmanagedLayout.fieldLayout
  match type with
  | .predefined _ | .identifier _ | .qualified _ _ | .aliasQualified _ _ =>
    dsimp only
    rw [hsimple]
    cases primitiveLayout name with
    | some _ => rfl
    | none => cases C.findEnum name <;> rfl
  | .generic _ _ | .nullable _ | .array _ _ | .other _ => cases h

/-! ### The tables -/

theorem primitiveLayout_eq (name : String) :
    primitiveLayout name = (netPrimitives.lookup name).map fun log => (netScalar log).pair := by
  have htable : primitiveSizes = netPrimitives.map fun p => (p.1, (netScalar p.2).pair) := by decide
  unfold primitiveLayout
  rw [htable]
  induction netPrimitives with
  | nil => rfl
  | cons p ps ih =>
    rw [List.map_cons, List.lookup_cons, List.lookup_cons, ih]
    cases name == p.1 <;> rfl

theorem primitives_lookup {log : Nat} (h : netPrimitives.lookup name = some log) :
    ∃ cpp, primitives.lookup name = some cpp ∧ cppScalars.lookup cpp = some log ∧
      TypeMapper.isString name = false := by
  have hall : ∀ p ∈ netPrimitives, TypeMapper.isString p.1 = false ∧
      (primitives.lookup p.1).bind (fun cpp => cppScalars.lookup cpp) = some p.2 := by decide
  obtain ⟨hstring, hcpp⟩ := hall _ (mem_of_lookup h)
  obtain ⟨cpp, hcpp, hlog⟩ := Option.bind_eq_some_iff.mp hcpp
  exact ⟨cpp, hcpp, hlog, hstring⟩

/-- An enum has the layout of its underlying type on both sides. -/
theorem enum_layout {e : EnumDeclaration} (h : e.baseType.map Prod.snd ≠ some .qualified) :
    primitiveLayout (collectEnum e).1.csBaseType = some (netScalar e.underlying.log).pair ∧
      enumShape (collectEnum e).1 = some (scalarShape e.underlying.log) := by
  obtain ⟨name, base, members⟩ := e
  cases base with
  | none => exact ⟨rfl, rfl⟩
  | some base =>
    obtain ⟨t, spelling⟩ := base
    cases spelling with
    | keyword => cases t <;> exact ⟨rfl, rfl⟩
    | simple => cases t <;> exact ⟨rfl, rfl⟩
    | qualified => exact absurd rfl h

theorem enum_qualified {e : EnumDeclaration} (h : e.baseType.map Prod.snd = some .qualified) :
    primitiveLayout (collectEnum e).1.csBaseType = none := by
  obtain ⟨name, base, members⟩ := e
  cases base with
  | none => cases h
  | some base =>
    obtain ⟨t, spelling⟩ := base
    obtain rfl := Option.some.inj h
    cases t <;> rfl

end Names

/-! ## Members -/

/-- The parser and the generator have the .NET layout of a struct. -/
structure Agrees (D : Declarations) (nullableStrings : Bool) (n : Nat) (name : String)
    (e : Extent) : Prop where
  parsed : D.collected.layoutOf name = some e.pair
  emitted : ∃ s, (D.collected.schema nullableStrings).shape n (.named name) = some s ∧
    s.extent = e

section Members

variable {D} {nullableStrings : Bool} {name : String} {e : Extent} {n : Nat} {m : RawMember}

theorem mem_names_of_findEnum {d : EnumDeclaration} (h : D.findEnum name = some d) :
    name ∈ D.names := by
  refine List.mem_append_left _ (List.mem_map.mpr ⟨d, List.mem_of_find?_eq_some h, ?_⟩)
  simpa using List.find?_some h

theorem mem_names_of_findStruct {d : TypeDeclaration} (h : D.findStruct name = some d) :
    name ∈ D.names := by
  refine List.mem_append_right _ (List.mem_map.mpr ⟨d, List.mem_of_find?_eq_some h, ?_⟩)
  simpa using List.find?_some h

theorem lookup_eq_none_of_not_mem {α : Type} {as : List (String × α)}
    (h : name ∉ as.map Prod.fst) : as.lookup name = none := by
  rw [List.lookup_eq_none_iff]
  intro p hp
  rw [bne_iff_ne]
  rintro rfl
  exact h (List.mem_map_of_mem hp)

/-- A name of the source stands for itself. -/
theorem Unmanaged.mapNamed_cppType (h : D.Unmanaged) (hname : name ∈ D.names) :
    ((D.collected.mapper nullableStrings).mapNamed name true).cppType = .named name := by
  have hreserved := h.unreserved name hname
  simp only [reserved, List.mem_append, not_or] at hreserved
  obtain ⟨⟨hstring, hprim⟩, hdotnet⟩ := hreserved
  have hstring' : TypeMapper.isString name = false := by
    simpa [TypeMapper.isString] using hstring
  rw [TypeMapper.mapNamed, hstring', lookup_eq_none_of_not_mem hprim,
    lookup_eq_none_of_not_mem hdotnet]
  obtain ⟨hraw, henums, hunions⟩ := h.collected_eq
  simp only [mapper, hunions, List.map_nil, List.not_mem_nil, if_false, Bool.false_eq_true]
  split
  · rfl
  case isFalse henum =>
    have hstruct : name ∈ D.structs.map TypeDeclaration.name := by
      refine (List.mem_append.mp hname).resolve_left fun hmem => henum ?_
      rw [henums, List.map_map]
      exact hmem
    obtain ⟨d, hd, rfl⟩ := List.mem_map.mp hstruct
    have htypes : ∀ kind, (D.collected.rawTypes.map fun r => (r.name, r.kind)).lookup d.name =
        some kind → kind = .structKind := by
      intro kind hkind
      rw [hraw, List.map_map] at hkind
      obtain ⟨d', hd', heq⟩ := List.mem_map.mp (mem_of_lookup hkind)
      obtain ⟨-, rfl⟩ := Prod.mk.inj heq
      exact (h.isStruct d' hd').1
    split
    · rfl
    case h_2 kind hnot hkind => exact absurd (htypes _ hkind) hnot
    case h_3 => rfl

theorem mapNamed_elementCppType (M : TypeMapper) (name : String) (topLevel : Bool) :
    (M.mapNamed name topLevel).elementCppType = none := by
  unfold TypeMapper.mapNamed
  repeat' split
  all_goals rfl

/-- Without an element type, an annotation only adds a warning. -/
theorem map_cppType {M : TypeMapper} {type : TypeSyntax}
    (h : (M.mapCore type true).elementCppType = none) (annot : Option CppAnnot) :
    (M.map type annot).cppType = (M.mapCore type true).cppType := by
  unfold TypeMapper.map
  generalize M.mapCore type true = result at h ⊢
  dsimp only
  rw [h]
  match annot with
  | none => rfl
  | some (.fixedArray _ _) => rfl
  | some (.stdArray _) => rfl

theorem memberDef_cppType {M : TypeMapper} (h : m.type.netName = some name) :
    (memberDef M m).cppType = (M.mapNamed name true).cppType := by
  have hcore := mapCore_of_netName M h
  rw [← hcore]
  exact map_cppType (by rw [hcore]; exact mapNamed_elementCppType M name true) m.annot

/-- What the parser and the generator make of a member's type. -/
theorem Unmanaged.member_agrees (h : D.Unmanaged) (hname : m.type.netName = some name)
    (he : D.extent n name = some e) (hmapped : D.Mapped m.type)
    (hstruct : D.isStructName name = true → D.Agrees nullableStrings n name e) :
    D.collected.fieldOf D.collected.layoutOf m.type = some e.pair ∧
      ∃ s, (D.collected.schema nullableStrings).shape n
        (memberDef (D.collected.mapper nullableStrings) m).cppType = some s ∧ s.extent = e := by
  obtain ⟨hnum, hbase⟩ := hmapped name hname
  rw [fieldOf_of_netName _ _ hname, primitiveLayout_eq, memberDef_cppType hname, h.findEnum_eq]
  cases hprim : netPrimitives.lookup name with
  | some log =>
    have hleaf : D.isStructName name = false := by simp [isStructName, hprim]
    rw [extent_of_not_struct hleaf, extent, hprim] at he
    obtain rfl := Option.some.inj he
    obtain ⟨cpp, hcpp, hlog, hstring⟩ := primitives_lookup hprim
    refine ⟨rfl, scalarShape log, ?_, rfl⟩
    rw [TypeMapper.mapNamed, hstring, hcpp]
    show Schema.shape _ n (.builtin cpp) = _
    rw [Schema.shape, builtinShape, hlog]
  | none =>
    cases henum : D.findEnum name with
    | some d =>
      have hleaf : D.isStructName name = false := by simp [isStructName, henum]
      rw [extent_of_not_struct hleaf, extent, hprim, hnum, henum] at he
      obtain rfl := Option.some.inj he
      obtain ⟨hparsed, hshape⟩ := enum_layout (hbase d henum)
      refine ⟨hparsed, scalarShape d.underlying.log, ?_, rfl⟩
      rw [h.mapNamed_cppType (mem_names_of_findEnum henum), ← hshape]
      refine Schema.shape_enum ?_ n
      exact (h.findEnum_eq name).trans (by rw [henum]; rfl)
    | none =>
      have hagrees := hstruct (by simp [isStructName, hprim, hnum, henum])
      have hraw : (D.findStruct name).isSome := by
        have hsome := hagrees.parsed
        rw [layoutOf_eq, h.findRaw_eq] at hsome
        cases hd : D.findStruct name with
        | some d => rfl
        | none =>
          rw [hd] at hsome
          cases hsome
      obtain ⟨d, hd⟩ := Option.isSome_iff_exists.mp hraw
      rw [h.mapNamed_cppType (mem_names_of_findStruct hd)]
      exact ⟨hagrees.parsed, hagrees.emitted⟩

/-- The names of .NET types are no names of the source. -/
theorem Unmanaged.not_source (h : D.Unmanaged) (hname : name ∈ reserved) :
    D.findEnum name = none ∧ D.findStruct name = none := by
  constructor
  · cases hfind : D.findEnum name with
    | none => rfl
    | some e => exact absurd hname (h.unreserved name (mem_names_of_findEnum hfind))
  · cases hfind : D.findStruct name with
    | none => rfl
    | some d => exact absurd hname (h.unreserved name (mem_names_of_findStruct hfind))

theorem mem_reserved_of_numerics (h : netNumerics.lookup name ≠ none) :
    name ∈ reserved ∧ netPrimitives.lookup name = none := by
  obtain ⟨e, he⟩ := Option.ne_none_iff_exists'.mp h
  have hall : ∀ p ∈ netNumerics, p.1 ∈ reserved ∧ netPrimitives.lookup p.1 = none := by decide
  exact hall _ (mem_of_lookup he)

theorem Unmanaged.not_primitive (h : D.Unmanaged) (hname : name ∈ D.names) :
    netPrimitives.lookup name = none := by
  cases hprim : netPrimitives.lookup name with
  | none => rfl
  | some log =>
    have hall : ∀ p ∈ netPrimitives, p.1 ∈ reserved := by decide
    exact absurd (hall _ (mem_of_lookup hprim)) (h.unreserved name hname)

/-- The parser finds no layout for the types that are not mapped. -/
theorem Unmanaged.field_none (h : D.Unmanaged) (hname : m.type.netName = some name)
    (hnot : ¬ D.Mapped m.type) : D.collected.fieldOf D.collected.layoutOf m.type = none := by
  rw [fieldOf_of_netName _ _ hname, primitiveLayout_eq, h.findEnum_eq]
  by_cases hnum : netNumerics.lookup name = none
  · -- an enum whose base the table does not know
    have hqualified : ∃ e, D.findEnum name = some e ∧
        e.baseType.map Prod.snd = some .qualified := by
      by_contra hall
      refine hnot fun name' hname' => ?_
      obtain rfl := Option.some.inj (hname.symm.trans hname')
      exact ⟨hnum, fun e he hbase => hall ⟨e, he, hbase⟩⟩
    obtain ⟨e, he, hbase⟩ := hqualified
    rw [h.not_primitive (mem_names_of_findEnum he), he]
    exact enum_qualified hbase
  · obtain ⟨hreserved, hprim⟩ := mem_reserved_of_numerics hnum
    obtain ⟨henum, hstruct⟩ := h.not_source hreserved
    rw [hprim, henum]
    show D.collected.layoutOf name = none
    rw [layoutOf_eq, h.findRaw_eq, hstruct]
    rfl

end Members

end Declarations

end MemoryPack.Cs2Cpp
