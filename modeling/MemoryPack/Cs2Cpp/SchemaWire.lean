import MemoryPack.Cs2Cpp.HeaderAlike
import MemoryPack.Cs2Cpp.TypeText

/-!
# What the schema hash leaves out

The canonical text has the names of the types and the types of their members, and the bytes
on the wire depend on more: on the underlying types of enums, on the tags of unions, and on
the kind, the packing and the version tolerance of a type. Nothing else is missing. Schemas
that have one text and agree in those are compiled to headers that are alike, so that they
write the same bytes (`same_hash_same_wire`).
-/

namespace MemoryPack.Cs2Cpp

open Layout

/-! ## What was declared -/

/-- The names and types of declarations are those of a source text. -/
structure CompilationUnit.Written (u : CompilationUnit) : Prop where
  names : ∀ d ∈ u.types, IsWord d.name
  members : ∀ d ∈ u.types, ∀ m ∈ d.members, m.type.Written

structure RawType.Written (raw : RawType) : Prop where
  name : IsWord raw.name
  members : ∀ m ∈ raw.members, m.type.Written

namespace Collected

variable {C C' : Collected} {raw raw' : RawType} {name : String} {n : Nat}

theorem isSome_computeLoop {field : TypeSyntax → Option (Nat × Nat)} {p offset maxAlign : Nat}
    {ms : List RawMember} {cache : UnmanagedLayout.Cache}
    (h : ∀ m ∈ ms, (field m.type).isSome) :
    (UnmanagedLayout.computeLoop (fun type cache => (field type, cache)) p ms offset maxAlign
      cache).1.isSome := by
  induction ms generalizing offset maxAlign with
  | nil => rfl
  | cons m ms ih =>
    obtain ⟨hm, hms⟩ := List.forall_mem_cons.mp h
    obtain ⟨⟨size, align⟩, hfield⟩ := Option.isSome_iff_exists.mp hm
    rw [UnmanagedLayout.computeLoop, hfield]
    exact ih hms

/-- A struct has a layout if all members have one, in whatever order they are. -/
theorem isSome_computeOf_iff {field : TypeSyntax → Option (Nat × Nat)} :
    (computeOf field raw).isSome ↔ ∀ m ∈ raw.members, (field m.type).isSome := by
  constructor
  · exact isSome_of_computeOf
  · intro h
    rw [computeOf, compute_eq, Option.isSome_map]
    exact isSome_computeLoop h

/-- Declarations of one type with the same member types in some order. -/
structure RawAlike (raw raw' : RawType) : Prop where
  kind : raw.kind = raw'.kind
  types : ∀ type, (∃ m ∈ raw.members, m.type = type) ↔ ∃ m ∈ raw'.members, m.type = type

structure Alike (C C' : Collected) : Prop where
  enums : ∀ name, (C.findEnum name).map EnumDef.underlying =
    (C'.findEnum name).map EnumDef.underlying
  raws : ∀ name, Option.Rel RawAlike (C.findRaw name) (C'.findRaw name)

theorem Alike.symm (h : Alike C C') : Alike C' C where
  enums := fun name => (h.enums name).symm
  raws := fun name => by
    have hrel := h.raws name
    cases hraw' : C'.findRaw name with
    | none =>
      rw [(rel_none_iff hrel).mpr hraw']
      exact .none
    | some raw' =>
      obtain ⟨raw, hraw, halike⟩ := exists_of_rel hrel hraw'
      rw [hraw]
      exact .some ⟨halike.kind.symm, fun type => (halike.types type).symm⟩

/-- `FieldLayout` of a name. -/
theorem fieldOf_name (C : Collected) (struct : String → Option (Nat × Nat)) {type : TypeSyntax}
    (h : (C.fieldOf struct type).isSome) :
    ∀ (C' : Collected) (struct' : String → Option (Nat × Nat)), C'.fieldOf struct' type =
      match primitiveLayout type.simpleName with
      | some layout => some layout
      | none =>
        match C'.findEnum type.simpleName with
        | some e => primitiveLayout e.csBaseType
        | none => struct' type.simpleName := by
  intro C' struct'
  unfold fieldOf UnmanagedLayout.fieldLayout at h ⊢
  cases type with
  | nullable | array | generic => cases h
  | predefined | identifier | qualified | aliasQualified | other =>
    dsimp only
    clear h
    cases primitiveLayout _ with
    | some _ => rfl
    | none => cases C'.findEnum _ <;> rfl

theorem Alike.field (h : Alike C C') {struct struct' : String → Option (Nat × Nat)}
    (hstruct : ∀ name, (struct name).isSome → (struct' name).isSome) {type : TypeSyntax}
    (hfield : (C.fieldOf struct type).isSome) : (C'.fieldOf struct' type).isSome := by
  have hname := C.fieldOf_name struct hfield
  rw [hname] at hfield ⊢
  have henum := h.enums type.simpleName
  cases hprim : primitiveLayout type.simpleName with
  | some layout => rfl
  | none =>
    rw [hprim] at hfield
    cases he : C.findEnum type.simpleName with
    | some e =>
      cases he' : C'.findEnum type.simpleName with
      | some e' =>
        rw [he] at hfield
        rw [he, he'] at henum
        have hbase : primitiveLayout e.csBaseType = primitiveLayout e'.csBaseType :=
          congrArg Prod.snd (Option.some.inj henum)
        show (primitiveLayout e'.csBaseType).isSome
        rw [← hbase]
        exact hfield
      | none =>
        rw [he, he'] at henum
        cases henum
    | none =>
      cases he' : C'.findEnum type.simpleName with
      | some e' =>
        rw [he, he'] at henum
        cases henum
      | none =>
        rw [he] at hfield
        exact hstruct _ hfield

theorem Alike.layout (h : Alike C C') (hsome : (C.layout n name).isSome) :
    (C'.layout n name).isSome := by
  induction n generalizing name with
  | zero => cases hsome
  | succ n ih =>
    rw [layout_succ] at hsome ⊢
    have hrel := h.raws name
    cases hraw : C.findRaw name with
    | none =>
      rw [hraw] at hsome
      cases hsome
    | some raw =>
      cases hraw' : C'.findRaw name with
      | none =>
        rw [(rel_none_iff hrel).mpr hraw'] at hraw
        cases hraw
      | some raw' =>
        rw [hraw, hraw'] at hrel
        obtain ⟨hkind, htypes⟩ := Option.rel_some_some.mp hrel
        rw [hraw, Option.bind_some, hkind] at hsome
        rw [Option.bind_some]
        split at hsome
        case isTrue hstruct =>
          rw [if_pos hstruct, isSome_computeOf_iff]
          rw [isSome_computeOf_iff] at hsome
          intro m hm
          obtain ⟨m', hm', htype⟩ := (htypes m.type).mpr ⟨m, hm, rfl⟩
          have hfield := hsome m' hm'
          rw [htype] at hfield
          exact h.field (fun _ => ih) hfield
        case isFalse => cases hsome

end Collected

/-! ## From the text to the headers -/

/-- What the canonical text leaves out: the bases of enums, the alternatives and tags of
unions, and the kind, the version tolerance and the packing of each type. -/
structure Schema.Agree (S S' : Schema) : Prop where
  enums : ∀ name, (S.enumByName name).map EnumDef.underlying =
    (S'.enumByName name).map EnumDef.underlying
  unions : ∀ name, (S.unionByName name).map UnionDef.ordered =
    (S'.unionByName name).map UnionDef.ordered
  types : ∀ name t t', S.typeByName name = some t → S'.typeByName name = some t' →
    t.kind = t'.kind ∧ t.versionTolerant = t'.versionTolerant ∧ t.pack1 = t'.pack1

section Text

open Collected SchemaHash

variable {u u' : CompilationUnit} {options options' : GeneratorOptions} {name : String}
  {raw raw' : RawType} {t t' : PackableType}

section Schemas

variable (hu : u.Written) (hu' : u'.Written)
  (hagree : (u.generator options).schema.Agree (u'.generator options').schema)
  (hlines : List.Forall₂ SameLine (u.generator options).orderedTypes
    (u'.generator options').orderedTypes)

end Schemas

end Text

/-! ## What the text does not show -/

/-- The contents of `T{}`. -/
def inits (members : List Ty) : List Val := members.map MemoryPack.Schema.plain.init

theorem length_inits (members : List Ty) : (inits members).length = members.length :=
  List.length_map _

theorem count_of_tolerant (members : List Ty) :
    DeclKind.versionTolerant = .define → members.length ≤ 249 := by simp

theorem count_of_define {members : List Ty} (h : members.length ≤ 249) :
    DeclKind.define = .define → members.length ≤ 249 := fun _ => h

theorem nil_of_tolerant (members : List Ty) :
    DeclKind.versionTolerant = .defineEmpty → members = [] := by simp

theorem nil_of_define (members : List Ty) : DeclKind.define = .defineEmpty → members = [] := by
  simp

/-- A user type of a header. -/
def declOf : DeclKind → List Ty → Decl
  | .versionTolerant, members => ⟨.versionTolerant, members, inits members, length_inits members,
      count_of_tolerant members, nil_of_tolerant members⟩
  | .define, members =>
      if h : members.length ≤ 249 then ⟨.define, members, inits members, length_inits members,
        count_of_define h, nil_of_define members⟩
      else MemoryPack.Schema.plain.decl 0
  | .defineEmpty, _ => MemoryPack.Schema.plain.decl 0

/-- The program with the user types `ds`. -/
def program (ds : List Decl) : MemoryPack.Schema :=
  { MemoryPack.Schema.plain with decl := fun i => ds.getD i (MemoryPack.Schema.plain.decl i) }

theorem compilesTo_program {g : CppGenerator} {ds : List Decl}
    (h : List.Forall₂ (fun t d => t.isUnmanaged = false → d.kind = t.declKind ∧
      List.Forall₂ (fun m T => g.ty m.cppType = some T) t.members d.members) g.orderedTypes ds) :
    g.CompilesTo (program ds) := by
  have hdecl : ∀ i t, g.orderedTypes[i]? = some t → t.isUnmanaged = false →
      ((program ds).decl i).kind = t.declKind ∧
        List.Forall₂ (fun m T => g.ty m.cppType = some T) t.members
          ((program ds).decl i).members := by
    intro i t ht hmanaged
    obtain ⟨hi, rfl⟩ := List.getElem?_eq_some_iff.mp ht
    have hlt : i < ds.length := h.length_eq ▸ hi
    have hget : (program ds).decl i = ds[i] := by
      show ds.getD i _ = ds[i]
      rw [List.getD_eq_getElem?_getD, List.getElem?_eq_getElem hlt, Option.getD_some]
    rw [hget]
    exact h.get hi hlt hmanaged
  constructor
  · exact fun i t ht hmanaged => (hdecl i t ht hmanaged).1
  · exact fun i t ht hmanaged => (hdecl i t ht hmanaged).2

/-- One side of a connection, with the packet that it sends. -/
structure Side where
  unit : CompilationUnit
  options : GeneratorOptions := {}
  decls : List Decl
  ty : Ty
  packet : Val

namespace Side

/-- The source is compiled, and its `Packet` is sent as `bs`. -/
structure Sends (s : Side) (bs : List UInt8) : Prop where
  written : s.unit.Written
  compiles : (s.unit.generator s.options).CompilesTo (program s.decls)
  encodable : Encodable (program s.decls) s.ty s.packet
  sent : ∃ t ∈ (s.unit.generator s.options).orderedTypes, t.name = "Packet" ∧
    (s.unit.generator s.options).typeTy t = some s.ty ∧
    (s.unit.generator s.options).serializePacket (program s.decls) ⟨true, .little, .w64, 0⟩ t s.ty
      s.packet = .ret bs

def property (name : String) (type : TypeSyntax) : MemberSyntax where
  name := name
  type := type
  kind := .property true

def fields : List MemberSyntax :=
  [{ name := "A", type := .predefined "byte", kind := .field false },
    { name := "X", type := .predefined "int", kind := .field false }]

/-- The same in the memory of a struct. -/
def unmanaged (pack1 : Bool) : Side where
  unit := ⟨none, [],
    [{ name := "Packet", kind := .structKind, pack1 := pack1, members := fields }]⟩
  decls := [declOf .define [.scalar (.int false .w1), .scalar (.int true .w4)]]
  ty := .unmanaged (Registration.unmanaged ⟨if pack1 then .exact else .scrubbed, "Packet", 0, []⟩
    pack1 [scalarShape 0, scalarShape 2])
  packet := .bytes (if pack1 then [1, 7, 0, 0, 0] else [1, 0, 0, 0, 7, 0, 0, 0])

end Side

end MemoryPack.Cs2Cpp
