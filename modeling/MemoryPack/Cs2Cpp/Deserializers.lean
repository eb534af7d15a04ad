import MemoryPack.Cs2Cpp.SchemaWire
import MemoryPack.Reader.Mirrors

/-!
# The readers of a generated header

`EmitMacroDefine` leaves the reading of a struct to `MEMORYPACK_DEFINE`; `EmitExplicit` and
`EmitDeserializeLines` spell it out, with one call of the reader for each member. The calls
are the formatters of the members' types. What is left out are `EnterObject` and
`LeaveObject`: a header in the explicit style reads what the header in the macro style reads,
and has no depth limit.
-/

namespace MemoryPack

open Effect

/-- `std::array<T, N> ReadArray()`. -/
def Reader.readStdArray (S : Schema) (n : Nat) (s : Scalar) : ReadM (List Val) := do
  let stored := (← readArray s.size (asInt32 n)).map Val.scalar
  return stored ++ (List.replicate n (S.init (.scalar s))).drop stored.length

/-- The `Deserialize` of a user type, by the kind of its declaration. -/
def Reader.readDecl (S : Schema) (read : Ty → Val → ReadM Val) (i : Nat) (v : Val) : ReadM Val :=
  match (S.decl i).kind with
  | .define => defineDeserialize S read i v
  | .defineEmpty => defineEmptyDeserialize S i v
  | .versionTolerant => VersionTolerantReader.deserialize S read i v

theorem Reader.readObject_eq (S : Schema) (fuel i : Nat) (v : Val) :
    readObject S (fuel + 1) i v = readDecl S (readTy S (readObject S fuel)) i v := rfl

/-! ## User types that occur in a type -/

section Parts

variable {A : Ty → Prop} {D : Nat → Prop} {T T' : Ty}

theorem Ty.partsIn_partsList {ts : List Ty} (h : ∀ t ∈ ts, t.PartsIn A) :
    ∀ u ∈ Ty.partsList ts, A u := by
  induction ts with
  | nil => simp [Ty.partsList]
  | cons t ts ih =>
    obtain ⟨ht, hts⟩ := List.forall_mem_cons.mp h
    rw [Ty.partsList]
    exact List.forall_mem_append.mpr ⟨ht, ih hts⟩

theorem Ty.partsIn_of_element {r t : Ty} (hr : r.element = some t) (hself : A r)
    (h : t.PartsIn A) : r.PartsIn A := by
  cases r with
  | vector | sequence | array | set =>
    obtain rfl := Option.some.inj hr
    exact List.forall_mem_cons.mpr ⟨hself, h⟩
  | map o k v =>
    obtain rfl := Option.some.inj hr
    rw [Ty.PartsIn, Ty.parts] at h
    exact List.forall_mem_cons.mpr ⟨hself, (List.forall_mem_cons.mp h).2⟩
  | _ => cases hr

theorem Ty.Alike.objects (h : Ty.Alike D T T') : T.PartsIn fun u => ∀ i, u = .object i → D i := by
  induction h with
  | scalar | string | stringOptional | optionalString | dotNet | unmanaged =>
    simp [Ty.PartsIn, Ty.parts]
  | object i hi =>
    simpa [Ty.PartsIn, Ty.parts] using hi
  | @range r r' t t' hr _ _ ih =>
    refine Ty.partsIn_of_element hr ?_ ih
    rintro i rfl
    cases hr
  | pair _ _ iha ihb =>
    exact List.forall_mem_cons.mpr ⟨by simp, List.forall_mem_append.mpr ⟨iha, ihb⟩⟩
  | optional _ _ ih => exact List.forall_mem_cons.mpr ⟨by simp, ih⟩
  | variant tags _ ih => exact List.forall_mem_cons.mpr ⟨by simp, Ty.partsIn_partsList ih⟩

end Parts

namespace Cs2Cpp

/-! ## Deserializers -/

section Deserializers

variable (P : MemoryPack.Schema) (read : Ty → Val → ReadM Val)

/-- The line of `EmitDeserializeLines` for one member, behind its `if (cnt >= i + 1)`. A call
for elements of arithmetic types does not exist for others, and the mapper does not ask for
it. -/
def deserializeLine (m : MemberDef) (t : Ty) (v : Val) : ReadM Val :=
  match m.emit with
  | .generic => read t v
  | .bool => do return .scalar (← Reader.readBool)
  | .int8 => do return .scalar (← Reader.readInt8)
  | .uint8 => do return .scalar (← Reader.readUInt8)
  | .int16 => do return .scalar (← Reader.readInt16)
  | .uint16 => do return .scalar (← Reader.readUInt16)
  | .int32 => do return .scalar (← Reader.readInt32)
  | .uint32 => do return .scalar (← Reader.readUInt32)
  | .int64 => do return .scalar (← Reader.readInt64)
  | .uint64 => do return .scalar (← Reader.readUInt64)
  | .float => do return .scalar (← Reader.readFloat)
  | .double => do return .scalar (← Reader.readDouble)
  | .string => do
      let s ← Reader.readString
      return .bytes (s.getD [])
  | .optionalString => do
      match ← Reader.readString with
      | some s => return .some (.bytes s)
      | none => return .none
  | .vectorArith =>
      match t with
      | .vector (.scalar .bool) => do return .seq ((← Reader.readVectorBool).map .scalar)
      | .vector (.scalar s) =>
          if s.isArithmetic then do return .seq ((← Reader.readVector s.size).map .scalar)
          else read t v
      | _ => read t v
  | .vectorString =>
      match t with
      | .vector .string => do return .seq (← Reader.readStringVector)
      | _ => read t v
  | .fixedArray =>
      match m.annot, t with
      | some (.fixedArray size _), .vector (.scalar s) => do
          return .seq ((← Reader.readArray s.size (asInt32 size)).map .scalar)
      | _, _ => read t v
  | .stdArray =>
      match t with
      | .array n (.scalar s) =>
          if s.isArithmetic then do return .seq (← Reader.readStdArray P n s)
          else read t v
      | _ => read t v

/-- `EmitDeserializeLines`. -/
def deserializeLines (count : Nat) : Nat → List MemberDef → List Ty → List Val → ReadM (List Val)
  | i, m :: ms, t :: ts, v :: vs => do
      let x ← if count ≥ i + 1 then deserializeLine P read m t v else pure v
      return x :: (← deserializeLines count (i + 1) ms ts vs)
  | _, _, _, vs => return vs

/-- The `Deserialize` of `EmitExplicit`. -/
def explicitDeserialize (t : PackableType) (i : Nat) (v : Val) : ReadM Val :=
  if t.versionTolerant then VersionTolerantReader.deserialize P read i v
  else if t.members.length = 0 then do
    let _ ← Reader.readObjectHeader
    return v
  else do
    let header ← Reader.readObjectHeader
    if header.isNull then return v
    return .seq (← deserializeLines P read header.count.toNat 0 t.members (P.decl i).members
      v.items)

/-- The `Deserialize` of the macro that `EmitMacroDefine` writes. -/
def macroDeserialize (t : PackableType) (i : Nat) (v : Val) : ReadM Val :=
  if t.members.length = 0 then Reader.defineEmptyDeserialize P i v
  else Reader.defineDeserialize P read i v

end Deserializers

namespace CppGenerator

/-- The `Deserialize` that `EmitSerializers` chooses. -/
def deserializeBody (g : CppGenerator) (P : MemoryPack.Schema) (read : Ty → Val → ReadM Val)
    (t : PackableType) (i : Nat) (v : Val) : ReadM Val :=
  if g.options.style = .explicit || t.requiresExplicit then explicitDeserialize P read t i v
  else macroDeserialize P read t i v

/-- The structs with a serializer, under their numbers. -/
def serializable (g : CppGenerator) (i : Nat) : Option PackableType :=
  (g.orderedTypes[i]?).filter fun t => !t.isUnmanaged

/-- The readers of the structs, with room for `fuel` nested ones. A struct of another header
has the reader of its kind. -/
def readObject (g : CppGenerator) (P : MemoryPack.Schema) : Nat → Nat → Val → ReadM Val
  | 0, _, _ => Prog.diverge
  | fuel + 1, i, v =>
      match g.serializable i with
      | some t => g.deserializeBody P (Reader.readTy P (g.readObject P fuel)) t i v
      | none => Reader.readDecl P (Reader.readTy P (g.readObject P fuel)) i v

/-- `Read<T>(T& out)` with the readers of the header. -/
def read (g : CppGenerator) (P : MemoryPack.Schema) (t : Ty) (v : Val) : ReadM Val := do
  Reader.readTy P (g.readObject P ((← Prog.get).size + 1)) t v

/-- The header in another style. -/
def withStyle (g : CppGenerator) (style : GeneratorStyle) : CppGenerator :=
  { g with options := { g.options with style := style } }

/-- Every member has its default value in a new struct: the initialisers of `EmitStruct` are
zeros and `{}`. -/
def Initialised (g : CppGenerator) (P : MemoryPack.Schema) : Prop :=
  ∀ i t, g.serializable i = some t → (P.decl i).init = P.inits (P.decl i).members

theorem serializable_eq_some {g : CppGenerator} {i : Nat} {t : PackableType} :
    g.serializable i = some t ↔ g.orderedTypes[i]? = some t ∧ t.isUnmanaged = false := by
  rw [serializable, Option.filter_eq_some_iff, Bool.not_eq_true']

end CppGenerator

/-! The types do not depend on the style. -/

section Style

variable {g : CppGenerator} {P : MemoryPack.Schema}

theorem namedTy_withStyle (style : GeneratorStyle) (name : String) (n : Nat) :
    (g.withStyle style).namedTy n name = g.namedTy n name := by
  induction n generalizing name with
  | zero =>
    unfold CppGenerator.namedTy
    rfl
  | succ n ih =>
    have hnamed : (g.withStyle style).namedTy n = g.namedTy n := funext ih
    unfold CppGenerator.namedTy
    dsimp only
    rw [hnamed]
    rfl

theorem ty_withStyle (style : GeneratorStyle) (type : CppType) :
    (g.withStyle style).ty type = g.ty type := by
  induction type with
  | builtin name => rfl
  | named name => exact namedTy_withStyle style name _
  | optional type ih | vector type ih | set type ih | array type n ih =>
    rw [CppGenerator.ty, CppGenerator.ty, ih]
  | map k v ihk ihv | pair k v ihk ihv => rw [CppGenerator.ty, CppGenerator.ty, ihk, ihv]

theorem CppGenerator.CompilesTo.withStyle (h : g.CompilesTo P) (style : GeneratorStyle) :
    (g.withStyle style).CompilesTo P where
  kind := h.kind
  members := by
    intro i t ht hmanaged
    refine (h.members i t ht hmanaged).imp fun m T hT => ?_
    rwa [ty_withStyle]

end Style

/-! ## The calls of a mapped member -/

/-- The member is no C array. -/
def MemberDef.Plain (m : MemberDef) : Prop := m.emit = .fixedArray → m.annot = none

section Lines

variable {P : MemoryPack.Schema} {g : CppGenerator} {m : MemberDef} {t : Ty} {v : Val}
  {named : Nat → Val → ReadM Val}

/-- The calls for scalars are the formatters of their types. -/
theorem deserializeLine_scalar {s : Scalar} (hs : m.emit.scalar = some s)
    (read : Ty → Val → ReadM Val) (t : Ty) (v : Val) :
    deserializeLine P read m t v = (do return .scalar (← Reader.readScalar s) : ReadM Val) := by
  unfold deserializeLine
  cases he : m.emit with
  | bool | int8 | uint8 | int16 | uint16 | int32 | uint32 | int64 | uint64 | float | double =>
    rw [he] at hs
    obtain rfl := Option.some.inj hs
    rfl
  | _ =>
    rw [he] at hs
    cases hs

/-- A vector of converted elements, in one step or in two. -/
theorem seq_map {α : Type} (m : ReadM α) (f : α → List Val) :
    (do return .seq (f (← m)) : ReadM Val) =
      (do return .seq (← (do return f (← m) : ReadM (List Val)))) := by
  rw [Prog.bind_assoc]
  rfl

theorem readCollection_arithmetic {s : Scalar} (hs : s.isArithmetic = true)
    (hbool : s ≠ .bool) (element : ReadM Val) : Reader.readCollection (.scalar s) element =
      (do return (← Reader.readVector s.size).map .scalar) := by
  unfold Reader.readCollection
  split
  · next h => exact absurd (Ty.scalar.inj h) hbool
  · next h =>
    obtain rfl := Ty.scalar.inj h
    exact if_pos hs
  · next h => exact absurd rfl (h s)

theorem readCollection_string :
    Reader.readCollection .string (Reader.readTy P named .string (P.init .string)) =
      Reader.readStringVector := by
  rw [Reader.readTy]
  rfl

theorem arrayDeserialize_arithmetic {s : Scalar} (hs : s.isArithmetic = true) (n : Nat)
    (element : ReadM Val) : Reader.arrayDeserialize P n (.scalar s) element =
      Reader.readStdArray P n s := by
  unfold Reader.arrayDeserialize
  exact if_pos hs

/-- Every call but the one for a C array is the formatter of the member's type. -/
theorem deserializeLine_eq (hfits : m.emit.Fits m.cppType) (ht : g.ty m.cppType = some t)
    (hplain : m.Plain) :
    deserializeLine P (Reader.readTy P named) m t v = Reader.readTy P named t v := by
  cases hs : m.emit.scalar with
  | some s =>
    obtain rfl := ty_of_scalar hfits hs ht
    rw [deserializeLine_scalar hs, Reader.readTy]
  | none =>
    unfold deserializeLine
    cases he : m.emit with
    | generic => rfl
    | string =>
      obtain rfl := ty_of_string hfits he ht
      rw [Reader.readTy]
      rfl
    | optionalString =>
      obtain rfl := ty_of_optionalString hfits he ht
      rw [Reader.readTy]
      rfl
    | vectorArith =>
      dsimp only
      split
      · rw [Reader.readTy, seq_map]
        rfl
      · next s hbool =>
        split
        · next hs =>
          rw [Reader.readTy, seq_map, readCollection_arithmetic hs hbool]
        · rfl
      · rfl
    | vectorString =>
      dsimp only
      split
      · rw [Reader.readTy, readCollection_string]
      · rfl
    | fixedArray =>
      dsimp only
      split
      · next h =>
        rw [hplain he] at h
        cases h
      · rfl
    | stdArray =>
      dsimp only
      split
      · split
        · next hs =>
          rw [Reader.readTy, arrayDeserialize_arithmetic hs]
        · rfl
      · rfl
    | _ =>
      rw [he] at hs
      cases hs

/-- The call for a C array reads no user type. -/
theorem deserializeLine_mirrors {named' : Nat → Val → ReadM Val} (hfits : m.emit.Fits m.cppType)
    (ht : g.ty m.cppType = some t)
    (hread : Mirrors (Reader.readTy P named t v) (Reader.readTy P named' t v)) :
    Mirrors (deserializeLine P (Reader.readTy P named) m t v)
      (deserializeLine P (Reader.readTy P named') m t v) := by
  by_cases hplain : m.Plain
  · rw [deserializeLine_eq hfits ht hplain, deserializeLine_eq hfits ht hplain]
    exact hread
  · obtain ⟨he, -⟩ := Classical.not_imp.mp hplain
    unfold deserializeLine
    rw [he]
    dsimp only
    split
    · exact (Mirrors.readArray _ _).map _
    · exact hread

end Lines

section Members

variable {P : MemoryPack.Schema} {g : CppGenerator} {ms : List MemberDef} {ts : List Ty}
  {named named' : Nat → Val → ReadM Val}

/-- The lines of one header and the lines of another, that reads the user types alike. -/
theorem deserializeLines_mirrors (hts : List.Forall₂ (fun m T => g.ty m.cppType = some T) ms ts)
    (hfits : ∀ m ∈ ms, m.emit.Fits m.cppType) (hread : ∀ t ∈ ts, Mirrors
      (Reader.readTy P named t (P.init t)) (Reader.readTy P named' t (P.init t))) (count : Nat) :
    ∀ i, Mirrors (deserializeLines P (Reader.readTy P named) count i ms ts (P.inits ts))
      (deserializeLines P (Reader.readTy P named') count i ms ts (P.inits ts)) := by
  induction hts with
  | nil => exact fun i => .pure _
  | @cons m t ms ts ht hts ih =>
    obtain ⟨hm, hms⟩ := List.forall_mem_cons.mp hfits
    obtain ⟨hone, hall⟩ := List.forall_mem_cons.mp hread
    intro i
    rw [Schema.inits, deserializeLines, deserializeLines]
    have hrest := fun v => (ih hms hall (i + 1)).map (v :: ·)
    by_cases hcount : count ≥ i + 1
    · rw [if_pos hcount, if_pos hcount]
      exact (deserializeLine_mirrors hm ht hone).bind hrest
    · rw [if_neg hcount, if_neg hcount]
      exact (Mirrors.pure _).bind hrest

/-- The members as `MEMORYPACK_DEFINE` reads them, and the lines that spell it out. -/
theorem readMembers_mirrors (hts : List.Forall₂ (fun m T => g.ty m.cppType = some T) ms ts)
    (hfits : ∀ m ∈ ms, m.emit.Fits m.cppType) (hplain : ∀ m ∈ ms, m.Plain)
    (hread : ∀ t ∈ ts, Mirrors (Reader.readTy P named t (P.init t))
      (Reader.readTy P named' t (P.init t))) (count : Nat) :
    ∀ i, Mirrors (Reader.readMembers P (Reader.readTy P named) count i ts (P.inits ts))
      (deserializeLines P (Reader.readTy P named') count i ms ts (P.inits ts)) := by
  induction hts with
  | nil => exact fun i => .pure _
  | @cons m t ms ts ht hts ih =>
    obtain ⟨hm, hms⟩ := List.forall_mem_cons.mp hfits
    obtain ⟨hp, hps⟩ := List.forall_mem_cons.mp hplain
    obtain ⟨hone, hall⟩ := List.forall_mem_cons.mp hread
    intro i
    rw [Schema.inits, Reader.readMembers, deserializeLines, deserializeLine_eq hm ht hp]
    have hrest := fun v => (ih hms hps hall (i + 1)).map (v :: ·)
    by_cases hcount : count > i
    · rw [if_pos hcount, if_pos (Nat.succ_le_of_lt hcount)]
      exact hone.bind hrest
    · rw [if_neg hcount, if_neg fun h => hcount (Nat.lt_of_succ_le h)]
      refine Mirrors.bind (Mirrors.told ?_ (.pure _)) hrest
      exact fun _ => trivial

end Members

/-! ## The types of a header -/

section Types

variable {g : CppGenerator} {T : Ty} {type : CppType}

/-- The user types that occur in the type are structs of the header. -/
def CppGenerator.Knows (g : CppGenerator) (T : Ty) : Prop :=
  T.PartsIn fun u => ∀ i, u = .object i → g.Serialized i

theorem knows_of_ty (hT : g.ty type = some T) : g.Knows T := by
  induction type generalizing T with
  | builtin name => exact (builtinTy_refl hT).objects
  | named name => exact (namedTy_refl hT).objects
  | optional type ih | vector type ih | set type ih | array type n ih =>
    obtain ⟨t, ht, rfl⟩ := Option.map_eq_some_iff.mp hT
    exact List.forall_mem_cons.mpr ⟨by simp, ih ht⟩
  | map k v ihk ihv | pair k v ihk ihv =>
    obtain ⟨a, ha, hT⟩ := Option.bind_eq_some_iff.mp hT
    obtain ⟨b, hb, hT⟩ := Option.bind_eq_some_iff.mp hT
    obtain rfl := Option.some.inj hT
    exact List.forall_mem_cons.mpr ⟨by simp, List.forall_mem_append.mpr ⟨ihk ha, ihv hb⟩⟩

end Types

/-! ## The structs of a header -/

section Objects

variable {P : MemoryPack.Schema} {g : CppGenerator} {t : PackableType} {i : Nat}
  {named named' : Nat → Val → ReadM Val}

/-- What the readers of one struct are compared under: its members have the types of the
program and their default values, and the user types among them are read alike. -/
structure Related (g : CppGenerator) (P : MemoryPack.Schema) (named named' : Nat → Val → ReadM Val)
    (t : PackableType) (i : Nat) : Prop where
  types : List.Forall₂ (fun m T => g.ty m.cppType = some T) t.members (P.decl i).members
  fits : ∀ m ∈ t.members, m.emit.Fits m.cppType
  init : (P.decl i).init = P.inits (P.decl i).members
  read : ∀ T ∈ (P.decl i).members, Mirrors (Reader.readTy P named T (P.init T))
    (Reader.readTy P named' T (P.init T))

theorem Related.items (h : Related g P named named' t i) :
    (P.init (.object i)).items = P.inits (P.decl i).members := h.init

theorem Related.explicit (h : Related g P named named' t i) : Mirrors
    (explicitDeserialize P (Reader.readTy P named) t i (P.init (.object i)))
    (explicitDeserialize P (Reader.readTy P named') t i (P.init (.object i))) := by
  unfold explicitDeserialize
  refine Mirrors.ite (fun _ => Mirrors.versionTolerant h.items h.read) fun _ => ?_
  refine Mirrors.ite (fun _ => ?_) fun _ => ?_
  · exact Mirrors.readRules.readObjectHeader.bind fun _ => .pure _
  · refine Mirrors.readRules.readObjectHeader.bind fun header => ?_
    rw [h.items]
    exact Mirrors.ite (fun _ => .pure _) fun _ =>
      (deserializeLines_mirrors h.types h.fits h.read _ 0).map Val.seq

/-- `MEMORYPACK_DEFINE` and `EmitExplicit` on a struct without C arrays. -/
theorem Related.define (h : Related g P named named' t i) (htolerant : t.versionTolerant = false)
    (hplain : ∀ m ∈ t.members, m.Plain) : Mirrors
      (macroDeserialize P (Reader.readTy P named) t i (P.init (.object i)))
      (explicitDeserialize P (Reader.readTy P named') t i (P.init (.object i))) := by
  unfold macroDeserialize explicitDeserialize
  rw [htolerant, if_neg Bool.false_ne_true]
  refine Mirrors.ite (fun _ => ?_) fun _ => ?_
  · refine Mirrors.readRules.readObjectHeader.bind fun header => ?_
    by_cases hnull : header.isNull
    · rw [if_pos hnull]
      exact .pure _
    · rw [if_neg hnull]
      refine Mirrors.told ?_ (.pure _)
      exact fun _ => trivial
  · refine Mirrors.readRules.readObjectHeader.bind fun header => ?_
    rw [h.items]
    refine Mirrors.ite (fun _ => .pure _) fun _ => ?_
    exact Mirrors.objectBody (readMembers_mirrors h.types h.fits hplain h.read _ 0)

/-- The structs of the header have no C arrays. -/
def CppGenerator.Plain (g : CppGenerator) : Prop :=
  ∀ i t, g.serializable i = some t → ∀ m ∈ t.members, m.Plain

/-- A struct without annotated members has no C array. -/
theorem plain_of_not_requiresExplicit (h : t.requiresExplicit = false) :
    t.versionTolerant = false ∧ ∀ m ∈ t.members, m.Plain := by
  obtain ⟨htolerant, hannot⟩ := Bool.or_eq_false_iff.mp h
  refine ⟨htolerant, fun m hm _ => ?_⟩
  have hm' := List.any_eq_false.mp hannot m hm
  simpa using hm'

variable {u : CompilationUnit} {options : GeneratorOptions}

/-- The structs of a header, with readers of the structs inside them that are alike. -/
theorem Related.of_mirrors (hP : (u.generator options).CompilesTo P)
    (hinit : (u.generator options).Initialised P)
    (ht : (u.generator options).serializable i = some t)
    (hnamed : ∀ j, (u.generator options).Serialized j →
      Mirrors (named j (P.init (.object j))) (named' j (P.init (.object j)))) :
    Related (u.generator options) P named named' t i := by
  obtain ⟨hplace, hmanaged⟩ := CppGenerator.serializable_eq_some.mp ht
  have htypes := hP.members i t hplace hmanaged
  refine ⟨htypes, fits_of_mem (List.mem_of_getElem? hplace), hinit i t ht, fun T hT => ?_⟩
  obtain ⟨m, -, hm⟩ := Collected.exists_of_forall₂ htypes.flip hT
  exact Mirrors.readTy (fun j hj => hnamed j (hj j rfl)) T (knows_of_ty hm)

theorem readObject_explicit (ht : g.serializable i = some t) (fuel : Nat) (v : Val) :
    (g.withStyle .explicit).readObject P (fuel + 1) i v = explicitDeserialize P
      (Reader.readTy P ((g.withStyle .explicit).readObject P fuel)) t i v := by
  have ht' : (g.withStyle .explicit).serializable i = some t := ht
  rw [CppGenerator.readObject, ht']
  rfl

/-- By induction on the room for nested structs: a struct of either style, and the same struct
in the explicit style. -/
theorem readObject_mirrors (hP : (u.generator options).CompilesTo P)
    (hinit : (u.generator options).Initialised P) :
    ∀ fuel i, (u.generator options).Serialized i → Mirrors
      ((u.generator options).readObject P fuel i (P.init (.object i)))
      (((u.generator options).withStyle .explicit).readObject P fuel i (P.init (.object i)))
  | 0, _, _ => .diverge
  | fuel + 1, i, ⟨t, hplace, hmanaged⟩ => by
      have ht := CppGenerator.serializable_eq_some.mpr ⟨hplace, hmanaged⟩
      have hrelated := Related.of_mirrors hP hinit ht (readObject_mirrors hP hinit fuel)
      rw [readObject_explicit ht, CppGenerator.readObject, ht]
      dsimp only
      unfold CppGenerator.deserializeBody
      split
      · exact hrelated.explicit
      · next hstyle =>
        rw [Bool.or_eq_true, not_or] at hstyle
        obtain ⟨htolerant, hplain⟩ :=
          plain_of_not_requiresExplicit (Bool.eq_false_of_not_eq_true hstyle.2)
        exact hrelated.define htolerant hplain

theorem readDecl_tolerant (hkind : (P.decl i).kind = t.declKind)
    (htolerant : t.versionTolerant = true) (read : Ty → Val → ReadM Val) (v : Val) :
    Reader.readDecl P read i v = VersionTolerantReader.deserialize P read i v := by
  rw [PackableType.declKind, if_pos htolerant] at hkind
  rw [Reader.readDecl, hkind]

theorem readDecl_define (hkind : (P.decl i).kind = t.declKind)
    (htolerant : t.versionTolerant = false) (read : Ty → Val → ReadM Val) (v : Val) :
    Reader.readDecl P read i v = macroDeserialize P read t i v := by
  rw [PackableType.declKind, if_neg (by rw [htolerant]; decide)] at hkind
  unfold macroDeserialize
  by_cases hempty : t.members.length = 0
  · rw [if_pos hempty] at hkind
    rw [Reader.readDecl, hkind, if_pos hempty]
  · rw [if_neg hempty] at hkind
    rw [Reader.readDecl, hkind, if_neg hempty]

/-- The program of the header, where each struct has the reader of its kind, and the readers
of the explicit style. -/
theorem readObject_mirrors_explicit (hP : (u.generator options).CompilesTo P)
    (hinit : (u.generator options).Initialised P) (hplain : (u.generator options).Plain) :
    ∀ fuel i, (u.generator options).Serialized i → Mirrors
      (Reader.readObject P fuel i (P.init (.object i)))
      (((u.generator options).withStyle .explicit).readObject P fuel i (P.init (.object i)))
  | 0, _, _ => .diverge
  | fuel + 1, i, ⟨t, hplace, hmanaged⟩ => by
      have ht := CppGenerator.serializable_eq_some.mpr ⟨hplace, hmanaged⟩
      have hkind := hP.kind i t hplace hmanaged
      have hrelated := Related.of_mirrors hP hinit ht
        (readObject_mirrors_explicit hP hinit hplain fuel)
      rw [readObject_explicit ht, Reader.readObject_eq]
      cases htolerant : t.versionTolerant with
      | true =>
        rw [readDecl_tolerant hkind htolerant, explicitDeserialize, if_pos htolerant]
        exact Mirrors.versionTolerant hrelated.items hrelated.read
      | false =>
        rw [readDecl_define hkind htolerant]
        exact hrelated.define htolerant (hplain i t ht)

/-- Without annotated members the macro style is the program of the header. -/
theorem readObject_macroStyle (hP : g.CompilesTo P) (hstyle : g.options.style = .macroStyle)
    (hannot : ∀ i t, g.serializable i = some t → ∀ m ∈ t.members, m.annot = none) (fuel : Nat) :
    g.readObject P fuel = Reader.readObject P fuel := by
  induction fuel with
  | zero => rfl
  | succ fuel ih =>
    funext i v
    rw [CppGenerator.readObject, Reader.readObject_eq, ih]
    cases ht : g.serializable i with
    | none => rfl
    | some t =>
      obtain ⟨hplace, hmanaged⟩ := CppGenerator.serializable_eq_some.mp ht
      have hkind := hP.kind i t hplace hmanaged
      have hnone : (t.members.any fun m => m.annot.isSome) = false := by
        apply List.any_eq_false.mpr
        intro m hm
        simp [hannot i t ht m hm]
      dsimp only
      unfold CppGenerator.deserializeBody PackableType.requiresExplicit
      rw [hstyle, hnone, Bool.or_false]
      cases htolerant : t.versionTolerant with
      | true =>
        rw [readDecl_tolerant hkind htolerant, if_pos (by simp), explicitDeserialize,
          if_pos htolerant]
      | false => rw [readDecl_define hkind htolerant, if_neg (by decide)]

end Objects

/-! ## Both styles read alike -/

section Styles

variable {u : CompilationUnit} {options : GeneratorOptions} {P : MemoryPack.Schema} {T : Ty}

theorem read_mirrors (hP : (u.generator options).CompilesTo P)
    (hinit : (u.generator options).Initialised P) (hT : (u.generator options).Knows T) : Mirrors
      ((u.generator options).read P T (P.init T))
      (((u.generator options).withStyle .explicit).read P T (P.init T)) := by
  apply Mirrors.get
  · intro r
    exact Mirrors.readTy (fun i hi => readObject_mirrors hP hinit (r.size + 1) i (hi i rfl)) T hT
  · intro r d k
    rfl

/-- What the header in the macro style reads without a failure, the header in the explicit
style reads too. The explicit style has no depth limit: it reads every input, malformed or
not and in either build, as the macro style does with the largest limit. -/
theorem styles_read_alike (hP : (u.generator options).CompilesTo P)
    (hinit : (u.generator options).Initialised P) (hT : (u.generator options).Knows T)
    (B : Build) (r : MemoryPackReader) :
    (∀ w r', Prog.Returns ((u.generator { options with style := .macroStyle }).read P T (P.init T))
        B r w r' → r'.error = .none →
      Prog.Returns ((u.generator { options with style := .explicit }).read P T (P.init T)) B r w
        (r'.nested r.depth r.options.maxDepth)) ∧
    ((u.generator { options with style := .explicit }).read P T (P.init T) B r).out =
      ((u.generator { options with style := .macroStyle }).read P T (P.init T) B
        (r.nested r.depth 0xFFFFFFFF)).out ∧
    ((u.generator { options with style := .explicit }).read P T (P.init T) B r).st =
      ((u.generator { options with style := .macroStyle }).read P T (P.init T) B
        (r.nested r.depth 0xFFFFFFFF)).st.nested r.depth r.options.maxDepth := by
  have hmirrors : Mirrors
      ((u.generator { options with style := .macroStyle }).read P T (P.init T))
      ((u.generator { options with style := .explicit }).read P T (P.init T)) :=
    read_mirrors (hP.withStyle .macroStyle) hinit hT
  constructor
  · intro w r' hrun he
    obtain ⟨l, hrun⟩ := Prog.returns_iff.mp hrun
    exact hmirrors.succeeds r.depth r.options.maxDepth hrun he
  · exact hmirrors.unlimited (r := r.nested r.depth 0xFFFFFFFF) r.depth r.options.maxDepth rfl

/-- A class in a class. -/
def wrapped : CompilationUnit :=
  ⟨none, [], [
    { name := "Inner", kind := .classKind, members := [Side.property "Id" (.predefined "int")] },
    { name := "Outer", kind := .classKind,
      members := [Side.property "Value" (.identifier "Inner")] }]⟩

def wrappedProgram : MemoryPack.Schema :=
  program [declOf .define [.scalar (.int true .w4)], declOf .define [.optional (.object 0)]]

/-- Two objects deep, where one is allowed. -/
def wrappedReader : MemoryPackReader :=
  { data := [1, 1, 7, 0, 0, 0], options := { maxDepth := 1 } }

theorem styles_read_alike_wrapped :
    ((wrapped.generator { style := .macroStyle }).read wrappedProgram (.object 1)
      (wrappedProgram.init (.object 1)) ⟨true, .little, .w64, 0⟩ wrappedReader).out =
        .throw .lengthLimit ∧
    ((wrapped.generator { style := .explicit }).read wrappedProgram (.object 1)
      (wrappedProgram.init (.object 1)) ⟨true, .little, .w64, 0⟩ wrappedReader).out =
        .ret (.seq [.some (.seq [.scalar 7])]) := by
  have hinner : (wrapped.generator {}).ty (.named "Inner") = some (.object 0) := by
    have htype : ((wrapped.generator {}).schema.typeByName "Inner").map
        (fun t => (t.name, t.isUnmanaged)) = some ("Inner", false) := by decide
    obtain ⟨t, ht, heq⟩ := Option.map_eq_some_iff.mp htype
    obtain ⟨hname, hmanaged⟩ := Prod.mk.inj heq
    have hnumber : (wrapped.generator {}).number "Inner" = some 0 := by decide
    show (wrapped.generator {}).namedTy 0 "Inner" = _
    unfold CppGenerator.namedTy
    rw [show (wrapped.generator {}).schema.enumByName "Inner" = none from rfl, ht]
    dsimp only
    rw [CppGenerator.typeTy, hmanaged, hname, hnumber, if_neg Bool.false_ne_true]
    rfl
  have hP : (wrapped.generator {}).CompilesTo wrappedProgram := by
    apply compilesTo_program
    refine .cons (fun _ => ⟨rfl, .cons rfl .nil⟩) (.cons (fun _ => ⟨rfl, .cons ?_ .nil⟩) .nil)
    -- a member of a class may be null
    refine Eq.trans (b := (wrapped.generator {}).ty (.optional (.named "Inner"))) ?_ ?_
    · apply congrArg
      decide
    · rw [CppGenerator.ty, hinner]
      rfl
  have hinit : (wrapped.generator {}).Initialised wrappedProgram := by
    intro i t ht
    rcases i with _ | _ | i
    · rfl
    · rfl
    · cases ht
  have hT : (wrapped.generator {}).Knows (.object 1) := by
    have hplace : ((wrapped.generator {}).orderedTypes[1]?).map (·.isUnmanaged) = some false := by
      decide
    obtain ⟨t, ht, hmanaged⟩ := Option.map_eq_some_iff.mp hplace
    simp only [CppGenerator.Knows, Ty.PartsIn, Ty.parts, List.mem_singleton]
    rintro _ rfl i hi
    obtain rfl := Ty.object.inj hi
    exact ⟨t, ht, hmanaged⟩
  obtain ⟨-, hout, -⟩ := styles_read_alike hP hinit hT ⟨true, .little, .w64, 0⟩ wrappedReader
  refine ⟨?_, hout.trans ?_⟩
  · rfl
  · rfl

end Styles

end Cs2Cpp

end MemoryPack
