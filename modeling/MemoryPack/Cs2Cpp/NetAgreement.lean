import MemoryPack.Cs2Cpp.NetLayout

/-!
# When a generated struct has the .NET layout

Struct by struct, innermost first: if the parser and the generator agree with .NET on the
structs nested in it, they agree on a struct exactly under the condition `LaidOutAlike`, and
then on its size and alignment too.
-/

namespace MemoryPack.Cs2Cpp

open Layout Collected

namespace Declarations

variable {D : Declarations}

/-! ## Kept members -/

section Kept

variable {ms : List MemberSyntax} {pack1 : Bool} {fields : Fields}

/-- The .NET extent of a kept member's type. -/
def memberExtent (D : Declarations) (m : RawMember) : Extent :=
  (m.type.netName.bind (D.extent D.depth)).getD ⟨1, 0, Nat.one_pos⟩

theorem isInstance_of_isSerializable {m : MemberSyntax} (h : isSerializable m = true) :
    m.isInstance = true := by
  unfold isSerializable at h
  unfold MemberSyntax.isInstance
  split at h <;> simp_all

theorem collectRawMembers_cons (i : Nat) (m : MemberSyntax) (ms : List MemberSyntax) :
    collectRawMembers i (m :: ms) =
      if m.isKept then
        { csName := m.name, type := m.type, order := readOrder m.order, annot := m.annot,
          declIndex := i } :: collectRawMembers (i + 1) ms
      else collectRawMembers i ms := rfl

/-- What has no storage is not kept. -/
theorem not_isKept {m : MemberSyntax} (h : m.isInstance = false) : ¬ m.isKept = true := by
  intro hkept
  have hserializable := (Bool.and_eq_true _ _ ▸ hkept : _ ∧ _).1
  rw [isInstance_of_isSerializable hserializable] at h
  cases h

theorem declIndex_collectRawMembers (i : Nat) (ms : List MemberSyntax) :
    (collectRawMembers i ms).map RawMember.declIndex =
      List.range' i (collectRawMembers i ms).length := by
  induction ms generalizing i with
  | nil => rfl
  | cons m ms ih =>
    rw [collectRawMembers]
    split
    · rw [List.map_cons, List.length_cons, List.range'_succ, ih]
    · exact ih i

/-- The kept fields of .NET are the members that the parser collects. -/
theorem kept_fieldsOf (h : fieldsOf (D.extent D.depth) pack1 ms = some fields) (i : Nat) :
    fields.kept =
      (collectRawMembers i ms).map fun r => (D.memberExtent r).packed pack1 := by
  induction ms generalizing fields i with
  | nil =>
    obtain rfl := Option.some.inj h
    rfl
  | cons m ms ih =>
    rw [collectRawMembers_cons]
    rcases fieldsOf_cases h with ⟨-, name, e, rest, hname, he, hrest, rfl⟩ | ⟨hinstance, hrest⟩
    · by_cases hkept : m.isKept = true
      · rw [if_pos hkept, List.map_cons, ← ih hrest]
        simp [Fields.kept, hkept, memberExtent, hname, he]
      · rw [if_neg hkept, ← ih hrest]
        simp [Fields.kept, hkept]
    · rw [if_neg (not_isKept hinstance), ih hrest]

/-- Every collected member has a type with an extent. -/
theorem netName_of_fieldsOf {E : String → Option Extent} (h : fieldsOf E pack1 ms = some fields)
    (i : Nat) : ∀ r ∈ collectRawMembers i ms,
      ∃ name e, r.type.netName = some name ∧ E name = some e := by
  induction ms generalizing fields i with
  | nil => simp [collectRawMembers]
  | cons m ms ih =>
    rw [collectRawMembers_cons]
    rcases fieldsOf_cases h with ⟨-, name, e, rest, hname, he, hrest, -⟩ | ⟨hinstance, hrest⟩
    · split
      · rintro r hr
        rcases List.mem_cons.mp hr with rfl | hr
        · exact ⟨name, e, hname, he⟩
        · exact ih hrest _ r hr
      · exact ih hrest i
    · rw [if_neg (not_isKept hinstance)]
      exact ih hrest i

theorem map_range_getElem? (as : List Nat) :
    (List.range as.length).map (fun i => as[i]?) = as.map some := by
  apply List.ext_getElem?
  intro i
  rw [List.getElem?_map, List.getElem?_map]
  by_cases hi : i < as.length
  · rw [List.getElem?_range hi, Option.map_some, List.getElem?_eq_getElem hi, Option.map_some]
  · rw [List.getElem?_eq_none (by simpa using hi), List.getElem?_eq_none (Nat.le_of_not_lt hi)]
    rfl

/-- The kept offsets, looked up by the indices of the members. -/
theorem map_declIndex {members : List RawMember} {kept : List Nat}
    (hindex : members.map RawMember.declIndex = List.range members.length)
    (hlen : kept.length = members.length) :
    (members.map fun m => kept[m.declIndex]?) = kept.map some := by
  rw [← map_range_getElem?, hlen, ← hindex, List.map_map]
  rfl

theorem lt_of_increasing {as : List Nat} (h : as.Pairwise (· < ·)) {i j a b : Nat}
    (hi : as[i]? = some a) (hj : as[j]? = some b) (hab : a < b) : i < j := by
  obtain ⟨hi', rfl⟩ := List.getElem?_eq_some_iff.mp hi
  obtain ⟨hj', rfl⟩ := List.getElem?_eq_some_iff.mp hj
  rcases Nat.lt_trichotomy i j with hij | rfl | hji
  · exact hij
  · exact absurd hab (Nat.lt_irrefl _)
  · exact absurd (hab.trans (List.pairwise_iff_getElem.mp h j i hj' hi' hji)) (Nat.lt_irrefl _)

/-- Members that stand where .NET has them stand in their order. -/
theorem eq_of_offsets {members emitted : List RawMember} {extent : RawMember → Extent}
    {kept : List Nat} (hperm : emitted.Perm members)
    (hindex : members.map RawMember.declIndex = List.range members.length)
    (hkept : kept.Pairwise (· < ·))
    (h : (offsets 0 (emitted.map extent)).map some = emitted.map fun m => kept[m.declIndex]?) :
    emitted = members := by
  have hemitted : emitted.Pairwise fun a b => a.declIndex < b.declIndex := by
    have hinc : ((offsets 0 (emitted.map extent)).map some).Pairwise
        fun x y => ∃ a b, x = some a ∧ y = some b ∧ a < b := by
      rw [List.pairwise_map]
      exact (offsets_increasing _ _).imp fun hab => ⟨_, _, rfl, rfl, hab⟩
    rw [h, List.pairwise_map] at hinc
    refine hinc.imp ?_
    rintro m m' ⟨a, b, ha, hb, hab⟩
    exact lt_of_increasing hkept ha hb hab
  have hmembers : members.Pairwise fun a b => a.declIndex < b.declIndex := by
    rw [← @List.pairwise_map _ _ RawMember.declIndex (· < ·), hindex]
    exact List.pairwise_lt_range
  exact List.Perm.eq_of_pairwise (fun a b _ _ hab hba => absurd (hab.trans hba) (Nat.lt_irrefl _))
    hemitted hmembers hperm

end Kept

/-! ## Emitted members -/

section Emitted

variable {M : TypeMapper} {shape : CppType → Option Shape} {extent : RawMember → Extent}
  {emitted : List RawMember} {ms : List Shape}

theorem fieldShapes_emitted
    (h : ∀ r ∈ emitted, (∀ size name, r.annot ≠ some (.fixedArray size name)) ∧
      ∃ s, shape (memberDef M r).cppType = some s ∧ s.extent = extent r) :
    ∃ ms, fieldShapes shape ((emitted.map (memberDef M)).map emitMember) = some ms ∧
      ms.map Shape.extent = emitted.map extent := by
  induction emitted with
  | nil => exact ⟨[], rfl, rfl⟩
  | cons r rs ih =>
    obtain ⟨hplain, s, hs, hextent⟩ := h r List.mem_cons_self
    obtain ⟨ms, hms, hextents⟩ := ih fun r' hr' => h r' (List.mem_cons_of_mem _ hr')
    have hmember : emitMember (memberDef M r) =
        .plain (memberDef M r).cppType (memberDef M r).cppName (memberDef M r).defaultValue := by
      unfold emitMember
      split
      case h_1 size name hannot => exact absurd hannot (hplain size name)
      case h_2 => rfl
    refine ⟨s :: ms, ?_, ?_⟩
    · rw [List.map_cons, List.map_cons, hmember, fieldShapes, hs, hms]
      rfl
    · rw [List.map_cons, List.map_cons, hextent, hextents]

theorem plain_of_fieldShapes
    (h : fieldShapes shape ((emitted.map (memberDef M)).map emitMember) = some ms) :
    ∀ r ∈ emitted, ∀ size name, r.annot ≠ some (.fixedArray size name) := by
  induction emitted generalizing ms with
  | nil => simp
  | cons r rs ih =>
    rintro r' hr' size name hannot
    rw [List.map_cons, List.map_cons] at h
    cases hmember : emitMember (memberDef M r) with
    | fixedArray =>
      rw [hmember] at h
      cases h
    | plain =>
      rw [hmember] at h
      obtain ⟨_, _, h⟩ := Option.bind_eq_some_iff.mp h
      obtain ⟨ms', hms', _⟩ := Option.bind_eq_some_iff.mp h
      rcases List.mem_cons.mp hr' with rfl | hr'
      · simp [emitMember, memberDef, hannot] at hmember
      · exact ih hms' r' hr' size name hannot

end Emitted

/-! ## One struct -/

/-- A struct whose nested structs the parser and the generator lay out as .NET does. -/
structure Nested (D : Declarations) (nullableStrings : Bool) (n : Nat) (d : TypeDeclaration)
    (fields : Fields) : Prop where
  mem : d ∈ D.structs
  deep : n ≤ D.depth
  fields_eq : fieldsOf (D.extent n) d.pack1 d.members = some fields
  agrees : ∀ name e, D.isStructName name = true → D.extent n name = some e →
    D.Agrees nullableStrings n name e

namespace Nested

variable {nullableStrings : Bool} {n : Nat} {d : TypeDeclaration} {fields : Fields}
  {r : RawMember}

theorem fields_depth (hd : Nested D nullableStrings n d fields) : D.fields d = some fields :=
  fieldsOf_extend (fun _ _ he => extent_mono he hd.deep) hd.fields_eq

theorem kept_eq (hd : Nested D nullableStrings n d fields) :
    fields.kept = (collectType d).members.map fun r => (D.memberExtent r).packed d.pack1 :=
  kept_fieldsOf hd.fields_depth 0

theorem member (hd : Nested D nullableStrings n d fields) (hr : r ∈ (collectType d).members) :
    ∃ name, r.type.netName = some name ∧ D.extent n name = some (D.memberExtent r) := by
  obtain ⟨name, e, hname, he⟩ := netName_of_fieldsOf hd.fields_eq 0 r hr
  refine ⟨name, hname, ?_⟩
  rw [memberExtent, hname, Option.bind_some, extent_mono he hd.deep, he]
  rfl

variable (h : D.Unmanaged)

include h in
theorem member_agrees (hd : Nested D nullableStrings n d fields)
    (hr : r ∈ (collectType d).members) (hmapped : D.Mapped r.type) :
    D.collected.fieldOf D.collected.layoutOf r.type = some (D.memberExtent r).pair ∧
      ∃ s, (D.collected.schema nullableStrings).shape n
        (memberDef (D.collected.mapper nullableStrings) r).cppType = some s ∧
          s.extent = D.memberExtent r := by
  obtain ⟨name, hname, he⟩ := hd.member hr
  exact h.member_agrees hname he hmapped fun hstruct => hd.agrees name _ hstruct he

include h in
theorem layoutOf_eq (hd : Nested D nullableStrings n d fields) :
    D.collected.layoutOf d.name =
      computeOf (D.collected.fieldOf D.collected.layoutOf) (collectType d) := by
  have hfind : D.findStruct d.name = some d :=
    find?_of_nodup (List.nodup_append.mp h.nodup).2.1 hd.mem
  rw [Collected.layoutOf_eq, h.findRaw_eq, hfind]
  exact if_pos (h.isStruct d hd.mem).1

include h in
/-- The parser's layout is the one of the kept fields. -/
theorem parsed (hd : Nested D nullableStrings n d fields)
    (hmapped : ∀ r ∈ (collectType d).members, D.Mapped r.type) :
    D.collected.layoutOf d.name = some (struct fields.kept).pair := by
  have hextents : List.Forall₂ (Fits8 (D.collected.fieldOf D.collected.layoutOf))
      (collectType d).members ((collectType d).members.map D.memberExtent) := by
    rw [List.forall₂_map_right_iff, List.forall₂_same]
    intro r hr
    obtain ⟨name, _, he⟩ := hd.member hr
    exact ⟨(hd.member_agrees h hr (hmapped r hr)).1, extent_log_le he⟩
  rw [hd.layoutOf_eq h, hd.kept_eq, computeOf_extents hextents, List.map_map]
  rfl

include h in
theorem mapped_of_isSome (hd : Nested D nullableStrings n d fields)
    (hsome : (D.collected.layoutOf d.name).isSome) :
    ∀ r ∈ (collectType d).members, D.Mapped r.type := by
  intro r hr
  by_contra hnot
  obtain ⟨name, hname, _⟩ := hd.member hr
  rw [hd.layoutOf_eq h] at hsome
  have hfield := isSome_of_computeOf hsome r hr
  rw [h.field_none hname hnot] at hfield
  cases hfield

include h in
/-- The emitted struct has the kept fields in the order of `OrderMembers`. -/
theorem emitted {t : PackableType} (hd : Nested D nullableStrings n d fields)
    (ht : Typed (D.collected.mapper nullableStrings) (collectType d) t)
    (hmapped : ∀ r ∈ (collectType d).members, D.Mapped r.type)
    (hplain : ∀ r ∈ (collectType d).members, ∀ size name,
      r.annot ≠ some (.fixedArray size name)) :
    ∃ ms, declShape ((D.collected.schema nullableStrings).shape n) (emitStruct t) =
        some (.struct d.pack1 ms) ∧
      Shape.packedExtents d.pack1 ms = (orderMembers (collectType d).members).map
        fun r => (D.memberExtent r).packed d.pack1 := by
  obtain ⟨ms, hms, hextents⟩ := @fieldShapes_emitted (D.collected.mapper nullableStrings)
    ((D.collected.schema nullableStrings).shape n) D.memberExtent
    (orderMembers (collectType d).members) fun r hr =>
      ⟨hplain r (mem_orderMembers.mp hr), (hd.member_agrees h (mem_orderMembers.mp hr)
        (hmapped r (mem_orderMembers.mp hr))).2⟩
  refine ⟨ms, ?_, ?_⟩
  · rw [emitStruct, declShape, ht.members, hms, ht.pack1]
    rfl
  · rw [Shape.packedExtents_eq, hextents, List.map_map]
    rfl

include h in
/-- The type of the schema that a struct becomes. -/
theorem exists_type (hd : Nested D nullableStrings n d fields) :
    ∃ t ∈ (D.collected.schema nullableStrings).types, t.name = d.name ∧
      (∀ t' ∈ (D.collected.schema nullableStrings).types, t'.name = d.name → t' = t) ∧
      Typed (D.collected.mapper nullableStrings) (collectType d) t ∧
      Sized D.collected (collectType d) t := by
  have hraw : collectType d ∈ D.collected.rawTypes := by
    rw [h.collected_eq.1]
    exact List.mem_map_of_mem hd.mem
  have hall := D.collected.schema_sized nullableStrings
  obtain ⟨t, ht, htyped, hsized⟩ := exists_of_forall₂ hall hraw
  refine ⟨t, ht, htyped.name, fun t' ht' hname => ?_, htyped, hsized⟩
  have hnodup : ((D.collected.schema nullableStrings).types.map PackableType.name).Nodup := by
    rw [map_name_of_typed (D.collected.schema_typed nullableStrings), h.collected_eq.1,
      List.map_map]
    exact (List.nodup_append.mp h.nodup).2.1
  exact List.inj_on_of_nodup_map hnodup ht' ht (hname.trans htyped.name.symm)

theorem declIndex_members (d : TypeDeclaration) :
    (collectType d).members.map RawMember.declIndex =
      List.range (collectType d).members.length := by
  rw [List.range_eq_range']
  exact declIndex_collectRawMembers 0 d.members

/-- The collected members are indexed as .NET has their fields. -/
theorem map_keptOffsets (hd : Nested D nullableStrings n d fields) :
    ((collectType d).members.map fun m => (fields.keptOffsets 0)[m.declIndex]?) =
      (fields.keptOffsets 0).map some := by
  refine map_declIndex (declIndex_members d) ?_
  rw [Fields.length_keptOffsets, hd.kept_eq, List.length_map]

include h in
/-- Where the members stand in the emitted struct. -/
theorem memberOffsets_eq {t : PackableType} (hd : Nested D nullableStrings n d fields)
    (ht : Typed (D.collected.mapper nullableStrings) (collectType d) t)
    (hmapped : ∀ r ∈ (collectType d).members, D.Mapped r.type)
    (hplain : ∀ r ∈ (collectType d).members, ∀ size name,
      r.annot ≠ some (.fixedArray size name)) :
    (D.collected.schema nullableStrings).memberOffsets D.depth t =
      some (offsets 0 ((orderMembers (collectType d).members).map
        fun r => (D.memberExtent r).packed d.pack1)) := by
  obtain ⟨ms, hms, hextents⟩ := hd.emitted h ht hmapped hplain
  have hshape := @declShape_extend _ _ (fun type s hs =>
    @Schema.shape_mono (D.collected.schema nullableStrings) n D.depth type s hs hd.deep) _ _ hms
  rw [Schema.memberOffsets, hshape, ← hextents]

/-- A struct with a layout has no array with a count of its own. -/
theorem plain_of_memberOffsets {t : PackableType} {offs : List Nat}
    (ht : Typed (D.collected.mapper nullableStrings) (collectType d) t)
    (hoffs : (D.collected.schema nullableStrings).memberOffsets D.depth t = some offs) :
    ∀ r ∈ (collectType d).members, ∀ size name, r.annot ≠ some (.fixedArray size name) := by
  unfold Schema.memberOffsets at hoffs
  split at hoffs
  case h_1 pack1 ms hdecl =>
    obtain ⟨ms', _, hms'⟩ := declShape_emitStruct hdecl
    rw [ht.members] at hms'
    exact fun r hr => plain_of_fieldShapes hms' r (mem_orderMembers.mpr hr)
  case h_2 => cases hoffs

include h in
theorem laidOutAlike (hd : Nested D nullableStrings n d fields)
    (hnet : D.HasNetLayout nullableStrings d) : D.LaidOutAlike d := by
  obtain ⟨t, ht, hname, hunique, htyped, hsized⟩ := hd.exists_type h
  obtain ⟨t', ht', hname', hunmanaged, fields', hfields', hsize, offs, hoffs, hplaces⟩ := hnet
  obtain rfl := hunique t' ht' hname'
  obtain rfl := Option.some.inj (hd.fields_depth.symm.trans hfields')
  obtain ⟨hkind, hsome⟩ := hsized.isUnmanaged.mp hunmanaged
  have hmapped := hd.mapped_of_isSome h hsome
  have hplain := plain_of_memberOffsets htyped hoffs
  obtain rfl := Option.some.inj (hoffs.symm.trans (hd.memberOffsets_eq h htyped hmapped hplain))
  rw [htyped.members, List.map_map] at hplaces
  -- members at increasing offsets are in the order of .NET
  have horder : orderMembers (collectType d).members = (collectType d).members :=
    eq_of_offsets (orderMembers_perm _) (declIndex_members d)
      (Fields.keptOffsets_increasing 0 fields) hplaces
  rw [horder, ← hd.kept_eq] at hplaces
  have hoffsets : offsets 0 fields.kept = fields.keptOffsets 0 :=
    List.map_injective_iff.mpr (Option.some_injective _) (hplaces.trans hd.map_keptOffsets)
  have hstruct : (struct fields.kept).size = (struct fields.all).size := by
    rw [← hsize]
    exact (hsized.unmanagedSize _ hkind (hd.parsed h hmapped)).symm
  refine ⟨hmapped, hplain, horder, fun fields' hfields' => ?_⟩
  obtain rfl := Option.some.inj (hd.fields_depth.symm.trans hfields')
  exact Fields.inPadding_iff.mpr ⟨hoffsets, hstruct⟩

include h in
theorem hasNetLayout (hd : Nested D nullableStrings n d fields) (hcond : D.LaidOutAlike d) :
    D.HasNetLayout nullableStrings d := by
  obtain ⟨t, ht, hname, _, htyped, hsized⟩ := hd.exists_type h
  have hkind := (h.isStruct d hd.mem).1
  have hparsed := hd.parsed h hcond.mapped
  obtain ⟨hoffsets, hsize⟩ := Fields.inPadding_iff.mp (hcond.padding fields hd.fields_depth)
  refine ⟨t, ht, hname, ?_, fields, hd.fields_depth, ?_, offsets 0 fields.kept, ?_, ?_⟩
  · exact hsized.isUnmanaged.mpr ⟨hkind, Option.isSome_of_eq_some hparsed⟩
  · rw [hsized.unmanagedSize _ hkind hparsed]
    exact hsize
  · rw [hd.memberOffsets_eq h htyped hcond.mapped hcond.plain, hcond.inOrder, hd.kept_eq]
  · rw [htyped.members, List.map_map, hcond.inOrder, hoffsets]
    exact hd.map_keptOffsets.symm

include h in
/-- Size and alignment of the struct are right as well. -/
theorem agrees_self (hd : Nested D nullableStrings n d fields) (hcond : D.LaidOutAlike d)
    (hstruct : D.isStructName d.name = true) :
    D.Agrees nullableStrings (n + 1) d.name (struct fields.all) := by
  have hkept := Fields.struct_eq_of_inPadding (hcond.padding fields hd.fields_depth)
  refine ⟨?_, ?_⟩
  · rw [hd.parsed h hcond.mapped, hkept]
  · obtain ⟨t, ht, hname, _, htyped, _⟩ := hd.exists_type h
    obtain ⟨ms, hms, hextents⟩ := hd.emitted h htyped hcond.mapped hcond.plain
    have henum : (D.collected.schema nullableStrings).enumByName d.name = none := by
      refine (h.findEnum_eq d.name).trans ?_
      simp only [isStructName, Bool.and_eq_true, Option.isNone_iff_eq_none] at hstruct
      rw [hstruct.2, Option.map_none]
    have htype : (D.collected.schema nullableStrings).typeByName d.name = some t := by
      rw [← hname]
      refine find?_of_nodup ?_ ht
      rw [map_name_of_typed (D.collected.schema_typed nullableStrings), h.collected_eq.1,
        List.map_map]
      exact (List.nodup_append.mp h.nodup).2.1
    refine ⟨.struct d.pack1 ms, ?_, ?_⟩
    · rw [(Schema.shape_type henum).2, htype, Option.bind_some, hms]
    · rw [Shape.extent, hextents, hcond.inOrder, ← hd.kept_eq, hkept]

end Nested

/-! ## All structs -/

section All

variable {nullableStrings : Bool}

theorem Unmanaged.isStructName (h : D.Unmanaged) {d : TypeDeclaration} (hd : d ∈ D.structs) :
    D.isStructName d.name = true := by
  have hname : d.name ∈ D.names := List.mem_append_right _ (List.mem_map_of_mem hd)
  have hnum : netNumerics.lookup d.name = none := by
    by_contra hnum
    exact h.unreserved d.name hname (mem_reserved_of_numerics hnum).1
  have henum : D.findEnum d.name = none := by
    rw [findEnum, List.find?_eq_none]
    intro e he
    simpa using (List.nodup_append.mp h.nodup).2.2 _ (List.mem_map_of_mem he) _
      (List.mem_map_of_mem hd)
  simp [Declarations.isStructName, h.not_primitive hname, hnum, henum]

/-- Innermost structs first. -/
theorem Unmanaged.agrees (h : D.Unmanaged)
    (hall : ∀ d ∈ D.structs, D.HasNetLayout nullableStrings d ∨ D.LaidOutAlike d) {n : Nat}
    (hn : n ≤ D.depth) (name : String) (e : Extent) (hstruct : D.isStructName name = true)
    (he : D.extent n name = some e) : D.Agrees nullableStrings n name e := by
  induction n generalizing name e with
  | zero =>
    rw [(extent_struct hstruct).1] at he
    cases he
  | succ n ih =>
    rw [(extent_struct hstruct).2] at he
    obtain ⟨d, hd, he⟩ := Option.bind_eq_some_iff.mp he
    obtain ⟨fields, hfields, rfl⟩ := Option.map_eq_some_iff.mp he
    have hmem : d ∈ D.structs := List.mem_of_find?_eq_some hd
    obtain rfl : d.name = name := by simpa using List.find?_some hd
    have hnested : Nested D nullableStrings n d fields :=
      ⟨hmem, Nat.le_of_succ_le hn, hfields, ih (Nat.le_of_succ_le hn)⟩
    have hcond := (hall d hmem).elim (hnested.laidOutAlike h) id
    exact hnested.agrees_self h hcond hstruct

theorem Unmanaged.nested (h : D.Unmanaged)
    (hall : ∀ d ∈ D.structs, D.HasNetLayout nullableStrings d ∨ D.LaidOutAlike d)
    {d : TypeDeclaration} (hd : d ∈ D.structs) :
    ∃ n fields, Nested D nullableStrings n d fields := by
  have hstruct := h.isStructName hd
  obtain ⟨e, he⟩ := Option.isSome_iff_exists.mp (h.laidOut d hd)
  have hfind : D.findStruct d.name = some d :=
    find?_of_nodup (List.nodup_append.mp h.nodup).2.1 hd
  generalize hdepth : D.depth = depth at he
  cases depth with
  | zero =>
    rw [(extent_struct hstruct).1] at he
    cases he
  | succ n =>
    rw [(extent_struct hstruct).2, hfind, Option.bind_some] at he
    obtain ⟨fields, hfields, _⟩ := Option.map_eq_some_iff.mp he
    have hn : n ≤ D.depth := hdepth ▸ Nat.le_succ n
    exact ⟨n, fields, hd, hn, hfields, fun name e => h.agrees hall hn name e⟩

theorem net_layout_iff (D : Declarations) (nullableStrings : Bool) (h : D.Unmanaged) :
    (∀ d ∈ D.structs, D.HasNetLayout nullableStrings d) ↔ ∀ d ∈ D.structs, D.LaidOutAlike d := by
  constructor
  · intro hall d hd
    obtain ⟨n, fields, hnested⟩ := h.nested (fun d hd => .inl (hall d hd)) hd
    exact hnested.laidOutAlike h (hall d hd)
  · intro hall d hd
    obtain ⟨n, fields, hnested⟩ := @Unmanaged.nested D nullableStrings h
      (fun d hd => .inr (hall d hd)) d hd
    exact hnested.hasNetLayout h (hall d hd)

end All

def field (name : String) (type : TypeSyntax) (isPublic : Bool) : MemberSyntax :=
  { name := name, type := type, kind := .field false, isPublic := isPublic }

/-- `Outer` has an `Inner`, an enum, a private `byte` that lies in padding, and an `int`. -/
def sample : Declarations where
  enums := [{ name := "Kind", baseType := some (.byte, .keyword), members := [] }]
  structs :=
    [{ name := "Outer", kind := .structKind,
       members := [field "X" (.identifier "Inner") true, field "K" (.identifier "Kind") true,
         field "hidden" (.predefined "byte") false, field "Z" (.predefined "int") true] },
      { name := "Inner", kind := .structKind,
        members := [field "A" (.predefined "byte") true, field "B" (.predefined "int") true] }]

theorem sample_unmanaged : sample.Unmanaged where
  isStruct := by simp [sample]
  nodup := by decide
  unreserved := by decide
  laidOut := by decide

theorem sample_laidOutAlike : ∀ d ∈ sample.structs, sample.LaidOutAlike d := by
  have hpadding : ∀ d ∈ sample.structs, ∀ fields, sample.fields d = some fields →
      fields.InPadding := by
    simp only [sample, List.forall_mem_cons, List.not_mem_nil, false_imp_iff, implies_true,
      and_true]
    constructor
    · rintro fields hfields
      obtain rfl := Option.some.inj hfields
      decide
    · rintro fields hfields
      obtain rfl := Option.some.inj hfields
      decide
  intro d hd
  refine ⟨?_, ?_, ?_, hpadding d hd⟩
  · revert d
    simp [sample, collectType, collectRawMembers, field, isSerializable, Mapped,
      TypeSyntax.netName, netNumerics, findEnum]
  · revert d
    simp [sample, collectType, collectRawMembers, field, isSerializable]
  · revert d
    simp [sample, collectType, collectRawMembers, field, isSerializable, orderMembers, readOrder]

theorem net_layout_sample :
    sample.Unmanaged ∧ ∀ d ∈ sample.structs, sample.HasNetLayout false d :=
  ⟨sample_unmanaged, (net_layout_iff sample false sample_unmanaged).mpr sample_laidOutAlike⟩

/-- A private `byte` between two public ones, which does not change the size of the struct. -/
def hidden : Declarations where
  enums := []
  structs :=
    [{ name := "Hidden", kind := .structKind,
       members := [field "A" (.predefined "byte") true, field "hidden" (.predefined "byte") false,
         field "B" (.predefined "byte") true, field "C" (.predefined "int") true] }]

/-- .NET has `B` at offset 2, and the emitted struct has it at 1. -/
theorem hidden_field_moves_member : hidden.Unmanaged ∧
    ¬ ∀ d ∈ hidden.structs, hidden.HasNetLayout false d := by
  refine ⟨⟨by simp [hidden], by decide, by decide, by decide⟩, fun h => ?_⟩
  obtain ⟨t, ht, -, -, fields, hfields, -, offs, hoffs, hplaces⟩ := h _ (List.mem_cons_self ..)
  obtain rfl := List.mem_singleton.mp ht
  obtain rfl := Option.some.inj hfields
  obtain rfl := Option.some.inj hoffs
  revert hplaces
  decide

end Declarations

end MemoryPack.Cs2Cpp
