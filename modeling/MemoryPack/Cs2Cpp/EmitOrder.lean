import MemoryPack.Cs2Cpp.CppGenerator
import Mathlib.Data.List.Perm.Basic

/-!
# Declarations stand before their uses

The mapper refers to every user type that it writes into a C++ type, so that the
depth-first order of the generator has the edges it needs. The exceptions are names that
the mapper takes over without looking them up.
-/

namespace MemoryPack.Cs2Cpp

/-! ## References of mapped types -/

mutual
/-- The generic types that `MapGeneric` has no case for, which keep their bare names. -/
def TypeSyntax.unmappedGenerics : TypeSyntax → List String
  | .nullable element => element.unmappedGenerics
  | .array element _ => element.unmappedGenerics
  | .qualified _ right => right.unmappedGenerics
  | .generic name args =>
      if args.length = 1 ∧ (name = "Nullable" ∨ name ∈ listLike ∨ name ∈ setLike) ∨
          args.length = 2 ∧ (name ∈ dictLike ∨ name = "KeyValuePair") then
        TypeSyntax.unmappedGenericsOfArgs args
      else [name]
  | _ => []

def TypeSyntax.unmappedGenericsOfArgs : List TypeSyntax → List String
  | [] => []
  | arg :: args => arg.unmappedGenerics ++ TypeSyntax.unmappedGenericsOfArgs args
end

namespace TypeMapper

variable (M : TypeMapper)

/-- The names that can stand in a member's C++ type without a reference: an annotated array
has no references, as its elements are called like an arithmetic type of C++. -/
def bareNames (type : TypeSyntax) (annot : Option CppAnnot) : List String :=
  type.unmappedGenerics ++ if annot.isSome then arithmeticEmit.map Prod.fst else []

/-- An enum, a union or a type of the source. -/
def IsUser (name : String) : Prop :=
  name ∈ M.enums ∨ name ∈ M.unions ∨ (M.types.lookup name).isSome

/-- Every user type in the C++ type is referenced, those of `bare` apart. -/
structure Refers (bare : List String) (t : MappedType) : Prop where
  names : ∀ name ∈ t.cppType.names, M.IsUser name → name ∈ t.referencedTypes ∨ name ∈ bare
  element : ∀ e, t.elementCppType = some e → t.cppType = .vector e

variable {M} {bare bare' : List String} {e k v : MappedType}

theorem refers_of_names_nil (h : e.cppType.names = []) (helement : e.elementCppType = none) :
    M.Refers bare e := by
  refine ⟨fun name hname => ?_, by simp [helement]⟩
  rw [h] at hname
  cases hname

theorem refers_of_names_eq (h : e.cppType.names = e.referencedTypes)
    (helement : e.elementCppType = none) : M.Refers bare e :=
  ⟨fun _ hname _ => .inl (h ▸ hname), by simp [helement]⟩

theorem mapNamed_refers (name : String) (topLevel : Bool) :
    M.Refers bare (M.mapNamed name topLevel) := by
  unfold mapNamed
  split
  · exact refers_of_names_nil rfl rfl
  split
  · exact refers_of_names_nil rfl rfl
  split
  · exact refers_of_names_nil rfl rfl
  split
  · exact refers_of_names_eq rfl rfl
  case isFalse henum =>
    split
    · exact refers_of_names_eq rfl rfl
    case isFalse hunion =>
      split
      · exact refers_of_names_eq rfl rfl
      · cases topLevel <;> exact refers_of_names_eq rfl rfl
      case h_3 htypes =>
        refine ⟨fun n hn huser => ?_, by simp⟩
        obtain rfl := List.mem_singleton.mp hn
        simp [IsUser, henum, hunion, htypes] at huser

theorem mapSequence_refers (h : M.Refers bare e) : M.Refers bare (mapSequence e) := by
  refine ⟨fun name hname huser => ?_, by simp [mapSequence, merge]⟩
  simpa [mapSequence, merge] using h.names name hname huser

theorem mapSet_refers (h : M.Refers bare e) : M.Refers bare (mapSet e) := by
  refine ⟨fun name hname huser => ?_, by simp [mapSet, merge]⟩
  simpa [mapSet, merge] using h.names name hname huser

theorem refers_both (hk : M.Refers bare k) (hv : M.Refers bare' v) (name : String)
    (hname : name ∈ k.cppType.names ++ v.cppType.names) (huser : M.IsUser name) :
    name ∈ k.referencedTypes ++ v.referencedTypes ∨ name ∈ bare ++ bare' := by
  rcases List.mem_append.mp hname with hname | hname
  · exact (hk.names name hname huser).imp (List.mem_append_left _) (List.mem_append_left _)
  · exact (hv.names name hname huser).imp (List.mem_append_right _) (List.mem_append_right _)

theorem mapDictionary_refers (hk : M.Refers bare k) (hv : M.Refers bare' v) :
    M.Refers (bare ++ bare') (mapDictionary k v) := by
  refine ⟨fun name hname huser => ?_, by simp [mapDictionary, merge]⟩
  simpa [mapDictionary, merge] using refers_both hk hv name hname huser

theorem mapPair_refers (hk : M.Refers bare k) (hv : M.Refers bare' v) :
    M.Refers (bare ++ bare') (mapPair k v) := by
  refine ⟨fun name hname huser => ?_, by simp [mapPair, merge]⟩
  simpa [mapPair, merge] using refers_both hk hv name hname huser

theorem mapString_refers : M.Refers bare M.mapString := by
  unfold mapString
  split <;> exact refers_of_names_nil rfl rfl

theorem wrapOptional_refers (h : M.Refers bare e) : M.Refers bare (wrapOptional e) := by
  unfold wrapOptional
  split
  · exact h
  · exact ⟨fun name hname huser => h.names name hname huser, by simp⟩

theorem mapUnknownGeneric_refers (generic : TypeSyntax) (name : String) :
    M.Refers [name] (mapUnknownGeneric generic name) :=
  ⟨fun _ hname _ => .inr hname, by simp [mapUnknownGeneric]⟩

theorem mapNullable_refers {core : Bool → MappedType} (element : TypeSyntax) (topLevel : Bool)
    (h : ∀ topLevel, M.Refers bare (core topLevel)) :
    M.Refers bare (M.mapNullable element core topLevel) := by
  unfold mapNullable
  split
  · exact h topLevel
  · exact h topLevel
  · split
    · exact mapString_refers
    · exact wrapOptional_refers (h false)

theorem mapGeneric_refers (generic : TypeSyntax) (name : String) (topLevel : Bool)
    (args : List TypeSyntax)
    (h : ∀ arg ∈ args, ∀ topLevel, M.Refers arg.unmappedGenerics (M.mapCore arg topLevel)) :
    M.Refers (TypeSyntax.generic name args).unmappedGenerics
      (M.mapGeneric generic name topLevel (M.mapArgs args)) := by
  match args with
  | [arg] =>
    have harg := h arg (List.mem_singleton_self _)
    simp only [mapArgs, mapGeneric, TypeSyntax.unmappedGenerics, List.length_singleton, true_and,
      TypeSyntax.unmappedGenericsOfArgs, List.append_nil, Nat.reduceEqDiff, false_and, or_false]
    by_cases hnullable : name = "Nullable"
    · rw [if_pos hnullable, if_pos (.inl hnullable)]
      exact mapNullable_refers arg topLevel harg
    · rw [if_neg hnullable]
      by_cases hlist : name ∈ listLike
      · rw [if_pos hlist, if_pos (.inr (.inl hlist))]
        exact mapSequence_refers (harg false)
      · rw [if_neg hlist]
        by_cases hset : name ∈ setLike
        · rw [if_pos hset, if_pos (.inr (.inr hset))]
          exact mapSet_refers (harg false)
        · rw [if_neg hset, if_neg (by simp [hnullable, hlist, hset])]
          exact mapUnknownGeneric_refers _ name
  | [key, value] =>
    have hkey := h key (by simp) false
    have hvalue := h value (by simp) false
    simp only [mapArgs, mapGeneric, TypeSyntax.unmappedGenerics, List.length_cons,
      List.length_nil, TypeSyntax.unmappedGenericsOfArgs, List.append_nil, Nat.reduceAdd,
      Nat.reduceEqDiff, false_and, false_or, true_and]
    by_cases hdict : name ∈ dictLike
    · rw [if_pos hdict, if_pos (.inl hdict)]
      exact mapDictionary_refers hkey hvalue
    · rw [if_neg hdict]
      by_cases hpair : name = "KeyValuePair"
      · rw [if_pos hpair, if_pos (.inr hpair)]
        exact mapPair_refers hkey hvalue
      · rw [if_neg hpair, if_neg (by simp [hdict, hpair])]
        exact mapUnknownGeneric_refers _ name
  | [] =>
    rw [TypeSyntax.unmappedGenerics, if_neg (by simp)]
    exact mapUnknownGeneric_refers _ name
  | _ :: _ :: _ :: _ =>
    rw [TypeSyntax.unmappedGenerics, if_neg (by simp)]
    exact mapUnknownGeneric_refers _ name

mutual
theorem mapCore_refers (t : TypeSyntax) (topLevel : Bool) :
    M.Refers t.unmappedGenerics (M.mapCore t topLevel) := by
  match t with
  | .nullable element => exact mapNullable_refers element topLevel (mapCore_refers element)
  | .array element _ => exact mapSequence_refers (mapCore_refers element false)
  | .generic name args => exact mapGeneric_refers _ name topLevel args (mapArgs_refers args)
  | .qualified _ right => exact mapCore_refers right topLevel
  | .predefined _ | .identifier _ | .aliasQualified _ _ | .other _ =>
    exact mapNamed_refers _ topLevel

theorem mapArgs_refers (args : List TypeSyntax) :
    ∀ arg ∈ args, ∀ topLevel, M.Refers arg.unmappedGenerics (M.mapCore arg topLevel) := by
  match args with
  | [] => simp
  | first :: rest =>
    rintro arg harg topLevel
    rcases List.mem_cons.mp harg with hfirst | harg
    · rw [hfirst]
      exact mapCore_refers first topLevel
    · exact mapArgs_refers rest arg harg topLevel
end

/-- No arithmetic type is called like something in `std`. -/
theorem isArithmetic_std {t : CppType} {std rest : String} (htext : t.text = std ++ rest)
    (hstd : std.toList.head? = some 's') : t.isArithmetic = false := by
  have hheads : ∀ p ∈ arithmeticEmit, p.1.toList.head? ≠ some 's' := by decide
  have hlookup : arithmeticEmit.lookup t.text = none := by
    rw [List.lookup_eq_none_iff]
    intro p hp
    rw [bne_iff_ne]
    intro heq
    apply hheads p hp
    rw [← heq, htext, String.toList_append, List.head?_append, hstd]
    rfl
  rw [CppType.isArithmetic, hlookup, Option.isSome_none]

/-- A name in an arithmetic type is the whole type. -/
theorem names_of_isArithmetic {t : CppType} (h : t.isArithmetic = true) :
    t.names ⊆ arithmeticEmit.map Prod.fst := by
  have hstd : ∀ {std rest : String}, std.toList.head? = some 's' → t.text ≠ std ++ rest := by
    intro std rest hs htext
    rw [isArithmetic_std htext hs] at h
    cases h
  cases t with
  | builtin name => exact List.nil_subset _
  | named name =>
    obtain ⟨p, hp, heq⟩ := List.lookup_isSome_iff.mp h
    rintro n hn
    obtain rfl := List.mem_singleton.mp hn
    exact List.mem_map.mpr ⟨p, hp, (beq_iff_eq.mp heq).symm⟩
  | optional t => exact absurd rfl (@hstd ("std::optional<" ++ t.text) ">" (by simp))
  | vector t => exact absurd rfl (@hstd ("std::vector<" ++ t.text) ">" (by simp))
  | set t => exact absurd rfl (@hstd ("std::set<" ++ t.text) ">" (by simp))
  | map k v => exact absurd rfl (@hstd ("std::map<" ++ k.text ++ ", " ++ v.text) ">" (by simp))
  | pair a b => exact absurd rfl (@hstd ("std::pair<" ++ a.text ++ ", " ++ b.text) ">" (by simp))
  | array t n =>
    exact absurd rfl (@hstd ("std::array<" ++ t.text ++ ", " ++ toString n) ">" (by simp))

/-- `Map` drops references only where an annotation makes the member an array. -/
theorem map_refers (type : TypeSyntax) (annot : Option CppAnnot) :
    ∀ name ∈ (M.map type annot).cppType.names, M.IsUser name →
      name ∈ (M.map type annot).referencedTypes ∨ name ∈ bareNames type annot := by
  have hcore := M.mapCore_refers type true
  have hplain : ∀ name ∈ (M.mapCore type true).cppType.names, M.IsUser name →
      name ∈ (M.mapCore type true).referencedTypes ∨ name ∈ bareNames type annot :=
    fun name hname huser =>
      (hcore.names name hname huser).imp_right (List.mem_append_left _)
  have harray : annot.isSome → ∀ e, (M.mapCore type true).elementCppType = some e →
      e.isArithmetic = true → ∀ name ∈ e.names, name ∈ bareNames type annot := by
    intro hannot e _ harith name hname
    rw [bareNames, if_pos hannot]
    exact List.mem_append_right _ (names_of_isArithmetic harith hname)
  unfold map
  match annot with
  | none => exact hplain
  | some (.fixedArray _ _) =>
    match helement : (M.mapCore type true).elementCppType with
    | none =>
      simp only [helement]
      exact hplain
    | some e =>
      simp only [helement, Option.map_some, Option.getD_some]
      split
      · exact hplain
      case isFalse harith =>
        intro name hname _
        rw [hcore.element e helement] at hname
        exact .inr (harray rfl e helement (by simpa using harith) name hname)
  | some (.stdArray _) =>
    match helement : (M.mapCore type true).elementCppType with
    | none =>
      simp only [helement]
      exact hplain
    | some e =>
      simp only [helement, Option.map_some, Option.getD_some]
      split
      case h_1 harith hsome =>
        intro name hname _
        obtain rfl := Option.some.inj hsome
        exact .inr (harray rfl e helement harith name hname)
      · exact hplain

end TypeMapper

/-! ## Types and unions of a schema -/

theorem find?_of_nodup {α β : Type} [DecidableEq β] {name : α → β} {as : List α} {a : α}
    (hnodup : (as.map name).Nodup) (ha : a ∈ as) :
    (as.find? fun b => name b = name a) = some a := by
  induction as with
  | nil => cases ha
  | cons b bs ih =>
    rw [List.map_cons, List.nodup_cons] at hnodup
    rw [List.find?_cons]
    rcases List.mem_cons.mp ha with rfl | ha
    · simp
    · have hne : name b ≠ name a := fun h => hnodup.1 (h ▸ List.mem_map_of_mem ha)
      simp only [hne, decide_false]
      exact ih hnodup.2 ha

namespace Schema

open DepthFirst

variable {S : Schema}

theorem mem_names_iff {n : String} : n ∈ S.nodes.map Node.name ↔
    (∃ t ∈ S.types, t.name = n) ∨ ∃ u ∈ S.unions, u.name = n := by
  simp only [nodes, List.map_append, List.map_map, List.mem_append, List.mem_map]
  rfl

theorem isNode_iff {n : String} : IsNode S.dependencies n ↔ n ∈ S.nodes.map Node.name := by
  have htype : (S.typeByName n).isSome ↔ ∃ t ∈ S.types, t.name = n := by simp [typeByName]
  have hunion : (S.unionByName n).isSome ↔ ∃ u ∈ S.unions, u.name = n := by simp [unionByName]
  rw [mem_names_iff, ← htype, ← hunion, IsNode, dependencies]
  cases S.typeByName n <;> simp

theorem acyclic_of_ranks (rank : String → Nat)
    (h : ∀ x ∈ S.nodes.map Node.name, ∀ y ∈ (S.dependencies x).getD [],
      y ∈ S.nodes.map Node.name → rank y < rank x) : Acyclic S.dependencies := by
  refine acyclic_of_rank rank fun x y hedge => ?_
  obtain ⟨⟨cs, hcs, hy⟩, hnode⟩ := hedge
  refine h x (isNode_iff.mp ?_) y ?_ (isNode_iff.mp hnode)
  · rw [IsNode, hcs]
    rfl
  · rw [hcs]
    exact hy

section Distinct

variable (hdistinct : (S.nodes.map Node.name).Nodup)

include hdistinct in
theorem nodup_names : (S.types.map PackableType.name).Nodup ∧
    (S.unions.map UnionDef.name).Nodup ∧
    ∀ t ∈ S.types, ∀ u ∈ S.unions, t.name ≠ u.name := by
  rw [nodes, List.map_append, List.map_map, List.map_map, List.nodup_append] at hdistinct
  refine ⟨hdistinct.1, hdistinct.2.1, fun t ht u hu => ?_⟩
  exact hdistinct.2.2 _ (List.mem_map_of_mem ht) _ (List.mem_map_of_mem hu)

include hdistinct in
theorem typeByName_name {t : PackableType} (ht : t ∈ S.types) : S.typeByName t.name = some t :=
  find?_of_nodup (nodup_names hdistinct).1 ht

include hdistinct in
theorem typeByName_union {u : UnionDef} (hu : u ∈ S.unions) : S.typeByName u.name = none := by
  rw [typeByName, List.find?_eq_none]
  intro t ht
  simpa using (nodup_names hdistinct).2.2 t ht u hu

include hdistinct in
theorem unionByName_name {u : UnionDef} (hu : u ∈ S.unions) : S.unionByName u.name = some u :=
  find?_of_nodup (nodup_names hdistinct).2.1 hu

include hdistinct in
theorem node_name {x : Node} (hx : x ∈ S.nodes) : S.node x.name = some x := by
  rcases List.mem_append.mp hx with hx | hx
  · obtain ⟨t, ht, rfl⟩ := List.mem_map.mp hx
    rw [node, Node.name, typeByName_name hdistinct ht]
  · obtain ⟨u, hu, rfl⟩ := List.mem_map.mp hx
    rw [node, Node.name, typeByName_union hdistinct hu, unionByName_name hdistinct hu]
    rfl

include hdistinct in
/-- The order exists, holds every node once, and is sorted if it can be. -/
theorem buildEmitOrder_spec : ∃ order, S.buildEmitOrder = some order ∧ order.Perm S.nodes ∧
    (Acyclic S.dependencies → Ordered S.dependencies (order.map Node.name)) := by
  obtain ⟨emitted, hemitted⟩ := @visitAll_ends _ _ S.dependencies [] _ (S.nodes.map Node.name)
    (fun n hn => isNode_iff.mp hn) (Nat.lt_succ_self _) (S.nodes.map Node.name)
  obtain ⟨hgrows, hall⟩ := visitAll_spec List.nodup_nil hemitted
  have hmem : ∀ n, n ∈ emitted ↔ n ∈ S.nodes.map Node.name := by
    intro n
    constructor
    · exact fun hn => isNode_iff.mp (hgrows.new n hn List.not_mem_nil).1
    · exact fun hn => hall n hn (isNode_iff.mpr hn) List.not_mem_nil
  have hperm : emitted.Perm (S.nodes.map Node.name) :=
    (List.perm_ext_iff_of_nodup hgrows.nodup hdistinct).mpr hmem
  have hnodes : (S.nodes.map Node.name).filterMap S.node = S.nodes := by
    rw [List.filterMap_map]
    calc S.nodes.filterMap (S.node ∘ Node.name)
        = S.nodes.filterMap some := List.filterMap_congr fun x hx => node_name hdistinct hx
      _ = S.nodes := List.filterMap_some
  have hnames : (emitted.filterMap S.node).map Node.name = emitted := by
    rw [List.map_filterMap]
    calc emitted.filterMap (fun n => (S.node n).map Node.name)
        = emitted.filterMap some := by
          refine List.filterMap_congr fun n hn => ?_
          obtain ⟨x, hx, rfl⟩ := List.mem_map.mp ((hmem n).mp hn)
          rw [node_name hdistinct hx, Option.map_some]
      _ = emitted := List.filterMap_some
  refine ⟨emitted.filterMap S.node, ?_, ?_, fun hacyclic => ?_⟩
  · rw [buildEmitOrder, hemitted]
    rfl
  · exact hnodes ▸ hperm.filterMap S.node
  · rw [hnames]
    exact DepthFirst.visitAll_ordered
      (fun _ hn ho hv => visit_ordered hacyclic hn ho (fun _ s hs => absurd hs List.not_mem_nil) hv)
      List.nodup_nil Ordered.nil hemitted

end Distinct

end Schema

/-! ## Schemas of the parser -/

namespace Collected

open DepthFirst

variable {C : Collected} {nullableStrings : Bool} {raw : RawType} {m : RawMember} {n : String}

theorem isUser_of_mem_names (hn : n ∈ (C.schema nullableStrings).nodes.map Node.name) :
    (C.mapper nullableStrings).IsUser n := by
  rcases Schema.mem_names_iff.mp hn with ⟨t, ht, rfl⟩ | ⟨u, hu, rfl⟩
  · have hmem := List.mem_map_of_mem (f := PackableType.name) ht
    rw [map_name_of_typed (C.schema_typed nullableStrings)] at hmem
    obtain ⟨raw, hraw, hname⟩ := List.mem_map.mp hmem
    refine .inr (.inr (List.lookup_isSome_iff.mpr ⟨(raw.name, raw.kind), ?_, by simp [hname]⟩))
    exact List.mem_map_of_mem (f := fun r : RawType => (r.name, r.kind)) hraw
  · exact .inr (.inl (List.mem_map_of_mem hu))

section Distinct

variable (hdistinct : ((C.schema nullableStrings).nodes.map Node.name).Nodup)

include hdistinct in
theorem edge_of_reference (hraw : raw ∈ C.rawTypes) (hm : m ∈ raw.members)
    (href : n ∈ (memberDef (C.mapper nullableStrings) m).referencedTypes)
    (hn : n ∈ (C.schema nullableStrings).nodes.map Node.name) (hne : n ≠ raw.name) :
    Edge (C.schema nullableStrings).dependencies raw.name n := by
  obtain ⟨t, ht, htyped⟩ := exists_of_forall₂ (C.schema_typed nullableStrings) hraw
  refine ⟨⟨(t.members.flatMap MemberDef.referencedTypes).eraseDups.filter (· ≠ raw.name),
    ?_, ?_⟩, Schema.isNode_iff.mpr hn⟩
  · rw [Schema.dependencies, ← htyped.name, Schema.typeByName_name hdistinct ht]
  · rw [List.mem_filter, List.mem_eraseDups, htyped.members]
    refine ⟨List.mem_flatMap.mpr ⟨_, ?_, href⟩, by simpa using hne⟩
    exact List.mem_map_of_mem (mem_orderMembers.mpr hm)

include hdistinct in
theorem edge_of_alternative {u : UnionDef} {a : Int × String} (hu : u ∈ C.unions)
    (ha : a ∈ u.alternatives) (hn : a.2 ∈ (C.schema nullableStrings).nodes.map Node.name) :
    Edge (C.schema nullableStrings).dependencies u.name a.2 := by
  refine ⟨⟨u.alternatives.map Prod.snd, ?_, List.mem_map_of_mem ha⟩, Schema.isNode_iff.mpr hn⟩
  have hu' : u ∈ (C.schema nullableStrings).unions := hu
  rw [Schema.dependencies, Schema.typeByName_union hdistinct hu',
    Schema.unionByName_name hdistinct hu', Option.map_some]

end Distinct

/-- Every type and union is declared once, and in an acyclic schema behind what it uses. -/
theorem declared_before_use (C : Collected) (nullableStrings : Bool)
    (hdistinct : ((C.schema nullableStrings).nodes.map Node.name).Nodup) :
    ∃ order : List Node, (C.schema nullableStrings).emitDeclarations = some (order.map emitNode) ∧
      order.Perm (C.schema nullableStrings).nodes ∧
      (Acyclic (C.schema nullableStrings).dependencies →
        (∀ raw ∈ C.rawTypes, ∀ m ∈ raw.members,
          ∀ n ∈ (memberDef (C.mapper nullableStrings) m).cppType.names,
            n ∈ (C.schema nullableStrings).nodes.map Node.name → n ≠ raw.name →
            n ∉ TypeMapper.bareNames m.type m.annot →
              [n, raw.name].Sublist (order.map Node.name)) ∧
        ∀ u ∈ C.unions, ∀ a ∈ u.alternatives,
          a.2 ∈ (C.schema nullableStrings).nodes.map Node.name → a.2 ≠ u.name →
            [a.2, u.name].Sublist (order.map Node.name)) := by
  obtain ⟨order, horder, hperm, hsorted⟩ := Schema.buildEmitOrder_spec hdistinct
  refine ⟨order, by rw [Schema.emitDeclarations, horder]; rfl, hperm, fun hacyclic => ⟨?_, ?_⟩⟩
  · intro raw hraw m hm n hname hn hne hbare
    have hrefers := TypeMapper.map_refers m.type m.annot n hname (isUser_of_mem_names hn)
    have href := hrefers.resolve_right hbare
    have hedge := edge_of_reference hdistinct hraw hm href hn hne
    obtain ⟨t, ht, htyped⟩ := exists_of_forall₂ (C.schema_typed nullableStrings) hraw
    refine (hsorted hacyclic).sublist ?_ hedge hne.symm
    rw [(hperm.map Node.name).mem_iff, ← htyped.name]
    exact Schema.mem_names_iff.mpr (.inl ⟨t, ht, rfl⟩)
  · intro u hu a ha hn hne
    have hedge := edge_of_alternative hdistinct hu ha hn
    refine (hsorted hacyclic).sublist ?_ hedge hne.symm
    rw [(hperm.map Node.name).mem_iff]
    exact Schema.mem_names_iff.mpr (.inr ⟨u, hu, rfl⟩)

/-- `Inventory` with a list of `Item`s, and a union of one class that holds an `Item`. -/
def inventory : Collected :=
  collect []
    [{ name := "Inventory", kind := .classKind,
       members := [{ name := "Items", kind := .property true,
                     type := .generic "List" [.identifier "Item"] }] },
      { name := "Item", kind := .structKind,
        members := [{ name := "Id", kind := .property true, type := .predefined "int" }] },
      { name := "IShape", kind := .interfaceKind, members := [],
        unionAttrs := [(.number true 0 .none, .identifier "Circle")] },
      { name := "Circle", kind := .classKind,
        members := [{ name := "Item", kind := .property true, type := .identifier "Item" }] }]

theorem declared_before_use_inventory :
    ((inventory.schema false).nodes.map Node.name).Nodup ∧
    DepthFirst.Acyclic (inventory.schema false).dependencies ∧
    ∃ order : List Node,
      (inventory.schema false).emitDeclarations = some (order.map emitNode) ∧
      order.Perm (inventory.schema false).nodes ∧
      ["Item", "Inventory"].Sublist (order.map Node.name) ∧
      ["Circle", "IShape"].Sublist (order.map Node.name) := by
  have hdistinct : ((inventory.schema false).nodes.map Node.name).Nodup := by decide
  have hacyclic : Acyclic (inventory.schema false).dependencies :=
    Schema.acyclic_of_ranks (fun n => if n = "Item" then 0 else if n = "IShape" then 2 else 1)
      (by decide)
  refine ⟨hdistinct, hacyclic, ?_⟩
  obtain ⟨order, hemit, hperm, huses⟩ := declared_before_use inventory false hdistinct
  obtain ⟨hmembers, halternatives⟩ := huses hacyclic
  refine ⟨order, hemit, hperm, ?_, ?_⟩
  · exact hmembers _ (List.mem_cons_self ..) _ (List.mem_cons_self ..) "Item" (by decide)
      (by decide) (by decide) (by decide)
  · exact halternatives _ (List.mem_cons_self ..) _ (List.mem_cons_self ..) (by decide) (by decide)

/-- `Holder` with a `Box<int>`, and a generic class `Box<T>`. -/
def genericHolder : Collected :=
  collect []
    [{ name := "Holder", kind := .classKind,
       members := [{ name := "Value", kind := .property true,
                     type := .generic "Box" [.predefined "int"] }] },
      { name := "Box", kind := .classKind,
        members := [{ name := "Item", kind := .property true, type := .identifier "T" }] }]

/-- The C++ type of `Value` is `Box`, which is declared behind `Holder`. -/
theorem unmapped_generic_declared_late :
    ((genericHolder.schema false).nodes.map Node.name).Nodup ∧
    DepthFirst.Acyclic (genericHolder.schema false).dependencies ∧
    (∃ raw ∈ genericHolder.rawTypes, raw.name = "Holder" ∧ ∃ m ∈ raw.members,
      "Box" ∈ (memberDef (genericHolder.mapper false) m).cppType.names) ∧
    "Box" ∈ (genericHolder.schema false).nodes.map Node.name ∧
    ((genericHolder.schema false).buildEmitOrder.map fun order => order.map Node.name) =
      some ["Holder", "Box"] := by
  refine ⟨by decide, Schema.acyclic_of_ranks (fun _ => 0) (by decide), ?_, by decide, by decide⟩
  exact ⟨_, List.mem_cons_self .., rfl, _, List.mem_cons_self .., by decide⟩

end Collected

end MemoryPack.Cs2Cpp
