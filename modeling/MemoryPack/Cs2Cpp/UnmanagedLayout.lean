import MemoryPack.Cs2Cpp.CsParser
import MemoryPack.Lib.Layout
import Mathlib.Data.List.Perm.Subperm

/-!
# What the parser's layout computes

`Resolve` goes through nested structs with a cache and a set of structs on the way. Whatever
is in the cache, it finds the layout that the declarations define without either
(`resolve_spec`), which is the sequential layout of the members that are kept.
-/

namespace MemoryPack.Cs2Cpp

open Layout UnmanagedLayout

namespace Collected

variable (C : Collected)

/-- `FieldLayout` over given layouts of structs. -/
def fieldOf (struct : String → Option (Nat × Nat)) (type : TypeSyntax) : Option (Nat × Nat) :=
  (fieldLayout C (fun name cache => (struct name, cache)) type []).1

/-- The last lines of `Compute`. -/
def finish (raw : RawType) (v : Nat × Nat) : Nat × Nat :=
  if raw.members.length = 0 then (1, 1) else (UnmanagedLayout.roundUp v.1 v.2, v.2)

def pack (raw : RawType) : Nat := if raw.pack1 then 1 else 8

theorem compute_eq (field : TypeSyntax → Cache → Option (Nat × Nat) × Cache) (raw : RawType)
    (cache : Cache) :
    compute field raw cache =
      ((computeLoop field (pack raw) raw.members 0 1 cache).1.map (finish raw),
        (computeLoop field (pack raw) raw.members 0 1 cache).2) := by
  simp only [compute, pack]
  split
  case h_1 hloop =>
    rw [hloop]
    rfl
  case h_2 hloop =>
    rw [hloop, Option.map_some, finish]
    split <;> rfl

/-- `Compute` over given layouts of fields. -/
def computeOf (field : TypeSyntax → Option (Nat × Nat)) (raw : RawType) : Option (Nat × Nat) :=
  (compute (fun type cache => (field type, cache)) raw []).1

/-- The layout of a struct with others nested in it, one in the other, `n` deep at most. -/
def layout : Nat → String → Option (Nat × Nat)
  | 0, _ => none
  | n + 1, name =>
      match C.findRaw name with
      | some raw =>
          if raw.kind = UserTypeKind.structKind then computeOf (C.fieldOf (layout n)) raw
          else none
      | none => none

/-! ## The loop of Compute -/

section Loop

variable {C} {p : Nat} {ms : List RawMember} {field field' : TypeSyntax → Option (Nat × Nat)}

/-- A loop with a cache that does not change the layouts of the members. -/
theorem computeLoop_spec {cached : TypeSyntax → Cache → Option (Nat × Nat) × Cache}
    {I : Cache → Prop}
    (hcached : ∀ m ∈ ms, ∀ cache, I cache →
      (cached m.type cache).1 = field m.type ∧ I (cached m.type cache).2)
    (offset maxAlign : Nat) {cache : Cache} (hI : I cache) :
    (computeLoop cached p ms offset maxAlign cache).1 =
        (computeLoop (fun type cache => (field type, cache)) p ms offset maxAlign []).1 ∧
      I (computeLoop cached p ms offset maxAlign cache).2 := by
  induction ms generalizing offset maxAlign cache with
  | nil => exact ⟨rfl, hI⟩
  | cons m ms ih =>
    obtain ⟨hfield, hI'⟩ := hcached m List.mem_cons_self cache hI
    have hrest := fun offset maxAlign =>
      ih (fun m' hm' => hcached m' (List.mem_cons_of_mem _ hm')) offset maxAlign hI'
    rw [computeLoop, computeLoop]
    generalize hc : cached m.type cache = r at hfield hrest hI' ⊢
    obtain ⟨_ | ⟨size, align⟩, cache'⟩ := r
    · rw [← hfield]
      exact ⟨rfl, hI'⟩
    · rw [← hfield]
      exact hrest _ _

theorem compute_spec {cached : TypeSyntax → Cache → Option (Nat × Nat) × Cache}
    {I : Cache → Prop} {raw : RawType}
    (hcached : ∀ m ∈ raw.members, ∀ cache, I cache →
      (cached m.type cache).1 = field m.type ∧ I (cached m.type cache).2)
    {cache : Cache} (hI : I cache) :
    (compute cached raw cache).1 = computeOf field raw ∧ I (compute cached raw cache).2 := by
  obtain ⟨heq, hI'⟩ := computeLoop_spec hcached 0 1 hI
  rw [computeOf, compute_eq, compute_eq]
  exact ⟨congrArg (Option.map (finish raw)) heq, hI'⟩

theorem isSome_of_computeLoop {offset maxAlign : Nat} {cache : Cache}
    (h : (computeLoop (fun type cache => (field type, cache)) p ms offset maxAlign
      cache).1.isSome) : ∀ m ∈ ms, (field m.type).isSome := by
  induction ms generalizing offset maxAlign cache with
  | nil => simp
  | cons m ms ih =>
    rw [computeLoop] at h
    cases hm : field m.type with
    | none =>
      rw [hm] at h
      cases h
    | some v =>
      rw [hm] at h
      rintro m' hm'
      rcases List.mem_cons.mp hm' with rfl | hm'
      · rw [hm]
        rfl
      · exact ih h m' hm'

theorem isSome_of_computeOf {raw : RawType} (h : (computeOf field raw).isSome) :
    ∀ m ∈ raw.members, (field m.type).isSome := by
  rw [computeOf, compute_eq, Option.isSome_map] at h
  exact isSome_of_computeLoop h

/-- Only the layouts of the members matter. -/
theorem computeOf_congr {raw : RawType} (h : ∀ m ∈ raw.members, field m.type = field' m.type) :
    computeOf field raw = computeOf field' raw :=
  (compute_spec (I := fun _ => True) (fun m hm _ _ => ⟨h m hm, trivial⟩) trivial).1

end Loop

/-! ## Layouts of any depth -/

/-- The three ways of `FieldLayout` to look a type up. -/
def isStructName (type : TypeSyntax) : Bool :=
  match type with
  | .nullable _ => false
  | .array _ _ => false
  | .generic _ _ => false
  | _ => (primitiveLayout type.simpleName).isNone && (C.findEnum type.simpleName).isNone

variable {C} {name : String} {n : Nat} {v : Nat × Nat}

theorem fieldLayout_eq (resolve : String → Cache → Option (Nat × Nat) × Cache)
    (type : TypeSyntax) (cache : Cache) :
    fieldLayout C resolve type cache =
      if C.isStructName type then resolve type.simpleName cache
      else (C.fieldOf (fun _ => none) type, cache) := by
  unfold fieldOf isStructName fieldLayout
  cases type with
  | nullable _ | array _ | generic _ _ => rfl
  | predefined _ | identifier _ | qualified _ _ | aliasQualified _ _ | other _ =>
    dsimp only
    cases primitiveLayout _ with
    | some _ => rfl
    | none => cases C.findEnum _ <;> rfl

theorem fieldOf_eq (struct : String → Option (Nat × Nat)) (type : TypeSyntax) :
    C.fieldOf struct type =
      if C.isStructName type then struct type.simpleName else C.fieldOf (fun _ => none) type := by
  rw [fieldOf, fieldLayout_eq]
  split <;> rfl

/-- More layouts of structs do not change those of fields. -/
theorem fieldOf_extend {struct struct' : String → Option (Nat × Nat)} {type : TypeSyntax}
    (h : ∀ name v, struct name = some v → struct' name = some v)
    (hsome : (C.fieldOf struct type).isSome) : C.fieldOf struct' type = C.fieldOf struct type := by
  rw [fieldOf_eq struct] at hsome ⊢
  rw [fieldOf_eq struct']
  split at hsome
  case isTrue hstruct =>
    obtain ⟨v, hv⟩ := Option.isSome_iff_exists.mp hsome
    rw [if_pos hstruct, if_pos hstruct, hv, h _ v hv]
  case isFalse hstruct => rw [if_neg hstruct, if_neg hstruct]

theorem layout_succ (n : Nat) (name : String) :
    C.layout (n + 1) name =
      (C.findRaw name).bind fun raw =>
        if raw.kind = .structKind then computeOf (C.fieldOf (C.layout n)) raw else none := by
  rw [layout]
  cases C.findRaw name <;> rfl

theorem layout_mono {m : Nat} (h : C.layout n name = some v) (hnm : n ≤ m) :
    C.layout m name = some v := by
  induction n generalizing m name v with
  | zero => cases h
  | succ n ih =>
    obtain ⟨m, rfl⟩ := Nat.exists_eq_add_of_le' (Nat.le_of_lt_succ (Nat.lt_succ_of_le
      ((Nat.le_add_left 1 n).trans hnm)))
    rw [layout_succ] at h ⊢
    obtain ⟨raw, hraw, h⟩ := Option.bind_eq_some_iff.mp h
    rw [hraw, Option.bind_some]
    split at h
    case isTrue hkind =>
      rw [if_pos hkind, ← h]
      refine computeOf_congr fun f hf => ?_
      have hsome := isSome_of_computeOf (Option.isSome_of_eq_some h) f hf
      exact fieldOf_extend (fun _ _ hv => ih hv (Nat.le_of_succ_le_succ hnm)) hsome
    case isFalse => cases h

open Classical in
/-- The layout of a struct, however deep it is. -/
noncomputable def layoutOf (C : Collected) (name : String) : Option (Nat × Nat) :=
  if h : ∃ n v, C.layout n name = some v then some h.choose_spec.choose else none

theorem layoutOf_eq_some : C.layoutOf name = some v ↔ ∃ n, C.layout n name = some v := by
  unfold layoutOf
  split
  case isTrue h =>
    have hspec := h.choose_spec.choose_spec
    constructor
    · intro heq
      exact ⟨_, Option.some.inj heq ▸ hspec⟩
    · rintro ⟨n, hn⟩
      have hmax := layout_mono hn (le_max_left n h.choose)
      rw [layout_mono hspec (le_max_right n h.choose)] at hmax
      exact hmax
  case isFalse h =>
    constructor
    · intro heq
      cases heq
    · rintro ⟨n, hn⟩
      exact absurd ⟨n, v, hn⟩ h

/-- The fields of one struct have layouts of a common depth. -/
theorem exists_depth {ms : List RawMember}
    (h : ∀ m ∈ ms, (C.fieldOf C.layoutOf m.type).isSome) :
    ∃ n, ∀ m ∈ ms, C.fieldOf (C.layout n) m.type = C.fieldOf C.layoutOf m.type := by
  induction ms with
  | nil => exact ⟨0, by simp⟩
  | cons m ms ih =>
    obtain ⟨n, hn⟩ := ih fun m' hm' => h m' (List.mem_cons_of_mem _ hm')
    obtain ⟨k, hk⟩ : ∃ k, C.fieldOf (C.layout k) m.type = C.fieldOf C.layoutOf m.type := by
      have hm := h m List.mem_cons_self
      rw [fieldOf_eq C.layoutOf] at hm ⊢
      split at hm
      case isTrue hstruct =>
        obtain ⟨w, hw⟩ := Option.isSome_iff_exists.mp hm
        obtain ⟨k, hk⟩ := layoutOf_eq_some.mp hw
        exact ⟨k, by rw [fieldOf_eq, if_pos hstruct, if_pos hstruct, hk, hw]⟩
      case isFalse hstruct => exact ⟨0, by rw [fieldOf_eq, if_neg hstruct, if_neg hstruct]⟩
    have hdeeper : ∀ {i j}, i ≤ j → ∀ m' ∈ m :: ms,
        C.fieldOf (C.layout i) m'.type = C.fieldOf C.layoutOf m'.type →
        C.fieldOf (C.layout j) m'.type = C.fieldOf C.layoutOf m'.type := by
      intro i j hij m' hm' heq
      rw [← heq]
      exact fieldOf_extend (fun _ _ hv => layout_mono hv hij) (heq ▸ h m' hm')
    refine ⟨max n k, fun m' hm' => ?_⟩
    rcases List.mem_cons.mp hm' with rfl | hms
    · exact hdeeper (le_max_right n k) m' hm' hk
    · exact hdeeper (le_max_left n k) m' hm' (hn m' hms)

/-- `layoutOf` solves the equation that `Resolve` unfolds. -/
theorem layoutOf_eq (name : String) :
    C.layoutOf name =
      (C.findRaw name).bind fun raw =>
        if raw.kind = .structKind then computeOf (C.fieldOf C.layoutOf) raw else none := by
  ext v
  rw [layoutOf_eq_some]
  constructor
  · rintro ⟨n, hn⟩
    cases n with
    | zero => cases hn
    | succ n =>
      rw [layout_succ] at hn
      obtain ⟨raw, hraw, hv⟩ := Option.bind_eq_some_iff.mp hn
      refine Option.bind_eq_some_iff.mpr ⟨raw, hraw, ?_⟩
      split at hv
      case isTrue hkind =>
        rw [if_pos hkind, ← hv]
        refine computeOf_congr fun m hm => ?_
        have hsome := isSome_of_computeOf (Option.isSome_of_eq_some hv) m hm
        exact fieldOf_extend (fun _ _ hw => layoutOf_eq_some.mpr ⟨n, hw⟩) hsome
      case isFalse => cases hv
  · intro hv
    obtain ⟨raw, hraw, hv⟩ := Option.bind_eq_some_iff.mp hv
    split at hv
    case isTrue hkind =>
      obtain ⟨n, hn⟩ := exists_depth (isSome_of_computeOf (Option.isSome_of_eq_some hv))
      refine ⟨n + 1, ?_⟩
      rw [layout_succ, hraw, Option.bind_some, if_pos hkind, computeOf_congr hn, hv]
    case isFalse => cases hv

/-! ## Resolve -/

/-- Every cached answer is right. -/
def Faithful (C : Collected) (cache : Cache) : Prop :=
  ∀ name cached, cache.lookup name = some cached → cached = C.layoutOf name

/-- The structs on the way contain `name`: whatever depth they have, it has less. -/
def OnPath (C : Collected) (visiting : List String) (name : String) : Prop :=
  ∀ s ∈ visiting, ∀ n, (C.layout n s).isSome → ∃ m < n, (C.layout m name).isSome

/-- A struct that contains itself has no layout. -/
theorem layoutOf_of_mem {visiting : List String} (hpath : C.OnPath visiting name)
    (hmem : name ∈ visiting) : C.layoutOf name = none := by
  have hnone : ∀ n, ¬ (C.layout n name).isSome := by
    intro n
    induction n using Nat.strong_induction_on with
    | _ n ih =>
      intro hsome
      obtain ⟨m, hm, hsome'⟩ := hpath name hmem n hsome
      exact ih m hm hsome'
  cases h : C.layoutOf name with
  | none => rfl
  | some v =>
    obtain ⟨n, hn⟩ := layoutOf_eq_some.mp h
    exact absurd (Option.isSome_of_eq_some hn) (hnone n)

theorem OnPath.field {visiting : List String} {raw : RawType} {m : RawMember}
    (hpath : C.OnPath visiting name) (hraw : C.findRaw name = some raw) (hm : m ∈ raw.members)
    (hstruct : C.isStructName m.type = true) :
    C.OnPath (name :: visiting) m.type.simpleName := by
  have hdown : ∀ n, (C.layout n name).isSome → ∃ k < n, (C.layout k m.type.simpleName).isSome := by
    intro n hn
    cases n with
    | zero => cases hn
    | succ n =>
      refine ⟨n, Nat.lt_succ_self n, ?_⟩
      rw [layout_succ, hraw, Option.bind_some] at hn
      split at hn
      · have hsome := isSome_of_computeOf hn m hm
        rw [fieldOf_eq, if_pos hstruct] at hsome
        exact hsome
      · cases hn
  intro s hs n hn
  rcases List.mem_cons.mp hs with rfl | hs
  · exact hdown n hn
  · obtain ⟨k, hk, hsome⟩ := hpath s hs n hn
    obtain ⟨j, hj, hsome'⟩ := hdown k hsome
    exact ⟨j, hj.trans hk, hsome'⟩

theorem mem_names_of_findRaw {raw : RawType} (h : C.findRaw name = some raw) :
    name ∈ C.rawTypes.map RawType.name := by
  refine List.mem_map.mpr ⟨raw, List.mem_of_find?_eq_some h, ?_⟩
  simpa using List.find?_some h

/-- `Resolve` from any point of the walk: the cache stays right, and the answer is the layout.
Each struct on the way is one of the source, so the fuel lasts. -/
theorem resolve_spec {fuel : Nat} {visiting : List String} {cache : Cache}
    (hcache : C.Faithful cache) (hpath : C.OnPath visiting name) (hnodup : visiting.Nodup)
    (hvisiting : visiting ⊆ C.rawTypes.map RawType.name)
    (hfuel : C.rawTypes.length ≤ fuel + visiting.length) :
    (resolve C fuel visiting name cache).1 = C.layoutOf name ∧
      C.Faithful (resolve C fuel visiting name cache).2 := by
  induction fuel generalizing visiting name cache with
  | zero =>
    refine ⟨?_, hcache⟩
    rw [resolve]
    by_cases hmem : name ∈ visiting
    · exact (layoutOf_of_mem hpath hmem).symm
    · rw [layoutOf_eq]
      cases hraw : C.findRaw name with
      | none => rfl
      | some raw =>
        have hlen := (List.Nodup.subperm (List.nodup_cons.mpr ⟨hmem, hnodup⟩)
          (List.cons_subset.mpr ⟨mem_names_of_findRaw hraw, hvisiting⟩)).length_le
        simp only [List.length_cons, List.length_map] at hlen
        omega
  | succ fuel ih =>
    rw [resolve]
    split
    case h_1 cached hlookup => exact ⟨hcache _ _ hlookup, hcache⟩
    case h_2 =>
      split
      case isTrue hmem => exact ⟨(layoutOf_of_mem hpath hmem).symm, hcache⟩
      case isFalse hmem =>
        extract_lets computed
        have hcomputed : computed.1 = C.layoutOf name ∧ C.Faithful computed.2 := by
          unfold computed
          rw [layoutOf_eq]
          cases hraw : C.findRaw name with
          | none => exact ⟨rfl, hcache⟩
          | some raw =>
            rw [Option.bind_some]
            dsimp only
            split
            case isFalse => exact ⟨rfl, hcache⟩
            case isTrue =>
              refine compute_spec (fun m hm cache hcache => ?_) hcache
              rw [fieldLayout_eq, fieldOf_eq C.layoutOf]
              split
              case isFalse => exact ⟨rfl, hcache⟩
              case isTrue hstruct =>
                refine ih hcache (hpath.field hraw hm hstruct) (List.nodup_cons.mpr ⟨hmem, hnodup⟩)
                  (List.cons_subset.mpr ⟨mem_names_of_findRaw hraw, hvisiting⟩) ?_
                rw [List.length_cons]
                omega
        refine ⟨hcomputed.1, fun name' cached hlookup => ?_⟩
        rw [List.lookup_cons] at hlookup
        split at hlookup
        case h_1 heq =>
          rw [beq_iff_eq.mp heq]
          exact (Option.some.inj hlookup).symm.trans hcomputed.1
        case h_2 => exact hcomputed.2 name' cached hlookup

theorem tryGetSize_spec {cache : Cache} (hcache : C.Faithful cache) (name : String) :
    (tryGetSize C name cache).1 = (C.layoutOf name).map Prod.fst ∧
      C.Faithful (tryGetSize C name cache).2 := by
  obtain ⟨heq, hcache'⟩ := @resolve_spec C name _ [] _ hcache (by simp [OnPath])
    List.nodup_nil (List.nil_subset _) (Nat.le_succ _)
  exact ⟨congrArg (Option.map Prod.fst) heq, hcache'⟩

/-- How a struct of the source is classified. -/
structure Sized (C : Collected) (raw : RawType) (t : PackableType) : Prop where
  isUnmanaged : t.isUnmanaged = true ↔
    raw.kind = .structKind ∧ (C.layoutOf raw.name).isSome
  unmanagedSize : ∀ v, raw.kind = .structKind → C.layoutOf raw.name = some v →
    t.unmanagedSize = v.1

theorem packables_sized (M : TypeMapper) {raws : List RawType} {cache : Cache}
    (hcache : C.Faithful cache) :
    List.Forall₂ (fun raw t => Typed M raw t ∧ Sized C raw t) raws
      ((List.zip raws (C.packables raws cache)).map fun (raw, packable) =>
        { packable with members := (orderMembers raw.members).map (memberDef M) }) := by
  induction raws generalizing cache with
  | nil => exact List.Forall₂.nil
  | cons raw raws ih =>
    obtain ⟨hsize, hcache'⟩ := tryGetSize_spec hcache raw.name
    rw [packables, List.zip_cons_cons, List.map_cons]
    by_cases hkind : raw.kind = .structKind
    · simp only [if_pos hkind]
      refine List.Forall₂.cons ⟨⟨rfl, rfl, rfl⟩, ?_, fun v _ hv => ?_⟩ (ih hcache')
      · rw [hsize, Option.isSome_map, and_iff_right hkind]
      · rw [hsize, hv]
        rfl
    · simp only [if_neg hkind]
      refine List.Forall₂.cons ⟨⟨rfl, rfl, rfl⟩, ?_, fun v h => absurd h hkind⟩ (ih hcache)
      simp [hkind]

theorem schema_sized (C : Collected) (nullableStrings : Bool) :
    List.Forall₂ (fun raw t => Typed (C.mapper nullableStrings) raw t ∧ Sized C raw t)
      C.rawTypes (C.schema nullableStrings).types :=
  packables_sized _ (by simp [Faithful])

/-! ## Layouts as extents -/

section Extents

variable {field : TypeSyntax → Option (Nat × Nat)}

/-- A layout of a field that `Pack = 8` does not change. -/
def Fits8 (field : TypeSyntax → Option (Nat × Nat)) (m : RawMember) (e : Extent) : Prop :=
  field m.type = some e.pair ∧ e.log ≤ 3

theorem computeLoop_extents {raw : RawType} {ms : List RawMember} {es : List Extent}
    (h : List.Forall₂ (Fits8 field) ms es) (offset k : Nat) (cache : Cache) :
    computeLoop (fun type cache => (field type, cache)) (pack raw) ms offset (2 ^ k) cache =
      (some (stop offset (es.map (Extent.packed raw.pack1)),
        2 ^ max k (maxLog (es.map (Extent.packed raw.pack1)))), cache) := by
  induction h generalizing offset k with
  | nil =>
    rw [computeLoop]
    simp [stop, maxLog]
  | @cons m e ms es hm _ ih =>
    have hpack : min e.align (pack raw) = (e.packed raw.pack1).align := by
      unfold pack Extent.packed
      split
      · exact Nat.min_eq_right e.align_pos
      · exact Nat.min_eq_left (Nat.pow_le_pow_right (by decide) hm.2)
    rw [computeLoop, hm.1]
    dsimp only [Extent.pair]
    rw [hpack, Extent.align, two_pow_max, ih, List.map_cons]
    refine congrArg (fun v => (some v, cache)) (congrArg₂ Prod.mk ?_ ?_)
    · unfold Extent.packed
      split <;> rfl
    · rw [max_assoc]
      rfl

theorem computeOf_extents {raw : RawType} {es : List Extent}
    (h : List.Forall₂ (Fits8 field) raw.members es) :
    computeOf field raw = some (struct (es.map (Extent.packed raw.pack1))).pair := by
  have hlen := h.length_eq
  rw [computeOf, compute_eq, show (1 : Nat) = 2 ^ 0 from rfl, computeLoop_extents h]
  simp only [Option.map_some, finish, Nat.zero_max, hlen]
  cases es with
  | nil => rfl
  | cons e es => rfl

end Extents

end Collected

end MemoryPack.Cs2Cpp
