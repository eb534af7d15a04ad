import MemoryPack.Cs2Cpp.CppLayout
import MemoryPack.Wire.Padding

/-!
# Padding of generated structs on the wire

The generator registers a struct with `MEMORYPACK_UNMANAGED_EXACT` if it is packed and with
`MEMORYPACK_UNMANAGED_SCRUBBED` if it is not. Either sends the bytes of each direct member
whole. So what is sent depends on the scalars alone exactly if no member has padding of its
own (`registered_independent_iff`): the members of both macros "must be scalars, or types
with no padding of their own", and the generator does not check that.
-/

namespace MemoryPack

open Layout

/-! ## The serializer of a struct -/

theorem Writer.unmanagedSerialize_eq (u : Unmanaged) (memory : List UInt8) :
    Writer.unmanagedSerialize u memory = Writer.appendBytes (encodeUnmanaged u memory) := by
  unfold Writer.unmanagedSerialize encodeUnmanaged
  cases u.scrubbed <;> rfl

/-- What was appended can be read from a vector. -/
theorem Writer.appendBytes_injective {bs cs : List UInt8}
    (h : Writer.appendBytes bs = Writer.appendBytes cs) : bs = cs := by
  have hvec : ∀ bs, (Writer.appendBytes bs ⟨true, .little, .w64, 0⟩
      (MemoryPackWriter.ofVector [])).st.vec = some bs := by
    intro bs
    cases bs <;> rfl
  have heq := hvec bs
  rw [h, hvec cs] at heq
  exact (Option.some.inj heq).symm

/-- Objects that differ in padding only are serialized alike. -/
def PaddingIndependent (u : Unmanaged) (s : Shape) : Prop :=
  ∀ b b' : List UInt8, b.length = s.size → b'.length = s.size →
    (∀ i, s.isLeaf i = true → b[i]? = b'[i]?) →
      Writer.unmanagedSerialize u b = Writer.unmanagedSerialize u b'

section

variable {u : Unmanaged} {s : Shape} {sent : Nat → Prop} [DecidablePred sent]

/-- If a serializer sends some bytes and zeros for the others, it may send those of scalars. -/
theorem independent_iff
    (henc : ∀ b, b.length = s.size →
      encodeUnmanaged u b = b.mapIdx fun i x => if sent i then x else 0) :
    PaddingIndependent u s ↔ ∀ i < s.size, sent i → s.isLeaf i = true := by
  constructor
  · intro h i hi hsent
    by_contra hpadding
    -- all zeros, and a one in the padding
    have hser := h (List.replicate s.size 0) ((List.replicate s.size 0).set i 1)
      List.length_replicate (by rw [List.length_set, List.length_replicate]) fun j hj => by
        have hne : i ≠ j := fun hij => hpadding (hij ▸ hj)
        rw [List.getElem?_set_ne hne]
    rw [Writer.unmanagedSerialize_eq, Writer.unmanagedSerialize_eq] at hser
    have henc' := Writer.appendBytes_injective hser
    rw [henc _ List.length_replicate,
      henc _ (by rw [List.length_set, List.length_replicate])] at henc'
    have hbyte := congrArg (fun bs => bs[i]?) henc'
    simp [hsent, hi] at hbyte
  · intro h b b' hb hb' hagree
    rw [Writer.unmanagedSerialize_eq, Writer.unmanagedSerialize_eq, henc b hb, henc b' hb']
    congr 1
    apply List.ext_getElem?
    intro i
    rw [List.getElem?_mapIdx, List.getElem?_mapIdx]
    by_cases hi : i < s.size
    · by_cases hsent : sent i
      · rw [hagree i (h i hi hsent)]
      · rw [List.getElem?_eq_getElem (hb ▸ hi), List.getElem?_eq_getElem (hb' ▸ hi)]
        simp [hsent]
    · rw [List.getElem?_eq_none (by omega), List.getElem?_eq_none (by omega)]

end

namespace Cs2Cpp

/-! ## Registrations -/

/-- Offset and size of each member. -/
def places (pack1 : Bool) (ms : List Shape) : List (Nat × Nat) :=
  List.zip (offsets 0 (Shape.packedExtents pack1 ms)) (ms.map Shape.size)

/-- What a registration makes of a struct. It lists every member, and `T{}` is zero. -/
def Registration.unmanaged (r : Registration) (pack1 : Bool) (ms : List Shape) : Unmanaged where
  size := (Shape.struct pack1 ms).size
  align := (Shape.struct pack1 ms).extent.align
  scrubbed := if r.kind = .scrubbed then some (places pack1 ms) else none
  init := List.replicate (Shape.struct pack1 ms).size 0
  size_pos := Extent.pos _
  align_pos := Extent.align_pos _
  length_init := List.length_replicate

section

variable {pack1 : Bool} {ms : List Shape}

theorem covered_zip_iff (o i : Nat) :
    Covered (List.zip (offsets o (Shape.packedExtents pack1 ms)) (ms.map Shape.size)) i ↔
      Shape.CoveredFrom pack1 o ms i := by
  induction ms generalizing o with
  | nil => simp [Covered, Shape.CoveredFrom, Shape.packedExtents, offsets]
  | cons m ms ih =>
    rw [Shape.packedExtents, offsets, List.map_cons, List.zip_cons_cons, Shape.CoveredFrom,
      Shape.packed_size, ← ih]
    unfold Covered
    rw [List.exists_mem_cons_iff]
    rfl

/-- All bytes of the members are sent, and nothing else. -/
theorem scrubbed_independent_iff {u : Unmanaged} (hsize : u.size = (Shape.struct pack1 ms).size)
    (hu : u.scrubbed = some (places pack1 ms)) :
    PaddingIndependent u (.struct pack1 ms) ↔ ∀ m ∈ ms, m.Dense := by
  have henc : ∀ b : List UInt8, b.length = (Shape.struct pack1 ms).size →
      encodeUnmanaged u b =
        b.mapIdx fun i x => if Covered (places pack1 ms) i then x else 0 := by
    intro b hb
    unfold encodeUnmanaged
    rw [hu]
    exact scrub_eq _ (hb.trans hsize.symm)
  rw [independent_iff henc]
  simp only [Shape.dense_iff, Shape.isLeaf, places]
  rw [← Shape.leaves_of_covered_iff]
  constructor
  · intro h i hi
    refine h i ?_ ((covered_zip_iff 0 i).mpr hi)
    refine Nat.lt_of_lt_of_le (Shape.lt_stop_of_coveredFrom hi) (Shape.stop_le_size ?_)
    rintro rfl
    exact hi
  · exact fun h i _ hi => h i ((covered_zip_iff 0 i).mp hi)

/-- The whole object is sent. -/
theorem whole_independent_iff {u : Unmanaged} {s : Shape} (hu : u.scrubbed = none) :
    PaddingIndependent u s ↔ s.Dense := by
  have henc : ∀ b : List UInt8, b.length = s.size →
      encodeUnmanaged u b = b.mapIdx fun _ x => if True then x else 0 := by
    intro b _
    unfold encodeUnmanaged
    rw [hu]
    simp only [if_true]
    apply List.ext_getElem?
    intro i
    rw [List.getElem?_mapIdx, Option.map_id']
  rw [independent_iff henc, Shape.dense_iff]
  simp

end

/-- A type is found under its own name. -/
theorem Schema.typeByName_of_node {S : Schema} {name : String} {t : PackableType}
    (h : S.node name = some (.type t)) : S.typeByName t.name = some t := by
  unfold node at h
  split at h
  case h_1 t' ht' =>
    obtain rfl := Node.type.inj (Option.some.inj h)
    have hname : t'.name = name := by simpa using List.find?_some ht'
    rw [hname]
    exact ht'
  case h_2 =>
    obtain ⟨u, _, hu⟩ := Option.map_eq_some_iff.mp h
    cases hu

/-- A registration comes from a struct of the schema. -/
theorem mem_emitUnmanagedAll {S : Schema} {rs : List Registration} {r : Registration}
    (hrs : S.emitUnmanagedAll = some rs) (hr : r ∈ rs) :
    ∃ t, S.typeByName t.name = some t ∧ t.isUnmanaged = true ∧ r = emitUnmanaged t := by
  obtain ⟨order, horder, rfl⟩ := Option.map_eq_some_iff.mp hrs
  obtain ⟨names, _, rfl⟩ := Option.map_eq_some_iff.mp horder
  obtain ⟨x, hx, hr⟩ := List.mem_filterMap.mp hr
  obtain ⟨name, _, hnode⟩ := List.mem_filterMap.mp hx
  cases x with
  | union u => cases hr
  | type t =>
    refine ⟨t, Schema.typeByName_of_node hnode, ?_⟩
    dsimp only at hr
    split at hr
    case isTrue h => exact ⟨h, (Option.some.inj hr).symm⟩
    case isFalse => cases hr

theorem registered_independent_iff {S : Schema} {rs : List Registration} {r : Registration}
    {n : Nat} {pack1 : Bool} {ms : List Shape} (hrs : S.emitUnmanagedAll = some rs) (hr : r ∈ rs)
    (hshape : S.shape n (.named r.type) = some (.struct pack1 ms)) :
    PaddingIndependent (r.unmanaged pack1 ms) (.struct pack1 ms) ↔
      ms ≠ [] ∧ ∀ m ∈ ms, m.Dense := by
  obtain ⟨t, htype, _, rfl⟩ := mem_emitUnmanagedAll hrs hr
  have hname : (emitUnmanaged t).type = t.name := by
    unfold emitUnmanaged
    split <;> rfl
  rw [hname] at hshape
  obtain ⟨hpack, hlen⟩ := Schema.shape_struct htype hshape
  subst hpack
  by_cases hempty : t.members.length = 0
  · have hms : ms = [] := List.length_eq_zero_iff.mp (hlen.trans hempty)
    have hplain : (emitUnmanaged t).kind = .plain := by rw [emitUnmanaged, if_pos hempty]
    rw [whole_independent_iff (by simp [Registration.unmanaged, hplain]), hms]
    simp [Shape.Dense]
  · have hms : ms ≠ [] := by
      rintro rfl
      exact hempty hlen.symm
    have hkind : (emitUnmanaged t).kind = if t.pack1 then .exact else .scrubbed := by
      rw [emitUnmanaged, if_neg hempty]
    rw [and_iff_right hms]
    by_cases hpack : t.pack1 = true
    · rw [if_pos hpack] at hkind
      rw [whole_independent_iff (by simp [Registration.unmanaged, hkind]), hpack, Shape.Dense,
        Shape.allDense_iff]
      exact and_iff_right ⟨hms, Shape.sum_of_pack1 hms⟩
    · rw [if_neg hpack] at hkind
      exact scrubbed_independent_iff rfl (by simp [Registration.unmanaged, hkind])

/-- `Outer` with a `byte` behind an `Inner`, which has padding between a `byte` and an `int`. -/
def nestedPadding : Schema :=
  (collect []
    [{ name := "Inner", kind := .structKind,
       members := [{ name := "A", kind := .field false, type := .predefined "byte" },
                   { name := "B", kind := .field false, type := .predefined "int" }] },
      { name := "Outer", kind := .structKind,
        members := [{ name := "X", kind := .field false, type := .identifier "Inner" },
                    { name := "Y", kind := .field false, type := .predefined "byte" }] }]).schema
    false

def innerMembers : List Shape := [scalarShape 0, scalarShape 2]

def outerMembers : List Shape := [.struct false innerMembers, scalarShape 0]

theorem nestedPadding_registrations :
    nestedPadding.emitUnmanagedAll =
      some [⟨.scrubbed, "Inner", 8, ["a", "b"]⟩, ⟨.scrubbed, "Outer", 12, ["x", "y"]⟩] := by
  decide

theorem registered_independent_inner :
    PaddingIndependent
      (Registration.unmanaged ⟨.scrubbed, "Inner", 8, ["a", "b"]⟩ false innerMembers)
      (.struct false innerMembers) :=
  (registered_independent_iff nestedPadding_registrations (List.mem_cons_self ..)
    (n := 1) rfl).mpr ⟨List.cons_ne_nil _ _, by simp [scalarShape, Shape.Dense]⟩

/-- The byte at offset 1 belongs to no scalar and is sent all the same. -/
theorem nested_padding_is_sent :
    nestedPadding.emitUnmanagedAll =
      some [⟨.scrubbed, "Inner", 8, ["a", "b"]⟩, ⟨.scrubbed, "Outer", 12, ["x", "y"]⟩] ∧
    nestedPadding.shape 2 (.named "Outer") = some (.struct false outerMembers) ∧
    ¬ PaddingIndependent
      (Registration.unmanaged ⟨.scrubbed, "Outer", 12, ["x", "y"]⟩ false outerMembers)
      (.struct false outerMembers) := by
  refine ⟨nestedPadding_registrations, rfl, fun h => ?_⟩
  have hser := h (List.replicate 12 0) ((List.replicate 12 0).set 1 1) (by decide) (by decide)
    fun i hi => by
      have hne : 1 ≠ i := by
        rintro rfl
        revert hi
        decide
      rw [List.getElem?_set_ne hne]
  rw [Writer.unmanagedSerialize_eq, Writer.unmanagedSerialize_eq] at hser
  exact absurd (Writer.appendBytes_injective hser) (by decide)

end Cs2Cpp

end MemoryPack
