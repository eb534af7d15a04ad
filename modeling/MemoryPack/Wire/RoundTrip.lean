import MemoryPack.Wire.Deserialize
import MemoryPack.Wire.Hosts

/-!
# The round trip

The writer emits the encoding of a value (`Emits.write`) and the reader gives back a
recoverable value behind its encoding (`Reads.readTy`); both meet in `encode`. Which
types have only recoverable values is a question about first bytes: an object, a
tuple and a union start with a count or a tag, neither of which is ever the null
marker, so these may stand behind one. `Ty.Lossless` is the grammar of such types.
-/

namespace MemoryPack

open Effect

/-! ## Both halves together -/

theorem canRead_fresh {B : Build} {d : Nat} {data : List UInt8} (hsize : data.length < B.sizeMod)
    (hd : d ≤ 256) : CanRead B d { data := data } := by
  have hlimit : maxLength ≤ (0xFFFFFFFF : UInt32).toNat := by decide
  exact ⟨rfl, Nat.zero_le _, hsize, hlimit, hlimit, by simpa using hd⟩

section Both

variable {S : Schema} {B : Build} {t : Ty} {v : Val}

theorem serialize_eq_encode (hB : B.Supports S t) (h : Encodable S t v) :
    serialize S B t v = .ret (encode S t v) := by
  rw [hB.serialize_eq]
  exact serialize_of_emits (Emits.write rfl S v t h)

/-- What holds of `Read<T>` on a little-endian host holds on the other. -/
theorem Reads.of_little (hB : B.Supports S t) {d : Nat} {v₀ : Val} {bs : List UInt8}
    (h : Reads B.little d (Reader.read S t v₀) bs v) : Reads B d (Reader.read S t v₀) bs v := by
  intro r s hr hrest
  have hr' : CanRead B.little d r :=
    ⟨hr.error, hr.pos_le, hr.size_lt, hr.collections, hr.strings, hr.depth⟩
  exact hB.read_eq hr.size_lt (h r s hr' hrest)

/-- `Read<T>` behind the encoding of a recoverable value. -/
theorem Reads.read (hB : B.Supports S t) (hS : S.Shaped) {v₀ : Val} (hv₀ : Shaped S t v₀)
    (hty : Encodable S t v) (hrec : Recoverable S t v) :
    Reads B (nest S t v) (Reader.read S t v₀) (encode S t v) v := by
  apply Reads.of_little hB
  intro r s hr hrest
  have hle : (encode S t v).length ≤ r.size - r.pos := CanRead.le_remaining hrest
  obtain ⟨l, hrun⟩ := Reads.readTy rfl hS v (r.size + 1) t v₀ hv₀ hty hrec (by omega) r s hr hrest
  exact ⟨l, hrun⟩

theorem deserialize_encode (hB : B.Supports S t) (hS : S.Shaped) (hty : Encodable S t v)
    (hrec : Recoverable S t v) (hnest : nest S t v ≤ 256) {s : List UInt8}
    (hsize : (encode S t v ++ s).length < B.sizeMod) :
    ∃ l, deserialize S t B { data := encode S t v ++ s } =
      ⟨.ret v, { data := encode S t v ++ s, pos := (encode S t v).length }, l⟩ := by
  obtain ⟨l, hrun⟩ := Reads.read hB hS (hS.init t) hty hrec { data := encode S t v ++ s } s
    (canRead_fresh hsize hnest) rfl
  refine ⟨l, hrun.trans ?_⟩
  rw [Nat.zero_add]

end Both

theorem Schema.plain_shaped : Schema.plain.Shaped := by
  intro i
  simp [Schema.plain, ShapedMembers]

/-! ## First bytes -/

theorem not_startsNull_count {n : Nat} (h : n ≤ 249) (bs : List UInt8) :
    ¬ StartsNull (UInt8.ofNat n :: bs) := by
  intro hnull
  have hbyte : (UInt8.ofNat n).toNat = 255 := congrArg UInt8.toNat (Option.some.inj hnull)
  rw [toNat_ofNat_count h] at hbyte
  omega

theorem not_startsNull_encodeTag (tag : UInt16) (bs : List UInt8) :
    ¬ StartsNull (encodeTag tag ++ bs) := by
  unfold encodeTag
  split
  · next hlt =>
      intro hnull
      have hlt' : tag.toNat < 250 := hlt
      have hbyte : tag.toUInt8.toNat = 255 := congrArg UInt8.toNat (Option.some.inj hnull)
      rw [UInt16.toNat_toUInt8] at hbyte
      omega
  · intro hnull
    exact absurd (Option.some.inj hnull) (by decide)

/-! ## Lossless types -/

/-- The types whose null behind `std::optional` no value can be taken for: a length
of -1, a flag, or a marker that is neither a member count nor a tag. -/
def Ty.MarkedNull : Ty → Prop
  | .pair _ _ => False
  | .array _ _ => False
  | .optional _ => False
  | .pointer _ _ => False
  | .dotNet _ => False
  | _ => True

mutual
def Ty.Lossless : Ty → Prop
  | .vector t => t.Lossless
  | .sequence _ t => t.Lossless
  | .array _ t => t.Lossless
  | .set _ t => t.Lossless
  | .map _ k t => k.Lossless ∧ t.Lossless
  | .pair a b => a.Lossless ∧ b.Lossless
  | .tuple ts => Ty.LosslessList ts
  | .optional t => t.Lossless ∧ t.MarkedNull
  | .pointer _ _ => False
  | .variant _ ts => Ty.LosslessList ts
  | .unmanaged u => u.PaddingFree
  | _ => True

def Ty.LosslessList : List Ty → Prop
  | [] => True
  | t :: ts => t.Lossless ∧ Ty.LosslessList ts
end

theorem Ty.losslessList_iff : ∀ {ts : List Ty}, Ty.LosslessList ts ↔ ∀ t ∈ ts, t.Lossless
  | [] => by simp [Ty.LosslessList]
  | t :: ts => by rw [Ty.LosslessList, Ty.losslessList_iff, List.forall_mem_cons]

/-- Every user type is a `MEMORYPACK_DEFINE` of lossless members. -/
def Schema.Lossless (S : Schema) : Prop :=
  ∀ i, (S.decl i).kind ≠ .versionTolerant ∧ ∀ t ∈ (S.decl i).members, t.Lossless

theorem not_startsNull_object {S : Schema} (hS : S.Lossless) {t : Ty} {v : Val}
    (ht : t.MarkedNull) (hk : wireNullEncoding t = .object) (hty : Encodable S t v) :
    ¬ StartsNull (encode S t v) := by
  cases t <;> simp [Ty.MarkedNull, wireNullEncoding] at ht hk <;> cases v <;>
    simp only [Encodable] at hty
  · rw [encode]
    exact not_startsNull_count hty.1 _
  · rw [encode]
    exact not_startsNull_encodeTag _ _
  · next i vs =>
      rw [encode]
      cases hkind : (S.decl i).kind with
      | define => exact not_startsNull_count ((S.decl i).count_le hkind) _
      | defineEmpty =>
          show ¬ StartsNull [0]
          decide
      | versionTolerant => exact absurd hkind (hS i).1

theorem recoverableMembers_of_forall {S : Schema} : ∀ {ts : List Ty} {vs : List Val},
    (∀ t v, (t, v) ∈ ts.zip vs → Recoverable S t v) → RecoverableMembers S ts vs
  | [], _, _ => by simp [RecoverableMembers]
  | _ :: _, [], _ => by simp [RecoverableMembers]
  | t :: ts, v :: vs, h => by
      rw [RecoverableMembers]
      exact ⟨h t v List.mem_cons_self,
        recoverableMembers_of_forall fun t' v' hm => h t' v' (List.mem_cons_of_mem _ hm)⟩

theorem encodable_of_zip {S : Schema} {t : Ty} {v : Val} : ∀ {ts : List Ty} {vs : List Val},
    EncodableMembers S ts vs → (t, v) ∈ ts.zip vs → Encodable S t v
  | u :: us, w :: ws, hty, h => by
      rw [EncodableMembers] at hty
      rcases List.mem_cons.mp h with heq | h
      · obtain ⟨rfl, rfl⟩ := Prod.mk.inj heq
        exact hty.1
      · exact encodable_of_zip hty.2 h

/-- Every value of a lossless type is recoverable. -/
theorem recoverable_of_lossless {S : Schema} (hS : S.Lossless) (v : Val) :
    ∀ t : Ty, t.Lossless → Encodable S t v → Recoverable S t v := by
  induction v with
  | bytes bs =>
      intro t ht hty
      cases t with
      | unmanaged u =>
          rw [Ty.Lossless] at ht
          rw [Recoverable]
          exact ht.encode_eq hty
      | _ => simp [Recoverable]
  | pair x y hx hy =>
      intro t ht hty
      cases t with
      | pair a b =>
          rw [Ty.Lossless] at ht
          rw [Encodable] at hty
          rw [Recoverable]
          exact ⟨hx a ht.1 hty.1, hy b ht.2 hty.2⟩
      | _ => simp [Recoverable]
  | some v ih =>
      intro t ht hty
      cases t with
      | optional t =>
          rw [Ty.Lossless] at ht
          rw [Encodable] at hty
          rw [Recoverable]
          exact ⟨fun _ => ih t ht.1 hty, fun hk => not_startsNull_object hS ht.2 hk hty⟩
      | pointer p t => simp [Ty.Lossless] at ht
      | _ => simp [Recoverable]
  | alt i v ih =>
      intro t ht hty
      cases t with
      | variant tags ts =>
          rw [Ty.Lossless, Ty.losslessList_iff] at ht
          rw [Encodable] at hty
          rw [Recoverable]
          obtain ⟨⟨-, -, hi⟩, hv⟩ := hty
          refine ih _ (ht _ ?_) hv
          rw [List.getD_eq_getElem?_getD, List.getElem?_eq_getElem hi]
          exact List.getElem_mem hi
      | _ => simp [Recoverable]
  | seq vs ih =>
      intro t ht hty
      have heach : ∀ {t : Ty}, t.Lossless → EncodableEach S t vs → RecoverableEach S t vs := by
        intro t ht hty
        rw [encodableEach_iff] at hty
        exact recoverableEach_iff.mpr fun v hv => ih v hv t ht (hty v hv)
      have hzip : ∀ {ts : List Ty}, (∀ t ∈ ts, t.Lossless) → EncodableMembers S ts vs →
          RecoverableMembers S ts vs := by
        intro ts ht hty
        refine recoverableMembers_of_forall fun t v hm => ?_
        obtain ⟨hmt, hmv⟩ := List.of_mem_zip hm
        exact ih v hmv t (ht t hmt) (encodable_of_zip hty hm)
      cases t with
      | vector t =>
          rw [Ty.Lossless] at ht
          rw [Encodable] at hty
          rw [Recoverable]
          exact heach ht hty.2
      | sequence k t =>
          rw [Ty.Lossless] at ht
          rw [Encodable] at hty
          rw [Recoverable]
          exact heach ht hty.2
      | array n t =>
          rw [Ty.Lossless] at ht
          rw [Encodable] at hty
          rw [Recoverable]
          exact heach ht hty.2.1
      | set o t =>
          rw [Ty.Lossless] at ht
          rw [Encodable] at hty
          rw [Recoverable]
          exact heach ht hty.2.1
      | map o k t =>
          rw [Ty.Lossless] at ht
          rw [Encodable] at hty
          rw [Recoverable]
          have hpair : (Ty.pair k t).Lossless := by
            rw [Ty.Lossless]
            exact ht
          exact heach hpair hty.2.1
      | tuple ts =>
          rw [Ty.Lossless, Ty.losslessList_iff] at ht
          rw [Encodable] at hty
          rw [Recoverable]
          exact hzip ht hty.2
      | object i =>
          rw [Encodable] at hty
          rw [Recoverable]
          exact hzip (hS i).2 hty.1
      | _ => simp [Recoverable]
  | _ =>
      intro t _ _
      cases t <;> simp [Recoverable]

/-! ## The theorem -/

/-- A value of a lossless type is written, and read back behind any suffix. -/
theorem deserialize_serialize {S : Schema} (hS : S.Shaped) (hL : S.Lossless) {B : Build} {t : Ty}
    (hB : B.Supports S t) (ht : t.Lossless) {v : Val} (hv : Encodable S t v)
    (hnest : nest S t v ≤ 256) :
    ∃ bs, serialize S B t v = .ret bs ∧ ∀ s : List UInt8, (bs ++ s).length < B.sizeMod →
      ∃ l, deserialize S t B { data := bs ++ s } =
        ⟨.ret v, { data := bs ++ s, pos := bs.length }, l⟩ := by
  have hrec := recoverable_of_lossless hL v t ht hv
  refine ⟨encode S t v, serialize_eq_encode hB hv, ?_⟩
  intro s hsize
  exact deserialize_encode hB hS hv hrec hnest hsize

/-- `struct Tree { int32_t id; std::vector<Tree> kids; MEMORYPACK_DEFINE(Tree, id, kids) };` -/
def treeSchema : Schema :=
  { Schema.plain with
    decl := fun _ => ⟨.define, [.scalar (.int true .w4), .vector (.object 0)], [.scalar 0, .seq []],
      rfl, fun _ => by decide, by simp⟩ }

theorem treeSchema_shaped : treeSchema.Shaped := by
  intro i
  simp [treeSchema, ShapedMembers, Shaped]

theorem treeSchema_lossless : treeSchema.Lossless := by
  intro i
  simp [treeSchema, Ty.Lossless]

/-- A tree with one child, behind a `std::optional`. -/
theorem deserialize_serialize_tree :
    ∃ bs, serialize treeSchema ⟨true, .little, .w64, 0⟩ (.optional (.object 0))
        (.some (.seq [.scalar 7, .seq [.seq [.scalar 8, .seq []]]])) = .ret bs ∧
      ∀ s : List UInt8, (bs ++ s).length < 2 ^ 64 →
        ∃ l, deserialize treeSchema (.optional (.object 0)) ⟨true, .little, .w64, 0⟩
            { data := bs ++ s } =
          ⟨.ret (.some (.seq [.scalar 7, .seq [.seq [.scalar 8, .seq []]]])),
            { data := bs ++ s, pos := bs.length }, l⟩ := by
  apply deserialize_serialize treeSchema_shaped treeSchema_lossless
  · exact Or.inl rfl
  · simp [Ty.Lossless, Ty.MarkedNull]
  · simp [Encodable, EncodableMembers, EncodableEach, treeSchema, Scalar.Holds, Scalar.size,
      Scalar.width, Width.bytes, maxLength]
  · simp [nest, nestMembers, nestEach, treeSchema]

end MemoryPack
