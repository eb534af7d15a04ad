import MemoryPack.Reader.Results
import MemoryPack.Wire.RoundTrip

/-!
# What a reader accepts can be written

`Encodable` is what a writer asks of a value. Every value that `Read<T>` returns has it,
whatever the bytes were and also when the read failed and went on: the lengths fit an
`int32_t`, a `bool` is 0 or 1, an array has its size, a variant holds one of its
alternatives, the keys of a set or map are in order and no two are equal. So a decoded value
of a lossless type can be written again, and reading what was written gives it back.

Three types are left out: a `std::u16string`, whose transcoder passes lone surrogates on,
and `std::optional<bool>` and `std::array<bool, N>`, which are copies of memory in which a
`bool` may be any byte.
-/

namespace MemoryPack

open Effect

/-! ## Types whose decoded values can be written -/

/-- A condition on one part of a type. -/
def Ty.Rewritable : Ty → Prop
  | .u16string => False
  | .array n t => n ≤ maxLength ∧ t ≠ .scalar .bool
  | .tuple ts => ts.length ≤ 249
  | .optional t => t ≠ .scalar .bool
  | .variant tags ts => tags.Nodup ∧ tags.length = ts.length ∧ ts ≠ []
  | _ => True

/-- The user types are `MEMORYPACK_DEFINE`s of such members, their `T{}` can be written,
and `operator<` is transitive. -/
structure Schema.Rewritable (S : Schema) : Prop where
  define : S.NoVersionTolerant
  members : ∀ i, ∀ t ∈ (S.decl i).members, t.PartsIn Ty.Rewritable
  init : ∀ i, EncodableMembers S (S.decl i).members (S.decl i).init
  less : ∀ t a b c, S.less t a b = true → S.less t b c = true → S.less t a c = true

section Init

variable {S : Schema}

theorem encodable_object (hS : S.Rewritable) {i : Nat} {vs : List Val} :
    Encodable S (.object i) (.seq vs) ↔ EncodableMembers S (S.decl i).members vs := by
  rw [Encodable]
  exact and_iff_left fun h => absurd h (hS.define i)

theorem encodableMembers_iff : ∀ {ts : List Ty} {vs : List Val},
    EncodableMembers S ts vs ↔ List.Forall₂ (Encodable S) ts vs
  | [], [] => by simp [EncodableMembers]
  | [], v :: vs => by simp [EncodableMembers]
  | t :: ts, [] => by simp [EncodableMembers]
  | t :: ts, v :: vs => by
      rw [EncodableMembers, encodableMembers_iff, List.forall₂_cons]

theorem encodableMembers_inits : ∀ {ts : List Ty}, (∀ t ∈ ts, Encodable S t (S.init t)) →
    EncodableMembers S ts (S.inits ts)
  | [], _ => by
      rw [Schema.inits, EncodableMembers]
      trivial
  | t :: ts, h => by
      obtain ⟨ht, hts⟩ := List.forall_mem_cons.mp h
      rw [Schema.inits, EncodableMembers]
      exact ⟨ht, encodableMembers_inits hts⟩

theorem DotNet.holds_init (d : DotNet) : d.Holds d.init := by
  cases d <;> simp [DotNet.init, DotNet.Holds]

theorem Scalar.holds_zero (s : Scalar) : s.Holds 0 := by
  cases s with
  | bool => exact (by decide : 0 < 2)
  | _ => exact Nat.pow_pos (by decide)

/-- `T{}` can be written. -/
theorem encodable_init (hS : S.Rewritable) (t : Ty) :
    t.PartsIn Ty.Rewritable → Encodable S t (S.init t) := by
  induction t with
  | scalar s => exact fun _ => s.holds_zero
  | u16string => exact fun hA => hA.self.elim
  | array n t ih =>
      intro hA
      have ht := ih (hA.of_subset (by simp [Ty.parts]))
      rw [Schema.init, Encodable, List.length_replicate, encodableEach_iff]
      exact ⟨hA.self.1, fun v hv => List.eq_of_mem_replicate hv ▸ ht, rfl⟩
  | set o t _ =>
      intro _
      rw [Schema.init, Encodable, EncodableEach]
      cases o <;> exact ⟨Nat.zero_le _, trivial, .nil⟩
  | map o k t _ _ =>
      intro _
      rw [Schema.init, Encodable, EncodableEach]
      cases o <;> exact ⟨Nat.zero_le _, trivial, .nil⟩
  | pair a b iha ihb =>
      intro hA
      rw [Schema.init, Encodable]
      exact ⟨iha (hA.of_subset (by simp [Ty.parts])), ihb (hA.of_subset (by simp [Ty.parts]))⟩
  | tuple ts ih =>
      intro hA
      rw [Schema.init, Encodable]
      exact ⟨hA.self, encodableMembers_inits fun t ht => ih t ht (hA.of_item ht)⟩
  | variant tags ts ih =>
      intro hA
      obtain ⟨hnodup, hlen, hne⟩ := hA.self
      rw [Schema.init, Encodable]
      cases ts with
      | nil => exact absurd rfl hne
      | cons u us =>
          rw [Schema.inits]
          have hmem : u ∈ u :: us := List.mem_cons_self
          exact ⟨⟨hnodup, hlen, Nat.succ_pos _⟩, ih u hmem (hA.of_alternative hmem)⟩
  | dotNet d =>
      intro _
      rw [Schema.init, Encodable]
      exact d.holds_init
  | unmanaged u =>
      intro _
      rw [Schema.init, Encodable]
      exact u.length_init
  | object i =>
      intro _
      rw [Schema.init]
      exact (encodable_object hS).mpr (hS.init i)
  | _ => simp [Schema.init, Encodable, EncodableEach]

end Init

/-! ## Insertion into sets and maps -/

section Insert

variable {S : Schema} {keyTy : Ty} {key : Val → Val} {x : Val}

theorem mem_insertOrdered {less : Val → Val → Bool} : ∀ {ys : List Val} {z : Val},
    z ∈ Reader.insertOrdered less key x ys → z = x ∨ z ∈ ys
  | [], z, h => .inl (List.mem_singleton.mp h)
  | y :: ys, z, h => by
      rw [Reader.insertOrdered] at h
      split at h
      · rcases List.mem_cons.mp h with rfl | h
        · exact .inr List.mem_cons_self
        · exact (mem_insertOrdered h).imp_right (List.mem_cons_of_mem y)
      · split at h
        · exact List.mem_cons.mp h
        · exact .inr h

theorem length_insertOrdered {less : Val → Val → Bool} : ∀ ys : List Val,
    (Reader.insertOrdered less key x ys).length ≤ ys.length + 1
  | [] => Nat.le_refl _
  | y :: ys => by
      rw [Reader.insertOrdered]
      split
      · exact Nat.succ_le_succ (length_insertOrdered ys)
      · split
        · exact Nat.le_refl _
        · exact Nat.le_succ _

/-- Insertion keeps the keys strictly increasing. -/
theorem pairwise_insertOrdered {less : Val → Val → Bool}
    (htrans : ∀ a b c, less a b = true → less b c = true → less a c = true) : ∀ {ys : List Val},
      ys.Pairwise (fun y z => less (key y) (key z) = true) →
        (Reader.insertOrdered less key x ys).Pairwise fun y z => less (key y) (key z) = true
  | [], _ => List.pairwise_singleton _ _
  | y :: ys, h => by
      obtain ⟨hy, hys⟩ := List.pairwise_cons.mp h
      rw [Reader.insertOrdered]
      split
      · next hyx =>
          refine List.pairwise_cons.mpr ⟨fun z hz => ?_, pairwise_insertOrdered htrans hys⟩
          rcases mem_insertOrdered hz with rfl | hz
          · exact hyx
          · exact hy z hz
      · split
        · next hxy =>
            refine List.pairwise_cons.mpr ⟨fun z hz => ?_, h⟩
            rcases List.mem_cons.mp hz with rfl | hz
            · exact hxy
            · exact htrans _ _ _ hxy (hy z hz)
        · exact h

/-- Insertion into a set or map adds at most the new element and keeps the keys apart. -/
theorem insertKeyed_ok (hS : S.Rewritable) (o : Order) (keyTy : Ty) (key : Val → Val) (x : Val)
    {ys : List Val} (h : KeysOk S o keyTy key ys) :
    KeysOk S o keyTy key (Reader.insertKeyed S o keyTy key x ys) ∧
      (Reader.insertKeyed S o keyTy key x ys).length ≤ ys.length + 1 ∧
      ∀ z ∈ Reader.insertKeyed S o keyTy key x ys, z = x ∨ z ∈ ys := by
  cases o with
  | ordered =>
      have htrans : ∀ a b c, S.less keyTy a b = true → S.less keyTy b c = true →
          S.less keyTy a c = true := hS.less keyTy
      exact ⟨pairwise_insertOrdered htrans h, length_insertOrdered ys,
        fun z hz => mem_insertOrdered hz⟩
  | unordered =>
      have hkeys : ys.Pairwise fun y z => S.equal keyTy (key y) (key z) = false := h
      rw [Reader.insertKeyed, Reader.insertUnordered]
      split
      · exact ⟨h, Nat.le_succ _, fun z hz => .inr hz⟩
      · next hnew =>
          refine ⟨List.pairwise_append.mpr ⟨hkeys, List.pairwise_singleton _ _, ?_⟩, ?_, ?_⟩
          · intro y hy z hz
            obtain rfl := List.mem_singleton.mp hz
            have hany := fun heq => hnew (List.any_eq_true.mpr ⟨y, hy, heq⟩)
            exact Bool.eq_false_iff.mpr hany
          · rw [List.length_append, List.length_singleton]
          · intro z hz
            exact (List.mem_append.mp hz).symm.imp_left List.mem_singleton.mp

end Insert

/-! ## Collections -/

/-- At most `k` elements, each of which can be written. -/
def Filled (S : Schema) (t : Ty) (k : Nat) (vs : List Val) : Prop :=
  vs.length ≤ k ∧ EncodableEach S t vs

section Filled

variable {S : Schema} {t : Ty} {k : Nat} {vs : List Val}

theorem filled_nil : Filled S t 0 [] := ⟨Nat.le_refl _, by simp [EncodableEach]⟩

theorem Filled.pushBack (h : Filled S t k vs) {v : Val} (hv : Encodable S t v) :
    Filled S t (k + 1) (Reader.pushBack vs v) := by
  refine ⟨?_, encodableEach_iff.mpr fun w hw => ?_⟩
  · rw [Reader.pushBack, List.length_append, List.length_singleton]
    exact Nat.succ_le_succ h.1
  · rcases List.mem_append.mp hw with hw | hw
    · exact encodableEach_iff.mp h.2 w hw
    · exact List.mem_singleton.mp hw ▸ hv

theorem filled_scalars {s : Scalar} {ns : List Nat} (hns : ∀ n ∈ ns, s.Holds n)
    (hlen : ns.length ≤ k) : Filled S (.scalar s) k (ns.map .scalar) := by
  refine ⟨?_, encodableEach_iff.mpr fun v hv => ?_⟩
  · rw [List.length_map]
    exact hlen
  · obtain ⟨n, hn, rfl⟩ := List.mem_map.mp hv
    exact hns n hn

theorem Scalar.holds_of_lt {s : Scalar} (hs : s ≠ .bool) {n : Nat} (h : n < 256 ^ s.size) :
    s.Holds n := by
  cases s with
  | bool => exact absurd rfl hs
  | _ => exact h

end Filled

namespace Gives

variable {S : Schema} {r₀ : MemoryPackReader} {t : Ty} {element : ReadM Val}

/-- The loop of `std::vector` and of the other sequences. -/
theorem pushBacks {min : Nat} {reserve counted : Bool}
    (helement : Gives r₀ element (Encodable S t)) :
    Gives r₀ (Reader.readElements min reserve counted element Reader.pushBack [])
      (Filled S t maxLength) := by
  refine (readElements helement filled_nil fun k vs v hvs hv => hvs.pushBack hv).weaken ?_
  rintro vs ⟨k, hk, hvs⟩
  exact ⟨hvs.1.trans hk, hvs.2⟩

theorem readCollection (helement : Gives r₀ element (Encodable S t)) :
    Gives r₀ (Reader.readCollection t element) (Filled S t maxLength) := by
  unfold Reader.readCollection
  split
  · exact readVectorBool.map fun ns hns => filled_scalars hns.2 hns.1
  · next s hs =>
      refine .ite (fun _ => (readVector s.size).map fun ns hns => ?_) fun _ => pushBacks helement
      exact filled_scalars (fun n hn => s.holds_of_lt hs (hns.2 n hn)) hns.1
  · exact pushBacks helement

/-- The loop of sets and maps. -/
theorem inserts (hS : S.Rewritable) {min : Nat} {reserve counted : Bool} (o : Order) (keyTy : Ty)
    (key : Val → Val) (helement : Gives r₀ element (Encodable S t)) :
    Gives r₀ (Reader.readElements min reserve counted element
      (fun vs v => Reader.insertKeyed S o keyTy key v vs) []) fun vs =>
        Filled S t maxLength vs ∧ KeysOk S o keyTy key vs := by
  have hstart : Filled S t 0 [] ∧ KeysOk S o keyTy key [] := by
    refine ⟨filled_nil, ?_⟩
    cases o <;> exact .nil
  refine (readElements (J := fun k vs => Filled S t k vs ∧ KeysOk S o keyTy key vs) helement hstart
    fun k vs v hvs hv => ?_).weaken ?_
  · obtain ⟨hkeys, hlen, hmem⟩ := insertKeyed_ok hS o keyTy key v hvs.2
    refine ⟨⟨hlen.trans (Nat.succ_le_succ hvs.1.1), encodableEach_iff.mpr fun w hw => ?_⟩, hkeys⟩
    rcases hmem w hw with rfl | hw
    · exact hv
    · exact encodableEach_iff.mp hvs.1.2 w hw
  · rintro vs ⟨k, hk, hvs, hkeys⟩
    exact ⟨⟨hvs.1.trans hk, hvs.2⟩, hkeys⟩

/-- An array keeps its size: what the sender did not send stays zero. -/
theorem arrayDeserialize (hS : S.Rewritable) {n : Nat} (hA : (Ty.array n t).PartsIn Ty.Rewritable)
    (helement : Gives r₀ element (Encodable S t)) :
    Gives r₀ (Reader.arrayDeserialize S n t element) fun vs =>
      EncodableEach S t vs ∧ vs.length = n := by
  have hzero : EncodableEach S t (List.replicate n (S.init t)) := by
    refine encodableEach_iff.mpr fun v hv => ?_
    rw [List.eq_of_mem_replicate hv]
    exact encodable_init hS t (hA.of_subset (by simp [Ty.parts]))
  have generic : Gives r₀ (do
      return (← Reader.readElements 1 false false element (Reader.storeAt n)
        (0, List.replicate n (S.init t))).2 : ReadM (List Val)) fun vs =>
      EncodableEach S t vs ∧ vs.length = n := by
    refine (readElements (J := fun _ iv => EncodableEach S t iv.2 ∧ iv.2.length = n) helement
      ⟨hzero, List.length_replicate⟩ fun _ iv v hiv hv => ?_).map
        fun iv hiv => hiv.elim fun _ h => h.2
    unfold Reader.storeAt
    dsimp only
    split
    · refine ⟨encodableEach_iff.mpr fun w hw => ?_, List.length_set.trans hiv.2⟩
      rcases List.mem_or_eq_of_mem_set hw with hw | rfl
      · exact encodableEach_iff.mp hiv.1 w hw
      · exact hv
    · exact hiv
  unfold Reader.arrayDeserialize
  split
  · next s =>
      refine .ite (fun _ => ?_) fun _ => generic
      obtain ⟨hn, hbool⟩ := hA.self
      have hcount : (asInt32 n).toNat = n := by
        unfold maxLength at hn
        rw [Reader.asInt32_of_lt (by omega) (by omega)]
        exact Int.toNat_natCast n
      refine (readArray s.size (asInt32 n)).map fun ns hns => ⟨encodableEach_iff.mpr ?_, ?_⟩
      · intro v hv
        rcases List.mem_append.mp hv with hv | hv
        · have hfilled := filled_scalars (S := S) (k := ns.length)
            (fun n hn => s.holds_of_lt (fun h => hbool (h ▸ rfl)) (hns.2 n hn)) (Nat.le_refl _)
          exact encodableEach_iff.mp hfilled.2 v hv
        · exact encodableEach_iff.mp hzero v (List.mem_of_mem_drop hv)
      · rw [List.length_append, List.length_drop, List.length_replicate, List.length_map]
        exact Nat.add_sub_of_le (hcount ▸ hns.1)
  · exact generic

/-! ## Optionals, variants, .NET value types -/

/-- A `Nullable<T>` holds the memory of a number of its width or of a struct. -/
theorem readNullableOf (hA : (Ty.optional t).Rewritable) :
    Gives r₀ (Reader.readNullableOf t) (Encodable S (.optional t)) := by
  have hnone : Encodable S (.optional t) .none := by
    rw [Encodable]
    trivial
  cases t with
  | scalar s =>
      refine (readNullable s.size s.size s.size_pos).bind fun o ho => ?_
      cases o with
      | none => exact .pure hnone
      | some bs =>
          refine .ask fun B => .pure ?_
          have hlt := endianConvertOf_lt B (s := s) (ho bs rfl)
          rw [Encodable, Encodable]
          exact s.holds_of_lt (fun h => hA (h ▸ rfl)) hlt
  | unmanaged u =>
      refine (readNullable u.align u.size u.align_pos).bind fun o ho => ?_
      cases o with
      | none => exact .pure hnone
      | some bs =>
          refine .pure ?_
          rw [Encodable, Encodable]
          exact ho bs rfl
  | _ => exact .pure hnone

theorem optionalDeserialize (hlong : r₀.longestString ≤ maxLength)
    (hA : (Ty.optional t).PartsIn Ty.Rewritable) {payload : ReadM Val}
    (hpayload : Gives r₀ payload (Encodable S t)) :
    Gives r₀ (Reader.optionalDeserialize t payload) (Encodable S (.optional t)) := by
  have hnone : Encodable S (.optional t) .none := by
    rw [Encodable]
    trivial
  have hsome : ∀ v, Encodable S t v → Encodable S (.optional t) (.some v) := by
    intro v hv
    rw [Encodable]
    exact hv
  have hcollection : Gives r₀ (Reader.nullCollectionDeserialize payload)
      (Encodable S (.optional t)) := by
    rw [Reader.nullCollectionDeserialize_eq]
    refine nullTest.bind fun b _ => .ite (fun _ => ?_) fun _ => hpayload.map hsome
    exact (advance 4).bind fun _ _ => .pure hnone
  unfold Reader.optionalDeserialize
  split
  · exact readNullableOf hA.self
  · exact hcollection
  · next u _ _ hk hstring =>
      -- the only other type whose null is that of a string
      obtain rfl : u = .string := by
        cases u <;> simp_all [wireNullEncoding]
      refine readString.bind fun o ho => ?_
      cases o with
      | none => exact .pure hnone
      | some bs =>
          refine .pure (hsome _ ?_)
          rw [Encodable]
          exact (ho bs rfl).trans hlong
  · exact hcollection
  · exact nullObject hnone (hpayload.weaken hsome)

theorem dotNetDeserialize (d : DotNet) : Gives r₀ (Reader.dotNetDeserialize d) d.Holds := by
  cases d with
  | guid =>
      refine (readRaw 4).bind fun _ h₁ => (readRaw 2).bind fun _ h₂ => ?_
      exact (readRaw 2).bind fun _ h₃ => (readUInt8s 8).map fun _ h₄ => ⟨h₁, h₂, h₃, h₄⟩
  | dateTime => exact (readRaw 8).map fun _ h => h
  | timeSpan => exact (readRaw 8).map fun _ h => h
  | dateTimeOffset =>
      refine (readRaw 2).bind fun _ ho => (advance 6).bind fun _ _ => ?_
      exact (readRaw 8).map fun _ hd => ⟨ho, hd⟩
  | decimal => exact (readUInt8s 16).map fun _ h => h
  | half => exact (readRaw 2).map fun _ h => h
  | int128 => exact (readRaw 8).bind fun _ hl => (readRaw 8).map fun _ hh => ⟨hl, hh⟩
  | uint128 => exact (readRaw 8).bind fun _ hl => (readRaw 8).map fun _ hh => ⟨hl, hh⟩

variable {named : Nat → Val → ReadM Val}

/-- Items past the sender's count keep their default. -/
theorem readItems (hS : S.Rewritable) (count : Nat) : ∀ {ts : List Ty} (i : Nat),
    (∀ t ∈ ts, t.PartsIn Ty.Rewritable) →
    (∀ t ∈ ts, Gives r₀ (Reader.readTy S named t (S.init t)) (Encodable S t)) →
      Gives r₀ (Reader.readItems S named count i ts) (EncodableMembers S ts)
  | [], i, _, _ => by
      rw [Reader.readItems]
      refine .pure ?_
      rw [EncodableMembers]
      trivial
  | t :: ts, i, hA, hread => by
      obtain ⟨hAt, hAts⟩ := List.forall_mem_cons.mp hA
      obtain ⟨ht, hts⟩ := List.forall_mem_cons.mp hread
      have hrest : ∀ v, Encodable S t v → Gives r₀ (do
          return v :: (← Reader.readItems S named count (i + 1) ts) : ReadM (List Val))
          (EncodableMembers S (t :: ts)) := by
        intro v hv
        refine (readItems hS count (i + 1) hAts hts).map fun vs hvs => ?_
        rw [EncodableMembers]
        exact ⟨hv, hvs⟩
      rw [Reader.readItems]
      refine .ite (fun _ => ht.bind hrest) fun _ => ?_
      exact .bind (.pure (encodable_init hS t hAt)) hrest

/-- The alternative that is read is one of the variant's. -/
theorem readAlternative (tag : UInt16) : ∀ {ts : List Ty} (i : Nat) (gs : List UInt16),
    (∀ t ∈ ts, Gives r₀ (Reader.readTy S named t (S.init t)) (Encodable S t)) →
      Gives r₀ (Reader.readAlternative S named tag i gs ts) fun o => ∀ w, o = some w →
        ∃ j v, w = .alt (i + j) v ∧ j < ts.length ∧ Encodable S (ts.getD j .string) v
  | ts, i, [], _ => by
      rw [Reader.readAlternative]
      · exact .pure (by simp)
      · simp
  | [], i, g :: gs, _ => by
      rw [Reader.readAlternative]
      · exact .pure (by simp)
      · simp
  | t :: ts, i, g :: gs, hread => by
      obtain ⟨ht, hts⟩ := List.forall_mem_cons.mp hread
      rw [Reader.readAlternative]
      refine .ite (fun _ => ?_) fun _ => ht.map fun v hv w hw => ?_
      · refine (readAlternative tag (i + 1) gs hts).weaken fun o ho w hw => ?_
        obtain ⟨j, v, rfl, hj, hv⟩ := ho w hw
        refine ⟨j + 1, v, by rw [Nat.add_right_comm, Nat.add_assoc], Nat.succ_lt_succ hj, ?_⟩
        rw [List.getD_cons_succ]
        exact hv
      · exact ⟨0, v, (Option.some.inj hw).symm, Nat.succ_pos _, hv⟩

/-! ## The formatters -/

/-- `Read<T>` returns values that can be written, given that the user types do. -/
theorem readTy (hS : S.Rewritable) (hlong : r₀.longestString ≤ maxLength)
    (hnamed : ∀ i v, Encodable S (.object i) v → Gives r₀ (named i v) (Encodable S (.object i)))
    (t : Ty) : t.PartsIn Ty.Rewritable → ∀ v, Encodable S t v →
      Gives r₀ (Reader.readTy S named t v) (Encodable S t) := by
  have hinit : ∀ t : Ty, t.PartsIn Ty.Rewritable → Encodable S t (S.init t) := encodable_init hS
  induction t with
  | scalar s =>
      intro _ v _
      rw [Reader.readTy]
      exact (readScalar s).map fun n hn => hn
  | string =>
      intro _ v _
      rw [Reader.readTy]
      refine readString.map fun o ho => ?_
      rw [Encodable]
      cases o with
      | none => exact Nat.zero_le _
      | some bs => exact (ho bs rfl).trans hlong
  | u16string => exact fun hA => hA.self.elim
  | vector t ih =>
      intro hA v _
      have hAt : t.PartsIn Ty.Rewritable := hA.of_subset (by simp [Ty.parts])
      rw [Reader.readTy]
      refine (readCollection (ih hAt _ (hinit t hAt))).map fun vs hvs => ?_
      rw [Encodable]
      exact hvs
  | sequence k t ih =>
      intro hA v _
      have hAt : t.PartsIn Ty.Rewritable := hA.of_subset (by simp [Ty.parts])
      rw [Reader.readTy]
      refine (pushBacks (ih hAt _ (hinit t hAt))).map fun vs hvs => ?_
      rw [Encodable]
      exact hvs
  | array n t ih =>
      intro hA v _
      have hAt : t.PartsIn Ty.Rewritable := hA.of_subset (by simp [Ty.parts])
      rw [Reader.readTy]
      refine (arrayDeserialize hS hA (ih hAt _ (hinit t hAt))).map fun vs hvs => ?_
      rw [Encodable]
      exact ⟨hvs.2.symm ▸ hA.self.1, hvs⟩
  | set o t ih =>
      intro hA v _
      have hAt : t.PartsIn Ty.Rewritable := hA.of_subset (by simp [Ty.parts])
      rw [Reader.readTy]
      refine (inserts hS o t id (ih hAt _ (hinit t hAt))).map fun vs hvs => ?_
      rw [Encodable]
      exact ⟨hvs.1.1, hvs.1.2, hvs.2⟩
  | map o k t ihk iht =>
      intro hA v _
      have hAk : k.PartsIn Ty.Rewritable := hA.of_subset (by simp [Ty.parts])
      have hAt : t.PartsIn Ty.Rewritable := hA.of_subset (by simp [Ty.parts])
      have hentry : Gives r₀ (do
          let x ← Reader.readTy S named k (S.init k)
          let y ← Reader.readTy S named t (S.init t)
          return .pair x y : ReadM Val) (Encodable S (.pair k t)) := by
        refine (ihk hAk _ (hinit k hAk)).bind fun x hx => ?_
        refine (iht hAt _ (hinit t hAt)).map fun y hy => ?_
        rw [Encodable]
        exact ⟨hx, hy⟩
      rw [Reader.readTy]
      refine (inserts hS o k Val.fst hentry).map fun vs hvs => ?_
      rw [Encodable]
      exact ⟨hvs.1.1, hvs.1.2, hvs.2⟩
  | pair a b iha ihb =>
      intro hA v hv
      obtain ⟨x₀, y₀, rfl⟩ : ∃ x y, v = .pair x y := by
        cases v with
        | pair x y => exact ⟨x, y, rfl⟩
        | _ => simp [Encodable] at hv
      rw [Encodable] at hv
      rw [Reader.readTy]
      refine (iha (hA.of_subset (by simp [Ty.parts])) x₀ hv.1).bind fun x hx => ?_
      refine (ihb (hA.of_subset (by simp [Ty.parts])) y₀ hv.2).map fun y hy => ?_
      rw [Encodable]
      exact ⟨hx, hy⟩
  | tuple ts ih =>
      intro hA v _
      rw [Reader.readTy]
      refine readObjectHeader.bind fun header _ => .ite (fun _ => .pure (hinit _ hA)) fun _ => ?_
      have hts : ∀ t ∈ ts, t.PartsIn Ty.Rewritable := fun t ht => hA.of_item ht
      refine (readItems hS _ 0 hts fun t ht => ih t ht (hts t ht) _ (hinit t (hts t ht))).map ?_
      intro vs hvs
      rw [Encodable]
      exact ⟨hA.self, hvs⟩
  | optional t ih =>
      intro hA v _
      have hAt : t.PartsIn Ty.Rewritable := hA.of_subset (by simp [Ty.parts])
      rw [Reader.readTy]
      exact optionalDeserialize hlong hA (ih hAt _ (hinit t hAt))
  | pointer p t ih =>
      intro hA v _
      have hAt : t.PartsIn Ty.Rewritable := hA.of_subset (by simp [Ty.parts])
      rw [Reader.readTy]
      refine nullObject (by simp [Encodable]) ((ih hAt _ (hinit t hAt)).weaken fun v hv => ?_)
      rw [Encodable]
      exact hv
  | variant tags ts ih =>
      intro hA v hv
      have hone : ∀ t ∈ ts, Gives r₀ (Reader.readTy S named t (S.init t)) (Encodable S t) :=
        fun t ht => ih t ht (hA.of_alternative ht) _ (hinit t (hA.of_alternative ht))
      rw [Reader.readTy]
      refine Prog.Yields.bind (Q := fun _ => True) ?_ fun o _ => ?_
      · exact any Nested.basicRules.readRules.readUnionHeader
          Sticky.basicRules.readRules.readUnionHeader
      cases o with
      | none => exact .pure (hinit _ hA)
      | some tag =>
          refine (readAlternative tag 0 tags hone).bind fun w hw => ?_
          cases w with
          | none =>
              refine .tell _ (.get fun r _ => (advance _).bind fun _ _ => .tell _ (.pure hv))
          | some w =>
              obtain ⟨j, x, rfl, hj, hx⟩ := hw w rfl
              refine .pure ?_
              rw [Encodable, Nat.zero_add]
              exact ⟨⟨hA.self.1, hA.self.2.1, hj⟩, hx⟩
  | dotNet d =>
      intro _ v _
      rw [Reader.readTy]
      refine (dotNetDeserialize d).weaken fun w hw => ?_
      rw [Encodable]
      exact hw
  | unmanaged u =>
      intro _ v _
      rw [Reader.readTy]
      refine Prog.Yields.map (Q := fun bs : List UInt8 => bs.length = u.size) ?_ fun bs hbs => ?_
      · refine (takeBytes u.size).bind fun o ho => ?_
        cases o with
        | none => exact .pure u.length_init
        | some bs => exact .pure (ho bs rfl)
      · rw [Encodable]
        exact hbs
  | object i =>
      intro _ v hv
      rw [Reader.readTy]
      exact hnamed i v hv

/-- User types, by the number of bodies that may still open. -/
theorem readObject (hS : S.Rewritable) (hlong : r₀.longestString ≤ maxLength) : ∀ fuel i v,
    Encodable S (.object i) v →
      Gives r₀ (Reader.readObject S fuel i v) (Encodable S (.object i))
  | 0, _, _, _ => .diverge
  | fuel + 1, i, v, hv => by
      obtain ⟨vs, rfl⟩ : ∃ vs, v = .seq vs := by
        cases v with
        | seq vs => exact ⟨vs, rfl⟩
        | _ => simp [Encodable] at hv
      have hvs := encodableMembers_iff.mp ((encodable_object hS).mp hv)
      have hinit := encodableMembers_iff.mp (hS.init i)
      cases hk : (S.decl i).kind with
      | define =>
          have hmember : ∀ t ∈ (S.decl i).members, ∀ w, Encodable S t w →
              Gives r₀ (Reader.readTy S (Reader.readObject S fuel) t w) (Encodable S t) :=
            fun t ht w hw => readTy hS hlong (readObject hS hlong fuel) t (hS.members i t ht) w hw
          refine (define hk hmember hinit hvs).weaken ?_
          rintro w ⟨ws, rfl, hws⟩
          exact (encodable_object hS).mpr (encodableMembers_iff.mpr hws)
      | defineEmpty =>
          have hinit : Encodable S (.object i) (S.init (.object i)) := by
            rw [Schema.init]
            exact (encodable_object hS).mpr (hS.init i)
          rw [Reader.readObject_defineEmpty hk]
          refine readObjectHeader.bind fun header _ => .ite (fun _ => .pure hinit) fun _ => ?_
          exact .tell _ (.pure hv)
      | versionTolerant => exact absurd hk (hS.define i)

theorem read (hS : S.Rewritable) (hlong : r₀.longestString ≤ maxLength) {t : Ty}
    (ht : t.PartsIn Ty.Rewritable) {v : Val} (hv : Encodable S t v) :
    Gives r₀ (Reader.read S t v) (Encodable S t) :=
  .get fun r _ => readTy hS hlong (readObject hS hlong (r.size + 1)) t ht v hv

end Gives

/-! ## Reading and writing again -/

/-- A value that can be written has the members of its type. -/
theorem shaped_of_encodable {S : Schema} (v : Val) : ∀ t : Ty, Encodable S t v → Shaped S t v := by
  induction v with
  | pair x y hx hy =>
      intro t h
      cases t with
      | pair a b =>
          rw [Encodable] at h
          rw [Shaped]
          exact ⟨hx a h.1, hy b h.2⟩
      | _ => simp [Encodable, Shaped] at h ⊢
  | seq vs ih =>
      intro t h
      have hmembers : ∀ {ts : List Ty} {ws : List Val}, (∀ w ∈ ws, w ∈ vs) →
          EncodableMembers S ts ws → ShapedMembers S ts ws := by
        intro ts ws hws hts
        induction ts generalizing ws with
        | nil => cases ws <;> simp [EncodableMembers, ShapedMembers] at hts ⊢
        | cons u us ihus =>
            cases ws with
            | nil => simp [EncodableMembers] at hts
            | cons w ws =>
                obtain ⟨hw, hws⟩ := List.forall_mem_cons.mp hws
                rw [EncodableMembers] at hts
                rw [ShapedMembers]
                exact ⟨ih w hw u hts.1, ihus hws hts.2⟩
      cases t with
      | object i =>
          rw [Encodable] at h
          rw [Shaped]
          exact hmembers (fun w hw => hw) h.1
      | _ => simp [Encodable, Shaped] at h ⊢
  | _ =>
      intro t h
      cases t with
      | pair a b => simp [Encodable] at h
      | object i => simp [Encodable] at h
      | _ => exact trivial

theorem Schema.Rewritable.shaped {S : Schema} (hS : S.Rewritable) : S.Shaped := by
  intro i
  have hinit := shaped_of_encodable (.seq (S.decl i).init) (.object i)
    ((encodable_object hS).mpr (hS.init i))
  rw [MemoryPack.Shaped] at hinit
  exact hinit

/-- Whatever the input, also after an error that did not throw: the value a read leaves can
be written, and where the type is lossless, reading what was written gives it back. -/
theorem read_rewritable {S : Schema} (hS : S.Rewritable) {t : Ty} (ht : t.PartsIn Ty.Rewritable)
    {v₀ : Val} (hv₀ : Encodable S t v₀) {B : Build} {r r' : MemoryPackReader} {v : Val}
    (hlong : r.longestString ≤ maxLength) (hread : Prog.Returns (Reader.read S t v₀) B r v r')
    {B' : Build} (hB' : B'.Supports S t) :
    Encodable S t v ∧ serialize S B' t v = .ret (encode S t v) ∧
      (S.Lossless → t.Lossless → nest S t v ≤ 256 → ∀ s : List UInt8,
        (encode S t v ++ s).length < B'.sizeMod →
          ∃ l, deserialize S t B' { data := encode S t v ++ s } =
            ⟨.ret v, { data := encode S t v ++ s, pos := (encode S t v).length }, l⟩) := by
  have hv : Encodable S t v := (Gives.read hS hlong ht hv₀ B r v r' ⟨rfl, rfl⟩ hread).2
  refine ⟨hv, serialize_eq_encode hB' hv, fun hL hlossless hnest s hsize => ?_⟩
  exact deserialize_encode hB' hS.shaped hv (recoverable_of_lossless hL v t hlossless hv) hnest
    hsize

theorem Schema.plain_less {t : Ty} {a b : Val} (h : Schema.plain.less t a b = true) :
    ∃ m n, a = .scalar m ∧ b = .scalar n ∧ m < n := by
  cases a with
  | scalar m =>
    cases b with
    | scalar n => exact ⟨m, n, rfl, rfl, of_decide_eq_true h⟩
    | _ => cases h
  | _ => cases h

theorem Schema.plain_rewritable : Schema.plain.Rewritable where
  define := fun i => by simp [Schema.plain]
  members := fun i => by simp [Schema.plain]
  init := fun i => by simp [Schema.plain, EncodableMembers]
  less := by
    intro t a b c hab hbc
    obtain ⟨m, n, rfl, rfl, hmn⟩ := Schema.plain_less hab
    obtain ⟨n', k, hn, rfl, hnk⟩ := Schema.plain_less hbc
    obtain rfl : n = n' := Val.scalar.inj hn
    exact decide_eq_true (hmn.trans hnk)

/-- `std::map<uint8_t, std::string>` -/
def wordTable : Ty := .map .ordered (.scalar (.int false .w1)) .string

/-- Three entries out of order, one key sent twice. -/
def tangledTable : List UInt8 := [3, 0, 0, 0, 2, 0, 0, 0, 0, 1, 0, 0, 0, 0, 2, 0, 0, 0, 0]

theorem wordTable_rewritable : wordTable.PartsIn Ty.Rewritable := by
  simp [wordTable, Ty.PartsIn, Ty.parts, Ty.Rewritable]

theorem read_tangledTable : (Reader.read Schema.plain wordTable (.seq [])
      ⟨true, .little, .w64, 0⟩ { data := tangledTable }).out =
    .ret (.seq [.pair (.scalar 1) (.bytes []), .pair (.scalar 2) (.bytes [])]) := rfl

/-- The table that is read is in order, and a sender on another target can send it on. -/
theorem read_rewritable_wordTable :
    serialize Schema.plain ⟨false, .little, .w32, 0⟩ wordTable
        (.seq [.pair (.scalar 1) (.bytes []), .pair (.scalar 2) (.bytes [])]) =
      .ret (encode Schema.plain wordTable
        (.seq [.pair (.scalar 1) (.bytes []), .pair (.scalar 2) (.bytes [])])) :=
  (read_rewritable Schema.plain_rewritable wordTable_rewritable
    (encodable_init Schema.plain_rewritable wordTable wordTable_rewritable)
    (by decide) ⟨read_tangledTable, rfl⟩ (.inl rfl)).2.1

end MemoryPack
