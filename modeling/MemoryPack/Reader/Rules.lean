import MemoryPack.Reader.Primitives

/-!
# One argument for every type

The rule every result about all types is an instance of: a property of programs
that holds of the primitives, survives sequencing and is preserved by the
collection loop, the null tests and the object body holds of `Read<T>` for every
`T`.

The property is graded: `K n m` says that it holds of `m` and, where consumption
matters, that `m` consumes at least `n` bytes. An ungraded property ignores `n`.
`A` restricts the types the property is about, by a condition on each of their parts:
an argument about wrap-around needs one on `std::array` sizes, one about byte orders
needs one on `std::optional`.
-/

namespace MemoryPack

open Effect

namespace Reader

/-! ## Lower bounds on encodings -/

/-- A lower bound on the bytes a successful `Read<T>` consumes. -/
def wireMin : Ty → Nat
  | .scalar s => s.size
  | .string => 4
  | .u16string => 4
  | .vector _ => 4
  | .sequence _ _ => 4
  | .set _ _ => 4
  | .map _ _ _ => 4
  | .pair a b => wireMin a + wireMin b
  | _ => 1

theorem wireMin_pos (t : Ty) : 0 < wireMin t := by
  induction t with
  | scalar s => exact s.size_pos
  | pair a b ha hb => exact Nat.add_pos_left ha _
  | _ => simp [wireMin]

theorem minEncodedSize_le (t : Ty) : minEncodedSize t ≤ wireMin t := by
  cases t with
  | scalar s => exact Nat.le_refl _
  | string => exact Nat.le_refl _
  | _ => exact wireMin_pos _

theorem elementMin_le (t : Ty) : elementMin t ≤ wireMin t := by
  cases t with
  | scalar s => exact Nat.le_refl _
  | _ => exact wireMin_pos _

theorem minEncodedSize_pos (t : Ty) : 0 < minEncodedSize t := by
  cases t with
  | scalar s => exact s.size_pos
  | _ => simp [minEncodedSize]

theorem elementMin_pos (t : Ty) : 0 < elementMin t := by
  cases t with
  | scalar s => exact s.size_pos
  | _ => simp [elementMin]

/-- The types whose null is a collection header of -1. -/
theorem four_le_wireMin {t : Ty} (h : wireNullEncoding t = .collection ∨ t = .u16string) :
    4 ≤ wireMin t := by
  cases t <;> simp [wireNullEncoding, wireMin] at h ⊢

end Reader

/-! ## The rule -/

/-- A property of reader programs that every formatter preserves. -/
structure ReadRules (K : ∀ {α : Type}, Nat → ReadM α → Prop) (A : Ty → Prop) : Prop where
  pure : ∀ {α : Type} (a : α), K 0 (Pure.pure a : ReadM α)
  bind : ∀ {α β : Type} {a b : Nat} {m : ReadM α} {f : α → ReadM β},
    K a m → (∀ x, K b (f x)) → K (a + b) (m >>= f)
  weaken : ∀ {α : Type} {n n' : Nat} {m : ReadM α}, K n m → n' ≤ n → K n' m
  takeBytes : ∀ n, K n (Reader.takeBytes n)
  readRaw : ∀ w, K w (Reader.readRaw w)
  failWith : ∀ {α : Type} {code} (n : Nat) (a : α), code ≠ .none →
    K n (do Reader.fail code; return a : ReadM α)
  advance : ∀ n, K 0 (Reader.advance n)
  readString : K 4 Reader.readString
  readVector : ∀ {w}, 0 < w → K 4 (Reader.readVector w)
  readVectorBool : K 4 Reader.readVectorBool
  readArray : ∀ {n : Nat} {s : Scalar}, A (.array n (.scalar s)) →
    K 4 (Reader.readArray s.size (asInt32 n))
  readNullableOf : ∀ {t}, A (.optional t) → wireNullEncoding t = .nullableValue →
    K 1 (Reader.readNullableOf t)
  elements : ∀ {α β : Type} {min : Nat} {reserve counted : Bool} {element : ReadM β}
    {store : α → β → α} {a : α}, 0 < min → K min element →
      K 4 (Reader.readElements min reserve counted element store a)
  nullCollection : ∀ {payload}, K 4 payload → K 4 (Reader.nullCollectionDeserialize payload)
  nullObject : ∀ {payload}, K 1 payload → K 1 (Reader.nullObjectDeserialize payload)
  undeclaredUnion : ∀ tag v, K 0 (Reader.undeclaredUnion tag v)

namespace ReadRules

variable {K : ∀ {α : Type}, Nat → ReadM α → Prop} {A : Ty → Prop}

theorem zero (h : ReadRules @K A) {α : Type} {n : Nat} {m : ReadM α} (hm : K n m) : K 0 m :=
  h.weaken hm (Nat.zero_le n)

theorem map (h : ReadRules @K A) {α β : Type} {n : Nat} {m : ReadM α} (hm : K n m)
    (f : α → β) : K n (do return f (← m) : ReadM β) :=
  h.bind hm fun a => h.pure (f a)

/-- The first part pays; the rest may consume anything. -/
theorem andThen (h : ReadRules @K A) {α β : Type} {n : Nat} {m : ReadM α} {f : α → ReadM β}
    (hm : K n m) (hf : ∀ x, K 0 (f x)) : K n (m >>= f) :=
  h.bind hm hf

theorem ite {c : Prop} [Decidable c] {α : Type} {n : Nat} {m m' : ReadM α} (hm : c → K n m)
    (hm' : ¬ c → K n m') : K n (if c then m else m') :=
  Prog.Closed.ite (P := fun {_} => K n) hm hm'

theorem readByte (h : ReadRules @K A) : K 1 Reader.readByte := by
  refine h.andThen (h.takeBytes 1) fun o => ?_
  cases o with
  | none => exact h.pure 0
  | some bs => exact h.pure _

theorem readObjectHeader (h : ReadRules @K A) : K 1 Reader.readObjectHeader := by
  refine h.andThen h.readByte fun b => ite (fun _ => h.pure _) fun _ => ?_
  exact ite (fun _ => h.failWith 0 _ (by decide)) fun _ => h.pure _

theorem readUnionHeader (h : ReadRules @K A) : K 1 Reader.readUnionHeader := by
  refine h.andThen h.readByte fun b => ite (fun _ => h.pure _) fun _ => ?_
  refine ite (fun _ => h.map (h.zero (h.readRaw 2)) _) fun _ => ?_
  exact ite (fun _ => h.failWith 0 _ (by decide)) fun _ => h.pure _

theorem readScalar (h : ReadRules @K A) (s : Scalar) : K s.size (Reader.readScalar s) := by
  cases s with
  | bool => exact h.map h.readByte _
  | float => exact h.readRaw 4
  | double => exact h.readRaw 8
  | int sg w =>
      cases w with
      | w1 => exact h.map h.readByte _
      | w2 => exact h.readRaw 2
      | w4 => exact h.readRaw 4
      | w8 => exact h.readRaw 8
  | enum sg w => exact h.readRaw _

theorem readUInt8s (h : ReadRules @K A) : ∀ n, K n (Reader.readUInt8s n)
  | 0 => h.pure _
  | n + 1 => h.weaken (h.bind h.readByte fun b => h.map (h.readUInt8s n) (b :: ·)) (by omega)

theorem dotNetDeserialize (h : ReadRules @K A) (d : DotNet) :
    K 1 (Reader.dotNetDeserialize d) := by
  have pair : ∀ {m m' : ReadM Nat}, K 8 m → K 0 m' →
      K 1 (do let x ← m; let y ← m'; return Val.pair (.scalar x) (.scalar y) : ReadM Val) :=
    fun hm hm' => h.weaken (h.andThen hm fun x => h.map hm' fun y =>
      Val.pair (.scalar x) (.scalar y)) (by decide)
  cases d with
  | guid =>
      refine h.weaken (h.andThen (h.readRaw 4) fun _ => ?_) (by decide)
      exact h.bind (h.zero (h.readRaw 2)) fun _ => h.bind (h.zero (h.readRaw 2)) fun _ =>
        h.bind (h.zero (h.readUInt8s 8)) fun _ => h.pure _
  | dateTime => exact h.weaken (h.map (h.readRaw 8) Val.scalar) (by decide)
  | timeSpan => exact h.weaken (h.map (h.readRaw 8) Val.scalar) (by decide)
  | dateTimeOffset =>
      refine h.weaken (h.andThen (h.readRaw 2) fun _ => ?_) (by decide)
      exact h.bind (h.advance 6) fun _ => h.bind (h.zero (h.readRaw 8)) fun _ => h.pure _
  | decimal => exact h.weaken (h.map (h.readUInt8s 16) Val.bytes) (by decide)
  | half => exact h.weaken (h.map (h.readRaw 2) Val.scalar) (by decide)
  | int128 => exact pair (h.readRaw 8) (h.zero (h.readRaw 8))
  | uint128 => exact pair (h.readRaw 8) (h.zero (h.readRaw 8))

theorem readCollection (h : ReadRules @K A) {t : Ty} {element : ReadM Val}
    (hm : K (Reader.wireMin t) element) : K 4 (Reader.readCollection t element) := by
  have generic : K 4 (Reader.readElements (Reader.minEncodedSize t) true true element
      Reader.pushBack []) :=
    h.elements (Reader.minEncodedSize_pos t) (h.weaken hm (Reader.minEncodedSize_le t))
  unfold Reader.readCollection
  split
  · exact h.map h.readVectorBool _
  · next s _ => exact ite (fun _ => h.map (h.readVector s.size_pos) _) fun _ => generic
  · exact generic

theorem arrayDeserialize (h : ReadRules @K A) {S : Schema} {n : Nat} {t : Ty}
    {element : ReadM Val} (hm : K (Reader.wireMin t) element)
    (hA : A (.array n t)) : K 4 (Reader.arrayDeserialize S n t element) := by
  have generic : K 4 (do return (← Reader.readElements 1 false false element
      (Reader.storeAt n) (0, List.replicate n (S.init t))).2 : ReadM (List Val)) :=
    h.map (h.elements Nat.one_pos (h.weaken hm (Reader.wireMin_pos t))) Prod.snd
  unfold Reader.arrayDeserialize
  split
  · next s =>
      refine ite (fun _ => ?_) fun _ => generic
      exact h.map (h.readArray hA) _
  · exact generic

theorem optionalDeserialize (h : ReadRules @K A) {t : Ty} {payload : ReadM Val}
    (hm : K (Reader.wireMin t) payload) (hA : A (.optional t)) :
    K 1 (Reader.optionalDeserialize t payload) := by
  unfold Reader.optionalDeserialize
  split
  · next ht => exact h.readNullableOf hA ht
  · exact h.weaken (h.nullCollection (h.weaken hm (Reader.four_le_wireMin (.inr rfl)))) (by decide)
  · refine h.weaken (h.andThen h.readString fun o => ?_) (by decide)
    cases o <;> exact h.pure _
  · next hc =>
      exact h.weaken (h.nullCollection (h.weaken hm (Reader.four_le_wireMin (.inl hc)))) (by decide)
  · exact h.nullObject (h.weaken hm (Reader.wireMin_pos _))

theorem readItems (h : ReadRules @K A) {S : Schema} {named : Nat → Val → ReadM Val}
    (count : Nat) : ∀ {us : List Ty}, (∀ u ∈ us, K 0 (Reader.readTy S named u (S.init u))) →
      ∀ i, K 0 (Reader.readItems S named count i us)
  | [], _, i => by
      rw [Reader.readItems]
      exact h.pure _
  | u :: us, hread, i => by
      rw [Reader.readItems]
      obtain ⟨hu, hus⟩ := List.forall_mem_cons.mp hread
      have hrest := fun v => h.map (h.readItems count hus (i + 1)) (v :: ·)
      exact ite (fun _ => h.andThen hu hrest) fun _ => h.andThen (h.pure _) hrest

theorem readAlternative (h : ReadRules @K A) {S : Schema} {named : Nat → Val → ReadM Val} :
    ∀ {us : List Ty}, (∀ u ∈ us, K 0 (Reader.readTy S named u (S.init u))) →
      ∀ tag i gs, K 0 (Reader.readAlternative S named tag i gs us)
  | us, _, tag, i, [] => by
      rw [Reader.readAlternative]
      · exact h.pure _
      · simp
  | [], _, tag, i, g :: gs => by
      rw [Reader.readAlternative]
      · exact h.pure _
      · simp
  | u :: us, hread, tag, i, g :: gs => by
      rw [Reader.readAlternative]
      obtain ⟨hu, hus⟩ := List.forall_mem_cons.mp hread
      exact ite (fun _ => h.readAlternative hus tag (i + 1) gs) fun _ =>
        h.map hu fun w => some (Val.alt i w)

/-- Every property closed under the rules holds of `Read<T>` for every `T`, given
that it holds of the user types. The induction is on the type, with the formatters
of tuples and variants as loops over their items. -/
theorem readTy (h : ReadRules @K A) {S : Schema} {named : Nat → Val → ReadM Val}
    (hnamed : ∀ i v, K 1 (named i v)) (t : Ty) :
    t.PartsIn A → ∀ v, K (Reader.wireMin t) (Reader.readTy S named t v) := by
  induction t with
  | scalar s =>
      intro _ v
      rw [Reader.readTy]
      exact h.map (h.readScalar s) Val.scalar
  | string =>
      intro _ v
      rw [Reader.readTy]
      exact h.map h.readString _
  | u16string =>
      intro _ v
      rw [Reader.readTy]
      exact h.map h.readString _
  | vector t ih =>
      intro hA v
      rw [Reader.readTy]
      have ht := ih (hA.of_subset (by simp [Ty.parts])) (S.init t)
      exact h.map (h.readCollection ht) Val.seq
  | sequence k t ih =>
      intro hA v
      rw [Reader.readTy]
      have ht := ih (hA.of_subset (by simp [Ty.parts])) (S.init t)
      exact h.map (h.elements (Reader.elementMin_pos t) (h.weaken ht (Reader.elementMin_le t)))
        Val.seq
  | array n t ih =>
      intro hA v
      rw [Reader.readTy]
      have ht := ih (hA.of_subset (by simp [Ty.parts])) (S.init t)
      exact h.weaken (h.map (h.arrayDeserialize ht hA.self) Val.seq) (by simp [Reader.wireMin])
  | set o t ih =>
      intro hA v
      rw [Reader.readTy]
      have ht := ih (hA.of_subset (by simp [Ty.parts])) (S.init t)
      exact h.map (h.elements (Reader.elementMin_pos t) (h.weaken ht (Reader.elementMin_le t)))
        Val.seq
  | map o k t ihk iht =>
      intro hA v
      rw [Reader.readTy]
      have hk := ihk (hA.of_subset (by simp [Ty.parts])) (S.init k)
      have ht := iht (hA.of_subset (by simp [Ty.parts])) (S.init t)
      have hentry := h.bind hk fun x => h.map ht fun y => Val.pair x y
      refine h.map (h.elements (Nat.add_pos_left (Reader.elementMin_pos k) _)
        (h.weaken hentry ?_)) Val.seq
      exact Nat.add_le_add (Reader.elementMin_le k) (Reader.elementMin_le t)
  | pair a b iha ihb =>
      intro hA v
      rw [Reader.readTy]
      have ha := iha (hA.of_subset (by simp [Ty.parts])) v.fst
      have hb := ihb (hA.of_subset (by simp [Ty.parts])) v.snd
      exact h.bind ha fun x => h.map hb fun y => Val.pair x y
  | tuple ts ih =>
      intro hA v
      rw [Reader.readTy]
      refine h.andThen h.readObjectHeader fun header => ?_
      refine ite (fun _ => h.pure _) fun _ => h.map ?_ Val.seq
      exact h.readItems _ (fun u hu => h.zero (ih u hu (hA.of_item hu) (S.init u))) 0
  | optional t ih =>
      intro hA v
      rw [Reader.readTy]
      exact h.optionalDeserialize (ih (hA.of_subset (by simp [Ty.parts])) (S.init t)) hA.self
  | pointer p t ih =>
      intro hA v
      rw [Reader.readTy]
      have ht := ih (hA.of_subset (by simp [Ty.parts])) (S.init t)
      exact h.nullObject (h.weaken ht (Reader.wireMin_pos t))
  | variant tags ts ih =>
      intro hA v
      rw [Reader.readTy]
      have hone : ∀ u ∈ ts, K 0 (Reader.readTy S named u (S.init u)) := fun u hu =>
        h.zero (ih u hu (hA.of_alternative hu) (S.init u))
      refine h.andThen h.readUnionHeader fun o => ?_
      cases o with
      | none => exact h.pure _
      | some tag =>
          refine h.andThen (h.readAlternative hone tag 0 tags) fun w => ?_
          cases w with
          | none => exact h.undeclaredUnion tag v
          | some w => exact h.pure w
  | dotNet d =>
      intro _ v
      rw [Reader.readTy]
      exact h.dotNetDeserialize d
  | unmanaged u =>
      intro _ v
      rw [Reader.readTy]
      refine h.weaken (h.map (h.andThen (h.takeBytes u.size) fun o => ?_) Val.bytes) u.size_pos
      cases o <;> exact h.pure _
  | object i =>
      intro _ v
      rw [Reader.readTy]
      exact hnamed i v

end ReadRules

end MemoryPack
