import MemoryPack.Wire.Padding
import MemoryPack.Wire.VersionTolerant
import Mathlib.Data.List.Induction

/-!
# Every formatter reads its encoding

One lemma for each `Deserialize` of the formatters, over what the parts do, and from
them `Reads.readTy`: behind the encoding of a value, `Read<T>` returns the value and
stands at the first byte after it.

Two things the plausibility checks need are proved on the way. No encoding is
shorter than the minimum its reader assumes (`wireMin_le_length`), and the target of
a read has the shape of its type (`Shaped`): an object without members is left as it
is, so it must be one.
-/

namespace MemoryPack

open Effect LittleEndian Reader

/-! ## Lower bounds -/

theorem nullableBuffer_none {align size : Nat} (h : 0 < align) :
    Writer.nullableBuffer align size none =
      0 :: List.replicate (nullableSize align size - 1) 0 := by
  have hsize := size_le_nullableSize h size
  obtain ⟨n, hn⟩ : ∃ n, nullableSize align size = n + 1 :=
    ⟨nullableSize align size - 1, by omega⟩
  rw [hn]
  simp [Writer.nullableBuffer, overwrite, hn, List.replicate_succ]

/-- The flag, the value at offset `alignof(T)`, and zeros around it. -/
theorem nullableBuffer_some {align size : Nat} (h : 0 < align) {v : List UInt8}
    (hv : v.length = size) : Writer.nullableBuffer align size (some v) =
      1 :: (List.replicate (align - 1) 0 ++
        (v ++ List.replicate (nullableSize align size - (align + size)) 0)) := by
  have hsize := size_le_nullableSize h size
  obtain ⟨n, hn⟩ : ∃ n, nullableSize align size = n + 1 :=
    ⟨nullableSize align size - 1, by omega⟩
  obtain ⟨a, rfl⟩ : ∃ a, align = a + 1 := ⟨align - 1, by omega⟩
  have hmin : min a n = a := by omega
  have hdrop : List.drop (a + 1 + size) (1 :: List.replicate n (0 : UInt8)) =
      List.replicate (n + 1 - (a + 1 + size)) 0 := by
    rw [Nat.add_right_comm, List.drop_succ_cons, List.drop_replicate]
    congr 1
    omega
  simp [Writer.nullableBuffer, overwrite, hn, List.replicate_succ, hv, hmin, hdrop]

theorem length_encodeScalar (s : Scalar) (n : Nat) : (encodeScalar s n).length = s.size := by
  cases s with
  | bool => rfl
  | _ => exact length_leBytes _ _

theorem length_encodeNull_pos (t : Ty) : 0 < (encodeNull t).length := by
  unfold encodeNull
  cases hnull : wireNullEncoding t with
  | string => exact Nat.zero_lt_succ _
  | collection => exact Nat.zero_lt_succ _
  | object => exact Nat.zero_lt_succ _
  | nullableValue =>
      cases t <;> simp [wireNullEncoding] at hnull
      · next s =>
          rw [encodeNullable, Option.map_none, nullableBuffer_none s.size_pos]
          exact Nat.zero_lt_succ _
      · next u =>
          rw [encodeNullable, Option.map_none, nullableBuffer_none u.align_pos]
          exact Nat.zero_lt_succ _

/-- The types with a `Nullable<T>` encoding: the payload as it stands in memory. -/
theorem encodeNullable_some {S : Schema} {t : Ty} {v : Val}
    (hnull : wireNullEncoding t = .nullableValue) (hv : Encodable S t v) :
    ∃ align size bs, 0 < align ∧ bs.length = size ∧
      encodeNullable t (some v) = Writer.nullableBuffer align size (some bs) := by
  cases t <;> simp [wireNullEncoding] at hnull
  · next s => exact ⟨s.size, s.size, _, s.size_pos, length_leBytes _ _, rfl⟩
  · next u =>
      cases v with
      | bytes bs =>
          rw [Encodable] at hv
          exact ⟨u.align, u.size, bs, u.align_pos, hv, rfl⟩
      | _ => simp [Encodable] at hv

theorem length_encodeDotNet_pos {d : DotNet} {v : Val} (h : d.Holds v) :
    0 < (encodeDotNet d v).length := by
  unfold DotNet.Holds at h
  split at h
  all_goals simp [encodeDotNet]
  all_goals omega

/-- No encoding is shorter than its reader assumes. -/
theorem wireMin_le_length {S : Schema} : ∀ (v : Val) {t : Ty}, Encodable S t v →
    wireMin t ≤ (encode S t v).length := by
  intro v
  induction v with
  | scalar n =>
      intro t h
      cases t with
      | scalar s =>
          rw [encode, length_encodeScalar]
          exact Nat.le_refl _
      | dotNet d => exact length_encodeDotNet_pos h
      | _ => simp [Encodable] at h
  | bytes bs =>
      intro t h
      cases t with
      | string =>
          rw [encode, encodeString]
          split <;> simp [wireMin]
      | unmanaged u =>
          rw [Encodable] at h
          rw [encode, length_encodeUnmanaged h]
          exact u.size_pos
      | dotNet d => exact length_encodeDotNet_pos h
      | _ => simp [Encodable] at h
  | units us =>
      intro t h
      cases t with
      | u16string => simp [encode, encodeUtf16, wireMin]
      | dotNet d => exact length_encodeDotNet_pos h
      | _ => simp [Encodable] at h
  | seq vs _ =>
      intro t h
      cases t with
      | object i =>
          rw [encode]
          cases (S.decl i).kind <;> simp [wireMin, encodeVersionTolerant]
      | dotNet d => exact length_encodeDotNet_pos h
      | vector t => simp [encode, encodeCounted, wireMin]
      | sequence k t => simp [encode, encodeCounted, wireMin]
      | array n t => simp [encode, encodeCounted, wireMin]; omega
      | set o t => simp [encode, encodeCounted, wireMin]
      | map o k t => simp [encode, encodeCounted, wireMin]
      | tuple ts => simp [encode, wireMin]
      | _ => simp [Encodable] at h
  | pair x y hx hy =>
      intro t h
      cases t with
      | pair a b =>
          rw [Encodable] at h
          rw [encode, List.length_append]
          exact Nat.add_le_add (hx h.1) (hy h.2)
      | dotNet d => exact length_encodeDotNet_pos h
      | _ => simp [Encodable] at h
  | none =>
      intro t h
      cases t with
      | optional t =>
          rw [encode]
          exact length_encodeNull_pos t
      | pointer p t => exact Nat.le_refl _
      | dotNet d => exact length_encodeDotNet_pos h
      | _ => simp [Encodable] at h
  | some v ih =>
      intro t h
      cases t with
      | optional t =>
          rw [Encodable] at h
          rw [encode]
          split
          · next hnull =>
              obtain ⟨align, size, bs, ha, hbs, heq⟩ := encodeNullable_some hnull h
              rw [heq, nullableBuffer_some ha hbs]
              exact Nat.zero_lt_succ _
          · exact Nat.le_trans (wireMin_pos t) (ih h)
      | pointer p t =>
          rw [Encodable] at h
          rw [encode]
          exact Nat.le_trans (wireMin_pos t) (ih h)
      | dotNet d => exact length_encodeDotNet_pos h
      | _ => simp [Encodable] at h
  | alt i v _ =>
      intro t h
      cases t with
      | variant tags ts =>
          rw [encode, List.length_append, encodeTag]
          split
          · simp [wireMin]
          · simp [wireMin]
            omega
      | dotNet d => exact length_encodeDotNet_pos h
      | _ => simp [Encodable] at h

theorem encode_ne_nil {S : Schema} {t : Ty} {v : Val} (h : Encodable S t v) :
    encode S t v ≠ [] := by
  intro hnil
  have hmin := wireMin_le_length v h
  rw [hnil] at hmin
  exact absurd (wireMin_pos t) (Nat.not_lt.mpr hmin)

/-! ## Targets -/

mutual
/-- The contents of a target before a read: a pair is a pair, an object has its
members. -/
def Shaped (S : Schema) : Ty → Val → Prop
  | .pair a b, .pair x y => Shaped S a x ∧ Shaped S b y
  | .pair _ _, _ => False
  | .object i, .seq vs => ShapedMembers S (S.decl i).members vs
  | .object _, _ => False
  | _, _ => True

def ShapedMembers (S : Schema) : List Ty → List Val → Prop
  | [], [] => True
  | t :: ts, v :: vs => Shaped S t v ∧ ShapedMembers S ts vs
  | _, _ => False
end

/-- Every `T{}` of a user type is an object of that type. -/
def Schema.Shaped (S : Schema) : Prop :=
  ∀ i, ShapedMembers S (S.decl i).members (S.decl i).init

theorem Schema.Shaped.init {S : Schema} (hS : S.Shaped) (t : Ty) :
    MemoryPack.Shaped S t (S.init t) := by
  induction t with
  | pair a b ha hb =>
      rw [Schema.init, MemoryPack.Shaped]
      exact ⟨ha, hb⟩
  | object i =>
      rw [Schema.init, MemoryPack.Shaped]
      exact hS i
  | _ => simp [MemoryPack.Shaped]

theorem ShapedMembers.head {S : Schema} {t : Ty} {ts : List Ty} {vs : List Val}
    (h : ShapedMembers S (t :: ts) vs) : Shaped S t (vs.headD (S.init t)) := by
  cases vs with
  | nil => simp [ShapedMembers] at h
  | cons v vs =>
      rw [ShapedMembers] at h
      exact h.1

theorem ShapedMembers.tail {S : Schema} {t : Ty} {ts : List Ty} {vs : List Val}
    (h : ShapedMembers S (t :: ts) vs) : ShapedMembers S ts vs.tail := by
  cases vs with
  | nil => simp [ShapedMembers] at h
  | cons v vs =>
      rw [ShapedMembers] at h
      exact h.2

theorem ShapedMembers.length_eq {S : Schema} : ∀ {ts : List Ty} {vs : List Val},
    ShapedMembers S ts vs → ts.length = vs.length
  | [], [], _ => rfl
  | t :: ts, v :: vs, h => by
      rw [List.length_cons, List.length_cons, h.tail.length_eq]
      rfl

theorem Shaped.items {S : Schema} {i : Nat} {v : Val} (h : Shaped S (.object i) v) :
    ShapedMembers S (S.decl i).members v.items := by
  cases v with
  | seq vs =>
      rw [Shaped] at h
      exact h
  | _ => simp [Shaped] at h

/-- An object without members is the empty one. -/
theorem Shaped.eq_empty {S : Schema} {i : Nat} {v : Val} (h : Shaped S (.object i) v)
    (hi : (S.decl i).members = []) : v = .seq [] := by
  cases v with
  | seq vs =>
      rw [Shaped, hi] at h
      cases vs with
      | nil => rfl
      | cons v vs => simp [ShapedMembers] at h
  | _ => simp [Shaped] at h

/-! ## Containers -/

theorem insertOrdered_last {less : Val → Val → Bool} {key : Val → Val} {x : Val} :
    ∀ {ys : List Val}, (∀ y ∈ ys, less (key y) (key x) = true) →
      insertOrdered less key x ys = ys ++ [x]
  | [], _ => rfl
  | y :: ys, h => by
      obtain ⟨hy, hys⟩ := List.forall_mem_cons.mp h
      rw [insertOrdered, if_pos hy, insertOrdered_last hys, List.cons_append]

/-- The keys of a set or map are inserted in order, each behind the ones before it. -/
theorem foldl_insertKeyed {S : Schema} {o : Order} {t : Ty} {key : Val → Val} {vs : List Val}
    (h : KeysOk S o t key vs) :
    vs.foldl (fun ys x => insertKeyed S o t key x ys) [] = vs := by
  induction vs using List.reverseRecOn with
  | nil => rfl
  | append_singleton vs x ih =>
      cases o with
      | ordered =>
          obtain ⟨hvs, -, hx⟩ := List.pairwise_append.mp h
          rw [List.foldl_append, ih hvs]
          exact insertOrdered_last fun y hy => hx y hy x List.mem_cons_self
      | unordered =>
          obtain ⟨hvs, -, hx⟩ := List.pairwise_append.mp h
          have hnone : ¬ (vs.any fun y => S.equal t (key y) (key x)) = true := by
            rw [List.any_eq_true]
            rintro ⟨y, hy, heq⟩
            rw [hx y hy x List.mem_cons_self] at heq
            exact Bool.false_ne_true heq
          rw [List.foldl_append, ih hvs]
          exact if_neg hnone

/-- `std::array`, after its first elements have been stored. -/
theorem foldl_storeAt {n : Nat} {z : Val} {vs : List Val} (h : vs.length ≤ n) :
    vs.foldl (storeAt n) (0, List.replicate n z) =
      (vs.length, vs ++ List.replicate (n - vs.length) z) := by
  induction vs using List.reverseRecOn with
  | nil => simp
  | append_singleton vs x ih =>
      rw [List.length_append, List.length_singleton] at h
      obtain ⟨k, hk⟩ : ∃ k, n - vs.length = k + 1 := ⟨n - vs.length - 1, by omega⟩
      have hk' : n - (vs.length + 1) = k := by omega
      rw [List.foldl_append, ih (by omega), hk, List.length_append, List.length_singleton, hk']
      simp [storeAt, Nat.lt_of_succ_le h, List.replicate_succ]

namespace Reads

variable {B : Build} {d : Nat}

/-- A block of numbers, copied or read one by one. -/
theorem readContiguous {w : Nat} {ns : List Nat} (h : ∀ n ∈ ns, n < 256 ^ w) :
    Reads B d (Reader.readContiguous w ns.length) (ns.map (leBytes w)).flatten ns := by
  intro r s hr hrest
  have hlen := length_flatten_leBytes w ns
  have hle : ns.length * w ≤ r.size - r.pos := hlen ▸ CanRead.le_remaining hrest
  have hlt := hr.size_lt
  obtain ⟨l, hrun⟩ := Reader.readContiguous_ok (B := B) w ns.length hr.error hle (by omega)
  rw [hrest, splitWords_leBytes h] at hrun
  rw [hrun, hlen]
  exact ⟨l, rfl⟩

theorem encodeCounted_leBytes (w : Nat) (ns : List Nat) :
    encodeCounted (ns.map (leBytes w)) = le32 ns.length ++ (ns.map (leBytes w)).flatten := by
  rw [encodeCounted, List.length_map]

theorem readVector {w : Nat} {ns : List Nat} (hlen : ns.length ≤ maxLength)
    (h : ∀ n ∈ ns, n < 256 ^ w) :
    Reads B d (Reader.readVector w) (encodeCounted (ns.map (leBytes w))) ns := by
  have hbytes := length_flatten_leBytes w ns
  rw [encodeCounted_leBytes]
  refine readCollectionLength hlen (by omega) ?_
  cases ns with
  | nil => exact pure _
  | cons n ns =>
      rw [if_neg (by simp), Int.toNat_natCast]
      refine sizeProduct (by omega) (ensureBytes (by omega) ?_)
      rw [if_neg (by decide)]
      exact get fun r => tell _ (tell _ (readContiguous h))

/-- The bytes are copied and the cursor moves past them. -/
theorem copy {β : Type} {f : List UInt8 → ReadM β} {bs : List UInt8} {b : β}
    (hf : Reads B d (f bs) [] b) : Reads B d (do
      let x ← Reader.copy bs.length
      Reader.bump bs.length
      f x) bs b := by
  intro r s hr hrest
  obtain ⟨l, hrun⟩ := hf _ s (hr.move hrest) (CanRead.rest_move hrest)
  refine ⟨.access r.pos bs.length :: .moved (r.pos + bs.length) :: l, ?_⟩
  rw [List.length_nil, Nat.add_zero] at hrun
  simp [Reader.copy, Reader.bump, Reader.setPos, hrest, hrun]

theorem flatten_leBytes_one : ∀ ns : List Nat,
    (ns.map (leBytes 1)).flatten = ns.map UInt8.ofNat
  | [] => rfl
  | n :: ns => by
      rw [List.map_cons, List.flatten_cons, flatten_leBytes_one ns]
      rfl

theorem readVectorBool {ns : List Nat} (hlen : ns.length ≤ maxLength) (h : ∀ n ∈ ns, n < 2) :
    Reads B d Reader.readVectorBool (encodeCounted (ns.map (leBytes 1))) ns := by
  have hbytes : (ns.map UInt8.ofNat).length = ns.length := List.length_map _
  have hback : (ns.map UInt8.ofNat).map (fun b => if b ≠ 0 then 1 else 0) = ns := by
    rw [List.map_map]
    conv_rhs => rw [← List.map_id ns]
    apply List.map_congr_left
    intro n hn
    obtain rfl | rfl : n = 0 ∨ n = 1 := by
      have hn2 := h n hn
      omega
    · rfl
    · rfl
  rw [encodeCounted_leBytes, flatten_leBytes_one]
  refine readCollectionLength hlen (by omega) ?_
  rcases Nat.eq_zero_or_pos ns.length with h0 | hpos
  · rw [List.length_eq_zero_iff.mp h0]
    exact pure _
  · rw [if_neg (by omega), Int.toNat_natCast]
    refine ensureBytes (by omega) ?_
    rw [if_neg (by decide), ← hbytes]
    refine get fun r => tell _ (tell _ (copy ?_))
    rw [hback]
    exact pure _

theorem readArray {w : Nat} {ns : List Nat} (hlen : ns.length ≤ maxLength)
    (h : ∀ n ∈ ns, n < 256 ^ w) :
    Reads B d (Reader.readArray w (asInt32 ns.length)) (encodeCounted (ns.map (leBytes w))) ns := by
  have hbytes := length_flatten_leBytes w ns
  rw [encodeCounted_leBytes, Reader.readArray_eq]
  refine readCollectionLength hlen (by omega) ?_
  cases hns : ns with
  | nil => exact pure _
  | cons n ns' =>
      rw [← hns]
      have hpos : 0 < ns.length := by rw [hns]; exact Nat.succ_pos _
      have hmax : (ns.length : Int) < 2 ^ 31 := by
        unfold maxLength at hlen
        omega
      rw [if_neg (by omega), Reader.asInt32_of_lt (by omega) hmax]
      intro r s hr hrest
      have hle : ns.length * w ≤ r.size - r.pos := hbytes ▸ CanRead.le_remaining hrest
      have hlt := hr.size_lt
      have hmod : (ns.length : Int).toNat * w < B.sizeMod := by
        rw [Int.toNat_natCast]
        omega
      have hmax0 : (0 : Int) ≤ ns.length := Int.natCast_nonneg _
      obtain ⟨l, hrun⟩ := Reader.arrayPayload_ok hr.error hmax0 (by omega) hmax
        (by rw [Int.toNat_natCast]; exact hle) hmod
      rw [if_pos (Int.le_refl _), Int.toNat_natCast, hrest, splitWords_leBytes h] at hrun
      rw [hrun, hbytes]
      exact ⟨l, rfl⟩

/-! ## Collections -/

section Collections

variable {S : Schema} {t : Ty} {element : ReadM Val} {vs : List Val}

theorem elements {α : Type} {min : Nat} (reserve counted : Bool) (store : α → Val → α) (a : α)
    (hmin : min ≤ wireMin t) (hlen : vs.length ≤ maxLength) (hty : ∀ v ∈ vs, Encodable S t v)
    (hread : ∀ v ∈ vs, Reads B d element (encode S t v) v) :
    Reads B d (Reader.readElements min reserve counted element store a)
      (encodeCounted (encodeEach S t vs)) (vs.foldl store a) := by
  rw [encodeEach_eq]
  apply readElements hlen
  · intro bs hbs
    obtain ⟨v, hv, rfl⟩ := List.mem_map.mp hbs
    exact Nat.le_trans hmin (wireMin_le_length v (hty v hv))
  · rw [List.forall₂_map_left_iff, List.forall₂_same]
    exact hread

theorem foldl_pushBack (vs : List Val) : vs.foldl Reader.pushBack [] = vs := by
  show vs.foldl (fun ys v => ys ++ [v]) [] = vs
  rw [List.foldl_append_eq_append, ← List.flatMap_def, List.flatMap_singleton']
  rfl

/-- The bit patterns of a range of scalars, and back. -/
theorem scalars {s : Scalar} (hty : ∀ v ∈ vs, Encodable S (.scalar s) v) :
    (vs.map Val.bits).map Val.scalar = vs ∧ ∀ n ∈ vs.map Val.bits, s.Holds n := by
  constructor
  · rw [List.map_map]
    conv_rhs => rw [← List.map_id vs]
    apply List.map_congr_left
    intro v hv
    obtain ⟨n, rfl, -⟩ := encodable_scalar (hty v hv)
    rfl
  · intro n hn
    obtain ⟨v, hv, rfl⟩ := List.mem_map.mp hn
    obtain ⟨m, rfl, hm⟩ := encodable_scalar (hty v hv)
    exact hm

theorem readCollection (hlen : vs.length ≤ maxLength) (hty : ∀ v ∈ vs, Encodable S t v)
    (hread : ∀ v ∈ vs, Reads B d element (encode S t v) v) :
    Reads B d (Reader.readCollection t element) (encodeCounted (encodeEach S t vs)) vs := by
  have hgeneric : Reads B d (Reader.readElements (minEncodedSize t) true true element pushBack [])
      (encodeCounted (encodeEach S t vs)) vs := by
    have h := elements true true Reader.pushBack [] (minEncodedSize_le t) hlen hty hread
    rwa [foldl_pushBack] at h
  have hbits : (vs.map Val.bits).length ≤ maxLength := by rwa [List.length_map]
  unfold Reader.readCollection
  split
  · obtain ⟨hback, hholds⟩ := scalars hty
    rw [encodeEach_scalar hty]
    have h := (readVectorBool (B := B) (d := d) hbits hholds).map (List.map Val.scalar)
    rwa [hback] at h
  · next s _ =>
      split
      · obtain ⟨hback, hholds⟩ := scalars hty
        rw [encodeEach_scalar hty]
        have h := (readVector (B := B) (d := d) (w := s.size) hbits
          fun n hn => (hholds n hn).lt).map (List.map Val.scalar)
        rwa [hback] at h
      · exact hgeneric
  · exact hgeneric

theorem arrayDeserialize (hlen : vs.length ≤ maxLength) (hty : ∀ v ∈ vs, Encodable S t v)
    (hread : ∀ v ∈ vs, Reads B d element (encode S t v) v) :
    Reads B d (Reader.arrayDeserialize S vs.length t element) (encodeCounted (encodeEach S t vs))
      vs := by
  have hgeneric : Reads B d (do
      return (← Reader.readElements 1 false false element (storeAt vs.length)
        (0, List.replicate vs.length (S.init t))).2 : ReadM (List Val))
      (encodeCounted (encodeEach S t vs)) vs := by
    have h := (elements (B := B) (d := d) false false (storeAt vs.length)
      (0, List.replicate vs.length (S.init t)) (wireMin_pos t) hlen hty hread).map Prod.snd
    rwa [foldl_storeAt (Nat.le_refl _), Nat.sub_self, List.replicate_zero, List.append_nil] at h
  have hbits : (vs.map Val.bits).length ≤ maxLength := by rwa [List.length_map]
  unfold Reader.arrayDeserialize
  split
  · next s =>
      split
      · obtain ⟨hback, hholds⟩ := scalars hty
        rw [encodeEach_scalar hty]
        have h := (readArray (B := B) (d := d) (w := s.size) hbits
          fun n hn => (hholds n hn).lt).map (fun ns => ns.map Val.scalar ++
            (List.replicate vs.length (S.init (.scalar s))).drop (ns.map Val.scalar).length)
        rw [hback, List.drop_replicate, Nat.sub_self, List.replicate_zero, List.append_nil,
          List.length_map] at h
        exact h
      · exact hgeneric
  · exact hgeneric

end Collections

theorem readUnmanaged {size : Nat} {bs init : List UInt8} (h : bs.length = size) :
    Reads B d (Reader.readUnmanaged size init) bs bs := (takeBytes_of_length h).andThen (pure _)

/-! ## .NET value types -/

theorem readUInt8s : ∀ bs : List UInt8, Reads B d (Reader.readUInt8s bs.length) bs bs
  | [] => pure _
  | b :: bs => (readByte b).bind ((readUInt8s bs).map fun bs => b :: bs)

theorem readUInt8s_of_length {bs : List UInt8} {n : Nat} (h : bs.length = n) :
    Reads B d (Reader.readUInt8s n) bs bs := h ▸ readUInt8s bs

theorem dotNetDeserialize {k : DotNet} {v : Val} (h : k.Holds v) :
    Reads B d (Reader.dotNetDeserialize k) (encodeDotNet k v) v := by
  have hwords : ∀ {l u : Nat}, l < 256 ^ 8 → u < 256 ^ 8 → Reads B d (do
      let low ← Reader.readRaw 8
      let high ← Reader.readRaw 8
      return Val.pair (.scalar low) (.scalar high)) (leBytes 8 l ++ leBytes 8 u)
      (Val.pair (.scalar l) (.scalar u)) :=
    fun hl hu => (readRaw hl).bind ((readRaw hu).map fun u => Val.pair _ (.scalar u))
  unfold DotNet.Holds at h
  split at h
  · next d₁ d₂ d₃ d₄ =>
      obtain ⟨h₁, h₂, h₃, h₄⟩ := h
      exact (readRaw h₁).bind ((readRaw h₂).bind ((readRaw h₃).bind
        ((readUInt8s_of_length h₄).map fun bs => Val.seq [_, _, _, .bytes bs])))
  · exact (readRaw h).map Val.scalar
  · exact (readRaw h).map Val.scalar
  · next o u =>
      exact (readRaw h.1).bind ((advance List.length_replicate).bind
        ((readRaw h.2).map fun u => Val.pair _ (.scalar u)))
  · exact (readUInt8s_of_length h).map Val.bytes
  · exact (readRaw h).map Val.scalar
  · exact hwords h.1 h.2
  · exact hwords h.1 h.2
  · exact h.elim

/-! ## Optionals and pointers -/

theorem readNullable_some {align size : Nat} (ha : 0 < align) {bs : List UInt8}
    (hbs : bs.length = size) : Reads B d (Reader.readNullable align size)
      (Writer.nullableBuffer align size (some bs)) (some bs) := by
  have hsize := size_le_nullableSize ha size
  have hlen : (Writer.nullableBuffer align size (some bs)).length = nullableSize align size := by
    rw [nullableBuffer_some ha hbs]
    simp [hbs]
    omega
  refine (takeBytes_of_length hlen).andThen ?_
  have hhead : (Writer.nullableBuffer align size (some bs)).headD 0 = 1 := by
    rw [nullableBuffer_some ha hbs]
    rfl
  have hvalue : ((Writer.nullableBuffer align size (some bs)).drop align).take size = bs := by
    obtain ⟨a, rfl⟩ : ∃ a, align = a + 1 := ⟨align - 1, by omega⟩
    rw [nullableBuffer_some ha hbs, List.drop_succ_cons, Nat.add_sub_cancel,
      List.drop_left' List.length_replicate, List.take_left' hbs]
  show Reads B d (if _ then _ else _) [] _
  rw [if_neg (by rw [hhead]; decide), hvalue]
  exact pure _

theorem readNullable_none {align size : Nat} (ha : 0 < align) :
    Reads B d (Reader.readNullable align size) (Writer.nullableBuffer align size none) none := by
  have hsize := size_le_nullableSize ha size
  have hlen : (Writer.nullableBuffer align size none).length = nullableSize align size := by
    rw [nullableBuffer_none ha, List.length_cons, List.length_replicate]
    omega
  refine (takeBytes_of_length hlen).andThen ?_
  show Reads B d (if _ then _ else _) [] _
  rw [if_pos (by rw [nullableBuffer_none ha]; rfl)]
  exact pure _

theorem readNullableOf_some (hB : B.endian = .little) {S : Schema} {t : Ty} {v : Val}
    (hnull : wireNullEncoding t = .nullableValue) (h : Encodable S t v) :
    Reads B d (Reader.readNullableOf t) (encodeNullable t (some v)) (.some v) := by
  cases t <;> simp [wireNullEncoding] at hnull
  · next s =>
      obtain ⟨n, rfl, hn⟩ := encodable_scalar h
      have hread := readNullable_some (B := B) (d := d) s.size_pos (length_leBytes s.size n)
      refine hread.andThen (host ?_)
      show Reads B d (Pure.pure (Val.some (.scalar
        (endianConvertOf B s (hostNat B.endian (leBytes s.size n)))))) [] _
      have hmem : hostNat B.endian (leBytes s.size n) = n := by
        rw [hB]
        exact leNat_leBytes hn.lt
      rw [endianConvertOf_little hB s, hmem]
      exact pure _
  · next u =>
      cases v with
      | bytes bs =>
          rw [Encodable] at h
          exact (readNullable_some u.align_pos h).andThen (pure _)
      | _ => simp [Encodable] at h

theorem readNullableOf_none {t : Ty} (hnull : wireNullEncoding t = .nullableValue) :
    Reads B d (Reader.readNullableOf t) (encodeNullable t none) .none := by
  cases t <;> simp [wireNullEncoding] at hnull
  · next s => exact (readNullable_none s.size_pos).andThen (pure _)
  · next u => exact (readNullable_none u.align_pos).andThen (pure _)

section Nulls

variable {payload : ReadM Val} {bs : List UInt8} {v : Val}

theorem nullObjectDeserialize_some (hne : bs ≠ []) (hnull : ¬ StartsNull bs)
    (h : Reads B d payload bs v) :
    Reads B d (Reader.nullObjectDeserialize payload) bs (.some v) := by
  refine still (a := false) ?_ ((h.map Val.some) : Reads B d (do return Val.some (← payload)) _ _)
  intro r s hr hrest
  cases bs with
  | nil => exact absurd rfl hne
  | cons b bs =>
      have hpeek := Reader.peekIsNull_ok (B := B) (r := r)
        (Nat.le_trans (Nat.le_add_left 1 bs.length) (CanRead.le_remaining hrest))
      have hb : ¬ b = nullObject := fun hb => hnull (congrArg some hb)
      have hfalse : decide (r.rest.headD 0 = nullObject) = false := by
        rw [hrest]
        exact decide_eq_false hb
      rw [hfalse] at hpeek
      exact ⟨_, hpeek⟩

theorem nullObjectDeserialize_none :
    Reads B d (Reader.nullObjectDeserialize payload) [nullObject] .none := by
  refine still (a := true) ?_ ((readByte nullObject).andThen (pure _))
  intro r s hr hrest
  have hpeek := Reader.peekIsNull_ok (B := B) (CanRead.le_remaining hrest)
  rw [hrest] at hpeek
  exact ⟨_, hpeek⟩

/-- The header of a collection, seen by the null test. -/
theorem nullCollectionTest_header {i : Int} (h₁ : -2 ^ 31 ≤ i) (h₂ : i < 2 ^ 31)
    {r : MemoryPackReader} {s : List UInt8} (hr : CanRead B d r)
    (hrest : r.rest = le32 i ++ bs ++ s) :
    ∃ l, Reader.nullCollectionTest B r = ⟨.ret (i = nullCollection), r, l⟩ := by
  have h4 : 4 ≤ r.remaining := by
    have hle := CanRead.le_remaining hrest
    rw [List.length_append, length_le32] at hle
    omega
  have hhead : asInt32 (leNat (r.rest.take 4)) = i := by
    rw [hrest, List.append_assoc, List.take_left' (length_le32 i)]
    unfold le32
    rw [leNat_leBytes (int32Bits_lt i), asInt32_int32Bits h₁ h₂]
  have htest := Reader.nullCollectionTest_ok (B := B) hr.error h4
  rw [hhead] at htest
  exact ⟨_, htest⟩

/-- A length is no null header. -/
theorem nullCollectionTest_length {n : Nat} (hn : n ≤ maxLength) {r : MemoryPackReader}
    {s : List UInt8} (hr : CanRead B d r) (hrest : r.rest = le32 n ++ bs ++ s) :
    ∃ l, Reader.nullCollectionTest B r = ⟨.ret false, r, l⟩ := by
  have hlt : (n : Int) < 2 ^ 31 := by
    unfold maxLength at hn
    omega
  have hne : decide ((n : Int) = nullCollection) = false := by
    apply decide_eq_false
    unfold nullCollection
    omega
  obtain ⟨l, htest⟩ := nullCollectionTest_header (by omega) hlt hr hrest
  rw [hne] at htest
  exact ⟨l, htest⟩

/-- What follows a collection header that is not -1. -/
theorem nullCollectionDeserialize_some {n : Nat} (hn : n ≤ maxLength)
    (h : Reads B d payload (le32 n ++ bs) v) :
    Reads B d (Reader.nullCollectionDeserialize payload) (le32 n ++ bs) (.some v) := by
  rw [Reader.nullCollectionDeserialize_eq]
  refine still (a := false) ?_ ((h.map Val.some) : Reads B d (do return Val.some (← payload)) _ _)
  intro r s hr hrest
  exact nullCollectionTest_length hn hr hrest

theorem nullCollectionDeserialize_none :
    Reads B d (Reader.nullCollectionDeserialize payload) (le32 nullCollection) .none := by
  rw [Reader.nullCollectionDeserialize_eq]
  refine still (a := true) ?_ ((advance (length_le32 nullCollection)).andThen (pure _))
  intro r s hr hrest
  rw [← List.append_nil (le32 nullCollection)] at hrest
  exact nullCollectionTest_header (by decide) (by decide) hr hrest

end Nulls

/-- The types whose null is a collection header of -1 have a length in that place. -/
theorem encode_counted {S : Schema} {t : Ty} {v : Val} (h : Encodable S t v)
    (hnull : wireNullEncoding t = .collection ∨ t = .u16string) :
    ∃ n bs, n ≤ maxLength ∧ encode S t v = le32 (n : Nat) ++ bs := by
  have hcounted : ∀ {t : Ty} {vs : List Val}, vs.length ≤ maxLength →
      ∃ n bs, n ≤ maxLength ∧ encodeCounted (encodeEach S t vs) = le32 (n : Nat) ++ bs := by
    intro t vs hlen
    refine ⟨vs.length, (encodeEach S t vs).flatten, hlen, ?_⟩
    rw [encodeCounted, encodeEach_eq, List.length_map]
  cases t <;> simp [wireNullEncoding] at hnull <;> cases v <;> simp [Encodable] at h
  · exact ⟨_, _, h.2, rfl⟩
  · exact hcounted h.1
  · exact hcounted h.1
  · exact hcounted h.1
  · exact hcounted h.1

theorem eq_string {t : Ty} (h : wireNullEncoding t = .string) (hu : t ≠ .u16string) :
    t = .string := by
  cases t <;> simp [wireNullEncoding] at h hu ⊢

theorem optionalDeserialize_some (hB : B.endian = .little) {S : Schema} {t : Ty} {v : Val} {payload : ReadM Val}
    (h : Encodable S t v) (hnull : wireNullEncoding t = .object → ¬ StartsNull (encode S t v))
    (hv : wireNullEncoding t ≠ .nullableValue → Reads B d payload (encode S t v) v) :
    Reads B d (Reader.optionalDeserialize t payload) (encode S (.optional t) (.some v))
      (.some v) := by
  rw [encode]
  unfold Reader.optionalDeserialize
  split
  · next hk =>
      rw [hk]
      exact readNullableOf_some hB hk h
  · next hk =>
      rw [hk]
      obtain ⟨n, bs, hn, heq⟩ := encode_counted h (.inr rfl)
      have hv' := hv (by decide)
      show Reads B d _ (encode S .u16string v) _
      rw [heq] at hv' ⊢
      exact nullCollectionDeserialize_some hn hv'
  · next hu hk =>
      obtain rfl := eq_string hk hu
      cases v with
      | bytes bs => exact (readString h).andThen (pure _)
      | _ => simp [Encodable] at h
  · next hk =>
      rw [hk]
      obtain ⟨n, bs, hn, heq⟩ := encode_counted h (.inl hk)
      have hv' := hv (by rw [hk]; decide)
      show Reads B d _ (encode S _ v) _
      rw [heq] at hv' ⊢
      exact nullCollectionDeserialize_some hn hv'
  · next hk =>
      rw [hk]
      exact nullObjectDeserialize_some (encode_ne_nil h) (hnull hk) (hv (by rw [hk]; decide))

theorem optionalDeserialize_none {t : Ty} {payload : ReadM Val} :
    Reads B d (Reader.optionalDeserialize t payload) (encodeNull t) .none := by
  unfold Reader.optionalDeserialize encodeNull
  split
  · next hk =>
      rw [hk]
      exact readNullableOf_none hk
  · next hk =>
      rw [hk]
      exact nullCollectionDeserialize_none
  · next hk =>
      rw [hk]
      exact readString_null.andThen (pure _)
  · next hk =>
      rw [hk]
      exact nullCollectionDeserialize_none
  · next hk =>
      rw [hk]
      exact nullObjectDeserialize_none

/-! ## Tuples, unions, objects -/

section Members

variable {S : Schema} {named : Nat → Val → ReadM Val}

/-- `ReadTupleImpl`, when every item was sent. -/
theorem readItems {count : Nat} : ∀ {ts : List Ty} {vs : List Val} (i : Nat),
    i + ts.length ≤ count → ts.length = vs.length →
    (∀ t v, (t, v) ∈ ts.zip vs → Reads B d (Reader.readTy S named t (S.init t)) (encode S t v) v) →
    Reads B d (Reader.readItems S named count i ts) (encodeMembers S ts vs).flatten vs
  | [], [], _, _, _, _ => by
      rw [Reader.readItems]
      exact pure _
  | t :: ts, v :: vs, i, hcount, hlen, h => by
      rw [List.length_cons] at hcount
      have hi : i < count := by omega
      have hv := h t v List.mem_cons_self
      have hcount' : i + 1 + ts.length ≤ count := by omega
      have hvs := readItems (i + 1) hcount' (Nat.succ.inj hlen)
        fun t' v' hm => h t' v' (List.mem_cons_of_mem _ hm)
      rw [Reader.readItems, encodeMembers, List.flatten_cons, if_pos hi]
      exact hv.bind (hvs.map fun vs => v :: vs)

/-- `MEMORYPACK_DETAIL_READ_MEMBER` for each member, when every member was sent. -/
theorem readMembers {read : Ty → Val → ReadM Val} {count : Nat} :
    ∀ {ts : List Ty} {vs old : List Val} (i : Nat), i + ts.length ≤ count →
    ts.length = vs.length → ShapedMembers S ts old →
    (∀ t v, (t, v) ∈ ts.zip vs → ∀ v₀, Shaped S t v₀ → Reads B d (read t v₀) (encode S t v) v) →
    Reads B d (Reader.readMembers S read count i ts old) (encodeMembers S ts vs).flatten vs
  | [], [], _, _, _, _, _, _ => by
      rw [Reader.readMembers]
      exact pure _
  | t :: ts, v :: vs, old, i, hcount, hlen, hold, h => by
      rw [List.length_cons] at hcount
      have hi : count > i := by omega
      have hv := h t v List.mem_cons_self _ hold.head
      have hcount' : i + 1 + ts.length ≤ count := by omega
      have hvs := readMembers (i + 1) hcount' (Nat.succ.inj hlen) hold.tail
        fun t' v' hm => h t' v' (List.mem_cons_of_mem _ hm)
      rw [Reader.readMembers, encodeMembers, List.flatten_cons, if_pos hi]
      exact hv.bind (hvs.map fun vs => v :: vs)

/-- One level of object nesting around the members. -/
theorem objectBody {v : Val} {members : ReadM (List Val)} {bs : List UInt8} {vs : List Val}
    (h : Reads B d members bs vs) :
    Reads B (d + 1) (Reader.objectBody v members) bs (.seq vs) := by
  intro r s hr hrest
  have hdepth := hr.depth
  have hmax := r.options.maxDepth.toNat_lt
  have hnext : (r.depth + 1).toNat = r.depth.toNat + 1 := by
    rw [UInt32.toNat_add]
    exact Nat.mod_eq_of_lt (by show r.depth.toNat + 1 < _; omega)
  have hopen : ¬ r.depth + 1 > r.options.maxDepth := by
    rw [gt_iff_lt, UInt32.lt_iff_toNat_lt, hnext]
    omega
  have hr' : CanRead B d r.entered := by
    refine ⟨hr.error, hr.pos_le, hr.size_lt, hr.collections, hr.strings, ?_⟩
    show (r.depth + 1).toNat + d ≤ r.options.maxDepth.toNat
    omega
  obtain ⟨l, hrun⟩ := h r.entered s hr' hrest
  have hback : ({ r.entered with pos := r.entered.pos + bs.length } : MemoryPackReader).left =
      { r with pos := r.pos + bs.length } := by
    have hpos : r.depth + 1 > 0 := by
      rw [gt_iff_lt, UInt32.lt_iff_toNat_lt, hnext]
      exact Nat.succ_pos _
    have hsub : r.depth + 1 - 1 = r.depth := UInt32.add_sub_cancel _ _
    simp [MemoryPackReader.left, MemoryPackReader.entered, hpos, hsub]
  rw [Reader.objectBody_open hopen, hrun, Res.bind_ret, hback]
  exact ⟨_, rfl⟩

/-- `ReadUnionAlternative` finds the alternative that was written. -/
theorem readAlternative {t : Ty} {v : Val} {bs : List UInt8}
    (h : Reads B d (Reader.readTy S named t (S.init t)) bs v) :
    ∀ {tags : List UInt16} {ts : List Ty} (i j : Nat), tags.Nodup → tags.length = ts.length →
      ts[i]? = some t →
      Reads B d (Reader.readAlternative S named (tags.getD i 0) j tags ts) bs
        (some (.alt (j + i) v))
  | [], [], _, _, _, _, ht => by simp at ht
  | g :: gs, u :: us, 0, j, _, _, ht => by
      obtain rfl : u = t := by simpa using ht
      rw [Reader.readAlternative, if_neg (by simp)]
      exact h.map fun w => some (Val.alt j w)
  | g :: gs, u :: us, i + 1, j, hnodup, hlen, ht => by
      have ht' : us[i]? = some t := by simpa using ht
      have hi : i < gs.length := by
        have := (List.getElem?_eq_some_iff.mp ht').1
        rw [List.length_cons, List.length_cons] at hlen
        omega
      obtain ⟨hg, hgs⟩ := List.nodup_cons.mp hnodup
      have hne : g ≠ gs.getD i 0 := by
        intro heq
        apply hg
        rw [heq, List.getD_eq_getElem?_getD, List.getElem?_eq_getElem hi]
        exact List.getElem_mem hi
      have hrec := readAlternative h i (j + 1) hgs (Nat.succ.inj hlen) ht'
      rw [Reader.readAlternative, List.getD_cons_succ, if_pos hne, ← Nat.add_assoc,
        Nat.add_right_comm]
      exact hrec

end Members

/-! ## `VersionTolerant` objects -/

section VersionTolerant

variable {S : Schema} {read : Ty → Val → ReadM Val} {base : Nat} {bss : List (List UInt8)}
  {r : MemoryPackReader} {s : List UInt8}

theorem spans (hr : CanRead B d { r with pos := base })
    (hrest : ({ r with pos := base } : MemoryPackReader).rest = bss.flatten ++ s) (pos : Nat) :
    VersionTolerantReader.Spans B base bss { r with pos := pos } := by
  have hle : bss.flatten.length ≤ r.size - base := CanRead.le_remaining hrest
  have hpos : base ≤ r.size := hr.pos_le
  refine ⟨hr.error, ?_, hr.size_lt⟩
  show base + bss.flatten.length ≤ r.size
  omega

/-- The input from the `i`-th member on. -/
theorem rest_member (hrest : ({ r with pos := base } : MemoryPackReader).rest = bss.flatten ++ s)
    (i : Nat) :
    ({ r with pos := base + (bss.take i).flatten.length } : MemoryPackReader).rest =
      (bss.drop i).flatten ++ s := by
  have hsplit : bss.flatten ++ s = (bss.take i).flatten ++ ((bss.drop i).flatten ++ s) := by
    rw [← List.append_assoc, ← List.flatten_append, List.take_append_drop]
  rw [hsplit] at hrest
  exact CanRead.rest_move hrest

theorem canRead_member (hr : CanRead B d { r with pos := base })
    (hrest : ({ r with pos := base } : MemoryPackReader).rest = bss.flatten ++ s) (i : Nat) :
    CanRead B d { r with pos := base + (bss.take i).flatten.length } := by
  have hfits := (spans hr hrest base).fits
  have hle := VersionTolerantReader.length_take_flatten_le bss i
  refine ⟨hr.error, ?_, hr.size_lt, hr.collections, hr.strings, hr.depth⟩
  show base + (bss.take i).flatten.length ≤ r.size
  exact Nat.le_trans (by omega) hfits

/-- One `ReadMember` for each member that was sent. -/
theorem versionTolerantMembers (hr : CanRead B d { r with pos := base })
    (hrest : ({ r with pos := base } : MemoryPackReader).rest = bss.flatten ++ s) :
    ∀ {ts : List Ty} {vs old : List Val} (vt : VersionTolerantReader) (pos : Nat),
    vt.At base bss → encodeMembers S ts vs = bss.drop vt.index → ts.length = vs.length →
    ShapedMembers S ts old →
    (∀ t v, (t, v) ∈ ts.zip vs → ∀ v₀, Shaped S t v₀ → Reads B d (read t v₀) (encode S t v) v) →
    ∃ l pos' vt', VersionTolerantReader.readMembers S read ts old vt B { r with pos := pos } =
        ⟨.ret (vs, vt'), { r with pos := pos' }, l⟩ ∧ vt'.At base bss ∧
      vt'.index = vt.index + ts.length
  | [], [], _, vt, pos, hat, _, _, _, _ => ⟨[], pos, vt, rfl, hat, rfl⟩
  | t :: ts, v :: vs, old, vt, pos, hat, hbss, hlen, hold, h => by
      rw [encodeMembers] at hbss
      have hi : vt.index < bss.length := by
        by_contra hge
        rw [List.drop_eq_nil_of_le (by omega)] at hbss
        exact List.cons_ne_nil _ _ hbss
      obtain ⟨hv, hvs⟩ := List.cons_eq_cons.mp (hbss.trans (List.drop_eq_getElem_cons hi))
      have hrest' := rest_member hrest vt.index
      rw [← hbss, List.flatten_cons, List.append_assoc, ← hat.next] at hrest'
      have hr' := canRead_member hr hrest vt.index
      rw [← hat.next] at hr'
      obtain ⟨l, hread⟩ := h t v List.mem_cons_self _ hold.head _ _ hr' hrest'
      obtain ⟨l₁, hmember⟩ := VersionTolerantReader.readMember_at hat (spans hr hrest pos) hi hread
      obtain ⟨l₂, pos', vt', hrun, hat', hindex⟩ := versionTolerantMembers hr hrest (vt.moved base bss)
        (vt.moved base bss).next hat.moved hvs (Nat.succ.inj hlen) hold.tail
        fun t' v' hm => h t' v' (List.mem_cons_of_mem _ hm)
      refine ⟨l₁ ++ l₂, pos', vt', ?_, hat', ?_⟩
      · simp only [VersionTolerantReader.readMembers, Prog.bind_apply, hmember, Res.bind_ret, hrun,
          Bool.not_true, Bool.false_eq_true, if_false, Prog.pure_apply, Res.after_mk,
          List.append_nil]
      · rw [hindex, List.length_cons]
        show vt.index + 1 + ts.length = _
        omega

theorem versionTolerant {i : Nat} {vs : List Val} {v₀ : Val}
    (hty : EncodableMembers S (S.decl i).members vs) (hcount : (S.decl i).members.length ≤ 249)
    (hlengths : ∀ bs ∈ encodeMembers S (S.decl i).members vs, bs.length < 2 ^ 32)
    (hv₀ : Shaped S (.object i) v₀)
    (h : ∀ t v, (t, v) ∈ (S.decl i).members.zip vs → ∀ v₀, Shaped S t v₀ →
      Reads B d (read t v₀) (encode S t v) v) :
    Reads B d (VersionTolerantReader.deserialize S read i v₀)
      (encodeVersionTolerant (encodeMembers S (S.decl i).members vs)) (.seq vs) := by
  intro r s hr hrest
  have hlength := length_encodeMembers hty
  obtain ⟨l, base, vt, hconstruct, hat, hindex, hr', hrest', hend⟩ :=
    VersionTolerantReader.construct_at (hlength ▸ hcount) hlengths hr hrest
  obtain ⟨l₁, pos, vt', hmembers, hat', hindex'⟩ := versionTolerantMembers hr' hrest' vt base hat
    (by rw [hindex, List.drop_zero]) hty.length_eq hv₀.items h
  obtain ⟨l₂, vt'', hfinish⟩ := VersionTolerantReader.finish_at hat' (spans hr' hrest' pos)
    (by rw [hindex', hindex, hlength, Nat.zero_add])
  refine ⟨l ++ (l₁ ++ l₂), ?_⟩
  rw [hend]
  simp only [VersionTolerantReader.deserialize, Prog.bind_apply, hconstruct, Res.bind_ret,
    hat.isNull, Bool.false_eq_true, if_false, hmembers, hfinish, Prog.pure_apply, Res.after_mk,
    List.append_nil]

end VersionTolerant

end Reads

theorem toNat_ofNat_count {n : Nat} (h : n ≤ 249) : (UInt8.ofNat n).toNat = n := by
  rw [UInt8.toNat_ofNat']
  omega

/-! ## Parts of a value -/

section Parts

variable {S : Schema} {t : Ty} {ts : List Ty} {v : Val} {vs : List Val}

theorem recoverableEach_iff : ∀ {vs : List Val},
    RecoverableEach S t vs ↔ ∀ v ∈ vs, Recoverable S t v
  | [] => by simp [RecoverableEach]
  | v :: vs => by rw [RecoverableEach, recoverableEach_iff, List.forall_mem_cons]

theorem nest_le_nestEach : ∀ {vs : List Val}, v ∈ vs → nest S t v ≤ nestEach S t vs
  | u :: us, h => by
      rw [nestEach]
      rcases List.mem_cons.mp h with rfl | h
      · exact Nat.le_max_left _ _
      · exact Nat.le_trans (nest_le_nestEach h) (Nat.le_max_right _ _)

theorem length_le_encodeCounted (h : v ∈ vs) :
    (encode S t v).length ≤ (encodeCounted (encodeEach S t vs)).length := by
  have hmem : encode S t v ∈ encodeEach S t vs := by
    rw [encodeEach_eq]
    exact List.mem_map_of_mem h
  rw [encodeCounted, List.length_append]
  exact Nat.le_trans (List.sublist_flatten_of_mem hmem).length_le (Nat.le_add_left _ _)

/-- What is known of the members of an object or tuple, for each of them. -/
theorem members_of_zip : ∀ {ts : List Ty} {vs : List Val}, EncodableMembers S ts vs →
    RecoverableMembers S ts vs → (t, v) ∈ ts.zip vs →
    Encodable S t v ∧ Recoverable S t v ∧ nest S t v ≤ nestMembers S ts vs ∧
      (encode S t v).length ≤ (encodeMembers S ts vs).flatten.length
  | u :: us, w :: ws, hty, hrec, h => by
      rw [EncodableMembers] at hty
      rw [RecoverableMembers] at hrec
      rw [nestMembers, encodeMembers, List.flatten_cons, List.length_append]
      rcases List.mem_cons.mp h with heq | h
      · obtain ⟨rfl, rfl⟩ := Prod.mk.inj heq
        exact ⟨hty.1, hrec.1, Nat.le_max_left _ _, Nat.le_add_right _ _⟩
      · obtain ⟨h₁, h₂, h₃, h₄⟩ := members_of_zip hty.2 hrec.2 h
        exact ⟨h₁, h₂, Nat.le_trans h₃ (Nat.le_max_right _ _),
          Nat.le_trans h₄ (Nat.le_add_left _ _)⟩

end Parts

namespace Reads

variable {B : Build} {S : Schema}

/-- `Read<T>` of a value behind its encoding. The induction is on the value. -/
theorem readTy (hB : B.endian = .little) (hS : S.Shaped) (v : Val) : ∀ (fuel : Nat) (t : Ty) (v₀ : Val), Shaped S t v₀ →
    Encodable S t v → Recoverable S t v → (encode S t v).length ≤ fuel →
    Reads B (nest S t v) (Reader.readTy S (Reader.readObject S fuel) t v₀) (encode S t v) v := by
  -- the dispatch on the .NET value types does not depend on the kind of value
  have hdotNet : ∀ {v : Val} {k : DotNet} {fuel : Nat} {v₀ : Val}, Encodable S (.dotNet k) v →
      Reads B (nest S (.dotNet k) v)
        (Reader.readTy S (Reader.readObject S fuel) (.dotNet k) v₀) (encode S (.dotNet k) v) v := by
    intro v k fuel v₀ h
    have hread := dotNetDeserialize (B := B) (d := nest S (.dotNet k) v)
      (show k.Holds v by cases v <;> exact h)
    cases v <;> exact hread
  induction v with
  | scalar n =>
      intro fuel t v₀ hv₀ hty hrec hfuel
      cases t with
      | scalar s => exact (readScalar hty).map Val.scalar
      | dotNet k => exact hdotNet hty
      | _ => simp [Encodable] at hty
  | bytes bs =>
      intro fuel t v₀ hv₀ hty hrec hfuel
      cases t with
      | string => exact (readString hty).map fun o => Val.bytes (o.getD [])
      | unmanaged u =>
          rw [Encodable] at hty
          rw [Recoverable] at hrec
          rw [encode, hrec]
          exact (readUnmanaged hty).map Val.bytes
      | dotNet k => exact hdotNet hty
      | _ => simp [Encodable] at hty
  | units us =>
      intro fuel t v₀ hv₀ hty hrec hfuel
      cases t with
      | u16string =>
          rw [Encodable] at hty
          have h := (readString_utf16 (B := B) (d := 0) hty.2).map fun o =>
            Val.units (utf8ToUtf16 (o.getD []))
          rw [Option.getD_some, utf8ToUtf16_utf16 hty.1] at h
          exact h
      | dotNet k => exact hdotNet hty
      | _ => simp [Encodable] at hty
  | pair x y hx hy =>
      intro fuel t v₀ hv₀ hty hrec hfuel
      cases t with
      | pair a b =>
          rw [Encodable] at hty
          rw [Recoverable] at hrec
          rw [encode] at hfuel ⊢
          rw [nest]
          rw [List.length_append] at hfuel
          cases v₀ with
          | pair x₀ y₀ =>
              rw [Shaped] at hv₀
              have h₁ := (hx fuel a x₀ hv₀.1 hty.1 hrec.1 (by omega)).shallow
                (Nat.le_max_left _ (nest S b y))
              have h₂ := (hy fuel b y₀ hv₀.2 hty.2 hrec.2 (by omega)).shallow
                (Nat.le_max_right (nest S a x) _)
              exact h₁.bind (h₂.map fun y => Val.pair x y)
          | _ => simp [Shaped] at hv₀
      | dotNet k => exact hdotNet hty
      | _ => simp [Encodable] at hty
  | none =>
      intro fuel t v₀ hv₀ hty hrec hfuel
      cases t with
      | optional t =>
          rw [encode]
          exact optionalDeserialize_none
      | pointer p t => exact nullObjectDeserialize_none
      | dotNet k => exact hdotNet hty
      | _ => simp [Encodable] at hty
  | some v ih =>
      intro fuel t v₀ hv₀ hty hrec hfuel
      cases t with
      | optional t =>
          rw [Encodable] at hty
          rw [Recoverable] at hrec
          refine optionalDeserialize_some hB hty hrec.2 fun hk => ih fuel t _ (hS.init t) hty (hrec.1 hk) ?_
          rw [encode] at hfuel
          cases hkind : wireNullEncoding t <;> simp only [hkind] at hfuel
          · exact hfuel
          · exact hfuel
          · exact hfuel
          · exact absurd hkind hk
      | pointer p t =>
          rw [Encodable] at hty
          rw [Recoverable] at hrec
          rw [encode] at hfuel ⊢
          exact nullObjectDeserialize_some (encode_ne_nil hty) hrec.2
            (ih fuel t _ (hS.init t) hty hrec.1 hfuel)
      | dotNet k => exact hdotNet hty
      | _ => simp [Encodable] at hty
  | alt i v ih =>
      intro fuel t v₀ hv₀ hty hrec hfuel
      cases t with
      | variant tags ts =>
          rw [Encodable] at hty
          rw [Recoverable] at hrec
          rw [encode] at hfuel ⊢
          rw [List.length_append] at hfuel
          obtain ⟨⟨hnodup, hlen, hi⟩, hty⟩ := hty
          have hget : ts[i]? = some (ts.getD i .string) := by
            rw [List.getD_eq_getElem?_getD, List.getElem?_eq_getElem hi]
            rfl
          have hv := ih fuel _ _ (hS.init _) hty hrec (by omega)
          have halt := readAlternative hv i 0 hnodup hlen hget
          rw [Nat.zero_add] at halt
          exact (readUnionHeader _).bind (halt.andThen (pure _))
      | dotNet k => exact hdotNet hty
      | _ => simp [Encodable] at hty
  | seq vs ih =>
      intro fuel t v₀ hv₀ hty hrec hfuel
      have hparts : ∀ {t : Ty}, (∀ v ∈ vs, Encodable S t v) → RecoverableEach S t vs →
          (encodeCounted (encodeEach S t vs)).length ≤ fuel → ∀ v ∈ vs,
          Reads B (nestEach S t vs)
            (Reader.readTy S (Reader.readObject S fuel) t (S.init t)) (encode S t v) v := by
        intro t hty hrec hfuel v hv
        exact (ih v hv fuel t _ (hS.init t) (hty v hv) (recoverableEach_iff.mp hrec v hv)
          (Nat.le_trans (length_le_encodeCounted hv) hfuel)).shallow (nest_le_nestEach hv)
      have hzip : ∀ {ts : List Ty} (fuel : Nat), EncodableMembers S ts vs →
          RecoverableMembers S ts vs → (encodeMembers S ts vs).flatten.length ≤ fuel →
          ∀ t v, (t, v) ∈ ts.zip vs → ∀ v₀, Shaped S t v₀ → Reads B (nestMembers S ts vs)
            (Reader.readTy S (Reader.readObject S fuel) t v₀) (encode S t v) v := by
        intro ts fuel hty hrec hfuel t v hm v₀ hv₀
        obtain ⟨h₁, h₂, h₃, h₄⟩ := members_of_zip hty hrec hm
        exact (ih v (List.of_mem_zip hm).2 fuel t v₀ hv₀ h₁ h₂ (Nat.le_trans h₄ hfuel)).shallow h₃
      cases t with
      | vector t =>
          rw [Encodable, encodableEach_iff] at hty
          rw [Recoverable] at hrec
          rw [encode] at hfuel ⊢
          exact (readCollection hty.1 hty.2 (hparts hty.2 hrec hfuel)).map Val.seq
      | sequence k t =>
          rw [Encodable, encodableEach_iff] at hty
          rw [Recoverable] at hrec
          rw [encode] at hfuel ⊢
          have h := (elements false true pushBack [] (elementMin_le t) hty.1 hty.2
            (hparts hty.2 hrec hfuel)).map Val.seq
          rw [foldl_pushBack] at h
          exact h
      | array n t =>
          rw [Encodable, encodableEach_iff] at hty
          rw [Recoverable] at hrec
          rw [encode] at hfuel ⊢
          obtain ⟨hlen, hty, rfl⟩ := hty
          exact (arrayDeserialize hlen hty (hparts hty hrec hfuel)).map Val.seq
      | set o t =>
          rw [Encodable, encodableEach_iff] at hty
          rw [Recoverable] at hrec
          rw [encode] at hfuel ⊢
          obtain ⟨hlen, hty, hkeys⟩ := hty
          have h := (elements false true (fun ys v => insertKeyed S o t id v ys) []
            (elementMin_le t) hlen hty (hparts hty hrec hfuel)).map Val.seq
          rw [foldl_insertKeyed hkeys] at h
          exact h
      | map o k t =>
          rw [Encodable, encodableEach_iff] at hty
          rw [Recoverable] at hrec
          rw [encode] at hfuel ⊢
          obtain ⟨hlen, hty, hkeys⟩ := hty
          have h := (elements false true (fun ys v => insertKeyed S o k Val.fst v ys) []
            (Nat.add_le_add (elementMin_le k) (elementMin_le t)) hlen hty
            (hparts hty hrec hfuel)).map Val.seq
          rw [foldl_insertKeyed hkeys] at h
          exact h
      | tuple ts =>
          rw [Encodable] at hty
          rw [Recoverable] at hrec
          rw [encode] at hfuel ⊢
          rw [List.length_cons] at hfuel
          have hmembers := hzip fuel hty.2 hrec (by omega)
          have hitems : Reads B (nestMembers S ts vs) (Reader.readItems S (Reader.readObject S fuel)
              (UInt8.ofNat ts.length).toNat 0 ts) (encodeMembers S ts vs).flatten vs :=
            readItems 0 (by rw [Nat.zero_add, toNat_ofNat_count hty.1]) hty.2.length_eq
              fun t v hm => hmembers t v hm _ (hS.init t)
          exact (readObjectHeader (ofNat_le_maxMemberCount hty.1)).bind (hitems.map Val.seq)
      | object i =>
          obtain ⟨fuel, rfl⟩ : ∃ n, fuel = n + 1 := by
            have hpos := List.length_pos_iff.mpr (encode_ne_nil hty)
            exact ⟨fuel - 1, by omega⟩
          rw [Encodable] at hty
          rw [Recoverable] at hrec
          rw [encode] at hfuel ⊢
          rw [nest]
          show Reads B _ (Reader.readObject S (fuel + 1) i v₀) _ _
          cases hkind : (S.decl i).kind with
          | define =>
              simp only [hkind] at hfuel ⊢
              rw [List.length_cons] at hfuel
              have hcount := (S.decl i).count_le hkind
              rw [Reader.readObject_define hkind]
              refine (readObjectHeader (ofNat_le_maxMemberCount hcount)).bind ?_
              exact objectBody (readMembers 0 (by rw [Nat.zero_add, toNat_ofNat_count hcount])
                hty.1.length_eq hv₀.items (hzip fuel hty.1 hrec (by omega)))
          | defineEmpty =>
              simp only
              rw [Reader.readObject_defineEmpty hkind]
              have hempty := (S.decl i).empty hkind
              obtain rfl : vs = [] := by
                rw [hempty] at hty
                exact List.length_eq_zero_iff.mp hty.1.length_eq.symm
              rw [hv₀.eq_empty hempty]
              exact (readObjectHeader (by decide)).andThen (tell _ (pure _))
          | versionTolerant =>
              simp only [hkind] at hfuel ⊢
              rw [Reader.readObject_versionTolerant hkind]
              obtain ⟨hcount, hlengths⟩ := hty.2 hkind
              refine versionTolerant hty.1 hcount hlengths hv₀ (hzip fuel hty.1 hrec ?_)
              rw [encodeVersionTolerant, List.length_cons, List.length_append] at hfuel
              omega
      | dotNet k => exact hdotNet hty
      | _ => simp [Encodable] at hty

end Reads

end MemoryPack
