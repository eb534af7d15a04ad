import MemoryPack.Wire.Encode
import MemoryPack.Writer.Emits
import Mathlib.Data.List.Forall2

/-!
# The writer emits the encoding

`Write<T>` of an encodable value appends exactly `encode`, on both byte orders and
in both builds, and records no error.
-/

namespace MemoryPack

open Effect LittleEndian

namespace Emits

variable {B : Build} {α β : Type} {bs cs ds : List UInt8}

/-- Two parts that record no error, one after the other. -/
theorem seq {m : WriteM α} {f : α → WriteM β} {a : α} {o : Out MemoryPackError β}
    (hm : Emits B m (.ret a) bs .none) (hf : Emits B (f a) o cs .none) (h : ds = bs ++ cs) :
    Emits B (m >>= f) o ds .none := h ▸ hm.bind hf

theorem writeRaw (w n : Nat) : Emits B (Writer.writeRaw w n) (.ret ()) (leBytes w n) .none := by
  refine host ?_
  rw [← hostBytes_endianConvert B.endian]
  exact appendBytes _

theorem writeInt32 (i : Int) : Emits B (Writer.writeRaw 4 (int32Bits i)) (.ret ()) (le32 i) .none :=
  writeRaw 4 _

theorem toInt32Length {size : Nat} (h : size ≤ maxLength) :
    Emits B (Writer.toInt32Length size) (.ret size) [] .none := by
  unfold Writer.toInt32Length
  rw [if_neg (show ¬ size > 0x7FFFFFFF from Nat.not_lt.mpr h)]
  exact pure _

theorem writeObjectHeader {count : UInt8} (h : count ≤ maxMemberCount) :
    Emits B (Writer.writeObjectHeader count) (.ret ()) [count] .none := by
  unfold Writer.writeObjectHeader
  rw [if_neg (UInt8.not_lt.mpr h)]
  exact appendByte count

theorem writeUnionHeader (tag : UInt16) :
    Emits B (Writer.writeUnionHeader tag) (.ret ()) (encodeTag tag) .none := by
  unfold Writer.writeUnionHeader encodeTag
  split
  · exact appendByte _
  · exact (appendByte wideTag).seq (writeRaw _ _) rfl

theorem writeScalar {s : Scalar} {n : Nat} (h : s.Holds n) :
    Emits B (Writer.writeScalar s n) (.ret ()) (encodeScalar s n) .none := by
  cases s with
  | bool => exact appendByte _
  | float => exact writeRaw _ _
  | double => exact writeRaw _ _
  | int signed w =>
      cases w with
      | w1 => exact appendByte _
      | w2 => exact writeRaw _ _
      | w4 => exact writeRaw _ _
      | w8 => exact writeRaw _ _
  | enum signed w => exact writeRaw _ _

theorem writeVarIntLength (n : Nat) :
    Emits B (Writer.writeVarIntLength n) (.ret ()) (encodeVarInt n) .none := by
  unfold Writer.writeVarIntLength encodeVarInt
  split
  · exact appendByte _
  · split
    · exact (appendByte _).seq (writeRaw _ _) rfl
    · exact (appendByte _).seq (writeRaw _ _) rfl

/-! ## Loops -/

/-- Writes one after the other emit their encodings one after the other. -/
theorem runAll {ms : List (WriteM Unit)} {bss : List (List UInt8)}
    (h : List.Forall₂ (fun m bs => Emits B m (.ret ()) bs .none) ms bss) :
    Emits B (Prog.runAll ms) (.ret ()) bss.flatten .none := by
  induction h with
  | nil => exact pure ()
  | cons hm _ ih => exact hm.seq ih List.flatten_cons

theorem runAll_map {γ : Type} {f : γ → WriteM Unit} {g : γ → List UInt8} {xs : List γ}
    (h : ∀ x ∈ xs, Emits B (f x) (.ret ()) (g x) .none) :
    Emits B (Prog.runAll (xs.map f)) (.ret ()) (xs.map g).flatten .none := by
  apply runAll
  rw [List.forall₂_map_left_iff, List.forall₂_map_right_iff, List.forall₂_same]
  exact h

theorem writeCounted {size : Nat} {elements : WriteM Unit} (hsize : size ≤ maxLength)
    (he : Emits B elements (.ret ()) bs .none) :
    Emits B (Writer.writeCounted size elements) (.ret ()) (le32 size ++ bs) .none := by
  refine (toInt32Length hsize).seq ?_ (List.nil_append _).symm
  rw [if_neg (by omega)]
  exact (writeInt32 _).seq he rfl

theorem writeContiguous (w : Nat) (ns : List Nat) :
    Emits B (Writer.writeContiguous w ns) (.ret ()) (ns.map (leBytes w)).flatten .none := by
  unfold Writer.writeContiguous
  split
  · next hlen =>
      rw [List.eq_nil_of_length_eq_zero hlen]
      exact pure ()
  · refine host ?_
    split
    · have hflat : ns.flatMap (hostBytes .little w) = (ns.map (leBytes w)).flatten :=
        List.flatMap_def
      rw [hflat]
      exact appendBytes _
    · exact runAll_map fun n _ => writeRaw w n

/-! ## Strings -/

theorem writeString {s : List UInt8} (h : s.length ≤ maxLength) :
    Emits B (Writer.writeString s) (.ret ()) (encodeString s) .none := by
  unfold Writer.writeString encodeString
  split
  · exact (writeInt32 0).seq (pure ()) (List.append_nil _).symm
  · refine (toInt32Length h).seq ?_ (List.nil_append _).symm
    rw [if_neg (by omega)]
    refine (writeInt32 _).seq ?_ rfl
    exact (writeInt32 _).seq (appendBytes s) rfl

theorem writeStringUtf16 {us : List UInt16} (h : us.length ≤ maxLength) :
    Emits B (Writer.writeStringUtf16 us) (.ret ()) (encodeUtf16 us) .none := by
  unfold Writer.writeStringUtf16 encodeUtf16
  split
  · next hnil =>
      rw [List.isEmpty_iff.mp hnil]
      exact (writeInt32 0).seq (pure ()) rfl
  · refine (toInt32Length h).seq ?_ (List.nil_append _).symm
    rw [if_neg (by omega), List.flatMap_def]
    exact (writeInt32 _).seq (runAll_map fun u _ => writeRaw _ _) rfl

/-! ## .NET value types, nullable values -/

theorem dotNetSerialize {d : DotNet} {v : Val} (h : d.Holds v) :
    Emits B (Writer.dotNetSerialize d v) (.ret ()) (encodeDotNet d v) .none := by
  unfold DotNet.Holds at h
  split at h
  · obtain ⟨h₁, h₂, h₃, -⟩ := h
    refine (writeRaw _ _).seq ?_ rfl
    refine (writeRaw _ _).seq ?_ rfl
    exact (writeRaw _ _).seq (appendBytes _) rfl
  · exact writeRaw _ _
  · exact writeRaw _ _
  · obtain ⟨ho, hd⟩ := h
    refine (writeRaw _ _).seq ?_ rfl
    -- the six padding bytes
    have hpad : Emits B (Prog.runAll ((List.replicate 6 ()).map fun _ => Writer.writeUInt8 0))
        (.ret ()) ((List.replicate 6 ()).map fun _ => [0]).flatten .none :=
      runAll_map fun _ _ => appendByte 0
    exact hpad.seq (writeRaw _ _) rfl
  · exact appendBytes _
  · exact writeRaw _ _
  · exact (writeRaw _ _).seq (writeRaw _ _) rfl
  · exact (writeRaw _ _).seq (writeRaw _ _) rfl
  · exact h.elim

end Emits

namespace Emits

variable {B : Build} {S : Schema}

theorem writeNullableOf (hB : B.endian = .little) (t : Ty) (v : Option Val) :
    Emits B (Writer.writeNullableOf t v) (.ret ()) (encodeNullable t v) .none := by
  cases t with
  | scalar s =>
      refine host ?_
      have hmem : (v.map fun x => hostBytes B.endian s.size
          (endianConvertOf B s x.bits)) = v.map fun x => leBytes s.size x.bits := by
        cases v with
        | none => rfl
        | some x => rw [Option.map_some, Option.map_some, endianConvertOf_little hB, hB, hostBytes]
      show Emits B (Writer.writeNullable s.size s.size (v.map _)) _ _ _
      rw [hmem]
      exact appendBytes _
  | unmanaged u => exact appendBytes _
  | _ => exact pure ()

/-! ## Collections -/

theorem elementWrites {t : Ty} {vs : List Val}
    (h : ∀ v ∈ vs, Emits B (Writer.write S t v) (.ret ()) (encode S t v) .none) :
    Emits B (Prog.runAll (Writer.elementWrites S t vs)) (.ret ()) (encodeEach S t vs).flatten
      .none := by
  rw [Writer.elementWrites_eq, encodeEach_eq]
  exact runAll_map h

/-- The contiguous copy of a range of scalars. -/
theorem writeScalars {s : Scalar} {vs : List Val} (h : ∀ v ∈ vs, Encodable S (.scalar s) v) :
    Emits B (Writer.writeContiguous s.size (vs.map Val.bits)) (.ret ())
      (encodeEach S (.scalar s) vs).flatten .none := by
  rw [encodeEach_scalar h]
  exact writeContiguous s.size _

theorem length_encodeEach (S : Schema) (t : Ty) (vs : List Val) :
    (encodeEach S t vs).length = vs.length := by
  rw [encodeEach_eq, List.length_map]

theorem counted {t : Ty} {vs : List Val} {elements : WriteM Unit} (hlen : vs.length ≤ maxLength)
    (he : Emits B elements (.ret ()) (encodeEach S t vs).flatten .none) :
    Emits B (Writer.writeCounted vs.length elements) (.ret ())
      (encodeCounted (encodeEach S t vs)) .none := by
  unfold encodeCounted
  rw [length_encodeEach]
  exact writeCounted hlen he

variable {t : Ty} {vs : List Val} (hlen : vs.length ≤ maxLength)
  (hty : ∀ v ∈ vs, Encodable S t v)
  (hvs : ∀ v ∈ vs, Emits B (Writer.write S t v) (.ret ()) (encode S t v) .none)

include hlen hvs in
theorem containerSerialize : Emits B (Writer.containerSerialize (Writer.elementWrites S t vs))
    (.ret ()) (encodeCounted (encodeEach S t vs)) .none := by
  unfold Writer.containerSerialize
  rw [Writer.elementWrites_eq, List.length_map, ← Writer.elementWrites_eq]
  exact counted hlen (elementWrites hvs)

include hlen hty hvs in
theorem writeCollectionSpan : Emits B
    (Writer.writeCollectionSpan t vs (Writer.elementWrites S t vs)) (.ret ())
    (encodeCounted (encodeEach S t vs)) .none := by
  apply counted hlen
  split
  · split
    · exact writeScalars hty
    · exact elementWrites hvs
  · exact elementWrites hvs

include hlen hty hvs in
theorem writeCollection : Emits B
    (Writer.writeCollection t vs (Writer.elementWrites S t vs)) (.ret ())
    (encodeCounted (encodeEach S t vs)) .none := by
  apply counted hlen
  split
  · rw [encodeEach_eq]
    refine runAll_map fun v hv => ?_
    obtain ⟨n, rfl, -⟩ := encodable_scalar (hty v hv)
    exact appendByte _
  · split
    · exact writeScalars hty
    · exact elementWrites hvs
  · exact elementWrites hvs

/-! ## VersionTolerant objects -/

/-- What a `VersionTolerantWriter` holds after some members: their bytes one after
the other and the length of each. -/
structure Buffered (vt : VersionTolerantWriter) (members : List (List UInt8)) : Prop where
  inv : vt.body.Inv
  mode : vt.body.mode = .owned
  bytes : vt.body.getSpan = members.flatten
  lengths : vt.lengths = members.map List.length

theorem writeMember {vt : VersionTolerantWriter} {members : List (List UInt8)} {m : WriteM Unit}
    {bs : List UInt8} (h : Buffered vt members) (hm : Emits B m (.ret ()) bs .none)
    (hlen : bs.length < 2 ^ 32) : ∃ vt', VersionTolerantWriter.writeMember B vt m = (vt', none) ∧
      Buffered vt' (members ++ [bs]) := by
  have hfits : vt.body.view.Fits bs.length := by
    unfold AppendList.Fits
    rw [show vt.body.view.mode = .owned from h.mode]
    trivial
  have hinv := hm.inv vt.body h.inv
  obtain ⟨hout, hview⟩ := hm.room vt.body h.inv hfits
  rw [AppendList.record_none] at hview
  unfold VersionTolerantWriter.writeMember
  rcases hres : m B vt.body with ⟨a | c | _, body, l⟩ <;> rw [hres] at hout hinv hview <;>
    cases hout
  have hspan : body.getSpan = vt.body.getSpan ++ bs := congrArg AppendList.bytes hview
  have hsize : body.size - vt.body.size = bs.length := by
    rw [← hinv.length_getSpan, ← h.inv.length_getSpan, hspan, List.length_append]
    omega
  refine ⟨_, rfl, hinv, ?_, ?_, ?_⟩
  · exact (congrArg AppendList.mode hview).trans h.mode
  · show body.getSpan = _
    rw [hspan, h.bytes]
    simp
  · show vt.lengths ++ [(body.size - vt.body.size) % 2 ^ 32] = _
    rw [hsize, Nat.mod_eq_of_lt hlen, h.lengths]
    simp

theorem writeMembers {ms : List (WriteM Unit)} {bss : List (List UInt8)}
    (hms : List.Forall₂ (fun m bs => Emits B m (.ret ()) bs .none) ms bss)
    (hlen : ∀ bs ∈ bss, bs.length < 2 ^ 32) :
    ∀ {vt members}, Buffered vt members → ∃ vt',
      VersionTolerantWriter.writeMembers B vt ms = (vt', none) ∧ Buffered vt' (members ++ bss) := by
  induction hms with
  | nil =>
      intro vt members h
      exact ⟨vt, rfl, by rwa [List.append_nil]⟩
  | @cons m bs ms bss hm _ ih =>
      intro vt members h
      obtain ⟨hbs, hbss⟩ := List.forall_mem_cons.mp hlen
      obtain ⟨vt₁, hone, h₁⟩ := writeMember h hm hbs
      obtain ⟨vt₂, hrest, h₂⟩ := ih hbss h₁
      refine ⟨vt₂, ?_, ?_⟩
      · rw [VersionTolerantWriter.writeMembers, hone]
        exact hrest
      · rwa [List.append_assoc] at h₂

theorem finish {vt : VersionTolerantWriter} {bss : List (List UInt8)} (h : Buffered vt bss)
    (hcount : bss.length ≤ 249) :
    Emits B vt.finish (.ret ()) (encodeVersionTolerant bss) .none := by
  have hlengths : vt.lengths.length = bss.length := by rw [h.lengths, List.length_map]
  unfold VersionTolerantWriter.finish encodeVersionTolerant
  have hle : ¬ bss.length > maxMemberCount.toNat := Nat.not_lt.mpr hcount
  rw [hlengths, if_neg hle, h.lengths, List.map_map, h.bytes,
    List.flatMap_def]
  refine (writeObjectHeader (ofNat_le_maxMemberCount hcount)).seq ?_ rfl
  exact (runAll_map fun bs _ => writeVarIntLength bs.length).seq (appendBytes _) rfl

theorem versionTolerant {ms : List (WriteM Unit)} {bss : List (List UInt8)}
    (hms : List.Forall₂ (fun m bs => Emits B m (.ret ()) bs .none) ms bss)
    (hcount : bss.length ≤ 249) (hlen : ∀ bs ∈ bss, bs.length < 2 ^ 32) :
    Emits B (VersionTolerantWriter.serialize ms) (.ret ()) (encodeVersionTolerant bss) .none := by
  have hempty : Buffered {} [] := ⟨MemoryPackWriter.inv_default, rfl, rfl, rfl⟩
  obtain ⟨vt, hwrite, hvt⟩ := writeMembers hms hlen hempty
  refine host ?_
  rw [hwrite]
  exact (finish hvt hcount).swallow (by simp)

/-! ## `Write<T>` -/

theorem memberWrites : ∀ {ts : List Ty} {vs : List Val}, EncodableMembers S ts vs →
    (∀ v ∈ vs, ∀ t, Encodable S t v →
      Emits B (Writer.write S t v) (.ret ()) (encode S t v) .none) →
    List.Forall₂ (fun m bs => Emits B m (.ret ()) bs .none) (Writer.memberWrites S ts vs)
      (encodeMembers S ts vs)
  | [], [], _, _ => by
      simp [Writer.memberWrites, encodeMembers]
  | t :: ts, v :: vs, h, hvs => by
      rw [EncodableMembers] at h
      rw [Writer.memberWrites, encodeMembers]
      obtain ⟨hv, hrest⟩ := List.forall_mem_cons.mp hvs
      exact .cons (hv t h.1) (memberWrites h.2 hrest)

theorem defineSerialize {ms : List (WriteM Unit)} {bss : List (List UInt8)} {count : Nat}
    (hcount : count ≤ 249)
    (hms : List.Forall₂ (fun m bs => Emits B m (.ret ()) bs .none) ms bss) :
    Emits B (Writer.defineSerialize count ms) (.ret ()) (UInt8.ofNat count :: bss.flatten)
      .none :=
  (writeObjectHeader (ofNat_le_maxMemberCount hcount)).seq (runAll hms) rfl

theorem optionalSerialize (hB : B.endian = .little) {v : Val}
    (hv : Emits B (Writer.write S t v) (.ret ()) (encode S t v) .none) :
    Emits B (Writer.optionalSerialize t (some v) (Writer.write S t v)) (.ret ())
      (encode S (.optional t) (.some v)) .none := by
  rw [encode]
  unfold Writer.optionalSerialize
  cases wireNullEncoding t with
  | nullableValue => exact writeNullableOf hB t (some v)
  | object => exact hv
  | collection => exact hv
  | string => exact hv

theorem optionalSerialize_none (hB : B.endian = .little) :
    Emits B (Writer.optionalSerialize t none (Pure.pure ())) (.ret ()) (encodeNull t) .none := by
  unfold Writer.optionalSerialize encodeNull
  cases wireNullEncoding t with
  | nullableValue => exact writeNullableOf hB t none
  | object => exact appendByte _
  | collection => exact writeInt32 _
  | string => exact writeInt32 _

/-- `Write<T>` emits the encoding. The induction is on the value. -/
theorem write (hB : B.endian = .little) (S : Schema) (v : Val) : ∀ t, Encodable S t v →
    Emits B (Writer.write S t v) (.ret ()) (encode S t v) .none := by
  induction v with
  | scalar n =>
      intro t h
      cases t with
      | scalar s => exact writeScalar h
      | dotNet d => exact dotNetSerialize h
      | _ => simp [Encodable] at h
  | bytes bs =>
      intro t h
      cases t with
      | string => exact writeString h
      | unmanaged u =>
          rw [Writer.write, encode]
          unfold Writer.unmanagedSerialize encodeUnmanaged
          cases u.scrubbed with
          | none => exact appendBytes _
          | some members => exact appendBytes _
      | dotNet d => exact dotNetSerialize h
      | _ => simp [Encodable] at h
  | units us =>
      intro t h
      cases t with
      | u16string =>
          rw [Encodable] at h
          exact writeStringUtf16 h.2
      | dotNet d => exact dotNetSerialize h
      | _ => simp [Encodable] at h
  | seq vs ih =>
      intro t h
      have each : ∀ {t}, EncodableEach S t vs → ∀ v ∈ vs,
          Emits B (Writer.write S t v) (.ret ()) (encode S t v) .none :=
        fun hvs v hv => ih v hv _ (encodableEach_iff.mp hvs v hv)
      cases t with
      | vector t =>
          rw [Encodable] at h
          exact writeCollection h.1 (encodableEach_iff.mp h.2) (each h.2)
      | sequence k t =>
          rw [Encodable] at h
          exact containerSerialize h.1 (each h.2)
      | array n t =>
          rw [Encodable] at h
          exact writeCollectionSpan h.1 (encodableEach_iff.mp h.2.1) (each h.2.1)
      | set o t =>
          rw [Encodable] at h
          exact containerSerialize h.1 (each h.2.1)
      | map o k t =>
          rw [Encodable] at h
          exact containerSerialize h.1 (each h.2.1)
      | tuple ts =>
          rw [Encodable] at h
          have hms := memberWrites (B := B) h.2 fun v hv t ht => ih v hv t ht
          rw [Writer.write, encode]
          unfold Writer.writeTuple
          rw [hms.length_eq, length_encodeMembers h.2]
          exact defineSerialize h.1 hms
      | dotNet d => exact dotNetSerialize h
      | object i =>
          rw [Encodable] at h
          have hms := memberWrites (B := B) h.1 fun v hv t ht => ih v hv t ht
          rw [Writer.write, encode]
          cases hkind : (S.decl i).kind with
          | define => exact defineSerialize ((S.decl i).count_le hkind) hms
          | defineEmpty => exact defineSerialize (Nat.zero_le _) .nil
          | versionTolerant =>
              obtain ⟨hcount, hlen⟩ := h.2 hkind
              refine versionTolerant hms ?_ hlen
              rw [length_encodeMembers h.1]
              exact hcount
      | _ => simp [Encodable] at h
  | pair a b iha ihb =>
      intro t h
      cases t with
      | pair ta tb =>
          rw [Encodable] at h
          exact (iha ta h.1).seq (ihb tb h.2) (by rw [encode])
      | dotNet d => exact dotNetSerialize h
      | _ => simp [Encodable] at h
  | none =>
      intro t h
      cases t with
      | optional t =>
          rw [encode]
          exact optionalSerialize_none hB
      | pointer p t =>
          rw [encode]
          exact appendByte _
      | dotNet d => exact dotNetSerialize h
      | _ => simp [Encodable] at h
  | some v ih =>
      intro t h
      cases t with
      | optional t =>
          rw [Encodable] at h
          exact optionalSerialize hB (ih t h)
      | pointer p t =>
          rw [Encodable] at h
          rw [encode]
          exact ih t h
      | dotNet d => exact dotNetSerialize h
      | _ => simp [Encodable] at h
  | alt i v ih =>
      intro t h
      cases t with
      | variant tags ts =>
          rw [Encodable] at h
          exact (writeUnionHeader _).seq (ih _ h.2) (by rw [encode])
      | dotNet d => exact dotNetSerialize h
      | _ => simp [Encodable] at h

end Emits

end MemoryPack
