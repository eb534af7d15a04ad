import MemoryPack.Reader.Hosts
import MemoryPack.Wire.Packet

/-!
# The wire bytes do not depend on the byte order

Writing on hosts of either byte order, next to `Reader.Hosts`: what a `Write*`
appends, how it ends and which error it records are the same in both builds
(`WritesAlike`), for every value and whatever the buffer. A `VersionTolerantWriter`
buffers its members, so the two private buffers have to be followed as well
(`Twin`).

As for reading, a `std::optional` of a two-byte enum is the exception, and it really
is one: what is written is what an uninitialised variable held.
-/

namespace MemoryPack

open Effect LittleEndian

/-- The program emits the same bytes in both builds, ends alike and records the same
error. -/
def WritesAlike (B B' : Build) {α : Type} (m : WriteM α) : Prop :=
  ∃ o bs e, o ≠ .diverge ∧ Emits B m o bs e ∧ Emits B' m o bs e

namespace WritesAlike

variable {B B' : Build} {α β : Type}

theorem of_emits {m : WriteM α} {a : α} {bs : List UInt8} {e : MemoryPackError}
    (h : Emits B m (.ret a) bs e) (h' : Emits B' m (.ret a) bs e) : WritesAlike B B' m :=
  ⟨_, bs, e, by simp, h, h'⟩

theorem pure (a : α) : WritesAlike B B' (Pure.pure a : WriteM α) :=
  of_emits (Emits.pure a) (Emits.pure a)

theorem bind {m : WriteM α} {f : α → WriteM β} (hm : WritesAlike B B' m)
    (hf : ∀ a, WritesAlike B B' (f a)) : WritesAlike B B' (m >>= f) := by
  obtain ⟨o, bs, e, ho, h, h'⟩ := hm
  cases o with
  | ret a =>
      obtain ⟨o', cs, e', ho', hfa, hfa'⟩ := hf a
      exact ⟨o', _, _, ho', h.bind hfa, h'.bind hfa'⟩
  | throw c => exact ⟨_, bs, e, by simp, h.stop, h'.stop⟩
  | diverge => exact absurd rfl ho

theorem throw (c : MemoryPackError) : WritesAlike B B' (Prog.throw c : WriteM α) :=
  ⟨_, [], .none, by simp, Emits.throw c, Emits.throw c⟩

theorem swallow {m : WriteM Unit} (hm : WritesAlike B B' m) :
    WritesAlike B B' (VersionTolerantWriter.swallow m) := by
  obtain ⟨o, bs, e, ho, h, h'⟩ := hm
  exact of_emits (h.swallow ho) (h'.swallow ho)

theorem appendSteps (h : SameTarget B B') :
    AppendSteps (fun {α} => WritesAlike B B' (α := α)) where
  pure := pure
  bind := bind
  fail := by
    intro code _
    have hsame : Emits.failOut B' code = Emits.failOut B code := by
      rw [Emits.failOut, Emits.failOut, h.exceptions]
    refine ⟨Emits.failOut B code, [], code, ?_, Emits.fail code, hsame ▸ Emits.fail code⟩
    unfold Emits.failOut
    split <;> simp
  appendBytes := fun bs => of_emits (Emits.appendBytes bs) (Emits.appendBytes bs)
  writeRaw := fun w n => of_emits (Emits.writeRaw w n) (Emits.writeRaw w n)

theorem writeNullableOf {t : Ty} (ht : ∀ s, t = .scalar s → s.Converts) (v : Option Val) :
    WritesAlike B B' (Writer.writeNullableOf t v) := by
  cases t with
  | scalar s =>
      -- on either host the value is copied in little-endian order
      have hmem : ∀ B : Build, (v.map fun x => hostBytes B.endian s.size
          (endianConvertOf B s x.bits)) = v.map fun x => leBytes s.size x.bits := by
        intro B
        simp only [endianConvertOf_eq (ht s rfl), hostBytes_endianConvert]
      have hemits : ∀ B : Build, Emits B (Writer.writeNullableOf (.scalar s) v) (.ret ())
          (Writer.nullableBuffer s.size s.size (v.map fun x => leBytes s.size x.bits)) .none := by
        intro B
        refine Emits.host ?_
        rw [← hmem B]
        exact Emits.appendBytes _
      exact of_emits (hemits B) (hemits B')
  | unmanaged u => exact of_emits (Emits.appendBytes _) (Emits.appendBytes _)
  | _ => exact pure ()

/-! ## VersionTolerant objects -/

/-- Two `VersionTolerantWriter`s that hold the same members. -/
structure Twin (vt vt' : VersionTolerantWriter) : Prop where
  inv : vt.body.Inv
  inv' : vt'.body.Inv
  mode : vt.body.mode = .owned
  view : vt.body.view = vt'.body.view
  lengths : vt.lengths = vt'.lengths

theorem Twin.finish_eq {vt vt' : VersionTolerantWriter} (h : Twin vt vt') :
    vt.finish = vt'.finish := by
  have hspan : vt.body.getSpan = vt'.body.getSpan := congrArg AppendList.bytes h.view
  simp only [VersionTolerantWriter.finish, h.lengths, hspan]

theorem Twin.fits {vt vt' : VersionTolerantWriter} (h : Twin vt vt') (n : Nat) :
    vt.body.view.Fits n := by
  unfold AppendList.Fits
  rw [show vt.body.view.mode = .owned from h.mode]
  trivial

/-- One member, in both builds. -/
theorem Twin.writeMember {vt vt' : VersionTolerantWriter} (h : Twin vt vt') {m : WriteM Unit}
    (hm : WritesAlike B B' m) : ∃ vt₁ vt₁' c, VersionTolerantWriter.writeMember B vt m = (vt₁, c) ∧
      VersionTolerantWriter.writeMember B' vt' m = (vt₁', c) ∧ Twin vt₁ vt₁' := by
  obtain ⟨o, bs, e, ho, hemits, hemits'⟩ := hm
  have hinv := hemits.inv vt.body h.inv
  have hinv' := hemits'.inv vt'.body h.inv'
  obtain ⟨hout, hview⟩ := hemits.room vt.body h.inv (h.fits _)
  obtain ⟨hout', hview'⟩ := hemits'.room vt'.body h.inv' (h.view ▸ h.fits _)
  have hsize : vt.body.size = vt'.body.size := by
    rw [← h.inv.length_getSpan, ← h.inv'.length_getSpan]
    exact congrArg List.length (congrArg AppendList.bytes h.view)
  rw [← h.view] at hview'
  unfold VersionTolerantWriter.writeMember
  rcases hres : m B vt.body with ⟨a | c | _, body, l⟩ <;>
    rcases hres' : m B' vt'.body with ⟨a' | c' | _, body', l'⟩ <;>
    rw [hres] at hout hview hinv <;> rw [hres'] at hout' hview' hinv' <;> subst hout <;> cases hout'
  · have hbody : body.size = body'.size := by
      rw [← hinv.length_getSpan, ← hinv'.length_getSpan]
      exact congrArg List.length (congrArg AppendList.bytes (hview.trans hview'.symm))
    refine ⟨_, _, none, rfl, rfl, hinv, hinv', ?_, hview.trans hview'.symm, ?_⟩
    · exact (congrArg AppendList.mode hview).trans h.mode
    · show vt.lengths ++ [(body.size - vt.body.size) % 2 ^ 32] =
        vt'.lengths ++ [(body'.size - vt'.body.size) % 2 ^ 32]
      rw [h.lengths, hbody, hsize]
  · refine ⟨_, _, some c, rfl, rfl, hinv, hinv', ?_, hview.trans hview'.symm, h.lengths⟩
    exact (congrArg AppendList.mode hview).trans h.mode
  · exact absurd rfl ho

theorem Twin.writeMembers : ∀ {ms : List (WriteM Unit)}, (∀ m ∈ ms, WritesAlike B B' m) →
    ∀ {vt vt' : VersionTolerantWriter}, Twin vt vt' → ∃ vt₁ vt₁' c,
      VersionTolerantWriter.writeMembers B vt ms = (vt₁, c) ∧
      VersionTolerantWriter.writeMembers B' vt' ms = (vt₁', c) ∧ Twin vt₁ vt₁'
  | [], _, vt, vt', h => ⟨vt, vt', none, rfl, rfl, h⟩
  | m :: ms, hms, vt, vt', h => by
      obtain ⟨hm, hrest⟩ := List.forall_mem_cons.mp hms
      obtain ⟨vt₁, vt₁', c, hone, hone', h₁⟩ := h.writeMember hm
      rw [VersionTolerantWriter.writeMembers, VersionTolerantWriter.writeMembers, hone, hone']
      cases c with
      | none => exact Twin.writeMembers hrest h₁
      | some c => exact ⟨vt₁, vt₁', some c, rfl, rfl, h₁⟩

theorem versionTolerant (h : SameTarget B B') {members : List (WriteM Unit)}
    (hm : ∀ m ∈ members, WritesAlike B B' m) :
    WritesAlike B B' (VersionTolerantWriter.serialize members) := by
  have hempty : Twin {} {} :=
    ⟨MemoryPackWriter.inv_default, MemoryPackWriter.inv_default, rfl, rfl, rfl⟩
  obtain ⟨vt, vt', c, hrun, hrun', htwin⟩ := Twin.writeMembers hm hempty
  have hfinish : WritesAlike B B' vt.destroy := ((appendSteps h).finish vt).swallow
  have hdestroy : vt'.destroy = vt.destroy := by
    rw [VersionTolerantWriter.destroy, VersionTolerantWriter.destroy, htwin.finish_eq]
  -- what follows the members is one program in both builds
  obtain ⟨o, bs, e, ho, hemits, hemits'⟩ : WritesAlike B B' (match c with
      | none => vt.destroy
      | some code => do vt.destroy; Prog.throw code) := by
    cases c with
    | none => exact hfinish
    | some code => exact bind hfinish fun _ => throw code
  refine ⟨o, bs, e, ho, Emits.host ?_, Emits.host ?_⟩
  · rw [hrun]
    cases c <;> exact hemits
  · rw [hrun']
    cases c with
    | none =>
        rw [← hdestroy] at hemits'
        exact hemits'
    | some code =>
        rw [← hdestroy] at hemits'
        exact hemits'

/-! ## `Write<T>` -/

theorem writeSteps (h : SameTarget B B') : WriteSteps (fun {α} => WritesAlike B B' (α := α))
    (fun u => ∀ s, u = .scalar s → s.Converts) :=
  { appendSteps h with
    writeContiguous := fun w ns => of_emits (Emits.writeContiguous w ns) (Emits.writeContiguous w ns)
    writeNullableOf := writeNullableOf
    versionTolerant := versionTolerant h }

/-- Every value is written alike on both hosts. -/
theorem write (h : SameTarget B B') {S : Schema} (hS : S.Portable) {t : Ty} (ht : t.Portable)
    (v : Val) : WritesAlike B B' (Writer.write S t v) := (writeSteps h).write hS v t ht

end WritesAlike

/-! ## From one host to the other -/

/-- The same target with a little-endian host. -/
def Build.little (B : Build) : Build := { B with endian := .little }

theorem Build.sameTarget_little (B : Build) : SameTarget B B.little := ⟨rfl, rfl⟩

theorem Build.little_eq {B : Build} (h : B.endian = .little) : B.little = B := by
  obtain ⟨exceptions, endian, size, stack⟩ := B
  subst h
  rfl

/-- The host is little-endian, or the types are `Portable`. -/
def Build.Supports (B : Build) (S : Schema) (t : Ty) : Prop :=
  B.endian = .little ∨ S.Portable ∧ t.Portable

section Transfer

variable {S : Schema} {B B' : Build} {t : Ty} {v : Val}

theorem serialize_of_throws {bs : List UInt8} {c e : MemoryPackError}
    (h : Emits B (Writer.write S t v) (.throw c) bs e) : serialize S B t v = .throw c := by
  obtain ⟨hout, -⟩ := h.room {} MemoryPackWriter.inv_default trivial
  unfold serialize
  rw [Prog.bind_apply]
  rcases hres : Writer.write S t v B {} with ⟨a | c' | _, s, l⟩ <;> rw [hres] at hout <;>
    cases hout
  rfl

theorem WritesAlike.serialize_eq (h : WritesAlike B B' (Writer.write S t v)) :
    serialize S B t v = serialize S B' t v := by
  obtain ⟨o, bs, e, ho, hemits, hemits'⟩ := h
  cases o with
  | ret a => rw [serialize_of_emits hemits, serialize_of_emits hemits']
  | throw c => rw [serialize_of_throws hemits, serialize_of_throws hemits']
  | diverge => exact absurd rfl ho

theorem Build.Supports.serialize_eq (h : B.Supports S t) :
    serialize S B t v = serialize S B.little t v := by
  rcases h with hB | ⟨hS, ht⟩
  · rw [Build.little_eq hB]
  · exact (WritesAlike.write B.sameTarget_little hS ht v).serialize_eq

theorem Build.Supports.read_eq (h : B.Supports S t) {r : MemoryPackReader}
    (hr : r.size < B.sizeMod) {o : Out MemoryPackError Val} {r' : MemoryPackReader}
    (hrun : ∃ l, Reader.read S t v B.little r = ⟨o, r', l⟩) :
    ∃ l, Reader.read S t v B r = ⟨o, r', l⟩ := by
  rcases h with hB | ⟨hS, ht⟩
  · rwa [Build.little_eq hB] at hrun
  · obtain ⟨l, hrun⟩ := hrun
    obtain ⟨hout, hst, -⟩ := HostFree.read B.sameTarget_little hS ht v r hr
    rcases hread : Reader.read S t v B r with ⟨o', s', l'⟩
    rw [hread, hrun] at hout hst
    obtain rfl : o' = o := hout
    obtain rfl : s' = r' := hst
    exact ⟨l', rfl⟩

end Transfer

/-! ## Both hosts -/

theorem header_write_eq (e : Endian) (id : UInt16) (length : Int) :
    defaultPacketHeaderPolicy.write e id length =
      leBytes 2 id.toNat ++ leBytes 4 (int32Bits length) := by
  show hostBytes e 2 _ ++ hostBytes e 4 _ = _
  rw [hostBytes_endianConvert, hostBytes_endianConvert]

theorem header_read_eq (e : Endian) {src : List UInt8} (h : 6 ≤ src.length) :
    defaultPacketHeaderPolicy.read e src =
      (UInt16.ofNat (leNat (src.take 2)), asInt32 (leNat ((src.drop 2).take 4))) := by
  have hid : (src.take 2).length = 2 := by
    rw [List.length_take]
    omega
  have hlen : ((src.drop 2).take 4).length = 4 := by
    rw [List.length_take, List.length_drop]
    omega
  have hid' := Reader.endianConvert_hostNat e (src.take 2)
  have hlen' := Reader.endianConvert_hostNat e ((src.drop 2).take 4)
  rw [hid] at hid'
  rw [hlen] at hlen'
  show (UInt16.ofNat (endianConvert e 2 _), asInt32 (endianConvert e 4 _)) = _
  rw [hid', hlen']

/-- `std::optional<E>` of a two-byte enum on a big-endian host writes the bytes `raw`
happened to hold. -/
theorem optionalEnum_differs (signed : Bool) :
    serialize .plain ⟨true, .little, .w64, 0⟩ (.optional (.scalar (.enum signed .w2)))
        (.some (.scalar 5)) = .ret [1, 0, 5, 0] ∧
    serialize .plain ⟨true, .big, .w64, 0xABCD⟩ (.optional (.scalar (.enum signed .w2)))
        (.some (.scalar 5)) = .ret [1, 0, 0xCD, 0xAB] := by
  cases signed with
  | true => exact ⟨rfl, rfl⟩
  | false => exact ⟨rfl, rfl⟩

/-- For `Portable` types the two hosts write the same bytes, end alike on every input and
agree on packet headers. Among the optionals of arithmetic and enum types exactly the
`Portable` ones are written alike. -/
theorem byte_order_independent (S : Schema) (t : Ty) :
    (∀ B B' : Build, S.Portable → t.Portable → SameTarget B B' →
      (∀ v, serialize S B t v = serialize S B' t v ∧ WritesAlike B B' (Writer.write S t v)) ∧
      (∀ v (r : MemoryPackReader), r.size < B.sizeMod →
        (Reader.read S t v B r).out = (Reader.read S t v B' r).out ∧
        (Reader.read S t v B r).st = (Reader.read S t v B' r).st)) ∧
    (∀ (e e' : Endian) (id : UInt16) (length : Int), defaultPacketHeaderPolicy.write e id length =
      defaultPacketHeaderPolicy.write e' id length) ∧
    (∀ (e e' : Endian) (src : List UInt8), 6 ≤ src.length →
      defaultPacketHeaderPolicy.read e src = defaultPacketHeaderPolicy.read e' src) ∧
    (∀ s : Scalar, (∀ (B B' : Build) (n : Nat), SameTarget B B' → s.Holds n →
      serialize .plain B (.optional (.scalar s)) (.some (.scalar n)) =
        serialize .plain B' (.optional (.scalar s)) (.some (.scalar n))) ↔ s.Converts) := by
  refine ⟨?_, ?_, ?_, ?_⟩
  · intro B B' hS ht h
    constructor
    · intro v
      have halike := WritesAlike.write h hS ht v
      exact ⟨halike.serialize_eq, halike⟩
    · intro v r hr
      obtain ⟨hout, hst, -⟩ := HostFree.read h hS ht v r hr
      exact ⟨hout, hst⟩
  · intro e e' id length
    rw [header_write_eq, header_write_eq]
  · intro e e' src hsrc
    rw [header_read_eq e hsrc, header_read_eq e' hsrc]
  · intro s
    constructor
    · intro h
      unfold Scalar.Converts
      split
      · next signed =>
          obtain ⟨hlittle, hbig⟩ := optionalEnum_differs signed
          have heq := h ⟨true, .little, .w64, 0⟩ ⟨true, .big, .w64, 0xABCD⟩ 5 ⟨rfl, rfl⟩
            (by simp [Scalar.Holds, Scalar.size, Scalar.width, Width.bytes])
          rw [hlittle, hbig] at heq
          simp at heq
      · trivial
    · intro hs B B' n h _
      refine (WritesAlike.write h ?_ ?_ _).serialize_eq
      · intro i t ht
        simp [Schema.plain] at ht
      · intro u hu s' hs'
        simp only [Ty.parts, List.mem_cons, List.not_mem_nil, or_false, Ty.optional.injEq,
          reduceCtorEq] at hu
        subst hu
        rwa [← Ty.scalar.inj hs']

/-- An enum value of 5 behind a `std::optional`, on hosts of either kind. -/
theorem optionalEnum_bigEndian :
    serialize .plain ⟨true, .big, .w64, 0xABCD⟩ (.optional (.scalar (.enum false .w2)))
        (.some (.scalar 5)) = .ret [1, 0, 0xCD, 0xAB] ∧
    serialize .plain ⟨true, .little, .w64, 0xABCD⟩ (.optional (.scalar (.enum false .w2)))
        (.some (.scalar 5)) = .ret [1, 0, 5, 0] := by
  constructor
  · rfl
  · rfl

end MemoryPack
