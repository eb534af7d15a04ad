import MemoryPack.Wire.Reported

/-!
# Failures inside a `VersionTolerantWriter`

`WriteMember` writes to a private `body_` whose error state nobody looks at, and the
destructor drops what `Finish()` throws. A check that fails inside a member is noticed
only if it throws out of `WriteMember`. `PartOf` says where in a value something is
written, inside a member of such an object or not; which failures the caller sees is
then read off the value (`Noticed`).
-/

namespace MemoryPack

open Effect

/-! ## Parts of a value -/

/-- The values written by the `Serialize` of a value, each through `Write`. -/
def children (S : Schema) : Ty × Val → List (Ty × Val)
  | (.vector t, .seq vs) => vs.map (t, ·)
  | (.sequence _ t, .seq vs) => vs.map (t, ·)
  | (.array _ t, .seq vs) => vs.map (t, ·)
  | (.set _ t, .seq vs) => vs.map (t, ·)
  | (.map _ k t, .seq vs) => vs.map (.pair k t, ·)
  | (.pair a b, .pair x y) => [(a, x), (b, y)]
  | (.tuple ts, .seq vs) => ts.zip vs
  | (.optional t, .some v) => [(t, v)]
  | (.pointer _ t, .some v) => [(t, v)]
  | (.variant _ ts, .alt i v) => [(ts.getD i .string, v)]
  | (.object i, .seq vs) =>
      if (S.decl i).kind = .defineEmpty then [] else (S.decl i).members.zip vs
  | _ => []

/-- The object goes through a `VersionTolerantWriter`. -/
def isVersionTolerant (S : Schema) : Ty × Val → Bool
  | (.object i, .seq _) => (S.decl i).kind = .versionTolerant
  | _ => false

/-- `q` is written as a part of `p`; the flag tells whether it is inside a member of a
`VersionTolerant` object of `p`. -/
inductive PartOf (S : Schema) : Bool → Ty × Val → Ty × Val → Prop where
  | self (p) : PartOf S false p p
  | child {p q r inside} : q ∈ children S p → PartOf S inside q r →
      PartOf S (isVersionTolerant S p || inside) p r

/-- `ToInt32Length` or `WriteObjectHeader` refuses: a length above 2^31 - 1 or a header
above 249. -/
def BreaksLimit : Ty × Val → Prop
  | (.string, .bytes bs) => maxLength < bs.length
  | (.u16string, .units us) => maxLength < us.length
  | (.vector _, .seq vs) => maxLength < vs.length
  | (.sequence _ _, .seq vs) => maxLength < vs.length
  | (.array _ _, .seq vs) => maxLength < vs.length
  | (.set _ _, .seq vs) => maxLength < vs.length
  | (.map _ _ _, .seq vs) => maxLength < vs.length
  | (.tuple ts, .seq vs) => maxMemberCount < UInt8.ofNat (ts.zip vs).length
  | _ => False

/-- A `VersionTolerant` object with more than 249 members. -/
def Overfull (S : Schema) (p : Ty × Val) : Prop :=
  isVersionTolerant S p = true ∧ maxMemberCount.toNat < (children S p).length

/-- A check fails in a part written to the target writer itself, or in any part if it
throws there. -/
def Noticed (S : Schema) (B : Build) (p : Ty × Val) : Prop :=
  ∃ inside q, PartOf S inside p q ∧
    ((inside = false ∧ (BreaksLimit q ∨ Overfull S q)) ∨ (B.exceptions = true ∧ BreaksLimit q))

/-- An exception leaves `Write`. -/
def ThrowsOut (S : Schema) (B : Build) (p : Ty × Val) : Prop :=
  B.exceptions = true ∧ ∃ inside q, PartOf S inside p q ∧ BreaksLimit q

section Parts

variable {S : Schema} {B : Build} {p : Ty × Val}

theorem throwsOut_iff : ThrowsOut S B p ↔
    (B.exceptions = true ∧ BreaksLimit p) ∨ ∃ q ∈ children S p, ThrowsOut S B q := by
  constructor
  · rintro ⟨hB, inside, r, hpart, hbreaks⟩
    cases hpart with
    | self => exact .inl ⟨hB, hbreaks⟩
    | child hq hr => exact .inr ⟨_, hq, hB, _, r, hr, hbreaks⟩
  · rintro (⟨hB, hbreaks⟩ | ⟨q, hq, hB, inside, r, hr, hbreaks⟩)
    · exact ⟨hB, _, p, .self p, hbreaks⟩
    · exact ⟨hB, _, r, .child hq hr, hbreaks⟩

theorem ThrowsOut.noticed (h : ThrowsOut S B p) : Noticed S B p := by
  obtain ⟨hB, inside, q, hpart, hbreaks⟩ := h
  exact ⟨inside, q, hpart, .inr ⟨hB, hbreaks⟩⟩

/-- An ordinary value is noticed to fail if it or a part of it is. -/
theorem noticed_iff (hp : isVersionTolerant S p = false) : Noticed S B p ↔
    BreaksLimit p ∨ ∃ q ∈ children S p, Noticed S B q := by
  constructor
  · rintro ⟨inside, r, hpart, h⟩
    cases hpart with
    | self =>
        refine .inl ?_
        rcases h with ⟨-, hbreaks | hover⟩ | ⟨-, hbreaks⟩
        · exact hbreaks
        · exact Bool.noConfusion (hp.symm.trans hover.1)
        · exact hbreaks
    | child hq hr =>
        rw [hp, Bool.false_or] at h
        exact .inr ⟨_, hq, _, r, hr, h⟩
  · rintro (hbreaks | ⟨q, hq, inside, r, hr, h⟩)
    · exact ⟨false, p, .self p, .inl ⟨rfl, .inl hbreaks⟩⟩
    · exact ⟨inside, r, by simpa [hp] using PartOf.child hq hr, h⟩

/-- Of a `VersionTolerant` object only its member count is, and what throws. -/
theorem noticed_versionTolerant_iff (hp : isVersionTolerant S p = true) : Noticed S B p ↔
    maxMemberCount.toNat < (children S p).length ∨ ∃ q ∈ children S p, ThrowsOut S B q := by
  have hself : ¬ BreaksLimit p := by
    rcases p with ⟨t, v⟩
    cases t with
    | object i => exact id
    | _ => cases hp
  constructor
  · rintro ⟨inside, r, hpart, h⟩
    cases hpart with
    | self =>
        rcases h with ⟨-, hbreaks | hover⟩ | ⟨-, hbreaks⟩
        · exact absurd hbreaks hself
        · exact .inl hover.2
        · exact absurd hbreaks hself
    | child hq hr =>
        rw [hp, Bool.true_or] at h
        rcases h with ⟨hf, -⟩ | ⟨hB, hbreaks⟩
        · exact Bool.noConfusion hf
        · exact .inr ⟨_, hq, hB, _, r, hr, hbreaks⟩
  · rintro (hover | ⟨q, hq, hB, inside, r, hr, hbreaks⟩)
    · exact ⟨false, p, .self p, .inl ⟨rfl, .inr ⟨hp, hover⟩⟩⟩
    · exact ⟨_, r, .child hq hr, .inr ⟨hB, hbreaks⟩⟩

end Parts

/-! ## How a write ends -/

/-- With room enough, `m` throws exactly if `T`, and fails (throws or records an error)
exactly if `F`. -/
def Outcome (B : Build) {α : Type} (m : WriteM α) (T F : Prop) : Prop :=
  ∃ o bs e, o ≠ .diverge ∧ Emits B m o bs e ∧ ((∃ c, o = .throw c) ↔ T) ∧
    ((∃ c, o = .throw c) ∨ e ≠ .none ↔ F)

namespace Outcome

variable {B : Build} {α β : Type} {m : WriteM α} {T T' F F' : Prop}

theorem congr (h : Outcome B m T F) (hT : T ↔ T') (hF : F ↔ F') : Outcome B m T' F' := by
  obtain ⟨o, bs, e, ho, hemits, hthrow, hfail⟩ := h
  exact ⟨o, bs, e, ho, hemits, hthrow.trans hT, hfail.trans hF⟩

/-- A write without a check in it. -/
theorem of_emits {a : α} {bs : List UInt8} (h : Emits B m (.ret a) bs .none) :
    Outcome B m False False := by
  refine ⟨.ret a, bs, .none, by simp, h, ?_, ?_⟩
  · simp
  · simp

theorem fail {code : MemoryPackError} (hc : code ≠ .none) :
    Outcome B (Writer.fail code) (B.exceptions = true) True := by
  refine ⟨_, _, _, ?_, Emits.fail code, ?_, iff_of_true (.inr hc) trivial⟩
  · rcases Emits.failOut_ends (B := B) code with h | ⟨c, h⟩ <;> rw [h] <;> simp
  · unfold Emits.failOut
    cases B.exceptions <;> simp

/-- One after the other. An exception in the first is already a failure of the whole. -/
theorem bind {f : α → WriteM β} (hm : Outcome B m T F) (hf : ∀ a, Outcome B (f a) T' F') :
    Outcome B (m >>= f) (T ∨ T') (F ∨ F') := by
  obtain ⟨o, bs, e, ho, hemits, hthrow, hfail⟩ := hm
  rcases o with a | c | _
  · obtain ⟨o', cs, e', ho', hemits', hthrow', hfail'⟩ := hf a
    refine ⟨o', _, _, ho', hemits.bind hemits', ?_, ?_⟩
    · rw [hthrow', ← hthrow]
      simp
    · rw [← hfail', ← hfail, MemoryPackError.andThen]
      by_cases he : e = .none
      · simp [he]
      · simp [he]
  · have hT : T := hthrow.mp ⟨c, rfl⟩
    have hF : F := hfail.mp (.inl ⟨c, rfl⟩)
    exact ⟨_, bs, e, by simp, hemits.stop, iff_of_true ⟨c, rfl⟩ (.inl hT),
      iff_of_true (.inl ⟨c, rfl⟩) (.inl hF)⟩
  · exact absurd rfl ho

theorem then_ {m' : WriteM β} (hm : Outcome B m False False) (hm' : Outcome B m' T F) :
    Outcome B (m >>= fun _ => m') T F :=
  (bind hm fun _ => hm').congr (by simp) (by simp)

theorem runAll {γ : Type} {f : γ → WriteM Unit} {T F : γ → Prop} : ∀ {qs : List γ},
    (∀ q ∈ qs, Outcome B (f q) (T q) (F q)) →
    Outcome B (Prog.runAll (qs.map f)) (∃ q ∈ qs, T q) (∃ q ∈ qs, F q)
  | [], _ => (of_emits (Emits.pure ())).congr (by simp) (by simp)
  | q :: qs, h => by
      obtain ⟨hq, hqs⟩ := List.forall_mem_cons.mp h
      exact (bind hq fun _ => runAll hqs).congr (by simp) (by simp)

theorem host {f : Build → WriteM α} (h : Outcome B (f B) T F) : Outcome B (Prog.ask >>= f) T F := by
  obtain ⟨o, bs, e, ho, hemits, hthrow, hfail⟩ := h
  exact ⟨o, bs, e, ho, hemits.host, hthrow, hfail⟩

/-! ## Lengths and headers -/

/-- A length that is refused ends the write. -/
theorem lengthThen {size : Nat} {rest : Int → WriteM Unit} (hT : T → B.exceptions = true)
    (h : Outcome B (rest size) T F) :
    Outcome B (do
      let n ← Writer.toInt32Length size
      if n < 0 then return
      rest n : WriteM Unit) ((B.exceptions = true ∧ maxLength < size) ∨ T)
        (maxLength < size ∨ F) := by
  by_cases hsize : size ≤ maxLength
  · have hlength : Outcome B (Writer.toInt32Length size) False False :=
      of_emits (Emits.toInt32Length hsize)
    obtain ⟨o, bs, e, ho, hemits, hthrow, hfail⟩ := h
    have hlt : ¬ maxLength < size := Nat.not_lt.mpr hsize
    refine ⟨o, bs, e, ho, ?_, by simp [hthrow, hlt], by simp [hfail, hlt]⟩
    have hrest : Emits B (if (size : Int) < 0 then pure () else rest size) o bs e := by
      rw [if_neg (by omega)]
      exact hemits
    exact (Emits.toInt32Length hsize).bind hrest
  · have hlt : maxLength < size := Nat.not_le.mp hsize
    have hlength : Writer.toInt32Length size = (do Writer.fail .lengthLimit; return -1) := by
      unfold Writer.toInt32Length
      rw [if_pos (show size > 0x7FFFFFFF from hlt)]
    rw [hlength, Prog.bind_assoc]
    have hend : Outcome B (do
        let n ← (Pure.pure (-1) : WriteM Int)
        if n < 0 then return
        rest n : WriteM Unit) False False := of_emits (Emits.pure ())
    exact (bind (fail (by decide)) fun _ => hend).congr
      ⟨fun h => .inl ⟨h.resolve_right id, hlt⟩, fun h => .inl (h.elim And.left hT)⟩
      (iff_of_true (.inl trivial) (.inl hlt))

theorem writeObjectHeader (count : UInt8) : Outcome B (Writer.writeObjectHeader count)
    (B.exceptions = true ∧ maxMemberCount < count) (maxMemberCount < count) := by
  by_cases hcount : maxMemberCount < count
  · rw [Writer.writeObjectHeader, if_pos hcount]
    exact (fail (by decide)).congr (by simp [hcount]) (by simp [hcount])
  · rw [Writer.writeObjectHeader, if_neg hcount]
    exact (of_emits (Emits.appendByte _)).congr (by simp [hcount]) (by simp [hcount])

theorem writeScalar (s : Scalar) (n : Nat) : Outcome B (Writer.writeScalar s n) False False := by
  cases s with
  | bool => exact of_emits (Emits.appendByte _)
  | float => exact of_emits (Emits.writeRaw _ _)
  | double => exact of_emits (Emits.writeRaw _ _)
  | int signed w =>
      cases w with
      | w1 => exact of_emits (Emits.appendByte _)
      | w2 => exact of_emits (Emits.writeRaw _ _)
      | w4 => exact of_emits (Emits.writeRaw _ _)
      | w8 => exact of_emits (Emits.writeRaw _ _)
  | enum signed w => exact of_emits (Emits.writeRaw _ _)

theorem dotNetSerialize (d : DotNet) (v : Val) :
    Outcome B (Writer.dotNetSerialize d v) False False := by
  have raw : ∀ w n, Outcome B (Writer.writeRaw w n) False False := fun w n =>
    of_emits (Emits.writeRaw w n)
  have bytes : ∀ bs, Outcome B (Writer.appendBytes bs) False False := fun bs =>
    of_emits (Emits.appendBytes bs)
  unfold Writer.dotNetSerialize
  split
  · exact then_ (raw _ _) (then_ (raw _ _) (then_ (raw _ _) (bytes _)))
  · exact raw _ _
  · exact raw _ _
  · refine then_ (raw _ _) (then_ ?_ (raw _ _))
    have hpadding : Emits B (Prog.runAll ((List.replicate 6 ()).map fun _ => Writer.appendByte 0))
        (.ret ()) _ .none := Emits.runAll_map fun _ _ => Emits.appendByte 0
    exact of_emits hpadding
  · exact bytes _
  · exact raw _ _
  · exact then_ (raw _ _) (raw _ _)
  · exact then_ (raw _ _) (raw _ _)
  · exact of_emits (Emits.pure ())

theorem writeNullableOf (t : Ty) (v : Option Val) :
    Outcome B (Writer.writeNullableOf t v) False False := by
  unfold Writer.writeNullableOf
  split
  · exact host (of_emits (Emits.appendBytes _))
  · exact of_emits (Emits.appendBytes _)
  · exact of_emits (Emits.pure ())

theorem unmanagedSerialize (u : Unmanaged) (memory : List UInt8) :
    Outcome B (Writer.unmanagedSerialize u memory) False False := by
  unfold Writer.unmanagedSerialize
  split
  · exact of_emits (Emits.appendBytes _)
  · exact of_emits (Emits.appendBytes _)

theorem writeString (bs : List UInt8) : Outcome B (Writer.writeString bs)
    (B.exceptions = true ∧ maxLength < bs.length) (maxLength < bs.length) := by
  unfold Writer.writeString
  split
  · next hnil =>
      rw [List.isEmpty_iff.mp hnil]
      exact (of_emits ((Emits.writeRaw _ _).bind (Emits.pure ()))).congr (by simp) (by simp)
  · refine (lengthThen (T := False) (F := False) False.elim ?_).congr (by simp) (by simp)
    exact then_ (of_emits (Emits.writeRaw _ _)) (then_ (of_emits (Emits.writeRaw _ _))
      (of_emits (Emits.appendBytes _)))

theorem writeStringUtf16 (us : List UInt16) : Outcome B (Writer.writeStringUtf16 us)
    (B.exceptions = true ∧ maxLength < us.length) (maxLength < us.length) := by
  unfold Writer.writeStringUtf16
  split
  · next hnil =>
      rw [List.isEmpty_iff.mp hnil]
      exact (of_emits ((Emits.writeRaw _ _).bind (Emits.pure ()))).congr (by simp) (by simp)
  · refine (lengthThen (T := False) (F := False) False.elim ?_).congr (by simp) (by simp)
    exact then_ (of_emits (Emits.writeRaw _ _))
      (of_emits (Emits.runAll_map fun u _ => Emits.writeRaw _ _))

/-- `Finish()` in the destructor: the exception is dropped, the error stays recorded. -/
theorem destroy (vt : VersionTolerantWriter) :
    Outcome B vt.destroy False (maxMemberCount.toNat < vt.lengths.length) := by
  unfold VersionTolerantWriter.destroy VersionTolerantWriter.finish
  by_cases hcount : maxMemberCount.toNat < vt.lengths.length
  · rw [if_pos hcount, Writer.writeObjectHeader, if_pos (by decide)]
    have hfail : Emits B (VersionTolerantWriter.swallow (Writer.fail .invalidHeader)) (.ret ()) []
        .invalidHeader := by
      refine (Emits.fail _).swallow ?_
      rcases Emits.failOut_ends (B := B) .invalidHeader with h | ⟨c, h⟩ <;> rw [h] <;> simp
    exact ⟨.ret (), [], .invalidHeader, by simp, hfail, by simp, by simp [hcount]⟩
  · rw [if_neg hcount]
    have hheader := Emits.writeObjectHeader (B := B)
      (ofNat_le_maxMemberCount (Nat.not_lt.mp hcount))
    have hlengths : Emits B (Prog.runAll (vt.lengths.map Writer.writeVarIntLength)) (.ret ()) _
        .none := Emits.runAll_map fun n _ => Emits.writeVarIntLength n
    have hall : Emits B (do
        Writer.writeObjectHeader (UInt8.ofNat vt.lengths.length)
        Prog.runAll (vt.lengths.map Writer.writeVarIntLength)
        Writer.writeBytes vt.body.getSpan : WriteM Unit) (.ret ()) _ .none :=
      hheader.seq (hlengths.seq (Emits.appendBytes _) rfl) rfl
    exact (of_emits (hall.swallow (by simp))).congr Iff.rfl (by simp [hcount])

/-! ## Members -/

/-- `WriteMember`: the private writer grows, so only an exception is seen. -/
theorem writeMember {m : WriteM Unit} (h : Outcome B m T F) {vt : VersionTolerantWriter}
    (hinv : vt.body.Inv) (hmode : vt.body.mode = .owned) :
    (T ∧ ∃ vt' c, VersionTolerantWriter.writeMember B vt m = (vt', some c)) ∨
      (¬ T ∧ ∃ vt', VersionTolerantWriter.writeMember B vt m = (vt', none) ∧ vt'.body.Inv ∧
        vt'.body.mode = .owned ∧ vt'.lengths.length = vt.lengths.length + 1) := by
  obtain ⟨o, bs, e, ho, hemits, hthrow, -⟩ := h
  have hfits : vt.body.view.Fits bs.length := by
    unfold AppendList.Fits
    rw [show vt.body.view.mode = .owned from hmode]
    trivial
  have hinv' := hemits.inv vt.body hinv
  obtain ⟨hout, hview⟩ := hemits.room vt.body hinv hfits
  unfold VersionTolerantWriter.writeMember
  rcases hres : m B vt.body with ⟨a | c | _, body, l⟩ <;> rw [hres] at hout hinv' hview <;>
    subst hout
  · refine .inr ⟨fun hT => ?_, _, rfl, hinv', ?_, List.length_append⟩
    · obtain ⟨c, hc⟩ := hthrow.mpr hT
      cases hc
    · exact (congrArg AppendList.mode hview).trans hmode
  · exact .inl ⟨hthrow.mp ⟨c, rfl⟩, _, c, rfl⟩
  · exact absurd rfl ho

/-- By induction on the members to go. -/
theorem writeMembers {γ : Type} {f : γ → WriteM Unit} {T F : γ → Prop} : ∀ {qs : List γ}
    {vt : VersionTolerantWriter}, (∀ q ∈ qs, Outcome B (f q) (T q) (F q)) → vt.body.Inv →
    vt.body.mode = .owned →
    ((∃ q ∈ qs, T q) ∧ ∃ vt' c,
      VersionTolerantWriter.writeMembers B vt (qs.map f) = (vt', some c)) ∨
    ((¬ ∃ q ∈ qs, T q) ∧ ∃ vt',
      VersionTolerantWriter.writeMembers B vt (qs.map f) = (vt', none) ∧
        vt'.lengths.length = vt.lengths.length + qs.length)
  | [], vt, _, _, _ => .inr ⟨by simp, vt, rfl, rfl⟩
  | q :: qs, vt, h, hinv, hmode => by
      obtain ⟨hq, hqs⟩ := List.forall_mem_cons.mp h
      rw [List.map_cons, VersionTolerantWriter.writeMembers]
      rcases writeMember hq hinv hmode with ⟨hT, vt₁, c, hone⟩ | ⟨hT, vt₁, hone, hinv₁, hmode₁, hlen₁⟩
      · rw [hone]
        exact .inl ⟨⟨q, List.mem_cons_self, hT⟩, vt₁, c, rfl⟩
      · rw [hone]
        rcases writeMembers hqs hinv₁ hmode₁ with ⟨⟨q', hq', hT'⟩, hrest⟩ | ⟨hT', vt₂, hrest, hlen₂⟩
        · exact .inl ⟨⟨q', List.mem_cons_of_mem q hq', hT'⟩, hrest⟩
        · refine .inr ⟨by simpa [hT] using hT', vt₂, hrest, ?_⟩
          rw [hlen₂, hlen₁, List.length_cons]
          omega

theorem versionTolerant {γ : Type} {f : γ → WriteM Unit} {T F : γ → Prop} {qs : List γ}
    (h : ∀ q ∈ qs, Outcome B (f q) (T q) (F q)) :
    Outcome B (VersionTolerantWriter.serialize (qs.map f)) (∃ q ∈ qs, T q)
      (maxMemberCount.toNat < qs.length ∨ ∃ q ∈ qs, T q) := by
  refine host ?_
  have hempty : ({} : VersionTolerantWriter).body.Inv := MemoryPackWriter.inv_default
  rcases writeMembers h hempty rfl with
    ⟨hT, vt, c, hwrite⟩ | ⟨hT, vt, hwrite, hlen⟩
  · rw [hwrite]
    obtain ⟨o, bs, e, ho, hemits, hthrow, -⟩ := destroy (B := B) vt
    rcases o with a | c' | _
    · exact ⟨.throw c, _, _, by simp, hemits.bind (Emits.throw c), iff_of_true ⟨c, rfl⟩ hT,
        iff_of_true (.inl ⟨c, rfl⟩) (.inr hT)⟩
    · exact absurd ⟨c', rfl⟩ hthrow.mp
    · exact absurd rfl ho
  · rw [hwrite]
    have hcount : vt.lengths.length = qs.length := by
      rw [hlen]
      exact Nat.zero_add _
    exact (destroy vt).congr (iff_of_false id hT) (by simp [hcount, hT])

/-! ## `Write<T>` -/

section Write

variable {S : Schema} {p : Ty × Val} {t : Ty} {vs : List Val}

/-- A value with a check of its own and parts. -/
theorem ordinary {m : WriteM Unit} (hp : isVersionTolerant S p = false)
    (h : Outcome B m
      ((B.exceptions = true ∧ BreaksLimit p) ∨ ∃ q ∈ children S p, ThrowsOut S B q)
      (BreaksLimit p ∨ ∃ q ∈ children S p, Noticed S B q)) :
    Outcome B m (ThrowsOut S B p) (Noticed S B p) :=
  h.congr throwsOut_iff.symm (noticed_iff hp).symm

/-- A value without either. -/
theorem leaf {m : WriteM Unit} (hp : isVersionTolerant S p = false) (hparts : children S p = [])
    (hlimit : ¬ BreaksLimit p) (h : Outcome B m False False) :
    Outcome B m (ThrowsOut S B p) (Noticed S B p) := by
  refine ordinary hp (h.congr ?_ ?_)
  · simp [hparts, hlimit]
  · simp [hparts, hlimit]

/-- A value that is written by writing its one part. -/
theorem only {m : WriteM Unit} {q : Ty × Val} (hp : isVersionTolerant S p = false)
    (hparts : children S p = [q]) (hlimit : ¬ BreaksLimit p)
    (h : Outcome B m (ThrowsOut S B q) (Noticed S B q)) :
    Outcome B m (ThrowsOut S B p) (Noticed S B p) := by
  refine ordinary hp (h.congr ?_ ?_)
  · simp [hparts, hlimit]
  · simp [hparts, hlimit]

theorem writeCounted {size : Nat} {elements : WriteM Unit} (hT : T → B.exceptions = true)
    (h : Outcome B elements T F) : Outcome B (Writer.writeCounted size elements)
      ((B.exceptions = true ∧ maxLength < size) ∨ T) (maxLength < size ∨ F) :=
  lengthThen hT (then_ (of_emits (Emits.writeRaw _ _)) h)

theorem not_noticed_scalar (s : Scalar) (v : Val) : ¬ Noticed S B (.scalar s, v) := by
  rw [noticed_iff rfl]
  rintro (hlimit | ⟨q, hq, -⟩)
  · exact hlimit
  · exact absurd hq List.not_mem_nil

/-- Elements that are copied and not written one by one have no checks. -/
theorem copied {s : Scalar} {m : WriteM Unit} (h : Outcome B m False False) :
    Outcome B m (∃ v ∈ vs, ThrowsOut S B (.scalar s, v))
      (∃ v ∈ vs, Noticed S B (.scalar s, v)) := by
  refine h.congr (iff_of_false id ?_) (iff_of_false id ?_)
  · rintro ⟨v, -, hthrow⟩
    exact not_noticed_scalar s v hthrow.noticed
  · rintro ⟨v, -, hnoticed⟩
    exact not_noticed_scalar s v hnoticed

theorem elementWrites (h : ∀ v ∈ vs, Outcome B (Writer.write S t v) (ThrowsOut S B (t, v))
    (Noticed S B (t, v))) : Outcome B (Prog.runAll (Writer.elementWrites S t vs))
      (∃ v ∈ vs, ThrowsOut S B (t, v)) (∃ v ∈ vs, Noticed S B (t, v)) := by
  rw [Writer.elementWrites_eq]
  exact runAll h

/-- A container: its length, then its elements. -/
theorem container {elements : WriteM Unit} (hp : isVersionTolerant S p = false)
    (hparts : children S p = vs.map (t, ·)) (hlimit : BreaksLimit p ↔ maxLength < vs.length)
    (h : Outcome B elements (∃ v ∈ vs, ThrowsOut S B (t, v)) (∃ v ∈ vs, Noticed S B (t, v))) :
    Outcome B (Writer.writeCounted vs.length elements) (ThrowsOut S B p) (Noticed S B p) := by
  refine ordinary hp ((writeCounted ?_ h).congr ?_ ?_)
  · rintro ⟨v, -, hthrow⟩
    exact hthrow.1
  · simp [hparts, hlimit]
  · simp [hparts, hlimit]

theorem containerSerialize (hp : isVersionTolerant S p = false)
    (hparts : children S p = vs.map (t, ·)) (hlimit : BreaksLimit p ↔ maxLength < vs.length)
    (h : ∀ v ∈ vs, Outcome B (Writer.write S t v) (ThrowsOut S B (t, v)) (Noticed S B (t, v))) :
    Outcome B (Writer.containerSerialize (Writer.elementWrites S t vs)) (ThrowsOut S B p)
      (Noticed S B p) := by
  have hlen : (Writer.elementWrites S t vs).length = vs.length := by
    rw [Writer.elementWrites_eq, List.length_map]
  rw [Writer.containerSerialize, hlen]
  exact container hp hparts hlimit (elementWrites h)

theorem memberWrites_eq (S : Schema) : ∀ (ts : List Ty) (vs : List Val),
    Writer.memberWrites S ts vs = (ts.zip vs).map fun q => Writer.write S q.1 q.2
  | [], _ => by simp [Writer.memberWrites]
  | _ :: _, [] => by simp [Writer.memberWrites]
  | t :: ts, v :: vs => by
      rw [Writer.memberWrites, memberWrites_eq S ts vs, List.zip_cons_cons, List.map_cons]

theorem writeCollection (h : ∀ v ∈ vs, Outcome B (Writer.write S t v) (ThrowsOut S B (t, v))
    (Noticed S B (t, v))) : Outcome B (Writer.writeCollection t vs (Writer.elementWrites S t vs))
      (ThrowsOut S B (.vector t, .seq vs)) (Noticed S B (.vector t, .seq vs)) := by
  unfold Writer.writeCollection
  refine container rfl rfl Iff.rfl ?_
  split
  · have hbools : Outcome B (Prog.runAll (vs.map fun v => Writer.writeBool v.bits)) _ _ :=
      runAll fun v _ => of_emits (Emits.appendByte _)
    exact copied (hbools.congr (by simp) (by simp))
  · split
    · exact copied (of_emits (Emits.writeContiguous _ _))
    · exact elementWrites h
  · exact elementWrites h

theorem writeCollectionSpan {n : Nat} (h : ∀ v ∈ vs, Outcome B (Writer.write S t v)
    (ThrowsOut S B (t, v)) (Noticed S B (t, v))) :
    Outcome B (Writer.writeCollectionSpan t vs (Writer.elementWrites S t vs))
      (ThrowsOut S B (.array n t, .seq vs)) (Noticed S B (.array n t, .seq vs)) := by
  unfold Writer.writeCollectionSpan
  refine container rfl rfl Iff.rfl ?_
  split
  · split
    · exact copied (of_emits (Emits.writeContiguous _ _))
    · exact elementWrites h
  · exact elementWrites h

/-- An engaged optional is written as its value, or copied where nothing is checked. -/
theorem optionalSerialize {v : Val} (h : Outcome B (Writer.write S t v) (ThrowsOut S B (t, v))
    (Noticed S B (t, v))) : Outcome B (Writer.optionalSerialize t (some v) (Writer.write S t v))
      (ThrowsOut S B (t, v)) (Noticed S B (t, v)) := by
  unfold Writer.optionalSerialize
  cases hnull : wireNullEncoding t with
  | nullableValue =>
      cases t with
      | scalar s => exact leaf rfl rfl id (writeNullableOf _ _)
      | unmanaged u => exact leaf rfl rfl id (writeNullableOf _ _)
      | _ => simp [wireNullEncoding] at hnull
  | object => exact h
  | collection => exact h
  | string => exact h

theorem object (i : Nat) (h : ∀ q ∈ (S.decl i).members.zip vs,
    Outcome B (Writer.write S q.1 q.2) (ThrowsOut S B q) (Noticed S B q)) :
    Outcome B (Writer.write S (.object i) (.seq vs)) (ThrowsOut S B (.object i, .seq vs))
      (Noticed S B (.object i, .seq vs)) := by
  rw [Writer.write]
  cases hkind : (S.decl i).kind with
  | define =>
      have hparts : children S (.object i, .seq vs) = (S.decl i).members.zip vs := by
        simp [children, hkind]
      have hheader := of_emits (Emits.writeObjectHeader (B := B)
        (ofNat_le_maxMemberCount ((S.decl i).count_le hkind)))
      show Outcome B (Writer.defineSerialize (S.decl i).members.length
        (Writer.memberWrites S (S.decl i).members vs)) _ _
      rw [memberWrites_eq]
      refine ordinary (by simp [isVersionTolerant, hkind])
        ((then_ hheader (runAll h)).congr ?_ ?_)
      · simp [hparts, BreaksLimit]
      · simp [hparts, BreaksLimit]
  | defineEmpty =>
      refine leaf (by simp [isVersionTolerant, hkind]) (by simp [children, hkind]) id ?_
      exact then_ (of_emits (Emits.writeObjectHeader (by decide))) (of_emits (Emits.pure ()))
  | versionTolerant =>
      have hparts : children S (.object i, .seq vs) = (S.decl i).members.zip vs := by
        simp [children, hkind]
      show Outcome B (VersionTolerantWriter.serialize
        (Writer.memberWrites S (S.decl i).members vs)) _ _
      rw [memberWrites_eq]
      refine (versionTolerant h).congr ?_ ?_
      · rw [throwsOut_iff, hparts]
        simp [BreaksLimit]
      · rw [noticed_versionTolerant_iff (by simp [isVersionTolerant, hkind]), hparts]

/-- `Write<T>` throws and fails where the value says so. The induction is on the value. -/
theorem write (S : Schema) (v : Val) : ∀ t, Outcome B (Writer.write S t v)
    (ThrowsOut S B (t, v)) (Noticed S B (t, v)) := by
  have nothing : Outcome B (Pure.pure () : WriteM Unit) False False := of_emits (Emits.pure ())
  induction v with
  | scalar n =>
      intro t
      cases t with
      | scalar s => exact leaf rfl rfl id (writeScalar s n)
      | dotNet d => exact leaf rfl rfl id (dotNetSerialize d _)
      | _ => exact leaf rfl rfl id nothing
  | bytes bs =>
      intro t
      cases t with
      | string => exact ordinary rfl ((writeString bs).congr (by simp [children, BreaksLimit])
          (by simp [children, BreaksLimit]))
      | unmanaged u => exact leaf rfl rfl id (unmanagedSerialize u bs)
      | dotNet d => exact leaf rfl rfl id (dotNetSerialize d _)
      | _ => exact leaf rfl rfl id nothing
  | units us =>
      intro t
      cases t with
      | u16string => exact ordinary rfl ((writeStringUtf16 us).congr
          (by simp [children, BreaksLimit]) (by simp [children, BreaksLimit]))
      | dotNet d => exact leaf rfl rfl id (dotNetSerialize d _)
      | _ => exact leaf rfl rfl id nothing
  | seq vs ih =>
      intro t
      have members : ∀ ts : List Ty, ∀ q ∈ ts.zip vs,
          Outcome B (Writer.write S q.1 q.2) (ThrowsOut S B q) (Noticed S B q) := by
        rintro ts ⟨u, w⟩ hq
        exact ih w (List.of_mem_zip hq).2 u
      cases t with
      | vector t => exact writeCollection fun v hv => ih v hv _
      | sequence k t => exact containerSerialize rfl rfl Iff.rfl fun v hv => ih v hv _
      | array n t => exact writeCollectionSpan fun v hv => ih v hv _
      | set o t => exact containerSerialize rfl rfl Iff.rfl fun v hv => ih v hv _
      | map o k t => exact containerSerialize rfl rfl Iff.rfl fun v hv => ih v hv _
      | tuple ts =>
          rw [Writer.write, Writer.writeTuple, memberWrites_eq, List.length_map]
          exact ordinary rfl (bind (writeObjectHeader _) fun _ => runAll (members ts))
      | dotNet d => exact leaf rfl rfl id (dotNetSerialize d _)
      | object i => exact object i (members _)
      | _ => exact leaf rfl rfl id nothing
  | pair a b iha ihb =>
      intro t
      cases t with
      | pair ta tb =>
          rw [Writer.write]
          refine ordinary rfl ((bind (iha ta) fun _ => ihb tb).congr ?_ ?_)
          · simp [children, BreaksLimit]
          · simp [children, BreaksLimit]
      | dotNet d => exact leaf rfl rfl id (dotNetSerialize d _)
      | _ => exact leaf rfl rfl id nothing
  | none =>
      intro t
      cases t with
      | optional t =>
          rw [Writer.write]
          unfold Writer.optionalSerialize
          refine leaf rfl rfl id ?_
          cases wireNullEncoding t with
          | nullableValue => exact writeNullableOf t none
          | object => exact of_emits (Emits.appendByte _)
          | collection => exact of_emits (Emits.writeRaw _ _)
          | string => exact of_emits (Emits.writeRaw _ _)
      | pointer p t => exact leaf rfl rfl id (of_emits (Emits.appendByte _))
      | dotNet d => exact leaf rfl rfl id (dotNetSerialize d _)
      | _ => exact leaf rfl rfl id nothing
  | some v ih =>
      intro t
      cases t with
      | optional t => exact only rfl rfl id (optionalSerialize (ih t))
      | pointer p t =>
          rw [Writer.write]
          exact only rfl rfl id (ih t)
      | dotNet d => exact leaf rfl rfl id (dotNetSerialize d _)
      | _ => exact leaf rfl rfl id nothing
  | alt i v ih =>
      intro t
      cases t with
      | variant tags ts =>
          rw [Writer.write]
          exact only rfl rfl id (then_ (of_emits (Emits.writeUnionHeader _)) (ih _))
      | dotNet d => exact leaf rfl rfl id (dotNetSerialize d _)
      | _ => exact leaf rfl rfl id nothing

end Write

end Outcome

/-! ## What the caller is told -/

section Told

variable {S : Schema} {B : Build} {t : Ty} {v : Val}

end Told

end MemoryPack
