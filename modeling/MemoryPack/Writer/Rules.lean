import MemoryPack.Core.Serialize
import MemoryPack.Writer.Buffer

/-!
# Rules for writing programs

Every `Write*` is built from `AppendBytes`, `Fail` and a look at the build. A
property of programs that holds of these and survives sequencing, and `catch (...)`
for the destructor of `VersionTolerantWriter`, therefore holds of `Write<T>` for
every type. The induction over types and values is done once, here.

`AppendSteps` and `WriteSteps` are what the induction needs, with the places that look
at the build as steps of their own; `WriteRules` is the shorter list for a property of
one build.
-/

namespace MemoryPack

open Effect

structure AppendSteps (P : ∀ {α : Type}, WriteM α → Prop) : Prop extends Prog.Closed @P where
  fail : ∀ {code : MemoryPackError}, code ≠ .none → P (Writer.fail code)
  appendBytes : ∀ bs, P (Writer.appendBytes bs)
  writeRaw : ∀ w n, P (Writer.writeRaw w n)

namespace AppendSteps

variable {P : ∀ {α : Type}, WriteM α → Prop}

/-! ## Headers, primitives, strings -/

theorem appendByte (h : AppendSteps @P) (b : UInt8) : P (Writer.appendByte b) := by
  rw [Writer.appendByte_eq]
  exact h.appendBytes [b]

theorem toInt32Length (h : AppendSteps @P) (size : Nat) : P (Writer.toInt32Length size) :=
  Prog.Closed.ite (fun _ => h.bind (h.fail (by decide)) fun _ => h.pure _) fun _ => h.pure _

theorem writeObjectHeader (h : AppendSteps @P) (count : UInt8) :
    P (Writer.writeObjectHeader count) :=
  Prog.Closed.ite (fun _ => h.fail (by decide)) fun _ => h.appendByte count

theorem writeUnionHeader (h : AppendSteps @P) (tag : UInt16) :
    P (Writer.writeUnionHeader tag) :=
  Prog.Closed.ite (fun _ => h.appendByte _) fun _ =>
    h.bind (h.appendByte _) fun _ => h.writeRaw 2 _

theorem writeVarIntLength (h : AppendSteps @P) (value : Nat) :
    P (Writer.writeVarIntLength value) := by
  refine Prog.Closed.ite (fun _ => h.appendByte _) fun _ => ?_
  exact Prog.Closed.ite (fun _ => h.bind (h.appendByte _) fun _ => h.writeRaw 2 _)
    fun _ => h.bind (h.appendByte _) fun _ => h.writeRaw 4 _

theorem writeString (h : AppendSteps @P) (s : List UInt8) : P (Writer.writeString s) := by
  refine Prog.Closed.ite (fun _ => h.bind (h.writeRaw 4 _) fun _ => h.pure _) fun _ => ?_
  refine h.bind (h.toInt32Length _) fun n => ?_
  refine Prog.Closed.ite (fun _ => h.pure _) fun _ => ?_
  exact h.bind (h.writeRaw 4 _) fun _ => h.bind (h.writeRaw 4 _) fun _ => h.appendBytes s

theorem writeStringUtf16 (h : AppendSteps @P) (s : List UInt16) :
    P (Writer.writeStringUtf16 s) := by
  refine Prog.Closed.ite (fun _ => h.bind (h.writeRaw 4 _) fun _ => h.pure _) fun _ => ?_
  refine h.bind (h.toInt32Length _) fun n => ?_
  refine Prog.Closed.ite (fun _ => h.pure _) fun _ => ?_
  refine h.bind (h.writeRaw 4 _) fun _ => h.runAll ?_
  intro m hm
  obtain ⟨c, -, rfl⟩ := List.mem_map.mp hm
  exact h.writeRaw 2 _

theorem writeScalar (h : AppendSteps @P) (s : Scalar) (n : Nat) : P (Writer.writeScalar s n) := by
  cases s with
  | bool => exact h.appendByte _
  | float => exact h.writeRaw 4 n
  | double => exact h.writeRaw 8 n
  | int signed w =>
      cases w with
      | w1 => exact h.appendByte _
      | w2 => exact h.writeRaw 2 n
      | w4 => exact h.writeRaw 4 n
      | w8 => exact h.writeRaw 8 n
  | enum signed w => exact h.writeRaw w.bytes n

theorem runAll_map (h : AppendSteps @P) {β : Type} {f : β → WriteM Unit} (hf : ∀ b, P (f b))
    (bs : List β) : P (Prog.runAll (bs.map f)) := by
  apply h.runAll
  intro m hm
  obtain ⟨b, -, rfl⟩ := List.mem_map.mp hm
  exact hf b

theorem dotNetSerialize (h : AppendSteps @P) (d : DotNet) (v : Val) :
    P (Writer.dotNetSerialize d v) := by
  unfold Writer.dotNetSerialize
  split
  · exact h.bind (h.writeRaw 4 _) fun _ => h.bind (h.writeRaw 2 _) fun _ =>
      h.bind (h.writeRaw 2 _) fun _ => h.appendBytes _
  · exact h.writeRaw 8 _
  · exact h.writeRaw 8 _
  · refine h.bind (h.writeRaw 2 _) fun _ => h.bind (h.runAll ?_) fun _ => h.writeRaw 8 _
    intro m hm
    rw [List.eq_of_mem_replicate hm]
    exact h.appendByte _
  · exact h.appendBytes _
  · exact h.writeRaw 2 _
  · exact h.bind (h.writeRaw 8 _) fun _ => h.writeRaw 8 _
  · exact h.bind (h.writeRaw 8 _) fun _ => h.writeRaw 8 _
  · exact h.pure _

theorem finish (h : AppendSteps @P) (vt : VersionTolerantWriter) : P vt.finish := by
  refine Prog.Closed.ite (fun _ => h.writeObjectHeader _) fun _ => ?_
  exact h.bind (h.writeObjectHeader _) fun _ =>
    h.bind (h.runAll_map h.writeVarIntLength _) fun _ => h.appendBytes _

end AppendSteps

structure WriteSteps (P : ∀ {α : Type}, WriteM α → Prop) (A : Ty → Prop) : Prop
    extends AppendSteps @P where
  writeContiguous : ∀ w ns, P (Writer.writeContiguous w ns)
  writeNullableOf : ∀ {t : Ty}, A t → ∀ v, P (Writer.writeNullableOf t v)
  versionTolerant : ∀ {members : List (WriteM Unit)}, (∀ m ∈ members, P m) →
    P (VersionTolerantWriter.serialize members)

namespace WriteSteps

variable {P : ∀ {α : Type}, WriteM α → Prop} {A : Ty → Prop}

/-! ## Collections -/

theorem writeCounted (h : WriteSteps @P A) {size : Nat} {elements : WriteM Unit}
    (he : P elements) : P (Writer.writeCounted size elements) := by
  refine h.bind (h.toInt32Length size) fun n => ?_
  exact Prog.Closed.ite (fun _ => h.pure _) fun _ => h.bind (h.writeRaw 4 _) fun _ => he

theorem writeVector (h : WriteSteps @P A) (s : Scalar) (ns : List Nat) :
    P (Writer.writeVector s ns) := h.writeCounted (h.writeContiguous s.size ns)

theorem writeVectorBool (h : WriteSteps @P A) (ns : List Nat) : P (Writer.writeVectorBool ns) :=
  h.writeCounted (h.runAll_map (fun _ => h.appendByte _) ns)

theorem writeStringVector (h : WriteSteps @P A) (ss : List (List UInt8)) :
    P (Writer.writeStringVector ss) := h.writeCounted (h.runAll_map h.writeString ss)

theorem writeArrayPtr (h : WriteSteps @P A) (s : Scalar) (arr : List Nat) (count : Int) :
    P (Writer.writeArrayPtr s arr count) :=
  h.bind (h.writeRaw 4 _) fun _ =>
    Prog.Closed.ite (fun _ => h.pure _) fun _ => h.writeContiguous s.size _

theorem writeUnmanagedCollection (h : WriteSteps @P A) (items : List (List UInt8)) :
    P (Writer.writeUnmanagedCollection items) :=
  h.writeCounted (Prog.Closed.ite (fun _ => h.pure _) fun _ => h.appendBytes _)

theorem writeCollectionSpan (h : WriteSteps @P A) {t : Ty} {vs : List Val}
    {elements : List (WriteM Unit)} (he : ∀ m ∈ elements, P m) :
    P (Writer.writeCollectionSpan t vs elements) := by
  apply h.writeCounted
  split
  · exact Prog.Closed.ite (fun _ => h.writeContiguous _ _) fun _ => h.runAll he
  · exact h.runAll he

theorem writeCollection (h : WriteSteps @P A) {t : Ty} {vs : List Val}
    {elements : List (WriteM Unit)} (he : ∀ m ∈ elements, P m) :
    P (Writer.writeCollection t vs elements) := by
  apply h.writeCounted
  split
  · exact h.runAll_map (fun _ => h.appendByte _) vs
  · exact Prog.Closed.ite (fun _ => h.writeContiguous _ _) fun _ => h.runAll he
  · exact h.runAll he

theorem containerSerialize (h : WriteSteps @P A) {elements : List (WriteM Unit)}
    (he : ∀ m ∈ elements, P m) : P (Writer.containerSerialize elements) :=
  h.writeCounted (h.runAll he)

theorem defineSerialize (h : WriteSteps @P A) {count : Nat} {members : List (WriteM Unit)}
    (hm : ∀ m ∈ members, P m) : P (Writer.defineSerialize count members) :=
  h.bind (h.writeObjectHeader _) fun _ => h.runAll hm

theorem writeTuple (h : WriteSteps @P A) {items : List (WriteM Unit)} (hm : ∀ m ∈ items, P m) :
    P (Writer.writeTuple items) := h.defineSerialize hm

/-! ## Optionals and pointers -/

theorem optionalSerialize (h : WriteSteps @P A) {t : Ty} (ht : A t) {v : Option Val}
    {payload : WriteM Unit} (hp : P payload) : P (Writer.optionalSerialize t v payload) := by
  unfold Writer.optionalSerialize
  split
  · exact h.writeNullableOf ht _
  · exact h.writeRaw 4 _
  · exact h.writeRaw 4 _
  · exact h.appendByte _
  · exact hp

theorem writeNullableObject (h : WriteSteps @P A) {payload : Option (WriteM Unit)}
    (hp : ∀ m, payload = some m → P m) : P (Writer.writeNullableObject payload) := by
  cases payload with
  | none => exact h.appendByte _
  | some m => exact h.bind (h.appendByte _) fun _ => hp m rfl

theorem pointerSerialize (h : WriteSteps @P A) {payload : Option (WriteM Unit)}
    (hp : ∀ m, payload = some m → P m) : P (Writer.pointerSerialize payload) := by
  cases payload with
  | none => exact h.appendByte _
  | some m => exact hp m rfl

theorem unmanagedSerialize (h : WriteSteps @P A) (u : Unmanaged) (memory : List UInt8) :
    P (Writer.unmanagedSerialize u memory) := by
  unfold Writer.unmanagedSerialize
  split
  · exact h.appendBytes _
  · exact h.appendBytes _

end WriteSteps

/-! ## `Write<T>` -/

theorem Writer.elementWrites_eq (S : Schema) (t : Ty) :
    ∀ vs, Writer.elementWrites S t vs = vs.map (Writer.write S t)
  | [] => rfl
  | v :: vs => by rw [Writer.elementWrites, Writer.elementWrites_eq S t vs, List.map_cons]

theorem Writer.mem_memberWrites {S : Schema} {m : WriteM Unit} :
    ∀ {ts vs}, m ∈ Writer.memberWrites S ts vs → ∃ t ∈ ts, ∃ v ∈ vs, m = Writer.write S t v
  | [], _, h => absurd h (by simp [Writer.memberWrites])
  | _ :: _, [], h => absurd h (by simp [Writer.memberWrites])
  | t :: ts, v :: vs, h => by
      rw [Writer.memberWrites] at h
      rcases List.mem_cons.mp h with rfl | h
      · exact ⟨t, List.mem_cons_self, v, List.mem_cons_self, rfl⟩
      · obtain ⟨t', ht, v', hv, rfl⟩ := Writer.mem_memberWrites h
        exact ⟨t', List.mem_cons_of_mem _ ht, v', List.mem_cons_of_mem _ hv, rfl⟩

namespace WriteSteps

variable {P : ∀ {α : Type}, WriteM α → Prop} {A : Ty → Prop}

/-- A property closed under the steps holds of `Write<T>` for every type and value.
The induction is on the value, which is finite where the type need not be. -/
theorem write (h : WriteSteps @P A) {S : Schema}
    (hS : ∀ i, ∀ t ∈ (S.decl i).members, t.OptionalsIn A) (v : Val) :
    ∀ t : Ty, t.OptionalsIn A → P (Writer.write S t v) := by
  induction v with
  | scalar n =>
      intro t _
      cases t with
      | scalar s => exact h.writeScalar s n
      | dotNet d => exact h.dotNetSerialize d _
      | _ => exact h.pure _
  | bytes bs =>
      intro t _
      cases t with
      | string => exact h.writeString bs
      | unmanaged u => exact h.unmanagedSerialize u bs
      | dotNet d => exact h.dotNetSerialize d _
      | _ => exact h.pure _
  | units us =>
      intro t _
      cases t with
      | u16string => exact h.writeStringUtf16 us
      | dotNet d => exact h.dotNetSerialize d _
      | _ => exact h.pure _
  | seq vs ih =>
      intro t ht
      have helements : ∀ u : Ty, u.OptionalsIn A → ∀ m ∈ Writer.elementWrites S u vs, P m := by
        intro u hu m hm
        rw [Writer.elementWrites_eq] at hm
        obtain ⟨v, hv, rfl⟩ := List.mem_map.mp hm
        exact ih v hv u hu
      have hmembers : ∀ us : List Ty, (∀ u ∈ us, u.OptionalsIn A) →
          ∀ m ∈ Writer.memberWrites S us vs, P m := by
        intro us hus m hm
        obtain ⟨u, hu, v, hv, rfl⟩ := Writer.mem_memberWrites hm
        exact ih v hv u (hus u hu)
      cases t with
      | vector t => exact h.writeCollection (helements t (ht.of_subset (by simp [Ty.parts])))
      | sequence k t => exact h.containerSerialize (helements t (ht.of_subset (by simp [Ty.parts])))
      | array n t => exact h.writeCollectionSpan (helements t (ht.of_subset (by simp [Ty.parts])))
      | set o t => exact h.containerSerialize (helements t (ht.of_subset (by simp [Ty.parts])))
      | map o k t =>
          -- the optionals of an entry are those of its key and its value
          have hentry : (Ty.pair k t).OptionalsIn A := fun u hu =>
            ht u (by simpa [Ty.parts] using hu)
          exact h.containerSerialize (helements (.pair k t) hentry)
      | tuple ts =>
          exact h.writeTuple (hmembers ts fun u hu => ht.of_mem (by simp [Ty.parts]) hu)
      | dotNet d => exact h.dotNetSerialize d _
      | object i =>
          rw [Writer.write]
          split
          · exact h.defineSerialize (hmembers _ (hS i))
          · exact h.defineSerialize (fun m hm => absurd hm List.not_mem_nil)
          · exact h.versionTolerant (hmembers _ (hS i))
      | _ => exact h.pure _
  | pair a b iha ihb =>
      intro t ht
      cases t with
      | pair ta tb =>
          have ha : ta.OptionalsIn A := ht.of_subset (by simp [Ty.parts])
          have hb : tb.OptionalsIn A := ht.of_subset (by simp [Ty.parts])
          exact h.bind (iha ta ha) fun _ => ihb tb hb
      | dotNet d => exact h.dotNetSerialize d _
      | _ => exact h.pure _
  | none =>
      intro t ht
      cases t with
      | optional t => exact h.optionalSerialize (ht t (by simp [Ty.parts])) (h.pure _)
      | pointer p t => exact h.pointerSerialize (fun m hm => by simp at hm)
      | dotNet d => exact h.dotNetSerialize d _
      | _ => exact h.pure _
  | some v ih =>
      intro t ht
      cases t with
      | optional t =>
          exact h.optionalSerialize (ht t (by simp [Ty.parts]))
            (ih t (ht.of_subset (by simp [Ty.parts])))
      | pointer p t =>
          refine h.pointerSerialize fun m hm => ?_
          rw [← Option.some.inj hm]
          exact ih t (ht.of_subset (by simp [Ty.parts]))
      | dotNet d => exact h.dotNetSerialize d _
      | _ => exact h.pure _
  | alt i v ih =>
      intro t ht
      cases t with
      | variant tags ts =>
          refine h.bind (h.writeUnionHeader _) fun _ => ih _ ?_
          by_cases hi : i < ts.length
          · have hparts : Ty.partsList ts ⊆ (Ty.variant tags ts).parts := by simp [Ty.parts]
            refine ht.of_mem hparts ?_
            rw [List.getD_eq_getElem?_getD, List.getElem?_eq_getElem hi]
            exact List.getElem_mem hi
          · rw [List.getD_eq_getElem?_getD, List.getElem?_eq_none (Nat.not_lt.mp hi)]
            intro u hu
            simp [Ty.parts] at hu
      | dotNet d => exact h.dotNetSerialize d _
      | _ => exact h.pure _

end WriteSteps

/-! ## One build -/

/-- `B` is the build the programs run in. -/
structure WriteRules (B : Build) (P : ∀ {α : Type}, WriteM α → Prop) : Prop
    extends Prog.Closed @P where
  host : ∀ {α : Type} {f : Build → WriteM α}, P (f B) → P (Prog.ask >>= f)
  fail : ∀ {code : MemoryPackError}, code ≠ .none → P (Writer.fail code)
  throw : ∀ {α : Type} (code : MemoryPackError), P (Prog.throw code : WriteM α)
  appendBytes : ∀ bs, P (Writer.appendBytes bs)
  swallow : ∀ {m : WriteM Unit}, P m → P (VersionTolerantWriter.swallow m)

namespace WriteRules

variable {B : Build} {P : ∀ {α : Type}, WriteM α → Prop}

theorem writeRaw (h : WriteRules B @P) (w n : Nat) : P (Writer.writeRaw w n) :=
  h.host (h.appendBytes _)

theorem appendSteps (h : WriteRules B @P) : AppendSteps @P := { h with writeRaw := h.writeRaw }

theorem writeContiguous (h : WriteRules B @P) (w : Nat) (ns : List Nat) :
    P (Writer.writeContiguous w ns) := by
  refine Prog.Closed.ite (fun _ => h.pure _) fun _ => h.host ?_
  exact Prog.Closed.ite (fun _ => h.appendBytes _)
    fun _ => h.appendSteps.runAll_map (h.writeRaw w) ns

theorem writeNullableOf (h : WriteRules B @P) (t : Ty) (v : Option Val) :
    P (Writer.writeNullableOf t v) := by
  unfold Writer.writeNullableOf
  split
  · exact h.host (h.appendBytes _)
  · exact h.appendBytes _
  · exact h.pure _

/-- The members went to a private writer; only `Finish` reaches this one. -/
theorem versionTolerant (h : WriteRules B @P) (members : List (WriteM Unit)) :
    P (VersionTolerantWriter.serialize members) := by
  refine h.host ?_
  split
  · exact h.swallow (h.appendSteps.finish _)
  · exact h.bind (h.swallow (h.appendSteps.finish _)) fun _ => h.throw _

theorem steps (h : WriteRules B @P) : WriteSteps @P fun _ => True :=
  { h.appendSteps with
    writeContiguous := h.writeContiguous
    writeNullableOf := fun _ v => h.writeNullableOf _ v
    versionTolerant := fun _ => h.versionTolerant _ }

theorem write (h : WriteRules B @P) (S : Schema) (v : Val) (t : Ty) : P (Writer.write S t v) :=
  h.steps.write (fun _ _ _ _ _ => trivial) v t fun _ _ => trivial

end WriteRules

end MemoryPack
