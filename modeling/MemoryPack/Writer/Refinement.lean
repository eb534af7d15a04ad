import MemoryPack.Writer.Emits

/-!
# The writer refines an append-only list of bytes

Any sequence of public operations, on any number of writers that are constructed
in any of the three modes and moved into each other, keeps every writer equal to
the list of bytes appended to it since it was last cleared. `Traced` carries that
list as a ghost next to the writer; it is updated only from the appends a run made,
never from the buffers.
-/

namespace MemoryPack

open Effect

/-! ## Runs and their appends -/

namespace AppendList

def step (a : AppendList) : WriteEvent → AppendList
  | .appended bs => a.append bs
  | .refused _ => a
  | .failed code => a.record code

/-- An append happens when the bytes fit, a refusal when they do not. -/
def Allows (a : AppendList) : WriteEvent → Prop
  | .appended bs => a.Fits bs.length
  | .refused n => ¬ a.Fits n
  | .failed _ => True

def replay (a : AppendList) : List WriteEvent → AppendList
  | [] => a
  | e :: l => (a.step e).replay l

def Accepts (a : AppendList) : List WriteEvent → Prop
  | [] => True
  | e :: l => a.Allows e ∧ (a.step e).Accepts l

theorem replay_append (a : AppendList) (l l' : List WriteEvent) :
    a.replay (l ++ l') = (a.replay l).replay l' := by
  induction l generalizing a with
  | nil => rfl
  | cons e l ih => exact ih (a.step e)

theorem accepts_append {a : AppendList} {l l' : List WriteEvent} :
    a.Accepts (l ++ l') ↔ a.Accepts l ∧ (a.replay l).Accepts l' := by
  induction l generalizing a with
  | nil => simp [Accepts, replay]
  | cons e l ih =>
      show a.Allows e ∧ (a.step e).Accepts (l ++ l') ↔ _
      rw [ih]
      exact and_assoc.symm

end AppendList

/-- The bytes a run appended. -/
def appendedOf : List WriteEvent → List UInt8
  | [] => []
  | .appended bs :: l => bs ++ appendedOf l
  | _ :: l => appendedOf l

theorem AppendList.replay_bytes (a : AppendList) (l : List WriteEvent) :
    (a.replay l).bytes = a.bytes ++ appendedOf l := by
  induction l generalizing a with
  | nil => exact (List.append_nil _).symm
  | cons e l ih =>
      rw [replay, ih]
      cases e with
      | appended bs => simp [step, append, appendedOf]
      | refused n => rfl
      | failed code => rfl

/-- The run is the list's: the buffer ends as the events say, and each of them was
due. -/
def Replays (B : Build) {α : Type} (m : WriteM α) : Prop :=
  ∀ w : MemoryPackWriter, w.Inv → (m B w).st.Inv ∧
    (m B w).st.view = w.view.replay (m B w).log ∧ w.view.Accepts (m B w).log

theorem Replays.writeRules (B : Build) : WriteRules B (fun {α} => Replays B (α := α)) where
  pure := fun a w hw => ⟨hw, rfl, trivial⟩
  bind := by
    intro α β m f hm hf w hw
    obtain ⟨hinv, hview, hacc⟩ := hm w hw
    rw [Prog.bind_apply]
    rcases hres : m B w with ⟨a | c | _, s, l⟩ <;> rw [hres] at hinv hview hacc
    · obtain ⟨hinv', hview', hacc'⟩ := hf a s hinv
      refine ⟨hinv', ?_, ?_⟩
      · rw [Res.bind_ret, Res.after_st, Res.after_log, AppendList.replay_append, hview', hview]
      · rw [Res.bind_ret, Res.after_log, AppendList.accepts_append]
        exact ⟨hacc, hview ▸ hacc'⟩
    · exact ⟨hinv, hview, hacc⟩
    · exact ⟨hinv, hview, hacc⟩
  host := fun hf w hw => hf w hw
  fail := by
    intro code _ w hw
    rw [Emits.fail_apply]
    exact ⟨hw.record code, rfl, trivial, trivial⟩
  throw := fun c w hw => ⟨hw, rfl, trivial⟩
  appendBytes := by
    intro bs w hw
    by_cases hfits : w.view.Fits bs.length
    · rcases bs with _ | ⟨b, bs⟩
      · exact ⟨hw, rfl, trivial⟩
      · obtain ⟨w', hrun, hw', hview⟩ := Writer.appendBytes_fits (B := B) hw (by simp) hfits
        rw [hrun]
        exact ⟨hw', hview, hfits, trivial⟩
    · rw [Writer.appendBytes_full hw hfits, Emits.fail_apply]
      exact ⟨hw.record _, rfl, hfits, trivial, trivial⟩
  swallow := by
    intro m hm w hw
    rw [Emits.swallow_apply]
    exact hm w hw

/-! ## The public operations -/

/-- A public operation of `MemoryPackWriter` on one writer. The primitive writers and
`WriteEnum` are one constructor; a `Write<T>` call names its type. -/
inductive WriterOp (S : Schema) where
  | reserve (capacity : Nat)
  | clear
  | getBuffer
  | takeBuffer
  | checkedLength (size : Nat)
  | appendByte (b : UInt8)
  | appendBytes (bs : List UInt8)
  | writeBytes (data : List UInt8)
  | writeObjectHeader (memberCount : UInt8)
  | writeNullObjectHeader
  | writeCollectionHeader (length : Int)
  | writeNullCollectionHeader
  | writeUnionHeader (tag : UInt16)
  | writeNullUnionHeader
  | writeScalar (s : Scalar) (n : Nat)
  | writeChar16 (n : Nat)
  | writeVarIntLength (value : Nat)
  | writeString (s : List UInt8)
  | writeNullString
  | writeOptionalString (s : Option (List UInt8))
  | writeStringUtf16 (s : List UInt16)
  | writeUnmanaged (memory : List UInt8)
  | writeVector (s : Scalar) (ns : List Nat)
  | writeVectorBool (ns : List Nat)
  | writeStringVector (ss : List (List UInt8))
  | writeArrayPtr (s : Scalar) (arr : List Nat) (count : Int)
  | writeArray (s : Scalar) (ns : List Nat)
  | writeCollection (t : Ty) (vs : List Val)
  | writeCollectionSpan (t : Ty) (vs : List Val)
  | writeUnmanagedCollection (items : List (List UInt8))
  | writeMap (k t : Ty) (entries : List Val)
  | writeTuple (ts : List Ty) (vs : List Val)
  | writeOptional (t : Ty) (v : Option Val)
  | writePointer (t : Ty) (v : Option Val)
  | writeNullableObject (t : Ty) (v : Option Val)
  | writeNullable (align size : Nat) (value : Option (List UInt8))
  | write (t : Ty) (v : Val)

/-- The write an operation performs; `none` for the four that manage the buffer. -/
def WriterOp.writes {S : Schema} : WriterOp S → Option (WriteM Unit)
  | .reserve _ | .clear | .getBuffer | .takeBuffer => none
  | .checkedLength size => some do let _ ← Writer.toInt32Length size
  | .appendByte b => some (Writer.appendByte b)
  | .appendBytes bs => some (Writer.appendBytes bs)
  | .writeBytes data => some (Writer.writeBytes data)
  | .writeObjectHeader memberCount => some (Writer.writeObjectHeader memberCount)
  | .writeNullObjectHeader => some Writer.writeNullObjectHeader
  | .writeCollectionHeader length => some (Writer.writeCollectionHeader length)
  | .writeNullCollectionHeader => some Writer.writeNullCollectionHeader
  | .writeUnionHeader tag => some (Writer.writeUnionHeader tag)
  | .writeNullUnionHeader => some Writer.writeNullUnionHeader
  | .writeScalar s n => some (Writer.writeScalar s n)
  | .writeChar16 n => some (Writer.writeChar16 n)
  | .writeVarIntLength value => some (Writer.writeVarIntLength value)
  | .writeString s => some (Writer.writeString s)
  | .writeNullString => some Writer.writeNullString
  | .writeOptionalString s => some (Writer.writeOptionalString s)
  | .writeStringUtf16 s => some (Writer.writeStringUtf16 s)
  | .writeUnmanaged memory => some (Writer.writeUnmanaged memory)
  | .writeVector s ns => some (Writer.writeVector s ns)
  | .writeVectorBool ns => some (Writer.writeVectorBool ns)
  | .writeStringVector ss => some (Writer.writeStringVector ss)
  | .writeArrayPtr s arr count => some (Writer.writeArrayPtr s arr count)
  | .writeArray s ns => some (Writer.writeArray s ns)
  | .writeCollection t vs => some (Writer.writeCollection t vs (Writer.elementWrites S t vs))
  | .writeCollectionSpan t vs =>
      some (Writer.writeCollectionSpan t vs (Writer.elementWrites S t vs))
  | .writeUnmanagedCollection items => some (Writer.writeUnmanagedCollection items)
  | .writeMap k t entries =>
      some (Writer.containerSerialize (Writer.elementWrites S (.pair k t) entries))
  | .writeTuple ts vs => some (Writer.writeTuple (Writer.memberWrites S ts vs))
  | .writeOptional t v => some (Writer.pointerSerialize (v.map (Writer.write S t)))
  | .writePointer t v => some (Writer.pointerSerialize (v.map (Writer.write S t)))
  | .writeNullableObject t v => some (Writer.writeNullableObject (v.map (Writer.write S t)))
  | .writeNullable align size value => some (Writer.writeNullable align size value)
  | .write t v => some (Writer.write S t v)

/-- The operation on a writer, and the buffer it hands out, if any. -/
def WriterOp.run {S : Schema} (o : WriterOp S) : WriteM (List UInt8) :=
  match o with
  | .reserve capacity => do Writer.reserve capacity; return []
  | .clear => do Writer.clear; return []
  | .getBuffer => Writer.getBuffer
  | .takeBuffer => Writer.takeBuffer
  | o => do
      o.writes.getD (pure ())
      return []

theorem WriterOp.run_of_writes {S : Schema} {o : WriterOp S} {m : WriteM Unit}
    (hm : o.writes = some m) : o.run = (do m; return [] : WriteM (List UInt8)) := by
  cases o <;> first | exact Option.some.inj hm ▸ rfl | exact absurd hm (by simp [WriterOp.writes])

/-- Every write of the public interface is built from appends and failures. -/
theorem WriterOp.writes_rules {S : Schema} {B : Build} {P : ∀ {α : Type}, WriteM α → Prop}
    (h : WriteRules B @P) {o : WriterOp S} {m : WriteM Unit} (hm : o.writes = some m) : P m := by
  have helements : ∀ t vs, ∀ m ∈ Writer.elementWrites S t vs, P m := by
    intro t vs m hm
    rw [Writer.elementWrites_eq] at hm
    obtain ⟨v, -, rfl⟩ := List.mem_map.mp hm
    exact h.write S v t
  have hmembers : ∀ ts vs, ∀ m ∈ Writer.memberWrites S ts vs, P m := by
    intro ts vs m hm
    obtain ⟨t, -, v, -, rfl⟩ := Writer.mem_memberWrites hm
    exact h.write S v t
  have hvalue : ∀ t (v : Option Val) m, v.map (Writer.write S t) = some m → P m := by
    intro t v m hm
    obtain ⟨v, -, rfl⟩ := Option.map_eq_some_iff.mp hm
    exact h.write S v t
  cases o with
  | reserve capacity => simp [writes] at hm
  | clear => simp [writes] at hm
  | getBuffer => simp [writes] at hm
  | takeBuffer => simp [writes] at hm
  | checkedLength size =>
      obtain rfl := Option.some.inj hm
      exact h.bind (h.steps.toInt32Length size) fun _ => h.pure _
  | appendByte b => exact Option.some.inj hm ▸ h.steps.appendByte b
  | appendBytes bs => exact Option.some.inj hm ▸ h.appendBytes bs
  | writeBytes data => exact Option.some.inj hm ▸ h.appendBytes data
  | writeObjectHeader c => exact Option.some.inj hm ▸ h.steps.writeObjectHeader c
  | writeNullObjectHeader => exact Option.some.inj hm ▸ h.steps.appendByte _
  | writeCollectionHeader n => exact Option.some.inj hm ▸ h.writeRaw 4 _
  | writeNullCollectionHeader => exact Option.some.inj hm ▸ h.writeRaw 4 _
  | writeUnionHeader tag => exact Option.some.inj hm ▸ h.steps.writeUnionHeader tag
  | writeNullUnionHeader => exact Option.some.inj hm ▸ h.steps.appendByte _
  | writeScalar s n => exact Option.some.inj hm ▸ h.steps.writeScalar s n
  | writeChar16 n => exact Option.some.inj hm ▸ h.writeRaw 2 n
  | writeVarIntLength n => exact Option.some.inj hm ▸ h.steps.writeVarIntLength n
  | writeString s => exact Option.some.inj hm ▸ h.steps.writeString s
  | writeNullString => exact Option.some.inj hm ▸ h.writeRaw 4 _
  | writeOptionalString s =>
      obtain rfl := Option.some.inj hm
      cases s with
      | some s => exact h.steps.writeString s
      | none => exact h.writeRaw 4 _
  | writeStringUtf16 s => exact Option.some.inj hm ▸ h.steps.writeStringUtf16 s
  | writeUnmanaged memory => exact Option.some.inj hm ▸ h.appendBytes memory
  | writeVector s ns => exact Option.some.inj hm ▸ h.steps.writeVector s ns
  | writeVectorBool ns => exact Option.some.inj hm ▸ h.steps.writeVectorBool ns
  | writeStringVector ss => exact Option.some.inj hm ▸ h.steps.writeStringVector ss
  | writeArrayPtr s arr n => exact Option.some.inj hm ▸ h.steps.writeArrayPtr s arr n
  | writeArray s ns => exact Option.some.inj hm ▸ h.steps.writeVector s ns
  | writeCollection t vs => exact Option.some.inj hm ▸ h.steps.writeCollection (helements t vs)
  | writeCollectionSpan t vs =>
      exact Option.some.inj hm ▸ h.steps.writeCollectionSpan (helements t vs)
  | writeUnmanagedCollection items =>
      exact Option.some.inj hm ▸ h.steps.writeUnmanagedCollection items
  | writeMap k t entries => exact Option.some.inj hm ▸ h.steps.containerSerialize (helements _ entries)
  | writeTuple ts vs => exact Option.some.inj hm ▸ h.steps.writeTuple (hmembers ts vs)
  | writeOptional t v => exact Option.some.inj hm ▸ h.steps.pointerSerialize (hvalue t v)
  | writePointer t v => exact Option.some.inj hm ▸ h.steps.pointerSerialize (hvalue t v)
  | writeNullableObject t v => exact Option.some.inj hm ▸ h.steps.writeNullableObject (hvalue t v)
  | writeNullable align size value => exact Option.some.inj hm ▸ h.appendBytes _
  | write t v => exact Option.some.inj hm ▸ h.write S v t

/-! ## Runs over several writers -/

/-- A writer and the bytes appended to it since it was last cleared or its buffer
taken, after what an external vector held before. -/
structure Traced where
  writer : MemoryPackWriter
  appended : List UInt8

structure Traced.Ok (x : Traced) : Prop where
  inv : x.writer.Inv
  span : x.writer.getSpan = x.appended

/-- One operation, by a caller that goes on after an exception. -/
def Traced.op {S : Schema} (B : Build) (x : Traced) (o : WriterOp S) : Traced where
  writer := (o.run B x.writer).st
  appended :=
    match o with
    | .clear => []
    | .takeBuffer => if x.writer.mode = .owned then [] else x.appended
    | o => x.appended ++ appendedOf (o.run B x.writer).log

/-- What a program does with its writers, which it numbers in order of construction.
A fixed buffer has non-null storage. -/
inductive Command (S : Schema) where
  | construct
  | constructVector (v : List UInt8)
  | constructFixed (buf : List UInt8)
  | op (i : Nat) (o : WriterOp S)
  | moveConstruct (other : Nat)
  | moveAssign (i other : Nat)

/-- A moved-from writer is the default one again. -/
def Traced.moved (x : Traced) : Traced × Traced :=
  let p := Writer.moveConstruct x.writer
  (⟨p.1, x.appended⟩, ⟨p.2, []⟩)

def Command.step {S : Schema} (B : Build) (ws : List Traced) : Command S → List Traced
  | .construct => ws ++ [⟨{}, []⟩]
  | .constructVector v => ws ++ [⟨.ofVector v, v⟩]
  | .constructFixed buf => ws ++ [⟨.ofFixed (some buf) buf.length, []⟩]
  | .op i o =>
      match ws[i]? with
      | some x => ws.set i (x.op B o)
      | none => ws
  | .moveConstruct other =>
      match ws[other]? with
      | some x => ws.set other x.moved.2 ++ [x.moved.1]
      | none => ws
  | .moveAssign i other =>
      match ws[other]? with
      -- `if (this != &other)`
      | some x => if i = other then ws else (ws.set i x.moved.1).set other x.moved.2
      | none => ws

def Command.runAll {S : Schema} (B : Build) (cs : List (Command S)) : List Traced :=
  cs.foldl (Command.step B) []

theorem Traced.op_of_writes {S : Schema} {B : Build} {x : Traced} {o : WriterOp S}
    {m : WriteM Unit} (hm : o.writes = some m) : x.op B o =
      ⟨((do m; return [] : WriteM (List UInt8)) B x.writer).st,
        x.appended ++ appendedOf ((do m; return [] : WriteM (List UInt8)) B x.writer).log⟩ := by
  rw [← WriterOp.run_of_writes hm]
  cases o <;> first | rfl | exact absurd hm (by simp [WriterOp.writes])

/-- A write appends to the list what it appended to the buffer. -/
theorem Traced.Ok.writes {S : Schema} {B : Build} {x : Traced} (hx : x.Ok) {o : WriterOp S}
    {m : WriteM Unit} (hm : o.writes = some m) : (x.op B o).Ok := by
  have hrules := Replays.writeRules B
  have hrun : Replays B (do m; return [] : WriteM (List UInt8)) :=
    hrules.bind (WriterOp.writes_rules hrules hm) fun _ => hrules.pure _
  obtain ⟨hinv, hview, -⟩ := hrun x.writer hx.inv
  have hbytes := congrArg AppendList.bytes hview
  rw [AppendList.replay_bytes] at hbytes
  rw [Traced.op_of_writes hm]
  exact ⟨hinv, hbytes.trans (congrArg (· ++ _) hx.span)⟩

/-- An operation that appends nothing and leaves the view alone. -/
theorem Traced.Ok.still {x : Traced} (hx : x.Ok) {w' : MemoryPackWriter} (hw' : w'.Inv)
    (hspan : w'.getSpan = x.writer.getSpan) : Ok ⟨w', x.appended ++ []⟩ :=
  ⟨hw', (hspan.trans hx.span).trans (List.append_nil _).symm⟩

/-- An unsupported operation records its error and does nothing else. -/
theorem notSupported_apply {B : Build} {w : MemoryPackWriter} {m : WriteM (List UInt8)}
    (hm : m B w = (Writer.fail .notSupported B w).bind fun _ w' => ⟨.ret [], w', []⟩) :
    (m B w).st = w.record .notSupported ∧ appendedOf (m B w).log = [] := by
  rw [hm, Emits.fail_apply]
  rcases Emits.failOut_ends (B := B) .notSupported with ho | ⟨c, ho⟩ <;> rw [ho] <;>
    exact ⟨rfl, rfl⟩

/-- One operation keeps the writer and its list together. -/
theorem Traced.Ok.op {S : Schema} (B : Build) {x : Traced} (hx : x.Ok) (o : WriterOp S) :
    (x.op B o).Ok := by
  cases hm : o.writes with
  | some m => exact hx.writes hm
  | none =>
      cases o with
      | reserve capacity =>
          obtain ⟨w', hrun, hw', hview⟩ := Writer.reserve_view (B := B) hx.inv capacity
          show Ok ⟨((do Writer.reserve capacity; return [] : WriteM (List UInt8)) B x.writer).st,
            x.appended ++
              appendedOf ((do Writer.reserve capacity; return [] : WriteM _) B x.writer).log⟩
          rw [Prog.bind_apply, hrun]
          exact hx.still hw' (congrArg AppendList.bytes hview)
      | clear =>
          obtain ⟨w', hrun, hw', hview⟩ := Writer.clear_view (B := B) hx.inv
          show Ok ⟨((do Writer.clear; return [] : WriteM (List UInt8)) B x.writer).st, []⟩
          rw [Prog.bind_apply, hrun]
          exact ⟨hw', congrArg AppendList.bytes hview⟩
      | getBuffer =>
          show Ok ⟨(Writer.getBuffer B x.writer).st,
            x.appended ++ appendedOf (Writer.getBuffer B x.writer).log⟩
          by_cases hgrow : x.writer.fixedBuf = none ∨ x.writer.vec ≠ none
          · obtain ⟨w', hrun, hw', hview⟩ := Writer.getBuffer_growable (B := B) hx.inv hgrow
            rw [hrun]
            exact hx.still hw' (congrArg AppendList.bytes hview)
          · rw [not_or, not_not] at hgrow
            obtain ⟨buf, hbuf⟩ := Option.ne_none_iff_exists'.mp hgrow.1
            obtain ⟨hst, hlog⟩ := notSupported_apply (Writer.getBuffer_fixed (B := B) hgrow.2 hbuf)
            rw [hst, hlog]
            exact hx.still (hx.inv.record _) rfl
      | takeBuffer =>
          show Ok ⟨(Writer.takeBuffer B x.writer).st,
            if x.writer.mode = .owned then [] else x.appended⟩
          by_cases howned : x.writer.mode = .owned
          · obtain ⟨hv, hf⟩ := MemoryPackWriter.mode_eq_owned.mp howned
            rw [Writer.takeBuffer_owned hx.inv hv hf, if_pos howned]
            refine ⟨⟨Nat.le_refl _, hx.inv.fixed, hx.inv.storage⟩, ?_⟩
            simp [MemoryPackWriter.getSpan, MemoryPackWriter.data, MemoryPackWriter.size, hv, hf]
          · have hother : x.writer.vec ≠ none ∨ x.writer.fixedBuf ≠ none := by
              by_contra h
              rw [not_or, not_not, not_not] at h
              exact howned (MemoryPackWriter.mode_eq_owned.mpr h)
            obtain ⟨hst, -⟩ := notSupported_apply (Writer.takeBuffer_other (B := B) hother)
            rw [hst, if_neg howned]
            exact ⟨hx.inv.record _, hx.span⟩
      | _ => simp [WriterOp.writes] at hm

theorem Traced.Ok.moved {x : Traced} (hx : x.Ok) : x.moved.1.Ok ∧ x.moved.2.Ok :=
  ⟨⟨⟨hx.inv.owned, hx.inv.fixed, hx.inv.storage⟩, hx.span⟩, ⟨MemoryPackWriter.inv_default, rfl⟩⟩

theorem Command.step_ok {S : Schema} {B : Build} {ws : List Traced} (h : ∀ x ∈ ws, x.Ok)
    (c : Command S) : ∀ x ∈ c.step B ws, x.Ok := by
  have hset : ∀ {ws : List Traced} {i : Nat} {y : Traced}, (∀ x ∈ ws, x.Ok) → y.Ok →
      ∀ x ∈ ws.set i y, x.Ok := by
    intro ws i y hws hy x hx
    rcases List.mem_or_eq_of_mem_set hx with hx | rfl
    · exact hws x hx
    · exact hy
  have hsnoc : ∀ {ws : List Traced} {y : Traced}, (∀ x ∈ ws, x.Ok) → y.Ok →
      ∀ x ∈ ws ++ [y], x.Ok := by
    intro ws y hws hy x hx
    rcases List.mem_append.mp hx with hx | hx
    · exact hws x hx
    · rw [List.mem_singleton.mp hx]
      exact hy
  cases c with
  | construct => exact hsnoc h ⟨MemoryPackWriter.inv_default, rfl⟩
  | constructVector v =>
      refine hsnoc h ⟨MemoryPackWriter.inv_ofVector v, ?_⟩
      exact List.take_length
  | constructFixed buf => exact hsnoc h ⟨MemoryPackWriter.inv_ofFixed buf, rfl⟩
  | op i o =>
      show ∀ x ∈ (match ws[i]? with | some x => ws.set i (x.op B o) | none => ws), x.Ok
      split
      · next x hx => exact hset h ((h x (List.mem_of_getElem? hx)).op B o)
      · exact h
  | moveConstruct other =>
      show ∀ x ∈ (match ws[other]? with
        | some x => ws.set other x.moved.2 ++ [x.moved.1] | none => ws), x.Ok
      split
      · next x hx =>
          obtain ⟨hnew, hold⟩ := (h x (List.mem_of_getElem? hx)).moved
          exact hsnoc (hset h hold) hnew
      · exact h
  | moveAssign i other =>
      show ∀ x ∈ (match ws[other]? with
        | some x => if i = other then ws else (ws.set i x.moved.1).set other x.moved.2
        | none => ws), x.Ok
      split
      · next x hx =>
          obtain ⟨hnew, hold⟩ := (h x (List.mem_of_getElem? hx)).moved
          split
          · exact h
          · exact hset (hset h hnew) hold
      · exact h

/-- Every writer of every run is its list. -/
theorem Command.runAll_ok {S : Schema} (B : Build) (cs : List (Command S)) :
    ∀ x ∈ Command.runAll B cs, x.Ok := by
  have hrun : ∀ (cs : List (Command S)) (ws : List Traced), (∀ x ∈ ws, x.Ok) →
      ∀ x ∈ cs.foldl (Command.step B) ws, x.Ok := by
    intro cs
    induction cs with
    | nil => exact fun _ h => h
    | cons c cs ih => exact fun ws h => ih _ (Command.step_ok h c)
  exact hrun cs [] (fun x hx => absurd hx List.not_mem_nil)

/-! ## Fixed buffers -/

section Values

variable {S : Schema} {B : Build} {t : Ty} {v : Val} {bs : List UInt8} {e : MemoryPackError}

/-- A program that emits `bs` leaves them in a new buffer. -/
theorem takeBuffer_of_emits {m : WriteM Unit} (h : Emits B m (.ret ()) bs e) :
    ((do m; Writer.takeBuffer : WriteM (List UInt8)) B {}).out = .ret bs := by
  have hinv := h.inv {} MemoryPackWriter.inv_default
  obtain ⟨hout, hview⟩ := h.room {} MemoryPackWriter.inv_default trivial
  obtain ⟨hv, hf⟩ := MemoryPackWriter.mode_eq_owned.mp (congrArg AppendList.mode hview)
  have hspan := congrArg AppendList.bytes hview
  rw [Prog.bind_apply]
  rcases hres : m B {} with ⟨a | c | _, s, l⟩ <;>
    rw [hres] at hout hinv hv hf hspan <;> cases hout
  rw [Res.bind_ret, Writer.takeBuffer_owned hinv hv hf]
  exact congrArg Out.ret hspan

theorem serialize_of_emits (h : Emits B (Writer.write S t v) (.ret ()) bs e) :
    serialize S B t v = .ret bs := takeBuffer_of_emits h

/-- The caller's vector, behind what it held. -/
theorem getSpan_of_emits {m : WriteM Unit} (h : Emits B m (.ret ()) bs e) (out : List UInt8) :
    ((do m; return (← Prog.get).getSpan : WriteM (List UInt8)) B (.ofVector out)).out =
      .ret (out ++ bs) := by
  obtain ⟨hout, hview⟩ := h.room (.ofVector out) (MemoryPackWriter.inv_ofVector out) trivial
  have hspan : _ = (MemoryPackWriter.ofVector out).getSpan ++ bs :=
    congrArg AppendList.bytes hview
  have hempty : (MemoryPackWriter.ofVector out).getSpan = out := List.take_length
  rw [Prog.bind_apply]
  rcases hres : m B (.ofVector out) with ⟨a | c | _, s, l⟩ <;>
    rw [hres] at hout hspan <;> cases hout
  show Out.ret s.getSpan = _
  rw [← hempty, ← hspan]
  rfl

theorem serializeInto_of_emits (h : Emits B (Writer.write S t v) (.ret ()) bs e)
    (out : List UInt8) : serializeInto S B t v out = .ret (out ++ bs) := getSpan_of_emits h out

end Values

end MemoryPack
