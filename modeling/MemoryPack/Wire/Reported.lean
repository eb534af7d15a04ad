import MemoryPack.Wire.Packet

/-!
# What a caller learns of a write that fails

`SerializeTo` and `TrySerializeTo` answer with a number of bytes or with an error;
`WritePacket` answers with nothing but an exception. The two questions are whether the
bytes claimed are there, and whether a failed packet leaves a trace in the send buffer.
-/

namespace MemoryPack

open Effect

/-- `Serialize(v)` does not fail and gives `bs`. -/
def SerializesTo (S : Schema) (B : Build) (t : Ty) (v : Val) (bs : List UInt8) : Prop :=
  (Writer.write S t v B {}).out = .ret () ∧ (Writer.write S t v B {}).st.error = .none ∧
    (Writer.write S t v B {}).st.getSpan = bs

section Emitted

variable {S : Schema} {B : Build} {t : Ty} {v : Val} {o : Out MemoryPackError Unit}
  {bs : List UInt8} {e : MemoryPackError}

theorem serializesTo_iff (h : Emits B (Writer.write S t v) o bs e) (bs' : List UInt8) :
    SerializesTo S B t v bs' ↔ o = .ret () ∧ e = .none ∧ bs = bs' := by
  obtain ⟨hout, hview⟩ := h.room {} MemoryPackWriter.inv_default trivial
  have herror : (Writer.write S t v B {}).st.error = e := congrArg AppendList.error hview
  have hspan : (Writer.write S t v B {}).st.getSpan = bs := congrArg AppendList.bytes hview
  unfold SerializesTo
  rw [hout, herror, hspan]

theorem SerializesTo.serialize_eq (h : SerializesTo S B t v bs) : serialize S B t v = .ret bs := by
  obtain ⟨o, bs', e, -, hemits⟩ := (Emitting.writeRules B).write S v t
  obtain ⟨rfl, rfl, rfl⟩ := (serializesTo_iff hemits bs).mp h
  exact serialize_of_emits hemits

end Emitted

/-! ## Overflow is the only failure of its own -/

/-- A write that records no error where it has room fails without room by an overflow and
by nothing else. -/
def Overflows (B : Build) {α : Type} (m : WriteM α) : Prop :=
  ∃ o bs e, o ≠ .diverge ∧ Emits B m o bs e ∧
    (e = .none → ∀ w : MemoryPackWriter, w.Inv → ¬ w.view.Fits bs.length →
      (m B w).st.error = (if w.error = .none then .bufferOverflow else w.error) ∧
      ((m B w).out = o ∨ (m B w).out = .throw .bufferOverflow))

theorem MemoryPackError.andThen_eq_none {e e' : MemoryPackError} (h : e.andThen e' = .none) :
    e = .none ∧ e' = .none := by
  unfold MemoryPackError.andThen at h
  split at h
  · next he => exact ⟨he, h⟩
  · next he => exact absurd h he

namespace Overflows

variable {B : Build} {α β : Type}

theorem of_roomy {m : WriteM α} {o : Out MemoryPackError α} {e : MemoryPackError}
    (ho : o ≠ .diverge) (h : Emits B m o [] e) : Overflows B m :=
  ⟨o, [], e, ho, h, fun _ _ hw hfull => absurd hw.fits_zero hfull⟩

/-- Once an error is recorded it stays the one recorded. -/
theorem settled {m : WriteM α} {o : Out MemoryPackError α} {bs : List UInt8}
    (h : Emits B m o bs .none)
    (hfull : ∀ w : MemoryPackWriter, w.Inv → ¬ w.view.Fits bs.length →
      (m B w).st.error = (if w.error = .none then .bufferOverflow else w.error) ∧
      ((m B w).out = o ∨ (m B w).out = .throw .bufferOverflow))
    {w : MemoryPackWriter} (hw : w.Inv) (he : w.error ≠ .none) :
    (m B w).st.error = w.error ∧ ((m B w).out = o ∨ (m B w).out = .throw .bufferOverflow) := by
  by_cases hfits : w.view.Fits bs.length
  · obtain ⟨hout, hview⟩ := h.room w hw hfits
    rw [AppendList.record_none] at hview
    exact ⟨congrArg AppendList.error hview, Or.inl hout⟩
  · obtain ⟨herror, hout⟩ := hfull w hw hfits
    rw [if_neg he] at herror
    exact ⟨herror, hout⟩

theorem bind {m : WriteM α} {f : α → WriteM β} (hm : Overflows B m) (hf : ∀ a, Overflows B (f a)) :
    Overflows B (m >>= f) := by
  obtain ⟨o, bs, e, ho, hemits, hfull⟩ := hm
  rcases o with a | c | _
  · obtain ⟨o', cs, e', ho', hemits', hfull'⟩ := hf a
    refine ⟨o', bs ++ cs, e.andThen e', ho', hemits.bind hemits', fun he w hw hno => ?_⟩
    obtain ⟨rfl, rfl⟩ := MemoryPackError.andThen_eq_none he
    have hw' := hemits.inv w hw
    rw [Prog.bind_apply]
    by_cases hfits : w.view.Fits bs.length
    · -- the second part is the one that does not fit
      obtain ⟨hout, hview⟩ := hemits.room w hw hfits
      rw [AppendList.record_none] at hview
      rcases hres : m B w with ⟨b | c | _, s, l⟩ <;> rw [hres] at hout hview hw' <;> cases hout
      have herror : s.error = w.error := congrArg AppendList.error hview
      have hno' : ¬ s.view.Fits cs.length := by
        rwa [hview, AppendList.fits_append, ← List.length_append]
      rw [Res.bind_ret, Res.after_st, Res.after_out, ← herror]
      exact hfull' rfl s hw' hno'
    · obtain ⟨herror, hout⟩ := hfull rfl w hw hfits
      rcases hres : m B w with ⟨b | c | _, s, l⟩ <;> rw [hres] at hout herror hw'
      · obtain rfl : b = a := by
          rcases hout with hout | hout <;> cases hout
          rfl
        have hne : s.error ≠ .none := by
          have herror : s.error = if w.error = .none then .bufferOverflow else w.error := herror
          rw [herror]
          split
          · simp
          · assumption
        rw [Res.bind_ret, Res.after_st, Res.after_out, ← herror]
        exact settled hemits' (hfull' rfl) hw' hne
      · refine ⟨herror, Or.inr ?_⟩
        rcases hout with hout | hout <;> cases hout
        rfl
      · rcases hout with hout | hout <;> cases hout
  · refine ⟨.throw c, bs, e, by simp, hemits.stop, fun he w hw hno => ?_⟩
    obtain ⟨herror, hout⟩ := hfull he w hw hno
    rw [Prog.bind_apply]
    rcases hres : m B w with ⟨b | c' | _, s, l⟩ <;> rw [hres] at herror hout
    · rcases hout with hout | hout <;> cases hout
    · exact ⟨herror, hout.imp (fun h => by cases h; rfl) fun h => by cases h; rfl⟩
    · rcases hout with hout | hout <;> cases hout
  · exact absurd rfl ho

theorem appendBytes (bs : List UInt8) : Overflows B (Writer.appendBytes bs) := by
  refine ⟨_, bs, _, by simp, Emits.appendBytes bs, fun _ w hw hfull => ?_⟩
  rw [Writer.appendBytes_full hw hfull, Emits.fail_apply]
  refine ⟨rfl, ?_⟩
  unfold Emits.failOut
  split
  · exact Or.inr rfl
  · exact Or.inl rfl

theorem swallow {m : WriteM Unit} (h : Overflows B m) :
    Overflows B (VersionTolerantWriter.swallow m) := by
  obtain ⟨o, bs, e, ho, hemits, hfull⟩ := h
  refine ⟨_, bs, e, by simp, hemits.swallow ho, fun he w hw hno => ?_⟩
  obtain ⟨herror, hout⟩ := hfull he w hw hno
  rw [Emits.swallow_apply]
  refine ⟨herror, Or.inl ?_⟩
  rcases hout with hout | hout <;> rw [hout]
  · rcases o with _ | c | _
    · rfl
    · rfl
    · exact absurd rfl ho
  · rfl

theorem writeRules (B : Build) : WriteRules B (fun {α} => Overflows B (α := α)) where
  pure := fun a => of_roomy (by simp) (Emits.pure a)
  bind := bind
  host := by
    rintro α f ⟨o, bs, e, ho, hemits, hfull⟩
    exact ⟨o, bs, e, ho, hemits.host, hfull⟩
  fail := by
    intro code _
    refine of_roomy ?_ (Emits.fail code)
    unfold Emits.failOut
    split <;> simp
  throw := fun c => of_roomy (by simp) (Emits.throw c)
  appendBytes := appendBytes
  swallow := swallow

end Overflows

/-! ## Fixed buffers

A `std::span<uint8_t>` is the bytes it refers to, or a null `data()` with no bytes. -/

/-- `buffer.size()`. -/
def spanSize (buffer : Option (List UInt8)) : Nat := (buffer.getD []).length

/-- The writer `SerializeTo` and `TrySerializeTo` leave behind. -/
def writerInto (S : Schema) (B : Build) (t : Ty) (v : Val) (buffer : Option (List UInt8)) :
    MemoryPackWriter := (Writer.write S t v B (.ofFixed buffer (spanSize buffer))).st

/-- The first `n` bytes of the caller's buffer afterwards. -/
def bufferPrefix (S : Schema) (B : Build) (t : Ty) (v : Val) (buffer : Option (List UInt8))
    (n : Nat) : List UInt8 := ((writerInto S B t v buffer).fixedBuf.getD []).take n

/-- The bytes claimed are in the buffer and are `Serialize(v)`; what else is answered is an
error, and for a value that `Serialize` accepts it is `BufferOverflow`. -/
structure ClaimsWhatIsWritten (S : Schema) (B : Build) (t : Ty) (v : Val)
    (buffer : Option (List UInt8)) : Prop where
  serialized : ∀ n span, serializeTo S B t v buffer (spanSize buffer) = .ret (n, span) → 0 < n →
    n ≤ spanSize buffer ∧ SerializesTo S B t v (bufferPrefix S B t v buffer n)
  trySerialized : ∀ n, trySerializeTo S B t v buffer (spanSize buffer) = .ok n →
    n ≤ spanSize buffer ∧ SerializesTo S B t v (bufferPrefix S B t v buffer n)
  returns : serializeTo S B t v buffer (spanSize buffer) ≠ .diverge
  thrown : ∀ code, serializeTo S B t v buffer (spanSize buffer) = .throw code →
    (∃ bs, SerializesTo S B t v bs) → code = .bufferOverflow
  refused : ∀ code, trySerializeTo S B t v buffer (spanSize buffer) = .error code →
    (∃ bs, SerializesTo S B t v bs) → code = .bufferOverflow

section FixedBuffer

variable {S : Schema} {B : Build} {t : Ty} {v : Val} {buffer : Option (List UInt8)}

/-- The writer over the span satisfies the invariant, also without storage. -/
theorem inv_ofSpan (buffer : Option (List UInt8)) :
    (MemoryPackWriter.ofFixed buffer (spanSize buffer)).Inv := by
  cases buffer with
  | some buf => exact MemoryPackWriter.inv_ofFixed buf
  | none => exact ⟨Nat.le_refl _, Nat.le_refl _, fun _ h => by simp [MemoryPackWriter.ofFixed] at h⟩

/-- `SerializeTo` and `TrySerializeTo` read the answer off the finished writer. -/
theorem answers_ret {w : MemoryPackWriter} {l : List WriteEvent}
    (h : Writer.write S t v B (.ofFixed buffer (spanSize buffer)) = ⟨.ret (), w, l⟩) :
    serializeTo S B t v buffer (spanSize buffer) =
      .ret (if w.failed then 0 else w.size, w.getSpan) ∧
    trySerializeTo S B t v buffer (spanSize buffer) =
      (if w.failed then .error w.error else .ok w.size) := by
  unfold serializeTo trySerializeTo
  rw [Prog.bind_apply, h]
  exact ⟨rfl, rfl⟩

theorem answers_throw {w : MemoryPackWriter} {l : List WriteEvent} {code : MemoryPackError}
    (h : Writer.write S t v B (.ofFixed buffer (spanSize buffer)) = ⟨.throw code, w, l⟩) :
    serializeTo S B t v buffer (spanSize buffer) = .throw code ∧
    trySerializeTo S B t v buffer (spanSize buffer) =
      .error (if w.error = .none then .bufferOverflow else w.error) := by
  unfold serializeTo trySerializeTo
  rw [Prog.bind_apply, h]
  exact ⟨rfl, rfl⟩

/-- A write that fails claims nothing; it must blame the buffer if the value is not to
blame. -/
theorem ClaimsWhatIsWritten.of_failed {w : MemoryPackWriter} {l : List WriteEvent}
    (h : Writer.write S t v B (.ofFixed buffer (spanSize buffer)) = ⟨.ret (), w, l⟩)
    (hfailed : w.error ≠ .none)
    (hcode : (∃ bs, SerializesTo S B t v bs) → w.error = .bufferOverflow) :
    ClaimsWhatIsWritten S B t v buffer := by
  obtain ⟨hto, htry⟩ := answers_ret h
  have hw : w.failed = true := by simpa [MemoryPackWriter.failed] using hfailed
  rw [hw, if_pos rfl] at hto htry
  constructor
  · intro n span hn hpos
    rw [hto] at hn
    obtain ⟨rfl, -⟩ := Prod.mk.inj (Out.ret.inj hn)
    exact absurd hpos (Nat.lt_irrefl 0)
  · intro n hn
    rw [htry] at hn
    cases hn
  · rw [hto]
    simp
  · intro code hthrow
    rw [hto] at hthrow
    cases hthrow
  · intro code herror hbs
    rw [htry] at herror
    cases herror
    exact hcode hbs

theorem ClaimsWhatIsWritten.of_throw {w : MemoryPackWriter} {l : List WriteEvent}
    {c : MemoryPackError}
    (h : Writer.write S t v B (.ofFixed buffer (spanSize buffer)) = ⟨.throw c, w, l⟩)
    (hcode : (∃ bs, SerializesTo S B t v bs) → c = .bufferOverflow ∧ w.error = .bufferOverflow) :
    ClaimsWhatIsWritten S B t v buffer := by
  obtain ⟨hto, htry⟩ := answers_throw h
  constructor
  · intro n span hn
    rw [hto] at hn
    cases hn
  · intro n hn
    rw [htry] at hn
    cases hn
  · rw [hto]
    simp
  · intro code hthrow hbs
    rw [hto] at hthrow
    cases hthrow
    exact (hcode hbs).1
  · intro code herror hbs
    rw [htry] at herror
    cases herror
    rw [(hcode hbs).2]
    rfl

/-- A write that succeeds claims its bytes, which are in the buffer if there is one. -/
theorem ClaimsWhatIsWritten.of_ok {w : MemoryPackWriter} {l : List WriteEvent} {bs : List UInt8}
    (h : Writer.write S t v B (.ofFixed buffer (spanSize buffer)) = ⟨.ret (), w, l⟩)
    (hok : w.error = .none) (hsize : w.size = bs.length) (hbs : SerializesTo S B t v bs)
    (hbuffer : bs.length ≤ spanSize buffer ∧ bufferPrefix S B t v buffer bs.length = bs) :
    ClaimsWhatIsWritten S B t v buffer := by
  obtain ⟨hto, htry⟩ := answers_ret h
  have hw : w.failed = false := by simpa [MemoryPackWriter.failed] using hok
  rw [hw, if_neg (by simp), hsize] at hto htry
  constructor
  · intro n span hn _
    rw [hto] at hn
    obtain ⟨rfl, -⟩ := Prod.mk.inj (Out.ret.inj hn)
    rw [hbuffer.2]
    exact ⟨hbuffer.1, hbs⟩
  · intro n hn
    rw [htry] at hn
    cases hn
    rw [hbuffer.2]
    exact ⟨hbuffer.1, hbs⟩
  · rw [hto]
    simp
  · intro code hthrow
    rw [hto] at hthrow
    cases hthrow
  · intro code herror
    rw [htry] at herror
    cases herror

end FixedBuffer

/-- In a fixed buffer, what was written is its first bytes. -/
theorem MemoryPackWriter.fixed_prefix {w : MemoryPackWriter} {capacity : Nat}
    (hmode : w.mode = .fixed capacity) : (w.fixedBuf.getD []).take w.size = w.getSpan := by
  unfold mode at hmode
  unfold getSpan data size
  rcases hv : w.vec with _ | u <;> rcases hf : w.fixedBuf with _ | b <;> rw [hv, hf] at hmode <;>
    simp at hmode
  rfl

/-- What is claimed is written, and what is refused is blamed on the right cause, exactly
when the span has storage, or there is nothing to store: a null `data()` turns the writer
into one that owns its buffer. -/
theorem claims_what_is_written_iff (S : Schema) (B : Build) (t : Ty) (v : Val)
    (buffer : Option (List UInt8)) :
    ClaimsWhatIsWritten S B t v buffer ↔
      buffer.isSome = true ∨ ∀ bs, SerializesTo S B t v bs → bs = [] := by
  obtain ⟨o, bs, e, ho, hemits, hover⟩ := (Overflows.writeRules B).write S v t
  have hiff := serializesTo_iff hemits
  have hinv := inv_ofSpan buffer
  have hinv' := hemits.inv _ hinv
  by_cases hfits : (MemoryPackWriter.ofFixed buffer (spanSize buffer)).view.Fits bs.length
  · obtain ⟨hout, hview⟩ := hemits.room _ hinv hfits
    rcases hres : Writer.write S t v B (.ofFixed buffer (spanSize buffer)) with ⟨a | c | _, w, l⟩ <;>
      rw [hres] at hout hview hinv' <;> subst hout
    · have herror : w.error = e := congrArg AppendList.error hview
      by_cases he : e = .none
      · have hbs : SerializesTo S B t v bs := (hiff bs).mpr ⟨rfl, he, rfl⟩
        cases buffer with
        | some buf =>
            have hspan : w.getSpan = bs := congrArg AppendList.bytes hview
            have hsize : w.size = bs.length := by
              rw [← MemoryPackWriter.Inv.length_getSpan hinv', hspan]
            have hprefix : bufferPrefix S B t v (some buf) bs.length = bs := by
              have hmode : w.mode = .fixed buf.length := congrArg AppendList.mode hview
              rw [bufferPrefix, writerInto, hres, ← hsize]
              exact (MemoryPackWriter.fixed_prefix hmode).trans hspan
            have hle : bs.length ≤ spanSize (some buf) :=
              (MemoryPackWriter.fits_iff hinv rfl).mp hfits
            exact ⟨fun _ => Or.inl rfl, fun _ => .of_ok hres (herror.trans he) hsize hbs ⟨hle, hprefix⟩⟩
        | none =>
            have hspan : w.getSpan = bs := congrArg AppendList.bytes hview
            have hsize : w.size = bs.length := by
              rw [← MemoryPackWriter.Inv.length_getSpan hinv', hspan]
            have hw : w.failed = false := by simpa [MemoryPackWriter.failed] using herror.trans he
            constructor
            · intro h
              have htry := (answers_ret hres).2
              rw [hw, if_neg (by simp), hsize] at htry
              obtain ⟨hle, -⟩ := h.trySerialized _ htry
              refine Or.inr fun bs' hbs' => ?_
              obtain ⟨-, -, rfl⟩ := (hiff bs').mp hbs'
              exact List.length_eq_zero_iff.mp (Nat.le_zero.mp hle)
            · intro h
              have hnil : bs = [] := h.resolve_left (by simp) bs hbs
              subst hnil
              exact .of_ok hres (herror.trans he) hsize hbs ⟨Nat.zero_le _, List.take_zero⟩
      · have hnot : ∀ bs', ¬ SerializesTo S B t v bs' := fun bs' hbs' => he ((hiff bs').mp hbs').2.1
        exact ⟨fun _ => Or.inr fun bs' hbs' => absurd hbs' (hnot bs'),
          fun _ => .of_failed hres (herror ▸ he) fun h => absurd h (not_exists.mpr hnot)⟩
    · have hnot : ∀ bs', ¬ SerializesTo S B t v bs' := by
        intro bs' hbs'
        cases ((hiff bs').mp hbs').1
      exact ⟨fun _ => Or.inr fun bs' hbs' => absurd hbs' (hnot bs'),
        fun _ => .of_throw hres fun h => absurd h (not_exists.mpr hnot)⟩
    · exact absurd rfl ho
  · -- only a span with storage can be too small
    have hsome : buffer.isSome = true := by
      cases buffer with
      | some buf => rfl
      | none => exact absurd trivial hfits
    refine ⟨fun _ => Or.inl hsome, fun _ => ?_⟩
    obtain ⟨hfailed, hout⟩ := hemits.full _ hinv hfits
    have hblame : (∃ bs', SerializesTo S B t v bs') → _ := fun h =>
      hover ((hiff _).mp h.choose_spec).2.1 _ hinv hfits
    rcases hres : Writer.write S t v B (.ofFixed buffer (spanSize buffer)) with ⟨a | c | _, w, l⟩ <;>
      rw [hres] at hfailed hout hblame
    · exact .of_failed hres hfailed fun hbs => (hblame hbs).1
    · refine .of_throw hres fun hbs => ⟨?_, (hblame hbs).1⟩
      obtain ⟨bs', hbs'⟩ := hbs
      obtain ⟨rfl, -⟩ := (hiff bs').mp hbs'
      rcases (hblame ⟨bs', hbs'⟩).2 with h | h
      · cases h
      · exact Out.throw.inj h
    · rcases hout with h | ⟨c, h⟩
      · exact absurd h.symm ho
      · cases h

/-- One byte into a span whose `data()` is null: both answers claim a byte. -/
theorem null_span_claims_a_byte :
    serializeTo .plain ⟨true, .little, .w64, 0⟩ (.scalar (.int false .w1)) (.scalar 7) none 0 =
      .ret (1, [7]) ∧
    trySerializeTo .plain ⟨true, .little, .w64, 0⟩ (.scalar (.int false .w1)) (.scalar 7) none 0 =
      .ok 1 ∧
    ¬ ClaimsWhatIsWritten .plain ⟨true, .little, .w64, 0⟩ (.scalar (.int false .w1)) (.scalar 7)
      none := by
  refine ⟨rfl, rfl, fun h => ?_⟩
  obtain ⟨hle, -⟩ := h.trySerialized 1 rfl
  exact absurd hle (by decide)

/-! ## Packets -/

section Packets

variable {S : Schema} {B : Build} {t : Ty} {body : Val} {o : Out MemoryPackError Unit}
  {bs : List UInt8} {e : MemoryPackError}

end Packets

end MemoryPack
