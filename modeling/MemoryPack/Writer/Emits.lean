import MemoryPack.Writer.Rules

/-!
# What a write does to a writer

A `Write*` never looks at the buffer it writes to. So what it appends, how it ends
and which error it records are the same for every writer with enough room
(`Emits.room`), and a writer without enough room is left with an error
(`Emits.full`). Every `Write*` emits something in this sense, which is why the three
buffer modes agree.
-/

namespace MemoryPack

open Effect

structure Emits (B : Build) {α : Type} (m : WriteM α) (o : Out MemoryPackError α)
    (bs : List UInt8) (e : MemoryPackError) : Prop where
  inv : ∀ w : MemoryPackWriter, w.Inv → (m B w).st.Inv
  room : ∀ w : MemoryPackWriter, w.Inv → w.view.Fits bs.length →
    (m B w).out = o ∧ (m B w).st.view = (w.view.append bs).record e
  full : ∀ w : MemoryPackWriter, w.Inv → ¬ w.view.Fits bs.length →
    (m B w).st.error ≠ .none ∧ ((m B w).out = o ∨ ∃ c, (m B w).out = .throw c)

/-- The error left when one part records `e` and a later one `e'`. -/
def MemoryPackError.andThen (e e' : MemoryPackError) : MemoryPackError :=
  if e = .none then e' else e

theorem AppendList.record_record (a : AppendList) (e e' : MemoryPackError) :
    (a.record e).record e' = a.record (e.andThen e') := by
  unfold AppendList.record MemoryPackError.andThen
  by_cases ha : a.error = .none
  · simp [ha]
  · simp [ha]

theorem AppendList.append_record (a : AppendList) (e : MemoryPackError) (bs : List UInt8) :
    (a.record e).append bs = (a.append bs).record e := rfl

namespace Emits

variable {B : Build} {α β : Type} {m : WriteM α} {f : α → WriteM β} {bs cs : List UInt8}
  {e e' : MemoryPackError}

/-- An error stays recorded. -/
theorem sticky {o : Out MemoryPackError α} (h : Emits B m o bs e) {w : MemoryPackWriter}
    (hw : w.Inv) (he : w.error ≠ .none) : (m B w).st.error ≠ .none := by
  by_cases hfits : w.view.Fits bs.length
  · rw [← MemoryPackWriter.view_error, (h.room w hw hfits).2]
    exact AppendList.record_error_ne he
  · exact (h.full w hw hfits).1

/-- With room or without, it ends as it should or throws. -/
theorem ends {o : Out MemoryPackError α} (h : Emits B m o bs e) {w : MemoryPackWriter}
    (hw : w.Inv) : (m B w).out = o ∨ ∃ c, (m B w).out = .throw c := by
  by_cases hfits : w.view.Fits bs.length
  · exact Or.inl (h.room w hw hfits).1
  · exact (h.full w hw hfits).2

/-- Nothing is appended: there is always room for that. -/
theorem of_nothing {o : Out MemoryPackError α} (hinv : ∀ w : MemoryPackWriter, w.Inv →
    (m B w).st.Inv ∧ (m B w).out = o ∧ (m B w).st.view = w.view.record e) :
    Emits B m o [] e where
  inv := fun w hw => (hinv w hw).1
  room := fun w hw _ => by
    rw [AppendList.append_nil]
    exact (hinv w hw).2
  full := fun w hw hfull => absurd hw.fits_zero hfull

theorem pure (a : α) : Emits B (Pure.pure a : WriteM α) (.ret a) [] .none :=
  of_nothing fun _ hw => ⟨hw, rfl, (AppendList.record_none _).symm⟩

theorem throw (c : MemoryPackError) : Emits B (Prog.throw c : WriteM α) (.throw c) [] .none :=
  of_nothing fun _ hw => ⟨hw, rfl, (AppendList.record_none _).symm⟩

theorem bind {a : α} {o : Out MemoryPackError β} (hm : Emits B m (.ret a) bs e)
    (hf : Emits B (f a) o cs e') : Emits B (m >>= f) o (bs ++ cs) (e.andThen e') where
  inv := fun w hw => by
    have hw' := hm.inv w hw
    rw [Prog.bind_apply]
    rcases hm.ends hw with ho | ⟨c, ho⟩ <;> rcases hres : m B w with ⟨b | c' | _, s, l⟩ <;>
      rw [hres] at ho hw' <;> cases ho
    · exact hf.inv s hw'
    · exact hw'
  room := fun w hw hfits => by
    rw [List.length_append] at hfits
    obtain ⟨ho, hview⟩ := hm.room w hw (AppendList.fits_of_le hfits (Nat.le_add_right _ _))
    have hw' := hm.inv w hw
    rcases hres : m B w with ⟨b | c | _, s, l⟩ <;> rw [hres] at ho hview hw' <;> cases ho
    have hfits' : s.view.Fits cs.length := by
      rw [hview, AppendList.fits_record, AppendList.fits_append]
      exact hfits
    obtain ⟨ho', hview'⟩ := hf.room s hw' hfits'
    rw [Prog.bind_apply, hres, Res.bind_ret]
    refine ⟨ho', ?_⟩
    rw [Res.after_st, hview', hview, AppendList.append_record, AppendList.append_append,
      AppendList.record_record]
  full := fun w hw hfull => by
    have hw' := hm.inv w hw
    rw [Prog.bind_apply]
    -- the bytes of the first part may still have fitted
    by_cases hfits : w.view.Fits bs.length
    · obtain ⟨ho, hview⟩ := hm.room w hw hfits
      rcases hres : m B w with ⟨b | c | _, s, l⟩ <;> rw [hres] at ho hview hw' <;> cases ho
      refine hf.full s hw' ?_
      rwa [hview, AppendList.fits_record, AppendList.fits_append, ← List.length_append]
    · obtain ⟨herr, hout⟩ := hm.full w hw hfits
      rcases hout with ho | ⟨c, ho⟩ <;> rcases hres : m B w with ⟨b | c' | _, s, l⟩ <;>
        rw [hres] at ho herr hw' <;> cases ho
      · exact ⟨hf.sticky hw' herr, hf.ends hw'⟩
      · exact ⟨herr, Or.inr ⟨_, rfl⟩⟩

/-- A part that does not return ends the sequence. -/
theorem stop {c : MemoryPackError} (hm : Emits B m (.throw c) bs e) :
    Emits B (m >>= f) (.throw c) bs e where
  inv := fun w hw => by
    have hw' := hm.inv w hw
    rw [Prog.bind_apply]
    rcases hm.ends hw with ho | ⟨c', ho⟩ <;> rcases hres : m B w with ⟨b | c' | _, s, l⟩ <;>
      rw [hres] at ho hw' <;> cases ho <;> exact hw'
  room := fun w hw hfits => by
    obtain ⟨ho, hview⟩ := hm.room w hw hfits
    rw [Prog.bind_apply]
    rcases hres : m B w with ⟨b | c' | _, s, l⟩ <;> rw [hres] at ho hview <;> cases ho
    exact ⟨rfl, hview⟩
  full := fun w hw hfull => by
    obtain ⟨herr, hout⟩ := hm.full w hw hfull
    rw [Prog.bind_apply]
    rcases hout with ho | ⟨c', ho⟩ <;> rcases hres : m B w with ⟨b | c' | _, s, l⟩ <;>
      rw [hres] at ho herr <;> cases ho <;> exact ⟨herr, Or.inr ⟨_, rfl⟩⟩

theorem host {f : Build → WriteM α} {o : Out MemoryPackError α} (h : Emits B (f B) o bs e) :
    Emits B (Prog.ask >>= f) o bs e := ⟨h.inv, h.room, h.full⟩

/-- How `Fail(code)` ends. -/
def failOut (B : Build) (code : MemoryPackError) : Out MemoryPackError Unit :=
  if B.exceptions then .throw code else .ret ()

theorem fail_apply (code : MemoryPackError) (w : MemoryPackWriter) :
    Writer.fail code B w = ⟨failOut B code, w.record code, [.failed code]⟩ := by
  cases hB : B.exceptions with
  | true => rw [Writer.fail_throws hB, failOut, hB, if_pos rfl]
  | false =>
      rw [Writer.fail_returns hB, failOut, hB]
      rfl

theorem fail (code : MemoryPackError) :
    Emits B (Writer.fail code) (failOut B code) [] code :=
  of_nothing fun w hw => by
    rw [fail_apply]
    exact ⟨hw.record code, rfl, rfl⟩

theorem failOut_ends (code : MemoryPackError) :
    failOut B code = .ret () ∨ ∃ c, failOut B code = .throw c := by
  unfold failOut
  split
  · exact Or.inr ⟨code, rfl⟩
  · exact Or.inl rfl

theorem appendBytes (bs : List UInt8) : Emits B (Writer.appendBytes bs) (.ret ()) bs .none := by
  rcases bs with _ | ⟨b, bs⟩
  · exact pure ()
  · refine ⟨fun w hw => ?_, fun w hw hfits => ?_, fun w hw hfull => ?_⟩
    · by_cases hfits : w.view.Fits (b :: bs).length
      · obtain ⟨w', hrun, hw', -⟩ := Writer.appendBytes_fits (B := B) hw (by simp) hfits
        rw [hrun]
        exact hw'
      · rw [Writer.appendBytes_full hw hfits, fail_apply]
        exact hw.record _
    · obtain ⟨w', hrun, -, hview⟩ := Writer.appendBytes_fits (B := B) hw (by simp) hfits
      rw [hrun, AppendList.record_none]
      exact ⟨rfl, hview⟩
    · rw [Writer.appendBytes_full hw hfull, fail_apply]
      refine ⟨?_, failOut_ends _⟩
      show (if w.error = .none then MemoryPackError.bufferOverflow else w.error) ≠ .none
      split
      · decide
      · assumption

theorem appendByte (b : UInt8) : Emits B (Writer.appendByte b) (.ret ()) [b] .none := by
  rw [Writer.appendByte_eq]
  exact appendBytes [b]

/-- `catch (...)` turns an exception into a return. -/
def caught : Out MemoryPackError Unit → Out MemoryPackError Unit
  | .throw _ => .ret ()
  | o => o

theorem swallow_apply (m : WriteM Unit) (w : MemoryPackWriter) :
    VersionTolerantWriter.swallow m B w = ⟨caught (m B w).out, (m B w).st, (m B w).log⟩ := by
  unfold VersionTolerantWriter.swallow
  rcases m B w with ⟨a | c | _, s, l⟩ <;> rfl

theorem swallow {m : WriteM Unit} {o : Out MemoryPackError Unit} (h : Emits B m o bs e)
    (ho : o ≠ .diverge) : Emits B (VersionTolerantWriter.swallow m) (.ret ()) bs e where
  inv := fun w hw => by
    rw [swallow_apply]
    exact h.inv w hw
  room := fun w hw hfits => by
    obtain ⟨hout, hview⟩ := h.room w hw hfits
    rw [swallow_apply, hout]
    refine ⟨?_, hview⟩
    rcases o with _ | c | _
    · rfl
    · rfl
    · exact absurd rfl ho
  full := fun w hw hfull => by
    obtain ⟨herr, hout⟩ := h.full w hw hfull
    rw [swallow_apply]
    refine ⟨herr, Or.inl ?_⟩
    rcases hout with hout | ⟨c, hout⟩
    · rw [hout]
      rcases o with _ | c | _
      · rfl
      · rfl
      · exact absurd rfl ho
    · rw [hout]
      rfl

end Emits

/-! ## Every write emits something -/

/-- What a program appends does not depend on the writer. -/
def Emitting (B : Build) {α : Type} (m : WriteM α) : Prop :=
  ∃ o bs e, o ≠ .diverge ∧ Emits B m o bs e

theorem Emitting.writeRules (B : Build) : WriteRules B (fun {α} => Emitting B (α := α)) where
  pure := fun a => ⟨_, _, _, by simp, Emits.pure a⟩
  bind := by
    rintro α β m f ⟨o, bs, e, ho, hm⟩ hf
    rcases o with a | c | _
    · obtain ⟨o', cs, e', ho', hfa⟩ := hf a
      exact ⟨o', _, _, ho', hm.bind hfa⟩
    · exact ⟨_, bs, e, by simp, hm.stop⟩
    · exact absurd rfl ho
  host := by
    rintro α f ⟨o, bs, e, ho, h⟩
    exact ⟨o, bs, e, ho, h.host⟩
  fail := by
    intro code hcode
    refine ⟨_, _, _, ?_, Emits.fail code⟩
    unfold Emits.failOut
    split <;> simp
  throw := fun c => ⟨_, _, _, by simp, Emits.throw c⟩
  appendBytes := fun bs => ⟨_, _, _, by simp, Emits.appendBytes bs⟩
  swallow := by
    rintro m ⟨o, bs, e, ho, h⟩
    exact ⟨_, bs, e, by simp, h.swallow ho⟩

end MemoryPack
