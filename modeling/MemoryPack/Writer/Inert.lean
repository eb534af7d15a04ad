import MemoryPack.Writer.Refinement

/-!
# A failed writer that still has room goes on writing

`AppendByte` and `AppendBytes` do not look at the recorded error. Only a fixed buffer
can refuse bytes, and it does so because they do not fit, failed or not. So what keeps
a failed writer unchanged is the lack of room: `WriterOp.requests` are the appends an
operation asks for, and a run of operations leaves a failed writer alone exactly when
none of these fits it.
-/

namespace MemoryPack

open Effect

/-- The number of bytes an append asked for, whether it got them or not. -/
def WriteEvent.request : WriteEvent → Option Nat
  | .appended bs => some bs.length
  | .refused n => some n
  | .failed _ => none

/-- In a build without exceptions a write asks for the same appends on every writer,
none of them empty, and ends the same way. -/
def Steady (B : Build) {α : Type} (m : WriteM α) : Prop :=
  ∃ o ns, (∀ n ∈ ns, 0 < n) ∧ ∀ w : MemoryPackWriter, w.Inv →
    (m B w).st.Inv ∧ (m B w).out = o ∧ (m B w).log.filterMap WriteEvent.request = ns

namespace Steady

variable {B : Build} {α β : Type}

theorem bind {m : WriteM α} {f : α → WriteM β} (hm : Steady B m) (hf : ∀ a, Steady B (f a)) :
    Steady B (m >>= f) := by
  obtain ⟨o, ns, hpos, hm⟩ := hm
  cases o with
  | ret a =>
      obtain ⟨o', ns', hpos', hfa⟩ := hf a
      refine ⟨o', ns ++ ns', ?_, fun w hw => ?_⟩
      · intro n hn
        exact (List.mem_append.mp hn).elim (hpos n) (hpos' n)
      · obtain ⟨hinv, hout, hns⟩ := hm w hw
        rw [Prog.bind_apply]
        rcases hres : m B w with ⟨b | c | _, s, l⟩ <;> rw [hres] at hinv hout hns <;> cases hout
        obtain ⟨hinv', hout', hns'⟩ := hfa s hinv
        refine ⟨hinv', hout', ?_⟩
        rw [Res.bind_ret, Res.after_log, List.filterMap_append, hns, hns']
  | throw c =>
      refine ⟨.throw c, ns, hpos, fun w hw => ?_⟩
      obtain ⟨hinv, hout, hns⟩ := hm w hw
      rw [Prog.bind_apply]
      rcases hres : m B w with ⟨b | c | _, s, l⟩ <;> rw [hres] at hinv hout hns <;> cases hout
      exact ⟨hinv, rfl, hns⟩
  | diverge =>
      refine ⟨.diverge, ns, hpos, fun w hw => ?_⟩
      obtain ⟨hinv, hout, hns⟩ := hm w hw
      rw [Prog.bind_apply]
      rcases hres : m B w with ⟨b | c | _, s, l⟩ <;> rw [hres] at hinv hout hns <;> cases hout
      exact ⟨hinv, rfl, hns⟩

theorem appendBytes (hB : B.exceptions = false) (bs : List UInt8) :
    Steady B (Writer.appendBytes bs) := by
  rcases bs with _ | ⟨b, bs⟩
  · exact ⟨.ret (), [], by simp, fun w hw => ⟨hw, rfl, rfl⟩⟩
  · refine ⟨.ret (), [(b :: bs).length], by simp, fun w hw => ?_⟩
    by_cases hfits : w.view.Fits (b :: bs).length
    · obtain ⟨w', hrun, hw', -⟩ := Writer.appendBytes_fits (B := B) hw (by simp) hfits
      rw [hrun]
      exact ⟨hw', rfl, rfl⟩
    · rw [Writer.appendBytes_full hw hfits, Writer.fail_returns hB]
      exact ⟨hw.record _, rfl, rfl⟩

theorem writeRules (hB : B.exceptions = false) :
    WriteRules B (fun {α} (m : WriteM α) => Steady B m) where
  pure := fun a => ⟨.ret a, [], by simp, fun w hw => ⟨hw, rfl, rfl⟩⟩
  bind := bind
  host := by
    rintro α f ⟨o, ns, hpos, h⟩
    exact ⟨o, ns, hpos, h⟩
  fail := by
    intro code _
    refine ⟨.ret (), [], by simp, fun w hw => ?_⟩
    rw [Writer.fail_returns hB]
    exact ⟨hw.record code, rfl, rfl⟩
  throw := fun c => ⟨.throw c, [], by simp, fun w hw => ⟨hw, rfl, rfl⟩⟩
  appendBytes := appendBytes hB
  swallow := by
    rintro m ⟨o, ns, hpos, h⟩
    refine ⟨Emits.caught o, ns, hpos, fun w hw => ?_⟩
    obtain ⟨hinv, hout, hns⟩ := h w hw
    rw [Emits.swallow_apply, hout]
    exact ⟨hinv, rfl, hns⟩

end Steady

/-! ## What a replay changes -/

namespace AppendList

/-- Without room for any request, a failed list stays as it is. -/
theorem replay_full {a : AppendList} (he : a.error ≠ .none) :
    ∀ {l : List WriteEvent}, a.Accepts l →
      (∀ n ∈ l.filterMap WriteEvent.request, ¬ a.Fits n) → a.replay l = a
  | [], _, _ => rfl
  | .appended bs :: l, hacc, hfull => absurd hacc.1 (hfull bs.length (by simp [WriteEvent.request]))
  | .refused n :: l, hacc, hfull =>
      replay_full he (l := l) hacc.2 fun k hk => hfull k (by simp [WriteEvent.request, hk])
  | .failed code :: l, hacc, hfull => by
      have hsame : a.record code = a := by simp [record, he]
      have hacc' : (a.record code).Accepts l := hacc.2
      rw [hsame] at hacc'
      show (a.record code).replay l = a
      rw [hsame]
      exact replay_full he hacc' fun k hk => hfull k (by simpa [WriteEvent.request] using hk)

/-- The first request that fits is granted. -/
theorem appendedOf_ne_nil {a : AppendList} :
    ∀ {l : List WriteEvent}, a.Accepts l → (∀ n ∈ l.filterMap WriteEvent.request, 0 < n) →
      (∃ n ∈ l.filterMap WriteEvent.request, a.Fits n) → appendedOf l ≠ []
  | [], _, _, h => by simp at h
  | .appended bs :: l, _, hpos, _ => by
      have hbs : 0 < bs.length := hpos _ (by simp [WriteEvent.request])
      have hne : bs ≠ [] := List.ne_nil_of_length_pos hbs
      simp [appendedOf, hne]
  | .refused k :: l, hacc, hpos, ⟨n, hn, hfits⟩ => by
      have hn' : n ∈ l.filterMap WriteEvent.request := by
        rcases List.mem_cons.mp hn with rfl | hn
        · exact absurd hfits hacc.1
        · exact hn
      exact appendedOf_ne_nil (l := l) hacc.2
        (fun m hm => hpos m (by simp [WriteEvent.request, hm])) ⟨n, hn', hfits⟩
  | .failed code :: l, hacc, hpos, ⟨n, hn, hfits⟩ =>
      appendedOf_ne_nil (a := a.record code) (l := l) hacc.2
        (fun m hm => hpos m (by simpa [WriteEvent.request] using hm))
        ⟨n, by simpa [WriteEvent.request] using hn, hfits⟩

end AppendList

/-! ## Operations and runs -/

/-- The appends an operation asks for, as it makes them on an empty writer. -/
def WriterOp.requests {S : Schema} (B : Build) (o : WriterOp S) : List Nat :=
  (o.run B {}).log.filterMap WriteEvent.request

/-- `Clear()` and `TakeBuffer()` are documented to start over. -/
def WriterOp.startsOver {S : Schema} : WriterOp S → Bool
  | .clear | .takeBuffer => true
  | _ => false

/-- `Size()`, the written bytes and `Error()` are what they were. -/
def Unchanged (w w' : MemoryPackWriter) : Prop :=
  w'.size = w.size ∧ w'.getSpan = w.getSpan ∧ w'.error = w.error

/-- The writers a list of operations leaves behind, one for each. -/
def WriterOp.states {S : Schema} (B : Build) (w : MemoryPackWriter) :
    List (WriterOp S) → List MemoryPackWriter
  | [] => []
  | o :: os => (o.run B w).st :: WriterOp.states B (o.run B w).st os

variable {S : Schema} {B : Build} {w : MemoryPackWriter}

theorem unchanged_of_view {w' : MemoryPackWriter} (hw : w.Inv) (hw' : w'.Inv)
    (h : w'.view = w.view) : Unchanged w w' := by
  have hspan : w'.getSpan = w.getSpan := congrArg AppendList.bytes h
  refine ⟨?_, hspan, congrArg AppendList.error h⟩
  rw [← hw'.length_getSpan, ← hw.length_getSpan, hspan]

/-- A write on a failed writer: its view is kept if and only if nothing it asks for
fits. -/
theorem WriterOp.writes_unchanged (hB : B.exceptions = false) (hw : w.Inv) (he : w.error ≠ .none)
    {o : WriterOp S} {m : WriteM Unit} (hm : o.writes = some m) :
    (o.run B w).st.Inv ∧ ((∀ n ∈ o.requests B, ¬ w.view.Fits n) → (o.run B w).st.view = w.view) ∧
      (Unchanged w (o.run B w).st → ∀ n ∈ o.requests B, ¬ w.view.Fits n) := by
  have hsteady := Steady.writeRules hB
  have hreplay := Replays.writeRules B
  have hrun := WriterOp.run_of_writes hm
  obtain ⟨out, ns, hpos, hs⟩ : Steady B o.run := by
    rw [hrun]
    exact hsteady.bind (WriterOp.writes_rules hsteady hm) fun _ => hsteady.pure _
  have hr : Replays B o.run := by
    rw [hrun]
    exact hreplay.bind (WriterOp.writes_rules hreplay hm) fun _ => hreplay.pure _
  obtain ⟨hinv, hview, hacc⟩ := hr w hw
  -- the requests on `w` are those on the empty writer
  have hasked : (o.run B w).log.filterMap WriteEvent.request = o.requests B :=
    (hs w hw).2.2.trans (hs {} MemoryPackWriter.inv_default).2.2.symm
  have hrequests : o.requests B = ns := (hs {} MemoryPackWriter.inv_default).2.2
  refine ⟨hinv, fun hfull => ?_, fun hsame n hn hfits => ?_⟩
  · rw [hview]
    refine AppendList.replay_full he hacc ?_
    rw [hasked]
    exact hfull
  · have hgrown : appendedOf (o.run B w).log ≠ [] := by
      refine AppendList.appendedOf_ne_nil hacc ?_ ⟨n, by rw [hasked]; exact hn, hfits⟩
      rw [hasked, hrequests]
      exact hpos
    have hbytes : (o.run B w).st.getSpan = w.getSpan ++ appendedOf (o.run B w).log :=
      (congrArg AppendList.bytes hview).trans (AppendList.replay_bytes _ _)
    rw [hsame.2.1] at hbytes
    exact hgrown (List.self_eq_append_right.mp hbytes)

/-- The same of the operations that manage the buffer, which ask for nothing. -/
theorem WriterOp.run_unchanged (hB : B.exceptions = false) (hw : w.Inv) (he : w.error ≠ .none)
    {o : WriterOp S} (ho : o.startsOver = false) :
    (o.run B w).st.Inv ∧ ((∀ n ∈ o.requests B, ¬ w.view.Fits n) → (o.run B w).st.view = w.view) ∧
      (Unchanged w (o.run B w).st → ∀ n ∈ o.requests B, ¬ w.view.Fits n) := by
  cases hm : o.writes with
  | some m => exact writes_unchanged hB hw he hm
  | none =>
      cases o with
      | reserve capacity =>
          obtain ⟨w', hrun, hw', hview⟩ := Writer.reserve_view (B := B) hw capacity
          have hst : ((reserve capacity : WriterOp S).run B w).st = w' := by
            show ((do Writer.reserve capacity; return [] : WriteM (List UInt8)) B w).st = w'
            rw [Prog.bind_apply, hrun]
            rfl
          rw [hst]
          exact ⟨hw', fun _ => hview, fun _ n hn => absurd hn List.not_mem_nil⟩
      | getBuffer =>
          by_cases hgrow : w.fixedBuf = none ∨ w.vec ≠ none
          · obtain ⟨w', hrun, hw', hview⟩ := Writer.getBuffer_growable (B := B) hw hgrow
            have hst : ((getBuffer : WriterOp S).run B w).st = w' := congrArg Res.st hrun
            rw [hst]
            exact ⟨hw', fun _ => hview, fun _ n hn => absurd hn List.not_mem_nil⟩
          · rw [not_or, not_not] at hgrow
            obtain ⟨buf, hbuf⟩ := Option.ne_none_iff_exists'.mp hgrow.1
            have hst : ((getBuffer : WriterOp S).run B w).st = w.record .notSupported :=
              (notSupported_apply (Writer.getBuffer_fixed (B := B) hgrow.2 hbuf)).1
            have hsame : w.record .notSupported = w := by simp [MemoryPackWriter.record, he]
            rw [hst, hsame]
            exact ⟨hw, fun _ => rfl, fun _ n hn => absurd hn List.not_mem_nil⟩
      | clear => simp [startsOver] at ho
      | takeBuffer => simp [startsOver] at ho
      | _ => simp [writes] at hm

/-- A run of operations on a failed writer leaves it unchanged in every state if and
only if nothing they ask for fits it. The induction is on the operations; the view of
the writer is the same before each of them. -/
theorem WriterOp.states_unchanged (hB : B.exceptions = false) :
    ∀ (os : List (WriterOp S)), (∀ o ∈ os, o.startsOver = false) →
      ∀ {w w' : MemoryPackWriter}, w.Inv → w'.Inv → w.error ≠ .none → w'.view = w.view →
      ((∀ x ∈ WriterOp.states B w' os, Unchanged w x) ↔
        ∀ o ∈ os, ∀ n ∈ o.requests B, ¬ w.view.Fits n)
  | [], _, _, _, _, _, _, _ => by simp [WriterOp.states]
  | o :: os, hos, w, w', hw, hw', he, hview => by
      obtain ⟨ho, hos⟩ := List.forall_mem_cons.mp hos
      have he' : w'.error ≠ .none := by
        rw [← MemoryPackWriter.view_error, hview]
        exact he
      obtain ⟨hinv, hkeeps, hneeds⟩ := WriterOp.run_unchanged hB hw' he' ho
      rw [hview] at hkeeps hneeds
      have hsame := unchanged_of_view hw hw' hview
      rw [WriterOp.states, List.forall_mem_cons, List.forall_mem_cons]
      constructor
      · rintro ⟨hstep, hrest⟩
        have hfull := hneeds ⟨hstep.1.trans hsame.1.symm, hstep.2.1.trans hsame.2.1.symm,
          hstep.2.2.trans hsame.2.2.symm⟩
        exact ⟨hfull, (states_unchanged hB os hos hw hinv he (hkeeps hfull)).mp hrest⟩
      · rintro ⟨hfull, hrest⟩
        exact ⟨unchanged_of_view hw hinv (hkeeps hfull),
          (states_unchanged hB os hos hw hinv he (hkeeps hfull)).mpr hrest⟩

end MemoryPack
