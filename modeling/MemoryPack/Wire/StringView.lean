import MemoryPack.Wire.Reads

/-!
# `ReadStringView` against `ReadString`

Both read the same header word and go through the same checks; a view borrows the
payload where `ReadString` copies it. `std::nullopt` from the view has three causes: a
null string, a failure, and a UTF-16 payload, in front of which the cursor is put
back. `ViewAgrees` says what each of them means for `ReadString` on the same reader.
-/

namespace MemoryPack

open Effect

/-- The run failed with `code` and left the cursor at `pos`: it threw, or it returned
from a reader that has the error recorded. -/
def FailsWith {α : Type} (run : Res MemoryPackReader MemoryPackError ReadEvent α)
    (code : MemoryPackError) (pos : Nat) : Prop :=
  run.st.pos = pos ∧ (run.out = .throw code ∨
    code ≠ .none ∧ run.st.error = code ∧ ∃ a, run.out = .ret a)

/-- The header word at the cursor announces UTF-16 code units. -/
def Utf16Follows (r : MemoryPackReader) : Prop :=
  4 ≤ r.remaining ∧ 0 < asInt32 (LittleEndian.leNat (r.rest.take 4))

/-- What a run of `ReadStringView` from `r` says about the run of `ReadString` from `r`. -/
structure ViewAgrees (r : MemoryPackReader)
    (view copy : Res MemoryPackReader MemoryPackError ReadEvent (Option (List UInt8))) :
    Prop where
  /-- a view has the bytes of the string -/
  present : ∀ bs, view.out = .ret (some bs) → copy.out = .ret (some bs) ∧ copy.st = view.st
  /-- `nullopt` without a failure -/
  absent : view.out = .ret none → view.st.error = .none →
    (copy.out = .ret none ∧ copy.st = view.st) ∨ (Utf16Follows r ∧ view.st = r)
  failure : ∀ code pos, FailsWith view code pos → FailsWith copy code pos
  ends : view.out ≠ .diverge

namespace ViewAgrees

variable {r r' : MemoryPackReader} {l l' : List ReadEvent}

/-- The two runs are the same one. -/
theorem of_eq {run : Res MemoryPackReader MemoryPackError ReadEvent (Option (List UInt8))}
    (h : run.out ≠ .diverge) : ViewAgrees r run run where
  present _ hv := ⟨hv, rfl⟩
  absent hv _ := .inl ⟨hv, rfl⟩
  failure _ _ hv := hv
  ends := h

/-- Both go on after a failure: the view with `nullopt`, the string empty. -/
theorem of_failed (he : r'.error ≠ .none) :
    ViewAgrees r ⟨.ret none, r', l⟩ ⟨.ret (some []), r', l'⟩ where
  present _ hv := nomatch hv
  absent _ hok := absurd hok he
  failure code pos := by
    rintro ⟨hpos, hthrow | ⟨hcode, herr, -⟩⟩
    · cases hthrow
    · exact ⟨hpos, .inr ⟨hcode, herr, _, rfl⟩⟩
  ends := nofun

/-- The rewind in front of a UTF-16 payload, whatever `ReadString` then makes of it. -/
theorem of_rewind (he : r.error = .none) (hutf16 : Utf16Follows r)
    (copy : Res MemoryPackReader MemoryPackError ReadEvent (Option (List UInt8))) :
    ViewAgrees r ⟨.ret none, r, l⟩ copy where
  present _ hv := nomatch hv
  absent _ _ := .inr ⟨hutf16, rfl⟩
  failure code pos := by
    rintro ⟨-, hthrow | ⟨hcode, herr, -⟩⟩
    · cases hthrow
    · exact absurd (herr.symm.trans he) hcode
  ends := nofun

theorem after {view copy : Res MemoryPackReader MemoryPackError ReadEvent (Option (List UInt8))}
    (h : ViewAgrees r view copy) (l l' : List ReadEvent) :
    ViewAgrees r (view.after l) (copy.after l') :=
  ⟨h.present, h.absent, h.failure, h.ends⟩

end ViewAgrees

namespace Reader

variable {B : Build} {r r₀ : MemoryPackReader}

/-- The UTF-8 branch behind both length words; `absent` is what it returns when a check
fails. -/
def utf8Payload (byteCount : Nat) (absent : Option (List UInt8)) :
    ReadM (Option (List UInt8)) := do
  if !(← checkStringLength byteCount 1) then return absent
  match ← takeBytes byteCount with
  | none => return absent
  | some bs =>
      Prog.tell (.acceptedString byteCount 1)
      return some bs

theorem viewAgrees_utf8Payload (byteCount : Nat) :
    ViewAgrees r₀ (utf8Payload byteCount none B r) (utf8Payload byteCount (some []) B r) := by
  by_cases hok : StringOk byteCount 1 r
  · simp only [utf8Payload, Prog.bind_apply, checkStringLength_ok hok, Res.bind_ret,
      Bool.not_true, Bool.false_eq_true, if_false, Res.after_nil]
    by_cases he : r.error = .none
    · have hn : byteCount ≤ r.remaining := by
        have hpresent := hok.present Nat.one_pos
        rwa [Nat.div_one] at hpresent
      rw [takeBytes_ok he hn]
      exact .of_eq (by simp)
    · rw [takeBytes_failed he]
      exact .of_failed he
  · simp only [utf8Payload, Prog.bind_apply, checkStringLength_rejects hok]
    cases hB : B.exceptions with
    | true =>
        simp only [fail_throws hB, Res.bind_throw]
        exact .of_eq (by simp)
    | false =>
        rw [fail_returns hB]
        exact .of_failed (record_error_ne (by decide))

/-- Reading a word and going on: a throw ends both, and every way to return is continued
by both. -/
theorem viewAgrees_word {w : Nat} {view copy : Nat → ReadM (Option (List UInt8))}
    (h : ∀ n s, ViewAgrees r₀ (view n B s) (copy n B s)) :
    ViewAgrees r₀ ((readRaw w >>= view) B r) ((readRaw w >>= copy) B r) := by
  rw [Prog.bind_apply, Prog.bind_apply]
  by_cases he : r.error = .none
  · by_cases hw : w ≤ r.remaining
    · rw [readRaw_ok he hw]
      exact (h _ _).after _ _
    · rw [readRaw_short he (Nat.not_le.mp hw)]
      cases hB : B.exceptions with
      | true =>
          simp only [fail_throws hB, Res.bind_throw]
          exact .of_eq (by simp)
      | false =>
          rw [fail_returns hB]
          exact (h _ _).after _ _
  · rw [readRaw_failed he]
    exact (h _ _).after _ _

/-- `ReadStringView()` behind its header word. -/
def viewPayload (start : Nat) (header : Int) : ReadM (Option (List UInt8)) := do
  if ← failed then return none
  if header = -1 then return none
  if header = 0 then return some []
  if header > 0 then
    setPos start
    return none
  let byteCount := (-header - 1).toNat
  let _ ← readRaw 4
  utf8Payload byteCount none

theorem readStringView_eq : readStringView = (do
    let start := (← Prog.get).pos
    viewPayload start (asInt32 (← readRaw 4))) := rfl

/-- Behind a header word that was not there. -/
theorem viewAgrees_failed (start : Nat) (header : Int) (he : r.error ≠ .none) :
    ViewAgrees r₀ (viewPayload start header B r) (Reads.stringPayload header B r) := by
  have hfailed : r.failed = true := decide_eq_true he
  simp only [viewPayload, Reads.stringPayload, failed, Prog.bind_apply, Prog.get_apply,
    Res.bind_ret, Res.after_nil, Prog.pure_apply, hfailed, if_true]
  exact .of_failed he

/-- Behind a header word that was there: the five kinds of header. -/
theorem viewAgrees_header {header : Int} (he : r.error = .none)
    (hrewind : header > 0 → { r with pos := r₀.pos } = r₀ ∧ Utf16Follows r₀) :
    ViewAgrees r₀ (viewPayload r₀.pos header B r) (Reads.stringPayload header B r) := by
  have hok : r.failed = false := decide_eq_false (not_not_intro he)
  simp only [viewPayload, Reads.stringPayload, failed, Prog.bind_apply, Prog.get_apply,
    Res.bind_ret, Res.after_nil, Prog.pure_apply, hok, Bool.false_eq_true, if_false]
  by_cases hnull : header = -1
  · rw [if_pos hnull, if_pos hnull]
    exact .of_eq (by simp)
  rw [if_neg hnull, if_neg hnull]
  by_cases hempty : header = 0
  · rw [if_pos hempty, if_pos hempty]
    exact .of_eq (by simp)
  rw [if_neg hempty, if_neg hempty]
  by_cases hutf16 : header > 0
  · obtain ⟨hback, hfollows⟩ := hrewind hutf16
    have he₀ : r₀.error = .none := by rw [← hback]; exact he
    rw [if_pos hutf16]
    show ViewAgrees r₀ ⟨.ret none, { r with pos := r₀.pos }, [.moved r₀.pos]⟩ _
    rw [hback]
    exact .of_rewind he₀ hfollows _
  · rw [if_neg hutf16, if_neg hutf16]
    exact viewAgrees_word fun _ _ => viewAgrees_utf8Payload _

end Reader

/-- For every reader, whatever its position, options and error state: a view has the
bytes `ReadString` returns, `nullopt` without a failure is a null string or a UTF-16
payload left in place, and a failure is the failure of `ReadString`. -/
theorem readStringView_agrees (B : Build) (r : MemoryPackReader) :
    ViewAgrees r (Reader.readStringView B r) (Reader.readString B r) := by
  rw [Reader.readStringView_eq, Reads.readString_eq]
  simp only [Prog.bind_apply, Prog.get_apply, Res.bind_ret, Res.after_nil]
  by_cases he : r.error = .none
  · by_cases h4 : 4 ≤ r.remaining
    · have hview := Reader.viewAgrees_header (B := B) (r := { r with pos := r.pos + 4 }) he
        fun hutf16 => ⟨rfl, h4, hutf16⟩
      rw [Reader.readRaw_ok he h4]
      exact hview.after _ _
    · -- the header word is cut off
      rw [Reader.readRaw_short he (Nat.not_le.mp h4)]
      cases hB : B.exceptions with
      | true =>
          simp only [Reader.fail_throws hB, Res.bind_throw]
          exact .of_eq (by simp)
      | false =>
          rw [Reader.fail_returns hB]
          exact (Reader.viewAgrees_failed _ _ (Reader.record_error_ne (by decide))).after _ _
  · rw [Reader.readRaw_failed he]
    exact (Reader.viewAgrees_failed _ _ he).after _ _

end MemoryPack
