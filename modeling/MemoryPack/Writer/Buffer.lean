import MemoryPack.Core.Writer

/-!
# The buffer of a writer

Whatever storage a writer uses, what it has written is a list of bytes that only
grows: `AppendList` is that view, with the capacity of a fixed buffer and the
recorded error beside it. The three code paths behind `AppendBytes` are compared
with it once, here; nothing above this file looks at the buffers again.

In owned mode the vector is longer than what was written. `Inv` is the invariant
that keeps the two apart: the write position never passes the end of the storage.
-/

namespace MemoryPack

open Effect

/-! ## The abstract list -/

/-- The three buffer modes. -/
inductive Mode where
  | owned
  | vector
  | fixed (capacity : Nat)
deriving DecidableEq, Repr

/-- What a writer is for: the bytes written so far and the error recorded. -/
structure AppendList where
  mode : Mode
  bytes : List UInt8
  error : MemoryPackError
deriving DecidableEq, Repr

namespace AppendList

/-- There is room for `n` more bytes. -/
def Fits (a : AppendList) (n : Nat) : Prop :=
  match a.mode with
  | .fixed capacity => a.bytes.length + n ≤ capacity
  | _ => True

def append (a : AppendList) (bs : List UInt8) : AppendList := { a with bytes := a.bytes ++ bs }

/-- The first error is the one recorded. -/
def record (a : AppendList) (code : MemoryPackError) : AppendList :=
  { a with error := if a.error = .none then code else a.error }

def clear (a : AppendList) : AppendList := { a with bytes := [], error := .none }

@[simp] theorem append_nil (a : AppendList) : a.append [] = a := by
  simp [append]

theorem append_append (a : AppendList) (bs cs : List UInt8) :
    (a.append bs).append cs = a.append (bs ++ cs) := by
  simp [append]

@[simp] theorem record_none (a : AppendList) : a.record .none = a := by
  unfold record
  split
  · next h => rw [← h]
  · rfl

theorem record_error_ne {a : AppendList} {code : MemoryPackError} (h : a.error ≠ .none) :
    (a.record code).error ≠ .none := by
  simp [record, h]

theorem fits_of_le {a : AppendList} {n k : Nat} (h : a.Fits n) (hk : k ≤ n) : a.Fits k := by
  unfold Fits at h ⊢
  split
  · next hm =>
      rw [hm] at h
      exact Nat.le_trans (Nat.add_le_add_left hk _) h
  · trivial

@[simp] theorem fits_record {a : AppendList} {code : MemoryPackError} {n : Nat} :
    (a.record code).Fits n ↔ a.Fits n := Iff.rfl

theorem fits_append {a : AppendList} {bs : List UInt8} {n : Nat} :
    (a.append bs).Fits n ↔ a.Fits (bs.length + n) := by
  unfold Fits
  show (match a.mode with | .fixed capacity => _ | _ => True) ↔ _
  cases a.mode with
  | owned => exact Iff.rfl
  | vector => exact Iff.rfl
  | fixed capacity =>
      simp only [append, List.length_append, Nat.add_assoc]

end AppendList

/-! ## Storage -/

theorem length_overwrite {buf bs : List UInt8} {pos : Nat} (h : pos + bs.length ≤ buf.length) :
    (overwrite buf pos bs).length = buf.length := by
  simp only [overwrite, List.length_append, List.length_take, List.length_drop]
  omega

/-- Bytes copied to the write position come right after what was there. -/
theorem take_overwrite {buf bs : List UInt8} {pos : Nat} (h : pos + bs.length ≤ buf.length) :
    (overwrite buf pos bs).take (pos + bs.length) = buf.take pos ++ bs := by
  have hpos : (buf.take pos ++ bs).length = pos + bs.length := by
    rw [List.length_append, List.length_take, Nat.min_eq_left (by omega)]
  rw [overwrite, ← hpos, List.take_left']
  rfl

theorem length_resize (v : List UInt8) (n : Nat) : (resize v n).length = n := by
  simp only [resize, List.length_append, List.length_take, List.length_replicate]
  omega

/-- Growing or trimming keeps what lies before both ends. -/
theorem take_resize {v : List UInt8} {n k : Nat} (hn : k ≤ n) (hv : k ≤ v.length) :
    (resize v n).take k = v.take k := by
  have hlen : k ≤ (v.take n).length := by
    rw [List.length_take]
    omega
  rw [resize, List.take_append_of_le_length hlen, List.take_take, Nat.min_eq_left hn]

theorem resize_self {v : List UInt8} {n : Nat} (h : n ≤ v.length) : resize v n = v.take n := by
  simp [resize, Nat.sub_eq_zero_of_le h]

namespace Writer

/-- Each round doubles, so it adds at least one byte; the loop ends at or above its
target. -/
theorem le_doubleUntil {target : Nat} : ∀ {rounds next : Nat}, 0 < next →
    target ≤ next + rounds → target ≤ doubleUntil target rounds next
  | 0, next, _, h => h
  | rounds + 1, next, hpos, h => by
      rw [doubleUntil]
      split
      · exact le_doubleUntil (by omega) (by omega)
      · omega

theorem le_grownSize (size pos needed : Nat) : pos + needed ≤ grownSize size pos needed := by
  refine le_doubleUntil ?_ (Nat.le_add_left _ _)
  split <;> omega

end Writer

/-! ## The invariant and the view -/

namespace MemoryPackWriter

structure Inv (w : MemoryPackWriter) : Prop where
  owned : w.ownedPos ≤ w.owned.length
  fixed : w.fixedPos ≤ w.fixedCap
  /-- a fixed buffer has the capacity it was constructed with -/
  storage : ∀ buf, w.fixedBuf = some buf → buf.length = w.fixedCap

def mode (w : MemoryPackWriter) : Mode :=
  match w.vec, w.fixedBuf with
  | some _, _ => .vector
  | none, some _ => .fixed w.fixedCap
  | none, none => .owned

def view (w : MemoryPackWriter) : AppendList := ⟨w.mode, w.getSpan, w.error⟩

/-- The writer after `Fail(code)`. -/
def record (w : MemoryPackWriter) (code : MemoryPackError) : MemoryPackWriter :=
  { w with error := if w.error = .none then code else w.error }

@[simp] theorem view_error (w : MemoryPackWriter) : w.view.error = w.error := rfl

@[simp] theorem view_bytes (w : MemoryPackWriter) : w.view.bytes = w.getSpan := rfl

@[simp] theorem view_record (w : MemoryPackWriter) (code : MemoryPackError) :
    (w.record code).view = w.view.record code := rfl

theorem Inv.record {w : MemoryPackWriter} (h : w.Inv) (code : MemoryPackError) :
    (w.record code).Inv := ⟨h.owned, h.fixed, h.storage⟩

theorem inv_default : ({} : MemoryPackWriter).Inv :=
  ⟨Nat.le_refl _, Nat.le_refl _, fun _ h => by simp at h⟩

theorem inv_ofVector (v : List UInt8) : (ofVector v).Inv :=
  ⟨Nat.le_refl _, Nat.le_refl _, fun _ h => by simp [ofVector] at h⟩

theorem inv_ofFixed (buf : List UInt8) : (ofFixed (some buf) buf.length).Inv := by
  refine ⟨Nat.le_refl _, Nat.zero_le _, ?_⟩
  intro b hb
  rw [← Option.some.inj hb]
  rfl

section Modes

variable {w : MemoryPackWriter} {v buf : List UInt8}

theorem view_vector (h : w.vec = some v) : w.view = ⟨.vector, v, w.error⟩ := by
  simp [view, mode, getSpan, data, size, h]

theorem view_fixed (hv : w.vec = none) (h : w.fixedBuf = some buf) :
    w.view = ⟨.fixed w.fixedCap, buf.take w.fixedPos, w.error⟩ := by
  simp [view, mode, getSpan, data, size, hv, h]

theorem view_owned (hv : w.vec = none) (h : w.fixedBuf = none) :
    w.view = ⟨.owned, w.owned.take w.ownedPos, w.error⟩ := by
  simp [view, mode, getSpan, data, size, hv, h]

theorem fits_fixed (hw : w.Inv) (hv : w.vec = none) (h : w.fixedBuf = some buf) {n : Nat} :
    w.view.Fits n ↔ n ≤ w.fixedCap - w.fixedPos := by
  have hlen := hw.storage buf h
  have hpos := hw.fixed
  rw [view_fixed hv h]
  show (buf.take w.fixedPos).length + n ≤ w.fixedCap ↔ _
  rw [List.length_take]
  omega

theorem Inv.fits_zero (hw : w.Inv) : w.view.Fits 0 := by
  cases hv : w.vec with
  | some v =>
      rw [view_vector hv]
      trivial
  | none =>
      cases hf : w.fixedBuf with
      | some buf =>
          rw [fits_fixed hw hv hf]
          exact Nat.zero_le _
      | none =>
          rw [view_owned hv hf]
          trivial

theorem Inv.length_getSpan (hw : w.Inv) : w.getSpan.length = w.size := by
  unfold getSpan data size
  cases hv : w.vec with
  | some v => simp
  | none =>
      cases hf : w.fixedBuf with
      | some buf =>
          have hlen := hw.storage buf hf
          simp only [List.length_take, hlen]
          exact Nat.min_eq_left hw.fixed
      | none =>
          simp only [List.length_take]
          exact Nat.min_eq_left hw.owned

theorem mode_eq_owned : w.mode = .owned ↔ w.vec = none ∧ w.fixedBuf = none := by
  unfold mode
  rcases w.vec with _ | v <;> rcases w.fixedBuf with _ | buf <;> simp

theorem fits_iff (hw : w.Inv) {capacity : Nat} (hmode : w.mode = .fixed capacity) {n : Nat} :
    w.view.Fits n ↔ n ≤ capacity - w.size := by
  have hzero := hw.fits_zero
  unfold AppendList.Fits at hzero ⊢
  rw [show w.view.mode = .fixed capacity from hmode] at hzero ⊢
  simp only [view_bytes, hw.length_getSpan] at hzero ⊢
  omega

end Modes

end MemoryPackWriter

/-! ## Appending -/

namespace Writer

variable {B : Build} {w : MemoryPackWriter}

theorem fail_throws (hB : B.exceptions = true) (code : MemoryPackError) :
    fail code B w = ⟨.throw code, w.record code, [.failed code]⟩ := by
  simp [fail, hB, MemoryPackWriter.record]

theorem fail_returns (hB : B.exceptions = false) (code : MemoryPackError) :
    fail code B w = ⟨.ret (), w.record code, [.failed code]⟩ := by
  simp [fail, hB, MemoryPackWriter.record]

/-- One byte is appended the way a range of one is. -/
theorem appendByte_eq (b : UInt8) : appendByte b = appendBytes [b] := by
  have hfull : ∀ len pos : Nat, pos ≥ len ↔ [b].length > len - pos := by
    intro len pos
    simp only [List.length_cons, List.length_nil]
    omega
  funext B w
  obtain ⟨owned, ownedPos, vec, fixedBuf, fixedCap, fixedPos, error⟩ := w
  cases vec with
  | some v => simp [appendByte, appendBytes]
  | none =>
      cases fixedBuf with
      | none => simp [appendByte, appendBytes, hfull]
      | some buf => simp [appendByte, appendBytes, hfull]

/-- The owned buffer with room for `n` more bytes: `GrowOwned` when it lacks it. -/
def ensureOwned (w : MemoryPackWriter) (n : Nat) : List UInt8 :=
  if n > w.owned.length - w.ownedPos then
    resize w.owned (grownSize w.owned.length w.ownedPos n)
  else w.owned

theorem length_ensureOwned (hw : w.Inv) (n : Nat) : w.ownedPos + n ≤ (ensureOwned w n).length := by
  have hpos := hw.owned
  unfold ensureOwned
  split
  · rw [length_resize]
    exact le_grownSize _ _ _
  · omega

theorem take_ensureOwned (hw : w.Inv) (n : Nat) :
    (ensureOwned w n).take w.ownedPos = w.owned.take w.ownedPos := by
  unfold ensureOwned
  split
  · have hgrown := le_grownSize w.owned.length w.ownedPos n
    exact take_resize (by omega) hw.owned
  · rfl

/-- With room, every mode appends all of the bytes. -/
theorem appendBytes_fits (hw : w.Inv) {bs : List UInt8} (hbs : bs ≠ [])
    (h : w.view.Fits bs.length) : ∃ w', appendBytes bs B w = ⟨.ret (), w', [.appended bs]⟩ ∧
      w'.Inv ∧ w'.view = w.view.append bs := by
  cases hv : w.vec with
  | some v =>
      refine ⟨{ w with vec := some (v ++ bs) }, by simp [appendBytes, hbs, hv],
        ⟨hw.owned, hw.fixed, hw.storage⟩, ?_⟩
      rw [MemoryPackWriter.view_vector rfl, MemoryPackWriter.view_vector hv]
      rfl
  | none =>
      cases hf : w.fixedBuf with
      | some buf =>
          have hroom := (MemoryPackWriter.fits_fixed hw hv hf).mp h
          have hpos := hw.fixed
          have hlen := hw.storage buf hf
          have hle : w.fixedPos + bs.length ≤ buf.length := by omega
          set w' : MemoryPackWriter := { w with
            fixedBuf := some (overwrite buf w.fixedPos bs), fixedPos := w.fixedPos + bs.length }
          refine ⟨w',
            by simp [w', appendBytes, hbs, hv, hf, Nat.not_lt.mpr hroom], ⟨hw.owned, ?_, ?_⟩, ?_⟩
          · show w.fixedPos + bs.length ≤ w.fixedCap
            omega
          · intro b hb
            rw [← Option.some.inj hb, length_overwrite hle]
            exact hlen
          · refine (MemoryPackWriter.view_fixed (w := w') hv rfl).trans ?_
            rw [MemoryPackWriter.view_fixed hv hf, take_overwrite hle]
            rfl
      | none =>
          have hlen := length_ensureOwned hw bs.length
          have htake := take_ensureOwned hw bs.length
          set w' : MemoryPackWriter := { w with
            owned := overwrite (ensureOwned w bs.length) w.ownedPos bs,
            ownedPos := w.ownedPos + bs.length }
          refine ⟨w', ?_, ⟨?_, hw.fixed, ?_⟩, ?_⟩
          · by_cases hgrow : bs.length > w.owned.length - w.ownedPos
            · simp [w', appendBytes, hbs, hv, hf, hgrow, growOwned, ensureOwned]
            · simp [w', appendBytes, hbs, hv, hf, hgrow, ensureOwned]
          · show _ ≤ (overwrite _ _ _).length
            rw [length_overwrite hlen]
            exact hlen
          · intro b hb
            exact absurd (hf.symm.trans hb) (by simp)
          · refine (MemoryPackWriter.view_owned (w := w') hv hf).trans ?_
            rw [MemoryPackWriter.view_owned hv hf, take_overwrite hlen, htake]
            rfl

/-- Without room, which only a fixed buffer can lack, none of them is appended. -/
theorem appendBytes_full (hw : w.Inv) {bs : List UInt8} (h : ¬ w.view.Fits bs.length) :
    appendBytes bs B w = (fail .bufferOverflow B w).after [.refused bs.length] := by
  cases hv : w.vec with
  | some v =>
      rw [MemoryPackWriter.view_vector hv] at h
      exact absurd trivial h
  | none =>
      cases hf : w.fixedBuf with
      | none =>
          rw [MemoryPackWriter.view_owned hv hf] at h
          exact absurd trivial h
      | some buf =>
          rw [MemoryPackWriter.fits_fixed hw hv hf, Nat.not_le] at h
          have hbs : bs ≠ [] := by
            rintro rfl
            exact absurd h (Nat.not_lt_zero _)
          simp [appendBytes, hbs, hv, hf, h]

/-! ## Buffer management -/

theorem reserve_view (hw : w.Inv) (capacity : Nat) :
    ∃ w', reserve capacity B w = ⟨.ret (), w', []⟩ ∧ w'.Inv ∧ w'.view = w.view := by
  refine ⟨_, rfl, ?_⟩
  obtain ⟨owned, ownedPos, vec, fixedBuf, fixedCap, fixedPos, error⟩ := w
  have hpos : ownedPos ≤ owned.length := hw.owned
  rcases vec with _ | v
  · rcases fixedBuf with _ | buf
    · dsimp only
      by_cases hcap : capacity > owned.length
      · rw [if_pos hcap]
        refine ⟨⟨?_, hw.fixed, hw.storage⟩, ?_⟩
        · show ownedPos ≤ (resize owned capacity).length
          rw [length_resize]
          omega
        · show AppendList.mk _ ((resize owned capacity).take ownedPos) _ = _
          rw [take_resize (by omega) hpos]
          rfl
      · rw [if_neg hcap]
        exact ⟨hw, rfl⟩
    · exact ⟨hw, rfl⟩
  · exact ⟨hw, rfl⟩

theorem clear_view (hw : w.Inv) :
    ∃ w', clear B w = ⟨.ret (), w', []⟩ ∧ w'.Inv ∧ w'.view = w.view.clear := by
  refine ⟨_, rfl, ?_⟩
  obtain ⟨owned, ownedPos, vec, fixedBuf, fixedCap, fixedPos, error⟩ := w
  rcases vec with _ | v
  · rcases fixedBuf with _ | buf
    · exact ⟨⟨Nat.zero_le _, hw.fixed, hw.storage⟩, rfl⟩
    · exact ⟨⟨hw.owned, Nat.zero_le _, hw.storage⟩, rfl⟩
  · exact ⟨⟨hw.owned, hw.fixed, hw.storage⟩, rfl⟩

/-- A growable writer hands out what it has written; trimming the storage to it does
not change the view. -/
theorem getBuffer_growable (hw : w.Inv) (h : w.fixedBuf = none ∨ w.vec ≠ none) :
    ∃ w', getBuffer B w = ⟨.ret w.getSpan, w', []⟩ ∧ w'.Inv ∧ w'.view = w.view := by
  obtain ⟨owned, ownedPos, vec, fixedBuf, fixedCap, fixedPos, error⟩ := w
  have hpos : ownedPos ≤ owned.length := hw.owned
  rcases vec with _ | v
  · rcases fixedBuf with _ | buf
    · have htrim : resize owned ownedPos = owned.take ownedPos := resize_self hpos
      have hlen : (owned.take ownedPos).length = ownedPos := by
        rw [List.length_take, Nat.min_eq_left hpos]
      refine ⟨⟨owned.take ownedPos, ownedPos, none, none, fixedCap, fixedPos, error⟩, ?_,
        ⟨hlen.ge, hw.fixed, hw.storage⟩, ?_⟩
      · simp [getBuffer, htrim, MemoryPackWriter.getSpan, MemoryPackWriter.data,
          MemoryPackWriter.size]
      · show AppendList.mk _ ((owned.take ownedPos).take ownedPos) _ = _
        rw [List.take_take, Nat.min_self]
        rfl
    · simp at h
  · refine ⟨⟨owned, ownedPos, some v, fixedBuf, fixedCap, fixedPos, error⟩, ?_, hw, rfl⟩
    simp [getBuffer, MemoryPackWriter.getSpan, MemoryPackWriter.data, MemoryPackWriter.size]

theorem getBuffer_fixed {buf : List UInt8} (hv : w.vec = none) (hf : w.fixedBuf = some buf) :
    getBuffer B w = (fail .notSupported B w).bind fun _ w' => ⟨.ret [], w', []⟩ := by
  simp [getBuffer, hv, hf]

/-- `TakeBuffer` moves the written bytes out and starts over. -/
theorem takeBuffer_owned (hw : w.Inv) (hv : w.vec = none) (hf : w.fixedBuf = none) :
    takeBuffer B w = ⟨.ret w.getSpan, { w with owned := [], ownedPos := 0 }, []⟩ := by
  have hspan : w.getSpan = resize w.owned w.ownedPos := by
    rw [resize_self hw.owned]
    simp [MemoryPackWriter.getSpan, MemoryPackWriter.data, MemoryPackWriter.size, hv, hf]
  simp [takeBuffer, hv, hf, hspan]

theorem takeBuffer_other (h : w.vec ≠ none ∨ w.fixedBuf ≠ none) :
    takeBuffer B w = (fail .notSupported B w).bind fun _ w' => ⟨.ret [], w', []⟩ := by
  have hsome : w.vec.isSome = true ∨ w.fixedBuf.isSome = true := by
    simpa [Option.isSome_iff_ne_none] using h
  simp [takeBuffer, hsome]

end Writer

end MemoryPack
