import MemoryPack.Core.Deserialize

/-!
# What the primitives of the reader do

For each statement the formatters are made of: its result on a reader that has
not failed and has the bytes it needs, its result where it fails, and the
inversion, from a run that returned to what must have been the case. Later files
never unfold a primitive; they cite these.
-/

namespace MemoryPack

open Effect

/-! ## Failure, bounds, cursor -/

/-- The reader after `Fail(code)`. -/
def MemoryPackReader.record (r : MemoryPackReader) (code : MemoryPackError) :
    MemoryPackReader :=
  { r with error := if r.error = .none then code else r.error }

/-- The reader after `++depth_`. -/
def MemoryPackReader.entered (r : MemoryPackReader) : MemoryPackReader :=
  { r with depth := r.depth + 1 }

/-- The reader after `LeaveObject`. -/
def MemoryPackReader.left (r : MemoryPackReader) : MemoryPackReader :=
  if r.depth > 0 then { r with depth := r.depth - 1 } else r

/-- An event that only reads or moves the cursor, inside an input of `size` bytes. -/
def ReadEvent.Cursor (size : Nat) : ReadEvent → Prop
  | .moved pos => pos ≤ size
  | .access start n => start + n ≤ size
  | _ => False

/-- Events that do not concern the depth counter. -/
def ReadEvent.Plain : ReadEvent → Prop
  | .entering _ => False
  | .enterBody => False
  | .leaveBody => False
  | _ => True

/-- Events that report what a check has let through: a length, a request for memory,
elements stored. -/
def ReadEvent.Measured : ReadEvent → Prop
  | .alloc _ _ _ => True
  | .elements _ => True
  | .acceptedLength _ => True
  | .acceptedString _ _ => True
  | _ => False

/-- The other events that do not concern the depth counter. -/
def ReadEvent.Free : ReadEvent → Prop
  | .moved _ => True
  | .access _ _ => True
  | .product _ _ => True
  | .undeclaredTag _ => True
  | .kept _ => True
  | .tableIndex _ _ => True
  | .sought _ _ _ => True
  | _ => False

theorem ReadEvent.Measured.plain {e : ReadEvent} (h : e.Measured) : e.Plain := by
  cases e <;> trivial

theorem ReadEvent.Cursor.free {size : Nat} {e : ReadEvent} (h : e.Cursor size) : e.Free := by
  cases e <;> trivial

theorem ReadEvent.Free.plain {e : ReadEvent} (h : e.Free) : e.Plain := by
  cases e <;> trivial

namespace Reader

variable {B : Build} {r : MemoryPackReader} {n : Nat}

theorem fail_throws (hB : B.exceptions = true) (code : MemoryPackError) :
    fail code B r = ⟨.throw code, r.record code, [.failure r.pos code]⟩ := by
  simp [fail, hB, MemoryPackReader.record]

theorem fail_returns (hB : B.exceptions = false) (code : MemoryPackError) :
    fail code B r = ⟨.ret (), r.record code, [.failure r.pos code]⟩ := by
  simp [fail, hB, MemoryPackReader.record]

theorem ensureBytes_failed (he : r.error ≠ .none) : ensureBytes n B r = ⟨.ret false, r, []⟩ := by
  simp [ensureBytes, he]

theorem ensureBytes_ok (he : r.error = .none) (hn : n ≤ r.remaining) :
    ensureBytes n B r = ⟨.ret true, r, []⟩ := by
  have hn' : ¬ n > r.size - r.pos := Nat.not_lt.mpr hn
  simp [ensureBytes, he, hn']

theorem ensureBytes_short (he : r.error = .none) (hn : r.remaining < n) :
    ensureBytes n B r = (fail .bufferUnderflow B r).bind fun _ s => ⟨.ret false, s, []⟩ := by
  have hn' : n > r.size - r.pos := hn
  simp [ensureBytes, he, hn']

theorem takeBytes_failed (he : r.error ≠ .none) : takeBytes n B r = ⟨.ret none, r, []⟩ := by
  simp [takeBytes, ensureBytes_failed he]

theorem takeBytes_ok (he : r.error = .none) (hn : n ≤ r.remaining) :
    takeBytes n B r = ⟨.ret (some (r.rest.take n)), { r with pos := r.pos + n },
      [.access r.pos n, .moved (r.pos + n)]⟩ := by
  simp [takeBytes, ensureBytes_ok he hn, copy, bump, setPos]

theorem takeBytes_short (he : r.error = .none) (hn : r.remaining < n) :
    takeBytes n B r = (fail .bufferUnderflow B r).bind fun _ s => ⟨.ret none, s, []⟩ := by
  cases hB : B.exceptions with
  | true => simp [takeBytes, ensureBytes_short he hn, fail_throws hB]
  | false => simp [takeBytes, ensureBytes_short he hn, fail_returns hB]

theorem advance_failed (he : r.error ≠ .none) : advance n B r = ⟨.ret (), r, []⟩ := by
  simp [advance, ensureBytes_failed he]

theorem advance_ok (he : r.error = .none) (hn : n ≤ r.remaining) :
    advance n B r = ⟨.ret (), { r with pos := r.pos + n }, [.moved (r.pos + n)]⟩ := by
  simp [advance, ensureBytes_ok he hn, bump, setPos]

theorem advance_short (he : r.error = .none) (hn : r.remaining < n) :
    advance n B r = fail .bufferUnderflow B r := by
  cases hB : B.exceptions with
  | true => simp [advance, ensureBytes_short he hn, fail_throws hB]
  | false => simp [advance, ensureBytes_short he hn, fail_returns hB]

theorem seek_within {pos : Nat} (h : pos ≤ r.size) : seek pos B r =
    ⟨.ret (), { r with pos := pos }, [.sought r.pos pos r.failed, .moved pos]⟩ := by
  have h' : ¬ pos > r.size := Nat.not_lt.mpr h
  simp [seek, h', setPos]

theorem seek_past {pos : Nat} (h : r.size < pos) : seek pos B r =
    (fail .bufferUnderflow B r).after [.sought r.pos pos r.failed] := by
  have h' : pos > r.size := h
  simp [seek, h']

/-- `endianConvert` undoes what the host's byte order did: a wire number is read in
little-endian order on every host. -/
theorem endianConvert_hostNat (e : Endian) (bs : List UInt8) :
    endianConvert e bs.length (hostNat e bs) = LittleEndian.leNat bs := by
  cases e with
  | little => rfl
  | big =>
      by_cases h1 : bs.length = 1
      · obtain ⟨b, rfl⟩ := List.length_eq_one_iff.mp h1
        rfl
      · have h := LittleEndian.byteswap_leNat bs.reverse
        rw [List.length_reverse, List.reverse_reverse] at h
        simp only [endianConvert, h1, reduceCtorEq, or_self, if_false, hostNat, h]

theorem length_rest_take (hn : n ≤ r.remaining) : (r.rest.take n).length = n := by
  rw [List.length_take, MemoryPackReader.rest, List.length_drop]
  exact Nat.min_eq_left hn

theorem readRaw_failed {w : Nat} (he : r.error ≠ .none) : readRaw w B r = ⟨.ret 0, r, []⟩ := by
  simp [readRaw, takeBytes_failed he]

theorem readRaw_ok {w : Nat} (he : r.error = .none) (hw : w ≤ r.remaining) :
    readRaw w B r = ⟨.ret (LittleEndian.leNat (r.rest.take w)), { r with pos := r.pos + w },
      [.access r.pos w, .moved (r.pos + w)]⟩ := by
  have h := endianConvert_hostNat B.endian (r.rest.take w)
  rw [length_rest_take hw] at h
  simp [readRaw, takeBytes_ok he hw, h]

theorem readRaw_short {w : Nat} (he : r.error = .none) (hw : r.remaining < w) :
    readRaw w B r = (fail .bufferUnderflow B r).bind fun _ s => ⟨.ret 0, s, []⟩ := by
  cases hB : B.exceptions with
  | true => simp [readRaw, takeBytes_short he hw, fail_throws hB]
  | false => simp [readRaw, takeBytes_short he hw, fail_returns hB]

theorem rest_add (r : MemoryPackReader) (n : Nat) :
    ({ r with pos := r.pos + n } : MemoryPackReader).rest = r.rest.drop n := by
  simp [MemoryPackReader.rest]

theorem remaining_add (r : MemoryPackReader) (n : Nat) :
    ({ r with pos := r.pos + n } : MemoryPackReader).remaining = r.remaining - n :=
  Nat.sub_add_eq ..

theorem pos_le_of_le_remaining (h : n ≤ r.remaining) (hn : 0 < n) : r.pos + n ≤ r.size := by
  have h' : n ≤ r.size - r.pos := h
  omega

/-- The next `left` UTF-16 units of the input. -/
def nextUnits (left : Nat) (bs : List UInt8) : List UInt16 :=
  (splitWords 2 left bs).map UInt16.ofNat

/-! ## Contiguous ranges -/

theorem sizeProduct_apply (a b : Nat) :
    sizeProduct a b B r = ⟨.ret (a * b % B.sizeMod), r, [.product a b]⟩ := rfl

/-- `memcpy` and `pos_ += n`, without a check. -/
theorem copyBump_apply {α : Type} (n : Nat) (f : List UInt8 → α) :
    (do let bs ← copy n; bump n; return f bs : ReadM α) B r =
      ⟨.ret (f (r.rest.take n)), { r with pos := r.pos + n },
        [.access r.pos n, .moved (r.pos + n)]⟩ := by
  simp [copy, bump, setPos]

theorem splitWords_take_of_le (w : Nat) : ∀ {n k : Nat} (bs : List UInt8), n * w ≤ k →
    splitWords w n (bs.take k) = splitWords w n bs
  | 0, _, _, _ => rfl
  | n + 1, k, bs, hk => by
      rw [Nat.succ_mul] at hk
      rw [splitWords, splitWords, List.take_take, Nat.min_eq_left (by omega), List.drop_take,
        splitWords_take_of_le w _ (by omega)]

theorem splitWords_take (w n : Nat) (bs : List UInt8) :
    splitWords w n (bs.take (n * w)) = splitWords w n bs :=
  splitWords_take_of_le w bs (Nat.le_refl _)

theorem readRaws_ok (w : Nat) : ∀ (count : Nat) (r : MemoryPackReader), r.error = .none →
    count * w ≤ r.remaining → ∃ l, readRaws w count B r =
      ⟨.ret (splitWords w count r.rest), { r with pos := r.pos + count * w }, l⟩ ∧
        ∀ e ∈ l, e.Free
  | 0, r, _, _ => ⟨[], by simp [readRaws, splitWords], by simp⟩
  | count + 1, r, he, hn => by
      have hw : w ≤ r.remaining := by rw [Nat.succ_mul] at hn; omega
      obtain ⟨l, hrest, hl⟩ := readRaws_ok w count { r with pos := r.pos + w } he
        (by rw [remaining_add]; rw [Nat.succ_mul] at hn; omega)
      have hpos : r.pos + (count + 1) * w = r.pos + w + count * w := by rw [Nat.succ_mul]; omega
      exact ⟨_, by
        simp only [readRaws, Prog.bind_apply, readRaw_ok he hw, Res.bind_ret, hrest,
          Prog.pure_apply, Res.after_mk, splitWords, rest_add, hpos]
        rfl, by simpa [ReadEvent.Free] using hl⟩

theorem readContiguous_ok (w count : Nat) (he : r.error = .none) (hn : count * w ≤ r.remaining)
    (hlt : count * w < B.sizeMod) : ∃ l, readContiguous w count B r =
      ⟨.ret (splitWords w count r.rest), { r with pos := r.pos + count * w }, l⟩ := by
  by_cases hB : B.endian = .little
  · exact ⟨_, by
      simp only [readContiguous, Prog.bind_apply, Prog.ask_apply, Res.bind_ret, hB, if_true,
        sizeProduct_apply, Nat.mod_eq_of_lt hlt, copy, bump, setPos, Prog.get_apply,
        Prog.tell_apply, Prog.modify_apply, Prog.pure_apply, Res.after_mk, splitWords_take]
      rfl⟩
  · obtain ⟨l, h, -⟩ := readRaws_ok (B := B) w count r he hn
    exact ⟨l, by simp only [readContiguous, Prog.bind_apply, Prog.ask_apply, Res.bind_ret, hB,
      if_false, h, Res.after_nil]⟩

theorem skipElements_ok (w : Nat) (skip : Int) (he : r.error = .none)
    (hn : skip.toNat * w ≤ r.remaining) (hlt : skip.toNat * w < B.sizeMod) :
    ∃ l, skipElements w skip B r = ⟨.ret (), { r with pos := r.pos + skip.toNat * w }, l⟩ := by
  by_cases h0 : skip > 0
  · exact ⟨_, by
      simp only [skipElements, h0, if_true, Prog.bind_apply, sizeProduct_apply, Res.bind_ret,
        Nat.mod_eq_of_lt hlt, ensureBytes_ok he hn, bump, setPos, Prog.get_apply,
        Prog.modify_apply, Prog.tell_apply, Res.after_mk]
      rfl⟩
  · have hzero : skip.toNat = 0 := Int.toNat_of_nonpos (Int.not_lt.mp h0)
    exact ⟨[], by simp [skipElements, h0, hzero]⟩

theorem skipElements_short (w : Nat) (skip : Int) (he : r.error = .none)
    (hn : r.remaining < skip.toNat * w) (hlt : skip.toNat * w < B.sizeMod)
    (hB : B.exceptions = true) :
    ∃ s l, skipElements w skip B r = ⟨.throw .bufferUnderflow, s, l⟩ := by
  have h0 : skip > 0 := by
    by_contra h0
    rw [Int.toNat_of_nonpos (Int.not_lt.mp h0), Nat.zero_mul] at hn
    omega
  exact ⟨_, _, by
    simp only [skipElements, h0, if_true, Prog.bind_apply, sizeProduct_apply, Res.bind_ret,
      Nat.mod_eq_of_lt hlt, ensureBytes_short he hn, fail_throws hB, Res.bind_throw, Res.after_mk]
    rfl⟩

/-! ## Inversion

A statement that returned either did its work on a reader that had not failed, or
left a failed reader behind. -/

variable {r' : MemoryPackReader} {l : List ReadEvent}

theorem record_error_ne {code : MemoryPackError} (hc : code ≠ .none) :
    (r.record code).error ≠ .none := by
  by_cases he : r.error = .none <;> simp [MemoryPackReader.record, he, hc]

/-- Failing and going on leaves a failed reader. -/
theorem fail_bind_ret {α : Type} {code : MemoryPackError} (hc : code ≠ .none) {a b : α}
    (h : (fail code B r).bind (fun _ s => ⟨.ret a, s, []⟩) = ⟨.ret b, r', l⟩) :
    b = a ∧ r'.error ≠ .none := by
  cases hB : B.exceptions with
  | true => simp [fail_throws hB] at h
  | false =>
      rw [fail_returns hB, Res.bind_ret, Res.after_mk, Res.mk.injEq] at h
      obtain ⟨ha, rfl, -⟩ := h
      exact ⟨(Out.ret.inj ha).symm, record_error_ne hc⟩

theorem ensureBytes_returns {ok : Bool} (h : ensureBytes n B r = ⟨.ret ok, r', l⟩) :
    (ok = true ∧ r.error = .none ∧ n ≤ r.remaining ∧ r' = r) ∨
      (ok = false ∧ r'.error ≠ .none) := by
  by_cases he : r.error = .none
  · by_cases hn : n ≤ r.remaining
    · rw [ensureBytes_ok he hn, Res.mk.injEq] at h
      exact .inl ⟨(Out.ret.inj h.1).symm, he, hn, h.2.1.symm⟩
    · rw [ensureBytes_short he (Nat.not_le.mp hn)] at h
      exact .inr (fail_bind_ret (by decide) h)
  · rw [ensureBytes_failed he, Res.mk.injEq] at h
    exact .inr ⟨(Out.ret.inj h.1).symm, h.2.1 ▸ he⟩

theorem takeBytes_returns {o : Option (List UInt8)} (h : takeBytes n B r = ⟨.ret o, r', l⟩) :
    (r.error = .none ∧ n ≤ r.remaining ∧ o = some (r.rest.take n) ∧
      r' = { r with pos := r.pos + n }) ∨ (o = none ∧ r'.error ≠ .none) := by
  by_cases he : r.error = .none
  · by_cases hn : n ≤ r.remaining
    · rw [takeBytes_ok he hn, Res.mk.injEq] at h
      exact .inl ⟨he, hn, (Out.ret.inj h.1).symm, h.2.1.symm⟩
    · rw [takeBytes_short he (Nat.not_le.mp hn)] at h
      exact .inr (fail_bind_ret (by decide) h)
  · rw [takeBytes_failed he, Res.mk.injEq] at h
    exact .inr ⟨(Out.ret.inj h.1).symm, h.2.1 ▸ he⟩

theorem readRaw_returns {w a : Nat} (h : readRaw w B r = ⟨.ret a, r', l⟩) :
    (r.error = .none ∧ w ≤ r.remaining ∧ a = LittleEndian.leNat (r.rest.take w) ∧
      r' = { r with pos := r.pos + w }) ∨ (a = 0 ∧ r'.error ≠ .none) := by
  by_cases he : r.error = .none
  · by_cases hw : w ≤ r.remaining
    · rw [readRaw_ok he hw, Res.mk.injEq] at h
      exact .inl ⟨he, hw, (Out.ret.inj h.1).symm, h.2.1.symm⟩
    · rw [readRaw_short he (Nat.not_le.mp hw)] at h
      exact .inr (fail_bind_ret (by decide) h)
  · rw [readRaw_failed he, Res.mk.injEq] at h
    exact .inr ⟨(Out.ret.inj h.1).symm, h.2.1 ▸ he⟩

/-! ## Collection lengths -/

theorem asInt32_lt (n : Int) : asInt32 n < 2 ^ 31 := by
  have h := Int.bmod_lt (x := n) (m := 2 ^ 32) (by decide)
  rw [asInt32]
  omega

theorem le_asInt32 (n : Int) : -2 ^ 31 ≤ asInt32 n := by
  have h := Int.le_bmod (x := n) (m := 2 ^ 32) (by decide)
  rw [asInt32]
  omega

theorem asInt32_of_lt {n : Int} (h₁ : -2 ^ 31 ≤ n) (h₂ : n < 2 ^ 31) : asInt32 n = n := by
  rw [asInt32, Int.bmod_eq_of_le (by omega) (by omega)]

/-- The checks of `ReadCollectionLength` on a header it has read. -/
def checkLength (min : Nat) (len : Int) : ReadM Int := do
  if len < 0 then
    if len ≠ nullCollection then
      fail .lengthLimit
      return -1
    return -1
  let r ← Prog.get
  if len.toNat > r.options.maxCollectionLength.toNat then
    fail .lengthLimit
    return -1
  if min > 0 ∧ len.toNat > r.remaining / min then
    fail .lengthLimit
    return -1
  Prog.tell (.acceptedLength len.toNat)
  return len

theorem readCollectionLength_eq (min : Nat) :
    readCollectionLength min = (do checkLength min (asInt32 (← readRaw 4))) := rfl

/-- A length the checks accept. -/
structure LengthOk (min : Nat) (len : Int) (r : MemoryPackReader) : Prop where
  nonneg : 0 ≤ len
  limit : len.toNat ≤ r.options.maxCollectionLength.toNat
  present : 0 < min → len.toNat ≤ r.remaining / min

variable {min : Nat} {len : Int}

theorem checkLength_ok (h : LengthOk min len r) :
    checkLength min len B r = ⟨.ret len, r, [.acceptedLength len.toNat]⟩ := by
  have hneg : ¬ len < 0 := Int.not_lt.mpr h.nonneg
  have hlim : ¬ len.toNat > r.options.maxCollectionLength.toNat := Nat.not_lt.mpr h.limit
  have hpl : ¬ (min > 0 ∧ len.toNat > r.remaining / min) :=
    fun hc => absurd (h.present hc.1) (Nat.not_le.mpr hc.2)
  simp only [checkLength, hneg, if_false, Prog.bind_apply, Prog.get_apply, Res.bind_ret,
    Prog.ite_apply, hlim, hpl, Prog.tell_apply, Prog.pure_apply, Res.after_mk, List.append_nil]
  rfl

theorem checkLength_null : checkLength min nullCollection B r = ⟨.ret (-1), r, []⟩ := by
  simp [checkLength, nullCollection]

theorem checkLength_rejects (h0 : len ≠ nullCollection) (h : ¬ LengthOk min len r) :
    checkLength min len B r = (fail .lengthLimit B r).bind fun _ s => ⟨.ret (-1), s, []⟩ := by
  by_cases hneg : len < 0
  · simp [checkLength, hneg, h0]
  · by_cases hlim : len.toNat > r.options.maxCollectionLength.toNat
    · simp only [checkLength, hneg, if_false, Prog.bind_apply, Prog.get_apply, Res.bind_ret,
        Prog.ite_apply, hlim, if_true, Prog.pure_apply, Res.after_nil]
    · by_cases hpl : min > 0 ∧ len.toNat > r.remaining / min
      · simp only [checkLength, hneg, if_false, Prog.bind_apply, Prog.get_apply, Res.bind_ret,
          Prog.ite_apply, hlim, hpl, and_self, if_true, Prog.pure_apply, Res.after_nil]
      · exact absurd ⟨Int.not_lt.mp hneg, Nat.not_lt.mp hlim,
          fun h0 => Nat.not_lt.mp fun hc => hpl ⟨h0, hc⟩⟩ h

theorem readCollectionLength_ok (he : r.error = .none) (h4 : 4 ≤ r.remaining)
    (hlen : len = asInt32 (LittleEndian.leNat (r.rest.take 4)))
    (hok : len = nullCollection ∨ LengthOk min len { r with pos := r.pos + 4 }) :
    ∃ l, readCollectionLength min B r = ⟨.ret len, { r with pos := r.pos + 4 }, l⟩ := by
  rw [readCollectionLength_eq, Prog.bind_apply, readRaw_ok he h4, Res.bind_ret, ← hlen]
  rcases hok with rfl | hok
  · exact ⟨_, by rw [checkLength_null, Res.after_mk]; rfl⟩
  · exact ⟨_, by rw [checkLength_ok hok, Res.after_mk]⟩

/-- Every way `ReadCollectionLength` returns. -/
theorem readCollectionLength_returns (h : readCollectionLength min B r = ⟨.ret len, r', l⟩) :
    (r.error = .none ∧ 4 ≤ r.remaining ∧ r' = { r with pos := r.pos + 4 } ∧
      len = asInt32 (LittleEndian.leNat (r.rest.take 4)) ∧
      (len = nullCollection ∨ LengthOk min len r')) ∨ (len ≤ 0 ∧ r'.error ≠ .none) := by
  rw [readCollectionLength_eq] at h
  obtain ⟨a, r₁, l₁, l₂, hraw, hcheck, -⟩ := Prog.bind_eq_ret h
  have hcases : (r' = r₁ ∧ len = asInt32 a ∧ (len = nullCollection ∨ LengthOk min len r')) ∨
      (len = -1 ∧ r'.error ≠ .none) := by
    by_cases hnull : asInt32 a = nullCollection
    · rw [hnull, checkLength_null, Res.mk.injEq] at hcheck
      obtain ⟨hlen, rfl, -⟩ := hcheck
      have hlen : len = nullCollection := (Out.ret.inj hlen).symm
      exact .inl ⟨rfl, hlen.trans hnull.symm, .inl hlen⟩
    · by_cases hok : LengthOk min (asInt32 a) r₁
      · rw [checkLength_ok hok, Res.mk.injEq] at hcheck
        obtain ⟨hlen, rfl, -⟩ := hcheck
        obtain rfl := Out.ret.inj hlen
        exact .inl ⟨rfl, rfl, .inr hok⟩
      · rw [checkLength_rejects hnull hok] at hcheck
        exact .inr (fail_bind_ret (by decide) hcheck)
  rcases hcases with ⟨rfl, hlen, hok⟩ | ⟨hlen, he⟩
  · rcases readRaw_returns hraw with ⟨he, h4, rfl, hr'⟩ | ⟨rfl, he⟩
    · exact .inl ⟨he, h4, hr', hlen, hok⟩
    · exact .inr ⟨by rw [hlen]; decide, he⟩
  · exact .inr ⟨by omega, he⟩

/-! ## Fixed arrays -/

/-- `ReadArray` behind a positive length. -/
def arrayPayload (w : Nat) (len maxCount : Int) : ReadM (List Nat) := do
  let readCount := if len ≤ maxCount then len else maxCount
  if readCount > 0 then
    if !(← ensureBytes (← sizeProduct readCount.toNat w)) then return []
    let stored ← readContiguous w readCount.toNat
    skipElements w (asInt32 (len - readCount))
    return stored
  else
    skipElements w (asInt32 (len - readCount))
    return []

theorem readArray_eq (w : Nat) (maxCount : Int) : readArray w maxCount = (do
    let len ← readCollectionLength w
    if len ≤ 0 then return []
    arrayPayload w len maxCount) := rfl

section ArrayPayload

variable {w : Nat} {maxCount : Int}

/-- Stored and skipped elements make up the collection. -/
theorem stored_add_skipped (hmax : 0 ≤ maxCount) (hlen : 0 < len) (hlt : len < 2 ^ 31) :
    (if len ≤ maxCount then len else maxCount).toNat * w +
      (asInt32 (len - if len ≤ maxCount then len else maxCount)).toNat * w = len.toNat * w := by
  rw [asInt32_of_lt (by split <;> omega) (by split <;> omega), ← Nat.add_mul]
  congr 1
  split <;> omega

theorem arrayPayload_ok (he : r.error = .none) (hmax : 0 ≤ maxCount) (hlen : 0 < len)
    (hlt : len < 2 ^ 31) (hn : len.toNat * w ≤ r.remaining) (hmod : len.toNat * w < B.sizeMod) :
    ∃ l, arrayPayload w len maxCount B r =
      ⟨.ret (splitWords w (if len ≤ maxCount then len else maxCount).toNat r.rest),
        { r with pos := r.pos + len.toNat * w }, l⟩ := by
  have hsum := stored_add_skipped (w := w) hmax hlen hlt
  simp only [arrayPayload]
  generalize (if len ≤ maxCount then len else maxCount) = stored at hsum ⊢
  have hpos : r.pos + stored.toNat * w + (asInt32 (len - stored)).toNat * w =
      r.pos + len.toNat * w := by omega
  by_cases h0 : stored > 0
  · obtain ⟨l₁, hread⟩ := readContiguous_ok (B := B) w stored.toNat he
      (by omega) (by omega)
    obtain ⟨l₂, hskip⟩ := skipElements_ok (B := B) w (asInt32 (len - stored))
      (r := { r with pos := r.pos + stored.toNat * w }) he
      (by rw [remaining_add]; omega) (by omega)
    exact ⟨_, by
      simp only [h0, if_true, Prog.bind_apply, sizeProduct_apply, Res.bind_ret,
        Nat.mod_eq_of_lt (show stored.toNat * w < B.sizeMod by omega),
        ensureBytes_ok he (show stored.toNat * w ≤ r.remaining by omega), Bool.not_true,
        Bool.false_eq_true, if_false, hread, hskip, Prog.pure_apply, Res.after_mk, hpos]
      rfl⟩
  · have hzero : stored.toNat = 0 := Int.toNat_of_nonpos (Int.not_lt.mp h0)
    rw [hzero, Nat.zero_mul, Nat.zero_add] at hsum
    obtain ⟨l₂, hskip⟩ := skipElements_ok (B := B) w (asInt32 (len - stored)) he
      (by omega) (by omega)
    exact ⟨_, by
      simp only [h0, if_false, Prog.bind_apply, hskip, Res.bind_ret, Prog.pure_apply,
        Res.after_mk, hsum, hzero, splitWords]
      rfl⟩

theorem arrayPayload_short (hB : B.exceptions = true) (he : r.error = .none)
    (hmax : 0 ≤ maxCount) (hlen : 0 < len) (hlt : len < 2 ^ 31)
    (hn : r.remaining < len.toNat * w) (hmod : len.toNat * w < B.sizeMod) :
    ∃ s l, arrayPayload w len maxCount B r = ⟨.throw .bufferUnderflow, s, l⟩ := by
  have hsum := stored_add_skipped (w := w) hmax hlen hlt
  simp only [arrayPayload]
  generalize (if len ≤ maxCount then len else maxCount) = stored at hsum ⊢
  by_cases h0 : stored > 0
  · by_cases hs : stored.toNat * w ≤ r.remaining
    · obtain ⟨l₁, hread⟩ := readContiguous_ok (B := B) w stored.toNat he hs
        (by omega)
      obtain ⟨s, l₂, hskip⟩ := skipElements_short (B := B) w
        (asInt32 (len - stored)) (r := { r with pos := r.pos + stored.toNat * w }) he
        (by rw [remaining_add]; omega) (by omega) hB
      exact ⟨_, _, by
        simp only [h0, if_true, Prog.bind_apply, sizeProduct_apply, Res.bind_ret,
          Nat.mod_eq_of_lt (show stored.toNat * w < B.sizeMod by omega), ensureBytes_ok he hs,
          Bool.not_true, Bool.false_eq_true, if_false, hread, hskip, Res.bind_throw, Res.after_mk]
        rfl⟩
    · exact ⟨_, _, by
        simp only [h0, if_true, Prog.bind_apply, sizeProduct_apply, Res.bind_ret,
          Nat.mod_eq_of_lt (show stored.toNat * w < B.sizeMod by omega),
          ensureBytes_short he (Nat.not_le.mp hs), fail_throws hB, Res.bind_throw, Res.after_mk]
        rfl⟩
  · have hzero : stored.toNat = 0 := Int.toNat_of_nonpos (Int.not_lt.mp h0)
    rw [hzero, Nat.zero_mul, Nat.zero_add] at hsum
    obtain ⟨s, l₂, hskip⟩ := skipElements_short (B := B) w
      (asInt32 (len - stored)) he (by omega) (by omega) hB
    exact ⟨_, _, by
      simp only [h0, if_false, Prog.bind_apply, hskip, Res.bind_throw]
      rfl⟩

end ArrayPayload

/-! ## Headers -/

theorem readByte_failed (he : r.error ≠ .none) : readByte B r = ⟨.ret 0, r, []⟩ := by
  simp [readByte, takeBytes_failed he]

theorem readByte_ok (he : r.error = .none) (h1 : 1 ≤ r.remaining) :
    readByte B r = ⟨.ret (r.rest.headD 0), { r with pos := r.pos + 1 },
      [.access r.pos 1, .moved (r.pos + 1)]⟩ := by
  have hhead : (r.rest.take 1).headD 0 = r.rest.headD 0 := by cases r.rest <;> rfl
  simp only [readByte, Prog.bind_apply, takeBytes_ok he h1, Res.bind_ret, Prog.pure_apply,
    Res.after_mk, List.append_nil, hhead]

theorem readByte_returns {b : UInt8} (h : readByte B r = ⟨.ret b, r', l⟩) :
    (r.error = .none ∧ 1 ≤ r.remaining ∧ b = r.rest.headD 0 ∧
      r' = { r with pos := r.pos + 1 }) ∨ (b = 0 ∧ r'.error ≠ .none) := by
  obtain ⟨o, r₁, l₁, l₂, htake, hb, -⟩ := Prog.bind_eq_ret h
  rcases takeBytes_returns htake with ⟨he, h1, rfl, rfl⟩ | ⟨rfl, he⟩
  · rw [readByte_ok he h1, Res.mk.injEq] at h
    exact .inl ⟨he, h1, (Out.ret.inj h.1).symm, h.2.1.symm⟩
  · obtain ⟨hzero, rfl, -⟩ := (Res.mk.injEq ..).mp hb
    exact .inr ⟨(Out.ret.inj hzero).symm, he⟩

theorem peekIsNull_ok (h1 : 1 ≤ r.remaining) :
    peekIsNull B r = ⟨.ret (r.rest.headD 0 = nullObject), r, [.access r.pos 1]⟩ := by
  have hlt : ¬ r.pos ≥ r.size := by
    have : 1 ≤ r.size - r.pos := h1
    omega
  simp [peekIsNull, hlt]

theorem peekIsNull_end (h0 : ¬ 1 ≤ r.remaining) : peekIsNull B r = ⟨.ret false, r, []⟩ := by
  have hge : r.pos ≥ r.size := by
    have : ¬ 1 ≤ r.size - r.pos := h0
    omega
  simp [peekIsNull, hge]

theorem readObjectHeader_ok (he : r.error = .none) (h1 : 1 ≤ r.remaining)
    (hb : r.rest.headD 0 ≤ maxMemberCount) :
    readObjectHeader B r = ⟨.ret ⟨r.rest.headD 0, false⟩, { r with pos := r.pos + 1 },
      [.access r.pos 1, .moved (r.pos + 1)]⟩ := by
  have hnull : r.rest.headD 0 ≠ nullObject := fun h => absurd (h ▸ hb) (by decide)
  simp only [readObjectHeader, Prog.bind_apply, readByte_ok he h1, Res.bind_ret, hnull,
    UInt8.not_lt.mpr hb, gt_iff_lt, if_false, Prog.pure_apply, Res.after_mk, List.append_nil]

theorem readObjectHeader_null (he : r.error = .none) (h1 : 1 ≤ r.remaining)
    (hb : r.rest.headD 0 = nullObject) :
    readObjectHeader B r = ⟨.ret ⟨0, true⟩, { r with pos := r.pos + 1 },
      [.access r.pos 1, .moved (r.pos + 1)]⟩ := by
  simp only [readObjectHeader, Prog.bind_apply, readByte_ok he h1, Res.bind_ret, hb, if_true,
    Prog.pure_apply, Res.after_mk, List.append_nil]

/-- Every way `ReadObjectHeader` returns. -/
theorem readObjectHeader_returns {header : ObjectHeader}
    (h : readObjectHeader B r = ⟨.ret header, r', l⟩) :
    (r.error = .none ∧ 1 ≤ r.remaining ∧ r' = { r with pos := r.pos + 1 } ∧
      (r.rest.headD 0 = nullObject ∧ header = ⟨0, true⟩ ∨
        r.rest.headD 0 ≤ maxMemberCount ∧ header = ⟨r.rest.headD 0, false⟩)) ∨
      (header.count = 0 ∧ r'.error ≠ .none) := by
  obtain ⟨b, r₁, l₁, l₂, hbyte, hrest, -⟩ := Prog.bind_eq_ret h
  have hcases : (r' = r₁ ∧ (b = nullObject ∧ header = ⟨0, true⟩ ∨
      b ≤ maxMemberCount ∧ header = ⟨b, false⟩)) ∨ (header.count = 0 ∧ r'.error ≠ .none) := by
    by_cases hnull : b = nullObject
    · rw [if_pos hnull] at hrest
      obtain ⟨hh, rfl, -⟩ := (Res.mk.injEq ..).mp hrest
      exact .inl ⟨rfl, .inl ⟨hnull, (Out.ret.inj hh).symm⟩⟩
    · rw [if_neg hnull] at hrest
      by_cases hmax : b > maxMemberCount
      · rw [if_pos hmax] at hrest
        obtain ⟨rfl, he⟩ := fail_bind_ret (by decide) hrest
        exact .inr ⟨rfl, he⟩
      · rw [if_neg hmax] at hrest
        obtain ⟨hh, rfl, -⟩ := (Res.mk.injEq ..).mp hrest
        exact .inl ⟨rfl, .inr ⟨UInt8.not_lt.mp hmax, (Out.ret.inj hh).symm⟩⟩
  rcases hcases with ⟨rfl, hheader⟩ | hbad
  · rcases readByte_returns hbyte with ⟨he, h1, rfl, hr'⟩ | ⟨rfl, he⟩
    · exact .inl ⟨he, h1, hr', hheader⟩
    · rcases hheader with ⟨-, rfl⟩ | ⟨-, rfl⟩ <;> exact .inr ⟨rfl, he⟩
  · exact .inr hbad

/-! ## Object bodies -/

theorem objectBody_deep {v : Val} {members : ReadM (List Val)}
    (h : r.depth + 1 > r.options.maxDepth) : objectBody v members B r =
      ((fail .lengthLimit B r.entered).bind fun _ s => ⟨.ret v, s, []⟩).after
        [.entering r.depth] := by
  cases hB : B.exceptions with
  | true => simp [objectBody, enterObject, h, MemoryPackReader.entered, fail_throws hB]
  | false => simp [objectBody, enterObject, h, MemoryPackReader.entered, fail_returns hB]

theorem objectBody_open {v : Val} {members : ReadM (List Val)}
    (h : ¬ r.depth + 1 > r.options.maxDepth) : objectBody v members B r =
      ((members B r.entered).bind fun vs s => ⟨.ret (.seq vs), s.left, [.leaveBody]⟩).after
        [.entering r.depth, .enterBody] := by
  simp [objectBody, enterObject, h, MemoryPackReader.entered, leaveObject,
    MemoryPackReader.left]

theorem readObject_define {S : Schema} {fuel i : Nat} {v : Val}
    (h : (S.decl i).kind = .define) : readObject S (fuel + 1) i v =
      defineDeserialize S (readTy S (readObject S fuel)) i v := by
  rw [readObject, h]

theorem readObject_defineEmpty {S : Schema} {fuel i : Nat} {v : Val}
    (h : (S.decl i).kind = .defineEmpty) : readObject S (fuel + 1) i v =
      defineEmptyDeserialize S i v := by
  rw [readObject, h]

theorem readObject_versionTolerant {S : Schema} {fuel i : Nat} {v : Val}
    (h : (S.decl i).kind = .versionTolerant) : readObject S (fuel + 1) i v =
      VersionTolerantReader.deserialize S (readTy S (readObject S fuel)) i v := by
  rw [readObject, h]

/-! ## Strings -/

/-- A string length the checks accept. -/
structure StringOk (byteCount unitSize : Nat) (r : MemoryPackReader) : Prop where
  limit : byteCount ≤ r.options.maxStringLength.toNat
  present : 0 < unitSize → byteCount ≤ r.remaining / unitSize

variable {unitSize : Nat}

theorem checkStringLength_ok (h : StringOk n unitSize r) :
    checkStringLength n unitSize B r = ⟨.ret true, r, []⟩ := by
  have hlim : ¬ n > r.options.maxStringLength.toNat := Nat.not_lt.mpr h.limit
  have hpl : ¬ (unitSize > 0 ∧ n > r.remaining / unitSize) :=
    fun hc => absurd (h.present hc.1) (Nat.not_le.mpr hc.2)
  simp [checkStringLength, hlim, hpl]

theorem checkStringLength_rejects (h : ¬ StringOk n unitSize r) :
    checkStringLength n unitSize B r =
      (fail .lengthLimit B r).bind fun _ s => ⟨.ret false, s, []⟩ := by
  by_cases hlim : n > r.options.maxStringLength.toNat
  · simp [checkStringLength, hlim]
  · by_cases hpl : unitSize > 0 ∧ n > r.remaining / unitSize
    · simp [checkStringLength, hlim, hpl]
    · exact absurd ⟨Nat.not_lt.mp hlim, fun h0 => Nat.not_lt.mp fun hc => hpl ⟨h0, hc⟩⟩ h

theorem checkStringLength_returns {ok : Bool}
    (h : checkStringLength n unitSize B r = ⟨.ret ok, r', l⟩) :
    (ok = true ∧ r' = r ∧ StringOk n unitSize r) ∨ (ok = false ∧ r'.error ≠ .none) := by
  by_cases hok : StringOk n unitSize r
  · rw [checkStringLength_ok hok, Res.mk.injEq] at h
    exact .inl ⟨(Out.ret.inj h.1).symm, h.2.1.symm, hok⟩
  · rw [checkStringLength_rejects hok] at h
    exact .inr (fail_bind_ret (by decide) h)

/-- The loop of `ReadUtf16String` over units it has checked to be there. -/
theorem utf16Loop_ok (left : Nat) (out : List UInt8) (r : MemoryPackReader)
    (he : r.error = .none) (hl : 2 * left ≤ r.remaining) : ∃ l,
      utf16Loop left out B r =
        ⟨.ret (out ++ (utf16Codepoints (nextUnits left r.rest)).flatMap utf8Codepoint),
          { r with pos := r.pos + 2 * left }, l⟩ ∧ ∀ e ∈ l, e.Cursor r.size := by
  cases left with
  | zero => exact ⟨[], by simp [utf16Loop, nextUnits, splitWords, utf16Codepoints], by simp⟩
  | succ left =>
      have h2 : 2 ≤ r.remaining := by omega
      have hpos : r.pos + 2 ≤ r.size := pos_le_of_le_remaining h2 (by omega)
      have hread := readRaw_ok (B := B) he h2
      set r₁ : MemoryPackReader := { r with pos := r.pos + 2 } with hr₁
      have hl₁ : 2 * left ≤ r₁.remaining := by rw [hr₁, remaining_add]; omega
      have hunits : nextUnits (left + 1) r.rest =
          UInt16.ofNat (LittleEndian.leNat (r.rest.take 2)) :: nextUnits left r₁.rest := by
        simp [nextUnits, splitWords, hr₁, rest_add]
      have hfirst : ∀ e ∈ [ReadEvent.access r.pos 2, .moved (r.pos + 2)], e.Cursor r.size := by
        simpa [ReadEvent.Cursor] using hpos
      have hend : ({ r with pos := r.pos + 2 * (left + 1) } : MemoryPackReader) =
          { r₁ with pos := r₁.pos + 2 * left } := by
        simp only [hr₁, MemoryPackReader.mk.injEq, true_and, and_true]
        omega
      rw [hunits, hend, utf16Loop]
      simp only [Prog.bind_apply, hread, Res.bind_ret]
      generalize UInt16.ofNat (LittleEndian.leNat (r.rest.take 2)) = hi
      by_cases hhi : isHighSurrogate hi
      · cases left with
        | zero =>
            refine ⟨_, ?_, hfirst⟩
            simp [hhi, nextUnits, splitWords, utf16Codepoints]
        | succ left' =>
            have h2' : 2 ≤ r₁.remaining := by omega
            have hpos' : r₁.pos + 2 ≤ r.size := pos_le_of_le_remaining h2' (by omega)
            have hsecond : ∀ e ∈ [ReadEvent.access r₁.pos 2, .moved (r₁.pos + 2)],
                e.Cursor r.size := by
              simpa [ReadEvent.Cursor] using hpos'
            have hunits' : nextUnits (left' + 1) r₁.rest =
                UInt16.ofNat (LittleEndian.leNat (r₁.rest.take 2)) ::
                  nextUnits left' (r₁.rest.drop 2) := by
              simp [nextUnits, splitWords]
            simp only [hhi, if_true, Prog.bind_apply, readRaw_ok (B := B) (r := r₁) he h2',
              Res.bind_ret]
            by_cases hlo : isLowSurrogate (UInt16.ofNat (LittleEndian.leNat (r₁.rest.take 2)))
            · rw [hunits']
              revert hlo
              generalize UInt16.ofNat (LittleEndian.leNat (r₁.rest.take 2)) = lo
              intro hlo
              obtain ⟨l, hloop, hcur⟩ := utf16Loop_ok left'
                (out ++ utf8Codepoint (pairCodepoint hi lo)) { r₁ with pos := r₁.pos + 2 } he
                (by rw [remaining_add]; omega)
              refine ⟨_ ++ (_ ++ l), ?_, List.forall_mem_append.mpr ⟨hfirst,
                List.forall_mem_append.mpr ⟨hsecond, hcur⟩⟩⟩
              rw [rest_add] at hloop
              simp only [hlo, if_true, hloop, Res.after_mk, utf16Codepoints, hhi,
                List.flatMap_cons, List.append_assoc, Res.mk.injEq, true_and, and_true,
                MemoryPackReader.mk.injEq]
              omega
            · -- the unit after an unpaired high surrogate is put back
              obtain ⟨l, hloop, hcur⟩ := utf16Loop_ok (left' + 1)
                (out ++ utf8Codepoint 0xFFFD) r₁ he hl₁
              refine ⟨_ ++ (_ ++ (ReadEvent.moved r₁.pos :: l)), ?_,
                List.forall_mem_append.mpr ⟨hfirst, List.forall_mem_append.mpr ⟨hsecond,
                  List.forall_mem_cons.mpr ⟨hpos, hcur⟩⟩⟩⟩
              have hback : r₁.pos + 2 - 2 = r₁.pos := by omega
              rw [hunits'] at hloop ⊢
              simp [hlo, utf16Codepoints, hhi, setPos, hback, hloop]
      · obtain ⟨l, hloop, hcur⟩ := utf16Loop_ok left
          (out ++ utf8Codepoint (if isLowSurrogate hi then 0xFFFD else hi.toNat)) r₁ he hl₁
        refine ⟨_ ++ l, ?_, List.forall_mem_append.mpr ⟨hfirst, hcur⟩⟩
        by_cases hlo : isLowSurrogate hi
        · simp only [hlo, if_true] at hloop
          simp [hhi, hlo, hloop, utf16Codepoints_low hhi hlo]
        · simp only [hlo, Bool.false_eq_true, if_false] at hloop
          simp [hhi, hlo, hloop, utf16Codepoints_single hhi hlo]

theorem readUtf16String_ok {units : Nat} (he : r.error = .none) (hok : StringOk units 2 r) :
    ∃ l, readUtf16String units B r =
      ⟨.ret ((utf16Codepoints (nextUnits units r.rest)).flatMap utf8Codepoint),
        { r with pos := r.pos + 2 * units }, l⟩ := by
  have hunits : units ≤ r.remaining / 2 := hok.present (by decide)
  have hmod : units * 2 % B.sizeMod ≤ r.remaining :=
    (Nat.mod_le _ _).trans (by omega)
  obtain ⟨l, hloop, -⟩ := utf16Loop_ok (B := B) units [] r he (by omega)
  exact ⟨_, by
    simp only [readUtf16String, Prog.bind_apply, checkStringLength_ok hok, Res.bind_ret,
      Bool.not_true, Bool.false_eq_true, if_false, sizeProduct_apply, ensureBytes_ok he hmod,
      Prog.tell_apply, Prog.get_apply, hloop, List.nil_append, Res.after_mk]
    rfl⟩

end Reader

end MemoryPack
