import Mathlib.Data.List.Basic
import Mathlib.Tactic.IntervalCases

/-!
# UTF-8 and UTF-16

The pure text functions of `memorypack::detail` and of the `std::u16string`
formatter: counting UTF-16 units of a UTF-8 string, decoding UTF-16 with
replacement of unpaired surrogates, appending a code point as UTF-8, and the
UTF-8 to UTF-16 transcoder. `utf8ToUtf16_encode` is what the string formatters
rest on: the transcoder inverts the encoder on every list of scalar values.
-/

namespace MemoryPack

/-! ## Counting UTF-16 units -/

/-- Two's-complement addition of `int32_t`. -/
def addInt32 (a b : Int) : Int := Int.bmod (a + b) (2 ^ 32)

/-- The fast path of `utf16_length_from_utf8`: eight ASCII bytes at a time, until
a block holds a byte with the high bit set. Returns the bytes left over. -/
def utf16AsciiBlocks (units : Int) : List UInt8 → Int × List UInt8
  | b₀ :: b₁ :: b₂ :: b₃ :: b₄ :: b₅ :: b₆ :: b₇ :: rest =>
      if (b₀ ||| b₁ ||| b₂ ||| b₃ ||| b₄ ||| b₅ ||| b₆ ||| b₇) &&& 0x80 ≠ 0 then
        (units, b₀ :: b₁ :: b₂ :: b₃ :: b₄ :: b₅ :: b₆ :: b₇ :: rest)
      else utf16AsciiBlocks (addInt32 units 8) rest
  | bs => (units, bs)

/-- The per-byte loop: continuation bytes add nothing, a four-byte lead adds two. -/
def utf16CountBytes (units : Int) : List UInt8 → Int
  | [] => units
  | b :: bs =>
      if b &&& 0xC0 = 0x80 then utf16CountBytes units bs
      else utf16CountBytes (addInt32 units (if b ≥ 0xF0 then 2 else 1)) bs

/-- `detail::utf16_length_from_utf8`. -/
def utf16LengthFromUtf8 (bs : List UInt8) : Int :=
  let (units, rest) := utf16AsciiBlocks 0 bs
  utf16CountBytes units rest

/-! ## Code points -/

def isHighSurrogate (u : UInt16) : Bool := u ≥ 0xD800 && u ≤ 0xDBFF
def isLowSurrogate (u : UInt16) : Bool := u ≥ 0xDC00 && u ≤ 0xDFFF

/-- The code point of a surrogate pair. -/
def pairCodepoint (hi lo : UInt16) : Nat :=
  0x10000 + ((hi.toNat - 0xD800) <<< 10 ||| (lo.toNat - 0xDC00))

/-- The code points `ReadUtf16String` produces: an unpaired surrogate becomes
U+FFFD, and the unit after an unpaired high surrogate is decoded on its own. -/
def utf16Codepoints : List UInt16 → List Nat
  | [] => []
  | hi :: rest =>
      if isHighSurrogate hi then
        match rest with
        | [] => [0xFFFD]
        | lo :: rest' =>
            if isLowSurrogate lo then pairCodepoint hi lo :: utf16Codepoints rest'
            else 0xFFFD :: utf16Codepoints (lo :: rest')
      else if isLowSurrogate hi then 0xFFFD :: utf16Codepoints rest
      else hi.toNat :: utf16Codepoints rest

/-- `detail::append_utf8_codepoint`: the bytes it appends. -/
def utf8Codepoint (cp : Nat) : List UInt8 :=
  if cp ≤ 0x7F then [UInt8.ofNat cp]
  else if cp ≤ 0x7FF then
    [UInt8.ofNat (0xC0 ||| cp >>> 6), UInt8.ofNat (0x80 ||| cp &&& 0x3F)]
  else if cp ≤ 0xFFFF then
    [UInt8.ofNat (0xE0 ||| cp >>> 12), UInt8.ofNat (0x80 ||| cp >>> 6 &&& 0x3F),
      UInt8.ofNat (0x80 ||| cp &&& 0x3F)]
  else
    [UInt8.ofNat (0xF0 ||| cp >>> 18), UInt8.ofNat (0x80 ||| cp >>> 12 &&& 0x3F),
      UInt8.ofNat (0x80 ||| cp >>> 6 &&& 0x3F), UInt8.ofNat (0x80 ||| cp &&& 0x3F)]

/-- The units the `std::u16string` formatter pushes for a code point. -/
def utf16Units (cp : Nat) : List UInt16 :=
  if cp ≤ 0xFFFF then [UInt16.ofNat cp]
  else [UInt16.ofNat (0xD800 + (cp - 0x10000) >>> 10),
    UInt16.ofNat (0xDC00 + (cp - 0x10000 &&& 0x3FF))]

/-- `cp = (cp << 6) | (b & 0x3F)`. -/
def addContinuation (cp : Nat) (b : UInt8) : Nat := cp <<< 6 ||| (b &&& 0x3F).toNat

/-- The transcoding loop of the `std::u16string` formatter. The lead byte alone
fixes the length; a sequence cut short by the end of the input is dropped. -/
def utf8ToUtf16 : List UInt8 → List UInt16
  | [] => []
  | b₀ :: rest =>
      if b₀ < 0x80 then utf16Units b₀.toNat ++ utf8ToUtf16 rest
      else if b₀ &&& 0xE0 = 0xC0 then
        match rest with
        | b₁ :: rest' =>
            utf16Units (addContinuation (b₀ &&& 0x1F).toNat b₁) ++ utf8ToUtf16 rest'
        | _ => []
      else if b₀ &&& 0xF0 = 0xE0 then
        match rest with
        | b₁ :: b₂ :: rest' =>
            utf16Units (addContinuation (addContinuation (b₀ &&& 0x0F).toNat b₁) b₂)
              ++ utf8ToUtf16 rest'
        | _ => []
      else
        match rest with
        | b₁ :: b₂ :: b₃ :: rest' =>
            utf16Units (addContinuation (addContinuation
              (addContinuation (b₀ &&& 0x07).toNat b₁) b₂) b₃) ++ utf8ToUtf16 rest'
        | _ => []

/-! ## Well-formed UTF-16 -/

/-- Every surrogate is part of a high-low pair. -/
def wellFormedUtf16 : List UInt16 → Bool
  | [] => true
  | hi :: rest =>
      if isHighSurrogate hi then
        match rest with
        | [] => false
        | lo :: rest' => isLowSurrogate lo && wellFormedUtf16 rest'
      else !isLowSurrogate hi && wellFormedUtf16 rest

/-! ## The transcoder inverts the encoder -/

theorem or_eq_add {a b : Nat} (i : Nat) (h : b < 2 ^ i) : a <<< i ||| b = a * 2 ^ i + b := by
  rw [← Nat.shiftLeft_add_eq_or_of_lt h, Nat.shiftLeft_eq]

/-- A continuation byte carries six bits. -/
theorem addContinuation_ofNat (cp x : Nat) :
    addContinuation cp (UInt8.ofNat (0x80 ||| x &&& 0x3F)) = cp * 64 + x % 64 := by
  have hx : x &&& 0x3F = x % 64 := Nat.and_two_pow_sub_one_eq_mod x 6
  have hlt : x % 64 < 2 ^ 6 := Nat.mod_lt _ (by decide)
  have hor : 0x80 ||| x &&& 0x3F = 128 + x % 64 := by
    rw [hx]
    exact or_eq_add (a := 2) 6 hlt
  have hmask : (UInt8.ofNat (128 + x % 64) &&& 0x3F).toNat = x % 64 := by
    generalize x % 64 = y at hlt
    interval_cases y <;> rfl
  rw [addContinuation, hor, hmask]
  exact or_eq_add 6 hlt

/-- What the lead byte of a two-byte sequence looks like to the transcoder. -/
theorem lead_two {x : Nat} (h : x < 32) :
    ¬ UInt8.ofNat (0xC0 ||| x) < 0x80 ∧ UInt8.ofNat (0xC0 ||| x) &&& 0xE0 = 0xC0 ∧
      (UInt8.ofNat (0xC0 ||| x) &&& 0x1F).toNat = x := by
  interval_cases x <;> decide

theorem lead_three {x : Nat} (h : x < 16) :
    ¬ UInt8.ofNat (0xE0 ||| x) < 0x80 ∧ UInt8.ofNat (0xE0 ||| x) &&& 0xE0 ≠ 0xC0 ∧
      UInt8.ofNat (0xE0 ||| x) &&& 0xF0 = 0xE0 ∧
      (UInt8.ofNat (0xE0 ||| x) &&& 0x0F).toNat = x := by
  interval_cases x <;> decide

theorem lead_four {x : Nat} (h : x < 8) :
    ¬ UInt8.ofNat (0xF0 ||| x) < 0x80 ∧ UInt8.ofNat (0xF0 ||| x) &&& 0xE0 ≠ 0xC0 ∧
      UInt8.ofNat (0xF0 ||| x) &&& 0xF0 ≠ 0xE0 ∧
      (UInt8.ofNat (0xF0 ||| x) &&& 0x07).toNat = x := by
  interval_cases x <;> decide

/-! The four branches of one transcoding round, by the lead byte. -/

theorem utf8ToUtf16_one {b₀ : UInt8} (h : b₀ < 0x80) (rest : List UInt8) :
    utf8ToUtf16 (b₀ :: rest) = utf16Units b₀.toNat ++ utf8ToUtf16 rest := by
  rw [utf8ToUtf16.eq_def]
  simp only [if_pos h]

theorem utf8ToUtf16_two {b₀ b₁ : UInt8} (h : ¬ b₀ < 0x80) (h2 : b₀ &&& 0xE0 = 0xC0)
    (rest : List UInt8) :
    utf8ToUtf16 (b₀ :: b₁ :: rest) =
      utf16Units (addContinuation (b₀ &&& 0x1F).toNat b₁) ++ utf8ToUtf16 rest := by
  rw [utf8ToUtf16.eq_def]
  simp only [if_neg h, if_pos h2]

theorem utf8ToUtf16_three {b₀ b₁ b₂ : UInt8} (h : ¬ b₀ < 0x80) (h2 : b₀ &&& 0xE0 ≠ 0xC0)
    (h3 : b₀ &&& 0xF0 = 0xE0) (rest : List UInt8) :
    utf8ToUtf16 (b₀ :: b₁ :: b₂ :: rest) =
      utf16Units (addContinuation (addContinuation (b₀ &&& 0x0F).toNat b₁) b₂)
        ++ utf8ToUtf16 rest := by
  rw [utf8ToUtf16.eq_def]
  simp only [if_neg h, if_neg h2, if_pos h3]

theorem utf8ToUtf16_four {b₀ b₁ b₂ b₃ : UInt8} (h : ¬ b₀ < 0x80)
    (h2 : b₀ &&& 0xE0 ≠ 0xC0) (h3 : b₀ &&& 0xF0 ≠ 0xE0) (rest : List UInt8) :
    utf8ToUtf16 (b₀ :: b₁ :: b₂ :: b₃ :: rest) =
      utf16Units (addContinuation (addContinuation
        (addContinuation (b₀ &&& 0x07).toNat b₁) b₂) b₃) ++ utf8ToUtf16 rest := by
  rw [utf8ToUtf16.eq_def]
  simp only [if_neg h, if_neg h2, if_neg h3]

/-- One round of the transcoder undoes one `append_utf8_codepoint`. -/
theorem utf8ToUtf16_codepoint {cp : Nat} (h : cp < 0x200000) (rest : List UInt8) :
    utf8ToUtf16 (utf8Codepoint cp ++ rest) = utf16Units cp ++ utf8ToUtf16 rest := by
  unfold utf8Codepoint
  split
  next h1 =>
    have hb : (UInt8.ofNat cp).toNat = cp := by
      rw [UInt8.toNat_ofNat']; omega
    have hlt : UInt8.ofNat cp < 0x80 := by
      rw [UInt8.lt_iff_toNat_lt, hb]; exact Nat.lt_succ_of_le h1
    rw [List.singleton_append, utf8ToUtf16_one hlt, hb]
  next h1 =>
    split
    next h2 =>
      have hx : cp >>> 6 = cp / 64 := Nat.shiftRight_eq_div_pow cp 6
      obtain ⟨ha, hb, hc⟩ := lead_two (x := cp >>> 6) (by omega)
      have hcp : cp / 64 * 64 + cp % 64 = cp := by omega
      simp only [List.cons_append, List.nil_append]
      rw [utf8ToUtf16_two ha hb, hc, addContinuation_ofNat, hx, hcp]
    next h2 =>
      have hx6 : cp >>> 6 = cp / 64 := Nat.shiftRight_eq_div_pow cp 6
      have hx12 : cp >>> 12 = cp / 4096 := Nat.shiftRight_eq_div_pow cp 12
      split
      next h3 =>
        obtain ⟨ha, hb, hc, hd⟩ := lead_three (x := cp >>> 12) (by omega)
        have hcp : (cp / 4096 * 64 + cp / 64 % 64) * 64 + cp % 64 = cp := by omega
        simp only [List.cons_append, List.nil_append]
        rw [utf8ToUtf16_three ha hb hc, hd, addContinuation_ofNat, addContinuation_ofNat,
          hx6, hx12, hcp]
      next h3 =>
        have hx18 : cp >>> 18 = cp / 262144 := Nat.shiftRight_eq_div_pow cp 18
        obtain ⟨ha, hb, hc, hd⟩ := lead_four (x := cp >>> 18) (by omega)
        have hcp : ((cp / 262144 * 64 + cp / 4096 % 64) * 64 + cp / 64 % 64) * 64
            + cp % 64 = cp := by omega
        simp only [List.cons_append, List.nil_append]
        rw [utf8ToUtf16_four ha hb hc, hd, addContinuation_ofNat, addContinuation_ofNat,
          addContinuation_ofNat, hx6, hx12, hx18, hcp]

/-- The transcoder inverts the encoder on any list of code points. -/
theorem utf8ToUtf16_encode : ∀ cps : List Nat, (∀ cp ∈ cps, cp < 0x200000) →
    utf8ToUtf16 (cps.flatMap utf8Codepoint) = cps.flatMap utf16Units
  | [], _ => rfl
  | cp :: cps, h => by
      rw [List.flatMap_cons, List.flatMap_cons,
        utf8ToUtf16_codepoint (h cp List.mem_cons_self),
        utf8ToUtf16_encode cps fun c hc => h c (List.mem_cons_of_mem _ hc)]

/-! ## Surrogate pairs -/

theorem isHighSurrogate_iff (u : UInt16) :
    isHighSurrogate u = true ↔ 0xD800 ≤ u.toNat ∧ u.toNat ≤ 0xDBFF := by
  simp [isHighSurrogate, UInt16.le_iff_toNat_le]

theorem isLowSurrogate_iff (u : UInt16) :
    isLowSurrogate u = true ↔ 0xDC00 ≤ u.toNat ∧ u.toNat ≤ 0xDFFF := by
  simp [isLowSurrogate, UInt16.le_iff_toNat_le]

/-- The code point of a pair, arithmetically. -/
theorem pairCodepoint_eq (hi : UInt16) {lo : UInt16} (hlo : isLowSurrogate lo = true) :
    pairCodepoint hi lo = 0x10000 + ((hi.toNat - 0xD800) * 1024 + (lo.toNat - 0xDC00)) := by
  have hl := (isLowSurrogate_iff lo).mp hlo
  have hlt : lo.toNat - 0xDC00 < 2 ^ 10 := by omega
  rw [pairCodepoint, or_eq_add 10 hlt]
  rfl

theorem utf16Codepoints_low {u : UInt16} (hh : ¬ isHighSurrogate u = true)
    (hl : isLowSurrogate u = true) (rest : List UInt16) :
    utf16Codepoints (u :: rest) = 0xFFFD :: utf16Codepoints rest := by
  rw [utf16Codepoints.eq_def]
  simp only [if_neg hh, if_pos hl]

theorem utf16Codepoints_single {u : UInt16} (hh : ¬ isHighSurrogate u = true)
    (hl : ¬ isLowSurrogate u = true) (rest : List UInt16) :
    utf16Codepoints (u :: rest) = u.toNat :: utf16Codepoints rest := by
  rw [utf16Codepoints.eq_def]
  simp only [if_neg hh, if_neg hl]

theorem wellFormedUtf16_single {u : UInt16} (hh : ¬ isHighSurrogate u = true)
    (rest : List UInt16) :
    wellFormedUtf16 (u :: rest) = (!isLowSurrogate u && wellFormedUtf16 rest) := by
  rw [wellFormedUtf16.eq_def]
  simp only [if_neg hh]

theorem utf16Codepoints_lt (us : List UInt16) : ∀ cp ∈ utf16Codepoints us, cp < 0x110000 := by
  induction us using utf16Codepoints.induct with
  | case1 => simp [utf16Codepoints]
  | case2 hi hh => simp [utf16Codepoints, hh]
  | case3 hi hh lo rest' hl ih =>
      have h1 := (isHighSurrogate_iff hi).mp hh
      have h2 := (isLowSurrogate_iff lo).mp hl
      simp only [utf16Codepoints, hh, hl, if_true, List.mem_cons, forall_eq_or_imp]
      refine ⟨?_, ih⟩
      rw [pairCodepoint_eq _ hl]
      omega
  | case4 hi hh lo rest' hl ih =>
      rw [utf16Codepoints]
      simpa [hh, hl] using ih
  | case5 hi rest hh hl ih =>
      rw [utf16Codepoints_low hh hl]
      simpa using ih
  | case6 hi rest hh hl ih =>
      have hlt := hi.toNat_lt
      rw [utf16Codepoints_single hh hl]
      simp only [List.mem_cons, forall_eq_or_imp]
      exact ⟨by omega, ih⟩

/-- Splitting a surrogate pair's code point gives the pair back. -/
theorem utf16Units_pair {hi lo : UInt16} (hh : isHighSurrogate hi = true)
    (hl : isLowSurrogate lo = true) : utf16Units (pairCodepoint hi lo) = [hi, lo] := by
  have h1 := (isHighSurrogate_iff hi).mp hh
  have h2 := (isLowSurrogate_iff lo).mp hl
  have hcp := pairCodepoint_eq hi hl
  have hsub : pairCodepoint hi lo - 0x10000 =
      (hi.toNat - 0xD800) * 1024 + (lo.toNat - 0xDC00) := by omega
  have hmask : pairCodepoint hi lo - 0x10000 &&& 0x3FF = lo.toNat - 0xDC00 := by
    rw [show (0x3FF : Nat) = 2 ^ 10 - 1 from rfl, Nat.and_two_pow_sub_one_eq_mod, hsub]
    omega
  have hshift : (pairCodepoint hi lo - 0x10000) >>> 10 = hi.toNat - 0xD800 := by
    rw [Nat.shiftRight_eq_div_pow, hsub]
    omega
  rw [utf16Units, if_neg (by omega), hmask, hshift,
    show 0xD800 + (hi.toNat - 0xD800) = hi.toNat from by omega,
    show 0xDC00 + (lo.toNat - 0xDC00) = lo.toNat from by omega,
    UInt16.ofNat_toNat, UInt16.ofNat_toNat]

theorem utf16Units_single (u : UInt16) : utf16Units u.toNat = [u] := by
  have h := u.toNat_lt
  rw [utf16Units, if_pos (by omega), UInt16.ofNat_toNat]

/-- On well-formed UTF-16 the decoder loses nothing. -/
theorem utf16Codepoints_units (us : List UInt16) (h : wellFormedUtf16 us = true) :
    (utf16Codepoints us).flatMap utf16Units = us := by
  induction us using utf16Codepoints.induct with
  | case1 => rfl
  | case2 hi hh => simp [wellFormedUtf16, hh] at h
  | case3 hi hh lo rest' hl ih =>
      simp only [wellFormedUtf16, hh, hl, if_true, Bool.true_and] at h
      simp only [utf16Codepoints, hh, hl, if_true, List.flatMap_cons, utf16Units_pair hh hl,
        ih h, List.cons_append, List.nil_append]
  | case4 hi hh lo rest' hl ih => simp [wellFormedUtf16, hh, hl] at h
  | case5 hi rest hh hl ih => simp [wellFormedUtf16_single hh, hl] at h
  | case6 hi rest hh hl ih =>
      have hwf : wellFormedUtf16 rest = true := by
        simpa [wellFormedUtf16_single hh, hl] using h
      rw [utf16Codepoints_single hh hl, List.flatMap_cons, utf16Units_single, ih hwf,
        List.singleton_append]

/-- The whole `std::u16string` path: UTF-16 to UTF-8 and back is the identity on
well-formed text. -/
theorem utf8ToUtf16_utf16 {us : List UInt16} (h : wellFormedUtf16 us = true) :
    utf8ToUtf16 ((utf16Codepoints us).flatMap utf8Codepoint) = us := by
  rw [utf8ToUtf16_encode _ fun cp hcp => by
    have := utf16Codepoints_lt us cp hcp
    omega]
  exact utf16Codepoints_units us h

end MemoryPack
