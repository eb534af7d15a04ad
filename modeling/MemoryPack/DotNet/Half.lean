import MemoryPack.Core.DotNet
import MemoryPack.Lib.Rounding
import Mathlib.Data.Nat.Bitwise

/-!
# `Half::FromFloat` as a rounding

A finite `float` and a finite `Half` are exact rationals. Both are a sign and a magnitude
counted in units of the least positive number of their format (`Rounding.magnitude`), so
the conversion is a walk from one grid to a coarser one: the four branches of `FromFloat`
all truncate and then round half up (`roundedPattern_eq`). That is the nearest value with
ties to even, except at the ties above an even significand.
-/

namespace MemoryPack.Half

open Rounding

/-! ## The branches as arithmetic -/

/-- The pattern without its sign that `FromFloat` makes of a finite `float` with biased
exponent `e` and fraction `m`. -/
def roundedPattern (e m : Nat) : Nat :=
  if 143 ≤ e then 0x7C00
  else if e < 102 then 0
  else if e ≤ 112 then (2 ^ 23 + m) / 2 ^ (126 - e) + (2 ^ 23 + m) / 2 ^ (125 - e) % 2
  else (e - 112) * 2 ^ 10 + m / 2 ^ 13 + m / 2 ^ 12 % 2

section Bits

variable (x : UInt32)

theorem toNat_sign : ((x >>> 16) &&& 0x8000).toNat = x.toNat / 2 ^ 31 * 2 ^ 15 := by
  have hbit : (x.toNat >>> 16) &&& 2 ^ 15 = ((x.toNat >>> 16).testBit 15).toNat * 2 ^ 15 :=
    Nat.and_two_pow _ _
  have hlt := x.toNat_lt
  have hhigh : x.toNat >>> 16 >>> 15 = x.toNat / 2 ^ 31 := by
    rw [← Nat.shiftRight_add, Nat.shiftRight_eq_div_pow]
  have hval : ((x.toNat >>> 16).testBit 15).toNat = x.toNat / 2 ^ 31 := by
    rw [Nat.testBit, hhigh, Nat.one_and_eq_mod_two]
    have hcases : x.toNat / 2 ^ 31 = 0 ∨ x.toNat / 2 ^ 31 = 1 := by omega
    rcases hcases with h | h <;> rw [h] <;> rfl
  rw [UInt32.toNat_and, UInt32.toNat_shiftRight]
  show (x.toNat >>> 16) &&& 2 ^ 15 = _
  rw [hbit, hval]

theorem toNat_exponent : ((x >>> 23) &&& 0xFF).toNat = x.toNat / 2 ^ 23 % 256 := by
  rw [UInt32.toNat_and, UInt32.toNat_shiftRight]
  show (x.toNat >>> 23) &&& (2 ^ 8 - 1) = _
  rw [Nat.and_two_pow_sub_one_eq_mod, Nat.shiftRight_eq_div_pow]

theorem toNat_fraction : (x &&& 0x007FFFFF).toNat = x.toNat % 2 ^ 23 := by
  rw [UInt32.toNat_and]
  show x.toNat &&& (2 ^ 23 - 1) = _
  rw [Nat.and_two_pow_sub_one_eq_mod]

/-- A bit of a number, tested with `& 1`. -/
theorem bit_ne_zero {y : UInt32} {n : Nat} (h : y.toNat = n) :
    (y &&& 1 ≠ 0) ↔ n % 2 = 1 := by
  rw [Ne, ← UInt32.toNat_inj, UInt32.toNat_and, h]
  show ¬ n &&& (2 ^ 1 - 1) = 0 ↔ _
  rw [Nat.and_two_pow_sub_one_eq_mod]
  omega

/-- Joining the sign with a pattern. -/
theorem toNat_join {s : Nat} {sign half : UInt32} (hs : sign.toNat = s * 2 ^ 15) (hs2 : s ≤ 1)
    (hhalf : half.toNat < 2 ^ 15) : (sign ||| half).toUInt16.toNat = s * 2 ^ 15 + half.toNat := by
  rw [UInt32.toNat_toUInt16, UInt32.toNat_or, hs, ← Nat.shiftLeft_eq,
    ← Nat.shiftLeft_add_eq_or_of_lt hhalf, Nat.shiftLeft_eq]
  omega

/-- The round bit decides whether the last place goes up. -/
theorem toNat_roundUp {y b : UInt32} {q t : Nat} (hy : y.toNat = q) (hq : q < 2 ^ 31)
    (hb : b.toNat = t) : (if b &&& 1 ≠ 0 then y + 1 else y).toNat = q + t % 2 := by
  rw [apply_ite UInt32.toNat, UInt32.toNat_add, hy, UInt32.toNat_one]
  by_cases hbit : t % 2 = 1
  · rw [if_pos ((bit_ne_zero hb).mpr hbit)]
    omega
  · rw [if_neg (mt (bit_ne_zero hb).mp hbit)]
    omega

/-- The leading bit put back in front of the fraction. -/
theorem toNat_significand {mant : UInt32} {m : Nat} (hmant : mant.toNat = m) (hm : m < 2 ^ 23) :
    (mant ||| 0x00800000).toNat = 2 ^ 23 + m := by
  rw [UInt32.toNat_or, hmant, Nat.or_comm]
  exact (Nat.two_pow_add_eq_or_of_lt hm 1).symm

theorem toNat_shift {y c : UInt32} {n s : Nat} (hy : y.toNat = n) (hc : c.toNat = s)
    (hs : s < 32) : (y >>> c).toNat = n / 2 ^ s := by
  rw [UInt32.toNat_shiftRight, hc, Nat.mod_eq_of_lt hs, hy, Nat.shiftRight_eq_div_pow]

theorem toNat_ofNat {s : Nat} (hs : s < 32) : (UInt32.ofNat s).toNat = s :=
  UInt32.toNat_ofNat_of_lt' (Nat.lt_trans hs (by decide))

/-- The exponent in front of the ten fraction bits. -/
theorem toNat_normal {f : UInt32} {e q : Nat} (he : e < 32) (hf : f.toNat = q) (hq : q < 2 ^ 10) :
    ((UInt32.ofNat e <<< 10) ||| f).toNat = e * 2 ^ 10 + q := by
  have hshift : (UInt32.ofNat e <<< 10).toNat = e <<< 10 := by
    rw [UInt32.toNat_shiftLeft, toNat_ofNat he]
    show e <<< 10 % 2 ^ 32 = _
    rw [Nat.shiftLeft_eq]
    omega
  rw [UInt32.toNat_or, hshift, hf, ← Nat.shiftLeft_add_eq_or_of_lt hq, Nat.shiftLeft_eq]

end Bits

theorem roundedPattern_lt {e m : Nat} (hm : m < 2 ^ 23) : roundedPattern e m < 2 ^ 15 := by
  unfold roundedPattern
  split
  · decide
  · split
    · decide
    · split
      case isTrue h =>
        have hdiv : (2 ^ 23 + m) / 2 ^ (126 - e) ≤ 2 ^ 23 + m := Nat.div_le_self _ _
        have hshift : 2 ^ 14 ≤ 2 ^ (126 - e) := Nat.pow_le_pow_right (by decide) (by omega)
        have hle : (2 ^ 23 + m) / 2 ^ (126 - e) ≤ (2 ^ 23 + m) / 2 ^ 14 :=
          Nat.div_le_div_left hshift (by decide)
        omega
      case isFalse => omega

/-- The branches for a finite `float`: the sign is kept, the rest is `roundedPattern`. -/
theorem toNat_fromFloat {x : UInt32} (hfin : x.toNat / 2 ^ 23 % 256 ≠ 255) :
    (fromFloat x).toNat =
      x.toNat / 2 ^ 31 * 2 ^ 15 + roundedPattern (x.toNat / 2 ^ 23 % 256) (x.toNat % 2 ^ 23) := by
  have hs2 : x.toNat / 2 ^ 31 ≤ 1 := by have := x.toNat_lt; omega
  have hsign := toNat_sign x
  have hexp := toNat_exponent x
  have hfrac := toNat_fraction x
  have hm : x.toNat % 2 ^ 23 < 2 ^ 23 := Nat.mod_lt _ (by decide)
  have hpat := roundedPattern_lt (e := x.toNat / 2 ^ 23 % 256) hm
  have hnot : ¬ (x >>> 23) &&& 0xFF = 0xFF := by
    rw [← UInt32.toNat_inj, hexp]
    exact hfin
  unfold fromFloat
  simp only [if_neg hnot, hexp]
  generalize x.toNat / 2 ^ 23 % 256 = e at *
  generalize x.toNat % 2 ^ 23 = m at *
  unfold roundedPattern at hpat ⊢
  by_cases h1 : 143 ≤ e
  · rw [if_pos (show ((e : Int) - 127 + 15 ≥ 0x1F) by omega), if_pos h1]
    exact toNat_join hsign hs2 (by decide)
  · rw [if_neg (show ¬ ((e : Int) - 127 + 15 ≥ 0x1F) by omega)]
    rw [if_neg h1] at hpat ⊢
    by_cases h2 : e ≤ 112
    · rw [if_pos (show ((e : Int) - 127 + 15 ≤ 0) by omega)]
      by_cases h3 : e < 102
      · rw [if_pos (show ((e : Int) - 127 + 15 < -10) by omega), if_pos h3]
        simpa using toNat_join hsign hs2 (show (0 : UInt32).toNat < 2 ^ 15 by decide)
      · rw [if_neg (show ¬ ((e : Int) - 127 + 15 < -10) by omega)]
        rw [if_neg h3, if_pos h2] at hpat ⊢
        have hshift : (14 - ((e : Int) - 127 + 15)).toNat = 126 - e := by omega
        have hprev : UInt32.ofNat (126 - e) - 1 = UInt32.ofNat (125 - e) := by
          rw [show 126 - e = 125 - e + 1 by omega, UInt32.ofNat_add]
          exact UInt32.add_sub_cancel _ _
        have hsub := toNat_roundUp
          (toNat_shift (toNat_significand hfrac hm) (toNat_ofNat (s := 126 - e) (by omega)) (by omega))
          (Nat.lt_of_le_of_lt (Nat.div_le_self _ _) (by omega))
          (toNat_shift (toNat_significand hfrac hm) (toNat_ofNat (s := 125 - e) (by omega)) (by omega))
        rw [hshift, hprev]
        rw [← hsub] at hpat ⊢
        exact toNat_join hsign hs2 hpat
    · rw [if_neg (show ¬ ((e : Int) - 127 + 15 ≤ 0) by omega)]
      rw [if_neg (show ¬ e < 102 by omega), if_neg h2] at hpat ⊢
      have hexp' : ((e : Int) - 127 + 15).toNat = e - 112 := by omega
      have hjoined := toNat_normal (e := e - 112) (by omega)
        (toNat_shift (c := 13) (s := 13) hfrac rfl (by decide)) (by omega)
      have hhalf := toNat_roundUp hjoined (Nat.lt_of_le_of_lt (Nat.le_add_right _ _)
        (Nat.lt_trans hpat (by decide)))
        (toNat_shift (c := 12) (s := 12) hfrac rfl (by decide))
      rw [hexp']
      rw [← hhalf] at hpat ⊢
      exact toNat_join hsign hs2 hpat

/-! ## The values -/

/-- The sign that a sign bit stands for. -/
def signum (s : Nat) : ℚ := if s = 0 then 1 else -1

/-- The rational that a finite `float` denotes. -/
def floatValue (x : UInt32) : ℚ :=
  signum (x.toNat / 2 ^ 31) * (magnitude 23 (x.toNat % 2 ^ 31) / 2 ^ 149)

def halfMagnitude (k : Nat) : ℚ := magnitude 10 k / 2 ^ 24

/-- The rational that a finite `Half` denotes. -/
def value (h : UInt16) : ℚ := signum (h.toNat / 2 ^ 15) * halfMagnitude (h.toNat % 2 ^ 15)

def Finite (h : UInt16) : Prop := h.toNat % 2 ^ 15 < 0x7C00

/-- `h` is a finite `Half` nearest to `a`, and its significand is even if another value is
as near. -/
structure Nearest (a : ℚ) (h : UInt16) : Prop where
  finite : Finite h
  nearest : ∀ h', Finite h' → |a - value h| ≤ |a - value h'|
  even : ∀ h', Finite h' → value h' ≠ value h → |a - value h| = |a - value h'| → Even h.toNat

/-- Round to nearest, ties to even, with the ranges that go to infinity and to zero. -/
structure RoundsToEven (x : UInt32) (h : UInt16) : Prop where
  sign : h.toNat / 2 ^ 15 = x.toNat / 2 ^ 31
  infinite : 65520 ≤ |floatValue x| → h.toNat % 2 ^ 15 = 0x7C00
  zero : |floatValue x| ≤ 1 / 2 ^ 25 → h.toNat % 2 ^ 15 = 0
  nearest : |floatValue x| < 65520 → Nearest (floatValue x) h

theorem strictMono_halfMagnitude : StrictMono halfMagnitude := by
  intro i j hij
  have hlt : (magnitude 10 i : ℚ) < magnitude 10 j := by
    exact_mod_cast strictMono_magnitude 10 hij
  unfold halfMagnitude
  gcongr

theorem halfMagnitude_zero : halfMagnitude 0 = 0 := by
  rw [halfMagnitude, magnitude_subnormal (by decide)]
  norm_num

theorem halfMagnitude_nonneg (k : Nat) : 0 ≤ halfMagnitude k := by
  unfold halfMagnitude
  positivity

theorem abs_signum (s : Nat) : |signum s| = 1 := by
  unfold signum
  split <;> norm_num

theorem abs_floatValue (x : UInt32) :
    |floatValue x| = magnitude 23 (x.toNat % 2 ^ 31) / 2 ^ 149 := by
  rw [floatValue, abs_mul, abs_signum, one_mul, abs_of_nonneg (by positivity)]

theorem floatValue_eq (x : UInt32) :
    floatValue x = signum (x.toNat / 2 ^ 31) * |floatValue x| := by
  rw [abs_floatValue, floatValue]

theorem dist_same_sign (s : Nat) (a b : ℚ) : |signum s * a - signum s * b| = |a - b| := by
  rw [← mul_sub, abs_mul, abs_signum, one_mul]

/-- Across zero the distances add up. -/
theorem dist_other_sign {s t : Nat} (hs : s ≤ 1) (ht : t ≤ 1) (hne : s ≠ t) {a b : ℚ}
    (ha : 0 ≤ a) (hb : 0 ≤ b) : |signum s * a - signum t * b| = a + b := by
  have hneg : signum t = -signum s := by
    unfold signum
    split <;> split <;> first | omega | norm_num
  rw [hneg, neg_mul, sub_neg_eq_add, ← mul_add, abs_mul, abs_signum, one_mul,
    abs_of_nonneg (add_nonneg ha hb)]

theorem even_pattern (h : UInt16) : Even h.toNat ↔ Even (h.toNat % 2 ^ 15) := by
  rw [Nat.even_iff, Nat.even_iff]
  omega

/-- Every pattern with every sign is that of some `Half`. -/
theorem exists_half {s k : Nat} (hs : s ≤ 1) (hk : k < 2 ^ 15) :
    ∃ h : UInt16, h.toNat / 2 ^ 15 = s ∧ h.toNat % 2 ^ 15 = k := by
  refine ⟨UInt16.ofNat (s * 2 ^ 15 + k), ?_⟩
  rw [UInt16.toNat_ofNat_of_lt' (by show _ < 2 ^ 16; omega)]
  omega

/-- Once the sign is right, the nearest value is a matter of magnitudes. -/
theorem nearest_iff {x : UInt32} {h : UInt16} (hsign : h.toNat / 2 ^ 15 = x.toNat / 2 ^ 31) :
    Nearest (floatValue x) h ↔
      NearestEven halfMagnitude 0x7C00 |floatValue x| (h.toNat % 2 ^ 15) := by
  have hs : x.toNat / 2 ^ 31 ≤ 1 := by have := x.toNat_lt; omega
  have hsame : ∀ h' : UInt16, h'.toNat / 2 ^ 15 = x.toNat / 2 ^ 31 →
      |floatValue x - value h'| = |(|floatValue x|) - halfMagnitude (h'.toNat % 2 ^ 15)| := by
    intro h' heq
    rw [value, heq, floatValue_eq x, dist_same_sign, ← floatValue_eq]
  have hdist := hsame h hsign
  constructor
  · rintro ⟨hfin, hnear, heven⟩
    refine ⟨hfin, fun i hi => ?_, fun i hi hne htie => ?_⟩
    · obtain ⟨h', hs', rfl⟩ := exists_half hs (Nat.lt_trans hi (by decide))
      rw [← hdist, ← hsame h' hs']
      exact hnear h' hi
    · obtain ⟨h', hs', rfl⟩ := exists_half hs (Nat.lt_trans hi (by decide))
      rw [← even_pattern]
      apply heven h' hi _ (by rw [hdist, hsame h' hs']; exact htie)
      rw [value, value, hsign, hs']
      intro heq
      have hmag := congrArg abs heq
      rw [abs_mul, abs_mul, abs_signum, one_mul, one_mul, abs_of_nonneg (halfMagnitude_nonneg _),
        abs_of_nonneg (halfMagnitude_nonneg _)] at hmag
      exact hne (strictMono_halfMagnitude.injective hmag)
  · rintro ⟨hfin, hnear, heven⟩
    have hzero := hnear 0 (by decide)
    rw [halfMagnitude_zero, sub_zero, abs_abs] at hzero
    -- a value of the other sign is no nearer than zero is
    have hacross : ∀ h' : UInt16, h'.toNat / 2 ^ 15 ≠ x.toNat / 2 ^ 31 →
        |floatValue x - value h'| = |floatValue x| + halfMagnitude (h'.toNat % 2 ^ 15) := by
      intro h' hne
      have hs' : h'.toNat / 2 ^ 15 ≤ 1 := by have := h'.toNat_lt; omega
      rw [value, floatValue_eq x, dist_other_sign hs hs' (Ne.symm hne) (abs_nonneg _)
        (halfMagnitude_nonneg _), ← floatValue_eq]
    refine ⟨hfin, fun h' hfin' => ?_, fun h' hfin' hne heq => ?_⟩
    · by_cases hs' : h'.toNat / 2 ^ 15 = x.toNat / 2 ^ 31
      · rw [hdist, hsame h' hs']
        exact hnear _ hfin'
      · rw [hdist, hacross h' hs']
        have := halfMagnitude_nonneg (h'.toNat % 2 ^ 15)
        linarith
    · rw [even_pattern]
      by_cases hs' : h'.toNat / 2 ^ 15 = x.toNat / 2 ^ 31
      · apply heven _ hfin'
        · intro hk
          exact hne (by rw [value, value, hs', hsign, hk])
        · rw [← hdist, ← hsame h' hs', heq]
      · -- then both distances are that of zero
        rw [hdist, hacross h' hs'] at heq
        have hpos := halfMagnitude_nonneg (h'.toNat % 2 ^ 15)
        have hk' : halfMagnitude (h'.toNat % 2 ^ 15) = 0 := by linarith
        by_cases hk : h.toNat % 2 ^ 15 = 0
        · rw [hk]
          exact Even.zero
        · apply heven 0 (by decide) (Ne.symm hk)
          rw [halfMagnitude_zero, sub_zero, abs_abs]
          linarith

/-! ## Truncation and the round bit -/

/-- In units of the least `float`. -/
def halfUnits (k : Nat) : Nat := magnitude 10 k * 2 ^ 125

/-- The significand shifted by `s + 1` is a pattern next to the number, and the round bit
tells the halves of the gap apart. -/
theorem truncated_of_shift {n s w k : Nat} (hlo : halfUnits k = n / 2 ^ (s + 1) * 2 ^ (s + 1) * 2 ^ w)
    (hhi : halfUnits (k + 1) = (n / 2 ^ (s + 1) + 1) * 2 ^ (s + 1) * 2 ^ w) :
    halfUnits k ≤ n * 2 ^ w ∧ n * 2 ^ w < halfUnits (k + 1) ∧
      k + n / 2 ^ s % 2 =
        if halfUnits k + halfUnits (k + 1) ≤ 2 * (n * 2 ^ w) then k + 1 else k := by
  obtain ⟨hle, hlt, hbit⟩ := shift_out n s
  have hpos : 0 < 2 ^ w := Nat.two_pow_pos w
  have hmid : halfUnits k + halfUnits (k + 1) ≤ 2 * (n * 2 ^ w) ↔ n / 2 ^ s % 2 = 1 := by
    rw [hlo, hhi, ← Nat.add_mul, ← Nat.mul_assoc, Nat.mul_le_mul_right_iff hpos, hbit]
  refine ⟨?_, ?_, ?_⟩
  · rw [hlo]
    exact Nat.mul_le_mul_right _ hle
  · rw [hhi]
    exact Nat.mul_lt_mul_of_pos_right hlt hpos
  · by_cases h : n / 2 ^ s % 2 = 1
    · rw [if_pos (hmid.mpr h), h]
    · rw [if_neg (mt hmid.mp h)]
      omega

theorem halfUnits_subnormal {k : Nat} (h : k ≤ 2 ^ 10) : halfUnits k = k * 2 ^ 125 := by
  rcases Nat.lt_or_eq_of_le h with h | rfl
  · rw [halfUnits, magnitude_subnormal h]
  · rfl

theorem halfUnits_normal {m : Nat} (hm : m < 2 ^ 10) (e : Nat) :
    halfUnits ((e + 1) * 2 ^ 10 + m) = (2 ^ 10 + m) * 2 ^ (e + 125) := by
  rw [halfUnits, magnitude_normal hm, Nat.mul_assoc, pow_add]

theorem halfUnits_succ (k : Nat) :
    halfUnits (k + 1) = halfUnits k + 2 ^ (k / 2 ^ 10 - 1 + 125) := by
  rw [halfUnits, halfUnits, magnitude_succ, Nat.add_mul, ← pow_add]

/-- Below the overflow branch, `FromFloat` rounds half up between two neighbours. -/
theorem roundedPattern_halfUp {e m : Nat} (he : e < 143) (hm : m < 2 ^ 23) :
    ∃ k < 0x7C00, halfUnits k ≤ magnitude 23 (e * 2 ^ 23 + m) ∧
      magnitude 23 (e * 2 ^ 23 + m) < halfUnits (k + 1) ∧
      roundedPattern e m =
        if halfUnits k + halfUnits (k + 1) ≤ 2 * magnitude 23 (e * 2 ^ 23 + m) then k + 1
        else k := by
  have hover : ¬ 143 ≤ e := by omega
  rcases Nat.lt_or_ge e 102 with h1 | h1
  · -- less than half of the least `Half`
    have hsmall : magnitude 23 (e * 2 ^ 23 + m) < magnitude 23 ((101 + 1) * 2 ^ 23 + 0) :=
      strictMono_magnitude 23 (by omega)
    rw [magnitude_normal (by decide)] at hsmall
    have hzero : halfUnits 0 = 0 := rfl
    have hone : halfUnits 1 = 2 ^ 125 := by rw [halfUnits_subnormal (by decide), Nat.one_mul]
    refine ⟨0, by decide, ?_, ?_, ?_⟩
    · rw [hzero]
      exact Nat.zero_le _
    · rw [hone]
      omega
    · rw [roundedPattern, if_neg hover, if_pos h1, if_neg]
      rw [hzero, hone]
      omega
  · have hX : magnitude 23 (e * 2 ^ 23 + m) = (2 ^ 23 + m) * 2 ^ (e - 1) := by
      rw [← magnitude_normal hm, Nat.sub_add_cancel (by omega)]
    rw [hX, roundedPattern, if_neg hover, if_neg (by omega)]
    rcases Nat.lt_or_ge 112 e with h2 | h2
    · -- normal: the fraction loses thirteen bits
      have hexp : e - 112 = e - 113 + 1 := by omega
      have hfrac : m / 2 ^ 13 < 2 ^ 10 := by omega
      have hquot : (2 ^ 23 + m) / 2 ^ (12 + 1) = 2 ^ 10 + m / 2 ^ 13 := by omega
      have hbit : (2 ^ 23 + m) / 2 ^ 12 % 2 = m / 2 ^ 12 % 2 := by omega
      have hscale : 2 ^ (e - 113 + 125) = 2 ^ (12 + 1) * 2 ^ (e - 1) := by
        rw [← pow_add]
        congr 1
        omega
      have hlo : halfUnits ((e - 113 + 1) * 2 ^ 10 + m / 2 ^ 13) =
          (2 ^ 23 + m) / 2 ^ (12 + 1) * 2 ^ (12 + 1) * 2 ^ (e - 1) := by
        rw [halfUnits_normal hfrac, hscale, hquot, Nat.mul_assoc]
      have hdiv : ((e - 113 + 1) * 2 ^ 10 + m / 2 ^ 13) / 2 ^ 10 - 1 = e - 113 := by omega
      have hhi : halfUnits ((e - 113 + 1) * 2 ^ 10 + m / 2 ^ 13 + 1) =
          ((2 ^ 23 + m) / 2 ^ (12 + 1) + 1) * 2 ^ (12 + 1) * 2 ^ (e - 1) := by
        rw [halfUnits_succ, hlo, hdiv, hscale, Nat.mul_assoc, Nat.mul_assoc, Nat.add_mul,
          Nat.one_mul]
      rw [if_neg (by omega), hexp, ← hbit]
      exact ⟨_, by omega, truncated_of_shift hlo hhi⟩
    · -- subnormal: the significand is shifted until its unit is that of the least `Half`
      have hshift : 126 - e = 125 - e + 1 := by omega
      have hle : 2 ^ 14 ≤ 2 ^ (125 - e + 1) := Nat.pow_le_pow_right (by decide) (by omega)
      have hquot : (2 ^ 23 + m) / 2 ^ (125 - e + 1) ≤ (2 ^ 23 + m) / 2 ^ 14 :=
        Nat.div_le_div_left hle (by decide)
      have hscale : 2 ^ 125 = 2 ^ (125 - e + 1) * 2 ^ (e - 1) := by
        rw [← pow_add]
        congr 1
        omega
      have hlt : (2 ^ 23 + m) / 2 ^ (125 - e + 1) < 2 ^ 10 := by omega
      rw [if_pos h2, hshift]
      refine ⟨_, by omega, truncated_of_shift ?_ ?_⟩
      · rw [halfUnits_subnormal (by omega), hscale, Nat.mul_assoc]
      · rw [halfUnits_subnormal (by omega), hscale, Nat.mul_assoc]

/-! ## The conversion as a whole -/

theorem halfMagnitude_units (k : Nat) : halfMagnitude k = halfUnits k / 2 ^ 149 := by
  rw [halfMagnitude, halfUnits, Nat.cast_mul, Nat.cast_pow, Nat.cast_ofNat,
    div_eq_div_iff (by positivity) (by positivity), mul_assoc, ← pow_add]

theorem pattern_split (x : UInt32) :
    x.toNat % 2 ^ 31 = x.toNat / 2 ^ 23 % 256 * 2 ^ 23 + x.toNat % 2 ^ 23 := by
  omega

/-- The sign bit and the pattern of what `FromFloat` returns. -/
theorem fromFloat_split {x : UInt32} (hfin : x.toNat / 2 ^ 23 % 256 ≠ 255) :
    (fromFloat x).toNat / 2 ^ 15 = x.toNat / 2 ^ 31 ∧
      (fromFloat x).toNat % 2 ^ 15 =
        roundedPattern (x.toNat / 2 ^ 23 % 256) (x.toNat % 2 ^ 23) := by
  have hlt := roundedPattern_lt (e := x.toNat / 2 ^ 23 % 256) (m := x.toNat % 2 ^ 23)
    (Nat.mod_lt _ (by decide))
  have heq := toNat_fromFloat hfin
  omega

/-- Below the overflow branch the pattern is half up, as rationals. -/
theorem fromFloat_halfUp {x : UInt32} (he : x.toNat / 2 ^ 23 % 256 < 143) :
    ∃ k < 0x7C00, halfMagnitude k ≤ |floatValue x| ∧ |floatValue x| < halfMagnitude (k + 1) ∧
      (fromFloat x).toNat % 2 ^ 15 = halfUp halfMagnitude |floatValue x| k := by
  obtain ⟨k, hk, hlo, hhi, hpat⟩ := roundedPattern_halfUp he (Nat.mod_lt x.toNat (by decide))
  rw [← pattern_split] at hlo hhi hpat
  have hpos : (0 : ℚ) < 2 ^ 149 := by positivity
  have hmid : halfMagnitude k + halfMagnitude (k + 1) ≤ 2 * |floatValue x| ↔
      halfUnits k + halfUnits (k + 1) ≤ 2 * magnitude 23 (x.toNat % 2 ^ 31) := by
    rw [abs_floatValue, halfMagnitude_units, halfMagnitude_units, ← add_div, ← mul_div_assoc,
      div_le_div_iff_of_pos_right hpos]
    exact_mod_cast Iff.rfl
  refine ⟨k, hk, ?_, ?_, ?_⟩
  · rw [abs_floatValue, halfMagnitude_units, div_le_div_iff_of_pos_right hpos]
    exact_mod_cast hlo
  · rw [abs_floatValue, halfMagnitude_units, div_lt_div_iff_of_pos_right hpos]
    exact_mod_cast hhi
  · rw [(fromFloat_split (by omega)).2, hpat, halfUp]
    simp only [hmid]

/-- The first pattern that is not finite, read as if it were. -/
theorem halfMagnitude_top : halfMagnitude 0x7C00 = 65536 := by
  have h : magnitude 10 0x7C00 = 65536 * 2 ^ 24 := rfl
  rw [halfMagnitude, h]
  norm_num

theorem halfMagnitude_last : halfMagnitude 0x7BFF = 65504 := by
  have h : magnitude 10 0x7BFF = 65504 * 2 ^ 24 := rfl
  rw [halfMagnitude, h]
  norm_num

theorem halfMagnitude_one : halfMagnitude 1 = 1 / 2 ^ 24 := by
  rw [halfMagnitude, magnitude_subnormal (by decide), Nat.cast_one]

/-- The overflow branch is taken from 65536 on. -/
theorem abs_floatValue_ge {x : UInt32} (he : 143 ≤ x.toNat / 2 ^ 23 % 256) :
    65536 ≤ |floatValue x| := by
  have hle : magnitude 23 ((142 + 1) * 2 ^ 23 + 0) ≤ magnitude 23 (x.toNat % 2 ^ 31) := by
    apply (strictMono_magnitude 23).monotone
    rw [pattern_split]
    omega
  rw [magnitude_normal (by decide)] at hle
  rw [abs_floatValue, le_div_iff₀ (by positivity)]
  calc (65536 : ℚ) * 2 ^ 149 = ((2 ^ 23 + 0) * 2 ^ 142 : ℕ) := by norm_num
    _ ≤ (magnitude 23 (x.toNat % 2 ^ 31) : ℕ) := by exact_mod_cast hle

/-- The ties at which rounding half up and rounding to even part: midway between two
neighbours of which the lower one has the even significand. -/
def TieAboveEven (a : ℚ) : Prop :=
  ∃ k < 0x7C00, Even k ∧ 2 * a = halfMagnitude k + halfMagnitude (k + 1)

theorem tieAboveEven_iff {a : ℚ} {k : Nat} (hk : k < 0x7C00) (hlo : halfMagnitude k ≤ a)
    (hhi : a < halfMagnitude (k + 1)) :
    TieAboveEven a ↔ 2 * a = halfMagnitude k + halfMagnitude (k + 1) ∧ Even k := by
  constructor
  · rintro ⟨j, -, heven, htie⟩
    have hlt := strictMono_halfMagnitude (Nat.lt_succ_self j)
    have heq : k = j :=
      between_unique strictMono_halfMagnitude hlo hhi (by linarith) (by linarith)
    rw [heq]
    exact ⟨htie, heven⟩
  · rintro ⟨htie, heven⟩
    exact ⟨k, hk, heven, htie⟩

theorem fromFloat_roundsToEven_iff (x : UInt32) (hfin : x.toNat / 2 ^ 23 % 256 ≠ 255) :
    RoundsToEven x (fromFloat x) ↔ ¬ TieAboveEven |floatValue x| := by
  obtain ⟨hsign, hpat⟩ := fromFloat_split hfin
  rcases Nat.lt_or_ge (x.toNat / 2 ^ 23 % 256) 143 with he | he
  · obtain ⟨k, hk, hlo, hhi, hup⟩ := fromFloat_halfUp he
    rw [tieAboveEven_iff hk hlo hhi]
    rcases lt_or_ge |floatValue x| 65520 with hrange | hrange
    · have hlt : halfUp halfMagnitude |floatValue x| k < 0x7C00 := by
        unfold halfUp
        split
        case isTrue hmid =>
          -- from the last finite pattern one would have to be at 65520
          have hne : k ≠ 0x7BFF := by
            rintro rfl
            rw [halfMagnitude_last, halfMagnitude_top] at hmid
            linarith
          omega
        case isFalse => exact hk
      have hiff := nearestEven_halfUp_iff strictMono_halfMagnitude hlo hhi hlt
      rw [← hup, ← nearest_iff hsign] at hiff
      rw [← hiff]
      refine ⟨fun h => h.nearest hrange, fun h => ⟨hsign, fun hge => absurd hge (by linarith),
        fun hsmall => ?_, fun _ => h⟩⟩
      have hk0 : k = 0 := by
        refine between_unique strictMono_halfMagnitude hlo hhi ?_ ?_
        · rw [halfMagnitude_zero]
          exact abs_nonneg _
        · rw [halfMagnitude_one]
          exact lt_of_le_of_lt hsmall (by norm_num)
      subst hk0
      rw [hup, halfUp, if_neg]
      intro hmid
      refine hiff.mp h ⟨le_antisymm ?_ hmid, Even.zero⟩
      rw [halfMagnitude_zero, halfMagnitude_one]
      linarith
    · have hk1 : k = 0x7BFF := by
        refine between_unique strictMono_halfMagnitude hlo hhi ?_ ?_
        · rw [halfMagnitude_last]
          linarith
        · exact lt_of_lt_of_le hhi (strictMono_halfMagnitude.monotone (by omega))
      subst hk1
      refine iff_of_true ⟨hsign, fun _ => ?_, fun hsmall => ?_, fun hlt => ?_⟩ ?_
      · rw [hup, halfUp, if_pos]
        rw [halfMagnitude_last, halfMagnitude_top]
        linarith
      · exact absurd hsmall (by norm_num; linarith)
      · exact absurd hlt (not_lt.mpr hrange)
      · rintro ⟨-, heven⟩
        exact absurd heven (by decide)
  · have hge := abs_floatValue_ge he
    refine iff_of_true ⟨hsign, fun _ => ?_, fun hsmall => ?_, fun hlt => ?_⟩ ?_
    · rw [hpat, roundedPattern, if_pos he]
    · exact absurd hsmall (by norm_num; linarith)
    · exact absurd hlt (by linarith)
    · rintro ⟨k, hk, -, htie⟩
      have hlo := strictMono_halfMagnitude hk
      have hhi : halfMagnitude (k + 1) ≤ halfMagnitude 0x7C00 :=
        strictMono_halfMagnitude.monotone hk
      rw [halfMagnitude_top] at hlo hhi
      linarith

/-- 1 + 3 / 2048 lies midway above an odd significand and goes up to the even one. -/
theorem fromFloat_roundsToEven_iff_odd :
    (0x3F803000 : UInt32).toNat / 2 ^ 23 % 256 ≠ 255 ∧
      RoundsToEven 0x3F803000 (fromFloat 0x3F803000) := by
  refine ⟨by decide, (fromFloat_roundsToEven_iff 0x3F803000 (by decide)).mpr ?_⟩
  have hx : magnitude 23 ((0x3F803000 : UInt32).toNat % 2 ^ 31) = 2051 * 2 ^ 138 := rfl
  have ha : |floatValue 0x3F803000| = 2051 / 2048 := by
    rw [abs_floatValue, hx]
    norm_num
  have hlo : halfMagnitude 0x3C01 = 1025 / 1024 := by
    rw [halfMagnitude, show magnitude 10 0x3C01 = 1025 * 2 ^ 14 from rfl]
    norm_num
  have hhi : halfMagnitude (0x3C01 + 1) = 1026 / 1024 := by
    rw [halfMagnitude, show magnitude 10 (0x3C01 + 1) = 1026 * 2 ^ 14 from rfl]
    norm_num
  rw [ha, tieAboveEven_iff (k := 0x3C01) (by decide) (by rw [hlo]; norm_num)
    (by rw [hhi]; norm_num)]
  rintro ⟨-, heven⟩
  exact absurd heven (by decide)

/-- 1 + 1 / 2048 lies midway between 1 and 1 + 1 / 1024 and goes to the odd one. -/
theorem fromFloat_tie_goes_odd : ¬ RoundsToEven 0x3F801000 (fromFloat 0x3F801000) := by
  intro h
  have hpat : fromFloat 0x3F801000 = 0x3C01 := by decide
  rw [hpat] at h
  have hx : floatValue 0x3F801000 = 2049 / 2048 := by
    rw [floatValue, show (0x3F801000 : UInt32).toNat / 2 ^ 31 = 0 from rfl,
      show magnitude 23 ((0x3F801000 : UInt32).toNat % 2 ^ 31) = 2049 * 2 ^ 138 from rfl]
    norm_num [signum]
  have hup : value 0x3C01 = 1025 / 1024 := by
    rw [value, halfMagnitude, show (0x3C01 : UInt16).toNat / 2 ^ 15 = 0 from rfl,
      show magnitude 10 ((0x3C01 : UInt16).toNat % 2 ^ 15) = 1025 * 2 ^ 14 from rfl]
    norm_num [signum]
  have hdown : value 0x3C00 = 1 := by
    rw [value, halfMagnitude, show (0x3C00 : UInt16).toNat / 2 ^ 15 = 0 from rfl,
      show magnitude 10 ((0x3C00 : UInt16).toNat % 2 ^ 15) = 1024 * 2 ^ 14 from rfl]
    norm_num [signum]
  have hnear := h.nearest (by rw [hx]; norm_num [abs_of_pos])
  have heven := hnear.even 0x3C00 (show _ < _ by decide) (by rw [hup, hdown]; norm_num)
    (by rw [hx, hup, hdown]; norm_num [abs_of_pos, abs_of_neg])
  exact absurd heven (by decide)

end MemoryPack.Half
