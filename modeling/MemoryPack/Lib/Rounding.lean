import Mathlib.Algebra.Order.Field.Basic
import Mathlib.Algebra.Order.Group.Abs
import Mathlib.Algebra.Group.Even
import Mathlib.Tactic.Linarith
import Mathlib.Tactic.Ring

/-!
# Rounding to a grid, and the grid of a binary floating-point format

A grid is a strictly increasing sequence. Rounding half up between two neighbouring
values of it is rounding to nearest with ties to even, except at the ties whose lower
value has an even index (`nearestEven_halfUp_iff`).

The finite magnitudes of a binary interchange format with `p` fraction bits are such a
sequence when they are indexed by their bit patterns and counted in units of the least
one (`magnitude`).
-/

namespace Rounding

section Grid

variable {K : Type*} [Field K] [LinearOrder K] [IsStrictOrderedRing K]

/-- Of the first `n` values of the grid, the one at `r` is nearest to `a`; if another one
is as near, `r` is even. -/
structure NearestEven (g : ℕ → K) (n : ℕ) (a : K) (r : ℕ) : Prop where
  lt : r < n
  nearest : ∀ i < n, |a - g r| ≤ |a - g i|
  even : ∀ i < n, i ≠ r → |a - g r| = |a - g i| → Even r

/-- `a` lies between the values at `k` and `k + 1` and is rounded to the upper one from
their middle on. -/
def halfUp (g : ℕ → K) (a : K) (k : ℕ) : ℕ :=
  if g k + g (k + 1) ≤ 2 * a then k + 1 else k

variable {g : ℕ → K} {n k : ℕ} {a : K}

/-- Any other index is at least as far away as one of the two neighbours. -/
theorem neighbour_nearest (hg : StrictMono g) (hlo : g k ≤ a) (hhi : a < g (k + 1)) (i : ℕ) :
    (i ≤ k ∧ |a - g i| = a - g i ∧ g i ≤ g k ∧ (i ≠ k → g i < g k)) ∨
      (k + 1 ≤ i ∧ |a - g i| = g i - a ∧ g (k + 1) ≤ g i ∧ (i ≠ k + 1 → g (k + 1) < g i)) := by
  rcases Nat.lt_or_ge k i with hi | hi
  · have hle := hg.monotone (Nat.succ_le_of_lt hi)
    refine .inr ⟨hi, ?_, hle, fun hne => hg (by omega)⟩
    rw [abs_of_nonpos (by linarith), neg_sub]
  · have hle := hg.monotone hi
    refine .inl ⟨hi, ?_, hle, fun hne => hg (by omega)⟩
    rw [abs_of_nonneg (by linarith)]

theorem nearestEven_halfUp_iff (hg : StrictMono g) (hlo : g k ≤ a) (hhi : a < g (k + 1))
    (hn : halfUp g a k < n) :
    NearestEven g n a (halfUp g a k) ↔ ¬ (2 * a = g k + g (k + 1) ∧ Even k) := by
  have hk : |a - g k| = a - g k := abs_of_nonneg (by linarith)
  have hk' : |a - g (k + 1)| = g (k + 1) - a := by
    rw [abs_of_nonpos (by linarith), neg_sub]
  by_cases hmid : g k + g (k + 1) ≤ 2 * a
  · have hr : halfUp g a k = k + 1 := if_pos hmid
    rw [hr] at hn ⊢
    constructor
    · rintro h ⟨htie, heven⟩
      have hsame : |a - g (k + 1)| = |a - g k| := by rw [hk, hk']; linarith
      exact (Nat.even_add_one.mp (h.even k (by omega) (by omega) hsame)) heven
    · intro hnot
      refine ⟨hn, fun i _ => ?_, fun i _ hne hsame => ?_⟩
      · rcases neighbour_nearest hg hlo hhi i with ⟨-, habs, hle, -⟩ | ⟨-, habs, hle, -⟩ <;>
          rw [hk', habs] <;> linarith
      · rw [Nat.even_add_one]
        intro heven
        rcases neighbour_nearest hg hlo hhi i with ⟨-, habs, hle, hlt⟩ | ⟨-, habs, -, hlt⟩
        · rw [hk', habs] at hsame
          exact hnot ⟨by linarith, heven⟩
        · have hfar := hlt hne
          rw [hk', habs] at hsame
          linarith
  · have hr : halfUp g a k = k := if_neg hmid
    rw [hr] at hn ⊢
    rw [not_le] at hmid
    refine iff_of_true ⟨hn, fun i _ => ?_, fun i _ hne hsame => ?_⟩ ?_
    · rcases neighbour_nearest hg hlo hhi i with ⟨-, habs, hle, -⟩ | ⟨-, habs, hle, -⟩ <;>
        rw [hk, habs] <;> linarith
    · rcases neighbour_nearest hg hlo hhi i with ⟨-, habs, -, hlt⟩ | ⟨-, habs, hle, -⟩
      · have hfar := hlt hne
        rw [hk, habs] at hsame
        linarith
      · rw [hk, habs] at hsame
        linarith
    · rintro ⟨htie, -⟩
      linarith

omit [Field K] [IsStrictOrderedRing K] in
/-- A value lies between the grid points of at most one index. -/
theorem between_unique (hg : StrictMono g) {k' : ℕ} (hlo : g k ≤ a) (hhi : a < g (k + 1))
    (hlo' : g k' ≤ a) (hhi' : a < g (k' + 1)) : k = k' := by
  have hle : k < k' + 1 := hg.lt_iff_lt.mp (lt_of_le_of_lt hlo hhi')
  have hge : k' < k + 1 := hg.lt_iff_lt.mp (lt_of_le_of_lt hlo' hhi)
  omega

end Grid

/-! ## Bit patterns of binary formats -/

/-- The magnitude of the bit pattern `k` without its sign, for `p` fraction bits, in units
of the least positive one: a subnormal is the fraction itself, a normal number has its
leading bit restored and is shifted by its exponent. -/
def magnitude (p k : ℕ) : ℕ :=
  if k < 2 ^ p then k else (2 ^ p + k % 2 ^ p) * 2 ^ (k / 2 ^ p - 1)

theorem magnitude_subnormal {p k : ℕ} (h : k < 2 ^ p) : magnitude p k = k := if_pos h

theorem magnitude_normal {p m : ℕ} (hm : m < 2 ^ p) (e : ℕ) :
    magnitude p ((e + 1) * 2 ^ p + m) = (2 ^ p + m) * 2 ^ e := by
  have hpos : 0 < 2 ^ p := Nat.two_pow_pos p
  have hdiv : ((e + 1) * 2 ^ p + m) / 2 ^ p = e + 1 := by
    rw [Nat.add_comm, Nat.add_mul_div_right _ _ hpos, Nat.div_eq_of_lt hm, Nat.zero_add]
  have hmod : ((e + 1) * 2 ^ p + m) % 2 ^ p = m := by
    rw [Nat.add_comm, Nat.add_mul_mod_self_right, Nat.mod_eq_of_lt hm]
  have hge : ¬ (e + 1) * 2 ^ p + m < 2 ^ p := by
    rw [Nat.add_mul, Nat.one_mul]
    omega
  rw [magnitude, if_neg hge, hdiv, hmod, Nat.add_sub_cancel]

/-- A pattern is subnormal, or it has an exponent and a fraction. -/
theorem pattern_cases (p k : ℕ) :
    k < 2 ^ p ∨ ∃ e m, m < 2 ^ p ∧ k = (e + 1) * 2 ^ p + m := by
  rcases Nat.lt_or_ge k (2 ^ p) with h | h
  · exact .inl h
  · have hpos : 0 < 2 ^ p := Nat.two_pow_pos p
    have hq : 1 ≤ k / 2 ^ p := (Nat.one_le_div_iff hpos).mpr h
    refine .inr ⟨k / 2 ^ p - 1, k % 2 ^ p, Nat.mod_lt k hpos, ?_⟩
    rw [Nat.sub_add_cancel hq, Nat.mul_comm]
    exact (Nat.div_add_mod k (2 ^ p)).symm

/-- Neighbouring magnitudes differ by one unit in the last place; a carry out of the
fraction makes no difference. -/
theorem magnitude_succ (p k : ℕ) :
    magnitude p (k + 1) = magnitude p k + 2 ^ (k / 2 ^ p - 1) := by
  have hpos : 0 < 2 ^ p := Nat.two_pow_pos p
  rcases pattern_cases p k with hk | ⟨e, m, hm, rfl⟩
  · rw [magnitude_subnormal hk, Nat.div_eq_of_lt hk, Nat.zero_sub, pow_zero]
    rcases Nat.lt_or_ge (k + 1) (2 ^ p) with hk' | hk'
    · exact magnitude_subnormal hk'
    · -- the first normal number
      have heq : k + 1 = (0 + 1) * 2 ^ p + 0 := by omega
      rw [heq, magnitude_normal hpos 0]
      omega
  · have hdiv : ((e + 1) * 2 ^ p + m) / 2 ^ p - 1 = e := by
      rw [Nat.add_comm, Nat.add_mul_div_right _ _ hpos, Nat.div_eq_of_lt hm]
      omega
    rw [magnitude_normal hm, hdiv]
    rcases Nat.lt_or_ge (m + 1) (2 ^ p) with hm' | hm'
    · rw [Nat.add_assoc, magnitude_normal hm']
      ring
    · -- the fraction overflows into the exponent
      have heq : (e + 1) * 2 ^ p + m + 1 = (e + 1 + 1) * 2 ^ p + 0 := by
        rw [Nat.add_mul (e + 1) 1, Nat.one_mul]
        omega
      have hfull : m + 1 = 2 ^ p := by omega
      rw [heq, magnitude_normal hpos]
      calc (2 ^ p + 0) * 2 ^ (e + 1) = (2 ^ p + 2 ^ p) * 2 ^ e := by ring
        _ = (2 ^ p + (m + 1)) * 2 ^ e := by rw [hfull]
        _ = (2 ^ p + m) * 2 ^ e + 2 ^ e := by ring

/-- Shifting the last `s + 1` bits out of a number truncates it to a multiple of
`2 ^ (s + 1)`; the highest bit lost says which half of the gap it lies in. -/
theorem shift_out (n s : ℕ) :
    n / 2 ^ (s + 1) * 2 ^ (s + 1) ≤ n ∧ n < (n / 2 ^ (s + 1) + 1) * 2 ^ (s + 1) ∧
      (n / 2 ^ (s + 1) * 2 ^ (s + 1) + (n / 2 ^ (s + 1) + 1) * 2 ^ (s + 1) ≤ 2 * n ↔
        n / 2 ^ s % 2 = 1) := by
  have hpos : 0 < 2 ^ s := Nat.two_pow_pos s
  have hhalf : n / 2 ^ (s + 1) = n / 2 ^ s / 2 := by
    rw [pow_succ, Nat.div_div_eq_div_mul]
  have hsplit := Nat.div_add_mod n (2 ^ s)
  have hrest := Nat.mod_lt n hpos
  have hbit := Nat.div_add_mod (n / 2 ^ s) 2
  have hprod : 2 ^ s * (n / 2 ^ s) =
      2 * (n / 2 ^ s / 2 * 2 ^ s) + 2 ^ s * (n / 2 ^ s % 2) := by
    calc 2 ^ s * (n / 2 ^ s) = 2 ^ s * (2 * (n / 2 ^ s / 2) + n / 2 ^ s % 2) := by rw [hbit]
      _ = 2 * (n / 2 ^ s / 2 * 2 ^ s) + 2 ^ s * (n / 2 ^ s % 2) := by ring
  have hlow : n / 2 ^ s / 2 * 2 ^ (s + 1) = 2 * (n / 2 ^ s / 2 * 2 ^ s) := by ring
  have hhigh : (n / 2 ^ s / 2 + 1) * 2 ^ (s + 1) =
      2 * (n / 2 ^ s / 2 * 2 ^ s) + 2 * 2 ^ s := by ring
  rw [hhalf, hlow, hhigh]
  rcases Nat.mod_two_eq_zero_or_one (n / 2 ^ s) with h | h <;> rw [h] at hprod ⊢ <;> omega

theorem strictMono_magnitude (p : ℕ) : StrictMono (magnitude p) :=
  strictMono_nat_of_lt_succ fun k => by
    rw [magnitude_succ]
    exact Nat.lt_add_of_pos_right (Nat.two_pow_pos _)

end Rounding
