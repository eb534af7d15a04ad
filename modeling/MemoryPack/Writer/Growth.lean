import MemoryPack.Writer.Buffer
import Mathlib.Algebra.Group.Nat.Defs

/-!
# The doubling loop of `GrowOwned`

`grownSize` doubles natural numbers. The loop of the source doubles a `size_t`, so a
doubled value can wrap, and a value of zero stays zero. Below half of the range of
`size_t` the two agree. Above it the loop ends exactly when one of the shifted sizes,
with the bits that left the top lost, still reaches the target.
-/

namespace MemoryPack

open Effect

namespace Writer

/-! ## The loop in `size_t` -/

/-- `while (next < target) next *= 2;` on a `size_t`, for at most `fuel` tests of the
condition; `none` when the last of them still held. -/
def doubleSizeT (mod target : Nat) : Nat → Nat → Option Nat
  | 0, _ => none
  | fuel + 1, next =>
      if next < target then doubleSizeT mod target fuel (next * 2 % mod) else some next

/-- The argument of `owned_.resize` in `GrowOwned(needed)`. -/
def requestedSize (B : Build) (w : MemoryPackWriter) (needed fuel : Nat) : Option Nat :=
  let target := (w.ownedPos + needed) % B.sizeMod
  let next := if w.owned.length ≠ 0 then w.owned.length * 2 % B.sizeMod else 64
  doubleSizeT B.sizeMod target fuel next

/-- The loop ends, with the size that was asked for. -/
def GrowthSuffices (B : Build) (w : MemoryPackWriter) (needed : Nat) : Prop :=
  ∃ fuel next, requestedSize B w needed fuel = some next ∧ w.ownedPos + needed ≤ next

/-! ## Where it ends -/

section Loop

variable {mod target : Nat}

/-- Only values that reached the target leave the loop. -/
theorem le_of_doubleSizeT {fuel next n : Nat} (h : doubleSizeT mod target fuel next = some n) :
    target ≤ n := by
  induction fuel generalizing next with
  | zero => simp [doubleSizeT] at h
  | succ fuel ih =>
      rw [doubleSizeT] at h
      split at h
      · exact ih h
      · next hge =>
          rw [← Option.some.inj h]
          exact Nat.not_lt.mp hge

/-- Reducing after every round is reducing once. -/
theorem double_mod_mul (next k : Nat) : next * 2 % mod * 2 ^ k % mod = next * 2 ^ (k + 1) % mod := by
  rw [Nat.mod_mul_mod, Nat.mul_assoc, ← Nat.pow_succ']

/-- The loop ends if some round's value reaches the target. -/
theorem doubleSizeT_ends_iff {next : Nat} (hnext : next < mod) :
    (∃ fuel n, doubleSizeT mod target fuel next = some n) ↔ ∃ k, target ≤ next * 2 ^ k % mod := by
  constructor
  · rintro ⟨fuel, n, h⟩
    induction fuel generalizing next with
    | zero => simp [doubleSizeT] at h
    | succ fuel ih =>
        rw [doubleSizeT] at h
        split at h
        · obtain ⟨k, hk⟩ := ih (Nat.mod_lt _ (Nat.zero_lt_of_lt hnext)) h
          refine ⟨k + 1, ?_⟩
          rw [← double_mod_mul]
          exact hk
        · next hge =>
            refine ⟨0, ?_⟩
            rw [Nat.pow_zero, Nat.mul_one, Nat.mod_eq_of_lt hnext]
            exact Nat.not_lt.mp hge
  · rintro ⟨k, hk⟩
    induction k generalizing next with
    | zero =>
        rw [Nat.pow_zero, Nat.mul_one, Nat.mod_eq_of_lt hnext] at hk
        exact ⟨1, next, by rw [doubleSizeT, if_neg (Nat.not_lt.mpr hk)]⟩
    | succ k ih =>
        by_cases hlt : next < target
        · rw [← double_mod_mul] at hk
          obtain ⟨fuel, n, h⟩ := ih (Nat.mod_lt _ (Nat.zero_lt_of_lt hnext)) hk
          exact ⟨fuel + 1, n, by rw [doubleSizeT, if_pos hlt, h]⟩
        · exact ⟨1, next, by rw [doubleSizeT, if_neg hlt]⟩

/-- While nothing can wrap, the loop on `size_t` is the loop on numbers. -/
theorem doubleSizeT_eq (hhalf : target * 2 ≤ mod) : ∀ {rounds next : Nat}, 0 < next →
    target ≤ next + rounds →
    doubleSizeT mod target (rounds + 1) next = some (doubleUntil target rounds next)
  | 0, next, _, h => by
      rw [Nat.add_zero] at h
      rw [doubleSizeT, if_neg (Nat.not_lt.mpr h), doubleUntil]
  | rounds + 1, next, hpos, h => by
      rw [doubleSizeT, doubleUntil]
      split
      · rw [Nat.mod_eq_of_lt (by omega)]
        exact doubleSizeT_eq hhalf (by omega) (by omega)
      · rfl

end Loop

/-! ## The size requested -/

/-- A first allocation of 64 bytes is the doubling of 32. -/
def doubledSize (w : MemoryPackWriter) : Nat :=
  if w.owned.length = 0 then 32 else w.owned.length

section Request

variable {B : Build} {w : MemoryPackWriter} {needed : Nat}

theorem sizeMod_eq (B : Build) : B.sizeMod = 2 ^ B.size.bits := rfl

theorem bits_ge (B : Build) : 32 ≤ B.size.bits := by
  cases B.size <;> decide

theorem requestedSize_eq (hneeded : w.ownedPos + needed < B.sizeMod) (fuel : Nat) :
    requestedSize B w needed fuel =
      doubleSizeT B.sizeMod (w.ownedPos + needed) fuel (doubledSize w * 2 % B.sizeMod) := by
  have h64 : 32 * 2 % B.sizeMod = 64 := by
    apply Nat.mod_eq_of_lt
    exact Nat.lt_of_lt_of_le (by decide) (Nat.pow_le_pow_right (by decide) (bits_ge B))
  rw [requestedSize, doubledSize, Nat.mod_eq_of_lt hneeded]
  by_cases hlen : w.owned.length = 0
  · rw [if_pos hlen, h64, if_neg (not_not_intro hlen)]
  · rw [if_neg hlen, if_pos hlen]

/-- Shifting a `size_t` left by `k` keeps its low bits and moves them up. -/
theorem shifted_mod {bits k : Nat} (hk : k ≤ bits) (n : Nat) :
    n * 2 ^ k % 2 ^ bits = n % 2 ^ (bits - k) * 2 ^ k := by
  rw [← Nat.mul_mod_mul_right, ← Nat.pow_add, Nat.sub_add_cancel hk]

/-- The bits shifted out at the top are all of them in the end. -/
theorem shifted_out {bits k : Nat} (hk : bits ≤ k) (n : Nat) : n * 2 ^ k % 2 ^ bits = 0 := by
  apply Nat.mod_eq_zero_of_dvd
  exact Dvd.dvd.mul_left (Nat.pow_dvd_pow 2 hk) n

/-- `GrowOwned` ends, and suffices, exactly when the low bits of the size, shifted to
the top by one bit or more, reach the target. -/
theorem growOwned_suffices_iff (B : Build) (w : MemoryPackWriter) (needed : Nat)
    (hneeded : w.ownedPos + needed < B.sizeMod) :
    GrowthSuffices B w needed ↔ ∃ k, 0 < k ∧ k ≤ B.size.bits ∧
      w.ownedPos + needed ≤ doubledSize w % 2 ^ (B.size.bits - k) * 2 ^ k := by
  have hpos : 0 < B.sizeMod := Nat.zero_lt_of_lt hneeded
  have hends : (∃ fuel n, doubleSizeT B.sizeMod (w.ownedPos + needed) fuel
        (doubledSize w * 2 % B.sizeMod) = some n) ↔
      ∃ k, w.ownedPos + needed ≤ doubledSize w * 2 % B.sizeMod * 2 ^ k % B.sizeMod := by
    apply doubleSizeT_ends_iff
    exact Nat.mod_lt (doubledSize w * 2) hpos
  constructor
  · rintro ⟨fuel, n, h, -⟩
    rw [requestedSize_eq hneeded] at h
    obtain ⟨k, hk⟩ := hends.mp ⟨fuel, n, h⟩
    rw [double_mod_mul, sizeMod_eq] at hk
    -- a shift by the width or more leaves zero, which every shift reaches
    by_cases hbits : k + 1 ≤ B.size.bits
    · rw [shifted_mod hbits] at hk
      exact ⟨k + 1, Nat.succ_pos k, hbits, hk⟩
    · rw [shifted_out (by omega)] at hk
      exact ⟨1, Nat.one_pos, by have := bits_ge B; omega, Nat.le_trans hk (Nat.zero_le _)⟩
  · rintro ⟨k, hk, hbits, hle⟩
    obtain ⟨j, rfl⟩ : ∃ j, k = j + 1 := ⟨k - 1, by omega⟩
    rw [← shifted_mod hbits, ← sizeMod_eq, ← double_mod_mul] at hle
    obtain ⟨fuel, n, h⟩ := hends.mpr ⟨j, hle⟩
    refine ⟨fuel, n, ?_, le_of_doubleSizeT h⟩
    rw [requestedSize_eq hneeded]
    exact h

/-- Up to half of the range of `size_t` the request is the one of the unbounded loop. -/
theorem requestedSize_eq_grownSize (hsize : w.owned.length * 2 < B.sizeMod)
    (htarget : (w.ownedPos + needed) * 2 ≤ B.sizeMod) :
    requestedSize B w needed (w.ownedPos + needed + 1) =
      some (grownSize w.owned.length w.ownedPos needed) := by
  have hneeded : w.ownedPos + needed < B.sizeMod := by omega
  rw [requestedSize, grownSize, Nat.mod_eq_of_lt hneeded, Nat.mod_eq_of_lt hsize]
  apply doubleSizeT_eq htarget
  · split <;> omega
  · exact Nat.le_add_left _ _

/-- So there `growOwned` resizes to what the loop on `size_t` requests. -/
theorem growOwned_requested (hsize : w.owned.length * 2 < B.sizeMod)
    (htarget : (w.ownedPos + needed) * 2 ≤ B.sizeMod) :
    ∃ fuel next, requestedSize B w needed fuel = some next ∧
      growOwned needed B w = ⟨.ret (), { w with owned := resize w.owned next }, []⟩ :=
  ⟨_, _, requestedSize_eq_grownSize hsize htarget, rfl⟩

theorem growthSuffices_of_half (hsize : w.owned.length * 2 < B.sizeMod)
    (htarget : (w.ownedPos + needed) * 2 ≤ B.sizeMod) : GrowthSuffices B w needed :=
  ⟨_, _, requestedSize_eq_grownSize hsize htarget, le_grownSize _ _ _⟩

end Request

/-- A writer that reserved 96 bytes and has none of them filled asks for 192 of them when
it needs 100. -/
theorem growOwned_suffices_reserved :
    GrowthSuffices ⟨true, .little, .w32, 0⟩ { owned := List.replicate 96 0 } 100 :=
  (growOwned_suffices_iff _ _ _ (by decide)).mpr ⟨1, by decide⟩

/-! ## Where it does not end -/

/-- Reserving `n` bytes and filling them makes the storage as large as what was written. -/
theorem reserve_fill (B : Build) {n : Nat} (hn : n ≠ 0) :
    (do reserve n; appendBytes (List.replicate n 0) : WriteM Unit) B {} =
      ⟨.ret (), { owned := List.replicate n 0, ownedPos := n },
        [.appended (List.replicate n 0)]⟩ := by
  have hpos : 0 < n := Nat.pos_of_ne_zero hn
  simp [reserve, appendBytes, hn, hpos, resize, overwrite]

/-- Twice `2 ^ 30` is short of a larger target, and every further doubling is zero. -/
theorem doubled_short {target : Nat} (h : 2 ^ 31 < target) (k : Nat) :
    ¬ target ≤ 2 ^ 31 * 2 ^ k % 2 ^ 32 := by
  cases k with
  | zero => omega
  | succ k =>
      have hzero : 2 ^ 31 * 2 ^ (k + 1) % 2 ^ 32 = 0 := by
        rw [Nat.pow_succ' (n := k), ← Nat.mul_assoc]
        exact Nat.mul_mod_right _ _
      omega

/-- A 32-bit writer whose gibibyte of storage is full cannot grow by more than that. -/
theorem requestedSize_full {B : Build} {w : MemoryPackWriter} {needed : Nat}
    (hB : B.size = .w32) (hlen : w.owned.length = 2 ^ 30) (hpos : w.ownedPos = 2 ^ 30)
    (hneeded : 2 ^ 30 < needed) (hfits : w.ownedPos + needed < B.sizeMod) (fuel : Nat) :
    requestedSize B w needed fuel = none := by
  have hmod : B.sizeMod = 2 ^ 32 := by
    rw [sizeMod_eq, hB]
    rfl
  have hstart : doubledSize w * 2 % B.sizeMod = 2 ^ 31 := by
    rw [doubledSize, hlen, hmod]
    rfl
  cases hres : requestedSize B w needed fuel with
  | none => rfl
  | some n =>
      rw [requestedSize_eq hfits, hstart, hmod] at hres
      obtain ⟨k, hk⟩ := (doubleSizeT_ends_iff (by decide)).mp ⟨fuel, n, hres⟩
      exact absurd hk (doubled_short (by omega) k)

/-- With one gibibyte reserved and filled in a 32-bit build, a gibibyte and a byte more
makes the loop double `2 ^ 31` to zero, and zero for ever. -/
theorem growOwned_loops : ∃ w log,
    (do reserve (2 ^ 30); appendBytes (List.replicate (2 ^ 30) 0) : WriteM Unit)
      ⟨true, .little, .w32, 0⟩ {} = ⟨.ret (), w, log⟩ ∧
    w.ownedPos ≤ w.owned.length ∧ w.ownedPos + (2 ^ 30 + 1) < 2 ^ 32 ∧
    ¬ GrowthSuffices ⟨true, .little, .w32, 0⟩ w (2 ^ 30 + 1) := by
  have hlen : (List.replicate (2 ^ 30) (0 : UInt8)).length = 2 ^ 30 := List.length_replicate
  refine ⟨_, _, reserve_fill _ (by decide), hlen.ge, ?_, ?_⟩
  · show 2 ^ 30 + (2 ^ 30 + 1) < 2 ^ 32
    decide
  · rintro ⟨fuel, n, h, -⟩
    rw [requestedSize_full rfl hlen rfl (by decide) (by decide)] at h
    exact absurd h (by simp)

end Writer

end MemoryPack
