import MemoryPack.Cs2Cpp.CSharp
import MemoryPack.Cs2Cpp.CsParser
import Mathlib.Tactic.Linarith
import Mathlib.Tactic.Positivity
import Mathlib.Algebra.Order.Ring.Int

/-!
# One operator in 64 bits and in its own type

`TryEvalConstant` computes with `long` throughout, C# in the type of each subexpression.
Given equal operands the results are equal, except for an operator that depends on the
width or on the sign of its type: the complement of an unsigned operand, a shift of a
32-bit operand that loses bits or whose count exceeds 31, a `ulong` result from 2^63 on.
`unary_spec` and `binary_spec` say so for every operator.
-/

namespace MemoryPack.Cs2Cpp

/-! ## 64 bits and fewer -/

theorem bmod_long {x : Int} (hlo : -2 ^ 63 ≤ x) (hhi : x < 2 ^ 63) : x.bmod (2 ^ 64) = x :=
  Int.bmod_eq_of_le (by omega) (by omega)

theorem bmod_long_iff {x : Int} (hlo : -2 ^ 63 ≤ x) (hhi : x < 2 ^ 64) :
    x.bmod (2 ^ 64) = x ↔ x < 2 ^ 63 := by
  constructor
  · intro h
    have := Int.bmod_lt (x := x) (m := 2 ^ 64) (by decide)
    omega
  · exact bmod_long hlo

theorem toInt_long (v : BitVec 64) : -2 ^ 63 ≤ v.toInt ∧ v.toInt < 2 ^ 63 :=
  ⟨v.le_toInt, v.toInt_lt⟩

theorem toInt_complement {w : Nat} (hw : 0 < w) (v : BitVec w) : (~~~v).toInt = -1 - v.toInt := by
  obtain ⟨k, rfl⟩ : ∃ k, w = k + 1 := ⟨w - 1, by omega⟩
  have hlt := v.isLt
  rw [BitVec.toInt_eq_toNat_cond, BitVec.toInt_eq_toNat_cond, BitVec.toNat_not, pow_succ] at *
  split <;> split <;> omega

namespace Integral

/-- The types that operators are predefined for. -/
def IsOperand (t : Integral) : Prop := t ∈ Constant.operatorTypes

theorem isOperand_cases {t : Integral} (h : t.IsOperand) :
    t = .int ∨ t = .uint ∨ t = .long ∨ t = .ulong := by
  simpa [IsOperand, Constant.operatorTypes] using h

theorem holds_int {x : Int} : Integral.int.Holds x ↔ -2 ^ 31 ≤ x ∧ x < 2 ^ 31 := by
  show -2 ^ 31 ≤ x ∧ x ≤ 2 ^ 31 - 1 ↔ _
  omega

theorem holds_uint {x : Int} : Integral.uint.Holds x ↔ 0 ≤ x ∧ x < 2 ^ 32 := by
  show 0 ≤ x ∧ x ≤ 2 ^ 32 - 1 ↔ _
  omega

theorem holds_long {x : Int} : Integral.long.Holds x ↔ -2 ^ 63 ≤ x ∧ x < 2 ^ 63 := by
  show -2 ^ 63 ≤ x ∧ x ≤ 2 ^ 63 - 1 ↔ _
  omega

theorem holds_ulong {x : Int} : Integral.ulong.Holds x ↔ 0 ≤ x ∧ x < 2 ^ 64 := by
  show 0 ≤ x ∧ x ≤ 2 ^ 64 - 1 ↔ _
  omega

/-- What of a number fits into a type. -/
def wrap (t : Integral) (x : Int) : Int :=
  if t.signed then x.bmod (2 ^ t.bits) else x % 2 ^ t.bits

theorem ofBits_ofInt (t : Integral) (x : Int) : t.ofBits (BitVec.ofInt t.bits x) = t.wrap x := by
  unfold ofBits wrap
  split
  · rw [BitVec.toInt_ofInt]
  · have hpos : (0 : Int) < 2 ^ t.bits := by positivity
    rw [BitVec.toNat_ofInt, Int.natCast_pow, Nat.cast_ofNat,
      Int.toNat_of_nonneg (Int.emod_nonneg x (Int.ne_of_gt hpos))]

theorem ofBits_holds {t : Integral} (ht : t.IsOperand) (b : BitVec t.bits) :
    t.Holds (t.ofBits b) := by
  rcases isOperand_cases ht with rfl | rfl | rfl | rfl
  · exact holds_int.mpr ⟨b.le_toInt, b.toInt_lt⟩
  · exact holds_uint.mpr ⟨Int.natCast_nonneg _, Int.ofNat_lt.mpr b.isLt⟩
  · exact holds_long.mpr ⟨b.le_toInt, b.toInt_lt⟩
  · exact holds_ulong.mpr ⟨Int.natCast_nonneg _, Int.ofNat_lt.mpr b.isLt⟩

theorem ofBits_toBits {t : Integral} (ht : t.IsOperand) {x : Int} (hx : t.Holds x) :
    t.ofBits (t.toBits x) = x := by
  rw [toBits, ofBits_ofInt]
  rcases isOperand_cases ht with rfl | rfl | rfl | rfl
  · obtain ⟨hlo, hhi⟩ := holds_int.mp hx
    exact Int.bmod_eq_of_le hlo hhi
  · obtain ⟨hlo, hhi⟩ := holds_uint.mp hx
    exact Int.emod_eq_of_lt hlo hhi
  · obtain ⟨hlo, hhi⟩ := holds_long.mp hx
    exact bmod_long hlo hhi
  · obtain ⟨hlo, hhi⟩ := holds_ulong.mp hx
    exact Int.emod_eq_of_lt hlo hhi

/-- Every operand type lies between the least `long` and the greatest `ulong`. -/
theorem holds_range {t : Integral} (ht : t.IsOperand) {x : Int} (h : t.Holds x) :
    -2 ^ 63 ≤ x ∧ x < 2 ^ 64 := by
  rcases isOperand_cases ht with rfl | rfl | rfl | rfl
  · rw [holds_int] at h
    omega
  · rw [holds_uint] at h
    omega
  · rw [holds_long] at h
    omega
  · rw [holds_ulong] at h
    omega

theorem holds_shiftRight (t : Integral) {x : Int} (h : t.Holds x) (k : Nat) :
    t.Holds (x >>> k) := by
  have hmin : t.min ≤ 0 := by cases t <;> decide
  have hmax : 0 ≤ t.max := by cases t <;> decide
  have hpos : (0 : Int) < (2 ^ k : Nat) := by positivity
  obtain ⟨hlo, hhi⟩ := h
  rw [Int.shiftRight_eq_div_pow]
  constructor
  · rcases Int.lt_or_le x 0 with hx | hx
    · exact Int.le_trans hlo (Int.le_ediv_of_mul_le hpos (by nlinarith))
    · exact Int.le_trans hmin (Int.ediv_nonneg hx (Int.le_of_lt hpos))
  · rcases Int.lt_or_le x 0 with hx | hx
    · exact Int.le_trans (Int.le_of_lt (Int.ediv_neg_of_neg_of_pos hx hpos)) hmax
    · exact Int.le_trans (Int.ediv_le_self _ hx) hhi

theorem wrap_int (x : Int) : Integral.int.wrap x = x.bmod (2 ^ 32) := rfl

theorem wrap_uint (x : Int) : Integral.uint.wrap x = x % 2 ^ 32 := rfl

end Integral

/-! ## Shifts -/

theorem ofInt_shiftLeft (w : Nat) (x : Int) (k : Nat) :
    BitVec.ofInt w x <<< k = BitVec.ofInt w (x * 2 ^ k) := by
  have hpow : BitVec.ofInt w (2 ^ k) = BitVec.twoPow w k := by
    apply BitVec.eq_of_toNat_eq
    rw [BitVec.toNat_ofInt, BitVec.toNat_twoPow]
    norm_cast
  rw [BitVec.shiftLeft_eq_mul_twoPow, BitVec.ofInt_mul, hpow]

theorem toInt_shiftLeft_long (v : BitVec 64) (k : Nat) :
    (v <<< k).toInt = (v.toInt * 2 ^ k).bmod (2 ^ 64) := by
  have h := ofInt_shiftLeft 64 v.toInt k
  rw [BitVec.ofInt_toInt] at h
  rw [h, BitVec.toInt_ofInt]

/-- The evaluator's count, from the value of the right operand. -/
theorem count_long (r : BitVec 64) : r.toNat % 64 = (r.toInt % 64).toNat := by
  rw [BitVec.toInt_eq_toNat_cond]
  split <;> omega

/-- The counts of a shift of 32 and of 64 bits are equal or 32 apart. -/
theorem count_cases (c : Int) :
    c % 64 < 32 ∧ (c % 64).toNat = (c % 32).toNat ∨
      32 ≤ c % 64 ∧ (c % 64).toNat = (c % 32).toNat + 32 := by
  omega

/-- A left shift by less than 32 in 64 bits is exact. -/
theorem shiftLeft_exact {t : Integral} (ht : t = .int ∨ t = .uint) {x : Int} (hx : t.Holds x)
    {k : Nat} (hk : k < 32) : (x * 2 ^ k).bmod (2 ^ 64) = x * 2 ^ k := by
  have hle : (2 : Int) ^ k ≤ 2 ^ 31 := pow_le_pow_right₀ (by decide) (by omega)
  have hpos : (0 : Int) < 2 ^ k := by positivity
  have hrange : -2 ^ 32 < x ∧ x < 2 ^ 32 := by
    rcases ht with rfl | rfl
    · rw [Integral.holds_int] at hx
      omega
    · rw [Integral.holds_uint] at hx
      omega
  apply bmod_long <;> nlinarith

/-- When both evaluators agree on a left shift. -/
def ShiftLeftFaithful (t : Integral) (x c : Int) : Prop :=
  let y := x * 2 ^ Constant.shiftCount t c
  if t.bits = 32 then c % 64 < 32 ∧ t.Holds y ∨ 32 ≤ c % 64 ∧ (2 : Int) ^ 32 ∣ y
  else t.signed ∨ y % 2 ^ 64 < 2 ^ 63

theorem shiftLeft_iff {t : Integral} (ht : t.IsOperand) {l r : BitVec 64} (hl : t.Holds l.toInt) :
    (l <<< (r.toNat % 64)).toInt =
        t.ofBits (t.toBits l.toInt <<< Constant.shiftCount t r.toInt) ↔
      ShiftLeftFaithful t l.toInt r.toInt := by
  rw [toInt_shiftLeft_long, count_long, Integral.toBits, ofInt_shiftLeft, Integral.ofBits_ofInt]
  generalize l.toInt = x at hl ⊢
  generalize r.toInt = c
  have hnarrow : ∀ {t : Integral}, t = .int ∨ t = .uint → t.Holds x →
      ((x * 2 ^ (c % 64).toNat).bmod (2 ^ 64) = t.wrap (x * 2 ^ (c % 32).toNat) ↔
        c % 64 < 32 ∧ t.Holds (x * 2 ^ (c % 32).toNat) ∨
          32 ≤ c % 64 ∧ (2 : Int) ^ 32 ∣ x * 2 ^ (c % 32).toNat) := by
    intro t ht hx
    rcases count_cases c with ⟨hlow, heq⟩ | ⟨hhigh, heq⟩
    · rw [heq, shiftLeft_exact ht hx (by omega)]
      generalize x * 2 ^ (c % 32).toNat = y
      rcases ht with rfl | rfl
      · rw [Integral.wrap_int, Integral.holds_int, Int.bmod_def]
        split <;> omega
      · rw [Integral.wrap_uint, Integral.holds_uint]
        omega
    · -- 32 more bits are shifted out: what is left is a multiple of 2^32
      rw [heq, pow_add, ← mul_assoc]
      generalize x * 2 ^ (c % 32).toNat = y
      rcases ht with rfl | rfl
      · rw [Integral.wrap_int, Int.bmod_def, Int.bmod_def]
        split <;> split <;> omega
      · rw [Integral.wrap_uint, Int.bmod_def]
        split <;> omega
  unfold ShiftLeftFaithful
  rcases Integral.isOperand_cases ht with rfl | rfl | rfl | rfl
  · exact hnarrow (.inl rfl) hl
  · exact hnarrow (.inr rfl) hl
  · exact iff_of_true rfl (.inl rfl)
  · show (x * 2 ^ (c % 64).toNat).bmod (2 ^ 64) = (x * 2 ^ (c % 64).toNat) % 2 ^ 64 ↔
      (false = true ∨ (x * 2 ^ (c % 64).toNat) % 2 ^ 64 < 2 ^ 63)
    generalize x * 2 ^ (c % 64).toNat = y
    rw [Int.bmod_def]
    split <;> simp <;> omega

/-- When both evaluators agree on a right shift. -/
def ShiftRightFaithful (t : Integral) (x c : Int) : Prop :=
  t.bits = 32 → 32 ≤ c % 64 →
    -2 ^ Constant.shiftCount t c ≤ x ∧ x < 2 ^ Constant.shiftCount t c

theorem shiftRight_iff {t : Integral} (ht : t.IsOperand) (l r : BitVec 64) :
    (l.sshiftRight (r.toNat % 64)).toInt = l.toInt >>> Constant.shiftCount t r.toInt ↔
      ShiftRightFaithful t l.toInt r.toInt := by
  rw [BitVec.toInt_sshiftRight, count_long]
  generalize l.toInt = x
  generalize r.toInt = c
  have hnarrow : x >>> (c % 64).toNat = x >>> (c % 32).toNat ↔
      (32 ≤ c % 64 → -2 ^ (c % 32).toNat ≤ x ∧ x < 2 ^ (c % 32).toNat) := by
    rcases count_cases c with ⟨hlow, heq⟩ | ⟨hhigh, heq⟩
    · rw [heq]
      exact iff_of_true rfl fun h => absurd h (by omega)
    · have hpos : (0 : Int) < 2 ^ (c % 32).toNat := by positivity
      have hdiv : x >>> (c % 64).toNat = x / 2 ^ (c % 32).toNat / 2 ^ 32 := by
        rw [heq, Int.shiftRight_add, Int.shiftRight_eq_div_pow, Int.shiftRight_eq_div_pow]
        norm_cast
      have hdiv' : x >>> (c % 32).toNat = x / 2 ^ (c % 32).toNat := by
        rw [Int.shiftRight_eq_div_pow]
        norm_cast
      have hlo : -2 ^ (c % 32).toNat ≤ x ↔ -1 ≤ x / 2 ^ (c % 32).toNat := by
        rw [Int.le_ediv_iff_mul_le hpos, neg_one_mul]
      have hhi : x < 2 ^ (c % 32).toNat ↔ x / 2 ^ (c % 32).toNat < 1 := by
        rw [Int.ediv_lt_iff_lt_mul hpos, one_mul]
      rw [hdiv, hdiv', hlo, hhi]
      omega
  unfold ShiftRightFaithful
  rcases Integral.isOperand_cases ht with rfl | rfl | rfl | rfl
  · exact hnarrow.trans (by simp [Integral.bits, Constant.shiftCount])
  · exact hnarrow.trans (by simp [Integral.bits, Constant.shiftCount])
  · exact iff_of_true rfl fun h => by simp [Integral.bits] at h
  · exact iff_of_true rfl fun h => by simp [Integral.bits] at h

/-! ## The other operators -/

theorem toInt_eq_toNat {v : BitVec 64} (h : 0 ≤ v.toInt) : v.toInt = v.toNat := by
  have hlt := v.isLt
  rw [BitVec.toInt_eq_toNat_cond] at h ⊢
  split at h <;> omega

/-- The complement of an unsigned operand never has the value of a `long` complement. -/
theorem complement_iff {t : Integral} (ht : t.IsOperand) {v : BitVec 64} (hv : t.Holds v.toInt) :
    (~~~v).toInt = t.ofBits (~~~t.toBits v.toInt) ↔ t.signed = true := by
  have hbits : t.ofBits (t.toBits v.toInt) = v.toInt := Integral.ofBits_toBits ht hv
  have hpos : 0 < t.bits := by cases t <;> decide
  rw [toInt_complement (by decide)]
  unfold Integral.ofBits at hbits ⊢
  split at hbits
  case isTrue hs =>
    rw [if_pos hs, toInt_complement hpos, hbits]
    exact iff_of_true rfl hs
  case isFalse hs =>
    have hlt := (t.toBits v.toInt).isLt
    rw [if_neg hs, BitVec.toNat_not]
    refine iff_of_false ?_ hs
    omega

namespace Integral

/-- Bits of a type in 64 bits. -/
def extend (t : Integral) (b : BitVec t.bits) : BitVec 64 :=
  if t.signed then b.signExtend 64 else b.setWidth 64

theorem extend_or (t : Integral) (a b : BitVec t.bits) :
    t.extend (a ||| b) = t.extend a ||| t.extend b := by
  unfold extend
  split
  · exact BitVec.signExtend_or
  · exact BitVec.setWidth_or

theorem extend_and (t : Integral) (a b : BitVec t.bits) :
    t.extend (a &&& b) = t.extend a &&& t.extend b := by
  unfold extend
  split
  · exact BitVec.signExtend_and
  · exact BitVec.setWidth_and

theorem toInt_extend (t : Integral) {b : BitVec t.bits}
    (h : t.signed = false → 0 ≤ (t.extend b).toInt) : (t.extend b).toInt = t.ofBits b := by
  have hle : t.bits ≤ 64 := by cases t <;> decide
  unfold extend ofBits at *
  split
  · exact BitVec.toInt_signExtend_of_le hle
  case isFalse hs =>
    have hnonneg := h (by simpa using hs)
    rw [if_neg hs] at hnonneg
    rw [toInt_eq_toNat hnonneg, BitVec.toNat_setWidth_of_le hle]

theorem extend_toBits {t : Integral} (ht : t.IsOperand) {v : BitVec 64} (hv : t.Holds v.toInt) :
    t.extend (t.toBits v.toInt) = v := by
  have hle : t.bits ≤ 64 := by cases t <;> decide
  have hbits := ofBits_toBits ht hv
  unfold extend
  unfold ofBits at hbits
  split
  case isTrue hs =>
    rw [if_pos hs] at hbits
    exact BitVec.eq_of_toInt_eq ((BitVec.toInt_signExtend_of_le hle).trans hbits)
  case isFalse hs =>
    rw [if_neg hs] at hbits
    have hnat := toInt_eq_toNat (v := v) (hbits ▸ Int.natCast_nonneg _)
    apply BitVec.eq_of_toNat_eq
    rw [BitVec.toNat_setWidth_of_le hle]
    rw [hnat] at hbits ⊢
    exact Int.ofNat_inj.mp hbits

theorem nonneg_of_holds {t : Integral} (hs : t.signed = false) {x : Int} (h : t.Holds x) :
    0 ≤ x := by
  have hmin : t.min = 0 := by rw [min, hs]; rfl
  exact hmin ▸ h.1

end Integral

section Bitwise

variable {t : Integral} {l r : BitVec 64}

theorem or_eq (ht : t.IsOperand) (hl : t.Holds l.toInt) (hr : t.Holds r.toInt) :
    (l ||| r).toInt = t.ofBits (t.toBits l.toInt ||| t.toBits r.toInt) := by
  have hext : t.extend (t.toBits l.toInt ||| t.toBits r.toInt) = l ||| r := by
    rw [Integral.extend_or, Integral.extend_toBits ht hl, Integral.extend_toBits ht hr]
  rw [← hext]
  refine t.toInt_extend fun hs => ?_
  have hl0 := Integral.nonneg_of_holds hs hl
  have hr0 := Integral.nonneg_of_holds hs hr
  rw [hext, ← not_lt, ← decide_eq_false_iff_not, ← BitVec.msb_eq_toInt, BitVec.msb_or,
    BitVec.msb_eq_toInt, BitVec.msb_eq_toInt, decide_eq_false (not_lt.mpr hl0),
    decide_eq_false (not_lt.mpr hr0)]
  rfl

theorem and_eq (ht : t.IsOperand) (hl : t.Holds l.toInt) (hr : t.Holds r.toInt) :
    (l &&& r).toInt = t.ofBits (t.toBits l.toInt &&& t.toBits r.toInt) := by
  have hext : t.extend (t.toBits l.toInt &&& t.toBits r.toInt) = l &&& r := by
    rw [Integral.extend_and, Integral.extend_toBits ht hl, Integral.extend_toBits ht hr]
  rw [← hext]
  refine t.toInt_extend fun hs => ?_
  have hl0 := Integral.nonneg_of_holds hs hl
  rw [hext, ← not_lt, ← decide_eq_false_iff_not, ← BitVec.msb_eq_toInt, BitVec.msb_and,
    BitVec.msb_eq_toInt, decide_eq_false (not_lt.mpr hl0)]
  rfl

end Bitwise

/-! ## The constants of C# -/

namespace Constant

/-- The value lies in the type. -/
def Valid (c : Constant) : Prop :=
  match c.type with
  | .char => 0 ≤ c.value ∧ c.value ≤ 65535
  | .integral t => t.Holds c.value

theorem Converts.holds {c : Constant} {t : Integral} (h : c.Converts t) (hc : c.Valid) :
    t.Holds c.value := by
  obtain ⟨type, x⟩ := c
  cases type with
  | char =>
    obtain ⟨hmin, hmax⟩ := h
    obtain ⟨hlo, hhi⟩ := hc
    exact ⟨by omega, by omega⟩
  | integral s =>
    obtain ⟨hlo, hhi⟩ := hc
    rcases h with ⟨hmin, hmax⟩ | ⟨-, h⟩ | ⟨rfl, rfl, h⟩
    · exact ⟨Int.le_trans hmin hlo, Int.le_trans hhi hmax⟩
    · exact h
    · rw [Integral.holds_ulong]
      have := (Integral.holds_long.mp ⟨hlo, hhi⟩).2
      omega

/-- The type that overload resolution finds holds all operands. -/
theorem operatorType_spec {ts : List Integral} {cs : List Constant} {t : Integral}
    (h : operatorType ts cs = some t) : t ∈ ts ∧ ∀ c ∈ cs, c.Valid → t.Holds c.value := by
  refine ⟨List.mem_of_find?_eq_some h, fun c hc hvalid => ?_⟩
  have hall := List.find?_some h
  have hconv := List.all_eq_true.mp hall c hc
  exact (of_decide_eq_true hconv).holds hvalid

theorem checked_eq_some {t : Integral} {x : Int} {e : Constant} (h : checked t x = some e) :
    t.Holds x ∧ e = ⟨.integral t, x⟩ := by
  unfold checked at h
  split at h
  case isTrue hx => exact ⟨hx, (Option.some.inj h).symm⟩
  · cases h

end Constant

/-! ## One operator -/

/-- The complement is taken of a signed operand. -/
def UnaryFaithful (op : UnaryOp) (c : Constant) : Prop :=
  op = .tilde → ∀ t, Constant.operatorType Constant.operatorTypes [c] = some t → t.signed = true

def BinaryFaithful : BinaryOp → Constant → Constant → Prop
  | .lessThanLessThan, c, d =>
      ∀ t, Constant.operatorType Constant.operatorTypes [c] = some t →
        ShiftLeftFaithful t c.value d.value
  | .greaterThanGreaterThan, c, d =>
      ∀ t, Constant.operatorType Constant.operatorTypes [c] = some t →
        ShiftRightFaithful t c.value d.value
  | .plus, c, d => c.value + d.value < 2 ^ 63
  | .asterisk, c, d => c.value * d.value < 2 ^ 63
  | _, _, _ => True

open Constant in
theorem unary_spec {op : UnaryOp} {c e : Constant} {v : BitVec 64} (hc : c.Valid)
    (h : Constant.unary op c = some e) :
    e.Valid ∧ ∃ w, evalUnary op v = some w ∧
      (v.toInt = c.value → (w.toInt = e.value ↔ UnaryFaithful op c)) := by
  cases op with
  | plus =>
    obtain ⟨t, ht, heq⟩ := Option.bind_eq_some_iff.mp h
    obtain ⟨-, hall⟩ := operatorType_spec ht
    obtain rfl := Option.some.inj heq
    exact ⟨hall c (by simp) hc, v, rfl, fun hv => iff_of_true hv (fun h => by cases h)⟩
  | minus =>
    obtain ⟨t, ht, heq⟩ := Option.bind_eq_some_iff.mp h
    obtain ⟨hmem, -⟩ := operatorType_spec ht
    obtain ⟨hholds, rfl⟩ := checked_eq_some heq
    refine ⟨hholds, -v, rfl, fun hv => iff_of_true ?_ (fun h => by cases h)⟩
    have hrange : -2 ^ 63 ≤ -c.value ∧ -c.value < 2 ^ 63 := by
      rcases List.mem_pair.mp hmem with rfl | rfl
      · have := Integral.holds_int.mp hholds
        omega
      · exact Integral.holds_long.mp hholds
    rw [BitVec.toInt_neg, hv]
    exact bmod_long hrange.1 hrange.2
  | tilde =>
    obtain ⟨t, ht, heq⟩ := Option.bind_eq_some_iff.mp h
    obtain ⟨hmem, hall⟩ := operatorType_spec ht
    have hholds := hall c (by simp) hc
    obtain rfl := Option.some.inj heq
    refine ⟨Integral.ofBits_holds hmem _, ~~~v, rfl, fun hv => ?_⟩
    rw [← hv] at hholds ⊢
    rw [complement_iff hmem hholds]
    constructor
    · intro hs _ t' ht'
      rw [ht] at ht'
      exact Option.some.inj ht' ▸ hs
    · intro hf
      exact hf rfl t ht
  | other => cases h

open Constant in
theorem binary_spec {op : BinaryOp} {c d e : Constant} {l r : BitVec 64} (hc : c.Valid)
    (hd : d.Valid) (h : Constant.binary op c d = some e) :
    e.Valid ∧ ∃ w, evalBinary op l r = some w ∧
      (l.toInt = c.value → r.toInt = d.value → (w.toInt = e.value ↔ BinaryFaithful op c d)) := by
  cases op with
  | bar =>
    obtain ⟨t, ht, heq⟩ := Option.bind_eq_some_iff.mp h
    obtain ⟨hmem, hall⟩ := operatorType_spec ht
    obtain rfl := Option.some.inj heq
    refine ⟨Integral.ofBits_holds hmem _, _, rfl, fun hl hr => iff_of_true ?_ trivial⟩
    have hcl := hall c (by simp) hc
    have hdr := hall d (by simp) hd
    rw [← hl] at hcl
    rw [← hr] at hdr
    rw [or_eq hmem hcl hdr, hl, hr]
  | ampersand =>
    obtain ⟨t, ht, heq⟩ := Option.bind_eq_some_iff.mp h
    obtain ⟨hmem, hall⟩ := operatorType_spec ht
    obtain rfl := Option.some.inj heq
    refine ⟨Integral.ofBits_holds hmem _, _, rfl, fun hl hr => iff_of_true ?_ trivial⟩
    have hcl := hall c (by simp) hc
    have hdr := hall d (by simp) hd
    rw [← hl] at hcl
    rw [← hr] at hdr
    rw [and_eq hmem hcl hdr, hl, hr]
  | lessThanLessThan =>
    obtain ⟨t, ht, heq⟩ := Option.bind_eq_some_iff.mp h
    obtain ⟨hmem, hall⟩ := operatorType_spec ht
    split at heq
    · obtain rfl := Option.some.inj heq
      refine ⟨Integral.ofBits_holds hmem _, _, rfl, fun hl hr => ?_⟩
      have hcl := hall c (by simp) hc
      rw [← hl] at hcl
      show _ ↔ ∀ t', _ = some t' → _
      rw [← hl, ← hr, shiftLeft_iff hmem hcl, hl, hr]
      constructor
      · intro hf t' ht'
        rw [ht] at ht'
        exact Option.some.inj ht' ▸ hf
      · intro hf
        exact hf t ht
    · cases heq
  | greaterThanGreaterThan =>
    obtain ⟨t, ht, heq⟩ := Option.bind_eq_some_iff.mp h
    obtain ⟨hmem, hall⟩ := operatorType_spec ht
    split at heq
    · obtain rfl := Option.some.inj heq
      have hholds := t.holds_shiftRight (hall c (by simp) hc) (shiftCount t d.value)
      refine ⟨hholds, _, rfl, fun hl hr => ?_⟩
      show _ ↔ ∀ t', _ = some t' → _
      rw [← hl, ← hr, shiftRight_iff hmem, hl, hr]
      constructor
      · intro hf t' ht'
        rw [ht] at ht'
        exact Option.some.inj ht' ▸ hf
      · intro hf
        exact hf t ht
    · cases heq
  | plus =>
    obtain ⟨t, ht, heq⟩ := Option.bind_eq_some_iff.mp h
    obtain ⟨hmem, -⟩ := operatorType_spec ht
    obtain ⟨hholds, rfl⟩ := checked_eq_some heq
    refine ⟨hholds, _, rfl, fun hl hr => ?_⟩
    obtain ⟨hlo, hhi⟩ := Integral.holds_range hmem hholds
    rw [BitVec.toInt_add, hl, hr]
    exact bmod_long_iff hlo hhi
  | minus =>
    obtain ⟨t, ht, heq⟩ := Option.bind_eq_some_iff.mp h
    obtain ⟨hmem, hall⟩ := operatorType_spec ht
    obtain ⟨hholds, rfl⟩ := checked_eq_some heq
    refine ⟨hholds, _, rfl, fun hl hr => iff_of_true ?_ trivial⟩
    obtain ⟨hlo, hhi⟩ := Integral.holds_range hmem hholds
    rw [BitVec.toInt_sub, hl, hr]
    refine (bmod_long_iff hlo hhi).mpr ?_
    -- an unsigned difference is at most its left operand
    have hlong := (toInt_long l).2
    have hright := hall d (by simp) hd
    rcases Integral.isOperand_cases hmem with rfl | rfl | rfl | rfl
    · rw [Integral.holds_int] at hholds
      omega
    · rw [Integral.holds_uint] at hholds
      omega
    · exact (Integral.holds_long.mp hholds).2
    · rw [Integral.holds_ulong] at hright
      omega
  | asterisk =>
    obtain ⟨t, ht, heq⟩ := Option.bind_eq_some_iff.mp h
    obtain ⟨hmem, -⟩ := operatorType_spec ht
    obtain ⟨hholds, rfl⟩ := checked_eq_some heq
    refine ⟨hholds, _, rfl, fun hl hr => ?_⟩
    obtain ⟨hlo, hhi⟩ := Integral.holds_range hmem hholds
    rw [BitVec.toInt_mul, hl, hr]
    exact bmod_long_iff hlo hhi
  | other => cases h

end MemoryPack.Cs2Cpp
