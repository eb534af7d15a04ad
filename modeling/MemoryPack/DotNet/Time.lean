import MemoryPack.Core.DotNet
import Mathlib.Algebra.Order.Group.Abs
import Mathlib.Algebra.Order.Ring.Int

/-!
# `DateTime` and `TimeSpan` as durations

A tick is 100 ns. `ToTimePoint` on a nanosecond clock and `ToDuration` multiply the tick
count by 100 in a signed 64-bit integer, which has room for about 292 years on either side
of zero. The .NET range is wider than that: the conversions there and back are exact where
the product fits, and nowhere else.
-/

namespace MemoryPack

/-- The greatest tick count whose number of nanoseconds fits into 64 bits. -/
def maxNanosecondTicks : Int := 92233720368547758

theorem int64_eq_some {n : Int} (hlo : -2 ^ 63 ≤ n) (hhi : n < 2 ^ 63) : int64 n = some n :=
  if_pos ⟨hlo, hhi⟩

theorem int64_isSome_iff (n : Int) : (int64 n).isSome ↔ -2 ^ 63 ≤ n ∧ n < 2 ^ 63 := by
  unfold int64
  split <;> simp_all

/-- Scaling by 100 has a value just for the ticks that leave room for it. -/
theorem int64_mul_hundred_iff (n : Int) :
    (int64 (n * 100)).isSome ↔ |n| ≤ maxNanosecondTicks := by
  rw [int64_isSome_iff, abs_le, maxNanosecondTicks]
  omega

theorem int64_mul_hundred {n : Int} (h : |n| ≤ maxNanosecondTicks) :
    int64 (n * 100) = some (n * 100) := by
  obtain ⟨hlo, hhi⟩ := (int64_isSome_iff _).mp ((int64_mul_hundred_iff n).mpr h)
  exact int64_eq_some hlo hhi

theorem durationCast_one {n : Int} (hlo : -2 ^ 63 ≤ n) (hhi : n < 2 ^ 63) (den : Int) :
    durationCast 1 den n = some (n.tdiv den) := by
  rw [durationCast, Int.mul_one, int64_eq_some hlo hhi]
  rfl

/-- Back from nanoseconds nothing is lost. -/
theorem durationCast_mul_hundred {n : Int} (h : |n| ≤ maxNanosecondTicks) :
    durationCast 1 100 (n * 100) = some n := by
  obtain ⟨hlo, hhi⟩ := (int64_isSome_iff _).mp ((int64_mul_hundred_iff n).mpr h)
  rw [durationCast_one hlo hhi, Int.mul_tdiv_cancel n (by decide)]

/-! ## DateTime -/

namespace DateTime

theorem getTicks_lt (d : DateTime) : 0 ≤ d.getTicks ∧ d.getTicks < 2 ^ 62 := by
  have hle : (d.dateData &&& 0x3FFFFFFFFFFFFFFF).toNat ≤ 2 ^ 62 - 1 := by
    rw [UInt64.toNat_and]
    exact Nat.and_le_right
  unfold getTicks
  omega

/-- The kind lies outside the ticks. -/
theorem getTicks_fromTicks {ticks : Int} (h0 : 0 ≤ ticks) (h : ticks < 2 ^ 62)
    (kind : DateTimeKind) : (fromTicks ticks kind).getTicks = ticks := by
  have hkind : (kind.code <<< 62) &&& 0x3FFFFFFFFFFFFFFF = 0 := by cases kind <;> decide
  obtain ⟨n, rfl⟩ := Int.eq_ofNat_of_zero_le h0
  have hn : n < 2 ^ 62 := by exact_mod_cast h
  have hofInt : (UInt64.ofInt (n : Int)).toNat = n := by
    have hmod : ((n : Int) % 2 ^ 64).toNat = n := by omega
    rw [UInt64.ofInt, hmod, UInt64.toNat_ofNat_of_lt' (Nat.lt_trans hn (by decide))]
  have hbits : (fromTicks n kind).dateData &&& 0x3FFFFFFFFFFFFFFF =
      UInt64.ofInt n &&& 0x3FFFFFFFFFFFFFFF := by
    rw [fromTicks, ← UInt64.toNat_inj, UInt64.toNat_and, UInt64.toNat_or,
      Nat.and_or_distrib_right, ← UInt64.toNat_and, ← UInt64.toNat_and, hkind, UInt64.and_assoc]
    exact Nat.or_zero _
  rw [getTicks, hbits, UInt64.toNat_and, hofInt]
  show ((n &&& (2 ^ 62 - 1) : Nat) : Int) = n
  rw [Nat.and_two_pow_sub_one_eq_mod, Nat.mod_eq_of_lt hn]

/-- The time point exists and leads back to the same tick count. -/
def Exact (clock : ClockPeriod) (d : DateTime) : Prop :=
  ∃ tp d', d.toTimePoint clock = some tp ∧ fromTimePoint clock tp = some d' ∧
    d'.getTicks = d.getTicks

theorem toTimePoint_eq (clock : ClockPeriod) (d : DateTime) :
    d.toTimePoint clock = int64 ((d.getTicks - ticksAtUnixEpoch) * clock.perTick) := by
  obtain ⟨hlo, hhi⟩ := d.getTicks_lt
  have hdiff : int64 (d.getTicks - ticksAtUnixEpoch) = some (d.getTicks - ticksAtUnixEpoch) := by
    apply int64_eq_some <;> rw [ticksAtUnixEpoch] <;> omega
  rw [toTimePoint, hdiff]
  show durationCast clock.perTick 1 _ = _
  unfold durationCast
  cases int64 ((d.getTicks - ticksAtUnixEpoch) * clock.perTick) with
  | none => rfl
  | some n => exact congrArg some (Int.tdiv_one n)

/-- From the ticks since the epoch back to the ticks. -/
theorem fromTimePoint_eq {clock : ClockPeriod} {tp : Int} {d : DateTime}
    (h : durationCast 1 clock.perTick tp = some (d.getTicks - ticksAtUnixEpoch)) :
    fromTimePoint clock tp = some (fromTicks d.getTicks .utc) := by
  obtain ⟨hlo, hhi⟩ := d.getTicks_lt
  have hsum : int64 (d.getTicks - ticksAtUnixEpoch + ticksAtUnixEpoch) = some d.getTicks := by
    rw [Int.sub_add_cancel]
    apply int64_eq_some <;> omega
  rw [fromTimePoint, h]
  show (int64 _).bind _ = _
  rw [hsum]
  rfl

theorem exact_iff (clock : ClockPeriod) (d : DateTime) :
    Exact clock d ↔
      clock = .hundredNs ∨ |d.getTicks - ticksAtUnixEpoch| ≤ maxNanosecondTicks := by
  obtain ⟨hlo, hhi⟩ := d.getTicks_lt
  have hback := getTicks_fromTicks hlo hhi .utc
  cases clock with
  | hundredNs =>
    have hrange : -2 ^ 63 ≤ d.getTicks - ticksAtUnixEpoch ∧
        d.getTicks - ticksAtUnixEpoch < 2 ^ 63 := by
      rw [ticksAtUnixEpoch]
      omega
    refine iff_of_true
      ⟨d.getTicks - ticksAtUnixEpoch, _, ?_, fromTimePoint_eq ?_, hback⟩ (.inl rfl)
    · rw [toTimePoint_eq]
      exact (congrArg int64 (Int.mul_one _)).trans (int64_eq_some hrange.1 hrange.2)
    · exact (durationCast_one hrange.1 hrange.2 1).trans (congrArg some (Int.tdiv_one _))
  | ns =>
    constructor
    · rintro ⟨tp, -, htp, -, -⟩
      rw [toTimePoint_eq] at htp
      exact .inr ((int64_mul_hundred_iff _).mp (Option.isSome_of_mem htp))
    · rintro (h | h)
      · cases h
      · refine ⟨_, _, ?_, fromTimePoint_eq (durationCast_mul_hundred h), hback⟩
        rw [toTimePoint_eq]
        exact int64_mul_hundred h

end DateTime

/-! ## TimeSpan -/

namespace TimeSpan

/-- The duration exists and leads back to the same ticks. -/
def Exact (t : TimeSpan) : Prop := ∃ ns, t.toDuration = some ns ∧ fromDuration ns = some t

theorem exact_iff (t : TimeSpan) : Exact t ↔ |t.ticks| ≤ maxNanosecondTicks := by
  constructor
  · rintro ⟨ns, hns, -⟩
    exact (int64_mul_hundred_iff _).mp (Option.isSome_of_mem hns)
  · intro h
    refine ⟨_, int64_mul_hundred h, ?_⟩
    rw [fromDuration, durationCast_mul_hundred h]
    rfl

end TimeSpan

/-- The clock's resolution decides for a `DateTime`, the size alone for a `TimeSpan`. -/
theorem time_conversions_iff (clock : ClockPeriod) (d : DateTime) (t : TimeSpan) :
    (d.Exact clock ↔
      clock = .hundredNs ∨ |d.getTicks - ticksAtUnixEpoch| ≤ maxNanosecondTicks) ∧
    (t.Exact ↔ |t.ticks| ≤ maxNanosecondTicks) :=
  ⟨d.exact_iff clock, t.exact_iff⟩

/-- The first day of the calendar on a nanosecond clock, and the longest time span. -/
theorem time_conversions_overflow :
    (¬ (DateTime.fromTicks 0 .utc).Exact .ns) ∧ ¬ (TimeSpan.mk (2 ^ 63 - 1)).Exact := by
  rw [DateTime.exact_iff, TimeSpan.exact_iff]
  decide

end MemoryPack
