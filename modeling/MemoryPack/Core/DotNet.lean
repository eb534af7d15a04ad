import MemoryPack.Core.Writer

/-!
# The .NET value types (dotnet.hpp)

What the classes of dotnet.hpp compute besides their wire form: `Guid` as text,
`DateTime` and `TimeSpan` as `std::chrono` durations, `Half` from and to `float`.

Characters are bytes. A `float` is its bit pattern. Signed 64-bit arithmetic that leaves
its range is undefined in C++; `int64` yields nothing there.
-/

namespace MemoryPack

/-! ## System.Guid -/

structure Guid where
  data1 : UInt32
  data2 : UInt16
  data3 : UInt16
  data4 : List UInt8
  length_data4 : data4.length = 8
deriving DecidableEq

namespace Guid

/-- `Guid::FromBytes`: the three numbers are copied into host objects and converted. -/
def fromBytes (e : Endian) (bytes : List UInt8) (h : bytes.length = 16) : Guid where
  data1 := UInt32.ofNat (endianConvert e 4 (hostNat e (bytes.take 4)))
  data2 := UInt16.ofNat (endianConvert e 2 (hostNat e ((bytes.drop 4).take 2)))
  data3 := UInt16.ofNat (endianConvert e 2 (hostNat e ((bytes.drop 6).take 2)))
  data4 := (bytes.drop 8).take 8
  length_data4 := by rw [List.length_take, List.length_drop, h]; rfl

def charMinus : UInt8 := 0x2D

/-- The digit a character stands for, -1 if it is none. -/
def hex (c : UInt8) : Int :=
  if c ≥ 0x30 ∧ c ≤ 0x39 then c.toNat - 0x30
  else if c ≥ 0x61 ∧ c ≤ 0x66 then c.toNat - 0x61 + 10
  else if c ≥ 0x41 ∧ c ≤ 0x46 then c.toNat - 0x41 + 10
  else -1

/-- The loop of `readHex`, with `digits` to go from `at` on. -/
def readHexLoop (text : List UInt8) : Nat → Nat → UInt64 → Option UInt64
  | _, 0, v => some v
  | pos, digits + 1, v =>
      let d := hex (text.getD pos 0)
      if d < 0 then none
      else readHexLoop text (pos + 1) digits ((v <<< 4) ||| UInt64.ofNat d.toNat)

def readHex (text : List UInt8) (pos digits : Nat) : Option UInt64 :=
  readHexLoop text pos digits 0

/-- `count` bytes of two digits each. -/
def readHexBytes (text : List UInt8) : Nat → Nat → Option (List UInt8)
  | _, 0 => some []
  | pos, count + 1 => do
      let v ← readHex text pos 2
      let vs ← readHexBytes text (pos + 2) count
      return v.toUInt8 :: vs

theorem length_readHexBytes {text : List UInt8} : ∀ {count pos : Nat} {bs : List UInt8},
    readHexBytes text pos count = some bs → bs.length = count
  | 0, _, _, h => by
      rw [← Option.some.inj h]
      rfl
  | count + 1, pos, bs, h => by
      simp only [readHexBytes, Option.bind_eq_bind, Option.bind_eq_some_iff] at h
      obtain ⟨v, -, vs, hvs, heq⟩ := h
      rw [← Option.some.inj heq, List.length_cons, length_readHexBytes hvs]

/-- `Guid::Parse`. -/
def parse (text : List UInt8) : Option Guid :=
  if text.length ≠ 36 then none
  else if text.getD 8 0 ≠ charMinus ∨ text.getD 13 0 ≠ charMinus ∨ text.getD 18 0 ≠ charMinus ∨
      text.getD 23 0 ≠ charMinus then none
  else
    match readHex text 0 8, readHex text 9 4, readHex text 14 4, readHex text 19 2,
      readHex text 21 2, h : readHexBytes text 24 6 with
    | some v1, some v2, some v3, some b0, some b1, some bs =>
        some
          { data1 := v1.toUInt32, data2 := v2.toUInt16, data3 := v3.toUInt16,
            data4 := b0.toUInt8 :: b1.toUInt8 :: bs,
            length_data4 := by rw [List.length_cons, List.length_cons, length_readHexBytes h] }
    | _, _, _, _, _, _ => none

/-- A lower-case hexadecimal digit. -/
def hexDigit (n : Nat) : UInt8 := UInt8.ofNat (if n < 10 then 0x30 + n else 0x61 + (n - 10))

/-- `snprintf` of `%0Nx`. -/
def formatHex : Nat → Nat → List UInt8
  | 0, _ => []
  | digits + 1, n => formatHex digits (n / 16) ++ [hexDigit (n % 16)]

/-- `Guid::ToString`. -/
def toString (g : Guid) : List UInt8 :=
  formatHex 8 g.data1.toNat ++ [charMinus] ++ formatHex 4 g.data2.toNat ++ [charMinus] ++
    formatHex 4 g.data3.toNat ++ [charMinus] ++
    (g.data4.take 2).flatMap (fun b => formatHex 2 b.toNat) ++ [charMinus] ++
    (g.data4.drop 2).flatMap (fun b => formatHex 2 b.toNat)

/-- The fields as the formatter of `Guid` sees them. -/
def toVal (g : Guid) : Val :=
  .seq [.scalar g.data1.toNat, .scalar g.data2.toNat, .scalar g.data3.toNat, .bytes g.data4]

end Guid

/-! ## System.DateTime, System.TimeSpan -/

/-- `TICKS_AT_UNIX_EPOCH`. -/
def ticksAtUnixEpoch : Int := 621355968000000000

/-- The value of a signed 64-bit operation, if it has one. -/
def int64 (n : Int) : Option Int := if -2 ^ 63 ≤ n ∧ n < 2 ^ 63 then some n else none

/-- What a tick of `std::chrono::system_clock` is. -/
inductive ClockPeriod where
  | hundredNs
  | ns
deriving DecidableEq, Repr

/-- Clock ticks in 100 ns. -/
def ClockPeriod.perTick : ClockPeriod → Int
  | .hundredNs => 1
  | .ns => 100

/-- `std::chrono::duration_cast` between 64-bit durations whose periods are in the ratio
`num / den`: the count is multiplied and then divided, towards zero. -/
def durationCast (num den count : Int) : Option Int := do
  return (← int64 (count * num)).tdiv den

inductive DateTimeKind where
  | unspecified
  | utc
  | local
deriving DecidableEq, Repr

def DateTimeKind.code : DateTimeKind → UInt64
  | .unspecified => 0
  | .utc => 1
  | .local => 2

structure DateTime where
  dateData : UInt64
deriving DecidableEq, Repr

namespace DateTime

def getTicks (d : DateTime) : Int := (d.dateData &&& 0x3FFFFFFFFFFFFFFF : UInt64).toNat

def fromTicks (ticks : Int) (kind : DateTimeKind) : DateTime where
  dateData := (UInt64.ofInt ticks &&& (0x3FFFFFFFFFFFFFFF : UInt64)) ||| (kind.code <<< (62 : UInt64))

/-- `FromTimePoint`; a time point is the count of its duration. -/
def fromTimePoint (clock : ClockPeriod) (tp : Int) : Option DateTime := do
  let hundredNs ← durationCast 1 clock.perTick tp
  return fromTicks (← int64 (hundredNs + ticksAtUnixEpoch)) .utc

def toTimePoint (clock : ClockPeriod) (d : DateTime) : Option Int := do
  durationCast clock.perTick 1 (← int64 (d.getTicks - ticksAtUnixEpoch))

end DateTime

structure TimeSpan where
  ticks : Int
deriving DecidableEq, Repr

namespace TimeSpan

/-- `FromDuration` of nanoseconds. -/
def fromDuration (ns : Int) : Option TimeSpan := do
  return ⟨← durationCast 1 100 ns⟩

def toDuration (t : TimeSpan) : Option Int := int64 (t.ticks * 100)

end TimeSpan

/-! ## System.Half -/

namespace Half

/-- `Half::FromFloat` on the bits of the `float`. -/
def fromFloat (x : UInt32) : UInt16 :=
  let sign := (x >>> 16) &&& 0x8000
  let exp : Int := ((x >>> 23) &&& 0xFF).toNat - 127 + 15
  let mant := x &&& 0x007FFFFF
  if (x >>> 23) &&& 0xFF = 0xFF then
    (sign ||| 0x7C00 ||| (if mant ≠ 0 then 0x0200 else 0)).toUInt16
  else if exp ≥ 0x1F then (sign ||| 0x7C00).toUInt16
  else if exp ≤ 0 then
    if exp < -10 then sign.toUInt16
    else
      let mant := mant ||| 0x00800000
      let shift := UInt32.ofNat (14 - exp).toNat
      let sub := mant >>> shift
      let sub := if (mant >>> (shift - 1)) &&& 1 ≠ 0 then sub + 1 else sub
      (sign ||| sub).toUInt16
  else
    let half := (UInt32.ofNat exp.toNat <<< 10) ||| (mant >>> 13)
    let half := if (mant >>> 12) &&& 1 ≠ 0 then half + 1 else half
    (sign ||| half).toUInt16

end Half

end MemoryPack
