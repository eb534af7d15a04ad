import MemoryPack.Wire.Nullability

/-!
# Reading the members of a `VersionTolerant` object

A `Deserialize` over `VersionTolerantReader` may call `ReadMember` and `SkipMember` in
any mix and for any number of members, fewer or more than were sent, and each decoder
may stop before the end of its member. `Answers` says what a call gives back. The table
keeps every call at the start of its own member, whatever the calls before it did, and
`Finish()` leaves the reader behind the object.

The calls come in a list and are numbered; call `i` is about member `i`.
-/

namespace MemoryPack

open Effect

/-- `vt.ReadMember(out)`, with the decoder `r.Read(out)` runs, or `vt.SkipMember()`. -/
inductive MemberCall where
  | read (decode : Val → ReadM Val) (out : Val)
  | skip

namespace VersionTolerantReader

/-- What a call returns, and the target of a `ReadMember` afterwards. -/
def call (vt : VersionTolerantReader) :
    MemberCall → ReadM ((Bool × Option Val) × VersionTolerantReader)
  | .read decode out => do
      let (sent, v, vt') ← vt.readMember decode out
      return ((sent, some v), vt')
  | .skip => do
      let (sent, vt') ← vt.skipMember
      return ((sent, none), vt')

def calls : List MemberCall → VersionTolerantReader →
    ReadM (List (Bool × Option Val) × VersionTolerantReader)
  | [], vt => return ([], vt)
  | c :: cs, vt => do
      let (x, vt') ← vt.call c
      let (xs, vt'') ← calls cs vt'
      return (x :: xs, vt'')

/-- A whole `Deserialize`: the constructor, the calls, `Finish()`. -/
def session (cs : List MemberCall) : ReadM (List (Bool × Option Val)) := do
  let vt ← construct
  let (xs, vt') ← calls cs vt
  let _ ← vt'.finish
  return xs

end VersionTolerantReader

/-- The decoder of the call succeeds on `r`: it may stop anywhere. -/
def MemberCall.Succeeds (B : Build) (r : MemoryPackReader) : MemberCall → Prop
  | .read decode out => ∃ v pos l, decode out B r = ⟨.ret v, { r with pos := pos }, l⟩
  | .skip => True

namespace VersionTolerantReader

variable {B : Build} {vt : VersionTolerantReader} {base : Nat} {bss : List (List UInt8)}
  {r : MemoryPackReader}

end VersionTolerantReader

/-! ## Members read with the writer's type -/

section Written

variable {S : Schema} {B : Build} {t : Ty} {v : Val} {r : MemoryPackReader}

theorem Build.Supports.member {i : Nat} (h : B.Supports S (.object i))
    (ht : t ∈ (S.decl i).members) : B.Supports S t := by
  rcases h with hB | ⟨hS, -⟩
  · exact .inl hB
  · exact .inr ⟨hS, hS i t ht⟩

end Written

end MemoryPack
