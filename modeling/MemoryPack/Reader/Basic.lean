import MemoryPack.Reader.Rules

/-!
# Properties without preconditions

Some properties hold of every primitive statement on its own, in any state:
whatever is built from them by sequencing has the property too. The statements are
listed by how much of the build they look at: nothing (`CursorRules`), a number in
the host's byte order and the width of `size_t` (`StepRules`), or anything but the
error mode (`HostRules`). `MeasuredRules` adds the events that report a length or a
request for memory, `BasicRules` is all of them.
`BasicRules.readRules` turns such a property into an instance of the rule for all
types.
-/

namespace MemoryPack

open Effect

/-- The same target and `size_t` with `Fail` throwing. -/
def Build.throwing (B : Build) : Build := { B with exceptions := true }
/-- The `MEMORYPACK_NO_EXCEPTIONS` build of the same target. -/
def Build.quiet (B : Build) : Build := { B with exceptions := false }

namespace Reader

/-- The null test of the collection encoding on its own. -/
def nullCollectionTest : ReadM Bool := do
  if (← Prog.get).remaining ≥ 4 then return (← peekCollectionHeader) = nullCollection
  return false

section NullTest

variable {B : Build} {r : MemoryPackReader}

theorem nullCollectionTest_ok (he : r.error = .none) (h4 : 4 ≤ r.remaining) :
    nullCollectionTest B r =
      ⟨.ret (asInt32 (LittleEndian.leNat (r.rest.take 4)) = nullCollection), r,
        [.access r.pos 4, .moved (r.pos + 4)]⟩ := by
  simp [nullCollectionTest, peekCollectionHeader, readCollectionHeader, h4, readRaw_ok he h4]

theorem nullCollectionTest_failed (he : r.error ≠ .none) (h4 : 4 ≤ r.remaining) :
    nullCollectionTest B r = ⟨.ret false, r, []⟩ := by
  have hzero : (decide (asInt32 0 = nullCollection)) = false := rfl
  simp [nullCollectionTest, peekCollectionHeader, readCollectionHeader, h4, readRaw_failed he,
    hzero]

theorem nullCollectionTest_short (h4 : ¬ 4 ≤ r.remaining) :
    nullCollectionTest B r = ⟨.ret false, r, []⟩ := by
  simp [nullCollectionTest, h4]

end NullTest

theorem nullCollectionDeserialize_eq (payload : ReadM Val) :
    nullCollectionDeserialize payload = (do
      if ← nullCollectionTest then
        advance 4
        return .none
      return .some (← payload)) := by
  funext B r
  by_cases h : 4 ≤ r.remaining
  · cases hp : (peekCollectionHeader B r) with
    | mk o s l => cases o <;> simp [nullCollectionDeserialize, nullCollectionTest, h, hp]
  · simp [nullCollectionDeserialize, nullCollectionTest, h]

end Reader

/-! ## Statements that do not look at the build -/

structure CursorRules (P : ∀ {α : Type}, ReadM α → Prop) : Prop extends Prog.Closed @P where
  get : P (Prog.get : ReadM MemoryPackReader)
  tell : ∀ {e : ReadEvent}, e.Free → P (Prog.tell e : ReadM Unit)
  fail : ∀ {code}, code ≠ .none → P (Reader.fail code)
  takeBytes : ∀ n, P (Reader.takeBytes n)
  advance : ∀ n, P (Reader.advance n)
  seek : ∀ pos, P (Reader.seek pos)

namespace CursorRules

variable {P : ∀ {α : Type}, ReadM α → Prop}

theorem map (h : CursorRules @P) {α β : Type} {m : ReadM α} (hm : P m) (f : α → β) :
    P (do return f (← m) : ReadM β) :=
  h.bind hm fun a => h.pure (f a)

theorem failWith (h : CursorRules @P) {α : Type} {code : MemoryPackError} (hc : code ≠ .none)
    (a : α) : P (do Reader.fail code; return a : ReadM α) :=
  h.bind (h.fail hc) fun _ => h.pure a

theorem failed (h : CursorRules @P) : P Reader.failed := h.map h.get _

theorem ensureBytes (h : CursorRules @P) (n : Nat) : P (Reader.ensureBytes n) := by
  refine h.bind h.get fun r => ?_
  refine Prog.Closed.ite (fun _ => h.pure _) fun _ => ?_
  exact Prog.Closed.ite (fun _ => h.failWith (by decide) _) fun _ => h.pure _

theorem copy (h : CursorRules @P) (n : Nat) : P (Reader.copy n) :=
  h.bind h.get fun _ => h.bind (h.tell trivial) fun _ => h.pure _

theorem bump (h : CursorRules @P) (hpos : ∀ pos, P (Reader.setPos pos)) (n : Nat) :
    P (Reader.bump n) :=
  h.bind h.get fun _ => hpos _

theorem readByte (h : CursorRules @P) : P Reader.readByte := by
  refine h.bind (h.takeBytes 1) fun o => ?_
  cases o <;> exact h.pure _

theorem checkStringLength (h : CursorRules @P) (byteCount unitSize : Nat) :
    P (Reader.checkStringLength byteCount unitSize) := by
  refine h.bind h.get fun r => ?_
  refine Prog.Closed.ite (fun _ => h.failWith (by decide) _) fun _ => ?_
  exact Prog.Closed.ite (fun _ => h.failWith (by decide) _) fun _ => h.pure _

theorem forWhile (h : CursorRules @P) {α : Type} {stop : MemoryPackReader → Bool}
    {body : α → ReadM α} (hb : ∀ a, P (body a)) : ∀ n a, P (Prog.forWhile stop body n a)
  | 0, a => h.pure a
  | n + 1, a => h.bind h.get fun _ => Prog.Closed.ite (fun _ => h.pure _) fun _ =>
      h.bind (hb a) fun a' => h.forWhile hb n a'

/-- A property for which any look at the target may be taken holds of `ReadRaw`. -/
theorem readRaw (h : CursorRules @P)
    (host : ∀ {f : Build → ReadM Nat}, (∀ B, P (f B)) → (∀ B : Build, f B.throwing = f B.quiet) →
      P (Prog.ask >>= f)) (w : Nat) : P (Reader.readRaw w) := by
  refine h.bind (h.takeBytes w) fun o => ?_
  cases o with
  | none => exact h.pure _
  | some bs => exact host (fun _ => h.pure _) fun _ => rfl

/-- A property of every move of the cursor, checked or not. -/
theorem of_setPos (hP : Prog.Closed @P) (get : P (Prog.get : ReadM MemoryPackReader))
    (tell : ∀ {e : ReadEvent}, e.Free → P (Prog.tell e : ReadM Unit))
    (fail : ∀ {code}, code ≠ .none → P (Reader.fail code))
    (setPos : ∀ pos, P (Reader.setPos pos)) : CursorRules @P := by
  have ensure : ∀ n, P (Reader.ensureBytes n) := by
    intro n
    refine hP.bind get fun r => Prog.Closed.ite (fun _ => hP.pure _) fun _ => ?_
    exact Prog.Closed.ite (fun _ => hP.bind (fail (by decide)) fun _ => hP.pure _) fun _ =>
      hP.pure _
  have bump : ∀ n, P (Reader.bump n) := fun n => hP.bind get fun _ => setPos _
  refine ⟨hP, get, tell, fail, fun n => ?_, fun n => ?_, fun pos => ?_⟩
  · refine hP.bind (ensure n) fun ok => Prog.Closed.ite (fun _ => hP.pure _) fun _ => ?_
    refine hP.bind (hP.bind get fun _ => hP.bind (tell trivial) fun _ => hP.pure _) fun _ => ?_
    exact hP.bind (bump n) fun _ => hP.pure _
  · exact hP.bind (ensure n) fun _ => Prog.Closed.ite (fun _ => bump n) fun _ => hP.pure _
  · exact hP.bind get fun _ => hP.bind (tell trivial) fun _ =>
      Prog.Closed.ite (fun _ => fail (by decide)) fun _ => setPos pos

end CursorRules

/-! ## Statements that do not depend on the byte order -/

structure StepRules (P : ∀ {α : Type}, ReadM α → Prop) : Prop extends CursorRules @P where
  readRaw : ∀ w, P (Reader.readRaw w)
  /-- only the width of `size_t` may be looked at -/
  modulus : ∀ {α : Type} {f : Build → ReadM α}, (∀ B, P (f B)) →
    (∀ B B' : Build, B.sizeMod = B'.sizeMod → f B = f B') → P (Prog.ask >>= f)
  nullTest : P Reader.nullCollectionTest

namespace StepRules

variable {P : ∀ {α : Type}, ReadM α → Prop}

theorem sizeProduct (h : StepRules @P) (a b : Nat) : P (Reader.sizeProduct a b) :=
  h.bind (h.tell trivial) fun _ => h.modulus (fun _ => h.pure _) fun B B' hB => by rw [hB]

theorem readRaws (h : StepRules @P) (w : Nat) : ∀ count, P (Reader.readRaws w count)
  | 0 => h.pure _
  | count + 1 => h.bind (h.readRaw w) fun n => h.map (h.readRaws w count) (n :: ·)

theorem skipElements (h : StepRules @P) (w : Nat) (skipCount : Int) :
    P (Reader.skipElements w skipCount) := by
  refine Prog.Closed.ite (fun _ => h.bind (h.sizeProduct _ w) fun bytes => ?_) fun _ => h.pure _
  exact h.advance bytes

theorem readNullable (h : StepRules @P) (align size : Nat) :
    P (Reader.readNullable align size) := by
  refine h.bind (h.takeBytes _) fun o => ?_
  cases o with
  | none => exact h.pure _
  | some src => exact Prog.Closed.ite (fun _ => h.pure _) fun _ => h.pure _

theorem peekIsNull (h : StepRules @P) : P Reader.peekIsNull :=
  h.bind h.get fun _ => Prog.Closed.ite (fun _ => h.pure _) fun _ =>
    h.bind (h.tell trivial) fun _ => h.pure _

theorem nullObject (h : StepRules @P) {payload : ReadM Val} (hp : P payload) :
    P (Reader.nullObjectDeserialize payload) := by
  refine h.bind h.peekIsNull fun b => ?_
  exact Prog.Closed.ite (fun _ => h.bind h.readByte fun _ => h.pure _) fun _ => h.map hp _

theorem nullCollection (h : StepRules @P) {payload : ReadM Val} (hp : P payload) :
    P (Reader.nullCollectionDeserialize payload) := by
  rw [Reader.nullCollectionDeserialize_eq]
  refine h.bind h.nullTest fun b => ?_
  exact Prog.Closed.ite (fun _ => h.bind (h.advance 4) fun _ => h.pure _) fun _ => h.map hp _

theorem undeclaredUnion (h : StepRules @P) (tag : UInt16) (v : Val) :
    P (Reader.undeclaredUnion tag v) :=
  h.bind (h.tell trivial) fun _ => h.bind h.get fun _ => h.bind (h.advance _) fun _ =>
    h.bind (h.tell trivial) fun _ => h.pure _

/-! ### User types -/

theorem readObjectHeader (h : StepRules @P) : P Reader.readObjectHeader := by
  refine h.bind h.readByte fun b => Prog.Closed.ite (fun _ => h.pure _) fun _ => ?_
  exact Prog.Closed.ite (fun _ => h.failWith (by decide) _) fun _ => h.pure _

theorem readMembers (h : StepRules @P) {S : Schema} {read : Ty → Val → ReadM Val} (count : Nat) :
    ∀ (ts : List Ty) (index : Nat) (vs : List Val), (∀ t ∈ ts, ∀ v, P (read t v)) →
      P (Reader.readMembers S read count index ts vs)
  | [], _, _, _ => h.pure _
  | t :: ts, index, vs, hread => by
      obtain ⟨ht, hts⟩ := List.forall_mem_cons.mp hread
      have hrest := fun v => h.map (h.readMembers (S := S) count ts (index + 1) vs.tail hts) (v :: ·)
      exact Prog.Closed.ite (fun _ => h.bind (ht _) hrest) fun _ =>
        h.bind (h.tell trivial) fun _ => h.bind (h.pure _) hrest

theorem readVarIntLength (h : StepRules @P) : P Reader.readVarIntLength := by
  refine h.bind h.readByte fun b => Prog.Closed.ite (fun _ => h.pure _) fun _ => ?_
  refine Prog.Closed.ite (fun _ => h.readRaw 2) fun _ => ?_
  exact Prog.Closed.ite (fun _ => h.readRaw 4) fun _ => h.failWith (by decide) _

theorem construct (h : StepRules @P) : P VersionTolerantReader.construct := by
  refine h.bind h.readObjectHeader fun header => ?_
  refine Prog.Closed.ite (fun _ => h.pure _) fun _ => ?_
  refine h.bind (h.forWhile (fun ls => ?_) _ _) fun _ => h.bind h.get fun _ => h.pure _
  exact h.map h.readVarIntLength fun n => ls ++ [n]

theorem lengthAt (h : StepRules @P) (vt : VersionTolerantReader) : P vt.lengthAt :=
  h.bind (h.tell trivial) fun _ => h.pure _

theorem readMember (h : StepRules @P) {read : Val → ReadM Val} (hread : ∀ v, P (read v))
    (vt : VersionTolerantReader) (out : Val) :
    P (VersionTolerantReader.readMember read vt out) := by
  refine Prog.Closed.ite (fun _ => h.pure _) fun _ => h.bind (h.lengthAt vt) fun len => ?_
  refine h.modulus (fun B => ?_) fun B B' hB => by simp only [hB]
  refine h.bind (h.seek _) fun _ => h.bind h.failed fun b => ?_
  exact Prog.Closed.ite (fun _ => h.pure _) fun _ => h.bind (hread out) fun v =>
    h.bind (h.seek _) fun _ => h.pure _

theorem skipMember (h : StepRules @P) (vt : VersionTolerantReader) :
    P (VersionTolerantReader.skipMember vt) := by
  refine Prog.Closed.ite (fun _ => h.pure _) fun _ => h.bind (h.lengthAt vt) fun len => ?_
  exact h.modulus (fun B => h.bind (h.seek _) fun _ => h.pure _) fun B B' hB => by simp only [hB]

theorem skipRest (h : StepRules @P) :
    ∀ (left : Nat) (vt : VersionTolerantReader), P (VersionTolerantReader.skipRest left vt)
  | 0, _ => h.pure _
  | left + 1, vt => h.bind (h.skipMember vt) fun x => h.skipRest left x.2

theorem finish (h : StepRules @P) (vt : VersionTolerantReader) :
    P (VersionTolerantReader.finish vt) := by
  refine h.bind (h.skipRest _ vt) fun vt' => ?_
  exact Prog.Closed.ite (fun _ => h.bind (h.seek _) fun _ => h.pure _) fun _ => h.pure _

theorem versionTolerantMembers (h : StepRules @P) {S : Schema} {read : Ty → Val → ReadM Val} :
    ∀ (ts : List Ty) (vs : List Val) (vt : VersionTolerantReader), (∀ t ∈ ts, ∀ v, P (read t v)) →
      P (VersionTolerantReader.readMembers S read ts vs vt)
  | [], _, _, _ => h.pure _
  | t :: ts, vs, vt, hread => by
      obtain ⟨ht, hts⟩ := List.forall_mem_cons.mp hread
      refine h.bind (h.readMember ht vt _) fun x => ?_
      have hrest := h.map (h.versionTolerantMembers (S := S) ts vs.tail x.2.2 hts)
        fun y => (x.2.1 :: y.1, y.2)
      exact Prog.Closed.ite (fun _ => h.bind (h.tell trivial) fun _ => hrest) fun _ => hrest

theorem versionTolerant (h : StepRules @P) {S : Schema} {read : Ty → Val → ReadM Val} {i : Nat}
    (hread : ∀ t ∈ (S.decl i).members, ∀ v, P (read t v)) (v : Val) :
    P (VersionTolerantReader.deserialize S read i v) := by
  refine h.bind h.construct fun vt => Prog.Closed.ite (fun _ => ?_) fun _ => ?_
  · exact h.bind (h.tell trivial) fun _ => h.pure _
  · exact h.bind (h.versionTolerantMembers _ _ vt hread) fun x =>
      h.bind (h.finish x.2) fun _ => h.pure _

/-- A property that also survives an object body and holds of a read that never ends
holds of every user type, if it holds of the types of its members. -/
theorem readObject (h : StepRules @P)
    (hbody : ∀ {v : Val} {members : ReadM (List Val)}, P members → P (Reader.objectBody v members))
    (hdiv : P (Prog.diverge : ReadM Val)) {S : Schema}
    (hty : ∀ {named : Nat → Val → ReadM Val}, (∀ i v, P (named i v)) →
      ∀ i, ∀ t ∈ (S.decl i).members, ∀ v, P (Reader.readTy S named t v)) :
    ∀ (fuel i : Nat) (v : Val), P (Reader.readObject S fuel i v)
  | 0, _, _ => hdiv
  | fuel + 1, i, v => by
      have hread := hty (h.readObject hbody hdiv hty fuel) i
      rw [Reader.readObject]
      split
      · refine h.bind h.readObjectHeader fun header => ?_
        exact Prog.Closed.ite (fun _ => h.pure _) fun _ => hbody (h.readMembers _ _ _ _ hread)
      · exact h.bind h.readObjectHeader fun header =>
          Prog.Closed.ite (fun _ => h.pure _) fun _ => h.bind (h.tell trivial) fun _ => h.pure _
      · exact h.versionTolerant hread v

end StepRules

/-! ## Statements that look at the host's byte order -/

structure HostRules (P : ∀ {α : Type}, ReadM α → Prop) : Prop extends StepRules @P where
  /-- the byte order and the width of `size_t` may be looked at, not the error mode -/
  host : ∀ {α : Type} {f : Build → ReadM α}, (∀ B, P (f B)) →
    (∀ B : Build, f B.throwing = f B.quiet) → P (Prog.ask >>= f)

namespace HostRules

variable {P : ∀ {α : Type}, ReadM α → Prop}

/-- What is left to show is implied by `host` and the statements before it. -/
theorem of_host (h : CursorRules @P)
    (host : ∀ {α : Type} {f : Build → ReadM α}, (∀ B, P (f B)) →
      (∀ B : Build, f B.throwing = f B.quiet) → P (Prog.ask >>= f))
    (nullTest : P Reader.nullCollectionTest) : HostRules @P :=
  { h with
    readRaw := h.readRaw host
    modulus := fun hf hsame => host hf fun _ => hsame _ _ rfl
    nullTest := nullTest
    host := host }

theorem readContiguous (h : HostRules @P) (hpos : ∀ pos, P (Reader.setPos pos)) (w count : Nat) :
    P (Reader.readContiguous w count) := by
  refine h.host (fun B => Prog.Closed.ite (fun _ => ?_) fun _ => h.readRaws w count) fun _ => rfl
  exact h.bind (h.sizeProduct count w) fun _ => h.bind (h.copy _) fun _ =>
    h.bind (h.bump hpos _) fun _ => h.pure _

theorem readArray (h : HostRules @P) (hpos : ∀ pos, P (Reader.setPos pos)) {w : Nat}
    (hlen : P (Reader.readCollectionLength w)) (maxCount : Int) :
    P (Reader.readArray w maxCount) := by
  refine h.bind hlen fun len => ?_
  refine Prog.Closed.ite (fun _ => h.pure _) fun _ => ?_
  refine Prog.Closed.ite (fun _ => ?_) fun _ =>
    h.bind (h.skipElements w _) fun _ => h.pure _
  refine h.bind (h.sizeProduct _ w) fun bytes => h.bind (h.ensureBytes bytes) fun ok => ?_
  refine Prog.Closed.ite (fun _ => h.pure _) fun _ => ?_
  exact h.bind (h.readContiguous hpos w _) fun _ => h.bind (h.skipElements w _) fun _ => h.pure _

theorem readNullableOf (h : HostRules @P) (t : Ty) : P (Reader.readNullableOf t) := by
  cases t with
  | scalar s =>
      refine h.bind (h.readNullable s.size s.size) fun o => ?_
      cases o with
      | none => exact h.pure _
      | some bs => exact h.host (fun _ => h.pure _) fun _ => rfl
  | unmanaged u =>
      refine h.bind (h.readNullable u.align u.size) fun o => ?_
      cases o <;> exact h.pure _
  | _ => exact h.pure _

end HostRules

/-! ## Statements that move the cursor unchecked or report what was checked -/

structure MeasuredRules (P : ∀ {α : Type}, ReadM α → Prop) : Prop extends StepRules @P where
  setPos : ∀ pos, P (Reader.setPos pos)
  measured : ∀ {e : ReadEvent}, e.Measured → P (Prog.tell e : ReadM Unit)

namespace MeasuredRules

variable {P : ∀ {α : Type}, ReadM α → Prop}

theorem readCollectionLength (h : MeasuredRules @P) (min : Nat) :
    P (Reader.readCollectionLength min) := by
  refine h.bind (h.readRaw 4) fun n => ?_
  refine Prog.Closed.ite (fun _ => ?_) fun _ => h.bind h.get fun r => ?_
  · exact Prog.Closed.ite (fun _ => h.failWith (by decide) _) fun _ => h.pure _
  · refine Prog.Closed.ite (fun _ => h.failWith (by decide) _) fun _ => ?_
    refine Prog.Closed.ite (fun _ => h.failWith (by decide) _) fun _ => ?_
    exact h.bind (h.measured trivial) fun _ => h.pure _

theorem utf16Loop (h : MeasuredRules @P) (left : Nat) (out : List UInt8) :
    P (Reader.utf16Loop left out) := by
  match left with
  | 0 =>
      rw [Reader.utf16Loop]
      exact h.pure _
  | left + 1 =>
      rw [Reader.utf16Loop]
      refine h.bind (h.readRaw 2) fun hi => Prog.Closed.ite (fun _ => ?_) fun _ =>
        Prog.Closed.ite (fun _ => h.utf16Loop left _) fun _ => h.utf16Loop left _
      match left with
      | 0 => exact h.pure _
      | left' + 1 =>
          refine h.bind (h.readRaw 2) fun lo => ?_
          refine Prog.Closed.ite (fun _ => h.utf16Loop left' _) fun _ => ?_
          exact h.bind h.get fun r => h.bind (h.setPos _) fun _ => h.utf16Loop (left' + 1) _

theorem readUtf16String (h : MeasuredRules @P) (units : Nat) : P (Reader.readUtf16String units) := by
  refine h.bind (h.checkStringLength units 2) fun ok => ?_
  refine Prog.Closed.ite (fun _ => h.pure _) fun _ => ?_
  refine h.bind (h.sizeProduct units 2) fun bytes => h.bind (h.ensureBytes bytes) fun ok => ?_
  refine Prog.Closed.ite (fun _ => h.pure _) fun _ => ?_
  exact h.bind (h.measured trivial) fun _ => h.bind h.get fun _ =>
    h.bind (h.measured trivial) fun _ => h.utf16Loop units []

theorem readString (h : MeasuredRules @P) : P Reader.readString := by
  refine h.bind (h.readRaw 4) fun n => h.bind h.failed fun b => ?_
  refine Prog.Closed.ite (fun _ => h.pure _) fun _ => ?_
  refine Prog.Closed.ite (fun _ => h.pure _) fun _ => ?_
  refine Prog.Closed.ite (fun _ => h.pure _) fun _ => ?_
  refine Prog.Closed.ite (fun _ => h.map (h.readUtf16String _) some) fun _ => ?_
  refine h.bind (h.readRaw 4) fun _ => h.bind (h.checkStringLength _ 1) fun ok => ?_
  refine Prog.Closed.ite (fun _ => h.pure _) fun _ => h.bind (h.takeBytes _) fun o => ?_
  cases o with
  | none => exact h.pure _
  | some bs => exact h.bind (h.measured trivial) fun _ => h.pure _

theorem readVectorBool (h : MeasuredRules @P) : P Reader.readVectorBool := by
  refine h.bind (h.readCollectionLength 1) fun len => ?_
  refine Prog.Closed.ite (fun _ => h.pure _) fun _ => h.bind (h.ensureBytes _) fun ok => ?_
  refine Prog.Closed.ite (fun _ => h.pure _) fun _ => ?_
  exact h.bind h.get fun _ => h.bind (h.measured trivial) fun _ => h.bind (h.measured trivial) fun _ =>
    h.bind (h.copy _) fun _ => h.bind (h.bump h.setPos _) fun _ => h.pure _

theorem elements (h : MeasuredRules @P) {α β : Type} {min : Nat} {reserve counted : Bool}
    {element : ReadM β} {store : α → β → α} {a : α} (he : P element) :
    P (Reader.readElements min reserve counted element store a) := by
  refine h.bind (h.readCollectionLength min) fun len => ?_
  refine Prog.Closed.ite (fun _ => h.pure _) fun _ => ?_
  have hbody : ∀ a, P (do
      let v ← element
      if counted then Prog.tell (.elements 1)
      return store a v : ReadM α) := fun a => h.bind he fun v =>
    Prog.Closed.ite (fun _ => h.bind (h.measured trivial) fun _ => h.pure _) fun _ => h.pure _
  exact Prog.Closed.ite (fun _ => h.bind h.get fun _ => h.bind (h.measured trivial) fun _ =>
    h.forWhile hbody _ a) fun _ => h.forWhile hbody _ a

end MeasuredRules

/-! ## Statements of any kind -/

structure BasicRules (P : ∀ {α : Type}, ReadM α → Prop) : Prop
    extends HostRules @P, MeasuredRules @P

namespace BasicRules

variable {P : ∀ {α : Type}, ReadM α → Prop}

/-- A property of every event and of every look at the target. -/
theorem of_host (h : CursorRules @P) (setPos : ∀ pos, P (Reader.setPos pos))
    (measured : ∀ {e : ReadEvent}, e.Measured → P (Prog.tell e : ReadM Unit))
    (host : ∀ {α : Type} {f : Build → ReadM α}, (∀ B, P (f B)) →
      (∀ B : Build, f B.throwing = f B.quiet) → P (Prog.ask >>= f))
    (nullTest : P Reader.nullCollectionTest) : BasicRules @P :=
  { HostRules.of_host h host nullTest with setPos := setPos, measured := measured }

theorem readVector (h : BasicRules @P) (w : Nat) : P (Reader.readVector w) := by
  refine h.bind (h.readCollectionLength w) fun len => ?_
  refine Prog.Closed.ite (fun _ => h.pure _) fun _ => ?_
  refine h.bind (h.sizeProduct _ w) fun bytes => h.bind (h.ensureBytes bytes) fun ok => ?_
  refine Prog.Closed.ite (fun _ => h.pure _) fun _ => ?_
  exact h.bind h.get fun _ => h.bind (h.measured trivial) fun _ =>
    h.bind (h.measured trivial) fun _ => h.readContiguous h.setPos w _

theorem readRules (h : BasicRules @P) : ReadRules (fun {_} _ => P) (fun _ => True) where
  pure := h.pure
  bind := h.bind
  weaken := fun hm _ => hm
  takeBytes := h.takeBytes
  readRaw := h.readRaw
  failWith := fun _ a hc => h.failWith hc a
  advance := h.advance
  readString := h.readString
  readVector := fun _ => h.readVector _
  readVectorBool := h.readVectorBool
  readArray := fun _ => h.readArray h.setPos (h.readCollectionLength _) _
  readNullableOf := fun _ _ => h.readNullableOf _
  elements := fun _ he => h.elements he
  nullCollection := h.nullCollection
  nullObject := h.nullObject
  undeclaredUnion := h.undeclaredUnion

/-- `Read<T>` for every `T`, with no condition on sizes. -/
theorem readTy (h : BasicRules @P) {S : Schema} {named : Nat → Val → ReadM Val}
    (hnamed : ∀ i v, P (named i v)) (t : Ty) (v : Val) : P (Reader.readTy S named t v) :=
  h.readRules.readTy hnamed t (fun _ _ => trivial) v

theorem readObject (h : BasicRules @P)
    (hbody : ∀ {v : Val} {members : ReadM (List Val)}, P members → P (Reader.objectBody v members))
    (hdiv : P (Prog.diverge : ReadM Val)) {S : Schema} (fuel i : Nat) (v : Val) :
    P (Reader.readObject S fuel i v) :=
  h.toStepRules.readObject hbody hdiv (fun hnamed _ t _ v => h.readTy hnamed t v) fuel i v

theorem read (h : BasicRules @P)
    (hbody : ∀ {v : Val} {members : ReadM (List Val)}, P members → P (Reader.objectBody v members))
    (hdiv : P (Prog.diverge : ReadM Val)) {S : Schema} (t : Ty) (v : Val) :
    P (Reader.read S t v) :=
  h.bind h.get fun r => h.readTy (h.readObject hbody hdiv (r.size + 1)) t v

end BasicRules

end MemoryPack
