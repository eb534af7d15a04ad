import MemoryPack.Reader.Inert
import MemoryPack.Writer.Inert

/-!
# After a failure

In a build without exceptions the first failure is recorded and the code goes on. This
file puts together what then happens to a reader and to a writer.

A reader keeps its position and its error as long as no `Seek` moves it, and then the
position it ends with is that of the first failure. A read returns the default of its
type, except that a `std::optional` or a smart pointer may be found present; `BlankOn`
says for which types that cannot happen. A writer keeps what it has written as long as
nothing it is asked to append fits.
-/

namespace MemoryPack

open Effect

/-! ## Types whose reads return the default -/

mutual
/-- A failed reader, in front of a null byte or not, reads `T{}`. -/
def Ty.BlankOn (null : Bool) : Ty → Prop
  | .pair a b => a.BlankOn null ∧ b.BlankOn null
  | .optional t =>
      match wireNullEncoding t with
      | .nullableValue => True
      | .object => null = true
      | _ => False
  | .pointer _ _ => null = true
  | .variant tags ts => Ty.BlankAlternatives null tags ts
  | _ => True

/-- The alternative with tag 0 is the first one, or there is none. -/
def Ty.BlankAlternatives (null : Bool) : List UInt16 → List Ty → Prop
  | g :: gs, t :: ts => if g = 0 then t.BlankOn null else ∀ p ∈ gs.zip ts, p.1 ≠ 0
  | _, _ => True
end

theorem failedAlternative_later {S : Schema} {null : Bool} :
    ∀ (gs : List UInt16) (ts : List Ty) (i : Nat),
      ((∀ p ∈ gs.zip ts, p.1 ≠ 0) ∧ failedAlternative S null i gs ts = none) ∨
      (¬ (∀ p ∈ gs.zip ts, p.1 ≠ 0) ∧
        ∃ j v, i ≤ j ∧ failedAlternative S null i gs ts = some (.alt j v))
  | [], ts, i => by
      rw [failedAlternative] <;> simp
  | g :: gs, [], i => by
      rw [failedAlternative] <;> simp
  | g :: gs, t :: ts, i => by
      rw [failedAlternative, List.zip_cons_cons, List.forall_mem_cons]
      by_cases hg : g = 0
      · rw [if_neg (not_not.mpr hg)]
        exact .inr ⟨fun h => h.1 hg, i, _, Nat.le_refl i, rfl⟩
      · rw [if_pos hg]
        rcases failedAlternative_later gs ts (i + 1) with ⟨hall, hnone⟩ | ⟨hsome, j, v, hj, hv⟩
        · exact .inl ⟨⟨hg, hall⟩, hnone⟩
        · exact .inr ⟨fun h => hsome h.2, j, v, Nat.le_of_succ_le hj, hv⟩

theorem failedValue_eq_init {S : Schema} {null : Bool} (t : Ty) :
    failedValue S null t = S.init t ↔ t.BlankOn null := by
  induction t with
  | pair a b iha ihb =>
      rw [failedValue, Schema.init, Val.pair.injEq, Ty.BlankOn, iha, ihb]
  | optional t ih =>
      rw [failedValue, Schema.init, Ty.BlankOn]
      cases wireNullEncoding t <;> cases null <;> simp
  | pointer p t ih =>
      rw [failedValue, Schema.init, Ty.BlankOn]
      cases null <;> simp
  | variant tags ts ih =>
      rw [failedValue, Ty.BlankOn, Schema.init]
      rcases tags with _ | ⟨g, gs⟩
      · rw [failedAlternative] <;> simp [Ty.BlankAlternatives]
      rcases ts with _ | ⟨t, ts⟩
      · rw [failedAlternative] <;> simp [Ty.BlankAlternatives]
      rw [failedAlternative, Ty.BlankAlternatives, Schema.inits, List.headD_cons]
      by_cases hg : g = 0
      · rw [if_neg (not_not.mpr hg), if_pos hg, Option.getD_some, Val.alt.injEq]
        exact (and_iff_right rfl).trans (ih t List.mem_cons_self)
      · rw [if_pos hg, if_neg hg]
        -- an alternative found behind the first has another index
        rcases failedAlternative_later gs ts 1 with ⟨hall, hnone⟩ | ⟨hsome, j, v, hj, hv⟩
        · rw [hnone]
          exact iff_of_true rfl hall
        · rw [hv, Option.getD_some, Val.alt.injEq]
          refine iff_of_false (fun h => ?_) hsome
          omega
  | _ => exact iff_of_true rfl trivial

/-! ## The read operations -/

/-- A read of the public interface, the default value of its result, and when a failed
reader returns it. -/
inductive ReadDefault (S : Schema) (null : Bool) : ∀ {α : Type}, ReadM α → α → Prop → Prop
  | readByte : ReadDefault S null Reader.readByte 0 True
  | readObjectHeader : ReadDefault S null Reader.readObjectHeader ⟨0, false⟩ True
  | readCollectionHeader : ReadDefault S null Reader.readCollectionHeader 0 True
  | readCollectionLength (min : Nat) :
      ReadDefault S null (Reader.readCollectionLength min) 0 True
  | readUnionHeader : ReadDefault S null Reader.readUnionHeader (some 0) True
  | readScalar (s : Scalar) : ReadDefault S null (Reader.readScalar s) 0 True
  | readChar16 : ReadDefault S null Reader.readChar16 0 True
  | readVarIntLength : ReadDefault S null Reader.readVarIntLength 0 True
  | readString : ReadDefault S null Reader.readString (some []) True
  | readStringView : ReadDefault S null Reader.readStringView none True
  | readUnmanaged (u : Unmanaged) :
      ReadDefault S null (Reader.readUnmanaged u.size u.init) u.init True
  | readVector (s : Scalar) : ReadDefault S null (Reader.readVector s.size) [] True
  | readVectorBool : ReadDefault S null Reader.readVectorBool [] True
  | readStringVector : ReadDefault S null Reader.readStringVector [] True
  | readArray (s : Scalar) (n : Nat) :
      ReadDefault S null (Reader.readArray s.size (asInt32 n)) [] True
  | readCollection (t : Ty) :
      ReadDefault S null (Reader.readCollection t (Reader.read S t (S.init t))) [] True
  | readUnmanagedCollection (u : Unmanaged) :
      ReadDefault S null (Reader.readUnmanagedCollection u.size) [] True
  | readMap (o : Order) (k t : Ty) : ReadDefault S null (Reader.readMap S o k t (do
      let x ← Reader.read S k (S.init k)
      let y ← Reader.read S t (S.init t)
      return .pair x y)) [] True
  | readOptional (t : Ty) : ReadDefault S null
      (Reader.nullObjectDeserialize (Reader.read S t (S.init t))) .none (null = true)
  | readNullable (t : Ty) : wireNullEncoding t = .nullableValue →
      ReadDefault S null (Reader.readNullableOf t) .none True
  -- the marker of a failed reader is 0, which is not the null marker
  | readNullableObject (t : Ty) : ReadDefault S null
      (Reader.readNullableObject (Reader.read S t (S.init t))) .none False
  | read (t : Ty) : ReadDefault S null (Reader.read S t (S.init t)) (S.init t) (t.BlankOn null)

variable {α : Type} {S : Schema} {B : Build} {r : MemoryPackReader}

/-- What a read returns on a failed reader, and whether that is the default. -/
theorem ReadDefault.idle {m : ReadM α} {a : α} {blank : Prop} (hB : B.exceptions = false)
    (he : r.error ≠ .none) (h : ReadDefault S r.atNull m a blank) :
    ∃ b, Idle B r m b ∧ (b = a ↔ blank) := by
  have always : ∀ {α : Type} {m : ReadM α} {a : α}, Idle B r m a →
      ∃ b, Idle B r m b ∧ (b = a ↔ True) := fun h => ⟨_, h, iff_of_true rfl trivial⟩
  cases h with
  | readByte => exact always (Idle.readByte he)
  | readObjectHeader => exact always (Idle.readObjectHeader he)
  | readCollectionHeader => exact always ((Idle.readRaw he 4).map _)
  | readCollectionLength min => exact always (Idle.readCollectionLength he min)
  | readUnionHeader => exact always (Idle.readUnionHeader he)
  | readScalar s => exact always (Idle.readScalar he s)
  | readChar16 => exact always (Idle.readRaw he 2)
  | readVarIntLength => exact always ((Idle.readByte he).bind (Idle.pure _))
  | readString => exact always (Idle.readString he)
  | readStringView => exact always (Idle.readStringView he)
  | readUnmanaged u => exact always ((Idle.takeBytes he u.size).bind (Idle.pure u.init))
  | readVector s => exact always (Idle.readVector he s.size)
  | readVectorBool => exact always (Idle.readVectorBool he)
  | readStringVector => exact always (Idle.readElements he [])
  | readArray s n => exact always (Idle.readArray he s.size _)
  | readCollection t => exact always (Idle.readCollection he t _)
  | readUnmanagedCollection u => exact always (Idle.readUnmanagedCollection he u.size)
  | readMap o k t => exact always (Idle.readElements he [])
  | readOptional t =>
      refine ⟨_, Idle.nullObject he (Idle.read hB he S t), ?_⟩
      cases r.atNull <;> simp
  | readNullable t _ => exact always (Idle.readNullableOf he t)
  | readNullableObject t =>
      exact ⟨_, (Idle.readByte he).bind ((Idle.read hB he S t).map Val.some), by simp⟩
  | read t => exact ⟨_, Idle.read hB he S t, failedValue_eq_init t⟩

/-! ## Client code -/

/-- Every public operation but `Reset()`. -/
inductive PublicOp (S : Schema) : ∀ {α : Type}, ReadM α → Prop
  | op {α : Type} {m : ReadM α} : ReaderOp S m → PublicOp S m
  | setOptions (options : ReaderOptions) :
      PublicOp S (Prog.modify ({ · with options := options }))

theorem PublicOp.halting {m : ReadM α} (hm : PublicOp S m) : Halting m := by
  cases hm with
  | op h => exact Halting.opRules.op h
  | setOptions options =>
      intro B r
      exact .same rfl rfl rfl (by simp)

theorem halted_eq_some {pos : Nat} {code : MemoryPackError} (h : r.halted = some (pos, code)) :
    r.pos = pos ∧ r.error = code := by
  unfold MemoryPackReader.halted at h
  split at h
  · exact absurd h (by simp)
  · rw [Option.some.injEq, Prod.mk.injEq] at h
    exact h

theorem halting_session {m : ReadM α} (hm : Prog.Session (fun {_} => PublicOp S) m) : Halting m :=
  Halting.closed.session (fun hop => PublicOp.halting hop) hm

/-- Without exceptions, for every program over the public operations but `Reset()`: if
no `Seek` moves a failed reader, a failed reader keeps its position and its error, and
a reader that fails ends at the position of its first failure, with that error. A `Seek`
on a failed reader keeps the position only in that way. A read on a failed reader keeps it, and returns its default exactly when `ReadDefault`
says so. A run of operations other than `Clear()` and `TakeBuffer()` on a failed writer
leaves it unchanged in every state exactly when nothing that is asked for fits. -/
theorem failed_inert (S : Schema) :
    (∀ (B : Build), B.exceptions = false → ∀ {α : Type} {m : ReadM α},
      Prog.Session (fun {_} => PublicOp S) m → ∀ r : MemoryPackReader,
      Still r.size (m B r).log →
        (r.error ≠ .none → (m B r).st.pos = r.pos ∧ (m B r).st.error = r.error) ∧
        (∀ pos code, r.error = .none → firstFailure (m B r).log = some (pos, code) →
          (m B r).st.pos = pos ∧ (m B r).st.error = code)) ∧
    (∀ (B : Build), B.exceptions = false → ∀ r : MemoryPackReader, r.error ≠ .none →
      ∀ position, (Reader.seek position B r).st.pos = r.pos ↔
        position = r.pos ∨ r.size < position) ∧
    (∀ (B : Build), B.exceptions = false → ∀ r : MemoryPackReader, r.error ≠ .none →
      ∀ {α : Type} {m : ReadM α} {a : α} {blank : Prop}, ReadDefault S r.atNull m a blank →
        (m B r).st.pos = r.pos ∧ (m B r).st.error = r.error ∧
        ((m B r).out = .ret a ↔ blank)) ∧
    (∀ (B : Build), B.exceptions = false → ∀ (cs : List (Command S)),
      ∀ x ∈ Command.runAll B cs, x.writer.error ≠ .none →
      ∀ os : List (WriterOp S), (∀ o ∈ os, o.startsOver = false) →
        ((∀ w ∈ WriterOp.states B x.writer os, Unchanged x.writer w) ↔
          ∀ o ∈ os, ∀ n ∈ o.requests B, ¬ x.writer.view.Fits n)) := by
  refine ⟨?_, ?_, ?_, ?_⟩
  · intro B _ α m hm r hstill
    have hhalted := (halting_session hm B r).halted hstill
    constructor
    · intro he
      rw [halted_of_failed he, Option.some_or] at hhalted
      exact halted_eq_some hhalted
    · intro pos code he hfirst
      rw [halted_of_none he, hfirst, Option.none_or] at hhalted
      exact halted_eq_some hhalted
  · intro B hB r he position
    by_cases hpast : r.size < position
    · rw [Reader.seek_past hpast, Reader.fail_returns hB]
      exact iff_of_true rfl (.inr hpast)
    · rw [Reader.seek_within (Nat.not_lt.mp hpast), or_iff_left hpast]
  · intro B hB r he α m a blank h
    obtain ⟨b, hidle, hblank⟩ := h.idle hB he
    obtain ⟨d', l, hrun⟩ := hidle r.depth
    have hrun' : m B r = ⟨.ret b, { r with depth := d' }, l⟩ := hrun
    rw [hrun']
    refine ⟨rfl, rfl, ?_⟩
    rw [← hblank, Out.ret.injEq]
  · intro B hB cs x hx he os hos
    have hok := Command.runAll_ok B cs x hx
    exact WriterOp.states_unchanged hB os hos hok.inv hok.inv he rfl

/-- A VersionTolerant type with a `uint32_t` and a `uint8_t`. -/
def twoMembers : Schema where
  decl := fun _ => ⟨.versionTolerant, [.scalar (.int false .w4), .scalar (.int false .w1)],
    [.scalar 0, .scalar 0], by simp, by simp, by simp⟩
  less := Schema.plain.less
  equal := Schema.plain.equal

/-- The first member's length entry says one byte, its decoder fails at position 3 for
want of four, and `Seek` still moves the reader to 4. A writer whose two-byte buffer
refused three bytes takes one more. -/
theorem failed_moves :
    (let res := Reader.read twoMembers (.object 0) (.seq [.scalar 0, .scalar 0])
      ⟨false, .little, .w64, 0⟩ { data := [2, 1, 1, 5, 7] }
     firstFailure res.log = some (3, .bufferUnderflow) ∧ res.st.pos = 4 ∧
      res.st.error = .bufferUnderflow) ∧
    (let ws := WriterOp.states ⟨false, .little, .w64, 0⟩ (.ofFixed (some [0, 0]) 2)
      [(.appendBytes [1, 2, 3] : WriterOp .plain), .appendByte 9]
     ws.map (·.size) = [0, 1] ∧ ws.map (·.error) = [.bufferOverflow, .bufferOverflow]) := by
  decide +kernel

end MemoryPack
