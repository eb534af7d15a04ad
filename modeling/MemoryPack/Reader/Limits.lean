import MemoryPack.Reader.Checks

/-!
# What the configured limits bound

Every length the reader accepts and every request for memory it makes stands behind
a check of its own: a collection length behind `maxCollectionLength` and the bytes
that remain, a string behind `maxStringLength`, a reservation behind the length it is
for. `Limited` says of a program that no event of any run escapes its check, in any
state, whether or not the run succeeds.

The check of a string counts code units. A UTF-8 payload has one byte for each of
them, a UTF-16 payload two, so `maxStringLength` bounds the bytes of the first form
and only the units of the second.
-/

namespace MemoryPack

open Effect

/-- What an event promises under the options of the reader. -/
def ReadEvent.Within (o : ReaderOptions) : ReadEvent → Prop
  | .acceptedLength n => n ≤ o.maxCollectionLength.toNat
  | .acceptedString units unitSize =>
      units ≤ o.maxStringLength.toNat ∧ (unitSize = 1 ∨ unitSize = 2)
  | .alloc count unit remaining => count * unit ≤ remaining
  | _ => True

theorem ReadEvent.Free.within {e : ReadEvent} (h : e.Free) (o : ReaderOptions) : e.Within o := by
  cases e <;> trivial

theorem ReadEvent.Cursor.within {size : Nat} {e : ReadEvent} (h : e.Cursor size)
    (o : ReaderOptions) : e.Within o := by
  cases e <;> trivial

structure LimitedRun {α : Type} (_B : Build) (r : MemoryPackReader)
    (res : Res MemoryPackReader MemoryPackError ReadEvent α) : Prop where
  options : res.st.options = r.options
  events : ∀ e ∈ res.log, e.Within r.options

abbrev Limited {α : Type} (m : ReadM α) : Prop := Always LimitedRun m

variable {α β : Type}

theorem LimitedRun.composes : Composes LimitedRun LimitedRun LimitedRun where
  bind := by
    intro α β m f B r hm hf
    rw [Prog.bind_apply]
    rcases hres : m B r with ⟨a | e | _, r', l⟩
    · have h := hf a r' l hres
      rw [hres] at hm
      have ho : r'.options = r.options := hm.options
      constructor
      · exact h.options.trans ho
      · intro e he
        rcases List.mem_append.mp he with he | he
        · exact hm.events e he
        · exact ho ▸ h.events e he
    · rw [hres] at hm
      exact ⟨hm.options, hm.events⟩
    · rw [hres] at hm
      exact ⟨hm.options, hm.events⟩

/-- A run that keeps the options and emits nothing with a promise attached. -/
theorem LimitedRun.quiet {B : Build} {r : MemoryPackReader}
    {res : Res MemoryPackReader MemoryPackError ReadEvent α} (ho : res.st.options = r.options)
    (hl : ∀ e ∈ res.log, ∀ o, e.Within o) : LimitedRun B r res :=
  ⟨ho, fun e he => hl e he _⟩

namespace Limited

theorem closed : Prog.Closed (fun {α} => Limited (α := α)) where
  pure := fun _ _ _ => .quiet rfl (by simp)
  bind := fun hm hf B r => LimitedRun.composes.bind (hm B r) fun a r' _ _ => hf a B r'

theorem get : Limited (Prog.get : ReadM MemoryPackReader) := fun _ _ => .quiet rfl (by simp)

theorem tell {e : ReadEvent} (he : e.Free) : Limited (Prog.tell e) :=
  fun _ _ => .quiet rfl (by simpa using he.within)

theorem setPos (pos : Nat) : Limited (Reader.setPos pos) :=
  fun _ _ => .quiet rfl (by simp [Reader.setPos, ReadEvent.Within])

theorem fail (code : MemoryPackError) : Limited (Reader.fail code) := by
  intro B r
  cases hB : B.exceptions with
  | true =>
      rw [Reader.fail_throws hB]
      exact .quiet rfl (by simp [ReadEvent.Within])
  | false =>
      rw [Reader.fail_returns hB]
      exact .quiet rfl (by simp [ReadEvent.Within])

theorem nullTest : Limited Reader.nullCollectionTest := by
  intro B r
  by_cases h4 : 4 ≤ r.remaining
  · by_cases he : r.error = .none
    · rw [Reader.nullCollectionTest_ok he h4]
      exact .quiet rfl (by simp [ReadEvent.Within])
    · rw [Reader.nullCollectionTest_failed he h4]
      exact .quiet rfl (by simp)
  · rw [Reader.nullCollectionTest_short h4]
    exact .quiet rfl (by simp)

theorem hostRules : HostRules (fun {α} => Limited (α := α)) :=
  .of_host (.of_setPos closed get tell (fun _ => fail _) setPos)
    (fun hf _ B r => LimitedRun.composes.bind (m := Prog.ask) (.quiet rfl (by simp))
      fun B' r' _ _ => hf B' B r') nullTest

/-! ## Lengths -/

theorem readCollectionLength (min : Nat) : Limited (Reader.readCollectionLength min) := by
  rw [Reader.readCollectionLength_eq]
  refine hostRules.bind (hostRules.readRaw 4) fun n => ?_
  intro B r
  by_cases hnull : asInt32 n = nullCollection
  · rw [hnull, Reader.checkLength_null]
    exact .quiet rfl (by simp)
  · by_cases hok : Reader.LengthOk min (asInt32 n) r
    · rw [Reader.checkLength_ok hok]
      exact ⟨rfl, by simpa [ReadEvent.Within] using hok.limit⟩
    · rw [Reader.checkLength_rejects hnull hok]
      exact hostRules.failWith (by decide : MemoryPackError.lengthLimit ≠ .none) (-1 : Int) B r

/-! ## Strings -/

theorem utf16Loop (left : Nat) (out : List UInt8) : Limited (Reader.utf16Loop left out) := by
  match left with
  | 0 =>
      rw [Reader.utf16Loop]
      exact closed.pure _
  | left + 1 =>
      rw [Reader.utf16Loop]
      refine hostRules.bind (hostRules.readRaw 2) fun hi => Prog.Closed.ite (fun _ => ?_) fun _ =>
        Prog.Closed.ite (fun _ => utf16Loop left _) fun _ => utf16Loop left _
      match left with
      | 0 => exact closed.pure _
      | left' + 1 =>
          refine hostRules.bind (hostRules.readRaw 2) fun lo => ?_
          refine Prog.Closed.ite (fun _ => utf16Loop left' _) fun _ => ?_
          exact hostRules.bind get fun r => hostRules.bind (setPos _) fun _ =>
            utf16Loop (left' + 1) _

theorem readUtf16String (units : Nat) : Limited (Reader.readUtf16String units) := by
  have hc := LimitedRun.composes
  apply hc.checkStringLength (hostRules.checkStringLength _ _)
  · refine hc.sizeProduct (hostRules.sizeProduct _ _) fun n => ?_
    refine hc.ensureBytes (hostRules.ensureBytes n) ?_ (closed.pure _)
    refine hc.tell (fun B r h => ⟨rfl, ?_⟩) (hc.get get fun s => ?_)
    · simpa [ReadEvent.Within] using h.1.limit
    · refine hc.tell ?_ ((utf16Loop units []).from _)
      rintro B r ⟨⟨hok, -, -⟩, rfl⟩
      have hle := Nat.mul_le_of_le_div _ _ _ (hok.present (by decide))
      exact ⟨rfl, by simpa [ReadEvent.Within] using hle⟩
  · exact closed.pure _

/-- The UTF-8 payload, of `ReadString` and of `ReadStringView`. -/
theorem utf8Payload {γ : Type} (byteCount : Nat) (absent : γ) (present : List UInt8 → γ) :
    Limited (do
      if !(← Reader.checkStringLength byteCount 1) then return absent
      match ← Reader.takeBytes byteCount with
      | none => return absent
      | some bs =>
          Prog.tell (.acceptedString byteCount 1)
          return present bs : ReadM γ) := by
  apply LimitedRun.composes.checkStringLength (hostRules.checkStringLength _ _)
  · intro B r hok
    have htake := hostRules.takeBytes byteCount B r
    apply LimitedRun.composes.bind htake
    intro o r' l hres
    rw [hres] at htake
    cases o with
    | none => exact closed.pure _ B r'
    | some bs =>
        refine LimitedRun.composes.bind (m := Prog.tell _) ⟨rfl, ?_⟩ fun _ s _ _ =>
          closed.pure _ B s
        have hle : byteCount ≤ r'.options.maxStringLength.toNat := htake.options ▸ hok.limit
        simpa [ReadEvent.Within] using hle
  · exact closed.pure _

theorem readString : Limited Reader.readString := by
  refine hostRules.bind (hostRules.readRaw 4) fun n => hostRules.bind hostRules.failed fun b => ?_
  refine Prog.Closed.ite (fun _ => closed.pure _) fun _ => ?_
  refine Prog.Closed.ite (fun _ => closed.pure _) fun _ => ?_
  refine Prog.Closed.ite (fun _ => closed.pure _) fun _ => ?_
  refine Prog.Closed.ite (fun _ => hostRules.map (readUtf16String _) some) fun _ => ?_
  exact hostRules.bind (hostRules.readRaw 4) fun _ => utf8Payload _ (some []) some

theorem readStringView : Limited Reader.readStringView := by
  refine hostRules.bind get fun r => hostRules.bind (hostRules.readRaw 4) fun n =>
    hostRules.bind hostRules.failed fun b => ?_
  refine Prog.Closed.ite (fun _ => closed.pure _) fun _ => ?_
  refine Prog.Closed.ite (fun _ => closed.pure _) fun _ => ?_
  refine Prog.Closed.ite (fun _ => closed.pure _) fun _ => ?_
  refine Prog.Closed.ite (fun _ => hostRules.bind (setPos _) fun _ => closed.pure _) fun _ => ?_
  exact hostRules.bind (hostRules.readRaw 4) fun _ => utf8Payload _ none some

/-! ## Collections -/

theorem copyBump (n : Nat) (f : List UInt8 → α) :
    Limited (do let bs ← Reader.copy n; Reader.bump n; return f bs : ReadM α) :=
  hostRules.bind (hostRules.copy n) fun _ => hostRules.bind (hostRules.bump setPos n) fun _ =>
    closed.pure _

/-- A request for memory behind the length it is for. -/
theorem alloc {min : Nat} (hmin : 0 < min) {len : Int} {pre : MemoryPackReader → Prop}
    (hpre : ∀ r, pre r → Reader.LengthOk min len r) {m : ReadM α} (hm : Limited m) :
    From LimitedRun pre (do
      Prog.tell (.alloc len.toNat min (← Prog.get).remaining)
      m : ReadM α) := by
  refine LimitedRun.composes.get get fun s => LimitedRun.composes.tell ?_ (hm.from _)
  rintro B r ⟨hr, rfl⟩
  have hle := (hpre _ hr).mul_le hmin
  exact ⟨rfl, by simpa [ReadEvent.Within] using hle⟩

theorem tellElements (n : Nat) : Limited (Prog.tell (.elements n)) :=
  fun _ _ => .quiet rfl (by simp [ReadEvent.Within])

theorem readVector {w : Nat} (hw : 0 < w) : Limited (Reader.readVector w) := by
  have hc := LimitedRun.composes
  refine hc.readCollectionLength (readCollectionLength w) (fun len hlen _ => ?_) (closed.pure _)
  refine hc.sizeProduct (hostRules.sizeProduct _ _) fun n => ?_
  refine hc.ensureBytes (hostRules.ensureBytes n) (alloc hw (fun r h => h.1.2) ?_) (closed.pure _)
  exact hostRules.bind (tellElements _) fun _ => hostRules.readContiguous setPos w _

theorem readVectorBool : Limited Reader.readVectorBool := by
  have hc := LimitedRun.composes
  refine hc.readCollectionLength (readCollectionLength 1) (fun len hlen _ => ?_) (closed.pure _)
  refine hc.ensureBytes (hostRules.ensureBytes _) (alloc Nat.one_pos (fun r h => h.1.2) ?_)
    (closed.pure _)
  exact hostRules.bind (tellElements _) fun _ => copyBump _ _

theorem readUnmanagedCollection {size : Nat} (hsize : 0 < size) :
    Limited (Reader.readUnmanagedCollection size) := by
  have hc := LimitedRun.composes
  refine hc.readCollectionLength (readCollectionLength size) (fun len hlen _ => ?_) (closed.pure _)
  refine hc.sizeProduct (hostRules.sizeProduct _ _) fun n => ?_
  refine hc.ensureBytes (hostRules.ensureBytes n) (alloc hsize (fun r h => h.1.2) ?_)
    (closed.pure _)
  exact hostRules.bind (tellElements _) fun _ =>
    hostRules.bind (hostRules.sizeProduct _ _) fun _ => copyBump _ _

theorem elements {min : Nat} {reserve counted : Bool} {element : ReadM β} {store : α → β → α}
    {a : α} (hmin : 0 < min) (he : Limited element) :
    Limited (Reader.readElements min reserve counted element store a) := by
  have hbody : ∀ a, Limited (do
      let v ← element
      if counted then Prog.tell (.elements 1)
      return store a v : ReadM α) := fun a => hostRules.bind he fun v =>
    Prog.Closed.ite (fun _ => hostRules.bind (tellElements 1) fun _ => closed.pure _)
      fun _ => closed.pure _
  refine LimitedRun.composes.readCollectionLength (readCollectionLength min)
    (fun len hlen _ => ?_) (closed.pure _)
  refine Prog.Closed.ite (P := fun m => From LimitedRun _ m) (fun _ => ?_) fun _ =>
    Always.from (hostRules.forWhile hbody _ _) _
  exact alloc hmin (fun r h => h.2) (hostRules.forWhile hbody _ _)

theorem subReader (length : Nat) : Limited (Reader.subReader length) :=
  hostRules.bind get fun _ => hostRules.bind (hostRules.ensureBytes _) fun _ =>
    Prog.Closed.ite (fun _ => closed.pure _) fun _ =>
      hostRules.bind (hostRules.bump setPos _) fun _ => closed.pure _

/-! ## Objects -/

/-- An event about the depth counter. -/
theorem tellDepth {e : ReadEvent} (he : ¬ e.Plain) : Limited (Prog.tell e) := by
  refine fun _ _ => .quiet rfl ?_
  simp only [Prog.tell_apply, List.mem_singleton, forall_eq]
  intro o
  cases e <;> first | trivial | exact absurd trivial he

theorem modifyDepth {f : MemoryPackReader → MemoryPackReader} (hf : ∀ r, (f r).options = r.options) :
    Limited (Prog.modify f) :=
  fun _ r => .quiet (hf r) (by simp)

theorem enterObject : Limited Reader.enterObject := by
  refine hostRules.bind get fun r => hostRules.bind (tellDepth id) fun _ => ?_
  refine hostRules.bind (modifyDepth fun _ => rfl) fun _ => hostRules.bind get fun r' => ?_
  exact Prog.Closed.ite (fun _ => hostRules.failWith (by decide) _) fun _ => closed.pure _

theorem leaveObject : Limited Reader.leaveObject := by
  apply modifyDepth
  intro r
  split <;> rfl

theorem objectBody {v : Val} {members : ReadM (List Val)} (hm : Limited members) :
    Limited (Reader.objectBody v members) := by
  refine hostRules.bind enterObject fun ok => Prog.Closed.ite (fun _ => closed.pure _) fun _ => ?_
  refine hostRules.bind (tellDepth id) fun _ => hostRules.bind hm fun vs => ?_
  exact hostRules.bind (tellDepth id) fun _ => hostRules.bind leaveObject fun _ => closed.pure _

theorem readArray {w : Nat} (n : Nat) : Limited (Reader.readArray w (asInt32 n)) :=
  hostRules.readArray setPos (readCollectionLength w) _

theorem readRules : ReadRules (fun {α} _ => Limited (α := α)) (fun _ => True) where
  pure := closed.pure
  bind := closed.bind
  weaken := fun hm _ => hm
  takeBytes := hostRules.takeBytes
  readRaw := hostRules.readRaw
  failWith := fun _ a hc => hostRules.failWith hc a
  advance := hostRules.advance
  readString := readString
  readVector := readVector
  readVectorBool := readVectorBool
  readArray := fun _ => readArray _
  readNullableOf := fun _ _ => hostRules.readNullableOf _
  elements := elements
  nullCollection := hostRules.nullCollection
  nullObject := hostRules.nullObject
  undeclaredUnion := hostRules.undeclaredUnion

theorem opRules : OpRules (fun {α} => Limited (α := α)) :=
  { hostRules with
    readCollectionLength := readCollectionLength
    readString := readString
    readStringView := readStringView
    readVector := readVector
    readVectorBool := readVectorBool
    readArray := fun n _ => readArray n
    readNullableOf := hostRules.readNullableOf
    readUnmanagedCollection := readUnmanagedCollection
    elements := elements
    subReader := subReader
    enterObject := enterObject
    leaveObject := leaveObject
    readObject := fun fuel i v => hostRules.readObject objectBody
      (fun _ _ => .quiet rfl (by simp))
      (fun hnamed _ t _ v => readRules.readTy hnamed t (fun _ _ => trivial) v) (fuel + 1) i v }

end Limited

/-! ## The limits -/

/-- A reader that allows strings of two bytes, in front of a string. -/
def shortStringReader (bs : List UInt8) : MemoryPackReader :=
  { data := bs, options := { maxStringLength := 2 } }

end MemoryPack
